import Memleax.Tracer.Children
import Memleax.Tracer.Held

/-!
# Every stop is answered

A thread that `waitpid` has reported stopped does not move before memleax lets
it: with `ptrace_continue`, which passes a signal on or not, or with
`ptrace_detach`. Here the reported stops and the answers are both written down,
thread by thread, next to the system. As long as the loop runs each stop has one
answer that fits it, in the order of the stops, and an answer that is still to
come is a request under way or the wake-up of a held thread.
-/

namespace Memleax

open Framework

/-- How a stop ends: `ptrace_continue(pid, signum)` or `ptrace_detach`. -/
inductive Answer where
  | cont (signum : Option Signo)
  | detach
deriving DecidableEq, Repr

/-- The answers that fit a stop by `signum`. -/
inductive Answer.Fits : Signo → Answer → Prop
  | trap : Fits .sigtrap (.cont none)
  | go : Fits .sigstop (.cont none)
  | release : Fits .sigstop .detach
  | forward (signum : Signo) (hstop : signum ≠ .sigstop) (htrap : signum ≠ .sigtrap) :
      Fits signum (.cont (some signum))

def Request.answer (t : Pid) : Request → Option Answer
  | .resume u signum => if u = t then some (.cont signum) else none
  | .detach u => if u = t then some .detach else none
  | .write _ | .alarm _ | .writeChild _ _ _ => none

/-- The answers to thread `t` among the requests. -/
def answersIn (requests : List Request) (t : Pid) : List Answer :=
  requests.filterMap (Request.answer t)

/-- The answers that thread `t` is still to get. -/
def outstanding (requests : List Request) (hold : List Pid) (t : Pid) : List Answer :=
  answersIn requests t ++ if t ∈ hold then [.cont none] else []

/-- The system with what `waitpid` has reported and the kernel has carried out. -/
structure Witnessed where
  sys : System
  stops : Pid → List Signo := fun _ => []
  answers : Pid → List Answer := fun _ => []

namespace Witnessed

/-- `g_target_pid` has been attached, which is a stop too. -/
def start (s₀ : System) : Witnessed where
  sys := s₀
  stops := Function.update (fun _ => []) s₀.monitor.targetPid [.sigstop]

def outstanding (w : Witnessed) (t : Pid) : List Answer :=
  Memleax.outstanding w.sys.queue w.sys.monitor.holdThreads t

def stopsAfter (w : Witnessed) : Label → Pid → List Signo
  | .wait t _ =>
      match w.sys.status t with
      | .pending (.stop signum _) => Function.update w.stops t (w.stops t ++ [signum])
      | _ => w.stops
  | _ => w.stops

def answersAfter (w : Witnessed) : Label → Pid → List Answer
  | .issue => fun t => w.answers t ++ answersIn (w.sys.queue.take 1) t
  | _ => w.answers

def step (w : Witnessed) (label : Label) : Option Witnessed :=
  (w.sys.step label).map fun sys =>
    { sys := sys, stops := w.stopsAfter label, answers := w.answersAfter label }

end Witnessed

/-! ## The answers of one iteration -/

@[simp] theorem answersIn_nil (t : Pid) : answersIn [] t = [] := rfl

@[simp] theorem answersIn_append (rs rs' : List Request) (t : Pid) :
    answersIn (rs ++ rs') t = answersIn rs t ++ answersIn rs' t := by
  simp [answersIn]

@[simp] theorem answersIn_writes (writes : List Write) (t : Pid) :
    answersIn (writes.map Request.write) t = [] := by
  simp [answersIn, Request.answer]

theorem answersIn_resume_self (t : Pid) (signum : Option Signo) :
    answersIn [.resume t signum] t = [.cont signum] := by
  simp [answersIn, Request.answer]

theorem answersIn_resume_of_ne {t u : Pid} (h : u ≠ t) (signum : Option Signo) :
    answersIn [.resume t signum] u = [] := by
  simp [answersIn, Request.answer, Ne.symm h]

theorem outstanding_of_mem {requests : List Request} {hold : List Pid} {t : Pid} (h : t ∈ hold) :
    outstanding requests hold t = answersIn requests t ++ [.cont none] := by
  rw [outstanding, if_pos h]

theorem outstanding_of_notMem {requests : List Request} {hold : List Pid} {t : Pid}
    (h : t ∉ hold) : outstanding requests hold t = answersIn requests t := by
  rw [outstanding, if_neg h, List.append_nil]

/-- The iteration answers the stop of `pid` by one of the `allowed`, now or later,
and takes nothing from the others. -/
structure Turn.Answers (turn : Turn) (hold : List Pid) (pid : Pid) (allowed : Answer → Prop) :
    Prop where
  self : ∃ a, allowed a ∧ outstanding turn.requests turn.monitor.holdThreads pid = [a]
  other : ∀ u, u ≠ pid →
    outstanding turn.requests turn.monitor.holdThreads u = outstanding [] hold u

section Turn

variable {m : Monitor} {pid : Pid} {ctx : Context} {out : Outside} {allowed : Answer → Prop}

/-- An iteration that resumes the reported thread, with the hold queue as it was. -/
theorem Turn.answers_resume (hpid : pid ∉ m.holdThreads) {turn : Turn}
    (hhold : turn.monitor.holdThreads = m.holdThreads) {signum : Option Signo}
    (hallowed : allowed (.cont signum)) {sent : List Request} (hsent : ∀ u, answersIn sent u = [])
    (hrequests : turn.requests = sent ++ [.resume pid signum]) :
    turn.Answers m.holdThreads pid allowed := by
  constructor
  · refine ⟨.cont signum, hallowed, ?_⟩
    rw [hhold, outstanding_of_notMem hpid, hrequests, answersIn_append, hsent,
      answersIn_resume_self, List.nil_append]
  · intro u hu
    simp only [hhold, hrequests, outstanding, answersIn_append, hsent, answersIn_resume_of_ne hu,
      answersIn_nil, List.append_nil]

theorem Monitor.lexpire_requests {sent : List Request} {invoked : Option Invocation}
    (hloop : (m.lexpire pid ctx out sent invoked).phase = .loop) :
    (m.lexpire pid ctx out sent invoked).monitor.holdThreads = m.holdThreads ∧
      ∃ seconds, (m.lexpire pid ctx out sent invoked).requests =
        (sent ++ [.alarm seconds]) ++ [.resume pid none] := by
  revert hloop
  unfold Monitor.lexpire
  dsimp only
  split
  · rintro ⟨⟩
  · rintro -
    exact ⟨rfl, _, (List.append_assoc _ [_] [_]).symm⟩

theorem Monitor.lexpire_answers {m' : Monitor} (hpid : pid ∉ m.holdThreads) {sent : List Request}
    (hsent : ∀ u, answersIn sent u = []) {invoked : Option Invocation}
    (hloop : (m'.lexpire pid ctx out sent invoked).phase = .loop)
    (hhold : m'.holdThreads = m.holdThreads) (hallowed : allowed (.cont none)) :
    (m'.lexpire pid ctx out sent invoked).Answers m.holdThreads pid allowed := by
  obtain ⟨hkept, seconds, hrequests⟩ := Monitor.lexpire_requests hloop
  refine Turn.answers_resume hpid (hkept.trans hhold) hallowed ?_ hrequests
  intro u
  rw [answersIn_append, hsent]
  rfl

/-- A wake-up moves the answer of the held thread from `hold_threads` to the requests. -/
theorem Monitor.lexpire_wakes {m' : Monitor} {held : Pid} {rest : List Pid}
    (hnodup : (held :: rest).Nodup) (hpid : pid ∉ held :: rest)
    {sent : List Request} (hsent : ∀ u, answersIn sent u = []) {invoked : Option Invocation}
    (hloop : (m'.lexpire pid ctx out (sent ++ [.resume held none]) invoked).phase = .loop)
    (hhold : m'.holdThreads = rest) (hallowed : allowed (.cont none)) :
    (m'.lexpire pid ctx out (sent ++ [.resume held none]) invoked).Answers (held :: rest) pid
      allowed := by
  obtain ⟨hkept, seconds, hrequests⟩ := Monitor.lexpire_requests hloop
  obtain ⟨hne, hrest⟩ := not_or.mp fun h => hpid (List.mem_cons.mpr h)
  have halarm : ∀ u, answersIn [.alarm seconds] u = [] := fun _ => rfl
  constructor
  · refine ⟨.cont none, hallowed, ?_⟩
    rw [hkept, hhold, hrequests, outstanding_of_notMem hrest]
    simp only [answersIn_append, hsent, halarm, answersIn_resume_of_ne hne, answersIn_resume_self,
      List.append_nil, List.nil_append]
  · intro u hu
    rw [hkept, hhold, hrequests]
    by_cases heq : u = held
    · subst heq
      rw [outstanding_of_notMem (List.nodup_cons.mp hnodup).1,
        outstanding_of_mem List.mem_cons_self]
      simp only [answersIn_append, hsent, halarm, answersIn_resume_of_ne hu, answersIn_resume_self,
        answersIn_nil, List.append_nil, List.nil_append]
    · simp only [outstanding, answersIn_append, hsent, halarm, answersIn_resume_of_ne hu,
        answersIn_resume_of_ne heq, answersIn_nil, List.mem_cons, heq, false_or, List.append_nil]

theorem Monitor.atReturn_answers (hnodup : m.holdThreads.Nodup) (hpid : pid ∉ m.holdThreads)
    {writes : List Write} {api : Api}
    (hloop : (m.atReturn pid ctx out (writes.map Request.write) api).phase = .loop)
    (hallowed : allowed (.cont none)) :
    (m.atReturn pid ctx out (writes.map Request.write) api).Answers m.holdThreads pid allowed := by
  revert hloop
  unfold Monitor.atReturn
  dsimp only
  split
  · rintro ⟨⟩
  · split
    · rename_i hempty
      intro hloop
      exact Monitor.lexpire_answers hpid (answersIn_writes writes) hloop rfl hallowed
    · rename_i held rest hheld
      intro hloop
      rw [hheld] at hnodup hpid ⊢
      exact Monitor.lexpire_wakes hnodup hpid (answersIn_writes writes) hloop rfl hallowed

theorem Monitor.onSigtrap_answers (hnodup : m.holdThreads.Nodup) (hpid : pid ∉ m.holdThreads)
    {code : Code} (hloop : (m.onSigtrap code pid ctx out).phase = .loop)
    (hallowed : allowed (.cont none)) :
    (m.onSigtrap code pid ctx out).Answers m.holdThreads pid allowed := by
  revert hloop
  unfold Monitor.onSigtrap
  dsimp only
  split
  · split
    · -- held: the answer waits in `hold_threads`
      rintro -
      refine ⟨⟨.cont none, hallowed, outstanding_of_mem List.mem_cons_self⟩, ?_⟩
      intro u hu
      simp only [outstanding, List.mem_cons, hu, false_or]
    · rintro ⟨⟩
  · split
    · rintro ⟨⟩
    · rename_i writes _
      split
      · split
        · rintro ⟨⟩
        · intro hloop
          exact Monitor.atReturn_answers hnodup hpid hloop hallowed
      · split
        · unfold Monitor.atEntry
          intro hloop
          refine Monitor.lexpire_answers hpid ?_ hloop rfl hallowed
          intro u
          rw [answersIn_append, answersIn_writes]
          rfl
        · unfold Monitor.elsewhere
          split
          · rintro ⟨⟩
          · intro hloop
            exact Monitor.lexpire_answers hpid (answersIn_writes writes) hloop rfl hallowed

theorem Monitor.onSigstop_answers (hpid : pid ∉ m.holdThreads)
    (hloop : (m.onSigstop pid ctx out).phase = .loop) :
    (m.onSigstop pid ctx out).Answers m.holdThreads pid (Answer.Fits .sigstop) := by
  revert hloop
  unfold Monitor.onSigstop
  split
  · intro hloop
    exact Monitor.lexpire_answers hpid answersIn_nil hloop rfl .go
  · split
    · rintro ⟨⟩
    · split
      · rintro -
        exact Turn.answers_resume hpid rfl .go answersIn_nil rfl
      · rintro -
        constructor
        · refine ⟨.detach, .release, ?_⟩
          rw [outstanding_of_notMem hpid]
          simp [answersIn, Request.answer, Api.all, List.filterMap_cons]
        · intro u hu
          simp [outstanding, answersIn, Request.answer, Api.all, Ne.symm hu]

/-- **Every reported stop is answered once**, if the loop goes on. -/
theorem Monitor.turn_answers (hnodup : m.holdThreads.Nodup) (hpid : pid ∉ m.holdThreads)
    {code : Code} {signum : Signo} {event : Bool}
    (hloop : (m.turn code pid (.stop signum event) ctx out).phase = .loop) :
    (m.turn code pid (.stop signum event) ctx out).Answers m.holdThreads pid
      (Answer.Fits signum) := by
  have hforward : signum ≠ .sigstop → signum ≠ .sigtrap →
      Turn.Answers { monitor := m, context := ctx, requests := [.resume pid (some signum)] }
        m.holdThreads pid (Answer.Fits signum) :=
    fun hstop htrap => Turn.answers_resume hpid rfl (.forward signum hstop htrap) answersIn_nil rfl
  cases signum with
  | sigstop => exact Monitor.onSigstop_answers hpid hloop
  | sigtrap =>
      cases event with
      | true => exact Turn.answers_resume hpid rfl .trap answersIn_nil rfl
      | false => exact Monitor.onSigtrap_answers hnodup hpid hloop .trap
  | sigalrm => exact hforward nofun nofun
  | sigint => exact hforward nofun nofun
  | sighup => exact hforward nofun nofun
  | sigterm => exact hforward nofun nofun
  | other number => exact hforward nofun nofun

/-- The end of a thread needs no answer. -/
theorem Monitor.turn_exit_answers {code : Code} (u : Pid) :
    outstanding (m.turn code pid .exit ctx out).requests
        (m.turn code pid .exit ctx out).monitor.holdThreads u = outstanding [] m.holdThreads u := by
  unfold Monitor.turn
  dsimp only
  split <;> rfl

end Turn

/-! ## Runs -/

/-- **Every stop is answered, and once.** -/
structure Witnessed.Settled (w : Witnessed) (t : Pid) : Prop where
  /-- The answers, the outstanding one included, are those of the stops, in their order. -/
  fits : List.Forall₂ Answer.Fits (w.stops t) (w.answers t ++ w.outstanding t)
  once : (w.outstanding t).length ≤ 1
  /-- A stopped thread is going to be answered, or it has been released. -/
  stopped : w.sys.status t = .stopped → w.outstanding t ≠ [] ∨ .detach ∈ w.answers t
  /-- A thread that runs or is to be reported is not answered. -/
  moves : w.sys.Alive t → w.sys.status t ≠ .stopped → w.outstanding t = []

/-- The invariant of all runs. -/
structure AnswerInv (w : Witnessed) : Prop where
  hold : HoldInv w.sys
  settled : w.sys.phase = .loop → ∀ t, w.Settled t

section Steps

variable {w w' : Witnessed} {t : Pid}

theorem Witnessed.step_eq_some {label : Label} (h : w.step label = some w') :
    w.sys.step label = some w'.sys ∧ w'.stops = w.stopsAfter label ∧
      w'.answers = w.answersAfter label := by
  obtain ⟨sys, hsys, rfl⟩ := Option.map_eq_some_iff.mp h
  exact ⟨hsys, rfl, rfl⟩

/-- A step that is not about the answers of a thread. -/
theorem Witnessed.Settled.congr (h : w.Settled t) (hstops : w'.stops t = w.stops t)
    (hanswers : w'.answers t = w.answers t) (hout : w'.outstanding t = w.outstanding t)
    (hstopped : w'.sys.status t = .stopped → w.sys.status t = .stopped)
    (hmoves : w'.sys.Alive t → w'.sys.status t ≠ .stopped →
      w.sys.Alive t ∧ w.sys.status t ≠ .stopped) : w'.Settled t where
  fits := by
    rw [hstops, hanswers, hout]
    exact h.fits
  once := hout ▸ h.once
  stopped hst := by
    rw [hanswers, hout]
    exact h.stopped (hstopped hst)
  moves halive hst := by
    rcases hmoves halive hst with ⟨halive, hst⟩
    rw [hout]
    exact h.moves halive hst

/-- The answers still to come, when the first request is carried out. -/
theorem outstanding_cons (r : Request) (queue : List Request) (hold : List Pid) (t : Pid) :
    outstanding (r :: queue) hold t = answersIn [r] t ++ outstanding queue hold t := by
  rw [outstanding, outstanding, ← List.append_assoc, ← answersIn_append, List.singleton_append]

theorem System.issue_settles (s : System) (queue : List Request) (r : Request) :
    (s.issue queue r).queue = queue ∧ (s.issue queue r).monitor = s.monitor ∧
      (s.issue queue r).phase = s.phase := by
  cases r with
  | resume u signum =>
      obtain ⟨hmonitor, -, hqueue, hphase⟩ := System.resume_keeps { s with queue := queue } u
      exact ⟨hqueue, hmonitor, hphase⟩
  | _ => exact ⟨rfl, rfl, rfl⟩

/-- A request moves no thread but the one that it answers. -/
theorem System.status_issue (s : System) (queue : List Request) {r : Request} (t : Pid) :
    (answersIn [r] t = [] ∧ (s.issue queue r).status t = s.status t) ∨
      (answersIn [r] t = [.detach] ∧ (s.issue queue r).status t = s.status t) ∨
      ∃ signum, answersIn [r] t = [.cont signum] ∧ (s.issue queue r).status t ≠ .stopped := by
  cases r with
  | resume u signum =>
      by_cases heq : t = u
      · subst heq
        refine Or.inr (Or.inr ⟨signum, answersIn_resume_self _ _, ?_⟩)
        show ({ s with queue := queue }.resume t).status t ≠ .stopped
        unfold System.resume
        split
        · rw [System.status_setThread_self]
          simp
        · assumption
      · exact Or.inl ⟨answersIn_resume_of_ne heq _, System.status_resume_of_ne _ heq⟩
  | detach u =>
      by_cases heq : t = u
      · subst heq
        exact Or.inr (Or.inl ⟨by simp [answersIn, Request.answer], rfl⟩)
      · exact Or.inl ⟨by simp [answersIn, Request.answer, Ne.symm heq], rfl⟩
  | _ => exact Or.inl ⟨rfl, rfl⟩

theorem System.step_issue {s s' : System} (h : s.step .issue = some s') :
    ∃ r queue, s.queue = r :: queue ∧ s' = s.issue queue r := by
  rw [System.step] at h
  split at h
  · cases h
  · rename_i r queue hqueue
    exact ⟨r, queue, hqueue, (Option.some.inj h).symm⟩

/-- The kernel carries out an answer. -/
theorem Witnessed.Settled.issue (h : w.Settled t) (hstep : w.step .issue = some w') :
    w'.Settled t := by
  obtain ⟨hsys, hstops, hanswers⟩ := Witnessed.step_eq_some hstep
  obtain ⟨r, queue, hqueue, hissue⟩ := System.step_issue hsys
  obtain ⟨hqueue', hmonitor, -⟩ := System.issue_settles w.sys queue r
  have hout : w.outstanding t = answersIn [r] t ++ w'.outstanding t := by
    simp only [Witnessed.outstanding, hissue, hqueue, hqueue', hmonitor, outstanding_cons]
  have hadd : w'.answers t = w.answers t ++ answersIn [r] t := by
    simp [hanswers, Witnessed.answersAfter, hqueue]
  have hfits : List.Forall₂ Answer.Fits (w'.stops t) (w'.answers t ++ w'.outstanding t) := by
    rw [hstops, hadd, List.append_assoc, ← hout]
    exact h.fits
  have honce : (w'.outstanding t).length ≤ 1 :=
    have hsub : (w'.outstanding t).Sublist (w.outstanding t) :=
      hout ▸ List.sublist_append_right _ _
    hsub.length_le.trans h.once
  -- the only answer has been carried out
  have hlast : ∀ a, answersIn [r] t = [a] → w'.outstanding t = [] := by
    intro a ha
    have hlength := h.once
    rw [hout, ha] at hlength
    exact List.length_eq_zero_iff.mp (by simpa using hlength)
  rcases System.status_issue w.sys queue t with ⟨hnone, hst⟩ | ⟨ha, hst⟩ | ⟨signum, ha, hst⟩
  · rw [← hissue] at hst
    rw [hnone, List.nil_append] at hout
    rw [hnone, List.append_nil] at hadd
    refine ⟨hfits, honce, ?_, ?_⟩
    · rw [hst, hadd, ← hout]
      exact h.stopped
    · rw [System.Alive, hst, ← hout]
      exact h.moves
  · exact ⟨hfits, honce, fun _ => Or.inr (by rw [hadd, ha]; simp), fun _ _ => hlast _ ha⟩
  · rw [← hissue] at hst
    exact ⟨hfits, honce, fun hstopped => absurd hstopped hst, fun _ _ => hlast _ ha⟩

/-- `waitpid` reports a thread. -/
theorem AnswerInv.wait (h : AnswerInv w) {u : Pid} {report : Report} {out : Outside}
    (hpending : w.sys.status u = .pending report) (hwait : w.sys.AtWaitpid)
    (hsys : w'.sys = w.sys.wait u report out) (hstops : w'.stops = w.stopsAfter (.wait u out))
    (hanswers : w'.answers = w.answers) (hloop : (w.sys.wait u report out).phase = .loop)
    (t : Pid) : w'.Settled t := by
  have ht := h.settled hwait.1 t
  have hqueue : w.sys.queue = [] := hwait.2
  have hout : ∀ v, w.outstanding v = outstanding [] w.sys.monitor.holdThreads v := by
    intro v
    rw [Witnessed.outstanding, hqueue]
  have hout' : ∀ v, w'.outstanding v = outstanding
      (w.sys.monitor.turn w.sys.code u report (w.sys.context u) out).requests
      (w.sys.monitor.turn w.sys.code u report (w.sys.context u) out).monitor.holdThreads v := by
    intro v
    rw [Witnessed.outstanding, hsys]
    rfl
  have hother : t ≠ u → w'.sys.status t = w.sys.status t := by
    intro hne
    rw [hsys]
    exact System.status_wait_of_ne _ _ _ hne
  cases report with
  | exit =>
      have hsame : w'.stops = w.stops := by rw [hstops, Witnessed.stopsAfter, hpending]
      have hexited : t = u → w'.sys.status t = .exited := by
        rintro rfl
        rw [hsys]
        exact System.status_wait_self _ _ _ _
      refine ht.congr (congrFun hsame t) (congrFun hanswers t) ?_ ?_ ?_
      · rw [hout', hout]
        exact Monitor.turn_exit_answers t
      · intro hst
        by_cases heq : t = u
        · cases (hexited heq).symm.trans hst
        · exact (hother heq).symm.trans hst
      · intro halive hst
        by_cases heq : t = u
        · exact absurd (hexited heq) halive.2
        · rw [System.Alive, hother heq] at halive
          rw [hother heq] at hst
          exact ⟨halive, hst⟩
  | stop signum event =>
      have halive : w.sys.Alive u := by
        rw [System.Alive, hpending]
        simp
      have hmoving : w.sys.status u ≠ .stopped := by
        rw [hpending]
        simp
      have hnot : u ∉ w.sys.monitor.holdThreads := h.hold.not_held halive hmoving
      have hphase : (w.sys.monitor.turn w.sys.code u (.stop signum event) (w.sys.context u)
          out).phase = .loop := hloop
      have hturn := Monitor.turn_answers h.hold.nodup hnot hphase
      have hsame : w'.stops = Function.update w.stops u (w.stops u ++ [signum]) := by
        rw [hstops, Witnessed.stopsAfter, hpending]
      by_cases heq : t = u
      · subst heq
        rcases hturn.self with ⟨a, hfits, ha⟩
        rw [← hout'] at ha
        have hstopped : w'.sys.status t = .stopped := by
          rw [hsys]
          exact System.status_wait_self _ _ _ _
        refine ⟨?_, ha ▸ le_refl 1, fun _ => Or.inl (ha ▸ List.cons_ne_nil _ _),
          fun _ hne => absurd hstopped hne⟩
        have hbefore := ht.fits
        rw [ht.moves halive hmoving, List.append_nil] at hbefore
        rw [hsame, Function.update_self, hanswers, ha]
        exact List.rel_append hbefore (List.Forall₂.cons hfits List.Forall₂.nil)
      · refine ht.congr ?_ (congrFun hanswers t) ?_ ?_ ?_
        · rw [hsame, Function.update_of_ne heq]
        · rw [hout', hout]
          exact hturn.other t heq
        · intro hst
          exact (hother heq).symm.trans hst
        · intro halive' hst
          rw [System.Alive, hother heq] at halive'
          rw [hother heq] at hst
          exact ⟨halive', hst⟩

/-- A thread moves by itself: what it was to be answered has been answered. -/
theorem Witnessed.Settled.setThread (h : w.Settled t) {u : Pid} {thread : Thread}
    (hsys : w'.sys = w.sys.setThread u thread) (hstops : w'.stops = w.stops)
    (hanswers : w'.answers = w.answers) (hnew : thread.status ≠ .stopped)
    (hold : thread.status = .pending .exit ∨ w.sys.Alive u ∧ w.sys.status u ≠ .stopped) :
    w'.Settled t := by
  have hst : w'.sys.status t = if t = u then thread.status else w.sys.status t := by
    rw [hsys, System.status_setThread]
  refine h.congr (congrFun hstops t) (congrFun hanswers t) ?_ ?_ ?_
  · rw [Witnessed.outstanding, hsys]
    rfl
  · rw [hst]
    split
    · exact fun hstopped => absurd hstopped hnew
    · exact id
  · rw [System.Alive, hst]
    split
    · rename_i heq
      rintro ⟨halive, -⟩ -
      exact heq ▸ hold.resolve_left halive
    · exact fun halive hmoving => ⟨halive, hmoving⟩

/-- **Every step settles what it has to.** -/
theorem answerInv_step (h : AnswerInv w) {label : Label} (hstep : w.step label = some w') :
    AnswerInv w' := by
  obtain ⟨hsys, hstops, hanswers⟩ := Witnessed.step_eq_some hstep
  refine ⟨holdInv_step h.hold hsys, fun hloop t => ?_⟩
  have hissue : label = .issue → w'.Settled t := by
    rintro rfl
    obtain ⟨r, queue, -, heq⟩ := System.step_issue hsys
    rw [heq, (System.issue_settles w.sys queue r).2.2] at hloop
    exact (h.settled hloop t).issue hstep
  have halive : ∀ u, w.sys.status u = .running → w.sys.Alive u ∧ w.sys.status u ≠ .stopped := by
    intro u hrun
    exact ⟨System.alive_of_running hrun, by rw [hrun]; simp⟩
  generalize hs' : w'.sys = s' at hsys
  rw [hs'] at hloop
  cases System.step_kind hsys with
  | trap u ctx hrun hbyte =>
      exact (h.settled hloop t).setThread hs' hstops hanswers (by simp) (Or.inr (halive u hrun))
  | signal u signum ctx hrun =>
      exact (h.settled hloop t).setThread hs' hstops hanswers (by simp) (Or.inr (halive u hrun))
  | clone u child ctx hrun hchild =>
      have hne : child ≠ u := by
        rintro rfl
        cases hrun.symm.trans hchild
      have hparent : Witnessed.Settled
          { w with sys := w.sys.setThread u ⟨.pending (.stop .sigtrap true), ctx⟩ } t :=
        (h.settled hloop t).setThread rfl rfl rfl (by simp) (Or.inr (halive u hrun))
      refine hparent.setThread hs' hstops hanswers (by simp) (Or.inr ?_)
      rw [System.Alive, System.status_setThread_of_ne _ _ hne, hchild]
      simp
  | exit u hborn =>
      exact (h.settled hloop t).setThread hs' hstops hanswers (by simp) (Or.inl rfl)
  | wait u report out hpending hwait => exact h.wait hpending hwait hs' hstops hanswers hloop t
  | waitError hwait => cases hloop
  | issueWrite write queue hqueue => exact hissue rfl
  | issueResume u signum queue hqueue => exact hissue rfl
  | issueOther r queue hqueue hother => exact hissue rfl
  | _ =>
      -- no thread moves and nothing is reported
      refine (h.settled hloop t).congr (congrFun hstops t) (congrFun hanswers t) ?_ ?_ ?_
      all_goals simp only [Witnessed.outstanding, System.Alive, hs']
      · exact id
      · exact fun halive hmoving => ⟨halive, hmoving⟩

end Steps

theorem answerInv_begin {symtabByName : Api → Word} {text : Bytes 64} {targetPid : Pid}
    {limits : Limits} {others : Pid → Bool} {s₀ : System}
    (hbegin : System.begin symtabByName text targetPid limits others = some s₀) :
    AnswerInv (.start s₀) := by
  refine ⟨holdInv_begin hbegin, fun _ t => ?_⟩
  obtain ⟨htarget, hstopped⟩ := System.status_begin hbegin
  have hout : (Witnessed.start s₀).outstanding t = answersIn [.resume targetPid none] t := by
    obtain ⟨init, -, rfl⟩ := Option.map_eq_some_iff.mp hbegin
    simp only [Witnessed.outstanding, Witnessed.start, outstanding, answersIn_append,
      answersIn_writes, List.not_mem_nil, if_false, List.nil_append, List.append_nil]
  have hstops : (Witnessed.start s₀).stops = Function.update (fun _ => []) targetPid [.sigstop] :=
    htarget ▸ rfl
  by_cases heq : t = targetPid
  · subst heq
    rw [answersIn_resume_self] at hout
    refine ⟨?_, hout ▸ le_refl 1, fun _ => Or.inl (hout ▸ List.cons_ne_nil _ _),
      fun _ hne => absurd hstopped hne⟩
    rw [hstops, hout, Function.update_self]
    exact List.Forall₂.cons .go List.Forall₂.nil
  · rw [answersIn_resume_of_ne heq] at hout
    refine ⟨?_, hout ▸ Nat.zero_le 1, ?_, fun _ _ => hout⟩
    · rw [hstops, hout, Function.update_of_ne heq]
      exact List.Forall₂.nil
    · -- the other threads run
      obtain ⟨init, -, rfl⟩ := Option.map_eq_some_iff.mp hbegin
      simp only [Witnessed.start, System.status, if_neg heq]
      split <;>
      · intro hstopped
        cases hstopped

/-- **Every stop is answered.** In every run, whatever the threads and the outside
do and in whatever order `waitpid` reports them: as long as the loop runs, each
stop that has been reported has one answer that fits it, in the order of the
stops, and nothing else is answered; the last answer may still be to come. -/
theorem every_stop_answered {symtabByName : Api → Word} {text : Bytes 64} {targetPid : Pid}
    {limits : Limits} {others : Pid → Bool} {s₀ : System} {w : Witnessed}
    (hbegin : System.begin symtabByName text targetPid limits others = some s₀)
    (hw : Reachable Witnessed.step (fun _ _ => True) (.start s₀) w)
    (hloop : w.sys.phase = .loop) (t : Pid) : w.Settled t := by
  have h : AnswerInv w := by
    refine hw.invariant AnswerInv (answerInv_begin hbegin) ?_
    intro w label w' h _ hstep
    exact answerInv_step h hstep
  exact h.settled hloop t

/-- Thread 1 is in `malloc` and gets a signal there, and thread 2 is held. -/
def signalInside : List Label :=
  sampleCall 0x2000 ++
    [.fetch 2 (sampleContext 0x1100 0x2100 0 0), .wait 2 sampleOutside,
      .signal 1 (.other 10) (sampleContext 0x1004 0x2000 0 0), .wait 1 sampleOutside]

theorem every_stop_answered_signalInside :
    ∃ s₀ w, sampleBegin 2 = some s₀ ∧ Reachable Witnessed.step (fun _ _ => True) (.start s₀) w ∧
      w.stops 1 = [.sigstop, .sigtrap, .other 10] ∧ w.outstanding 1 = [.cont (some (.other 10))] ∧
      w.outstanding 2 = [.cont none] ∧ w.Settled 1 ∧ w.Settled 2 := by
  have hrun : ((sampleBegin 2).bind fun s₀ =>
      (feed Witnessed.step (fun _ _ => True) (.start s₀) signalInside).map fun w =>
        (decide (w.sys.phase = .loop), w.stops 1, w.outstanding 1, w.outstanding 2)) =
      some (true, [.sigstop, .sigtrap, .other 10], [.cont (some (.other 10))], [.cont none]) := by
    decide +kernel
  obtain ⟨s₀, w, hbegin, hw, hobserved⟩ := Reachable.exists_of_run hrun
  simp only [Prod.mk.injEq, decide_eq_true_eq] at hobserved
  rcases hobserved with ⟨hloop, hstops, hone, htwo⟩
  exact ⟨s₀, w, hbegin, hw, hstops, hone, htwo, every_stop_answered hbegin hw hloop 1,
    every_stop_answered hbegin hw hloop 2⟩

end Memleax
