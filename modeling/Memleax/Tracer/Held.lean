import Memleax.Tracer.Calls
import Memleax.Tracer.TextInvariant
import Memleax.Tracer.Threads

/-!
# The threads that are held

While a call is tracked the loop holds every other thread that traps, and each
processed return wakes one of them, the last one first. The rest depends on that
thread: if it stands at the entry of a hooked function it traps again, its call
is tracked, and the return of that call wakes the next one. If it was held at the
return address that has just been restored, it runs on, and nothing is left that
would wake the others.

`Monitor.HoldKind` says what an iteration does to `hold_threads`, and `HoldInv`
what holds of the held threads in every run. The chain of wake-ups is
`Traced.HeldInv`.
-/

namespace Memleax

open Framework

/-! ## What an iteration does to `hold_threads` -/

/-- Requests that resume only those threads that `P` allows. -/
def Resumes (P : Pid → Prop) (requests : List Request) : Prop :=
  ∀ t signum, Request.resume t signum ∈ requests → P t

theorem resumes_nil (P : Pid → Prop) : Resumes P [] := by simp [Resumes]

theorem Resumes.append {P : Pid → Prop} {rs rs' : List Request} (h : Resumes P rs)
    (h' : Resumes P rs') : Resumes P (rs ++ rs') := by
  intro t signum ht
  rcases List.mem_append.mp ht with ht | ht
  · exact h t signum ht
  · exact h' t signum ht

theorem resumes_writes (P : Pid → Prop) (writes : List Write) :
    Resumes P (writes.map Request.write) := by
  simp [Resumes]

/-- **Everything an iteration can do to `hold_threads`**: leave it alone, hold the
reported thread, or wake the last one at a processed return. -/
inductive Monitor.HoldKind (m : Monitor) (pid : Pid) (report : Report) (ctx : Context)
    (turn : Turn) : Prop
  | same (hhold : turn.monitor.holdThreads = m.holdThreads)
      (hresumes : Resumes (fun u => u = pid ∧ report ≠ .exit ∧ turn.phase = .loop) turn.requests)
      (hreturn : report = .stop .sigtrap false → (m.returnAddress ≠ 0 → m.lastThread = pid) →
        (pcUnwind ctx).regs.rip = m.returnAddress → m.holdThreads = [] ∨ turn.phase ≠ .loop)
  | push (htrap : report = .stop .sigtrap false) (hra : m.returnAddress ≠ 0)
      (hlast : m.lastThread ≠ pid) (hhold : turn.monitor.holdThreads = pid :: m.holdThreads)
      (htracked : turn.monitor.tracked = m.tracked) (hrequests : turn.requests = [])
  | pop (held : Pid) (rest : List Pid) (htrap : report = .stop .sigtrap false)
      (hlast : m.returnAddress ≠ 0 → m.lastThread = pid)
      (hrip : (pcUnwind ctx).regs.rip = m.returnAddress)
      (hbefore : m.holdThreads = held :: rest) (hhold : turn.monitor.holdThreads = rest)
      (hra : turn.monitor.returnAddress = 0)
      (hresumes : Resumes (fun u => u = held ∨ (u = pid ∧ turn.phase = .loop)) turn.requests)
      (hphase : turn.phase = .loop ∨ turn.phase = .left .tooMany)

section HoldKind

variable {m : Monitor} (code : Code) (pid : Pid) (ctx : Context) (out : Outside)

/-- `lexpire` resumes the reported thread if the loop goes on. -/
theorem Monitor.lexpire_hold (P : Pid → Prop) {sent : List Request} (hsent : Resumes P sent)
    (invoked : Option Invocation) :
    (m.lexpire pid ctx out sent invoked).monitor.holdThreads = m.holdThreads ∧
      Resumes (fun u => P u ∨ (u = pid ∧ (m.lexpire pid ctx out sent invoked).phase = .loop))
        (m.lexpire pid ctx out sent invoked).requests := by
  unfold Monitor.lexpire
  by_cases hneg : (memblockExpire m.store out.sweepNow m.limits).1 < 0
  · rw [if_pos hneg]
    exact ⟨rfl, fun u signum hu => Or.inl (hsent u signum hu)⟩
  · rw [if_neg hneg]
    refine ⟨rfl, Resumes.append (fun u signum hu => Or.inl (hsent u signum hu)) ?_⟩
    intro u signum hu
    simp only [List.mem_cons, List.not_mem_nil, or_false] at hu
    rcases hu with hu | hu
    · cases hu
    · cases hu
      exact Or.inr ⟨rfl, rfl⟩

theorem Monitor.lexpire_phase (sent : List Request) (invoked : Option Invocation) :
    (m.lexpire pid ctx out sent invoked).phase = .loop ∨
      (m.lexpire pid ctx out sent invoked).phase = .left .tooMany := by
  unfold Monitor.lexpire
  dsimp only
  split
  · exact Or.inr rfl
  · exact Or.inl rfl

/-- An iteration that ends in `lexpire` with `hold_threads` as it was. -/
theorem Monitor.holdKind_lexpire {m' : Monitor} {report : Report} (hexit : report ≠ .exit)
    (hhold : m'.holdThreads = m.holdThreads) {sent : List Request}
    (hsent : Resumes (fun _ => False) sent) (invoked : Option Invocation)
    (hreturn : (pcUnwind ctx).regs.rip = m.returnAddress → m.holdThreads = []) :
    m.HoldKind pid report ctx (m'.lexpire pid (pcUnwind ctx) out sent invoked) := by
  obtain ⟨hsame, hresumes⟩ := m'.lexpire_hold pid (pcUnwind ctx) out _ hsent invoked
  refine .same (hsame.trans hhold) ?_ fun _ _ hrip => Or.inl (hreturn hrip)
  intro u signum hu
  obtain ⟨rfl, hloop⟩ := (hresumes u signum hu).resolve_left id
  exact ⟨rfl, hexit, hloop⟩

theorem Monitor.atReturn_hold (writes : List Write) (api : Api)
    (hlast : m.returnAddress ≠ 0 → m.lastThread = pid)
    (hrip : (pcUnwind ctx).regs.rip = m.returnAddress) :
    m.HoldKind pid (.stop .sigtrap false) ctx
      (m.atReturn pid (pcUnwind ctx) out (writes.map Request.write) api) := by
  unfold Monitor.atReturn
  dsimp only
  split
  · refine .same rfl ?_ fun _ _ _ => Or.inr (by simp)
    exact fun u signum hu => (resumes_writes (fun _ => False) writes u signum hu).elim
  · split
    · rename_i hempty
      refine Monitor.holdKind_lexpire pid ctx out ?_ ?_ (resumes_writes _ writes) _ ?_
      · simp
      · rfl
      · exact fun _ => hempty
    · rename_i held rest hheld
      have hsent : Resumes (fun u => u = held)
          (writes.map Request.write ++ [.resume held none]) := by
        refine Resumes.append (resumes_writes _ writes) ?_
        intro u signum hu
        cases List.mem_singleton.mp hu
        rfl
      refine .pop held rest rfl hlast hrip hheld ?_ ?_ ?_ ?_
      · exact (Monitor.lexpire_hold pid _ out _ hsent _).1
      · exact congrArg Tracked.returnAddress (Monitor.lexpire_spec _ pid (pcUnwind ctx) out _ _).1
      · exact (Monitor.lexpire_hold pid _ out _ hsent _).2
      · exact Monitor.lexpire_phase pid _ out _ _

theorem Monitor.onSigtrap_hold :
    m.HoldKind pid (.stop .sigtrap false) ctx (m.onSigtrap code pid ctx out) := by
  unfold Monitor.onSigtrap
  by_cases hhold : m.returnAddress ≠ 0 ∧ m.lastThread ≠ pid
  · rw [if_pos hhold]
    split
    · exact .push rfl hhold.1 hhold.2 rfl rfl rfl
    · exact .same rfl (resumes_nil _) fun _ _ _ => Or.inr (by simp)
  · rw [if_neg hhold]
    have hlast : m.returnAddress ≠ 0 → m.lastThread = pid := fun h0 =>
      Decidable.byContradiction fun hne => hhold ⟨h0, hne⟩
    cases m.recover with
    | none => exact .same rfl (resumes_nil _) fun _ _ _ => Or.inr (by simp)
    | some writes =>
        dsimp only
        by_cases hrip : (pcUnwind ctx).regs.rip = m.returnAddress
        · rw [if_pos hrip]
          cases m.bp with
          | none =>
              refine .same rfl ?_ fun _ _ _ => Or.inr (by simp)
              exact fun u signum hu => (resumes_writes (fun _ => False) writes u signum hu).elim
          | some api => exact Monitor.atReturn_hold pid ctx out writes api hlast hrip
        · rw [if_neg hrip]
          cases breakpointByEntry m.breakpoints (pcUnwind ctx).regs.rip with
          | some api =>
              dsimp only
              unfold Monitor.atEntry
              refine Monitor.holdKind_lexpire pid ctx out ?_ ?_ ?_ _ ?_
              · simp
              · rfl
              · exact (resumes_writes _ writes).append (by simp [Resumes])
              · exact fun heq => absurd heq hrip
          | none =>
              dsimp only
              unfold Monitor.elsewhere
              split
              · refine .same rfl ?_ fun _ _ _ => Or.inr (by simp)
                exact fun u signum hu => (resumes_writes (fun _ => False) writes u signum hu).elim
              · refine Monitor.holdKind_lexpire pid ctx out ?_ ?_ (resumes_writes _ writes) _ ?_
                · simp
                · rfl
                · exact fun heq => absurd heq hrip

theorem Monitor.onSigstop_hold (event : Bool) :
    m.HoldKind pid (.stop .sigstop event) ctx (m.onSigstop pid ctx out) := by
  unfold Monitor.onSigstop
  split
  · obtain ⟨hsame, hresumes⟩ := Monitor.lexpire_hold (m := { m with signo := none }) pid ctx out
      (fun _ => False) (resumes_nil _) none
    refine .same hsame ?_ (by simp)
    intro u signum hu
    obtain ⟨rfl, hloop⟩ := (hresumes u signum hu).resolve_left id
    exact ⟨rfl, by simp, hloop⟩
  · split
    · exact .same rfl (resumes_nil _) (by simp)
    · split
      · refine .same rfl ?_ (by simp)
        intro u signum hu
        cases List.mem_singleton.mp hu
        exact ⟨rfl, by simp, rfl⟩
      · refine .same rfl ?_ (by simp)
        intro u signum hu
        simp at hu

theorem Monitor.turn_hold (report : Report) :
    m.HoldKind pid report ctx (m.turn code pid report ctx out) := by
  have hforward : ∀ (report : Report) (signum : Option Signo), report ≠ .exit →
      report ≠ .stop .sigtrap false → m.HoldKind pid report ctx
        { monitor := m, context := ctx, requests := [.resume pid signum] } := by
    intro report signum hexit htrap
    refine .same rfl ?_ fun h => absurd h htrap
    intro u signum' hu
    cases List.mem_singleton.mp hu
    exact ⟨rfl, hexit, rfl⟩
  cases report with
  | exit =>
      rw [Monitor.turn]
      split
      · exact .same rfl (resumes_nil _) (by simp)
      · exact .same rfl (resumes_nil _) (by simp)
  | stop signum event =>
      cases signum with
      | sigstop => exact Monitor.onSigstop_hold pid ctx out event
      | sigtrap =>
          cases event with
          | false => exact Monitor.onSigtrap_hold code pid ctx out
          | true => exact hforward _ _ (by simp) (by simp)
      | sigalrm => exact hforward _ _ (by simp) (by simp)
      | sigint => exact hforward _ _ (by simp) (by simp)
      | sighup => exact hforward _ _ (by simp) (by simp)
      | sigterm => exact hforward _ _ (by simp) (by simp)
      | other number => exact hforward _ _ (by simp) (by simp)

end HoldKind

/-! ## The held threads -/

/-- A thread lives until it ends. -/
theorem System.alive_step {s s' : System} {label : Label} (h : s.step label = some s') {u : Pid}
    (hne : label ≠ .exit u) (halive : s.Alive u) : s'.Alive u := by
  cases System.status_step h u with
  | same label hsame =>
      rw [System.Alive, hsame]
      exact halive
  | exit hborn hnew => exact absurd rfl hne
  | reported report out hpending hwait hnew =>
      have hreport : report ≠ .exit := by
        rintro rfl
        exact halive.1 hpending
      simp [System.Alive, hnew, hreport]
  | trap ctx hrun hbyte hnew => simp [System.Alive, hnew]
  | signal signum ctx hrun hnew => simp [System.Alive, hnew]
  | creates child ctx hrun hnew => simp [System.Alive, hnew]
  | created t ctx hunborn hnew => simp [System.Alive, hnew]
  | resumed signum queue hqueue hstopped hnew => simp [System.Alive, hnew]

/-- A held thread stays stopped: it is not the tracked one, and no request under
way resumes it. -/
structure HoldInv (s : System) : Prop where
  nodup : s.monitor.holdThreads.Nodup
  stopped : ∀ t ∈ s.monitor.holdThreads, s.Alive t → s.status t = .stopped
  last : s.monitor.returnAddress ≠ 0 → s.monitor.lastThread ∉ s.monitor.holdThreads
  resumes : Resumes (· ∉ s.monitor.holdThreads) s.queue

section HoldInv

variable {s s' : System}

theorem HoldInv.not_held (h : HoldInv s) {t : Pid} (halive : s.Alive t)
    (hstatus : s.status t ≠ .stopped) : t ∉ s.monitor.holdThreads :=
  fun ht => hstatus (h.stopped t ht halive)

theorem HoldInv.not_held_of_running (h : HoldInv s) {t : Pid} (hrun : s.status t = .running) :
    t ∉ s.monitor.holdThreads :=
  h.not_held (System.alive_of_running hrun) (by rw [hrun]; simp)

theorem HoldInv.setThread (h : HoldInv s) {t : Pid} {thread : Thread}
    (ht : t ∉ s.monitor.holdThreads ∨ thread.status = .pending .exit) :
    HoldInv (s.setThread t thread) := by
  refine ⟨h.nodup, ?_, h.last, h.resumes⟩
  intro u hu halive
  by_cases heq : u = t
  · subst heq
    rcases ht with hnot | hexit
    · exact absurd hu hnot
    · exact absurd ((System.status_setThread_self _ _ _).trans hexit) halive.1
  · rw [System.Alive, System.status_setThread_of_ne _ _ heq] at halive
    rw [System.status_setThread_of_ne _ _ heq]
    exact h.stopped u hu halive

theorem HoldInv.issued (h : HoldInv s) {r : Request} {queue : List Request}
    (hqueue : s.queue = r :: queue) (code : Code) :
    HoldInv { s with code := code, queue := queue } := by
  refine ⟨h.nodup, h.stopped, h.last, ?_⟩
  intro t signum ht
  apply h.resumes t signum
  rw [hqueue]
  exact List.mem_cons_of_mem _ ht

theorem HoldInv.wait (h : HoldInv s) {t : Pid} {report : Report} (out : Outside)
    (hpending : s.status t = .pending report) : HoldInv (s.wait t report out) := by
  have hfree : report ≠ .exit → t ∉ s.monitor.holdThreads := by
    intro hreport
    refine h.not_held ?_ (by rw [hpending]; simp)
    rw [System.Alive, hpending]
    exact ⟨fun heq => hreport (Status.pending.inj heq), by simp⟩
  -- a thread that was held before is where it was
  have hold : ∀ u ∈ s.monitor.holdThreads, (s.wait t report out).Alive u →
      (s.wait t report out).status u = .stopped := by
    intro u hu halive
    by_cases heq : u = t
    · subst heq
      have hreport : report = .exit := by
        by_contra hne
        exact hfree hne hu
      rw [System.Alive, System.status_wait_self, if_pos hreport] at halive
      exact absurd rfl halive.2
    · rw [System.Alive, System.status_wait_of_ne _ _ _ heq] at halive
      rw [System.status_wait_of_ne _ _ _ heq]
      exact h.stopped u hu halive
  cases s.monitor.turn_hold s.code t (s.context t) out report with
  | same hhold hresumes hreturn =>
      have hhold : (s.wait t report out).monitor.holdThreads = s.monitor.holdThreads := hhold
      refine ⟨by rw [hhold]; exact h.nodup, by rw [hhold]; exact hold, ?_, ?_⟩
      · rw [hhold]
        intro hra
        cases s.monitor.turn_kind s.code t (s.context t) out report with
        | quiet htracked =>
            rw [show (s.wait t report out).monitor.returnAddress = _ from
              congrArg Tracked.returnAddress htracked] at hra
            rw [show (s.wait t report out).monitor.lastThread = _ from
              congrArg Tracked.lastThread htracked]
            exact h.last hra
        | atReturn writes rest api htrap hlast hrecover hbp hrip hrest hrequests htracked =>
            exact absurd (congrArg Tracked.returnAddress htracked) hra
        | atEntry writes rest api htrap hlast hrecover hrip hentry hrest hrequests htracked =>
            rw [show (s.wait t report out).monitor.lastThread = _ from
              congrArg Tracked.lastThread htracked]
            exact hfree (by rw [htrap]; simp)
        | elsewhere writes rest htrap hlast hrecover hrip hentry hrest hrequests htracked =>
            rw [show (s.wait t report out).monitor.returnAddress = _ from
              congrArg Tracked.returnAddress htracked] at hra
            rw [show (s.wait t report out).monitor.lastThread = _ from
              congrArg Tracked.lastThread htracked]
            exact h.last hra
      · rw [hhold]
        intro u signum hu
        obtain ⟨rfl, hexit, -⟩ := hresumes u signum hu
        exact hfree hexit
  | push htrap hra hlast hhold htracked hrequests =>
      have hhold : (s.wait t report out).monitor.holdThreads = t :: s.monitor.holdThreads := hhold
      have hnot := hfree (by rw [htrap]; simp)
      refine ⟨?_, ?_, ?_, ?_⟩
      · rw [hhold]
        exact List.nodup_cons.mpr ⟨hnot, h.nodup⟩
      · rw [hhold]
        intro u hu halive
        rcases List.mem_cons.mp hu with rfl | hu
        · rw [System.status_wait_self, htrap]
          rfl
        · exact hold u hu halive
      · intro hra'
        rw [hhold, show (s.wait t report out).monitor.lastThread = _ from
          congrArg Tracked.lastThread htracked]
        exact List.not_mem_cons_of_ne_of_not_mem hlast (h.last hra)
      · rw [show (s.wait t report out).queue = [] from hrequests]
        exact resumes_nil _
  | pop held rest htrap hlast hrip hbefore hhold hra hresumes =>
      have hhold : (s.wait t report out).monitor.holdThreads = rest := hhold
      have hnodup := h.nodup
      rw [hbefore] at hnodup
      obtain ⟨hheld, hrest⟩ := List.nodup_cons.mp hnodup
      have hnot := hfree (by rw [htrap]; simp)
      rw [hbefore] at hnot hold
      refine ⟨by rw [hhold]; exact hrest, ?_, fun hne => absurd hra hne, ?_⟩
      · rw [hhold]
        exact fun u hu => hold u (List.mem_cons_of_mem _ hu)
      · rw [hhold]
        intro u signum hu
        rcases hresumes u signum hu with rfl | ⟨rfl, -⟩
        · exact hheld
        · exact fun hmem => hnot (List.mem_cons_of_mem _ hmem)

/-- **Every step keeps the held threads stopped.** -/
theorem holdInv_step (h : HoldInv s) {label : Label} (hstep : s.step label = some s') :
    HoldInv s' := by
  cases System.step_kind hstep with
  | trap t ctx hrun hbyte => exact h.setThread (Or.inl (h.not_held_of_running hrun))
  | execute t ctx hrun hbyte => exact h
  | signal t signum ctx hrun => exact h.setThread (Or.inl (h.not_held_of_running hrun))
  | clone t child ctx hrun hchild =>
      have hunborn : child ∉ s.monitor.holdThreads := by
        refine h.not_held ?_ (by rw [hchild]; simp)
        rw [System.Alive, hchild]
        exact ⟨by simp, by simp⟩
      have hparent : HoldInv (s.setThread t ⟨.pending (.stop .sigtrap true), ctx⟩) :=
        h.setThread (Or.inl (h.not_held_of_running hrun))
      exact hparent.setThread (Or.inl hunborn)
  | exit t hborn => exact h.setThread (Or.inr rfl)
  | interrupt signum => exact ⟨h.nodup, h.stopped, h.last, h.resumes⟩
  | wait t report out hpending hwait => exact h.wait out hpending
  | waitAgain hwait => exact h
  | waitError hwait => exact ⟨h.nodup, h.stopped, h.last, h.resumes⟩
  | issueWrite w queue hqueue => exact h.issued hqueue _
  | issueResume t signum queue hqueue =>
      have hnot := h.resumes t signum (by rw [hqueue]; exact List.mem_cons_self)
      have hissued := h.issued hqueue s.code
      unfold System.resume
      split
      · exact hissued.setThread (Or.inl hnot)
      · exact hissued
  | issueOther r queue hqueue hother => exact h.issued hqueue s.code

theorem holdInv_begin {symtabByName : Api → Word} {text : Bytes 64} {targetPid : Pid}
    {limits : Limits} {others : Pid → Bool} {s₀ : System}
    (hbegin : System.begin symtabByName text targetPid limits others = some s₀) : HoldInv s₀ := by
  obtain ⟨init, -, rfl⟩ := Option.map_eq_some_iff.mp hbegin
  exact ⟨List.nodup_nil, by simp, by simp, fun _ _ _ => List.not_mem_nil⟩

end HoldInv

/-- What a step does to `hold_threads`. -/
inductive System.HoldStep (s : System) (label : Label) (s' : System) : Prop
  | same (hhold : s'.monitor.holdThreads = s.monitor.holdThreads)
      (hreturn : ∀ t out, label = .wait t out → s.Trapped t →
        (s.monitor.returnAddress ≠ 0 → s.monitor.lastThread = t) →
        (s.instruction t).regs.rip = s.monitor.returnAddress →
        s.monitor.holdThreads = [] ∨ s'.phase ≠ .loop)
  | push (t : Pid) (out : Outside) (hlabel : label = .wait t out) (htrapped : s.Trapped t)
      (hra : s.monitor.returnAddress ≠ 0) (hlast : s.monitor.lastThread ≠ t)
      (hhold : s'.monitor.holdThreads = t :: s.monitor.holdThreads)
      (htracked : s'.monitor.tracked = s.monitor.tracked)
  | pop (t : Pid) (out : Outside) (held : Pid) (rest : List Pid) (hlabel : label = .wait t out)
      (htrapped : s.Trapped t) (hlast : s.monitor.returnAddress ≠ 0 → s.monitor.lastThread = t)
      (hrip : (s.instruction t).regs.rip = s.monitor.returnAddress)
      (hbefore : s.monitor.holdThreads = held :: rest) (hhold : s'.monitor.holdThreads = rest)

theorem System.step_hold {s s' : System} {label : Label} (h : s.step label = some s') :
    s.HoldStep label s' := by
  cases System.step_kind h with
  | wait t report out hpending hwait =>
      cases s.monitor.turn_hold s.code t (s.context t) out report with
      | same hhold hresumes hreturn =>
          refine .same hhold ?_
          intro u out' hlabel htrapped hlast hrip
          cases hlabel
          cases hpending.symm.trans htrapped
          rw [System.instruction_of_trapped htrapped] at hrip
          exact hreturn rfl hlast hrip
      | push htrap hra hlast hhold htracked hrequests =>
          subst htrap
          exact .push t out rfl hpending hra hlast hhold htracked
      | pop held rest htrap hlast hrip hbefore hhold =>
          subst htrap
          refine .pop t out held rest rfl hpending hlast ?_ hbefore hhold
          rw [System.instruction_of_trapped hpending]
          exact hrip
  | issueResume t signum queue hqueue =>
      unfold System.resume
      split <;> exact .same rfl (by simp)
  | _ => exact .same rfl (by simp)

/-- Without a tracked call before and after a step, no write is under way unless
there was one. -/
theorem TraceInv.noWrites_step {s s' : System} (h : TraceInv s) {label : Label}
    (hstep : s.step label = some s') (hra : s.monitor.returnAddress = 0)
    (hra' : s'.monitor.returnAddress = 0) (hno : NoWrites s.queue) : NoWrites s'.queue := by
  cases System.step_kind hstep with
  | wait t report out hpending hwait =>
      have hempty : ∀ writes, s.monitor.recover = some writes → writes = [] := by
        intro writes hrecover
        rw [Monitor.recover, if_pos hra] at hrecover
        exact (Option.some.inj hrecover).symm
      cases s.monitor.turn_kind s.code t (s.context t) out report with
      | quiet htracked hwrites => exact hwrites
      | atReturn writes rest api htrap hlast hrecover hbp hrip hrest hrequests =>
          rw [show (s.wait t report out).queue = _ from hrequests, hempty writes hrecover]
          exact hrest
      | atEntry writes rest api htrap hlast hrecover hrip hentry hrest hrequests htracked =>
          subst htrap
          refine absurd ((congrArg Tracked.returnAddress htracked).symm.trans hra') ?_
          exact (h.behind t hpending).entry (by rw [hentry]; simp)
      | elsewhere writes rest htrap hlast hrecover hrip hentry hrest hrequests =>
          rw [show (s.wait t report out).queue = _ from hrequests, hempty writes hrecover]
          exact hrest
  | issueWrite w queue hqueue =>
      exact absurd (by rw [hqueue]; exact List.mem_cons_self) (hno w)
  | issueResume t signum queue hqueue =>
      have hrest := (h.noWrites_of_head hqueue (by simp)).2
      unfold System.resume
      split <;> exact hrest
  | issueOther r queue hqueue hother => exact (h.noWrites_of_head hqueue hother).2
  | _ => exact hno

theorem TraceInv.still_step {s s' : System} (h : TraceInv s) {label : Label}
    (hstep : s.step label = some s') {u : Pid} (hne : label ≠ .exit u)
    (hra : s.monitor.returnAddress = 0) (hra' : s'.monitor.returnAddress = 0)
    (hu : s.status u = .stopped ∨ NoWrites s.queue) :
    s'.status u = .stopped ∨ NoWrites s'.queue := by
  rcases hu with hu | hno
  · cases System.status_step hstep u with
    | same label hsame => exact Or.inl (hsame.trans hu)
    | trap ctx hrun hbyte hnew => cases hrun.symm.trans hu
    | signal signum ctx hrun hnew => cases hrun.symm.trans hu
    | creates child ctx hrun hnew => cases hrun.symm.trans hu
    | created t ctx hunborn hnew => cases hunborn.symm.trans hu
    | exit hborn hnew => exact absurd rfl hne
    | reported report out hpending hwait hnew => cases hpending.symm.trans hu
    | resumed signum queue hqueue hstopped hnew =>
        exact Or.inr (h.noWrites_step hstep hra hra' (h.noWrites_of_head hqueue (by simp)).1)
  · exact Or.inr (h.noWrites_step hstep hra hra' hno)

/-- A call is given up at its return only. -/
theorem TraceInv.return_of_step {s s' : System} (h : TraceInv s) {label : Label}
    (hstep : s.step label = some s') (hra : s.monitor.returnAddress ≠ 0)
    (hra' : s'.monitor.returnAddress = 0) :
    ∃ t out, label = .wait t out ∧ s.Trapped t ∧
      (s.monitor.returnAddress ≠ 0 → s.monitor.lastThread = t) ∧
      (s.instruction t).regs.rip = s.monitor.returnAddress := by
  cases System.step_kind hstep with
  | wait t report out hpending hwait =>
      cases s.monitor.turn_kind s.code t (s.context t) out report with
      | quiet htracked =>
          exact absurd ((congrArg Tracked.returnAddress htracked).symm.trans hra') hra
      | atReturn writes rest api htrap hlast hrecover hbp hrip =>
          subst htrap
          refine ⟨t, out, rfl, hpending, hlast, ?_⟩
          rw [System.instruction_of_trapped hpending]
          exact hrip
      | atEntry writes rest api htrap hlast hrecover hrip hentry hrest hrequests htracked =>
          subst htrap
          refine absurd ((congrArg Tracked.returnAddress htracked).symm.trans hra') ?_
          exact (h.behind t hpending).entry (by rw [hentry]; simp)
      | elsewhere writes rest htrap hlast hrecover hrip hentry hrest hrequests htracked =>
          exact absurd ((congrArg Tracked.returnAddress htracked).symm.trans hra') hra
  | issueResume t signum queue hqueue =>
      unfold System.resume at hra'
      split at hra' <;> exact absurd hra' hra
  | _ => exact absurd hra' hra

/-- The iteration on the trap of another thread leaves a thread where it is. -/
theorem System.status_step_wait {s s' : System} {t : Pid} {out : Outside}
    (h : s.step (.wait t out) = some s') {u : Pid} (hne : u ≠ t) : s'.status u = s.status u := by
  cases System.status_step h u with
  | same label hsame => exact hsame
  | reported report out hpending hwait hnew => exact absurd rfl hne

/-! ## The chain of wake-ups -/

instance (s : System) (t : Pid) : Decidable (s.Alive t) := inferInstanceAs (Decidable (_ ∧ _))

/-- The frame of the tracked call survives an instruction other than its return. -/
theorem Tracked.Describes.arrive {k : Tracked} {e : Execution} {f : Frame} (hf : f ∈ e.frames)
    (hk : k.Describes f) {ctx : Context} (hrip : ctx.regs.rip ≠ k.returnAddress)
    (bps : Breakpoints) (late : Bool) (t : Pid) (traps : Bool) :
    ∃ g ∈ (e.arrive bps late t ctx traps).frames, k.Describes g := by
  have hleave : f ∈ (e.leave t ctx).frames := by
    by_cases hret : e.Returns ctx
    · obtain ⟨g, rest, hframes, hra, hleave⟩ := Execution.leave_of_returns (t := t) hret
      rw [hleave]
      rw [hframes] at hf
      rcases List.mem_cons.mp hf with rfl | hf
      · exact absurd (hra.symm.trans hk.returnAddress.symm) hrip
      · exact hf
    · rw [Execution.leave_of_not_returns hret]
      exact hf
  show ∃ g ∈ ((e.leave t ctx).enter bps late ctx).frames, k.Describes g
  cases hentry : breakpointByEntry bps ctx.regs.rip with
  | none =>
      rw [Execution.enter_of_none hentry]
      exact ⟨f, hleave, hk⟩
  | some api =>
      rw [Execution.enter_of_some hentry]
      -- only the mark of the innermost frame changes
      cases hframes : (e.leave t ctx).frames with
      | nil =>
          rw [hframes] at hleave
          cases hleave
      | cons g rest =>
          rw [hframes] at hleave
          rcases List.mem_cons.mp hleave with rfl | hrest
          · exact ⟨{ f with nested := true }, by simp [markNested],
              hk.bp, hk.returnAddress, hk.arg1, hk.arg2⟩
          · exact ⟨f, by simp [markNested, hrest], hk⟩

namespace Traced

/-- Thread `t` is in the tracked call, or its trap at the return address has not
been reported. -/
def Inside (s : Traced) (k : Tracked) (t : Pid) : Prop :=
  (∃ f ∈ (s.exec t).frames, k.Describes f) ∨
    (s.sys.Trapped t ∧ (s.sys.instruction t).regs.rip = k.returnAddress)

/-- The instruction of thread `t` has trapped, or is going to be fetched again,
and it is the entry of a hooked function. -/
def AtEntry (s : Traced) (t : Pid) : Prop :=
  (s.exec t).tried = true ∧
    breakpointByEntry s.sys.monitor.breakpoints (s.sys.instruction t).regs.rip ≠ none

instance (s : Traced) (t : Pid) : Decidable (s.AtEntry t) := inferInstanceAs (Decidable (_ ∧ _))

/-- If a return leaves threads held, the one that it wakes stands at an entry. -/
def WokenAtEntry (s : Traced) : List Pid → Prop
  | held :: _ :: _ => s.sys.Alive held ∧ s.AtEntry held
  | _ => True

/-- The moves that keep the chain of wake-ups going: the tracked thread does not
end; while threads are held and no call is tracked, no thread ends at an entry;
and the thread that a return wakes, if others stay held, stands at an entry. -/
def WakesOn (s : Traced) : Move → Prop
  | .exit t =>
      (s.sys.monitor.returnAddress ≠ 0 → t ≠ s.sys.monitor.lastThread) ∧
        (s.sys.monitor.returnAddress = 0 → s.sys.monitor.holdThreads ≠ [] → ¬ s.AtEntry t)
  | .wait t _ =>
      s.sys.Trapped t → s.sys.monitor.lastThread = t →
      (s.sys.instruction t).regs.rip = s.sys.monitor.returnAddress →
      s.WokenAtEntry s.sys.monitor.holdThreads
  | _ => True

instance (s : Traced) : (hold : List Pid) → Decidable (s.WokenAtEntry hold)
  | _ :: _ :: _ => inferInstanceAs (Decidable (_ ∧ _))
  | [] | [_] => inferInstanceAs (Decidable True)

instance (s : Traced) : (m : Move) → Decidable (s.WakesOn m)
  | .exit _ => inferInstanceAs (Decidable (_ ∧ _))
  | .wait _ _ => inferInstanceAs (Decidable (_ → _))
  | .fetch _ _ | .retry _ | .signal _ _ | .clone _ _ _ | .interrupt _ | .waitFails _ | .issue =>
      inferInstanceAs (Decidable True)

/-- A move that strands no thread. -/
def HeldMove (s : Traced) (m : Move) : Prop := s.sys.Traces (m.label s.sys) ∧ s.WakesOn m

instance (s : Traced) (m : Move) : Decidable (s.HeldMove m) :=
  inferInstanceAs (Decidable (_ ∧ _))

/-- The wake-up of the held threads is still to come: the tracked thread is alive
and in its call, or a thread that is not held is going to trap at an entry. -/
def NotStranded (s : Traced) : Prop :=
  (s.sys.monitor.returnAddress ≠ 0 ∧ s.sys.Alive s.sys.monitor.lastThread ∧
      s.sys.monitor.lastThread ∉ s.sys.monitor.holdThreads ∧
      s.Inside s.sys.monitor.tracked s.sys.monitor.lastThread) ∨
    ∃ u api, s.sys.Alive u ∧ u ∉ s.sys.monitor.holdThreads ∧ (s.exec u).tried = true ∧
      (s.sys.instruction u).regs.rip = (s.sys.monitor.breakpoints api).entryAddress ∧
      s.sys.code.entryArmed api = true ∧
      s.sys.code.text (s.sys.monitor.breakpoints api).entryAddress = trapByte

/-- The invariant of the chain. -/
structure HeldInv (s : Traced) : Prop where
  fresh : Fresh s
  untried : ∀ t, (s.exec t).tried = false → ¬ s.sys.Trapped t
  entered : ∀ t, s.sys.Alive t → (s.exec t).tried = true → ∀ api,
    breakpointByEntry s.sys.monitor.breakpoints (s.sys.instruction t).regs.rip = some api →
    ∃ f ∈ (s.exec t).frames, f.Of api (s.sys.instruction t)
  tried : ∀ t ∈ s.sys.monitor.holdThreads, s.sys.Alive t → (s.exec t).tried = true
  inside : s.sys.phase = .loop → s.sys.monitor.returnAddress ≠ 0 →
    s.sys.Alive s.sys.monitor.lastThread ∧
      s.Inside s.sys.monitor.tracked s.sys.monitor.lastThread
  waiting : s.sys.phase = .loop → s.sys.monitor.returnAddress = 0 →
    s.sys.monitor.holdThreads ≠ [] →
    ∃ u, s.sys.Alive u ∧ u ∉ s.sys.monitor.holdThreads ∧ s.AtEntry u ∧
      (s.sys.status u = .stopped ∨ NoWrites s.sys.queue)

section HeldInv

variable {s s' : Traced} {m : Move} {orig : Bytes 64}

theorem HeldInv.tried_of_trapped (h : HeldInv s) {t : Pid} (ht : s.sys.Trapped t) :
    (s.exec t).tried = true := by
  cases htried : (s.exec t).tried with
  | true => rfl
  | false => exact absurd ht (h.untried t htried)

theorem HeldInv.entered_step (h : HeldInv s) (heffect : Effect s m s') (u : Pid)
    (halive : s'.sys.Alive u) (htried : (s'.exec u).tried = true) (api : Api)
    (hentry : breakpointByEntry s'.sys.monitor.breakpoints (s'.sys.instruction u).regs.rip =
      some api) :
    ∃ f ∈ (s'.exec u).frames, f.Of api (s'.sys.instruction u) := by
  rw [heffect.breakpoints] at hentry
  cases heffect.thread u with
  | stays hsame hexec =>
      rw [hexec] at htried ⊢
      rw [hsame.instruction halive htried] at hentry ⊢
      exact h.entered u (hsame.alive halive) htried api hentry
  | runs ctx hm hrun htried' hbyte huntrapped hexec =>
      rw [hexec] at htried
      cases htried
  | traps ctx hm hrun htried' hbyte htrapped hinstruction hexec =>
      rw [hinstruction] at hentry ⊢
      rw [hexec]
      refine ⟨⟨api, callArg1 ctx, callArg2 ctx, callReturnAddress ctx, s.sys.initialized, false⟩,
        ?_, rfl, rfl, rfl, rfl⟩
      show _ ∈ (Execution.enter _ _ _ _).frames
      rw [Execution.enter_of_some hentry]
      exact List.mem_cons_self
  | reruns hm hrun htried' hbyte huntrapped hexec =>
      rw [hexec] at htried
      cases htried
  | retraps hm hrun htried' htrapped hinstruction hexec =>
      rw [hexec]
      rw [hinstruction] at hentry ⊢
      exact h.entered u (System.alive_of_running hrun) htried' api hentry
  | processed htrapped halive' huntrapped hinstruction hexec =>
      rw [hexec]
      rw [hinstruction] at hentry ⊢
      exact h.entered u (System.alive_of_trapped htrapped) (h.tried_of_trapped htrapped) api hentry

/-- A thread whose instruction has trapped does not run past it while a trap byte
stands there, and otherwise stays at it. -/
theorem AtEntry.step {u : Pid} (h : s.AtEntry u) (heffect : Effect s m s')
    (halive : s'.sys.Alive u)
    (hbyte : s.sys.status u = .running →
      s.sys.code.text (s.sys.instruction u).regs.rip = trapByte) : s'.AtEntry u := by
  obtain ⟨htried, hentry⟩ := h
  rw [AtEntry, heffect.breakpoints]
  cases heffect.thread u with
  | stays hsame hexec =>
      rw [hexec, hsame.instruction halive htried]
      exact ⟨htried, hentry⟩
  | runs ctx hm hrun htried' => cases htried.symm.trans htried'
  | traps ctx hm hrun htried' => cases htried.symm.trans htried'
  | reruns hm hrun htried' hno => exact absurd (hbyte hrun) hno
  | retraps hm hrun htried' htrapped hinstruction hexec =>
      rw [hexec, hinstruction]
      exact ⟨htried, hentry⟩
  | processed htrapped halive' huntrapped hinstruction hexec =>
      rw [hexec, hinstruction]
      exact ⟨htried, hentry⟩

/-- Apart from the processing of a trap, the tracked call stays what it is and a
trap stays pending. -/
theorem Effect.process_or (h : Effect s m s') :
    (∃ t, s.sys.AtWaitpid ∧ s.sys.Trapped t ∧ s'.sys.Alive t ∧
        (s'.exec t).frames = (s.exec t).frames ∧ (∀ u ≠ t, Same s s' u) ∧ Verdict s t s') ∨
      (s'.sys.monitor.tracked = s.sys.monitor.tracked ∧
        ∀ u, s'.sys.Alive u → s.sys.Trapped u → s'.sys.Trapped u) := by
  cases h with
  | run t ctx hm hrun htried hbyte hsys hexec =>
      rw [hsys]
      exact Or.inr ⟨rfl, fun _ _ htrapped => htrapped⟩
  | trap t ctx hm hrun htried hbyte hmonitor hlog hphase htrapped hinstruction hothers hexec =>
      refine Or.inr ⟨by rw [hmonitor], fun u halive hu => ?_⟩
      by_cases heq : u = t
      · exact heq ▸ htrapped
      · exact ((hothers u heq).trapped halive).mpr hu
  | rerun t hm hrun htried hbyte hsys hexec =>
      rw [hsys]
      exact Or.inr ⟨rfl, fun _ _ htrapped => htrapped⟩
  | retrap t hm hrun htried hbyte hmonitor hlog hphase htrapped hinstruction hothers hexec =>
      refine Or.inr ⟨by rw [hmonitor], fun u halive hu => ?_⟩
      by_cases heq : u = t
      · exact heq ▸ htrapped
      · exact ((hothers u heq).trapped halive).mpr hu
  | quiet htracked hbps hlog hphase hsame hexec =>
      exact Or.inr ⟨htracked, fun u halive hu => ((hsame u).trapped halive).mpr hu⟩
  | process t hwait htrapped hbps halive huntrapped hinstruction hothers hexec hverdict =>
      refine Or.inl ⟨t, hwait, htrapped, halive, ?_, hothers, hverdict⟩
      rw [hexec, Function.update_self]

/-- The tracked thread stays in its call as long as it is not reported. -/
theorem HeldInv.inside_step (h : HeldInv s) (ht : TraceInv s.sys) (hloop : s.sys.phase = .loop)
    (hra : s.sys.monitor.returnAddress ≠ 0) {t : Pid} (hlast : s.sys.monitor.lastThread = t)
    (hthread : ThreadEffect s m s' t) (halive : s'.sys.Alive t)
    (hpending : s.sys.Trapped t → s'.sys.Trapped t) :
    s'.Inside s.sys.monitor.tracked t := by
  subst hlast
  obtain ⟨-, hin⟩ := h.inside hloop hra
  -- a running thread is in its call by its frames
  have hframe : s.sys.status s.sys.monitor.lastThread = .running →
      ∃ f ∈ (s.exec s.sys.monitor.lastThread).frames, s.sys.monitor.tracked.Describes f := by
    intro hrun
    exact hin.resolve_right fun htrapped => System.not_trapped_of_running hrun htrapped.1
  cases hthread with
  | stays hsame hexec =>
      rcases hin with ⟨f, hf, hk⟩ | ⟨htrapped, hrip⟩
      · exact Or.inl ⟨f, hexec ▸ hf, hk⟩
      · refine Or.inr ⟨(hsame.trapped halive).mpr htrapped, ?_⟩
        rw [hsame.instruction halive (h.tried_of_trapped htrapped)]
        exact hrip
  | runs ctx hm hrun htried hbyte huntrapped hexec =>
      obtain ⟨f, hf, hk⟩ := hframe hrun
      have hrip : ctx.regs.rip ≠ s.sys.monitor.tracked.returnAddress := by
        intro heq
        rw [heq] at hbyte
        exact hbyte ((standing_of_running ht hra hrun).trapByte hra)
      rw [Inside, hexec]
      exact Or.inl (hk.arrive hf hrip _ _ _ _)
  | traps ctx hm hrun htried hbyte htrapped hinstruction hexec =>
      by_cases hrip : ctx.regs.rip = s.sys.monitor.tracked.returnAddress
      · exact Or.inr ⟨htrapped, by rw [hinstruction]; exact hrip⟩
      · obtain ⟨f, hf, hk⟩ := hframe hrun
        rw [Inside, hexec]
        exact Or.inl (hk.arrive hf hrip _ _ _ _)
  | reruns hm hrun htried hbyte huntrapped hexec =>
      rw [Inside, hexec]
      exact Or.inl (hframe hrun)
  | retraps hm hrun htried htrapped hinstruction hexec =>
      rw [Inside, hexec]
      exact Or.inl (hframe hrun)
  | processed htrapped halive' huntrapped hinstruction hexec =>
      exact absurd (hpending htrapped) huntrapped

theorem WakesOn.alive_last (hok : s.WakesOn m) (hstep : s.step m = some s')
    (hra : s.sys.monitor.returnAddress ≠ 0) (halive : s.sys.Alive s.sys.monitor.lastThread) :
    s'.sys.Alive s.sys.monitor.lastThread := by
  refine System.alive_step (step_eq_some hstep).2.1 ?_ halive
  intro hlabel
  cases m with
  | exit t =>
      cases hlabel
      exact hok.1 hra rfl
  | _ => cases hlabel

/-- **A move keeps the tracked thread alive and in its call.** -/
theorem HeldInv.tracking_step (h : HeldInv s) (ht : TraceInv s.sys) (hok : s.HeldMove m)
    (hstep : s.step m = some s') (hloop : s'.sys.phase = .loop)
    (hra : s'.sys.monitor.returnAddress ≠ 0) :
    s'.sys.Alive s'.sys.monitor.lastThread ∧
      s'.Inside s'.sys.monitor.tracked s'.sys.monitor.lastThread := by
  have heffect := step_effect h.fresh hok.1.1 hstep
  have hloop₀ := heffect.loop hloop
  -- a step that leaves the tracked call and its thread alone
  have hkeep : s'.sys.monitor.tracked = s.sys.monitor.tracked →
      (s.sys.Trapped s.sys.monitor.lastThread → s'.sys.Alive s.sys.monitor.lastThread →
        s'.sys.Trapped s.sys.monitor.lastThread) →
      s'.sys.Alive s'.sys.monitor.lastThread ∧
        s'.Inside s'.sys.monitor.tracked s'.sys.monitor.lastThread := by
    intro htracked hpending
    have hra₀ : s.sys.monitor.returnAddress ≠ 0 := by
      rw [show s.sys.monitor.returnAddress = _ from
        (congrArg Tracked.returnAddress htracked).symm]
      exact hra
    rw [htracked, show s'.sys.monitor.lastThread = s.sys.monitor.lastThread from
      congrArg Tracked.lastThread htracked]
    have halive := hok.2.alive_last hstep hra₀ (h.inside hloop₀ hra₀).1
    exact ⟨halive, h.inside_step ht hloop₀ hra₀ rfl (heffect.thread _) halive
      fun htrapped => hpending htrapped halive⟩
  rcases heffect.process_or with
    ⟨t, hwait, htrapped, halive, hframes, hothers, hverdict⟩ | ⟨htracked, hpending⟩
  · cases hverdict with
    | hold htracked hlog hwhy =>
        -- a held thread is not the tracked one
        have hne : s.sys.monitor.lastThread ≠ t :=
          (hwhy.resolve_right fun hun => by cases hloop.symm.trans hun).2
        exact hkeep htracked fun htrapped' halive =>
          ((hothers _ hne).trapped halive).mpr htrapped'
    | atReturn api hlast hbp hrip htracked hlog =>
        exact absurd (congrArg Tracked.returnAddress htracked) hra
    | atEntry api hlast hrip hentry htracked hlog =>
        obtain ⟨code, htracked⟩ := htracked
        obtain ⟨f, hf, hof⟩ := h.entered t (System.alive_of_trapped htrapped)
          (h.tried_of_trapped htrapped) api hentry
        rw [htracked, show s'.sys.monitor.lastThread = t from
          congrArg Tracked.lastThread htracked]
        exact ⟨halive, Or.inl ⟨f, by rw [hframes]; exact hf, hof.describes t code⟩⟩
    | elsewhere hlast hrip hentry htracked hlog =>
        rw [System.instruction_of_trapped htrapped] at hrip hentry
        refine absurd ?_ hra
        refine (congrArg Tracked.returnAddress htracked).trans
          (ht.returnAddress_eq_zero ?_ htrapped hlast hrip hentry)
        rw [hwait.2]
        exact noWrites_nil
  · exact hkeep htracked fun htrapped halive => hpending _ halive htrapped

theorem HeldInv.tried_step (h : HeldInv s) (hk : HoldInv s.sys) (heffect : Effect s m s')
    (hstep : s.step m = some s') (t : Pid) (ht : t ∈ s'.sys.monitor.holdThreads)
    (halive : s'.sys.Alive t) : (s'.exec t).tried = true := by
  have hthread := heffect.thread t
  have hsys := (step_eq_some hstep).2.1
  -- a thread that was held before has not moved
  have hold : t ∈ s.sys.monitor.holdThreads → (s'.exec t).tried = true := by
    intro hmem
    cases hthread with
    | stays hsame hexec =>
        rw [hexec]
        exact h.tried t hmem (hsame.alive halive)
    | runs ctx hm hrun => exact absurd hmem (hk.not_held_of_running hrun)
    | traps ctx hm hrun htried hbyte htrapped hinstruction hexec =>
        rw [hexec]
        rfl
    | reruns hm hrun => exact absurd hmem (hk.not_held_of_running hrun)
    | retraps hm hrun htried htrapped hinstruction hexec =>
        rw [hexec]
        exact htried
    | processed htrapped halive' huntrapped hinstruction hexec =>
        rw [hexec]
        exact h.tried_of_trapped htrapped
  cases System.step_hold hsys with
  | same hhold => exact hold (hhold ▸ ht)
  | push u out hlabel htrapped hra hlast hhold =>
      rw [hhold] at ht
      rcases List.mem_cons.mp ht with rfl | ht
      · cases hthread with
        | stays hsame hexec =>
            rw [hexec]
            exact h.tried_of_trapped htrapped
        | runs ctx hm hrun => exact absurd htrapped (System.not_trapped_of_running hrun)
        | traps ctx hm hrun => exact absurd htrapped (System.not_trapped_of_running hrun)
        | reruns hm hrun => exact absurd htrapped (System.not_trapped_of_running hrun)
        | retraps hm hrun => exact absurd htrapped (System.not_trapped_of_running hrun)
        | processed _ halive' huntrapped hinstruction hexec =>
            rw [hexec]
            exact h.tried_of_trapped htrapped
      · exact hold ht
  | pop u out held rest hlabel htrapped hlast hrip hbefore hhold =>
      rw [hhold] at ht
      exact hold (by rw [hbefore]; exact List.mem_cons_of_mem _ ht)

/-- A trap byte stands at every entry while no call is tracked. -/
theorem trapByte_at_entry (ht : TextInv orig s.sys) (hra : s.sys.monitor.returnAddress = 0)
    (hno : NoWrites s.sys.queue) (api : Api) :
    s.sys.code.entryArmed api = true ∧
      s.sys.code.text (s.sys.monitor.breakpoints api).entryAddress = trapByte := by
  have hsettled := ht.settled hno
  have harmed := (hsettled.idle hra).1 api
  refine ⟨harmed, ?_⟩
  rw [show s.sys.code.text = _ from hsettled.patched]
  exact planted_of_mem (Or.inl ⟨api, harmed, rfl⟩)

/-- The thread that keeps the chain going does so through a step without a
tracked call. -/
theorem HeldInv.waiting_keep (h : HeldInv s) (ht : TextInv orig s.sys) (hok : s.HeldMove m)
    (hstep : s.step m = some s') (hloop : s.sys.phase = .loop)
    (hra : s.sys.monitor.returnAddress = 0) (hra' : s'.sys.monitor.returnAddress = 0)
    (hhold : s'.sys.monitor.holdThreads = s.sys.monitor.holdThreads)
    (hheld : s.sys.monitor.holdThreads ≠ []) :
    ∃ u, s'.sys.Alive u ∧ u ∉ s'.sys.monitor.holdThreads ∧ s'.AtEntry u ∧
      (s'.sys.status u = .stopped ∨ NoWrites s'.sys.queue) := by
  have heffect := step_effect h.fresh hok.1.1 hstep
  have hsys := (step_eq_some hstep).2.1
  obtain ⟨u, halive, hnot, hat, hstill⟩ := h.waiting hloop hra hheld
  have hne : m.label s.sys ≠ .exit u := by
    intro hlabel
    cases m with
    | exit t =>
        cases hlabel
        exact hok.2.2 hra hheld hat
    | _ => cases hlabel
  have halive' := System.alive_step hsys hne halive
  refine ⟨u, halive', by rw [hhold]; exact hnot, ?_, ht.still_step hsys hne hra hra' hstill⟩
  refine hat.step heffect halive' ?_
  intro hrun
  have hno : NoWrites s.sys.queue :=
    hstill.resolve_left fun hstopped => by cases hstopped.symm.trans hrun
  obtain ⟨api, hapi⟩ := Option.ne_none_iff_exists'.mp hat.2
  rw [eq_of_breakpointByEntry hapi]
  exact (trapByte_at_entry ht hra hno api).2

/-- **While threads are held and no call is tracked, a thread is going to trap.** -/
theorem HeldInv.waiting_step (h : HeldInv s) (ht : TextInv orig s.sys) (hk : HoldInv s.sys)
    (hok : s.HeldMove m) (hstep : s.step m = some s') (hloop : s'.sys.phase = .loop)
    (hra' : s'.sys.monitor.returnAddress = 0) (hheld' : s'.sys.monitor.holdThreads ≠ []) :
    ∃ u, s'.sys.Alive u ∧ u ∉ s'.sys.monitor.holdThreads ∧ s'.AtEntry u ∧
      (s'.sys.status u = .stopped ∨ NoWrites s'.sys.queue) := by
  have heffect := step_effect h.fresh hok.1.1 hstep
  have hsys := (step_eq_some hstep).2.1
  have hloop₀ := heffect.loop hloop
  cases System.step_hold hsys with
  | same hhold hreturn =>
      have hheld : s.sys.monitor.holdThreads ≠ [] := by
        rw [← hhold]
        exact hheld'
      by_cases hra : s.sys.monitor.returnAddress = 0
      · exact h.waiting_keep ht hok hstep hloop₀ hra hra' hhold hheld
      · -- the call has been given up at its return, and no thread is held
        obtain ⟨t, out, hlabel, htrapped, hlast, hrip⟩ := ht.return_of_step hsys hra hra'
        rcases hreturn t out hlabel htrapped hlast hrip with hempty | hleft
        · exact absurd hempty hheld
        · exact absurd hloop hleft
  | push t out hlabel htrapped hra hlast hhold htracked =>
      exact absurd ((congrArg Tracked.returnAddress htracked).symm.trans hra') hra
  | pop t out held rest hlabel htrapped hlast hrip hbefore hhold =>
      -- the woken thread stands at an entry
      have hm : m = .wait t out := by
        cases m with
        | wait u out' =>
            cases hlabel
            rfl
        | _ => cases hlabel
      subst hm
      have hra : s.sys.monitor.returnAddress ≠ 0 := by
        rw [← hrip, System.instruction_of_trapped htrapped]
        exact ht.rip_ne_zero (ht.behind t htrapped)
      have hwoken := hok.2 htrapped (hlast hra) hrip
      rw [hhold] at hheld'
      rw [hbefore] at hwoken
      cases rest with
      | nil => exact absurd rfl hheld'
      | cons next rest =>
          obtain ⟨halive, hat⟩ := hwoken
          have hstopped := hk.stopped held (by rw [hbefore]; exact List.mem_cons_self) halive
          have hne : held ≠ t := by
            rintro rfl
            cases hstopped.symm.trans htrapped
          have halive' := System.alive_step hsys (by rintro ⟨⟩) halive
          have hnodup := hk.nodup
          rw [hbefore] at hnodup
          refine ⟨held, halive', ?_, hat.step heffect halive' fun hrun => ?_, Or.inl ?_⟩
          · rw [hhold]
            exact (List.nodup_cons.mp hnodup).1
          · cases hstopped.symm.trans hrun
          · exact (System.status_step_wait hsys hne).trans hstopped

/-- **Every such move keeps the chain of wake-ups going.** -/
theorem heldInv_step (h : HeldInv s) (ht : TextInv orig s.sys) (hk : HoldInv s.sys)
    (hok : s.HeldMove m) (hstep : s.step m = some s') : HeldInv s' := by
  have heffect := step_effect h.fresh hok.1.1 hstep
  exact
    { fresh := fresh_step h.fresh hok.1.1 hstep
      untried := fun u => (heffect.thread u).untried (h.untried u)
      entered := h.entered_step heffect
      tried := h.tried_step hk heffect hstep
      inside := h.tracking_step ht.toTraceInv hok hstep
      waiting := h.waiting_step ht hk hok hstep }

end HeldInv

theorem heldInv_begin {symtabByName : Api → Word} {text : Bytes 64} {targetPid : Pid}
    {limits : Limits} {others : Pid → Bool} {s₀ : System}
    (hbegin : System.begin symtabByName text targetPid limits others = some s₀) :
    HeldInv (.start s₀) := by
  have hpending := System.not_pending_begin hbegin
  obtain ⟨init, -, rfl⟩ := Option.map_eq_some_iff.mp hbegin
  exact
    { fresh := fun _ _ => rfl
      untried := fun t _ => hpending t _
      entered := fun _ _ htried => by cases htried
      tried := fun _ ht => by cases ht
      inside := fun _ hra => absurd rfl hra
      waiting := fun _ _ hheld => absurd rfl hheld }

end Traced

/-- Thread 1 calls `malloc(16)`; threads 2 and 3 go to `rip` meanwhile, with
`before` in front, and are held; thread 1 returns. -/
def holdTwo (before : Pid → List Move) (rip : Word) : List Move :=
  issueMoves 5 ++ [.fetch 1 (sampleContext 0x1000 0x2000 0 16), .wait 1 sampleOutside] ++
    issueMoves 4 ++ before 2 ++ [.fetch 2 (sampleContext rip 0x2100 0 0)] ++
    before 3 ++ [.fetch 3 (sampleContext rip 0x2100 0 0)] ++
    [.wait 2 sampleOutside, .wait 3 sampleOutside, .retry 1,
      .fetch 1 (sampleContext 0x2000 0 0x5000 0), .wait 1 sampleOutside] ++ issueMoves 5

def Move.clones : Move → Bool
  | .clone _ _ _ => true
  | _ => false

/-- A thread that is not there at the beginning has no record as long as none is
created. -/
theorem Traced.unborn_of_reachable {s₀ : System} {s : Traced} {u : Pid}
    (hu : s₀.status u = .unborn)
    (hs : Reachable Traced.step
      (fun s m => s.sys.Traces (m.label s.sys) ∧ m.clones = false) (.start s₀) s) :
    s.exec u = {} := by
  have h : Traced.Fresh s ∧ s.sys.status u = .unborn := by
    refine Reachable.invariant (fun s => Traced.Fresh s ∧ s.sys.status u = .unborn) hs
      ⟨fun _ _ => rfl, hu⟩ ?_
    rintro s m s' ⟨hfresh, hunborn⟩ ⟨hok, hclone⟩ hstep
    refine ⟨Traced.fresh_step hfresh hok.1 hstep,
      System.unborn_step (Traced.step_eq_some hstep).2.1 ?_ hunborn⟩
    intro t ctx hlabel
    cases m with
    | clone t' child ctx' => cases hclone
    | _ => cases hlabel
  exact h.1 u h.2

/-- Threads 2 and 3 call `malloc` too, while its entry is not armed, and return to
the same address. -/
def mallocToo (t : Pid) : List Move := [.fetch t (sampleContext 0x1000 0x2000 0 16)]

end Memleax
