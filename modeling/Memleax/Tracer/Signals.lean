import Memleax.Tracer.System

/-!
# Signals to memleax

`signal_handler` stores the number of the signal in `g_signo` and sends a
`SIGSTOP` to the target; the loop looks at `g_signo` when it meets a `SIGSTOP`
stop of any thread. The handler can run at any moment, also between two accesses
of the loop to `g_signo`: the test for `SIGALRM`, the reset, and the test for
anything else. An iteration on a `SIGSTOP` is therefore taken apart here
(`Stage`). When no signal arrives in between, the parts make up the iteration of
`Loop` (`Fine.uninterrupted`).

One variable holds all requests. A request to terminate is lost when the timer
goes off before the loop has seen it, and when it arrives between the test and
the reset of a timer's `SIGSTOP`.
-/

namespace Memleax

open Framework

/-- What the loop does next on the `SIGSTOP` of a thread. -/
inductive Stage where
  /-- not in such an iteration -/
  | outside
  /-- `if (g_signo == SIGALRM)` -/
  | testAlarm (t : Pid) (out : Outside)
  /-- `g_signo = 0`, and on to `lexpire` -/
  | clear (t : Pid) (out : Outside)
  /-- `else if (g_signo != 0)`, and the rest of the iteration -/
  | testOther (t : Pid) (out : Outside)

def Stage.inside : Stage → Bool
  | .outside => false
  | .testAlarm _ _ | .clear _ _ | .testOther _ _ => true

def Stage.clearing : Stage → Bool
  | .clear _ _ => true
  | .outside | .testAlarm _ _ | .testOther _ _ => false

def Stage.deciding : Stage → Bool
  | .testOther _ _ => true
  | .outside | .testAlarm _ _ | .clear _ _ => false

/-- From `else if (g_signo != 0)` on. -/
def Monitor.sigstopOther (m : Monitor) (pid : Pid) (ctx : Context) (out : Outside) : Turn :=
  if m.signo ≠ none then { monitor := m, context := ctx, phase := .left .terminate }
  else if out.isTask then { monitor := m, context := ctx, requests := [.resume pid none] }
  else
    { monitor := m
      context := ctx
      requests := (Api.all.map fun api =>
          .writeChild pid (m.breakpoints api).entryAddress (m.breakpoints api).entryCode) ++
        [.detach pid] }

theorem Monitor.onSigstop_eq (m : Monitor) (pid : Pid) (ctx : Context) (out : Outside) :
    m.onSigstop pid ctx out =
      if m.signo = some .sigalrm then { m with signo := none }.lexpire pid ctx out [] none
      else m.sigstopOther pid ctx out := rfl

/-- The end of an iteration on a stop that has been reported before. -/
def System.finish (s : System) (turn : Turn) : System :=
  { s with
    monitor := turn.monitor
    queue := turn.requests
    phase := turn.phase
    log := s.log ++ turn.invoked.toList }

/-- The system, in the middle of an iteration. -/
structure Fine where
  sys : System
  stage : Stage := .outside

inductive FineLabel where
  | sys (label : Label)
  /-- the loop goes on in the iteration -/
  | advance

namespace Fine

/-- `waitpid` reports thread `t`. -/
def wait (f : Fine) (t : Pid) (out : Outside) : Option Fine :=
  match f.sys.status t with
  | .pending (.stop .sigstop _) =>
      if f.sys.AtWaitpid then
        some ⟨f.sys.setThread t ⟨.stopped, f.sys.context t⟩, .testAlarm t out⟩
      else none
  | _ => (f.sys.step (.wait t out)).map (⟨·, .outside⟩)

def advance (f : Fine) : Option Fine :=
  match f.stage with
  | .outside => none
  | .testAlarm t out =>
      some ⟨f.sys, if f.sys.monitor.signo = some .sigalrm then .clear t out else .testOther t out⟩
  | .clear t out =>
      some ⟨f.sys.finish
        ({ f.sys.monitor with signo := none }.lexpire t (f.sys.context t) out [] none), .outside⟩
  | .testOther t out =>
      some ⟨f.sys.finish (f.sys.monitor.sigstopOther t (f.sys.context t) out), .outside⟩

def step (f : Fine) : FineLabel → Option Fine
  | .advance => f.advance
  | .sys (.wait t out) => if f.stage.inside then none else f.wait t out
  | .sys (.waitFails eintr) =>
      if f.stage.inside then none else (f.sys.step (.waitFails eintr)).map (⟨·, .outside⟩)
  | .sys label => (f.sys.step label).map (⟨·, f.stage⟩)

/-- **Without a signal in between** the parts are the iteration of the loop. -/
theorem uninterrupted {s : System} {t : Pid} {event : Bool} (out : Outside)
    (hpending : s.status t = .pending (.stop .sigstop event)) (hwait : s.AtWaitpid) :
    (((mk s .outside).step (.sys (.wait t out))).bind (·.step .advance)).bind (·.step .advance) =
      some ⟨s.wait t (.stop .sigstop event) out, .outside⟩ := by
  have hctx : (s.setThread t ⟨.stopped, s.context t⟩).context t = s.context t :=
    s.context_setThread_self t _
  have hturn : (s.monitor.turn s.code t (.stop .sigstop event) (s.context t) out).context =
      s.context t := (s.monitor.turn_keeps s.code t (s.context t) out _).1
  -- what is left of the iteration does not touch the thread
  have hfinish : (s.setThread t ⟨.stopped, s.context t⟩).finish
      (s.monitor.onSigstop t (s.context t) out) = s.wait t (.stop .sigstop event) out := by
    rw [System.wait, hturn]
    rfl
  simp only [step, Stage.inside, wait, hpending, hwait, advance, Option.bind_some, if_pos,
    Bool.false_eq_true, if_false]
  rw [← hfinish, Monitor.onSigstop_eq]
  by_cases halarm : s.monitor.signo = some .sigalrm
  · rw [if_pos halarm, if_pos (show (s.setThread t _).monitor.signo = _ from halarm)]
    simp only [hctx]
    rfl
  · rw [if_neg halarm, if_neg (show ¬ (s.setThread t _).monitor.signo = _ from halarm)]
    simp only [hctx]
    rfl

/-- **Every step of the finer system.** -/
inductive StepKind (f : Fine) : FineLabel → Fine → Prop
  /-- a step in which the loop takes no part -/
  | other (label : Label) (s' : System) (hstep : f.sys.step label = some s')
      (hwait : ∀ t out, label ≠ .wait t out) (hfails : ∀ eintr, label ≠ .waitFails eintr) :
      StepKind f (.sys label) ⟨s', f.stage⟩
  | waitFails (eintr : Bool) (s' : System) (hstep : f.sys.step (.waitFails eintr) = some s')
      (hout : f.stage = .outside) : StepKind f (.sys (.waitFails eintr)) ⟨s', .outside⟩
  | wait (t : Pid) (report : Report) (out : Outside) (hpending : f.sys.status t = .pending report)
      (hne : ∀ event, report ≠ .stop .sigstop event) (hwait : f.sys.AtWaitpid)
      (hout : f.stage = .outside) :
      StepKind f (.sys (.wait t out)) ⟨f.sys.wait t report out, .outside⟩
  | sigstop (t : Pid) (event : Bool) (out : Outside)
      (hpending : f.sys.status t = .pending (.stop .sigstop event)) (hwait : f.sys.AtWaitpid)
      (hout : f.stage = .outside) :
      StepKind f (.sys (.wait t out))
        ⟨f.sys.setThread t ⟨.stopped, f.sys.context t⟩, .testAlarm t out⟩
  | isAlarm (t : Pid) (out : Outside) (hstage : f.stage = .testAlarm t out)
      (halarm : f.sys.monitor.signo = some .sigalrm) :
      StepKind f .advance ⟨f.sys, .clear t out⟩
  | noAlarm (t : Pid) (out : Outside) (hstage : f.stage = .testAlarm t out)
      (halarm : f.sys.monitor.signo ≠ some .sigalrm) :
      StepKind f .advance ⟨f.sys, .testOther t out⟩
  | clear (t : Pid) (out : Outside) (hstage : f.stage = .clear t out) :
      StepKind f .advance ⟨f.sys.finish
        ({ f.sys.monitor with signo := none }.lexpire t (f.sys.context t) out [] none), .outside⟩
  | testOther (t : Pid) (out : Outside) (hstage : f.stage = .testOther t out) :
      StepKind f .advance
        ⟨f.sys.finish (f.sys.monitor.sigstopOther t (f.sys.context t) out), .outside⟩

theorem eq_outside_of_inside {stage : Stage} (h : ¬ stage.inside = true) : stage = .outside := by
  cases stage with
  | outside => rfl
  | testAlarm t out => exact absurd rfl h
  | clear t out => exact absurd rfl h
  | testOther t out => exact absurd rfl h

theorem wait_kind {f f' : Fine} {t : Pid} {out : Outside} (hout : f.stage = .outside)
    (h : f.wait t out = some f') : f.StepKind (.sys (.wait t out)) f' := by
  unfold wait at h
  split at h
  · rename_i event hpending
    split at h
    · rename_i hwait
      cases h
      exact .sigstop t event out hpending hwait hout
    · cases h
  · rename_i hne
    obtain ⟨s', hstep, rfl⟩ := Option.map_eq_some_iff.mp h
    cases System.step_kind hstep with
    | wait t report out hpending hwait =>
        refine .wait t report out hpending (fun event heq => ?_) hwait hout
        exact hne event (heq ▸ hpending)

theorem advance_kind {f f' : Fine} (h : f.advance = some f') : f.StepKind .advance f' := by
  unfold advance at h
  split at h
  · cases h
  · rename_i t out hstage
    cases h
    by_cases halarm : f.sys.monitor.signo = some .sigalrm
    · rw [if_pos halarm]
      exact .isAlarm t out hstage halarm
    · rw [if_neg halarm]
      exact .noAlarm t out hstage halarm
  · rename_i t out hstage
    cases h
    exact .clear t out hstage
  · rename_i t out hstage
    cases h
    exact .testOther t out hstage

theorem step_kind {f f' : Fine} {label : FineLabel} (h : f.step label = some f') :
    f.StepKind label f' := by
  have hother : ∀ label : Label, (∀ t out, label ≠ .wait t out) →
      (∀ eintr, label ≠ .waitFails eintr) →
      (f.sys.step label).map (⟨·, f.stage⟩ : System → Fine) = some f' →
      f.StepKind (.sys label) f' := by
    intro label hwait hfails h
    obtain ⟨s', hstep, rfl⟩ := Option.map_eq_some_iff.mp h
    exact .other label s' hstep hwait hfails
  cases label with
  | advance => exact advance_kind h
  | sys label =>
      cases label with
      | wait t out =>
          rw [step] at h
          split at h
          · cases h
          · rename_i hout
            exact wait_kind (eq_outside_of_inside hout) h
      | waitFails eintr =>
          rw [step] at h
          split at h
          · cases h
          · rename_i hout
            obtain ⟨s', hstep, rfl⟩ := Option.map_eq_some_iff.mp h
            exact .waitFails eintr s' hstep (eq_outside_of_inside hout)
      | fetch t ctx => exact hother _ (by simp) (by simp) h
      | signal t signum ctx => exact hother _ (by simp) (by simp) h
      | clone t child ctx => exact hother _ (by simp) (by simp) h
      | exit t => exact hother _ (by simp) (by simp) h
      | interrupt signum => exact hother _ (by simp) (by simp) h
      | issue => exact hother _ (by simp) (by simp) h

end Fine

/-- The signal for which `signal_handler` runs. -/
def Label.interrupts : Label → Option Signo
  | .interrupt signum => some signum
  | _ => none

/-- A step in which the loop takes no part leaves its variables alone, but for a
run of `signal_handler`. -/
theorem System.step_other {s s' : System} {label : Label} (h : s.step label = some s')
    (hwait : ∀ t out, label ≠ .wait t out) (hfails : ∀ eintr, label ≠ .waitFails eintr) :
    s'.phase = s.phase ∧
      s'.monitor = { s.monitor with signo := label.interrupts.or s.monitor.signo } := by
  cases System.step_kind h with
  | wait t report out hpending hat => exact absurd rfl (hwait t out)
  | waitAgain hat => exact absurd rfl (hfails true)
  | waitError hat => exact absurd rfl (hfails false)
  | issueResume t signum queue hqueue =>
      unfold System.resume
      split <;> exact ⟨rfl, rfl⟩
  | _ => exact ⟨rfl, rfl⟩

theorem System.wait_signo (s : System) {t : Pid} {report : Report} (out : Outside)
    (hne : ∀ event, report ≠ .stop .sigstop event) :
    (s.wait t report out).monitor.signo = s.monitor.signo :=
  (s.monitor.turn_globals s.code t (s.context t) out report).2 hne

/-! ## Requests to terminate -/

/-- The signals that ask memleax to stop. -/
def Signo.terminates : Signo → Bool
  | .sigint | .sighup | .sigterm => true
  | .sigstop | .sigtrap | .sigalrm | .other _ => false

/-- The finer system, with the requests to terminate. -/
structure Asked where
  fine : Fine
  /-- `signal_handler` has run for a request to terminate -/
  asked : Bool := false
  /-- and the loop has begun to process a `SIGSTOP` since -/
  due : Bool := false

def FineLabel.asks : FineLabel → Bool
  | .sys (.interrupt signum) => signum.terminates
  | _ => false

namespace Asked

def step (a : Asked) (label : FineLabel) : Option Asked :=
  (a.fine.step label).map fun f =>
    { fine := f
      asked := a.asked || label.asks
      due := a.due || (a.asked && !a.fine.stage.inside && f.stage.inside) }

/-- `signal_handler` is set up for four signals. -/
def Handled (_ : Asked) : FineLabel → Prop
  | .sys (.interrupt signum) => signum = .sigalrm ∨ signum.terminates = true
  | _ => True

/-- `g_signo` holds a request to terminate. -/
def holds (a : Asked) : Bool := a.fine.sys.monitor.signo.any Signo.terminates

/-- A signal that does no harm: the timer does not go off while a request waits
in `g_signo`, unless the loop has got past the test for the timer, and no
request arrives between this test and the reset. -/
def Undisturbed (a : Asked) : FineLabel → Prop
  | .sys (.interrupt signum) =>
      (signum = .sigalrm ∧ (a.holds = true → a.fine.stage.deciding = true)) ∨
        (signum.terminates = true ∧ a.fine.stage.clearing = false)
  | _ => True

instance (a : Asked) : (label : FineLabel) → Decidable (a.Handled label)
  | .sys (.interrupt _) => inferInstanceAs (Decidable (_ ∨ _))
  | .advance | .sys (.fetch _ _) | .sys (.signal _ _ _) | .sys (.clone _ _ _) | .sys (.exit _)
  | .sys (.wait _ _) | .sys (.waitFails _) | .sys .issue => inferInstanceAs (Decidable True)

instance (a : Asked) : (label : FineLabel) → Decidable (a.Undisturbed label)
  | .sys (.interrupt _) => inferInstanceAs (Decidable (_ ∨ _))
  | .advance | .sys (.fetch _ _) | .sys (.signal _ _ _) | .sys (.clone _ _ _) | .sys (.exit _)
  | .sys (.wait _ _) | .sys (.waitFails _) | .sys .issue => inferInstanceAs (Decidable True)

end Asked

/-- A request is in `g_signo`, or the loop is about to find something there. -/
structure AskedInv (a : Asked) : Prop where
  kept : a.asked = true → a.fine.sys.phase = .loop →
    a.holds = true ∨ (a.fine.stage.deciding = true ∧ a.fine.sys.monitor.signo ≠ none)
  clear : a.asked = true → a.fine.stage.clearing = false
  asked : a.due = true → a.asked = true
  met : a.due = true → a.fine.stage = .outside → ∃ why, a.fine.sys.phase = .left why
  looping : a.fine.stage.inside = true → a.fine.sys.phase = .loop

section AskedInv

variable {a a' : Asked}

theorem Asked.signo_ne_none (h : a.holds = true) : a.fine.sys.monitor.signo ≠ none := by
  intro hnone
  rw [Asked.holds, hnone] at h
  cases h

/-- What is asked before an iteration begins waits in `g_signo`. -/
theorem AskedInv.holds (h : AskedInv a) (hasked : a.asked = true)
    (hloop : a.fine.sys.phase = .loop) (hstage : a.fine.stage.deciding = false) :
    a.holds = true := by
  rcases h.kept hasked hloop with hholds | ⟨hdeciding, -⟩
  · exact hholds
  · cases hdeciding.symm.trans hstage

theorem AskedInv.not_due (h : AskedInv a) (hwait : a.fine.sys.AtWaitpid)
    (hout : a.fine.stage = .outside) : a.due = false := by
  cases hdue : a.due with
  | false => rfl
  | true =>
      obtain ⟨why, hleft⟩ := h.met hdue hout
      cases hleft.symm.trans hwait.1

theorem AskedInv.interrupt (h : AskedInv a) {signum : Signo}
    (hok : a.Undisturbed (.sys (.interrupt signum))) {s' : System}
    (hphase : s'.phase = a.fine.sys.phase) (hsigno : s'.monitor.signo = some signum) :
    AskedInv ⟨⟨s', a.fine.stage⟩, a.asked || signum.terminates, a.due⟩ := by
  refine ⟨?_, ?_, ?_, ?_, ?_⟩
  · intro hasked hloop
    rcases hok with ⟨rfl, hquiet⟩ | ⟨hterm, -⟩
    · -- the timer: the loop is past the test for it
      have hasked : a.asked = true := by simpa [Signo.terminates] using hasked
      refine Or.inr ⟨?_, by rw [hsigno]; simp⟩
      rcases h.kept hasked (hphase ▸ hloop) with hholds | ⟨hdeciding, -⟩
      · exact hquiet hholds
      · exact hdeciding
    · refine Or.inl ?_
      rw [Asked.holds, hsigno]
      exact hterm
  · intro hasked
    rcases hok with ⟨rfl, -⟩ | ⟨-, hstage⟩
    · exact h.clear (by simpa [Signo.terminates] using hasked)
    · exact hstage
  · intro hdue
    rw [h.asked hdue, Bool.true_or]
  · intro hdue hout
    rw [hphase]
    exact h.met hdue hout
  · intro hinside
    rw [hphase]
    exact h.looping hinside

/-- The loop finds what is in `g_signo`. -/
theorem Monitor.sigstopOther_left {m : Monitor} (h : m.signo ≠ none) (pid : Pid) (ctx : Context)
    (out : Outside) : (m.sigstopOther pid ctx out).phase = .left .terminate := by
  rw [Monitor.sigstopOther, if_pos h]

/-- A step that leaves `g_signo`, the phase and the stage alone. -/
theorem AskedInv.congr (h : AskedInv a) {s' : System} (hphase : s'.phase = a.fine.sys.phase)
    (hsigno : s'.monitor.signo = a.fine.sys.monitor.signo) :
    AskedInv ⟨⟨s', a.fine.stage⟩, a.asked, a.due⟩ := by
  obtain ⟨hkept, hclear, hasked, hmet, hlooping⟩ := h
  rw [← hphase] at hkept hmet hlooping
  rw [Asked.holds, ← hsigno] at hkept
  exact ⟨hkept, hclear, hasked, hmet, hlooping⟩

theorem AskedInv.finish (h : AskedInv a) {s' : System}
    (hleft : a.asked = true → ∃ why, s'.phase = .left why) :
    AskedInv ⟨⟨s', .outside⟩, a.asked, a.due⟩ := by
  refine ⟨?_, fun _ => rfl, h.asked, fun hdue _ => hleft (h.asked hdue), by simp [Stage.inside]⟩
  intro hasked hloop
  obtain ⟨why, hwhy⟩ := hleft hasked
  cases hwhy.symm.trans hloop

/-- The loop goes round while it is not in the middle of a `SIGSTOP`. -/
theorem AskedInv.around (h : AskedInv a) (hwait : a.fine.sys.AtWaitpid)
    (hout : a.fine.stage = .outside) {s' : System}
    (hsigno : s'.monitor.signo = a.fine.sys.monitor.signo) :
    AskedInv ⟨⟨s', .outside⟩, a.asked, a.due⟩ := by
  have hdue := h.not_due hwait hout
  refine ⟨?_, fun _ => rfl, h.asked, fun h' _ => ?_, by simp [Stage.inside]⟩
  · intro hasked _
    refine Or.inl ?_
    show s'.monitor.signo.any Signo.terminates = true
    rw [hsigno]
    exact h.holds hasked hwait.1 (by rw [hout]; rfl)
  · cases hdue.symm.trans h'

theorem askedInv_step (h : AskedInv a) {label : FineLabel} (hok : a.Undisturbed label)
    (hstep : a.step label = some a') : AskedInv a' := by
  obtain ⟨f, hf, rfl⟩ := Option.map_eq_some_iff.mp hstep
  cases Fine.step_kind hf with
  | other label s' hs hwait hfails =>
      obtain ⟨hphase, hmonitor⟩ := System.step_other hs hwait hfails
      have hdue : (a.due || (a.asked && !a.fine.stage.inside && a.fine.stage.inside)) = a.due := by
        cases a.fine.stage.inside <;> simp
      rw [hdue]
      cases label with
      | interrupt signum => exact h.interrupt hok hphase (by rw [hmonitor]; rfl)
      | _ =>
          simp only [FineLabel.asks, Bool.or_false]
          exact h.congr hphase (by rw [hmonitor]; rfl)
  | waitFails eintr s' hs hout =>
      simp only [FineLabel.asks, Stage.inside, Bool.or_false, Bool.and_false]
      cases System.step_kind hs with
      | waitAgain hwait => exact h.around hwait hout rfl
      | waitError hwait => exact h.around hwait hout rfl
  | wait t report out hpending hne hwait hout =>
      simp only [FineLabel.asks, Stage.inside, Bool.or_false, Bool.and_false]
      exact h.around hwait hout (a.fine.sys.wait_signo out hne)
  | sigstop t event out hpending hwait hout =>
      have hdue := h.not_due hwait hout
      simp only [FineLabel.asks, Stage.inside, hout, hdue, Bool.or_false, Bool.and_true,
        Bool.not_false, Bool.false_or]
      refine ⟨?_, fun _ => rfl, fun hasked => hasked, by simp, fun _ => hwait.1⟩
      intro hasked _
      exact Or.inl (h.holds hasked hwait.1 (by rw [hout]; rfl))
  | isAlarm t out hstage halarm =>
      simp only [FineLabel.asks, Bool.or_false, hstage, Stage.inside, Bool.not_true, Bool.and_false,
        Bool.false_and]
      have hloop := h.looping (by rw [hstage]; rfl)
      -- the timer is in `g_signo`, so nothing is asked
      have hnot : a.asked = true → False := by
        intro hasked
        have hholds := h.holds hasked hloop (by rw [hstage]; rfl)
        rw [Asked.holds, halarm] at hholds
        cases hholds
      exact ⟨fun hasked => (hnot hasked).elim, fun hasked => (hnot hasked).elim, h.asked, by simp,
        fun _ => hloop⟩
  | noAlarm t out hstage halarm =>
      simp only [FineLabel.asks, Bool.or_false, hstage, Stage.inside, Bool.not_true, Bool.and_false,
        Bool.false_and]
      have hloop := h.looping (by rw [hstage]; rfl)
      refine ⟨?_, fun _ => rfl, h.asked, by simp, fun _ => hloop⟩
      intro hasked _
      exact Or.inl (h.holds hasked hloop (by rw [hstage]; rfl))
  | clear t out hstage =>
      simp only [FineLabel.asks, Stage.inside, Bool.or_false, Bool.and_false]
      refine h.finish fun hasked => ?_
      have hclear := h.clear hasked
      rw [hstage] at hclear
      cases hclear
  | testOther t out hstage =>
      simp only [FineLabel.asks, Stage.inside, Bool.or_false, Bool.and_false]
      refine h.finish fun hasked => ⟨.terminate, ?_⟩
      have hsigno : a.fine.sys.monitor.signo ≠ none := by
        rcases h.kept hasked (h.looping (by rw [hstage]; rfl)) with hholds | ⟨-, hne⟩
        · exact Asked.signo_ne_none hholds
        · exact hne
      exact Monitor.sigstopOther_left hsigno _ _ _

end AskedInv

theorem Fine.advance_isSome {f : Fine} (h : f.stage.inside = true) :
    (f.step .advance).isSome = true := by
  rw [Fine.step, Fine.advance]
  split
  · rename_i hstage
    rw [hstage] at h
    cases h
  all_goals rfl

/-- **A request to terminate is not lost** as long as the timer does not go off
while it waits in `g_signo` and it does not arrive between the test and the
reset: whatever the order of the stops, the loop gets through with the first
`SIGSTOP` that it begins to process afterwards, and has been left then. -/
theorem terminate_not_lost {s₀ : System} {a : Asked}
    (ha : Reachable Asked.step Asked.Undisturbed ⟨⟨s₀, .outside⟩, false, false⟩ a)
    (hdue : a.due = true) :
    (a.fine.stage = .outside → ∃ why, a.fine.sys.phase = .left why) ∧
      (a.fine.stage.inside = true → (a.fine.step .advance).isSome = true) := by
  have h : AskedInv a :=
    Reachable.invariant AskedInv ha ⟨by simp, by simp, by simp, by simp, by simp [Stage.inside]⟩
      fun _ _ _ h hok hstep => askedInv_step h hok hstep
  exact ⟨h.met hdue, Fine.advance_isSome⟩

/-- The target is stopped by the `SIGSTOP` of `signal_handler`, and the loop
processes the stop, with the steps `between` after its first test. -/
def sampleSigstop (between : List FineLabel) : List FineLabel :=
  [.sys (.signal 1 .sigstop (sampleContext 0x4000 0 0 0)), .sys (.wait 1 sampleOutside), .advance] ++
    between ++ [.advance]

/-- `SIGINT`, and the timer goes off before the loop has seen it. -/
def lostToTimer : List FineLabel :=
  (issues 5).map .sys ++ [.sys (.interrupt .sigint), .sys (.interrupt .sigalrm)] ++ sampleSigstop []

/-- `SIGINT` between the test and the reset that the timer has caused. -/
def lostToReset : List FineLabel :=
  (issues 5).map .sys ++ [.sys (.interrupt .sigalrm)] ++
    sampleSigstop [.sys (.interrupt .sigint)] ++ (issues 2).map .sys ++ sampleSigstop []

/-- The loop has processed a `SIGSTOP` after the request and goes on. -/
def RequestLost (labels : List FineLabel) : Prop :=
  ∃ s₀ a, sampleBegin 1 = some s₀ ∧
    feed Asked.step Asked.Handled ⟨⟨s₀, .outside⟩, false, false⟩ labels = some a ∧
    a.due = true ∧ a.fine.stage.inside = false ∧ a.fine.sys.phase = .loop

theorem requestLost_of_run {labels : List FineLabel}
    (hrun : ((sampleBegin 1).bind fun s₀ =>
      (feed Asked.step Asked.Handled ⟨⟨s₀, .outside⟩, false, false⟩ labels).map fun a =>
        (a.due, a.fine.stage.inside, a.fine.sys.phase)) = some (true, false, .loop)) :
    RequestLost labels := by
  obtain ⟨s₀, hbegin, hrun⟩ := Option.bind_eq_some_iff.mp hrun
  obtain ⟨a, ha, hobserved⟩ := Option.map_eq_some_iff.mp hrun
  simp only [Prod.mk.injEq] at hobserved
  exact ⟨s₀, a, hbegin, ha, hobserved⟩

/-- Both requests are lost. -/
theorem terminate_lost : RequestLost lostToTimer ∧ RequestLost lostToReset := by
  constructor
  · exact requestLost_of_run (by decide +kernel)
  · exact requestLost_of_run (by decide +kernel)

/-- `SIGINT` with nothing else going on. -/
theorem terminate_not_lost_alone :
    ∃ s₀ a, sampleBegin 1 = some s₀ ∧
      Reachable Asked.step Asked.Undisturbed ⟨⟨s₀, .outside⟩, false, false⟩ a ∧ a.due = true ∧
      ∃ why, a.fine.sys.phase = .left why := by
  have hrun : ((sampleBegin 1).bind fun s₀ =>
      (feed Asked.step Asked.Undisturbed ⟨⟨s₀, .outside⟩, false, false⟩
        ((issues 5).map .sys ++ [.sys (.interrupt .sigint)] ++ sampleSigstop [])).map fun a =>
        (a.due, a.fine.stage.inside)) = some (true, false) := by decide +kernel
  obtain ⟨s₀, a, hbegin, hreach, hobserved⟩ := Reachable.exists_of_run hrun
  obtain ⟨hdue, hinside⟩ := Prod.mk.inj hobserved
  have hout : a.fine.stage = .outside := Fine.eq_outside_of_inside (by rw [hinside]; simp)
  exact ⟨s₀, a, hbegin, hreach, hdue, (terminate_not_lost hreach hdue).1 hout⟩

end Memleax
