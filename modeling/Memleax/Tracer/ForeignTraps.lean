import Memleax.Tracer.TextInvariant

/-!
# Traps that are not memleax's own

A thread can be stopped by a `SIGTRAP` that no breakpoint of memleax has caused:
one sent by `kill`, or an `int 3` of the target's own. The loop treats it like the
others. It moves the program counter back by one and, when it takes the thread
for the one of the tracked call, takes the call apart before it looks at where
the thread is.

The system is watched with a note of the threads that are in such a stop
(`Watched`). There is no condition on the target here: what is said holds in
every run, whatever has happened before.
-/

namespace Memleax

open Framework

/-! ## The requests of one iteration -/

/-- The kernel carries out `queue`. -/
def System.issueAll (s : System) : List Request → System
  | [] => s
  | r :: queue => (s.issue queue r).issueAll queue

/-- The state in which the loop waits again, when nothing happens in between. -/
def System.drain (s : System) : System := s.issueAll s.queue

theorem System.issue_keeps (s : System) (queue : List Request) (r : Request) :
    (s.issue queue r).monitor = s.monitor ∧ (s.issue queue r).queue = queue ∧
      (s.issue queue r).phase = s.phase ∧
      ∀ t, (s.issue queue r).context t = s.context t := by
  cases r with
  | resume t signum =>
      rw [System.issue, System.resume]
      split
      · refine ⟨rfl, rfl, rfl, fun u => ?_⟩
        by_cases heq : u = t
        · rw [heq, System.context_setThread_self]
          rfl
        · rw [System.context_setThread_of_ne _ _ heq]
          rfl
      · exact ⟨rfl, rfl, rfl, fun _ => rfl⟩
  | _ => exact ⟨rfl, rfl, rfl, fun _ => rfl⟩

theorem System.issueAll_keeps (s : System) (queue : List Request) (hqueue : s.queue = queue) :
    (s.issueAll queue).monitor = s.monitor ∧ (s.issueAll queue).queue = [] ∧
      (s.issueAll queue).phase = s.phase ∧
      ∀ t, (s.issueAll queue).context t = s.context t := by
  induction queue generalizing s with
  | nil => exact ⟨rfl, hqueue, rfl, fun _ => rfl⟩
  | cons r queue ih =>
      obtain ⟨hm, hq, hp, hc⟩ := s.issue_keeps queue r
      obtain ⟨hm', hq', hp', hc'⟩ := ih (s.issue queue r) hq
      exact ⟨hm'.trans hm, hq', hp'.trans hp, fun t => (hc' t).trans (hc t)⟩

/-- Carrying out the requests changes neither the variables of the loop nor the
registers of a thread. -/
theorem System.drain_keeps (s : System) :
    s.drain.monitor = s.monitor ∧ s.drain.queue = [] ∧ s.drain.phase = s.phase ∧
      ∀ t, s.drain.context t = s.context t :=
  s.issueAll_keeps s.queue rfl

/-! ## The watched system -/

/-- The system, with the threads that have been stopped by a trap that is not
memleax's own and the registers they have been stopped with. -/
structure Watched where
  sys : System
  foreign : Pid → Option Context := fun _ => none

namespace Watched

def note (w : Watched) : Label → Pid → Option Context
  | .signal t .sigtrap ctx => Function.update w.foreign t (some ctx)
  | .fetch t ctx =>
      if w.sys.code.text ctx.regs.rip = trapByte ∧
          ctx.regs.rip ∉ w.sys.code.armed w.sys.monitor.breakpoints then
        Function.update w.foreign t (some ctx.trapped)
      else w.foreign
  | .exit t | .wait t _ => Function.update w.foreign t none
  | _ => w.foreign

def step (w : Watched) (label : Label) : Option Watched :=
  (w.sys.step label).map fun s => ⟨s, w.note label⟩

/-- Whatever the target does. -/
def Any (_ : Watched) (_ : Label) : Prop := True

instance (w : Watched) (label : Label) : Decidable (w.Any label) :=
  inferInstanceAs (Decidable True)

end Watched

/-- The notes are about stops that have not been reported. -/
def Noted (w : Watched) : Prop :=
  ∀ t ctx, w.foreign t = some ctx →
    w.sys.status t = .pending (.stop .sigtrap false) ∧ w.sys.context t = ctx

section Noted

variable {w w' : Watched}

/-- A step of thread `t`, which gets the note `new`. -/
theorem Noted.setThread (h : Noted w) {t : Pid} {thread : Thread} {new : Option Context}
    (hnew : ∀ ctx, new = some ctx →
      thread.status = .pending (.stop .sigtrap false) ∧ thread.context = ctx) :
    Noted ⟨w.sys.setThread t thread, Function.update w.foreign t new⟩ := by
  intro u ctx hu
  by_cases heq : u = t
  · subst heq
    rw [System.status_setThread_self, System.context_setThread_self]
    exact hnew ctx (by simpa using hu)
  · rw [System.status_setThread_of_ne _ _ heq, System.context_setThread_of_ne _ _ heq]
    exact h u ctx (by simpa [heq] using hu)

/-- A step of a thread without a note. -/
theorem Noted.setThread_of_ne (h : Noted w) {t : Pid} (thread : Thread)
    (ht : w.sys.status t ≠ .pending (.stop .sigtrap false)) :
    Noted ⟨w.sys.setThread t thread, w.foreign⟩ := by
  intro u ctx hu
  have heq : u ≠ t := by
    rintro rfl
    exact ht (h u ctx hu).1
  rw [System.status_setThread_of_ne _ _ heq, System.context_setThread_of_ne _ _ heq]
  exact h u ctx hu

theorem noted_step (h : Noted w) {label : Label} (hstep : w.step label = some w') : Noted w' := by
  obtain ⟨s, hs, rfl⟩ := Option.map_eq_some_iff.mp hstep
  cases System.step_kind hs with
  | trap t ctx hrun hbyte =>
      simp only [Watched.note]
      split
      · exact h.setThread fun _ heq => ⟨rfl, Option.some.inj heq⟩
      · exact h.setThread_of_ne _ (by rw [hrun]; simp)
  | execute t ctx hrun hbyte =>
      simp only [Watched.note]
      rw [if_neg fun hno => hbyte hno.1]
      exact h
  | signal t signum ctx hrun =>
      have hother : Noted ⟨w.sys.setThread t ⟨.pending (.stop signum false), ctx⟩, w.foreign⟩ :=
        h.setThread_of_ne _ (by rw [hrun]; simp)
      cases signum with
      | sigtrap => exact h.setThread fun _ heq => ⟨rfl, Option.some.inj heq⟩
      | _ => exact hother
  | clone t child ctx hrun hchild =>
      have hne : child ≠ t := by
        rintro rfl
        cases hrun.symm.trans hchild
      have hparent : Noted ⟨w.sys.setThread t ⟨.pending (.stop .sigtrap true), ctx⟩, w.foreign⟩ :=
        h.setThread_of_ne _ (by rw [hrun]; simp)
      refine hparent.setThread_of_ne _ ?_
      show (w.sys.setThread t _).status child ≠ _
      rw [System.status_setThread_of_ne _ _ hne, hchild]
      simp
  | exit t hborn => exact h.setThread (by simp)
  | interrupt signum => exact h
  | wait t report out hpending hwait =>
      intro u ctx hu
      have heq : u ≠ t := by
        rintro rfl
        simp [Watched.note] at hu
      rw [System.status_wait_of_ne _ _ _ heq, System.context_wait_of_ne _ _ _ heq]
      exact h u ctx (by simpa [Watched.note, heq] using hu)
  | waitAgain hwait => exact h
  | waitError hwait => exact h
  | issueWrite w queue hqueue => exact h
  | issueResume t signum queue hqueue =>
      show Noted ⟨System.resume _ t, w.foreign⟩
      unfold System.resume
      split
      · rename_i hstopped
        have hissued : Noted ⟨{ w.sys with queue := queue }, w.foreign⟩ := h
        exact hissued.setThread_of_ne _ (by rw [hstopped]; simp)
      · exact h
  | issueOther r queue hqueue hother => exact h

theorem noted_reachable {s₀ : System} (hs : Reachable Watched.step Watched.Any ⟨s₀, fun _ => none⟩ w) :
    Noted w :=
  Reachable.invariant Noted hs (by simp [Noted]) fun _ _ _ h _ hstep => noted_step h hstep

end Noted

/-! ## What the loop makes of it -/

/-- A thread that was stopped at `rip` has not been moved, and the breakpoints
fit the variables of the loop. -/
structure Unharmed (symtabByName : Api → Word) (text : Bytes 64) (rip : Word) (t : Pid)
    (s : System) : Prop where
  pc : (s.context t).regs.rip = rip
  bp : s.monitor.returnAddress ≠ 0 → s.monitor.bp ≠ none
  armed : s.code.text = planted text trapByte (s.monitor.tracked.traps symtabByName)

section Foreign

variable {s₀ s' : System} {w : Watched} {t : Pid} {ctx : Context} {out : Outside}

theorem rip_pcUnwind_ne (ctx : Context) : (pcUnwind ctx).regs.rip ≠ ctx.regs.rip := by
  show ctx.regs.rip - 1 ≠ ctx.regs.rip
  bv_omega

/-- The iteration on a noted stop. -/
theorem Noted.wait_eq (h : Noted w) (hforeign : w.foreign t = some ctx)
    (hstep : w.sys.step (.wait t out) = some s') :
    w.sys.context t = ctx ∧ s' = w.sys.wait t (.stop .sigtrap false) out := by
  obtain ⟨hpending, hctx⟩ := h t ctx hforeign
  cases System.step_kind hstep with
  | wait t report out hreport hwait =>
      cases hreport.symm.trans hpending
      exact ⟨hctx, rfl⟩

/-- **A foreign trap is never harmless.** In every run and whatever the loop is
tracking, the program counter of the thread has been moved when the loop has
processed its stop. -/
theorem foreign_trap_harms (symtabByName : Api → Word) (text : Bytes 64)
    (hs : Reachable Watched.step Watched.Any ⟨s₀, fun _ => none⟩ w)
    (hforeign : w.foreign t = some ctx) (hstep : w.sys.step (.wait t out) = some s') :
    ¬ Unharmed symtabByName text ctx.regs.rip t s'.drain := by
  obtain ⟨hctx, rfl⟩ := (noted_reachable hs).wait_eq hforeign hstep
  intro h
  have hpc := h.pc
  rw [(System.drain_keeps _).2.2.2 t, System.context_wait_self, hctx] at hpc
  exact rip_pcUnwind_ne ctx hpc

/-- The call in whose thread a foreign trap is met away from its return address
and the entries is lost for good: the loop keeps its return address and forgets
its function, and follows a `NULL` pointer at the next trap of the thread. -/
theorem foreign_trap_loses_call
    (hs : Reachable Watched.step Watched.Any ⟨s₀, fun _ => none⟩ w)
    (hforeign : w.foreign t = some ctx) (hstep : w.sys.step (.wait t out) = some s')
    (hloop : s'.phase = .loop) (hra : w.sys.monitor.returnAddress ≠ 0)
    (hlast : w.sys.monitor.lastThread = t)
    (hrip : ctx.regs.rip - 1 ≠ w.sys.monitor.returnAddress)
    (hentry : breakpointByEntry w.sys.monitor.breakpoints (ctx.regs.rip - 1) = none) :
    s'.monitor.returnAddress = w.sys.monitor.returnAddress ∧ s'.monitor.bp = none ∧
      ∀ code next out, (s'.monitor.turn code t (.stop .sigtrap false) next out).phase =
        .undefined := by
  obtain ⟨hctx, rfl⟩ := (noted_reachable hs).wait_eq hforeign hstep
  have htracked : (w.sys.wait t (.stop .sigtrap false) out).monitor.tracked =
      { w.sys.monitor.tracked with bp := none } := by
    have hkind := w.sys.monitor.turn_kind w.sys.code t (w.sys.context t) out (.stop .sigtrap false)
    rw [hctx] at hkind
    cases hkind with
    | quiet htracked hwrites hinvoked hphase htrap =>
        rcases htrap rfl with ⟨-, hne⟩ | hundef
        · exact absurd hlast hne
        · rw [← hctx] at hundef
          cases hundef.symm.trans hloop
    | atReturn writes rest api htrap hlast hrecover hbp hat => exact absurd hat hrip
    | atEntry writes rest api htrap hlast hrecover hne hat => cases hat.symm.trans hentry
    | elsewhere writes rest htrap hlast hrecover hne hat hrest hrequests htracked =>
        rw [← hctx] at htracked
        exact htracked
  have hra' : (w.sys.wait t (.stop .sigtrap false) out).monitor.returnAddress =
      w.sys.monitor.returnAddress := congrArg Tracked.returnAddress htracked
  have hbp : (w.sys.wait t (.stop .sigtrap false) out).monitor.bp = none :=
    congrArg Tracked.bp htracked
  have hlast' : (w.sys.wait t (.stop .sigtrap false) out).monitor.lastThread = t :=
    (congrArg Tracked.lastThread htracked).trans hlast
  refine ⟨hra', hbp, ?_⟩
  intro code next out'
  rw [Monitor.turn, Monitor.onSigtrap, if_neg fun hhold => hhold.2 hlast', Monitor.recover,
    if_neg (by rw [hra']; exact hra), hbp]
  rfl

/-- A `SIGTRAP` while nothing is tracked: the thread goes on one byte earlier. -/
theorem foreign_trap_harms_idle :
    ∃ s₀ w ctx s', sampleBegin 1 = some s₀ ∧
      Reachable Watched.step Watched.Any ⟨s₀, fun _ => none⟩ w ∧ w.foreign 1 = some ctx ∧
      w.sys.step (.wait 1 sampleOutside) = some s' ∧ s'.phase = .loop ∧
      ¬ Unharmed sampleSymtab sampleText ctx.regs.rip 1 s'.drain := by
  have hrun : ((sampleBegin 1).bind fun s₀ =>
      (feed Watched.step Watched.Any ⟨s₀, fun _ => none⟩
        (issues 5 ++ [.signal 1 .sigtrap (sampleContext 0x4000 0 0 0)])).map fun w =>
          ((w.foreign 1).isSome,
            (w.sys.step (.wait 1 sampleOutside)).map fun s' => s'.phase)) =
      some (true, some .loop) := by decide +kernel
  obtain ⟨s₀, w, hbegin, hreach, hw⟩ := Reachable.exists_of_run hrun
  obtain ⟨hsome, hnext⟩ := Prod.mk.inj hw
  obtain ⟨ctx, hforeign⟩ := Option.isSome_iff_exists.mp hsome
  obtain ⟨s', hstep, hloop⟩ := Option.map_eq_some_iff.mp hnext
  exact ⟨s₀, w, ctx, s', hbegin, hreach, hforeign, hstep, hloop,
    foreign_trap_harms sampleSymtab sampleText hreach hforeign hstep⟩

/-- A `SIGTRAP` inside a call of `malloc`: the program counter, `bp` and the
trap byte at the return address are gone. -/
theorem foreign_trap_in_call :
    ∃ s₀ w ctx s', sampleBegin 1 = some s₀ ∧
      Reachable Watched.step Watched.Any ⟨s₀, fun _ => none⟩ w ∧ w.foreign 1 = some ctx ∧
      w.sys.step (.wait 1 sampleOutside) = some s' ∧ s'.phase = .loop ∧
      ¬ Unharmed sampleSymtab sampleText ctx.regs.rip 1 s'.drain ∧
      (s'.drain.context 1).regs.rip ≠ ctx.regs.rip ∧
      (s'.drain.monitor.returnAddress ≠ 0 ∧ s'.drain.monitor.bp = none) ∧
      s'.drain.code.text s'.drain.monitor.returnAddress ≠ trapByte := by
  have hrun : ((sampleBegin 1).bind fun s₀ =>
      (feed Watched.step Watched.Any ⟨s₀, fun _ => none⟩
        (sampleCall 0x2000 ++ [.signal 1 .sigtrap (sampleContext 0x1010 0 0 0)])).map fun w =>
          ((w.foreign 1).map fun ctx => ctx.regs.rip,
            (w.sys.step (.wait 1 sampleOutside)).map fun s' =>
              (decide (s'.phase = .loop ∧ s'.drain.monitor.bp = none),
                [(s'.drain.context 1).regs.rip, s'.drain.monitor.returnAddress],
                s'.drain.code.text 0x2000))) =
      some (some 0x1010, some (true, [0x100F, 0x2000], 0x90)) := by decide +kernel
  obtain ⟨s₀, w, hbegin, hreach, hw⟩ := Reachable.exists_of_run hrun
  obtain ⟨hforeign, hnext⟩ := Prod.mk.inj hw
  obtain ⟨ctx, hforeign, hrip⟩ := Option.map_eq_some_iff.mp hforeign
  obtain ⟨s', hstep, hs'⟩ := Option.map_eq_some_iff.mp hnext
  simp only [Prod.mk.injEq, decide_eq_true_eq, List.cons.injEq, and_true] at hs'
  obtain ⟨⟨hloop, hbp⟩, ⟨hpc, hra⟩, hbyte⟩ := hs'
  have hmoved : (s'.drain.context 1).regs.rip ≠ ctx.regs.rip := by
    rw [hpc, hrip]
    decide
  refine ⟨s₀, w, ctx, s', hbegin, hreach, hforeign, hstep, hloop, fun h => hmoved h.pc, hmoved,
    ⟨by rw [hra]; decide, hbp⟩, ?_⟩
  rw [hra, hbyte]
  decide

end Foreign

end Memleax
