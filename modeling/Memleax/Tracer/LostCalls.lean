import Memleax.Tracer.Threads

/-!
# Calls that are lost

While a call is tracked, the trap byte at its entry is gone for all threads, and
held threads are woken one at a time, whatever has been removed by then. A
thread that executes an entry without its trap byte is in a call that the loop
never learns of (`lost_call`).

This is the only way to lose a call: as long as no thread but the tracked one
does so after `breakpoint_init` (`KeepsHook`), every call that has been entered
since and whose return has been processed has had its handler call.
-/

namespace Memleax

open Framework

namespace Traced

/-- The loop tracks a call of thread `t`. -/
def Tracks (s : Traced) (t : Pid) : Prop :=
  s.sys.monitor.returnAddress ≠ 0 ∧ s.sys.monitor.lastThread = t

instance (s : Traced) (t : Pid) : Decidable (s.Tracks t) := inferInstanceAs (Decidable (_ ∧ _))

/-- Thread `t` does not execute a hooked entry whose trap byte has been removed
for another call. -/
def Guarded (s : Traced) (t : Pid) (ctx : Context) : Prop :=
  breakpointByEntry s.sys.monitor.breakpoints ctx.regs.rip ≠ none →
    s.sys.code.text ctx.regs.rip ≠ trapByte → s.Tracks t

instance (s : Traced) (t : Pid) (ctx : Context) : Decidable (s.Guarded t ctx) :=
  inferInstanceAs (Decidable (_ → _ → _))

/-- From the end of `breakpoint_init` on, hooked entries are executed under
guard. -/
def KeepsHook (s : Traced) : Move → Prop
  | .fetch t ctx => s.sys.initialized = true → s.Guarded t ctx
  | .retry t => s.Guarded t (s.sys.context t)
  | _ => True

instance (s : Traced) : (m : Move) → Decidable (s.KeepsHook m)
  | .fetch _ _ => inferInstanceAs (Decidable (_ → _))
  | .retry _ => inferInstanceAs (Decidable (Guarded _ _ _))
  | .signal _ _ | .clone _ _ _ | .exit _ | .interrupt _ | .wait _ _ | .waitFails _ | .issue =>
      inferInstanceAs (Decidable True)

def GuardedMove (s : Traced) (m : Move) : Prop := s.FlatMove m ∧ s.KeepsHook m

instance (s : Traced) (m : Move) : Decidable (s.GuardedMove m) :=
  inferInstanceAs (Decidable (_ ∧ _))

/-- The handler calls that are due to a thread. -/
def due (s : Traced) (t : Pid) : List Invocation :=
  ((s.exec t).processed.filter Finished.late).map Finished.invocation

structure KeptInv (s : Traced) : Prop where
  /-- a call that concerns the loop is about to be tracked, or is tracked -/
  entered : ∀ t, s.sys.Alive t → ∀ f ∈ (s.exec t).frames, f.late = true →
    ((s.exec t).tried = true ∧ (s.sys.instruction t).regs.rip =
      (s.sys.monitor.breakpoints f.api).entryAddress) ∨ (s.Tracks t ∧ ¬ s.sys.Trapped t)
  returning : ∀ t, s.sys.Alive t → (s.exec t).unprocessed = true →
    ∀ fs x, (s.exec t).finished = fs ++ [x] → x.late = true → s.Tracks t
  kept : ∀ t, (s.due t).Sublist (s.sys.logOf t)

/-! ## One move -/

section Step

variable {s s' : Traced} {m : Move} {u : Pid}

theorem Effect.logOf_sublist (h : Effect s m s') : (s.sys.logOf u).Sublist (s'.sys.logOf u) := by
  have hgrow : ∀ log, s'.sys.log = s.sys.log ++ log →
      (s.sys.logOf u).Sublist (s'.sys.logOf u) := by
    intro log hlog
    rw [System.logOf, System.logOf, hlog, List.filter_append]
    exact List.sublist_append_left _ _
  have hsame : s'.sys.log = s.sys.log → (s.sys.logOf u).Sublist (s'.sys.logOf u) := by
    intro hlog
    exact hgrow [] (by rw [hlog, List.append_nil])
  cases h with
  | run t ctx hm hrun htried hbyte hsys hexec => exact hsame (by rw [hsys])
  | trap t ctx hm hrun htried hbyte hmonitor hlog => exact hsame hlog
  | rerun t hm hrun htried hbyte hsys hexec => exact hsame (by rw [hsys])
  | retrap t hm hrun htried hbyte hmonitor hlog => exact hsame hlog
  | quiet htracked hbps hlog => exact hsame hlog
  | process t hwait htrapped hbps halive huntrapped hinstruction hothers hexec hverdict =>
      cases hverdict with
      | hold htracked hlog => exact hsame hlog
      | atReturn api hlast hbp hrip htracked hlog => exact hgrow _ hlog
      | atEntry api hlast hrip hentry htracked hlog => exact hsame hlog
      | elsewhere hlast hrip hentry htracked hlog => exact hsame hlog

theorem Tracks.congr (h : s.Tracks u)
    (htracked : s'.sys.monitor.tracked = s.sys.monitor.tracked) : s'.Tracks u := by
  constructor
  · rw [show s'.sys.monitor.returnAddress = _ from congrArg Tracked.returnAddress htracked]
    exact h.1
  · rw [show s'.sys.monitor.lastThread = _ from congrArg Tracked.lastThread htracked]
    exact h.2

/-- A thread stays tracked until a trap of its own is processed. -/
theorem Effect.tracks (h : Effect s m s') (hu : s.Tracks u)
    (hpending : s.sys.Trapped u → s'.sys.Trapped u) : s'.Tracks u := by
  cases h with
  | run t ctx hm hrun htried hbyte hsys hexec => exact hu.congr (by rw [hsys])
  | trap t ctx hm hrun htried hbyte hmonitor => exact hu.congr (by rw [hmonitor])
  | rerun t hm hrun htried hbyte hsys hexec => exact hu.congr (by rw [hsys])
  | retrap t hm hrun htried hbyte hmonitor => exact hu.congr (by rw [hmonitor])
  | quiet htracked => exact hu.congr htracked
  | process t hwait htrapped hbps halive huntrapped hinstruction hothers hexec hverdict =>
      -- another thread's trap is held while the call of `u` is tracked
      have hother : (s.sys.monitor.returnAddress ≠ 0 → s.sys.monitor.lastThread = t) → False := by
        intro hlast
        obtain rfl := hu.2.symm.trans (hlast hu.1)
        exact huntrapped (hpending htrapped)
      cases hverdict with
      | hold htracked => exact hu.congr htracked
      | atReturn api hlast => exact (hother hlast).elim
      | atEntry api hlast => exact (hother hlast).elim
      | elsewhere hlast => exact (hother hlast).elim

/-- The tracked thread, unless it has trapped, is in the call. -/
theorem FlatInv.inCall_of_tracks (h : FlatInv s) (hloop : s.sys.phase = .loop) (hu : s.Tracks u)
    (halive : s.sys.Alive u) (huntrapped : ¬ s.sys.Trapped u) :
    s.InCall s.sys.monitor.tracked u := by
  obtain ⟨hra, rfl⟩ := hu
  rcases h.tracking hloop hra halive with hin | hret | hback
  · exact hin
  · exact absurd hret.1 huntrapped
  · exact absurd hback.1 huntrapped

theorem KeptInv.tracks_of_running (hk : KeptInv s) (hrun : s.sys.status u = .running)
    (htried : (s.exec u).tried = false) {f : Frame} (hf : f ∈ (s.exec u).frames)
    (hlate : f.late = true) : s.Tracks u := by
  rcases hk.entered u (System.alive_of_running hrun) f hf hlate with ⟨htried', -⟩ | ⟨htracks, -⟩
  · cases htried.symm.trans htried'
  · exact htracks

/-- After a new instruction, a call that concerns the loop has trapped at its
entry or is tracked. -/
theorem KeptInv.entered_arrive (hk : KeptInv s) (h : FlatInv s) (ht : TraceInv s.sys)
    (hloop : s.sys.phase = .loop) {ctx : Context} (hok : s.GuardedMove (.fetch u ctx))
    (hrun : s.sys.status u = .running) (htried : (s.exec u).tried = false) {f : Frame}
    (hf : f ∈ ((s.exec u).arrive s.sys.monitor.breakpoints s.sys.initialized u ctx
      (s.traps ctx)).frames) (hlate : f.late = true) :
    (s.sys.code.text ctx.regs.rip = trapByte ∧
      ctx.regs.rip = (s.sys.monitor.breakpoints f.api).entryAddress) ∨
    (s.sys.code.text ctx.regs.rip ≠ trapByte ∧ s.Tracks u) := by
  obtain ⟨⟨⟨harmed, -⟩, hnested⟩, hguard⟩ := hok
  rcases NonNested.frames_arrive hnested s.sys.initialized (s.traps ctx) with
    ⟨api, hentry, hframes⟩ | ⟨-, hframes⟩
  · rw [hframes] at hf
    obtain rfl := List.mem_singleton.mp hf
    by_cases hbyte : s.sys.code.text ctx.regs.rip = trapByte
    · exact Or.inl ⟨hbyte, eq_of_breakpointByEntry hentry⟩
    · exact Or.inr ⟨hbyte, hguard hlate (by rw [hentry]; nofun) hbyte⟩
  · rw [hframes] at hf
    have htracks := hk.tracks_of_running hrun htried (Execution.mem_leave hf) hlate
    by_cases hbyte : s.sys.code.text ctx.regs.rip = trapByte
    · -- the tracked thread traps: it has left its only call
      have hin := h.inCall_of_tracks hloop htracks (System.alive_of_running hrun)
        (System.not_trapped_of_running hrun)
      obtain ⟨hra, rfl⟩ := htracks
      have hrip := h.returns_of_traps ht hloop hra hrun hnested (harmed hbyte)
      obtain ⟨g, hg, -, hdescribes, -⟩ := hin
      have hreturns : (s.exec s.sys.monitor.lastThread).Returns ctx :=
        (Execution.returns_iff hg).mpr (hrip.trans hdescribes.returnAddress)
      obtain ⟨g', rest, hg', -, hleave⟩ :=
        Execution.leave_of_returns (t := s.sys.monitor.lastThread) hreturns
      obtain ⟨-, rfl⟩ := List.cons.inj (hg.symm.trans hg')
      rw [hleave] at hf
      cases hf
    · exact Or.inr ⟨hbyte, htracks⟩

theorem KeptInv.entered_step (hk : KeptInv s) (h : FlatInv s) (ht : TraceInv s.sys)
    (hloop : s.sys.phase = .loop) (hok : s.GuardedMove m) (heffect : Effect s m s') (u : Pid)
    (halive : s'.sys.Alive u) (f : Frame) (hf : f ∈ (s'.exec u).frames) (hlate : f.late = true) :
    ((s'.exec u).tried = true ∧ (s'.sys.instruction u).regs.rip =
      (s'.sys.monitor.breakpoints f.api).entryAddress) ∨ (s'.Tracks u ∧ ¬ s'.sys.Trapped u) := by
  rw [heffect.breakpoints]
  cases heffect.thread u with
  | stays hsame hexec =>
      rw [hexec] at hf ⊢
      rcases hk.entered u (hsame.alive halive) f hf hlate with ⟨htried, hrip⟩ | ⟨htracks, hun⟩
      · exact Or.inl ⟨htried, by rw [hsame.instruction halive htried, hrip]⟩
      · exact Or.inr ⟨heffect.tracks htracks fun htrapped => absurd htrapped hun,
          fun htrapped => hun ((hsame.trapped halive).mp htrapped)⟩
  | runs ctx hm hrun htried hbyte huntrapped hexec =>
      subst hm
      rw [hexec, ← show s.traps ctx = false from decide_eq_false hbyte] at hf
      rcases hk.entered_arrive h ht hloop hok hrun htried hf hlate with ⟨hbyte', -⟩ | ⟨-, htracks⟩
      · exact absurd hbyte' hbyte
      · exact Or.inr ⟨heffect.tracks htracks fun htrapped =>
          absurd htrapped (System.not_trapped_of_running hrun), huntrapped⟩
  | traps ctx hm hrun htried hbyte htrapped hinstruction hexec =>
      subst hm
      rw [hexec, ← show s.traps ctx = true from decide_eq_true hbyte] at hf
      rcases hk.entered_arrive h ht hloop hok hrun htried hf hlate with ⟨-, hrip⟩ | ⟨hbyte', -⟩
      · exact Or.inl ⟨by rw [hexec]; rfl, by rw [hinstruction, hrip]⟩
      · exact absurd hbyte hbyte'
  | reruns hm hrun htried hbyte huntrapped hexec =>
      subst hm
      rw [hexec] at hf
      have hkeep : s.Tracks u → s'.Tracks u := fun htracks =>
        heffect.tracks htracks fun htrapped =>
          absurd htrapped (System.not_trapped_of_running hrun)
      rcases hk.entered u (System.alive_of_running hrun) f hf hlate with
        ⟨-, hrip⟩ | ⟨htracks, -⟩
      · -- it leaves the entry without a trap, so its call is tracked by now
        have hguard : s.Guarded u (s.sys.context u) := hok.2
        rw [System.instruction_of_not_trapped (System.not_trapped_of_running hrun)] at hrip hbyte
        have hentry : breakpointByEntry s.sys.monitor.breakpoints (s.sys.context u).regs.rip ≠
            none := fun hnone => breakpointByEntry_eq_none_iff.mp hnone f.api hrip
        exact Or.inr ⟨hkeep (hguard hentry hbyte), huntrapped⟩
      · exact Or.inr ⟨hkeep htracks, huntrapped⟩
  | retraps hm hrun htried htrapped hinstruction hexec =>
      rw [hexec] at hf ⊢
      rw [hinstruction]
      refine Or.inl ⟨htried, ?_⟩
      rcases hk.entered u (System.alive_of_running hrun) f hf hlate with
        ⟨-, hrip⟩ | ⟨htracks, hun⟩
      · exact hrip
      · obtain ⟨g, hframes, -, -, hrip⟩ :=
          h.inCall_of_tracks hloop htracks (System.alive_of_running hrun) hun
        rw [hframes] at hf
        obtain rfl := List.mem_singleton.mp hf
        exact hrip htried
  | processed htrapped halive' huntrapped hinstruction hexec =>
      rw [hexec] at hf ⊢
      rw [hinstruction]
      rcases hk.entered u (System.alive_of_trapped htrapped) f hf hlate with hentry | ⟨-, hun⟩
      · exact Or.inl hentry
      · exact absurd htrapped hun

theorem KeptInv.returning_step (hk : KeptInv s) (h : FlatInv s) (heffect : Effect s m s')
    (u : Pid) (halive : s'.sys.Alive u) (hun : (s'.exec u).unprocessed = true)
    (fs : List Finished) (x : Finished) (hx : (s'.exec u).finished = fs ++ [x])
    (hlate : x.late = true) : s'.Tracks u := by
  cases heffect.thread u with
  | stays hsame hexec =>
      rw [hexec] at hun hx
      exact heffect.tracks (hk.returning u (hsame.alive halive) hun fs x hx hlate)
        (hsame.trapped halive).mpr
  | runs ctx hm hrun htried hbyte huntrapped hexec =>
      rw [hexec] at hun
      cases hun
  | traps ctx hm hrun htried hbyte htrapped hinstruction hexec =>
      rw [hexec] at hun hx
      have hreturns : (s.exec u).Returns ctx := by simpa [Execution.arrive] using hun
      obtain ⟨f, rest, hframes, hret, -⟩ := Execution.leave_of_returns (t := u) hreturns
      obtain ⟨hfinished, -⟩ := Execution.arrive_return hframes hret.symm s.sys.monitor.breakpoints
        s.sys.initialized u true
      obtain ⟨-, heq⟩ := List.append_inj' (hx.symm.trans hfinished) rfl
      obtain rfl := List.singleton_inj.mp heq
      have hf : f ∈ (s.exec u).frames := by
        rw [hframes]
        exact List.mem_cons_self
      exact heffect.tracks (hk.tracks_of_running hrun htried hf hlate) fun _ => htrapped
  | reruns hm hrun htried hbyte huntrapped hexec =>
      rw [hexec] at hun
      exact absurd (h.unprocessed u hun (System.alive_of_running hrun))
        (System.not_trapped_of_running hrun)
  | retraps hm hrun htried htrapped hinstruction hexec =>
      rw [hexec] at hun
      exact absurd (h.unprocessed u hun (System.alive_of_running hrun))
        (System.not_trapped_of_running hrun)
  | processed htrapped halive' huntrapped hinstruction hexec =>
      rw [hexec] at hun
      cases hun

/-- A trap is no longer pending: the loop has made something of it. -/
theorem Effect.verdict (heffect : Effect s m s') (htrapped : s.sys.Trapped u)
    (halive : s'.sys.Alive u) (huntrapped : ¬ s'.sys.Trapped u) :
    s.sys.AtWaitpid ∧ Verdict s u s' := by
  have hother : Same s s' u → False := fun hsame =>
    huntrapped ((hsame.trapped halive).mpr htrapped)
  cases heffect with
  | run t ctx hm hrun htried hbyte hsys hexec => exact absurd (hsys ▸ htrapped) huntrapped
  | trap t ctx hm hrun htried hbyte hmonitor hlog hphase htrapped' hinstruction hothers hexec =>
      by_cases heq : u = t
      · exact absurd (heq ▸ htrapped') huntrapped
      · exact (hother (hothers u heq)).elim
  | rerun t hm hrun htried hbyte hsys hexec => exact absurd (hsys ▸ htrapped) huntrapped
  | retrap t hm hrun htried hbyte hmonitor hlog hphase htrapped' hinstruction hothers hexec =>
      by_cases heq : u = t
      · exact absurd (heq ▸ htrapped') huntrapped
      · exact (hother (hothers u heq)).elim
  | quiet htracked hbps hlog hphase hsame hexec => exact (hother (hsame u)).elim
  | process t hwait htrapped' hbps halive' huntrapped' hinstruction hothers hexec hverdict =>
      by_cases heq : u = t
      · exact ⟨hwait, heq ▸ hverdict⟩
      · exact (hother (hothers u heq)).elim

/-- The return of a tracked call is processed: its handler is called. -/
theorem FlatInv.logged_of_processed (h : FlatInv s) (heffect : Effect s m s')
    (hloop : s'.sys.phase = .loop) (htrapped : s.sys.Trapped u) (halive : s'.sys.Alive u)
    (huntrapped : ¬ s'.sys.Trapped u) (hun : (s.exec u).unprocessed = true)
    (htracks : s.Tracks u) :
    ∃ x, (s.exec u).finished = (s.exec u).processed ++ [x] ∧
      s'.sys.logOf u = s.sys.logOf u ++ [x.invocation] := by
  obtain ⟨hwait, hverdict⟩ := heffect.verdict htrapped halive huntrapped
  obtain ⟨hra, rfl⟩ := htracks
  have hret : s.Returned s.sys.monitor.tracked s.sys.monitor.lastThread := by
    rcases h.tracking hwait.1 hra (System.alive_of_trapped htrapped) with hin | hret | hback
    · obtain ⟨f, -, hno, -⟩ := hin
      exact absurd htrapped hno
    · exact hret
    · cases hun.symm.trans hback.2.1
  have hrip : (s.sys.instruction s.sys.monitor.lastThread).regs.rip = s.sys.monitor.returnAddress :=
    hret.2.2.1
  cases hverdict with
  | hold htracked hlog hwhy =>
      rcases hwhy with ⟨-, hne⟩ | hphase
      · exact absurd rfl hne
      · cases hloop.symm.trans hphase
  | atReturn api hlast hbp hrip htracked hlog =>
      obtain ⟨x, hfinished, hx⟩ := hret.invocation hbp
      refine ⟨x, hfinished, ?_⟩
      rw [hx]
      exact System.logOf_append_self hlog
  | atEntry api hlast hne => exact absurd hrip hne
  | elsewhere hlast hne => exact absurd hrip hne

/-- A return is processed: if it is of a call that is due, it has been logged. -/
theorem KeptInv.kept_processed (hk : KeptInv s) (h : FlatInv s) (hloop : s'.sys.phase = .loop)
    (heffect : Effect s m s') (htrapped : s.sys.Trapped u) (halive : s'.sys.Alive u)
    (huntrapped : ¬ s'.sys.Trapped u) (hun : (s.exec u).unprocessed = true)
    (hexec : s'.exec u = { s.exec u with unprocessed := false }) :
    (s'.due u).Sublist (s'.sys.logOf u) := by
  have hdue : s'.due u = ((s.exec u).finished.filter Finished.late).map Finished.invocation := by
    rw [due, hexec]
    rfl
  rcases (s.exec u).finished.eq_nil_or_concat' with hnil | ⟨fs, x, hx⟩
  · rw [hdue, hnil]
    exact List.nil_sublist _
  have hprocessed : (s.exec u).processed = fs := by
    rw [Execution.processed, hun, if_pos rfl, hx, List.dropLast_concat]
  rw [hdue, hx, List.filter_append, List.filter_singleton, ← hprocessed]
  cases hlate : x.late with
  | false =>
      -- a call from before the end of `breakpoint_init` is not due
      rw [cond_false, List.append_nil]
      exact (hk.kept u).trans heffect.logOf_sublist
  | true =>
      have htracks := hk.returning u (System.alive_of_trapped htrapped) hun fs x hx hlate
      obtain ⟨x', hx', hlog⟩ := h.logged_of_processed heffect hloop htrapped halive huntrapped
        hun htracks
      rw [hx, hprocessed] at hx'
      obtain rfl := List.singleton_inj.mp (List.append_cancel_left hx')
      rw [hlog, cond_true, List.map_append]
      exact (hk.kept u).append (List.Sublist.refl _)

theorem due_eq_of_processed {e : Execution} (hexec : s'.exec u = e)
    (hprocessed : e.processed = (s.exec u).processed) : s'.due u = s.due u := by
  rw [due, hexec, hprocessed]
  rfl

theorem KeptInv.kept_step (hk : KeptInv s) (h : FlatInv s) (ht : TraceInv s.sys)
    (hloop : s'.sys.phase = .loop) (hok : s.GuardedMove m) (heffect : Effect s m s') (u : Pid) :
    (s'.due u).Sublist (s'.sys.logOf u) := by
  have hsame : s'.due u = s.due u → (s'.due u).Sublist (s'.sys.logOf u) := by
    intro heq
    rw [heq]
    exact (hk.kept u).trans heffect.logOf_sublist
  have hrunning : s.sys.status u = .running → (s.exec u).processed = (s.exec u).finished := by
    intro hrun
    rw [Execution.processed, if_neg]
    exact fun hun => System.not_trapped_of_running hrun
      (h.unprocessed u hun (System.alive_of_running hrun))
  cases heffect.thread u with
  | stays hstays hexec => exact hsame (due_eq_of_processed hexec rfl)
  | runs ctx hm hrun htried hbyte huntrapped hexec =>
      subst hm
      by_cases hreturns : (s.exec u).Returns ctx
      · -- a return without a trap is none of a tracked call
        obtain ⟨f, rest, hframes, hret, -⟩ := Execution.leave_of_returns (t := u) hreturns
        obtain ⟨hfinished, hun⟩ := Execution.arrive_return hframes hret.symm
          s.sys.monitor.breakpoints s.sys.initialized u false
        have hnot : f.late = false := by
          rw [Bool.eq_false_iff]
          intro hlate
          obtain ⟨hra, rfl⟩ := hk.tracks_of_running hrun htried
            (by rw [hframes]; exact List.mem_cons_self) hlate
          exact (h.not_hooked_of_executes ht (heffect.loop hloop) hra hrun hok.1.2 hbyte).1 hreturns
        refine hsame ?_
        rw [due, hexec, Execution.processed, hun, if_neg Bool.false_ne_true, hfinished,
          List.filter_append, List.filter_singleton, show (f.finish u ctx).late = false from hnot,
          due, hrunning hrun]
        exact congrArg _ (List.append_nil _)
      · refine hsame (due_eq_of_processed hexec ?_)
        rw [hrunning hrun]
        show Execution.finished (Execution.enter _ _ _ _) = _
        rw [Execution.enter_finished, Execution.leave_of_not_returns hreturns]
  | traps ctx hm hrun htried hbyte htrapped hinstruction hexec =>
      exact hsame (due_eq_of_processed hexec
        ((Execution.processed_arrive rfl).trans (hrunning hrun).symm))
  | reruns hm hrun htried hbyte huntrapped hexec => exact hsame (due_eq_of_processed hexec rfl)
  | retraps hm hrun htried htrapped hinstruction hexec =>
      exact hsame (due_eq_of_processed hexec rfl)
  | processed htrapped halive huntrapped hinstruction hexec =>
      cases hun : (s.exec u).unprocessed with
      | false =>
          refine hsame (due_eq_of_processed hexec ?_)
          rw [Execution.processed, Execution.processed, hun]
      | true => exact hk.kept_processed h hloop heffect htrapped halive huntrapped hun hexec

/-- **Every guarded move keeps the calls.** -/
theorem keptInv_step (hk : KeptInv s) (h : FlatInv s) (ht : TraceInv s.sys)
    (hok : s.GuardedMove m) (hstep : s.step m = some s') (hloop : s'.sys.phase = .loop) :
    KeptInv s' := by
  have heffect := step_effect h.fresh hok.1.1.1 hstep
  exact
    { entered := hk.entered_step h ht (heffect.loop hloop) hok heffect
      returning := hk.returning_step h heffect
      kept := hk.kept_step h ht hloop hok heffect }

end Step

end Traced

/-- **No lost allocator call across threads**, in the runs in which no thread
executes a hooked entry whose trap byte has been removed for another call. -/
theorem no_lost_call {symtabByName : Api → Word} {text : Bytes 64} {targetPid : Pid}
    {limits : Limits} {others : Pid → Bool} {s₀ : System} {s : Traced}
    (hbegin : System.begin symtabByName text targetPid limits others = some s₀)
    (hs : Reachable Traced.step Traced.GuardedMove (.start s₀) s)
    (hloop : s.sys.phase = .loop) (t : Pid) : (s.due t).Sublist (s.sys.logOf t) := by
  have hk : s.sys.phase = .loop → Traced.KeptInv s := by
    refine Reachable.invariant_of (fun s => s.sys.phase = .loop → Traced.KeptInv s) hs
      (Traced.flatInv_reachable (fun _ _ hok => hok.1) hbegin) (fun _ => ?_) ?_
    · exact ⟨nofun, nofun, fun _ => List.nil_sublist _⟩
    · rintro s m s' ⟨ht, h⟩ - hk hok hstep hloop
      have heffect := Traced.step_effect h.fresh hok.1.1.1 hstep
      exact Traced.keptInv_step (hk (heffect.loop hloop)) h ht hok hstep hloop
  exact (hk hloop).kept t

/-! ## Sample runs -/

/-- Thread 1 calls `malloc(16)` and thread 2 `free(0x5000)`. Thread 2 is held
until thread 1 has returned. -/
def twoFunctions : List Move :=
  issueMoves 5 ++
    [.fetch 1 (sampleContext 0x1000 0x2000 0 16), .fetch 2 (sampleContext 0x1100 0x3000 0 0x5000),
      .wait 1 sampleOutside] ++ issueMoves 4 ++
    [.wait 2 sampleOutside, .retry 1, .fetch 1 (sampleContext 0x2000 0 0x5000 0),
      .wait 1 sampleOutside] ++ issueMoves 5 ++
    [.retry 2, .wait 2 sampleOutside] ++ issueMoves 4 ++
    [.retry 2, .fetch 2 (sampleContext 0x3000 0 0 0), .wait 2 sampleOutside] ++ issueMoves 4

theorem no_lost_call_twoFunctions :
    ∃ s₀ s, sampleBegin 2 = some s₀ ∧ Reachable Traced.step Traced.GuardedMove (.start s₀) s ∧
      s.due 1 = [⟨1, .malloc, 0x5000, 16, 0⟩] ∧ s.due 2 = [⟨2, .free, 0, 0x5000, 0⟩] ∧
      ∀ t, (s.due t).Sublist (s.sys.logOf t) := by
  have hrun : ((sampleBegin 2).bind fun s₀ =>
      (feed Traced.step Traced.GuardedMove (.start s₀) twoFunctions).map fun s =>
        (decide s.sys.AtWaitpid, s.due 1, s.due 2)) =
      some (true, [⟨1, .malloc, 0x5000, 16, 0⟩], [⟨2, .free, 0, 0x5000, 0⟩]) := by decide +kernel
  obtain ⟨s₀, s, hbegin, hreach, hs⟩ := Reachable.exists_of_run hrun
  simp only [Prod.mk.injEq, decide_eq_true_eq] at hs
  obtain ⟨hwait, hdue₁, hdue₂⟩ := hs
  exact ⟨s₀, s, hbegin, hreach, hdue₁, hdue₂,
    no_lost_call hbegin hreach hwait.1⟩

/-- Both threads call `malloc`, thread 2 while the call of thread 1 is tracked. -/
def sameFunction : List Move :=
  issueMoves 5 ++ [.fetch 1 (sampleContext 0x1000 0x2000 0 16), .wait 1 sampleOutside] ++
    issueMoves 4 ++
    [.retry 1, .fetch 2 (sampleContext 0x1000 0x3000 0 32),
      .fetch 2 (sampleContext 0x3000 0 0x6000 0), .fetch 1 (sampleContext 0x2000 0 0x5000 0),
      .wait 1 sampleOutside] ++ issueMoves 4

/-- The loop never learns of the call of thread 2. -/
theorem lost_call :
    ∃ s₀ s, sampleBegin 2 = some s₀ ∧
      Reachable Traced.step (fun s m => s.sys.TrapsArmed (m.label s.sys) ∧ s.NonNested m)
        (.start s₀) s ∧
      s.sys.AtWaitpid ∧ ¬ (s.due 2).Sublist (s.sys.logOf 2) := by
  have hrun : ((sampleBegin 2).bind fun s₀ =>
      (feed Traced.step (fun s m => s.sys.TrapsArmed (m.label s.sys) ∧ s.NonNested m)
        (.start s₀) sameFunction).map fun s =>
          (decide s.sys.AtWaitpid, s.due 2, s.sys.logOf 2)) =
      some (true, [⟨2, .malloc, 0x6000, 32, 0⟩], []) := by decide +kernel
  obtain ⟨s₀, s, hbegin, hreach, hs⟩ := Reachable.exists_of_run hrun
  simp only [Prod.mk.injEq, decide_eq_true_eq] at hs
  obtain ⟨hwait, hdue, hlog⟩ := hs
  refine ⟨s₀, s, hbegin, hreach, hwait, ?_⟩
  rw [hdue, hlog]
  decide

end Memleax
