import Memleax.Tracer.Calls

/-!
# Threads that call at the same time

The loop has one set of variables for the call it tracks, and all threads run
through the same patched text. For threads whose hooked calls are not nested,
every handler call is nevertheless told the arguments and the result of one
completed call of the thread it names, and no call is told twice: the handler
calls for a thread are a sublist of its completed calls (`logged`).

The reason is `tracking`: while a call is tracked, its thread is in that very
call (`InCall`), or has returned from it and its trap at the return address
waits to be reported (`Returned`). Traps of other threads are held meanwhile,
and a thread is only ever tracked from a stop at the entry of the call it is in.
-/

namespace Memleax

open Framework

/-- The handler calls for one thread. -/
def System.logOf (s : System) (t : Pid) : List Invocation :=
  s.log.filter fun i => decide (i.thread = t)

theorem System.logOf_append_self {s s' : System} {i : Invocation} (h : s'.log = s.log ++ [i]) :
    s'.logOf i.thread = s.logOf i.thread ++ [i] := by
  rw [System.logOf, h, List.filter_append]
  simp [System.logOf]

theorem System.logOf_append_of_ne {s s' : System} {i : Invocation} (h : s'.log = s.log ++ [i])
    {t : Pid} (hne : t ≠ i.thread) : s'.logOf t = s.logOf t := by
  rw [System.logOf, h, List.filter_append]
  simp [System.logOf, Ne.symm hne]

/-- The frame of a call of `api` from `ctx`. -/
structure Frame.Of (f : Frame) (api : Api) (ctx : Context) : Prop where
  api : f.api = api
  arg1 : f.arg1 = callArg1 ctx
  arg2 : f.arg2 = callArg2 ctx
  returnAddress : f.returnAddress = callReturnAddress ctx

/-- The variables of the loop describe the call. -/
structure Tracked.Describes (k : Tracked) (f : Frame) : Prop where
  bp : k.bp = some f.api
  returnAddress : k.returnAddress = f.returnAddress
  arg1 : k.arg1 = f.arg1
  arg2 : k.arg2 = f.arg2

/-- At an entry the loop takes down the call that begins there. -/
theorem Frame.Of.describes {f : Frame} {api : Api} {ctx : Context} (h : f.Of api ctx) (t : Pid)
    (code : Word) : Tracked.Describes
      ⟨some api, callReturnAddress ctx, code, callArg1 ctx, callArg2 ctx, t⟩ f :=
  ⟨by rw [h.api], h.returnAddress.symm, h.arg1.symm, h.arg2.symm⟩

namespace Traced

/-- No hooked call inside another one. -/
def NonNested (s : Traced) : Move → Prop
  | .fetch t ctx => breakpointByEntry s.sys.monitor.breakpoints ctx.regs.rip ≠ none →
      ((s.exec t).leave t ctx).frames = []
  | _ => True

/-- No function is called with its own entry as return address. -/
def ReturnsElsewhere (s : Traced) : Move → Prop
  | .fetch _ ctx => breakpointByEntry s.sys.monitor.breakpoints ctx.regs.rip ≠ none →
      callReturnAddress ctx ≠ ctx.regs.rip
  | _ => True

instance (s : Traced) : (m : Move) → Decidable (s.NonNested m)
  | .fetch _ _ => inferInstanceAs (Decidable (_ → _))
  | .retry _ | .signal _ _ | .clone _ _ _ | .exit _ | .interrupt _ | .wait _ _ | .waitFails _
  | .issue => inferInstanceAs (Decidable True)

instance (s : Traced) : (m : Move) → Decidable (s.ReturnsElsewhere m)
  | .fetch _ _ => inferInstanceAs (Decidable (_ → _))
  | .retry _ | .signal _ _ | .clone _ _ _ | .exit _ | .interrupt _ | .wait _ _ | .waitFails _
  | .issue => inferInstanceAs (Decidable True)

/-- A move of threads whose hooked calls are not nested. -/
def FlatMove (s : Traced) (m : Move) : Prop :=
  s.sys.Traces (m.label s.sys) ∧ s.NonNested m

instance (s : Traced) (m : Move) : Decidable (s.FlatMove m) :=
  inferInstanceAs (Decidable (_ ∧ _))

/-- Thread `t` is in the tracked call. If its instruction has trapped it is the
entry. -/
def InCall (s : Traced) (k : Tracked) (t : Pid) : Prop :=
  ∃ f, (s.exec t).frames = [f] ∧ ¬ s.sys.Trapped t ∧ k.Describes f ∧
    ((s.exec t).tried = true → (s.sys.instruction t).regs.rip =
      (s.sys.monitor.breakpoints f.api).entryAddress)

/-- Thread `t` has returned from the tracked call, and its trap has not been
reported. -/
def Returned (s : Traced) (k : Tracked) (t : Pid) : Prop :=
  s.sys.Trapped t ∧ (s.exec t).unprocessed = true ∧
    (s.sys.instruction t).regs.rip = k.returnAddress ∧
    ∃ api fs x, k.bp = some api ∧ (s.exec t).finished = fs ++ [x] ∧
      x.invocation = ⟨t, api, callReturnValue (s.sys.instruction t), k.arg1, k.arg2⟩

/-- Thread `t` has trapped at the entry of the tracked call once more, because it
is the return address or the entry of another function as well. -/
def BackAtEntry (s : Traced) (k : Tracked) (t : Pid) : Prop :=
  s.sys.Trapped t ∧ (s.exec t).unprocessed = false ∧ ∃ f ∈ (s.exec t).frames,
    k.returnAddress = f.returnAddress ∧
    (s.sys.instruction t).regs.rip = (s.sys.monitor.breakpoints f.api).entryAddress

def Tracking (s : Traced) (k : Tracked) : Prop :=
  k.returnAddress ≠ 0 → s.sys.Alive k.lastThread →
    s.InCall k k.lastThread ∨ s.Returned k k.lastThread ∨ s.BackAtEntry k k.lastThread

/-- What holds as long as the hooked calls are not nested. -/
structure FlatInv (s : Traced) : Prop where
  fresh : Fresh s
  untried : ∀ t, (s.exec t).tried = false → ¬ s.sys.Trapped t
  atEntry : ∀ t, s.sys.Alive t → (s.exec t).tried = true → ∀ api,
    breakpointByEntry s.sys.monitor.breakpoints (s.sys.instruction t).regs.rip = some api →
    ∃ f, (s.exec t).frames = [f] ∧ f.Of api (s.sys.instruction t)
  unprocessed : ∀ t, (s.exec t).unprocessed = true → s.sys.Alive t → s.sys.Trapped t
  tracking : s.sys.phase = .loop → s.Tracking s.sys.monitor.tracked

/-- What holds if they return elsewhere, too. -/
structure LogInv (s : Traced) : Prop where
  elsewhere : ∀ t, ∀ f ∈ (s.exec t).frames,
    f.returnAddress ≠ (s.sys.monitor.breakpoints f.api).entryAddress
  logged : ∀ t, (s.sys.logOf t).Sublist ((s.exec t).processed.map Finished.invocation)

/-! ## The tracked thread -/

section Tracking

variable {s s' : Traced}

/-- While the tracked thread runs no write is under way. -/
theorem standing_of_running (ht : TraceInv s.sys)
    (hra : s.sys.monitor.tracked.returnAddress ≠ 0)
    (hrun : s.sys.status s.sys.monitor.tracked.lastThread = .running) :
    Standing s.sys.monitor.tracked s.sys.code := by
  apply ht.standing
  by_contra hwrites
  rcases ht.still hra hwrites with h | h
  · cases h.symm.trans hrun
  · cases h.symm.trans hrun

variable {k : Tracked} {t : Pid}

theorem InCall.congr (h : s.InCall k t) (hsame : Same s s' t) (halive : s'.sys.Alive t)
    (hbps : s'.sys.monitor.breakpoints = s.sys.monitor.breakpoints)
    (hexec : s'.exec t = s.exec t) : s'.InCall k t := by
  obtain ⟨f, hframes, htrapped, hk, htried⟩ := h
  refine ⟨f, hexec ▸ hframes, fun h => htrapped ((hsame.trapped halive).mp h), hk, ?_⟩
  intro h
  rw [hexec] at h
  rw [hsame.instruction halive h, hbps]
  exact htried h

theorem Returned.congr (h : s.Returned k t) (hsame : Same s s' t) (halive : s'.sys.Alive t)
    (htried : (s.exec t).tried = true) (hexec : s'.exec t = s.exec t) : s'.Returned k t := by
  obtain ⟨htrapped, hun, hrip, api, fs, x, hbp, hfinished, hx⟩ := h
  rw [← hsame.instruction halive htried] at hrip hx
  exact ⟨(hsame.trapped halive).mpr htrapped, hexec ▸ hun, hrip, api, fs, x, hbp,
    hexec ▸ hfinished, hx⟩

theorem BackAtEntry.congr (h : s.BackAtEntry k t) (hsame : Same s s' t)
    (halive : s'.sys.Alive t) (htried : (s.exec t).tried = true)
    (hbps : s'.sys.monitor.breakpoints = s.sys.monitor.breakpoints)
    (hexec : s'.exec t = s.exec t) : s'.BackAtEntry k t := by
  obtain ⟨htrapped, hun, f, hf, hret, hrip⟩ := h
  rw [← hsame.instruction halive htried, ← hbps] at hrip
  exact ⟨(hsame.trapped halive).mpr htrapped, hexec ▸ hun, f, hexec ▸ hf, hret, hrip⟩

theorem FlatInv.tried_of_trapped (h : FlatInv s) (ht : s.sys.Trapped t) :
    (s.exec t).tried = true := by
  cases htried : (s.exec t).tried with
  | true => rfl
  | false => exact absurd ht (h.untried t htried)

/-- A step that leaves the tracked thread and its call alone. -/
theorem FlatInv.tracking_congr (h : FlatInv s) (hk : k = s.sys.monitor.tracked)
    (hbps : s'.sys.monitor.breakpoints = s.sys.monitor.breakpoints)
    (hloop : s.sys.phase = .loop) (hsame : Same s s' k.lastThread)
    (hexec : s'.exec k.lastThread = s.exec k.lastThread) : s'.Tracking k := by
  intro hra halive
  rcases hk ▸ h.tracking hloop with htracking
  rcases htracking hra (hsame.alive halive) with hin | hret | hback
  · exact Or.inl (hin.congr hsame halive hbps hexec)
  · exact Or.inr (Or.inl (hret.congr hsame halive (h.tried_of_trapped hret.1) hexec))
  · exact Or.inr (Or.inr (hback.congr hsame halive (h.tried_of_trapped hback.1) hbps hexec))

theorem FlatInv.inCall_of_running (h : FlatInv s) (hloop : s.sys.phase = .loop)
    (hra : s.sys.monitor.tracked.returnAddress ≠ 0)
    (hrun : s.sys.status s.sys.monitor.tracked.lastThread = .running) :
    s.InCall s.sys.monitor.tracked s.sys.monitor.tracked.lastThread := by
  rcases h.tracking hloop hra (System.alive_of_running hrun) with hin | hret | hback
  · exact hin
  · exact absurd hret.1 (System.not_trapped_of_running hrun)
  · exact absurd hback.1 (System.not_trapped_of_running hrun)

/-- A thread in a call that is not nested goes on to an instruction other than
its return. -/
theorem InCall.not_hooked (hin : s.InCall k t) {ctx : Context}
    (hnested : s.NonNested (.fetch t ctx)) (hrip : ctx.regs.rip ≠ k.returnAddress) :
    ¬ (s.exec t).Returns ctx ∧
      breakpointByEntry s.sys.monitor.breakpoints ctx.regs.rip = none := by
  obtain ⟨f, hframes, -, hk, -⟩ := hin
  have hno : ¬ (s.exec t).Returns ctx := by
    rw [Execution.returns_iff hframes, ← hk.returnAddress]
    exact hrip
  refine ⟨hno, ?_⟩
  by_contra hne
  have hempty := hnested hne
  rw [Execution.leave_of_not_returns hno, hframes] at hempty
  cases hempty

/-- The tracked thread executes an instruction: it goes on in its call. -/
theorem FlatInv.not_hooked_of_executes (h : FlatInv s) (ht : TraceInv s.sys)
    (hloop : s.sys.phase = .loop) (hra : s.sys.monitor.tracked.returnAddress ≠ 0)
    (hrun : s.sys.status s.sys.monitor.tracked.lastThread = .running) {ctx : Context}
    (hnested : s.NonNested (.fetch s.sys.monitor.tracked.lastThread ctx))
    (hbyte : s.sys.code.text ctx.regs.rip ≠ trapByte) :
    ¬ (s.exec s.sys.monitor.tracked.lastThread).Returns ctx ∧
      breakpointByEntry s.sys.monitor.breakpoints ctx.regs.rip = none := by
  refine (h.inCall_of_running hloop hra hrun).not_hooked hnested fun hrip => hbyte ?_
  rw [hrip]
  exact (standing_of_running ht hra hrun).trapByte hra

/-- The tracked thread traps at a new instruction: it has returned. -/
theorem FlatInv.returns_of_traps (h : FlatInv s) (ht : TraceInv s.sys)
    (hloop : s.sys.phase = .loop) (hra : s.sys.monitor.tracked.returnAddress ≠ 0)
    (hrun : s.sys.status s.sys.monitor.tracked.lastThread = .running) {ctx : Context}
    (hnested : s.NonNested (.fetch s.sys.monitor.tracked.lastThread ctx))
    (harmed : ctx.regs.rip ∈ s.sys.code.armed s.sys.monitor.breakpoints) :
    ctx.regs.rip = s.sys.monitor.tracked.returnAddress := by
  by_contra hne
  obtain ⟨-, hnone⟩ := (h.inCall_of_running hloop hra hrun).not_hooked hnested hne
  rcases (standing_of_running ht hra hrun).mem_armed_iff.mp harmed with
    ⟨api, hentry, -⟩ | ⟨-, hret⟩
  · exact breakpointByEntry_eq_none_iff.mp hnone api hentry
  · exact hne hret

theorem FlatInv.tracking_run (h : FlatInv s) (ht : TraceInv s.sys)
    (hloop : s.sys.phase = .loop) {ctx : Context} {late : Bool}
    (hk : k = s.sys.monitor.tracked) (hrun : s.sys.status k.lastThread = .running)
    (hnested : s.NonNested (.fetch k.lastThread ctx))
    (hbyte : s.sys.code.text ctx.regs.rip ≠ trapByte) (hsys : s'.sys = s.sys)
    (hexec : s'.exec k.lastThread = (s.exec k.lastThread).arrive s.sys.monitor.breakpoints late
      k.lastThread ctx false) : s'.Tracking k := by
  subst hk
  intro hra _
  obtain ⟨hno, hnone⟩ := h.not_hooked_of_executes ht hloop hra hrun hnested hbyte
  obtain ⟨f, hframes, htrapped, hk, -⟩ := h.inCall_of_running hloop hra hrun
  rw [Execution.arrive_other hno hnone] at hexec
  refine Or.inl ⟨f, ?_, hsys ▸ htrapped, hk, ?_⟩
  · rw [hexec]
    exact hframes
  · intro htried
    rw [hexec] at htried
    cases htried

theorem FlatInv.tracking_trap (h : FlatInv s) (ht : TraceInv s.sys)
    (hloop : s.sys.phase = .loop) {ctx : Context} {late : Bool}
    (hk : k = s.sys.monitor.tracked) (hrun : s.sys.status k.lastThread = .running)
    (hnested : s.NonNested (.fetch k.lastThread ctx))
    (harmed : ctx.regs.rip ∈ s.sys.code.armed s.sys.monitor.breakpoints)
    (htrapped : s'.sys.Trapped k.lastThread) (hinstruction : s'.sys.instruction k.lastThread = ctx)
    (hexec : s'.exec k.lastThread = (s.exec k.lastThread).arrive s.sys.monitor.breakpoints late
      k.lastThread ctx true) : s'.Tracking k := by
  subst hk
  intro hra _
  have hrip := h.returns_of_traps ht hloop hra hrun hnested harmed
  obtain ⟨f, hframes, -, hk, -⟩ := h.inCall_of_running hloop hra hrun
  obtain ⟨hfinished, hun⟩ := Execution.arrive_return hframes (hrip.trans hk.returnAddress)
    s.sys.monitor.breakpoints late s.sys.monitor.tracked.lastThread true
  rw [← hexec] at hfinished hun
  refine Or.inr (Or.inl ⟨htrapped, hun, ?_, f.api, _, _, hk.bp, hfinished, ?_⟩)
  · rw [hinstruction]
    exact hrip
  · rw [hinstruction, hk.arg1, hk.arg2]
    rfl

/-- The tracked thread traps once more at the entry. -/
theorem FlatInv.tracking_retrap (h : FlatInv s) (hloop : s.sys.phase = .loop)
    (hk : k = s.sys.monitor.tracked) (hrun : s.sys.status k.lastThread = .running)
    (htried : (s.exec k.lastThread).tried = true)
    (hbps : s'.sys.monitor.breakpoints = s.sys.monitor.breakpoints)
    (htrapped : s'.sys.Trapped k.lastThread)
    (hinstruction : s'.sys.instruction k.lastThread = s.sys.instruction k.lastThread)
    (hexec : s'.exec = s.exec) : s'.Tracking k := by
  subst hk
  intro hra _
  obtain ⟨f, hframes, -, hk, hrip⟩ := h.inCall_of_running hloop hra hrun
  refine Or.inr (Or.inr ⟨htrapped, ?_, f, ?_, hk.returnAddress, ?_⟩)
  · rw [hexec, Bool.eq_false_iff]
    exact fun hun => System.not_trapped_of_running hrun
      (h.unprocessed _ hun (System.alive_of_running hrun))
  · rw [hexec, hframes]
    exact List.mem_singleton_self f
  · rw [hinstruction, hbps]
    exact hrip htried

/-- The loop begins to track a call: its thread is in it. -/
theorem FlatInv.tracking_entry (h : FlatInv s) (htrapped : s.sys.Trapped t) {api : Api}
    (hbps : s'.sys.monitor.breakpoints = s.sys.monitor.breakpoints)
    (huntrapped : ¬ s'.sys.Trapped t) (hinstruction : s'.sys.instruction t = s.sys.instruction t)
    (hexec : s'.exec t = { s.exec t with unprocessed := false })
    (hentry : breakpointByEntry s.sys.monitor.breakpoints (s.sys.instruction t).regs.rip =
      some api) (code : Word) :
    s'.Tracking ⟨some api, callReturnAddress (s.sys.instruction t), code,
      callArg1 (s.sys.instruction t), callArg2 (s.sys.instruction t), t⟩ := by
  intro _ _
  obtain ⟨f, hframes, hof⟩ := h.atEntry t (System.alive_of_trapped htrapped)
    (h.tried_of_trapped htrapped) api hentry
  refine Or.inl ⟨f, ?_, huntrapped, hof.describes t code, ?_⟩
  · rw [show s'.exec _ = _ from hexec]
    exact hframes
  · intro _
    rw [show s'.sys.instruction _ = _ from hinstruction, hbps, hof.api]
    exact eq_of_breakpointByEntry hentry

/-- **A move keeps the tracked call tracked.** -/
theorem FlatInv.tracking_step (h : FlatInv s) (ht : TraceInv s.sys) {m : Move}
    (hok : s.FlatMove m) (heffect : Effect s m s') (hloop : s'.sys.phase = .loop) :
    s'.Tracking s'.sys.monitor.tracked := by
  obtain ⟨⟨harmed, -⟩, hnested⟩ := hok
  cases heffect with
  | run t ctx hm hrun htried hbyte hsys hexec =>
      subst hm
      rw [hsys] at hloop ⊢
      by_cases heq : s.sys.monitor.tracked.lastThread = t
      · subst heq
        exact h.tracking_run ht hloop rfl hrun hnested hbyte hsys
          (by rw [hexec, Function.update_self])
      · exact h.tracking_congr rfl (by rw [hsys]) hloop (.refl_of_eq (by rw [hsys]) (by rw [hsys]))
          (by rw [hexec, Function.update_of_ne heq])
  | trap t ctx hm hrun htried hbyte hmonitor hlog hphase htrapped hinstruction hothers hexec =>
      subst hm
      rw [hphase] at hloop
      rw [hmonitor]
      by_cases heq : s.sys.monitor.tracked.lastThread = t
      · subst heq
        exact h.tracking_trap ht hloop rfl hrun hnested (harmed hbyte) htrapped hinstruction
          (by rw [hexec, Function.update_self])
      · exact h.tracking_congr rfl (by rw [hmonitor]) hloop (hothers _ heq)
          (by rw [hexec, Function.update_of_ne heq])
  | rerun t hm hrun htried hbyte hsys hexec =>
      rw [hsys] at hloop ⊢
      by_cases heq : s.sys.monitor.tracked.lastThread = t
      · subst heq
        intro hra _
        obtain ⟨f, hframes, htrapped, hk, -⟩ := h.inCall_of_running hloop hra hrun
        refine Or.inl ⟨f, ?_, ?_, hk, ?_⟩
        · rw [hexec, Function.update_self]
          exact hframes
        · rw [hsys]
          exact htrapped
        · intro htried'
          rw [hexec, Function.update_self] at htried'
          cases htried'
      · exact h.tracking_congr rfl (by rw [hsys]) hloop (.refl_of_eq (by rw [hsys]) (by rw [hsys]))
          (by rw [hexec, Function.update_of_ne heq])
  | retrap t hm hrun htried hbyte hmonitor hlog hphase htrapped hinstruction hothers hexec =>
      subst hm
      rw [hphase] at hloop
      rw [hmonitor]
      by_cases heq : s.sys.monitor.tracked.lastThread = t
      · subst heq
        exact h.tracking_retrap hloop rfl hrun htried (by rw [hmonitor]) htrapped hinstruction hexec
      · exact h.tracking_congr rfl (by rw [hmonitor]) hloop (hothers _ heq) (by rw [hexec])
  | quiet htracked hbps hlog hphase hsame hexec =>
      rw [htracked]
      exact h.tracking_congr rfl hbps (hphase hloop) (hsame _) (by rw [hexec])
  | process t hwait htrapped hbps halive huntrapped hinstruction hothers hexec hverdict =>
      cases hverdict with
      | hold htracked hlog hwhy =>
          -- a held thread is not the tracked one
          have hne : s.sys.monitor.tracked.lastThread ≠ t :=
            (hwhy.resolve_right fun hun => by cases hloop.symm.trans hun).2
          rw [htracked]
          exact h.tracking_congr rfl hbps hwait.1 (hothers _ hne)
            (by rw [hexec, Function.update_of_ne hne])
      | atReturn api hlast hbp hrip htracked hlog =>
          rw [htracked]
          exact fun hra => absurd rfl hra
      | atEntry api hlast hrip hentry htracked hlog =>
          obtain ⟨code, htracked⟩ := htracked
          rw [htracked]
          exact h.tracking_entry htrapped hbps huntrapped hinstruction
            (by rw [hexec, Function.update_self]) hentry code
      | elsewhere hlast hrip hentry htracked hlog =>
          -- a late stop at a return breakpoint that is gone: no call is tracked
          rw [htracked]
          intro hra
          have hinstr := System.instruction_of_trapped htrapped
          rw [hinstr] at hrip hentry
          refine absurd (ht.returnAddress_eq_zero ?_ htrapped hlast hrip hentry) hra
          rw [hwait.2]
          exact noWrites_nil

end Tracking

/-! ## The other threads -/

section Others

variable {s s' : Traced} {m : Move}

/-- The frames after an instruction: none of a returned call, and the new one. -/
theorem NonNested.frames_arrive {t : Pid} {ctx : Context} (hnested : s.NonNested (.fetch t ctx))
    (late traps : Bool) :
    (∃ api, breakpointByEntry s.sys.monitor.breakpoints ctx.regs.rip = some api ∧
      ((s.exec t).arrive s.sys.monitor.breakpoints late t ctx traps).frames =
        [⟨api, callArg1 ctx, callArg2 ctx, callReturnAddress ctx, late, false⟩]) ∨
    (breakpointByEntry s.sys.monitor.breakpoints ctx.regs.rip = none ∧
      ((s.exec t).arrive s.sys.monitor.breakpoints late t ctx traps).frames =
        ((s.exec t).leave t ctx).frames) := by
  cases hentry : breakpointByEntry s.sys.monitor.breakpoints ctx.regs.rip with
  | none =>
      refine Or.inr ⟨rfl, ?_⟩
      show (Execution.enter _ _ _ _).frames = _
      rw [Execution.enter_of_none hentry]
  | some api =>
      refine Or.inl ⟨api, rfl, (Execution.enter_of_some hentry).trans ?_⟩
      rw [hnested (by rw [hentry]; nofun)]
      rfl

theorem LogInv.elsewhere_step (h : LogInv s) (hnested : s.NonNested m)
    (hok : s.ReturnsElsewhere m) (heffect : Effect s m s') (u : Pid) (f : Frame)
    (hf : f ∈ (s'.exec u).frames) :
    f.returnAddress ≠ (s'.sys.monitor.breakpoints f.api).entryAddress := by
  rw [heffect.breakpoints]
  have harrive : ∀ (ctx : Context) (traps : Bool), m = .fetch u ctx →
      f ∈ ((s.exec u).arrive s.sys.monitor.breakpoints s.sys.initialized u ctx traps).frames →
      f.returnAddress ≠ (s.sys.monitor.breakpoints f.api).entryAddress := by
    rintro ctx traps rfl hf
    rcases NonNested.frames_arrive hnested s.sys.initialized traps with
      ⟨api, hentry, hframes⟩ | ⟨-, hframes⟩
    · rw [hframes] at hf
      obtain rfl := List.mem_singleton.mp hf
      have hne := hok (by rw [hentry]; nofun)
      rwa [eq_of_breakpointByEntry hentry] at hne
    · rw [hframes] at hf
      exact h.elsewhere u f (Execution.mem_leave hf)
  cases heffect.thread u with
  | stays hsame hexec => exact h.elsewhere u f (hexec ▸ hf)
  | runs ctx hm hrun htried hbyte huntrapped hexec => exact harrive ctx false hm (hexec ▸ hf)
  | traps ctx hm hrun htried hbyte htrapped hinstruction hexec =>
      exact harrive ctx true hm (hexec ▸ hf)
  | reruns hm hrun htried hbyte huntrapped hexec =>
      rw [hexec] at hf
      exact h.elsewhere u f hf
  | retraps hm hrun htried htrapped hinstruction hexec => exact h.elsewhere u f (hexec ▸ hf)
  | processed htrapped halive huntrapped hinstruction hexec =>
      rw [hexec] at hf
      exact h.elsewhere u f hf

theorem FlatInv.atEntry_step (h : FlatInv s) (hok : s.FlatMove m) (heffect : Effect s m s')
    (u : Pid) (halive : s'.sys.Alive u) (htried : (s'.exec u).tried = true) (api : Api)
    (hentry : breakpointByEntry s'.sys.monitor.breakpoints (s'.sys.instruction u).regs.rip =
      some api) :
    ∃ f, (s'.exec u).frames = [f] ∧ f.Of api (s'.sys.instruction u) := by
  rw [heffect.breakpoints] at hentry
  cases heffect.thread u with
  | stays hsame hexec =>
      rw [hexec] at htried ⊢
      rw [hsame.instruction halive htried] at hentry ⊢
      exact h.atEntry u (hsame.alive halive) htried api hentry
  | runs ctx hm hrun htried' hbyte huntrapped hexec =>
      rw [hexec] at htried
      cases htried
  | traps ctx hm hrun htried' hbyte htrapped hinstruction hexec =>
      subst hm
      rw [hinstruction] at hentry ⊢
      rw [hexec]
      rcases NonNested.frames_arrive hok.2 s.sys.initialized true with
        ⟨api', hentry', hframes⟩ | ⟨hnone, -⟩
      · obtain rfl := Option.some.inj (hentry.symm.trans hentry')
        exact ⟨_, hframes, rfl, rfl, rfl, rfl⟩
      · cases hnone.symm.trans hentry
  | reruns hm hrun htried' hbyte huntrapped hexec =>
      rw [hexec] at htried
      cases htried
  | retraps hm hrun htried' htrapped hinstruction hexec =>
      rw [hexec]
      rw [hinstruction] at hentry ⊢
      exact h.atEntry u (System.alive_of_running hrun) htried' api hentry
  | processed htrapped halive' huntrapped hinstruction hexec =>
      rw [hexec]
      rw [hinstruction] at hentry ⊢
      exact h.atEntry u (System.alive_of_trapped htrapped) (h.tried_of_trapped htrapped) api hentry

theorem FlatInv.returned_of_atReturn (h : FlatInv s) (hl : LogInv s) (ht : TraceInv s.sys)
    {t : Pid} (hwait : s.sys.AtWaitpid) (htrapped : s.sys.Trapped t)
    (hlast : s.sys.monitor.returnAddress ≠ 0 → s.sys.monitor.lastThread = t)
    (hrip : (s.sys.instruction t).regs.rip = s.sys.monitor.returnAddress) :
    s.Returned s.sys.monitor.tracked t := by
  have hra : s.sys.monitor.returnAddress ≠ 0 := by
    rw [← hrip, System.instruction_of_trapped htrapped]
    exact ht.rip_ne_zero (ht.behind t htrapped)
  obtain rfl := hlast hra
  rcases h.tracking hwait.1 hra (System.alive_of_trapped htrapped) with hin | hret | hback
  · obtain ⟨f, -, huntrapped, -⟩ := hin
    exact absurd htrapped huntrapped
  · exact hret
  · obtain ⟨-, -, f, hf, hret, hentry⟩ := hback
    exact absurd (hret.symm.trans (hrip.symm.trans hentry)) (hl.elsewhere _ f hf)

/-- The handler call that is due, and the completed call that it is for. -/
theorem Returned.invocation {k : Tracked} {t : Pid} (h : s.Returned k t) {api : Api}
    (hbp : k.bp = some api) :
    ∃ x, (s.exec t).finished = (s.exec t).processed ++ [x] ∧
      x.invocation = ⟨t, api, callReturnValue (s.sys.instruction t), k.arg1, k.arg2⟩ := by
  obtain ⟨-, hun, -, api', fs, x, hbp', hfinished, hx⟩ := h
  obtain rfl := Option.some.inj (hbp.symm.trans hbp')
  refine ⟨x, ?_, hx⟩
  rw [Execution.processed, hun, if_pos rfl, hfinished, List.dropLast_concat]

theorem LogInv.logged_step (hl : LogInv s) (h : FlatInv s) (ht : TraceInv s.sys)
    (heffect : Effect s m s') (u : Pid) : (s'.sys.logOf u).Sublist ((s'.exec u).processed.map Finished.invocation) := by
  have hsame : s'.sys.log = s.sys.log →
      (s'.sys.logOf u).Sublist ((s'.exec u).processed.map Finished.invocation) := by
    intro hlog
    rw [System.logOf, hlog]
    exact (hl.logged u).trans ((heffect.thread u).processed_sublist.map _)
  cases heffect with
  | run t ctx hm hrun htried hbyte hsys hexec => exact hsame (by rw [hsys])
  | trap t ctx hm hrun htried hbyte hmonitor hlog hphase htrapped hinstruction hothers hexec =>
      exact hsame hlog
  | rerun t hm hrun htried hbyte hsys hexec => exact hsame (by rw [hsys])
  | retrap t hm hrun htried hbyte hmonitor hlog hphase htrapped hinstruction hothers hexec =>
      exact hsame hlog
  | quiet htracked hbps hlog hphase hsame' hexec => exact hsame hlog
  | process t hwait htrapped hbps halive huntrapped hinstruction hothers hexec hverdict =>
      cases hverdict with
      | hold htracked hlog hwhy => exact hsame hlog
      | atEntry api hlast hrip hentry htracked hlog => exact hsame hlog
      | elsewhere hlast hrip hentry htracked hlog => exact hsame hlog
      | atReturn api hlast hbp hrip htracked hlog =>
          by_cases heq : u = t
          · -- the open return of the thread is the one that is told
            subst heq
            obtain ⟨x, hfinished, hx⟩ :=
              (h.returned_of_atReturn hl ht hwait htrapped hlast hrip).invocation hbp
            have hnew : s'.sys.logOf u = s.sys.logOf u ++ [x.invocation] := by
              rw [hx]
              exact System.logOf_append_self hlog
            rw [hnew, hexec, Function.update_self]
            show List.Sublist _ (List.map _ (s.exec u).finished)
            rw [hfinished, List.map_append]
            exact (hl.logged u).append (List.Sublist.refl _)
          · rw [System.logOf_append_of_ne hlog heq, hexec, Function.update_of_ne heq]
            exact hl.logged u

/-- **Every move of calls that are not nested keeps track of them.** -/
theorem flatInv_step (h : FlatInv s) (ht : TraceInv s.sys) (hok : s.FlatMove m)
    (hstep : s.step m = some s') : FlatInv s' := by
  have heffect := step_effect h.fresh hok.1.1 hstep
  exact
    { fresh := fresh_step h.fresh hok.1.1 hstep
      untried := fun u => (heffect.thread u).untried (h.untried u)
      atEntry := h.atEntry_step hok heffect
      unprocessed := fun u => (heffect.thread u).unprocessed (h.unprocessed u)
      tracking := h.tracking_step ht hok heffect }

theorem logInv_step (hl : LogInv s) (h : FlatInv s) (ht : TraceInv s.sys)
    (hok : s.FlatMove m) (helsewhere : s.ReturnsElsewhere m) (hstep : s.step m = some s') :
    LogInv s' := by
  have heffect := step_effect h.fresh hok.1.1 hstep
  exact ⟨hl.elsewhere_step hok.2 helsewhere heffect, hl.logged_step h ht heffect⟩

end Others

section Begin

variable {symtabByName : Api → Word} {text : Bytes 64} {targetPid : Pid} {limits : Limits}
  {others : Pid → Bool} {s₀ : System} {s : Traced}

theorem flatInv_begin
    (hbegin : System.begin symtabByName text targetPid limits others = some s₀) :
    FlatInv (.start s₀) := by
  have hpending := System.not_pending_begin hbegin
  obtain ⟨init, -, rfl⟩ := Option.map_eq_some_iff.mp hbegin
  exact
    { fresh := fun _ _ => rfl
      untried := fun t _ => hpending t _
      atEntry := nofun
      unprocessed := nofun
      tracking := fun _ hra => absurd rfl hra }

theorem flatInv_reachable {allowed : Traced → Move → Prop}
    (hallowed : ∀ s m, allowed s m → s.FlatMove m)
    (hbegin : System.begin symtabByName text targetPid limits others = some s₀)
    (hs : Reachable step allowed (.start s₀) s) : TraceInv s.sys ∧ FlatInv s := by
  have htrace : ∀ {s}, Reachable step allowed (.start s₀) s → TraceInv s.sys := fun h =>
    traceInv_reachable hbegin (reachable_sys (fun s m hok => (hallowed s m hok).1) h)
  refine ⟨htrace hs, Reachable.invariant_of FlatInv hs htrace (flatInv_begin hbegin) ?_⟩
  intro s m s' ht _ h hok hstep
  exact flatInv_step h ht (hallowed s m hok) hstep

end Begin

/-- A move of threads that make hooked calls one after the other, and return
from them elsewhere. -/
def CallMove (s : Traced) (m : Move) : Prop := s.FlatMove m ∧ s.ReturnsElsewhere m

instance (s : Traced) (m : Move) : Decidable (s.CallMove m) :=
  inferInstanceAs (Decidable (_ ∧ _))

end Traced

/-- **No mixed-up call across threads.** The handler calls for a thread are a
sublist of its completed calls, each with the arguments of its entry and the
result of its return. -/
theorem calls_not_mixed_up {symtabByName : Api → Word} {text : Bytes 64} {targetPid : Pid}
    {limits : Limits} {others : Pid → Bool} {s₀ : System} {s : Traced}
    (hbegin : System.begin symtabByName text targetPid limits others = some s₀)
    (hs : Reachable Traced.step Traced.CallMove (.start s₀) s) (t : Pid) :
    (s.sys.logOf t).Sublist ((s.exec t).finished.map Finished.invocation) := by
  have hstart : Traced.LogInv (.start s₀) := by
    obtain ⟨init, -, rfl⟩ := Option.map_eq_some_iff.mp hbegin
    exact ⟨nofun, fun _ => List.Sublist.refl _⟩
  have hl : Traced.LogInv s := by
    refine Reachable.invariant_of Traced.LogInv hs
      (Traced.flatInv_reachable (fun _ _ hok => hok.1) hbegin) hstart ?_
    rintro s m s' ⟨ht, h⟩ - hl hok hstep
    exact Traced.logInv_step hl h ht hok.1 hok.2 hstep
  exact (hl.logged t).trans ((Execution.processed_sublist _).map _)

/-! ## Sample runs -/

def issueMoves (n : Nat) : List Move := List.replicate n .issue

/-- Thread 1 calls `malloc(16)` and reaches the return address, and so does
thread 2, without a call. `waitpid` reports thread 2 first. -/
def sameReturnAddress : List Move :=
  issueMoves 5 ++ [.fetch 1 (sampleContext 0x1000 0x2000 0 16), .wait 1 sampleOutside] ++
    issueMoves 4 ++
    [.retry 1, .fetch 2 (sampleContext 0x2000 0 7 8), .fetch 1 (sampleContext 0x2000 0 0x5000 3),
      .wait 2 sampleOutside, .wait 1 sampleOutside]

theorem calls_not_mixed_up_sameReturnAddress :
    ∃ s₀ s, sampleBegin 2 = some s₀ ∧ Reachable Traced.step Traced.CallMove (.start s₀) s ∧
      s.sys.log = [⟨1, .malloc, 0x5000, 16, 0⟩] ∧
      ∀ t, (s.sys.logOf t).Sublist ((s.exec t).finished.map Finished.invocation) := by
  have hrun : ((sampleBegin 2).bind fun s₀ =>
      (feed Traced.step Traced.CallMove (.start s₀) sameReturnAddress).map fun s => s.sys.log) =
      some [⟨1, .malloc, 0x5000, 16, 0⟩] := by decide +kernel
  obtain ⟨s₀, s, hbegin, hreach, hlog⟩ := Reachable.exists_of_run hrun
  exact ⟨s₀, s, hbegin, hreach, hlog, calls_not_mixed_up hbegin hreach⟩

/-- `malloc(16)` is called from right before its entry: the entry is fetched
again, and taken for the return. -/
def ownReturnAddress : List Move :=
  issueMoves 5 ++ [.fetch 1 (sampleContext 0x1000 0x1000 0 16), .wait 1 sampleOutside] ++
    issueMoves 4 ++ [.retry 1, .wait 1 sampleOutside]

/-- `malloc(16)` returns to address `0`, where the trap byte stays. -/
def zeroReturnAddress : List Move :=
  issueMoves 5 ++ [.fetch 1 (sampleContext 0x1000 0 0 16), .wait 1 sampleOutside] ++
    issueMoves 4 ++ [.retry 1, .fetch 1 (sampleContext 0 0 0x5000 0), .wait 1 sampleOutside] ++
    issueMoves 2 ++ [.retry 1, .wait 1 sampleOutside]

theorem mixed_up_of_run {allowed : Traced → Move → Prop} [∀ s m, Decidable (allowed s m)]
    (moves : List Move) (log : List Invocation) (finished : List Finished)
    (hrun : ((sampleBegin 1).bind fun s₀ =>
      (feed Traced.step allowed (.start s₀) moves).map fun s =>
        (s.sys.logOf 1, (s.exec 1).finished)) = some (log, finished))
    (hno : ¬ log.Sublist (finished.map Finished.invocation)) :
    ∃ s₀ s, sampleBegin 1 = some s₀ ∧ Reachable Traced.step allowed (.start s₀) s ∧
      ¬ (s.sys.logOf 1).Sublist ((s.exec 1).finished.map Finished.invocation) := by
  obtain ⟨s₀, s, hbegin, hreach, hs⟩ := Reachable.exists_of_run hrun
  obtain ⟨rfl, rfl⟩ := Prod.mk.inj hs
  exact ⟨s₀, s, hbegin, hreach, hno⟩

/-- A handler call without a completed call, and two handler calls for one. Each
of the two return addresses does it. -/
theorem calls_mixed_up_at_return_address :
    (∃ s₀ s, sampleBegin 1 = some s₀ ∧ Reachable Traced.step Traced.FlatMove (.start s₀) s ∧
      ¬ (s.sys.logOf 1).Sublist ((s.exec 1).finished.map Finished.invocation)) ∧
    ∃ s₀ s, sampleBegin 1 = some s₀ ∧
      Reachable Traced.step (fun s m => s.sys.TrapsArmed (m.label s.sys) ∧ s.NonNested m ∧
        s.ReturnsElsewhere m) (.start s₀) s ∧
      ¬ (s.sys.logOf 1).Sublist ((s.exec 1).finished.map Finished.invocation) := by
  constructor
  · exact mixed_up_of_run ownReturnAddress [⟨1, .malloc, 0, 16, 0⟩] [] (by decide +kernel)
      (by decide)
  · exact mixed_up_of_run zeroReturnAddress
      [⟨1, .malloc, 0x5000, 16, 0⟩, ⟨1, .malloc, 0x5000, 16, 0⟩]
      [⟨⟨1, .malloc, 0x5000, 16, 0⟩, true, false⟩] (by decide +kernel) (by decide)

end Memleax
