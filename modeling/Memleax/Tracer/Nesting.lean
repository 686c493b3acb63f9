import Memleax.Tracer.TextInvariant
import Memleax.Tracer.Threads

/-!
# Nested calls of one thread

The loop remembers one call. A hooked call inside another one takes its place,
and the return of the outer one, whose breakpoint is gone by then, goes
unnoticed. For a single thread this is all that is lost: the handler calls are
exactly the completed calls without a hooked call inside, in the order of their
returns.

At every moment the thread is in one of four stages (`Stage`): no call is
tracked, and all calls it is in contain hooked ones; it is in the tracked call,
the innermost one; it has trapped at the return of that call; or it has trapped
at an entry.
-/

namespace Memleax

open Framework

/-! ## Entering and leaving a call -/

section Arrive

variable {e : Execution} {bps : Breakpoints} {late traps : Bool} {t : Pid} {ctx : Context}

theorem exists_of_mem_markNested {fs : List Frame} {f : Frame} (h : f ∈ markNested fs) :
    ∃ g ∈ fs, f.returnAddress = g.returnAddress := by
  cases fs with
  | nil => cases h
  | cons g rest =>
      rcases List.mem_cons.mp h with rfl | h
      · exact ⟨g, List.mem_cons_self, rfl⟩
      · exact ⟨f, List.mem_cons_of_mem _ h, rfl⟩

/-- Around a new call all calls contain a hooked one. -/
theorem nested_markNested {fs : List Frame} (h : ∀ f ∈ fs.tail, f.nested = true) :
    ∀ f ∈ markNested fs, f.nested = true := by
  cases fs with
  | nil => nofun
  | cons g rest => exact List.forall_mem_cons.mpr ⟨rfl, h⟩

/-- An entry that is no return. -/
theorem Execution.arrive_entry {api : Api} (hret : ¬ e.Returns ctx)
    (hentry : breakpointByEntry bps ctx.regs.rip = some api) :
    (e.arrive bps late t ctx traps).frames =
        ⟨api, callArg1 ctx, callArg2 ctx, callReturnAddress ctx, late, false⟩ ::
          markNested e.frames ∧
      (e.arrive bps late t ctx traps).finished = e.finished ∧
      (e.arrive bps late t ctx traps).unprocessed = false := by
  have hleave : e.leave t ctx = e := Execution.leave_of_not_returns hret
  refine ⟨?_, ?_, by simp [Execution.arrive, hret]⟩
  · exact (Execution.enter_of_some hentry).trans (by rw [hleave])
  · exact Execution.enter_finished.trans (by rw [hleave])

/-- A return that is no entry. -/
theorem Execution.arrive_leave (hnone : breakpointByEntry bps ctx.regs.rip = none) :
    (e.arrive bps late t ctx traps).frames = (e.leave t ctx).frames := by
  show (Execution.enter _ _ _ _).frames = _
  rw [Execution.enter_of_none hnone]

end Arrive

namespace Traced

/-! ## One thread -/

/-- One thread with nested calls: a call directly inside another one is to a
different function, no return address is an entry, and the return addresses of
the outer calls are not executed meanwhile. -/
def Nests (s : Traced) : Move → Prop
  | .fetch t ctx =>
      (∀ f ∈ (s.exec t).frames.tail, ctx.regs.rip ≠ f.returnAddress) ∧
      ∀ api ∈ breakpointByEntry s.sys.monitor.breakpoints ctx.regs.rip,
        breakpointByEntry s.sys.monitor.breakpoints (callReturnAddress ctx) = none ∧
        ∀ f ∈ ((s.exec t).leave t ctx).frames.head?, f.api ≠ api
  | .clone _ _ _ => False
  | _ => True

instance (s : Traced) : (m : Move) → Decidable (s.Nests m)
  | .fetch _ _ => inferInstanceAs (Decidable (_ ∧ _))
  | .clone _ _ _ => inferInstanceAs (Decidable False)
  | .retry _ | .signal _ _ | .exit _ | .interrupt _ | .wait _ _ | .waitFails _ | .issue =>
      inferInstanceAs (Decidable True)

def NestMove (s : Traced) (m : Move) : Prop := s.sys.Traces (m.label s.sys) ∧ s.Nests m

instance (s : Traced) (m : Move) : Decidable (s.NestMove m) :=
  inferInstanceAs (Decidable (_ ∧ _))

/-- Where thread `t` is with respect to the tracked call. -/
inductive Stage (s : Traced) (t : Pid) : Prop
  | idle (hra : s.sys.monitor.returnAddress = 0) (huntrapped : ¬ s.sys.Trapped t)
      (hnested : ∀ f ∈ (s.exec t).frames, f.nested = true)
      (htried : (s.exec t).tried = true →
        breakpointByEntry s.sys.monitor.breakpoints (s.sys.instruction t).regs.rip = none)
  | inCall (f : Frame) (rest : List Frame) (hframes : (s.exec t).frames = f :: rest)
      (hleaf : f.nested = false) (huntrapped : ¬ s.sys.Trapped t)
      (hra : s.sys.monitor.returnAddress ≠ 0) (hlast : s.sys.monitor.lastThread = t)
      (hk : s.sys.monitor.tracked.Describes f)
      (htried : (s.exec t).tried = true →
        (s.sys.instruction t).regs.rip = (s.sys.monitor.breakpoints f.api).entryAddress)
  | returned (api : Api) (x : Finished) (htrapped : s.sys.Trapped t)
      (hfinished : (s.exec t).finished = (s.exec t).processed ++ [x]) (hleaf : x.nested = false)
      (hlast : s.sys.monitor.lastThread = t)
      (hrip : (s.sys.instruction t).regs.rip = s.sys.monitor.returnAddress)
      (hnone : breakpointByEntry s.sys.monitor.breakpoints (s.sys.instruction t).regs.rip = none)
      (hnested : ∀ f ∈ (s.exec t).frames, f.nested = true)
      (hbp : s.sys.monitor.bp = some api)
      (hx : x.invocation = ⟨t, api, callReturnValue (s.sys.instruction t), s.sys.monitor.arg1,
        s.sys.monitor.arg2⟩)
  | atEntry (api : Api) (f : Frame) (rest : List Frame) (htrapped : s.sys.Trapped t)
      (hun : (s.exec t).unprocessed = false) (hframes : (s.exec t).frames = f :: rest)
      (hleaf : f.nested = false)
      (hentry : breakpointByEntry s.sys.monitor.breakpoints (s.sys.instruction t).regs.rip =
        some api)
      (hof : f.Of api (s.sys.instruction t))
      (hlast : s.sys.monitor.returnAddress ≠ 0 → s.sys.monitor.lastThread = t ∧
        breakpointByEntry s.sys.monitor.breakpoints s.sys.monitor.returnAddress = none)

/-- The handler calls that the completed calls deserve. -/
def leafCalls (s : Traced) (t : Pid) : List Invocation :=
  ((s.exec t).processed.filter fun x => !x.nested).map Finished.invocation

structure NestInv (t : Pid) (s : Traced) : Prop where
  fresh : Fresh s
  alone : ∀ u ≠ t, s.sys.status u = .unborn
  still : s.sys.status t = .running → NoWrites s.sys.queue
  untried : (s.exec t).tried = false → ¬ s.sys.Trapped t
  unprocessed : (s.exec t).unprocessed = true → s.sys.Alive t → s.sys.Trapped t
  returns : ∀ f ∈ (s.exec t).frames,
    breakpointByEntry s.sys.monitor.breakpoints f.returnAddress = none
  outer : ∀ f ∈ (s.exec t).frames.tail, f.nested = true
  stage : s.sys.phase = .loop → s.sys.Alive t → s.Stage t
  logged : s.sys.phase = .loop → s.sys.log = s.leafCalls t

section Step

variable {s s' : Traced} {orig : Bytes 64} {m : Move} {t : Pid}

theorem NestInv.eq_of_born (h : NestInv t s) {u : Pid} (hu : s.sys.status u ≠ .unborn) :
    u = t := by
  by_contra hne
  exact hu (h.alone u hne)

theorem NestInv.eq_of_running (h : NestInv t s) {u : Pid} (hu : s.sys.status u = .running) :
    u = t :=
  h.eq_of_born (by rw [hu]; nofun)

theorem NestInv.eq_of_trapped (h : NestInv t s) {u : Pid} (hu : s.sys.Trapped u) : u = t :=
  h.eq_of_born (by rw [show s.sys.status u = _ from hu]; nofun)

theorem NestInv.tried_of_trapped (h : NestInv t s) (ht : s.sys.Trapped t) :
    (s.exec t).tried = true := by
  cases htried : (s.exec t).tried with
  | true => rfl
  | false => exact absurd ht (h.untried htried)

theorem NestInv.alone_step (h : NestInv t s) (hok : s.NestMove m) (hstep : s.step m = some s')
    (u : Pid) (hne : u ≠ t) : s'.sys.status u = .unborn := by
  refine System.unborn_step (step_eq_some hstep).2.1 ?_ (h.alone u hne)
  intro v ctx heq
  cases m with
  | clone v' child ctx' => exact hok.2
  | _ => cases heq

/-- While the thread runs no write is under way. -/
theorem NestInv.still_step (h : NestInv t s) (ht : TraceInv s.sys) (hstep : s.step m = some s')
    (hrun : s'.sys.status t = .running) : NoWrites s'.sys.queue := by
  have hset : ∀ (u : Pid) (thread : Thread), thread.status ≠ .running →
      (s.sys.setThread u thread).status t = .running → NoWrites s.sys.queue := by
    intro u thread hne hrun
    by_cases heq : t = u
    · subst heq
      rw [System.status_setThread_self] at hrun
      exact absurd hrun hne
    · rw [System.status_setThread_of_ne _ _ heq] at hrun
      exact h.still hrun
  generalize hs'' : s'.sys = s'' at hrun
  have hkind := hs'' ▸ System.step_kind (step_eq_some hstep).2.1
  generalize m.label s.sys = label at hkind
  cases hkind with
  | trap u ctx => exact hset u _ (fun heq => by cases heq) hrun
  | execute u ctx => exact h.still hrun
  | signal u signum ctx => exact hset u _ (fun heq => by cases heq) hrun
  | clone u child ctx hrun' hchild =>
      refine hset u ⟨.pending (.stop .sigtrap true), ctx⟩ (fun heq => by cases heq) ?_
      by_cases heq : t = child
      · subst heq
        rw [System.status_setThread_self] at hrun
        cases hrun
      · rwa [System.status_setThread_of_ne _ _ heq] at hrun
  | exit u => exact hset u _ (fun heq => by cases heq) hrun
  | interrupt signum => exact h.still hrun
  | wait u report out hpending hwait =>
      obtain rfl : u = t := h.eq_of_born fun heq => by cases hpending.symm.trans heq
      rw [System.status_wait_self] at hrun
      split at hrun <;> cases hrun
  | waitAgain hwait => exact h.still hrun
  | waitError hwait => exact h.still hrun
  | issueWrite w queue hqueue =>
      refine absurd ?_ (h.still hrun w)
      rw [hqueue]
      exact List.mem_cons_self
  | issueResume u signum queue hqueue =>
      unfold System.resume
      split <;> exact (ht.noWrites_of_head hqueue fun _ heq => by cases heq).2
  | issueOther r queue hqueue hother => exact (ht.noWrites_of_head hqueue hother).2

/-! ## The frames -/

theorem NestInv.not_returns_of_entry (h : NestInv t s) {ctx : Context} {api : Api}
    (hentry : breakpointByEntry s.sys.monitor.breakpoints ctx.regs.rip = some api) :
    ¬ (s.exec t).Returns ctx := by
  intro hreturns
  obtain ⟨f, rest, hframes, hret, -⟩ := Execution.leave_of_returns (t := t) hreturns
  have hnone := h.returns f (by rw [hframes]; exact List.mem_cons_self)
  rw [hret] at hnone
  cases hentry.symm.trans hnone

/-- What a new instruction does to the frames. -/
theorem NestInv.frames_arrive (h : NestInv t s) (ctx : Context) (late traps : Bool) :
    (∃ api, breakpointByEntry s.sys.monitor.breakpoints ctx.regs.rip = some api ∧
      ((s.exec t).arrive s.sys.monitor.breakpoints late t ctx traps).frames =
        ⟨api, callArg1 ctx, callArg2 ctx, callReturnAddress ctx, late, false⟩ ::
          markNested (s.exec t).frames) ∨
    (breakpointByEntry s.sys.monitor.breakpoints ctx.regs.rip = none ∧
      ((s.exec t).arrive s.sys.monitor.breakpoints late t ctx traps).frames =
        ((s.exec t).leave t ctx).frames) := by
  cases hentry : breakpointByEntry s.sys.monitor.breakpoints ctx.regs.rip with
  | none => exact Or.inr ⟨rfl, Execution.arrive_leave hentry⟩
  | some api =>
      exact Or.inl ⟨api, rfl, (Execution.arrive_entry (h.not_returns_of_entry hentry) hentry).1⟩

/-- Frames that stay or that a new instruction leaves. -/
theorem frames_step {P : List Frame → Prop} (heffect : ThreadEffect s m s' t)
    (hsame : P (s.exec t).frames)
    (harrive : ∀ ctx traps, m = .fetch t ctx →
      P ((s.exec t).arrive s.sys.monitor.breakpoints s.sys.initialized t ctx traps).frames) :
    P (s'.exec t).frames := by
  cases heffect with
  | stays hstays hexec => exact hexec ▸ hsame
  | runs ctx hm hrun htried hbyte huntrapped hexec => exact hexec ▸ harrive ctx false hm
  | traps ctx hm hrun htried hbyte htrapped hinstruction hexec => exact hexec ▸ harrive ctx true hm
  | reruns hm hrun htried hbyte huntrapped hexec =>
      rw [hexec]
      exact hsame
  | retraps hm hrun htried htrapped hinstruction hexec => exact hexec ▸ hsame
  | processed htrapped halive huntrapped hinstruction hexec =>
      rw [hexec]
      exact hsame

theorem NestInv.returns_step (h : NestInv t s) (hok : s.NestMove m) (heffect : Effect s m s') :
    ∀ f ∈ (s'.exec t).frames,
      breakpointByEntry s'.sys.monitor.breakpoints f.returnAddress = none := by
  rw [heffect.breakpoints]
  refine frames_step (P := fun fs => ∀ f ∈ fs,
    breakpointByEntry s.sys.monitor.breakpoints f.returnAddress = none) (heffect.thread t)
    h.returns ?_
  rintro ctx traps rfl
  rcases h.frames_arrive ctx s.sys.initialized traps with ⟨api, hentry, hframes⟩ | ⟨-, hframes⟩
  · rw [hframes]
    refine List.forall_mem_cons.mpr ⟨(hok.2.2 api hentry).1, ?_⟩
    intro f hf
    obtain ⟨g, hg, heq⟩ := exists_of_mem_markNested hf
    rw [heq]
    exact h.returns g hg
  · rw [hframes]
    exact fun f hf => h.returns f (Execution.mem_leave hf)

theorem NestInv.outer_step (h : NestInv t s) (heffect : Effect s m s') :
    ∀ f ∈ (s'.exec t).frames.tail, f.nested = true := by
  refine frames_step (P := fun fs => ∀ f ∈ fs.tail, f.nested = true) (heffect.thread t) h.outer ?_
  rintro ctx traps rfl
  rcases h.frames_arrive ctx s.sys.initialized traps with ⟨api, hentry, hframes⟩ | ⟨-, hframes⟩
  · rw [hframes]
    exact nested_markNested h.outer
  · rw [hframes]
    by_cases hreturns : (s.exec t).Returns ctx
    · obtain ⟨f, rest, hfs, -, hleave⟩ := Execution.leave_of_returns (t := t) hreturns
      rw [hleave]
      intro g hg
      refine h.outer g ?_
      rw [hfs]
      exact List.mem_of_mem_tail hg
    · rw [Execution.leave_of_not_returns hreturns]
      exact h.outer

/-- After the return of the innermost call, all calls in progress contain a
hooked one. -/
theorem NestInv.nested_leave (h : NestInv t s) {ctx : Context} (hreturns : (s.exec t).Returns ctx) :
    ∀ f ∈ ((s.exec t).leave t ctx).frames, f.nested = true := by
  obtain ⟨f, rest, hframes, -, hleave⟩ := Execution.leave_of_returns (t := t) hreturns
  rw [hleave]
  have houter := h.outer
  rw [hframes] at houter
  exact houter

/-! ## The stages -/

theorem leafCalls_congr {e : Execution} (hexec : s'.exec t = e)
    (hprocessed : e.processed = (s.exec t).processed) : s'.leafCalls t = s.leafCalls t := by
  rw [leafCalls, hexec, hprocessed]
  rfl

/-- One more call is done with. -/
theorem leafCalls_append {e : Execution} {x : Finished} (hexec : s'.exec t = e)
    (hprocessed : e.processed = (s.exec t).processed ++ [x]) :
    s'.leafCalls t = s.leafCalls t ++ if x.nested then [] else [x.invocation] := by
  rw [leafCalls, hexec, hprocessed, List.filter_append, List.map_append, leafCalls]
  cases hnested : x.nested with
  | true => simp [hnested]
  | false => simp [hnested]

theorem NestInv.processed_of_running (h : NestInv t s) (hrun : s.sys.status t = .running) :
    (s.exec t).processed = (s.exec t).finished := by
  rw [Execution.processed, if_neg]
  exact fun hun => System.not_trapped_of_running hrun
    (h.unprocessed hun (System.alive_of_running hrun))

/-- A step that leaves the thread and the tracked call alone. -/
theorem NestInv.stage_congr (h : NestInv t s) (hstage : s.Stage t)
    (htracked : s'.sys.monitor.tracked = s.sys.monitor.tracked)
    (hbps : s'.sys.monitor.breakpoints = s.sys.monitor.breakpoints) (hsame : Same s s' t)
    (halive : s'.sys.Alive t) (hexec : s'.exec t = s.exec t) : s'.Stage t := by
  have hra : s'.sys.monitor.returnAddress = s.sys.monitor.returnAddress :=
    congrArg Tracked.returnAddress htracked
  have hlast' : s'.sys.monitor.lastThread = s.sys.monitor.lastThread :=
    congrArg Tracked.lastThread htracked
  have hinstr : (s.exec t).tried = true → s'.sys.instruction t = s.sys.instruction t :=
    hsame.instruction halive
  cases hstage with
  | idle hra' huntrapped hnested htried =>
      refine .idle (hra.trans hra') (fun htrapped => huntrapped ((hsame.trapped halive).mp htrapped))
        (hexec ▸ hnested) fun htried' => ?_
      rw [hexec] at htried'
      rw [hbps, hinstr htried']
      exact htried htried'
  | inCall f rest hframes hleaf huntrapped hra' hlast hk htried =>
      refine .inCall f rest (hexec ▸ hframes) hleaf
        (fun htrapped => huntrapped ((hsame.trapped halive).mp htrapped)) (hra ▸ hra')
        (hlast'.trans hlast) (htracked ▸ hk) fun htried' => ?_
      rw [hexec] at htried'
      rw [hbps, hinstr htried']
      exact htried htried'
  | returned api x htrapped hfinished hleaf hlast hrip hnone hnested hbp hx =>
      have hinstr := hinstr (h.tried_of_trapped htrapped)
      refine .returned api x ((hsame.trapped halive).mpr htrapped) (hexec ▸ hfinished) hleaf
        (hlast'.trans hlast) ?_ ?_ (hexec ▸ hnested) ?_ ?_
      · rw [hinstr, hra, hrip]
      · rw [hinstr, hbps, hnone]
      · exact (congrArg Tracked.bp htracked).trans hbp
      · rw [hx, hinstr]
        exact congrArg₂ _ (congrArg Tracked.arg1 htracked).symm (congrArg Tracked.arg2 htracked).symm
  | atEntry api f rest htrapped hun hframes hleaf hentry hof hlast =>
      have hinstr := hinstr (h.tried_of_trapped htrapped)
      refine .atEntry api f rest ((hsame.trapped halive).mpr htrapped) (hexec ▸ hun)
        (hexec ▸ hframes) hleaf ?_ (hinstr ▸ hof) ?_
      · rw [hinstr, hbps, hentry]
      · rw [hra, hlast', hbps]
        exact hlast

/-- The thread executes an instruction. -/
theorem NestInv.run_step (h : NestInv t s) (ht : TextInv orig s.sys) (hloop : s.sys.phase = .loop)
    {ctx : Context} (hok : s.NestMove (.fetch t ctx)) (hrun : s.sys.status t = .running)
    (hbyte : s.sys.code.text ctx.regs.rip ≠ trapByte) (hsys : s'.sys = s.sys)
    (hexec : s'.exec t = (s.exec t).arrive s.sys.monitor.breakpoints s.sys.initialized t ctx
      false) :
    s'.Stage t ∧ s'.sys.log = s'.leafCalls t := by
  have hs := ht.settled (h.still hrun)
  have hnot : ctx.regs.rip ∉ s.sys.code.armed s.sys.monitor.breakpoints := by
    intro hmem
    refine hbyte ?_
    rw [show s.sys.code.text = _ from hs.patched]
    exact planted_of_mem hmem
  rw [hs.mem_armed_iff] at hnot
  have hfinished : ((s.exec t).arrive s.sys.monitor.breakpoints s.sys.initialized t ctx
      false).processed = ((s.exec t).leave t ctx).finished := Execution.enter_finished
  have huntrapped' : ¬ s'.sys.Trapped t := by
    rw [hsys]
    exact System.not_trapped_of_running hrun
  have htried' : (s'.exec t).tried = false := by
    rw [hexec]
    rfl
  cases h.stage hloop (System.alive_of_running hrun) with
  | idle hra huntrapped hnested htried =>
      have hnone : breakpointByEntry s.sys.monitor.breakpoints ctx.regs.rip = none :=
        breakpointByEntry_eq_none_iff.mpr fun api heq =>
          hnot (Or.inl ⟨api, heq, fun hbusy => hbusy.1 hra⟩)
      refine ⟨.idle (hsys ▸ hra) huntrapped' ?_ ?_, ?_⟩
      · intro f hf
        rw [hexec, Execution.arrive_leave hnone] at hf
        exact hnested f (Execution.mem_leave hf)
      · intro htried
        cases htried'.symm.trans htried
      · rw [hsys, h.logged hloop]
        by_cases hreturns : (s.exec t).Returns ctx
        · -- the innermost call contains a hooked one
          obtain ⟨f, rest, hframes, -, hleave⟩ := Execution.leave_of_returns (t := t) hreturns
          rw [leafCalls_append hexec (x := f.finish t ctx)]
          · rw [show (f.finish t ctx).nested = true from
              hnested f (by rw [hframes]; exact List.mem_cons_self)]
            exact (List.append_nil _).symm
          · rw [hfinished, hleave, h.processed_of_running hrun]
        · refine (leafCalls_congr hexec ?_).symm
          rw [hfinished, Execution.leave_of_not_returns hreturns, h.processed_of_running hrun]
  | inCall f rest hframes hleaf huntrapped hra hlast hk htried =>
      have hreturns : ¬ (s.exec t).Returns ctx := by
        rw [Execution.returns_iff hframes, ← hk.returnAddress]
        exact fun hrip => hnot (Or.inr ⟨hra, hrip⟩)
      -- the one entry that is not armed is that of the call itself, which it does not call
      have hnone : breakpointByEntry s.sys.monitor.breakpoints ctx.regs.rip = none := by
        cases hentry : breakpointByEntry s.sys.monitor.breakpoints ctx.regs.rip with
        | none => rfl
        | some api =>
            have hne : f.api ≠ api := by
              refine (hok.2.2 api hentry).2 f ?_
              rw [Execution.leave_of_not_returns hreturns, hframes]
              rfl
            refine absurd (Or.inl ⟨api, eq_of_breakpointByEntry hentry, fun hbusy => hne ?_⟩) hnot
            exact Option.some.inj (hk.bp.symm.trans hbusy.2)
      rw [Execution.arrive_other hreturns hnone] at hexec
      refine ⟨.inCall f rest (by rw [hexec]; exact hframes) hleaf huntrapped' (hsys ▸ hra)
        (hsys ▸ hlast) (hsys ▸ hk) fun htried => ?_, ?_⟩
      · cases htried'.symm.trans htried
      · rw [hsys, h.logged hloop]
        exact (leafCalls_congr hexec (h.processed_of_running hrun).symm).symm
  | returned api x htrapped => exact absurd htrapped (System.not_trapped_of_running hrun)
  | atEntry api f rest htrapped => exact absurd htrapped (System.not_trapped_of_running hrun)

/-- The thread traps at a new instruction. -/
theorem NestInv.trap_step (h : NestInv t s) (ht : TextInv orig s.sys) (hloop : s.sys.phase = .loop)
    {ctx : Context} (hrun : s.sys.status t = .running)
    (harmed : ctx.regs.rip ∈ s.sys.code.armed s.sys.monitor.breakpoints)
    (hmonitor : s'.sys.monitor = s.sys.monitor) (htrapped' : s'.sys.Trapped t)
    (hinstruction : s'.sys.instruction t = ctx)
    (hexec : s'.exec t = (s.exec t).arrive s.sys.monitor.breakpoints s.sys.initialized t ctx
      true) : s'.Stage t := by
  rw [(ht.standing (h.still hrun)).mem_armed_iff] at harmed
  have hentered : ∀ api, ctx.regs.rip = (s.sys.monitor.breakpoints api).entryAddress →
      (s.sys.monitor.returnAddress ≠ 0 → s.sys.monitor.lastThread = t ∧
        breakpointByEntry s.sys.monitor.breakpoints s.sys.monitor.returnAddress = none) →
      s'.Stage t := by
    intro api hrip hlast
    rw [← breakpointByEntry_eq_some_iff ht.hooked] at hrip
    obtain ⟨hframes, -, hun⟩ := Execution.arrive_entry (h.not_returns_of_entry hrip) hrip
    rw [← hexec] at hframes hun
    rw [← hmonitor] at hrip hlast
    refine .atEntry api _ _ htrapped' hun hframes rfl ?_ ?_ hlast
    · rw [hinstruction, hrip]
    · rw [hinstruction]
      exact ⟨rfl, rfl, rfl, rfl⟩
  cases h.stage hloop (System.alive_of_running hrun) with
  | idle hra huntrapped hnested htried =>
      rcases harmed with ⟨api, hrip, -⟩ | ⟨hne, -⟩
      · exact hentered api hrip fun hne => absurd hra hne
      · exact absurd hra hne
  | inCall f rest hframes hleaf huntrapped hra hlast hk htried =>
      have hf : f ∈ (s.exec t).frames := by
        rw [hframes]
        exact List.mem_cons_self
      have hnone : breakpointByEntry s.sys.monitor.breakpoints s.sys.monitor.returnAddress =
          none := by
        rw [show s.sys.monitor.returnAddress = _ from hk.returnAddress]
        exact h.returns f hf
      -- a call inside the tracked one, or its return
      rcases harmed with ⟨api, hrip, -⟩ | ⟨-, hrip⟩
      · exact hentered api hrip fun _ => ⟨hlast, hnone⟩
      · have hrip : ctx.regs.rip = s.sys.monitor.returnAddress := hrip
        have hret : ctx.regs.rip = f.returnAddress := hrip.trans hk.returnAddress
        obtain ⟨hfinished, -⟩ := Execution.arrive_return hframes hret s.sys.monitor.breakpoints
          s.sys.initialized t true
        rw [← hrip] at hnone
        refine .returned f.api (f.finish t ctx) htrapped' ?_ hleaf (hmonitor ▸ hlast) ?_ ?_ ?_
          (hmonitor ▸ hk.bp) ?_
        · rw [hexec, Execution.processed_arrive rfl, hfinished]
        · rw [hinstruction, hmonitor, hrip]
        · rw [hinstruction, hmonitor, hnone]
        · rw [hexec, Execution.arrive_leave hnone]
          exact h.nested_leave ((Execution.returns_iff hframes).mpr hret)
        · rw [hinstruction, hmonitor]
          exact congrArg₂ _ hk.arg1.symm hk.arg2.symm
  | returned api x htrapped => exact absurd htrapped (System.not_trapped_of_running hrun)
  | atEntry api f rest htrapped => exact absurd htrapped (System.not_trapped_of_running hrun)

/-- No instruction traps twice. -/
theorem NestInv.not_armed_retry (h : NestInv t s) (ht : TextInv orig s.sys)
    (hloop : s.sys.phase = .loop) (hrun : s.sys.status t = .running)
    (htried : (s.exec t).tried = true) :
    (s.sys.instruction t).regs.rip ∉ s.sys.code.armed s.sys.monitor.breakpoints := by
  rw [(ht.standing (h.still hrun)).mem_armed_iff]
  cases h.stage hloop (System.alive_of_running hrun) with
  | idle hra huntrapped hnested hnone =>
      rintro (⟨api, hrip, -⟩ | ⟨hne, -⟩)
      · exact breakpointByEntry_eq_none_iff.mp (hnone htried) api hrip
      · exact hne hra
  | inCall f rest hframes hleaf huntrapped hra hlast hk hrip =>
      rw [hrip htried]
      rintro (⟨api, heq, hno⟩ | ⟨-, heq⟩)
      · rw [← ht.hooked.entry_injective heq] at hno
        exact hno ⟨hra, hk.bp⟩
      · have hnone := h.returns f (by rw [hframes]; exact List.mem_cons_self)
        rw [← hk.returnAddress] at hnone
        exact breakpointByEntry_eq_none_iff.mp hnone f.api heq.symm
  | returned api x htrapped => exact absurd htrapped (System.not_trapped_of_running hrun)
  | atEntry api f rest htrapped => exact absurd htrapped (System.not_trapped_of_running hrun)

/-- The thread executes the instruction that has trapped. -/
theorem NestInv.rerun_step (h : NestInv t s) (hloop : s.sys.phase = .loop)
    (hrun : s.sys.status t = .running) (hsys : s'.sys = s.sys)
    (hexec : s'.exec t = { s.exec t with tried := false }) : s'.Stage t := by
  have huntrapped' : ¬ s'.sys.Trapped t := by
    rw [hsys]
    exact System.not_trapped_of_running hrun
  have htried' : (s'.exec t).tried = false := by rw [hexec]
  cases h.stage hloop (System.alive_of_running hrun) with
  | idle hra huntrapped hnested htried =>
      refine .idle (hsys ▸ hra) huntrapped' (by rw [hexec]; exact hnested) fun htried => ?_
      cases htried'.symm.trans htried
  | inCall f rest hframes hleaf huntrapped hra hlast hk htried =>
      refine .inCall f rest (by rw [hexec]; exact hframes) hleaf huntrapped' (hsys ▸ hra)
        (hsys ▸ hlast) (hsys ▸ hk) fun htried => ?_
      cases htried'.symm.trans htried
  | returned api x htrapped => exact absurd htrapped (System.not_trapped_of_running hrun)
  | atEntry api f rest htrapped => exact absurd htrapped (System.not_trapped_of_running hrun)

/-- The loop is told of the trap. -/
theorem NestInv.process_step (h : NestInv t s) (ht : TraceInv s.sys)
    (hloop : s.sys.phase = .loop) (hloop' : s'.sys.phase = .loop) (htrapped : s.sys.Trapped t)
    (hbps : s'.sys.monitor.breakpoints = s.sys.monitor.breakpoints)
    (huntrapped' : ¬ s'.sys.Trapped t)
    (hinstruction : s'.sys.instruction t = s.sys.instruction t)
    (hexec : s'.exec t = { s.exec t with unprocessed := false }) (hverdict : Verdict s t s') :
    s'.Stage t ∧ s'.sys.log = s'.leafCalls t := by
  have hbehind := ht.behind t htrapped
  rw [← System.instruction_of_trapped htrapped] at hbehind
  cases h.stage hloop (System.alive_of_trapped htrapped) with
  | idle hra huntrapped => exact absurd htrapped huntrapped
  | inCall f rest hframes hleaf huntrapped => exact absurd htrapped huntrapped
  | returned api x htrapped hfinished hleaf hlast hrip hnone hnested hbp hx =>
      cases hverdict with
      | hold htracked hlog hwhy =>
          rcases hwhy with ⟨-, hne⟩ | hundefined
          · exact absurd hlast hne
          · cases hloop'.symm.trans hundefined
      | atReturn api' hlast' hbp' hrip' htracked hlog =>
          obtain rfl := Option.some.inj (hbp.symm.trans hbp')
          refine ⟨.idle (congrArg Tracked.returnAddress htracked) huntrapped'
            (by rw [hexec]; exact hnested) (fun _ => by rw [hinstruction, hbps, hnone]), ?_⟩
          rw [hlog, h.logged hloop, leafCalls_append hexec (x := x)]
          · rw [hleaf, ← hx]
            rfl
          · exact hfinished
      | atEntry api' hlast' hne => exact absurd hrip hne
      | elsewhere hlast' hne => exact absurd hrip hne
  | atEntry api f rest htrapped hun hframes hleaf hentry hof hlast =>
      cases hverdict with
      | hold htracked hlog hwhy =>
          rcases hwhy with ⟨hra, hne⟩ | hundefined
          · exact absurd (hlast hra).1 hne
          · cases hloop'.symm.trans hundefined
      | atReturn api' hlast' hbp hrip htracked hlog =>
          -- the entry would be the return address of the surrounding call
          have hra : s.sys.monitor.returnAddress ≠ 0 := by
            rw [← hrip]
            exact ht.rip_ne_zero hbehind
          rw [hrip, (hlast hra).2] at hentry
          cases hentry
      | atEntry api' hlast' hne hentry' htracked hlog =>
          obtain rfl := Option.some.inj (hentry.symm.trans hentry')
          obtain ⟨code, htracked⟩ := htracked
          refine ⟨.inCall f rest (by rw [hexec]; exact hframes) hleaf huntrapped' ?_
            (congrArg Tracked.lastThread htracked) (htracked ▸ hof.describes t code)
            fun _ => ?_, ?_⟩
          · rw [show s'.sys.monitor.returnAddress = _ from
              congrArg Tracked.returnAddress htracked]
            exact hbehind.entry (by rw [hentry]; nofun)
          · rw [hinstruction, hbps, hof.api]
            exact eq_of_breakpointByEntry hentry
          · rw [hlog, h.logged hloop]
            refine (leafCalls_congr hexec ?_).symm
            rw [Execution.processed, Execution.processed, hun]
      | elsewhere hlast' hne hnone => cases hentry.symm.trans hnone

/-- **A move leads from stage to stage**, and the handler calls follow the
returns. -/
theorem NestInv.stage_step (h : NestInv t s) (ht : TextInv orig s.sys) (hok : s.NestMove m)
    (heffect : Effect s m s') (hloop' : s'.sys.phase = .loop) :
    (s'.sys.Alive t → s'.Stage t) ∧ s'.sys.log = s'.leafCalls t := by
  have hloop := heffect.loop hloop'
  cases heffect with
  | run u ctx hm hrun htried hbyte hsys hexec =>
      obtain rfl := h.eq_of_running hrun
      subst hm
      obtain ⟨hstage, hlog⟩ := h.run_step ht hloop hok hrun hbyte hsys
        (by rw [hexec, Function.update_self])
      exact ⟨fun _ => hstage, hlog⟩
  | trap u ctx hm hrun htried hbyte hmonitor hlog hphase htrapped hinstruction hothers hexec =>
      obtain rfl := h.eq_of_running hrun
      subst hm
      have hexec : s'.exec u = _ := (congrFun hexec u).trans (Function.update_self ..)
      refine ⟨fun _ => h.trap_step ht hloop hrun (hok.1.1 hbyte) hmonitor htrapped hinstruction
        hexec, ?_⟩
      rw [hlog, h.logged hloop]
      exact (leafCalls_congr hexec
        ((Execution.processed_arrive rfl).trans (h.processed_of_running hrun).symm)).symm
  | rerun u hm hrun htried hbyte hsys hexec =>
      obtain rfl := h.eq_of_running hrun
      have hexec : s'.exec u = _ := (congrFun hexec u).trans (Function.update_self ..)
      refine ⟨fun _ => h.rerun_step hloop hrun hsys hexec, ?_⟩
      rw [hsys, h.logged hloop]
      exact (leafCalls_congr hexec rfl).symm
  | retrap u hm hrun htried hbyte hmonitor hlog hphase htrapped hinstruction hothers hexec =>
      obtain rfl := h.eq_of_running hrun
      subst hm
      refine absurd ?_ (h.not_armed_retry ht hloop hrun htried)
      rw [System.instruction_of_not_trapped (System.not_trapped_of_running hrun)] at hbyte ⊢
      exact hok.1.1 hbyte
  | quiet htracked hbps hlog hphase hsame hexec =>
      constructor
      · intro halive
        exact h.stage_congr (h.stage hloop ((hsame t).alive halive)) htracked hbps (hsame t) halive
          (by rw [hexec])
      · rw [hlog, h.logged hloop]
        exact (leafCalls_congr (by rw [hexec]) rfl).symm
  | process u hwait htrapped hbps halive huntrapped hinstruction hothers hexec hverdict =>
      obtain rfl := h.eq_of_trapped htrapped
      obtain ⟨hstage, hlog⟩ := h.process_step ht.toTraceInv hloop hloop' htrapped hbps huntrapped
        hinstruction (by rw [hexec, Function.update_self]) hverdict
      exact ⟨fun _ => hstage, hlog⟩

theorem nestInv_step (h : NestInv t s) (ht : TextInv orig s.sys) (hok : s.NestMove m)
    (hstep : s.step m = some s') : NestInv t s' := by
  have heffect := step_effect h.fresh hok.1.1 hstep
  exact
    { fresh := fresh_step h.fresh hok.1.1 hstep
      alone := h.alone_step hok hstep
      still := h.still_step ht.toTraceInv hstep
      untried := (heffect.thread t).untried h.untried
      unprocessed := (heffect.thread t).unprocessed h.unprocessed
      returns := h.returns_step hok heffect
      outer := h.outer_step heffect
      stage := fun hloop => (h.stage_step ht hok heffect hloop).1
      logged := fun hloop => (h.stage_step ht hok heffect hloop).2 }

end Step

theorem nestInv_begin {symtabByName : Api → Word} {text : Bytes 64} {targetPid : Pid}
    {limits : Limits} {others : Pid → Bool} {s₀ : System}
    (hbegin : System.begin symtabByName text targetPid limits others = some s₀)
    (halone : ∀ t, others t = true → t = targetPid) : NestInv targetPid (.start s₀) := by
  have hpending := System.not_pending_begin hbegin
  obtain ⟨init, -, rfl⟩ := Option.map_eq_some_iff.mp hbegin
  exact
    { fresh := fun _ _ => rfl
      alone := fun u hne => by
        have hother : others u = false := by
          rw [Bool.eq_false_iff]
          exact fun h => hne (halone u h)
        simp [start, System.status, hne, hother]
      still := fun hrun => by
        simp [start, System.status] at hrun
      untried := fun _ => hpending _ _
      unprocessed := nofun
      returns := nofun
      outer := nofun
      stage := fun _ _ => .idle rfl (hpending _ _) nofun nofun
      logged := fun _ => rfl }

theorem nestInv_reachable {symtabByName : Api → Word} {text : Bytes 64} {targetPid : Pid}
    {lim : Limits} {others : Pid → Bool} {s₀ : System} {s : Traced}
    (hbegin : System.begin symtabByName text targetPid lim others = some s₀)
    (halone : ∀ t, others t = true → t = targetPid)
    (hapart : ∀ api other, api ≠ other →
      ¬ Bytes.Within 8 (symtabByName api) (symtabByName other))
    (hs : Reachable Traced.step Traced.NestMove (.start s₀) s) : s.NestInv targetPid := by
  refine Reachable.invariant_of (NestInv targetPid) hs
    (fun h => (textInv_reachable hbegin hapart (reachable_sys (fun _ _ hok => hok.1) h)).1)
    (nestInv_begin hbegin halone) ?_
  intro s m s' ht _ h hok hstep
  exact nestInv_step h ht hok hstep

end Traced

/-- `calloc` calls `malloc` inside, and `free` is called afterwards. -/
def callInside : List Move :=
  issueMoves 5 ++ [.fetch 1 (sampleContext 0x1300 0x2000 0 2), .wait 1 sampleOutside] ++
    issueMoves 4 ++
    [.retry 1, .fetch 1 (sampleContext 0x1000 0x1310 0 16), .wait 1 sampleOutside] ++
    issueMoves 6 ++
    [.retry 1, .fetch 1 (sampleContext 0x1310 0 0x5000 0), .wait 1 sampleOutside] ++
    issueMoves 4 ++
    [.retry 1, .fetch 1 (sampleContext 0x2000 0 0x5000 0),
      .fetch 1 (sampleContext 0x1100 0x2010 0 0x5000), .wait 1 sampleOutside] ++
    issueMoves 4 ++
    [.retry 1, .fetch 1 (sampleContext 0x2010 0 0 0), .wait 1 sampleOutside]

/-- The sample target with the entry of `free` four bytes after the one of
`malloc`. -/
def nearSymtab : Api → Word
  | .free => 0x1004
  | api => sampleSymtab api

/-- `malloc` is called, then `free`. Recovering the entry of `malloc` has removed
the trap byte of `free`. -/
def nearCalls : List Move :=
  issueMoves 5 ++ [.fetch 1 (sampleContext 0x1000 0x2000 0 16), .wait 1 sampleOutside] ++
    issueMoves 4 ++ [.retry 1, .fetch 1 (sampleContext 0x2000 0 0x5000 0), .wait 1 sampleOutside] ++
    issueMoves 4 ++
    [.retry 1, .fetch 1 (sampleContext 0x1004 0x2010 0 0x5000), .fetch 1 (sampleContext 0x2010 0 0 0)]

theorem leafCalls_ne_of_run {symtabByName : Api → Word} {allowed : Traced → Move → Prop}
    [∀ s m, Decidable (allowed s m)] (moves : List Move)
    (hrun : ((System.begin symtabByName sampleText 1 defaultLimits fun _ => false).bind fun s₀ =>
      (feed Traced.step allowed (.start s₀) moves).map fun s =>
        (decide (s.sys.phase = .loop), decide (s.sys.log = s.leafCalls 1))) =
      some (true, false)) :
    ∃ s₀ s, System.begin symtabByName sampleText 1 defaultLimits (fun _ => false) = some s₀ ∧
      Reachable Traced.step allowed (.start s₀) s ∧ s.sys.phase = .loop ∧
      s.sys.log ≠ s.leafCalls 1 := by
  obtain ⟨s₀, s, hbegin, hreach, hs⟩ := Reachable.exists_of_run hrun
  simp only [Prod.mk.injEq, decide_eq_true_eq, decide_eq_false_iff_not] at hs
  exact ⟨s₀, s, hbegin, hreach, hs⟩

end Memleax
