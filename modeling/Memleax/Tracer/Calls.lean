import Memleax.Tracer.Standing

/-!
# The calls that the threads make

What the target really does, beside what memleax sees of it: every thread has a
record of the hooked calls it is in and of those it has completed. A thread
enters a hooked function when it fetches the instruction at its entry, and
returns from its innermost call when it fetches the instruction at the return
address of that call. An instruction whose fetch has trapped is fetched again
when the thread runs on, which is no second call.

The records are bookkeeping: they restrict what the system does in no way other
than this, so that all that is known about the breakpoints carries over
(`Traced.reachable_sys`).
-/

namespace Memleax

open Framework

/-- A call in progress. -/
structure Frame where
  api : Api
  arg1 : Word
  arg2 : Word
  returnAddress : Word
  /-- entered after `breakpoint_init` -/
  late : Bool
  /-- contains a hooked call -/
  nested : Bool := false
deriving DecidableEq, Repr

/-- A completed call, with the handler call it deserves. -/
structure Finished where
  invocation : Invocation
  late : Bool
  nested : Bool
deriving DecidableEq, Repr

/-- The record of one thread. -/
structure Execution where
  /-- completed calls, in order of return -/
  finished : List Finished := []
  /-- calls in progress, the innermost one first -/
  frames : List Frame := []
  /-- the current instruction has been fetched and has trapped -/
  tried : Bool := false
  /-- the stop at the last return has not been processed -/
  unprocessed : Bool := false
deriving DecidableEq, Repr

/-- The completed calls whose stops have all been processed. -/
def Execution.processed (e : Execution) : List Finished :=
  if e.unprocessed then e.finished.dropLast else e.finished

def Frame.finish (f : Frame) (t : Pid) (ctx : Context) : Finished where
  invocation := ⟨t, f.api, callReturnValue ctx, f.arg1, f.arg2⟩
  late := f.late
  nested := f.nested

/-- The instruction at `ctx` is the return of the innermost call. -/
def Execution.Returns (e : Execution) (ctx : Context) : Prop :=
  e.frames.head?.map Frame.returnAddress = some ctx.regs.rip

instance (e : Execution) (ctx : Context) : Decidable (e.Returns ctx) :=
  inferInstanceAs (Decidable (_ = _))

def Execution.leave (e : Execution) (t : Pid) (ctx : Context) : Execution :=
  match e.frames with
  | [] => e
  | f :: rest =>
      if f.returnAddress = ctx.regs.rip then
        { e with finished := e.finished ++ [f.finish t ctx], frames := rest }
      else e

/-- The call that surrounds a new one contains a hooked call. -/
def markNested : List Frame → List Frame
  | [] => []
  | f :: rest => { f with nested := true } :: rest

def Execution.enter (e : Execution) (bps : Breakpoints) (late : Bool) (ctx : Context) :
    Execution :=
  match breakpointByEntry bps ctx.regs.rip with
  | none => e
  | some api =>
      { e with
        frames := ⟨api, callArg1 ctx, callArg2 ctx, callReturnAddress ctx, late, false⟩ ::
          markNested e.frames }

/-- A thread reaches a new instruction. -/
def Execution.arrive (e : Execution) (bps : Breakpoints) (late : Bool) (t : Pid) (ctx : Context)
    (traps : Bool) : Execution :=
  { (e.leave t ctx).enter bps late ctx with
    tried := traps
    unprocessed := traps && decide (e.Returns ctx) }

structure Traced where
  sys : System
  exec : Pid → Execution

/-- No hooked call has been made. -/
def Traced.start (s₀ : System) : Traced := ⟨s₀, fun _ => {}⟩

inductive Move where
  /-- a thread goes on to a new instruction -/
  | fetch (t : Pid) (ctx : Context)
  /-- a thread fetches again the instruction that has trapped -/
  | retry (t : Pid)
  | signal (t : Pid) (signum : Signo)
  | clone (t child : Pid) (ctx : Context)
  | exit (t : Pid)
  | interrupt (signum : Signo)
  | wait (t : Pid) (out : Outside)
  | waitFails (eintr : Bool)
  | issue

/-- What a move is to the system. A signal finds a thread where it is. -/
def Move.label (s : System) : Move → Label
  | .fetch t ctx => .fetch t ctx
  | .retry t => .fetch t (s.context t)
  | .signal t signum => .signal t signum (s.context t)
  | .clone t child ctx => .clone t child ctx
  | .exit t => .exit t
  | .interrupt signum => .interrupt signum
  | .wait t out => .wait t out
  | .waitFails eintr => .waitFails eintr
  | .issue => .issue

/-- `breakpoint_init` is over. -/
def System.initialized (s : System) : Bool :=
  s.queue.all fun r => match r with
    | .write ⟨.initEntry _, _, _⟩ => false
    | _ => true

namespace Traced

def traps (s : Traced) (ctx : Context) : Bool := decide (s.sys.code.text ctx.regs.rip = trapByte)

/-- What a move does to the records. -/
def record (s : Traced) : Move → Pid → Execution
  | .fetch t ctx => Function.update s.exec t
      ((s.exec t).arrive s.sys.monitor.breakpoints s.sys.initialized t ctx (s.traps ctx))
  | .retry t => Function.update s.exec t
      { s.exec t with tried := s.traps (s.sys.context t) }
  | .wait t _ =>
      if s.sys.status t = .pending (.stop .sigtrap false) then
        Function.update s.exec t { s.exec t with unprocessed := false }
      else s.exec
  | _ => s.exec

/-- A thread whose instruction has trapped fetches it again before it does
anything else. -/
def Consistent (s : Traced) : Move → Prop
  | .fetch t _ => (s.exec t).tried = false
  | .retry t => (s.exec t).tried = true
  | .clone t _ _ => (s.exec t).tried = false
  | _ => True

instance (s : Traced) : (m : Move) → Decidable (s.Consistent m)
  | .fetch _ _ | .retry _ | .clone _ _ _ => inferInstanceAs (Decidable (_ = _))
  | .signal _ _ | .exit _ | .interrupt _ | .wait _ _ | .waitFails _ | .issue =>
      inferInstanceAs (Decidable True)

def step (s : Traced) (m : Move) : Option Traced :=
  if s.Consistent m then (s.sys.step (m.label s.sys)).map fun sys => ⟨sys, s.record m⟩ else none

theorem step_eq_some {s s' : Traced} {m : Move} (h : s.step m = some s') :
    s.Consistent m ∧ s.sys.step (m.label s.sys) = some s'.sys ∧ s'.exec = s.record m := by
  unfold step at h
  split at h
  · rename_i hc
    obtain ⟨sys, hsys, rfl⟩ := Option.map_eq_some_iff.mp h
    exact ⟨hc, hsys, rfl⟩
  · cases h

/-- The records do not lead the system anywhere else. -/
theorem reachable_sys {allowed : Traced → Move → Prop}
    (hallowed : ∀ s m, allowed s m → s.sys.Traces (m.label s.sys)) {s₀ s : Traced}
    (h : Reachable step allowed s₀ s) : Reachable System.step System.Traces s₀.sys s.sys :=
  h.project Traced.sys fun s m _ hok hstep =>
    ⟨m.label s.sys, hallowed s m hok, (step_eq_some hstep).2.1⟩

end Traced

/-! ## One instruction -/

theorem Execution.processed_sublist (e : Execution) : e.processed.Sublist e.finished := by
  unfold Execution.processed
  split
  · exact List.dropLast_sublist _
  · exact List.Sublist.refl _

section Arrive

variable {e : Execution} {bps : Breakpoints} {late traps : Bool} {t : Pid} {ctx : Context}

@[simp] theorem Execution.enter_finished :
    (e.enter bps late ctx).finished = e.finished := by
  unfold Execution.enter
  split <;> rfl

theorem Execution.leave_of_not_returns (h : ¬ e.Returns ctx) : e.leave t ctx = e := by
  unfold Execution.leave
  split
  · rfl
  · rename_i f rest hframes
    rw [if_neg]
    intro heq
    exact h (by rw [Execution.Returns, hframes, List.head?_cons, Option.map_some, heq])

/-- At the return of the innermost call. -/
theorem Execution.leave_of_returns (h : e.Returns ctx) :
    ∃ f rest, e.frames = f :: rest ∧ f.returnAddress = ctx.regs.rip ∧
      e.leave t ctx =
        { e with finished := e.finished ++ [f.finish t ctx], frames := rest } := by
  unfold Execution.Returns at h
  cases hframes : e.frames with
  | nil =>
      rw [hframes] at h
      cases h
  | cons f rest =>
      rw [hframes, List.head?_cons, Option.map_some] at h
      have hra := Option.some.inj h
      refine ⟨f, rest, rfl, hra, ?_⟩
      simp only [Execution.leave, hframes]
      rw [if_pos hra]

theorem Execution.mem_leave {f : Frame} (h : f ∈ (e.leave t ctx).frames) : f ∈ e.frames := by
  by_cases hret : e.Returns ctx
  · obtain ⟨g, rest, hframes, -, hleave⟩ := Execution.leave_of_returns (t := t) hret
    rw [hleave] at h
    rw [hframes]
    exact List.mem_cons_of_mem _ h
  · rwa [Execution.leave_of_not_returns hret] at h

theorem Execution.enter_of_none (h : breakpointByEntry bps ctx.regs.rip = none) :
    e.enter bps late ctx = e := by
  simp only [Execution.enter, h]

theorem Execution.enter_of_some {api : Api} (h : breakpointByEntry bps ctx.regs.rip = some api) :
    (e.enter bps late ctx).frames =
      ⟨api, callArg1 ctx, callArg2 ctx, callReturnAddress ctx, late, false⟩ ::
        markNested e.frames := by
  simp only [Execution.enter, h]

/-- A new instruction completes one call at most, and its stop is open. -/
theorem Execution.processed_arrive (htrap : traps = true) :
    (e.arrive bps late t ctx traps).processed = e.finished := by
  subst htrap
  have hfinished : (e.arrive bps late t ctx true).finished = (e.leave t ctx).finished :=
    Execution.enter_finished
  by_cases hret : e.Returns ctx
  · obtain ⟨f, rest, -, -, hleave⟩ := Execution.leave_of_returns (t := t) hret
    have hun : (e.arrive bps late t ctx true).unprocessed = true := by
      simp [Execution.arrive, hret]
    rw [Execution.processed, hun, if_pos rfl, hfinished, hleave]
    exact List.dropLast_concat
  · have hun : (e.arrive bps late t ctx true).unprocessed = false := by
      simp [Execution.arrive, hret]
    rw [Execution.processed, hun, if_neg (by nofun), hfinished, leave_of_not_returns hret]

theorem Execution.finished_sublist_arrive :
    e.finished.Sublist (e.arrive bps late t ctx traps).processed := by
  cases htrap : traps with
  | true => rw [Execution.processed_arrive rfl]
  | false =>
      have hfinished : (e.arrive bps late t ctx false).processed = (e.leave t ctx).finished :=
        Execution.enter_finished
      rw [hfinished]
      by_cases hret : e.Returns ctx
      · obtain ⟨f, rest, -, -, hleave⟩ := Execution.leave_of_returns (t := t) hret
        rw [hleave]
        exact List.sublist_append_left _ _
      · rw [leave_of_not_returns hret]

theorem Execution.returns_iff {f : Frame} {rest : List Frame} (hframes : e.frames = f :: rest) :
    e.Returns ctx ↔ ctx.regs.rip = f.returnAddress := by
  rw [Execution.Returns, hframes, List.head?_cons, Option.map_some, Option.some_inj, eq_comm]

theorem Execution.arrive_other (hret : ¬ e.Returns ctx)
    (hnone : breakpointByEntry bps ctx.regs.rip = none) :
    e.arrive bps late t ctx traps = { e with tried := traps, unprocessed := false } := by
  rw [Execution.arrive, Execution.leave_of_not_returns hret, Execution.enter_of_none hnone]
  simp [hret]

theorem Execution.arrive_return {f : Frame} {rest : List Frame} (hframes : e.frames = f :: rest)
    (hrip : ctx.regs.rip = f.returnAddress) (bps : Breakpoints) (late : Bool) (t : Pid)
    (traps : Bool) :
    (e.arrive bps late t ctx traps).finished = e.finished ++ [f.finish t ctx] ∧
      (e.arrive bps late t ctx traps).unprocessed = traps := by
  have hret := (Execution.returns_iff hframes).mpr hrip
  obtain ⟨g, rest', hg, -, hleave⟩ := Execution.leave_of_returns (t := t) hret
  obtain ⟨rfl, -⟩ := List.cons.inj (hframes.symm.trans hg)
  refine ⟨Execution.enter_finished.trans (by rw [hleave]), ?_⟩
  simp [Execution.arrive, hret]

end Arrive

/-! ## What a move does to the threads -/

namespace System

/-- The thread has a trap that `waitpid` has not reported yet. -/
def Trapped (s : System) (t : Pid) : Prop := s.status t = .pending (.stop .sigtrap false)

/-- The thread has not ended. -/
def Alive (s : System) (t : Pid) : Prop := s.status t ≠ .pending .exit ∧ s.status t ≠ .exited

instance (s : System) (t : Pid) : Decidable (s.Trapped t) := inferInstanceAs (Decidable (_ = _))

/-- The instruction at which a thread has stopped. -/
def instruction (s : System) (t : Pid) : Context :=
  if s.Trapped t then pcUnwind (s.context t) else s.context t

theorem instruction_of_trapped {s : System} {t : Pid} (h : s.Trapped t) :
    s.instruction t = pcUnwind (s.context t) := if_pos h

theorem instruction_of_not_trapped {s : System} {t : Pid} (h : ¬ s.Trapped t) :
    s.instruction t = s.context t := if_neg h

theorem not_trapped_of_running {s : System} {t : Pid} (h : s.status t = .running) :
    ¬ s.Trapped t := by
  rw [Trapped, h]
  nofun

theorem alive_of_running {s : System} {t : Pid} (h : s.status t = .running) : s.Alive t := by
  rw [Alive, h]
  exact ⟨nofun, nofun⟩

theorem alive_of_trapped {s : System} {t : Pid} (h : s.Trapped t) : s.Alive t := by
  rw [Alive, show s.status t = _ from h]
  exact ⟨nofun, nofun⟩

end System

namespace Traced

/-- A thread that has neither moved nor been reported, although it may have been
stopped, resumed or killed. -/
structure Same (s s' : Traced) (u : Pid) : Prop where
  alive : s'.sys.Alive u → s.sys.Alive u
  trapped : s'.sys.Alive u → (s'.sys.Trapped u ↔ s.sys.Trapped u)
  instruction : s'.sys.Alive u → (s.exec u).tried = true →
    s'.sys.instruction u = s.sys.instruction u

theorem Same.refl_of_eq {s s' : Traced} {u : Pid} (hstatus : s'.sys.status u = s.sys.status u)
    (hcontext : s'.sys.context u = s.sys.context u) : Same s s' u := by
  have htrapped : s'.sys.Trapped u ↔ s.sys.Trapped u := by
    rw [System.Trapped, hstatus]
    rfl
  refine ⟨?_, fun _ => htrapped, ?_⟩
  · intro h
    rw [System.Alive, hstatus] at h
    exact h
  · intro _ _
    rw [System.instruction, System.instruction, hcontext]
    simp only [htrapped]

/-- What the loop makes of a trap. -/
inductive Verdict (s : Traced) (t : Pid) (s' : Traced) : Prop
  | hold (htracked : s'.sys.monitor.tracked = s.sys.monitor.tracked) (hlog : s'.sys.log = s.sys.log)
      (hwhy : (s.sys.monitor.returnAddress ≠ 0 ∧ s.sys.monitor.lastThread ≠ t) ∨
        s'.sys.phase = .undefined)
  | atReturn (api : Api)
      (hlast : s.sys.monitor.returnAddress ≠ 0 → s.sys.monitor.lastThread = t)
      (hbp : s.sys.monitor.bp = some api)
      (hrip : (s.sys.instruction t).regs.rip = s.sys.monitor.returnAddress)
      (htracked : s'.sys.monitor.tracked = { s.sys.monitor.tracked with returnAddress := 0 })
      (hlog : s'.sys.log = s.sys.log ++ [⟨t, api, callReturnValue (s.sys.instruction t),
        s.sys.monitor.arg1, s.sys.monitor.arg2⟩])
  | atEntry (api : Api)
      (hlast : s.sys.monitor.returnAddress ≠ 0 → s.sys.monitor.lastThread = t)
      (hrip : (s.sys.instruction t).regs.rip ≠ s.sys.monitor.returnAddress)
      (hentry : breakpointByEntry s.sys.monitor.breakpoints (s.sys.instruction t).regs.rip =
        some api)
      (htracked : ∃ code, s'.sys.monitor.tracked =
        ⟨some api, callReturnAddress (s.sys.instruction t), code,
          callArg1 (s.sys.instruction t), callArg2 (s.sys.instruction t), t⟩)
      (hlog : s'.sys.log = s.sys.log)
  | elsewhere (hlast : s.sys.monitor.returnAddress ≠ 0 → s.sys.monitor.lastThread = t)
      (hrip : (s.sys.instruction t).regs.rip ≠ s.sys.monitor.returnAddress)
      (hentry : breakpointByEntry s.sys.monitor.breakpoints (s.sys.instruction t).regs.rip = none)
      (htracked : s'.sys.monitor.tracked = { s.sys.monitor.tracked with bp := none })
      (hlog : s'.sys.log = s.sys.log)

/-- **What a move does to the records, the tracked call and the threads.** -/
inductive Effect (s : Traced) (m : Move) (s' : Traced) : Prop
  | run (t : Pid) (ctx : Context) (hm : m = .fetch t ctx) (hrun : s.sys.status t = .running)
      (htried : (s.exec t).tried = false) (hbyte : s.sys.code.text ctx.regs.rip ≠ trapByte)
      (hsys : s'.sys = s.sys)
      (hexec : s'.exec = Function.update s.exec t ((s.exec t).arrive s.sys.monitor.breakpoints
        s.sys.initialized t ctx false))
  | trap (t : Pid) (ctx : Context) (hm : m = .fetch t ctx) (hrun : s.sys.status t = .running)
      (htried : (s.exec t).tried = false) (hbyte : s.sys.code.text ctx.regs.rip = trapByte)
      (hmonitor : s'.sys.monitor = s.sys.monitor) (hlog : s'.sys.log = s.sys.log)
      (hphase : s'.sys.phase = s.sys.phase) (htrapped : s'.sys.Trapped t)
      (hinstruction : s'.sys.instruction t = ctx) (hothers : ∀ u ≠ t, Same s s' u)
      (hexec : s'.exec = Function.update s.exec t ((s.exec t).arrive s.sys.monitor.breakpoints
        s.sys.initialized t ctx true))
  | rerun (t : Pid) (hm : m = .retry t) (hrun : s.sys.status t = .running)
      (htried : (s.exec t).tried = true)
      (hbyte : s.sys.code.text (s.sys.instruction t).regs.rip ≠ trapByte) (hsys : s'.sys = s.sys)
      (hexec : s'.exec = Function.update s.exec t { s.exec t with tried := false })
  | retrap (t : Pid) (hm : m = .retry t) (hrun : s.sys.status t = .running)
      (htried : (s.exec t).tried = true)
      (hbyte : s.sys.code.text (s.sys.instruction t).regs.rip = trapByte)
      (hmonitor : s'.sys.monitor = s.sys.monitor) (hlog : s'.sys.log = s.sys.log)
      (hphase : s'.sys.phase = s.sys.phase) (htrapped : s'.sys.Trapped t)
      (hinstruction : s'.sys.instruction t = s.sys.instruction t)
      (hothers : ∀ u ≠ t, Same s s' u) (hexec : s'.exec = s.exec)
  | quiet (htracked : s'.sys.monitor.tracked = s.sys.monitor.tracked)
      (hbps : s'.sys.monitor.breakpoints = s.sys.monitor.breakpoints)
      (hlog : s'.sys.log = s.sys.log)
      (hphase : s'.sys.phase = .loop → s.sys.phase = .loop)
      (hsame : ∀ u, Same s s' u) (hexec : s'.exec = s.exec)
  | process (t : Pid) (hwait : s.sys.AtWaitpid) (htrapped : s.sys.Trapped t)
      (hbps : s'.sys.monitor.breakpoints = s.sys.monitor.breakpoints)
      (halive : s'.sys.Alive t) (huntrapped : ¬ s'.sys.Trapped t)
      (hinstruction : s'.sys.instruction t = s.sys.instruction t)
      (hothers : ∀ u ≠ t, Same s s' u)
      (hexec : s'.exec = Function.update s.exec t { s.exec t with unprocessed := false })
      (hverdict : Verdict s t s')

section StepEffect

variable {s s' : Traced}

/-- A step of one thread leaves the others where they are. -/
theorem same_of_setThread {t : Pid} {thread : Thread} (hsys : s'.sys = s.sys.setThread t thread)
    (u : Pid) (hne : u ≠ t) : Same s s' u := by
  refine .refl_of_eq ?_ ?_
  · rw [hsys, System.status_setThread_of_ne _ _ hne]
  · rw [hsys, System.context_setThread_of_ne _ _ hne]

theorem trapped_setThread {t : Pid} {ctx : Context}
    (hsys : s'.sys = s.sys.setThread t ⟨.pending (.stop .sigtrap false), ctx.trapped⟩) :
    s'.sys.Trapped t ∧ s'.sys.instruction t = ctx := by
  have htrapped : s'.sys.Trapped t := by
    rw [System.Trapped, hsys, System.status_setThread_self]
  refine ⟨htrapped, ?_⟩
  rw [System.instruction_of_trapped htrapped, hsys, System.context_setThread_self, pcUnwind_trapped]

/-- A thread that was not trapped changes its status, and its registers at most
when its instruction has not trapped. -/
theorem same_of_status {u : Pid} (htrapped : ¬ s.sys.Trapped u) (halive : s.sys.Alive u)
    (huntrapped : ¬ s'.sys.Trapped u)
    (hcontext : (s.exec u).tried = true → s'.sys.context u = s.sys.context u) : Same s s' u := by
  refine ⟨fun _ => halive, fun _ => iff_of_false huntrapped htrapped, ?_⟩
  intro _ htried
  rw [System.instruction_of_not_trapped huntrapped, System.instruction_of_not_trapped htrapped]
  exact hcontext htried

theorem same_of_not_alive {u : Pid} (h : ¬ s'.sys.Alive u) : Same s s' u :=
  ⟨fun h' => absurd h' h, fun h' => absurd h' h, fun h' => absurd h' h⟩

/-- A step of the threads that is not recorded. -/
theorem effect_threads {m : Move} {threads : Pid → Thread}
    (hsys : s'.sys = { s.sys with threads := threads }) (hsame : ∀ u, Same s s' u)
    (hexec : s'.exec = s.exec) : Effect s m s' := by
  refine .quiet ?_ ?_ ?_ ?_ hsame hexec
  · rw [hsys]
  · rw [hsys]
  · rw [hsys]
  · rw [hsys]
    exact id

theorem effect_setThread {m : Move} {t : Pid} {thread : Thread}
    (hsys : s'.sys = s.sys.setThread t thread)
    (hsame : Same s s' t) (hexec : s'.exec = s.exec) : Effect s m s' := by
  refine effect_threads hsys ?_ hexec
  intro u
  by_cases heq : u = t
  · exact heq ▸ hsame
  · exact same_of_setThread hsys u heq

/-- The loop is told of a trap. -/
theorem effect_wait_trap {m : Move} {t : Pid} {out : Outside} (hwait : s.sys.AtWaitpid)
    (htrapped : s.sys.Trapped t) (hsys : s'.sys = s.sys.wait t (.stop .sigtrap false) out)
    (hexec : s'.exec = Function.update s.exec t { s.exec t with unprocessed := false }) :
    Effect s m s' := by
  have hstatus : s'.sys.status t = .stopped := by
    rw [hsys, System.status_wait_self]
    rfl
  have huntrapped : ¬ s'.sys.Trapped t := by
    rw [System.Trapped, hstatus]
    nofun
  have hinstr : s.sys.instruction t = pcUnwind (s.sys.context t) :=
    System.instruction_of_trapped htrapped
  refine .process t hwait htrapped ?_ ?_ huntrapped ?_ ?_ hexec ?_
  · rw [hsys]
    exact (s.sys.monitor.turn_keeps s.sys.code t (s.sys.context t) out _).2
  · rw [System.Alive, hstatus]
    exact ⟨nofun, nofun⟩
  · rw [System.instruction_of_not_trapped huntrapped, hinstr, hsys, System.context_wait_self]
    rfl
  · intro u hne
    refine .refl_of_eq ?_ ?_
    · rw [hsys, System.status_wait_of_ne _ _ _ hne]
    · rw [hsys, System.context_wait_of_ne _ _ _ hne]
  · have hkind := s.sys.monitor.turn_kind s.sys.code t (s.sys.context t) out (.stop .sigtrap false)
    cases hkind with
    | quiet htracked hwrites hinvoked hphase htrap =>
        refine .hold (hsys ▸ htracked) ?_ ((htrap rfl).imp_right fun h => hsys ▸ h)
        rw [hsys]
        show s.sys.log ++ Option.toList _ = _
        rw [hinvoked]
        exact List.append_nil _
    | atReturn writes rest api htrap hlast hrecover hbp hrip hrest hrequests htracked hinvoked
        hphase =>
        refine .atReturn api hlast hbp (hinstr ▸ hrip) (hsys ▸ htracked) ?_
        rw [hsys, hinstr]
        show s.sys.log ++ Option.toList _ = _
        rw [hinvoked]
        rfl
    | atEntry writes rest api htrap hlast hrecover hrip hentry hrest hrequests htracked hinvoked
        hphase =>
        refine .atEntry api hlast (hinstr ▸ hrip) (hinstr ▸ hentry)
          ⟨(writes.foldl Code.write s.sys.code).returnCode s.sys.monitor.breakpoints api
            (callReturnAddress (s.sys.context t)), ?_⟩ ?_
        · rw [hsys, hinstr]
          exact htracked
        · rw [hsys]
          show s.sys.log ++ Option.toList _ = _
          rw [hinvoked]
          exact List.append_nil _
    | elsewhere writes rest htrap hlast hrecover hrip hentry hrest hrequests htracked hinvoked
        hphase =>
        refine .elsewhere hlast (hinstr ▸ hrip) (hinstr ▸ hentry) (hsys ▸ htracked) ?_
        rw [hsys]
        show s.sys.log ++ Option.toList _ = _
        rw [hinvoked]
        exact List.append_nil _

/-- The loop is told of anything else. -/
theorem effect_wait_other {m : Move} {t : Pid} {report : Report} {out : Outside}
    (hwait : s.sys.AtWaitpid) (hpending : s.sys.status t = .pending report)
    (hreport : report ≠ .stop .sigtrap false) (hsys : s'.sys = s.sys.wait t report out)
    (hexec : s'.exec = s.exec) : Effect s m s' := by
  have hkind := s.sys.monitor.turn_kind s.sys.code t (s.sys.context t) out report
  cases hkind with
  | quiet htracked hwrites hinvoked hphase htrap =>
      refine .quiet (hsys ▸ htracked) ?_ ?_ (fun _ => hwait.1) ?_ hexec
      · rw [hsys]
        exact (s.sys.monitor.turn_keeps s.sys.code t (s.sys.context t) out _).2
      · rw [hsys]
        show s.sys.log ++ Option.toList _ = _
        rw [hinvoked]
        exact List.append_nil _
      · intro u
        by_cases heq : u = t
        · subst heq
          have hstatus : s'.sys.status u = if report = .exit then .exited else .stopped := by
            rw [hsys, System.status_wait_self]
          by_cases hexit : report = .exit
          · refine same_of_not_alive fun h => h.2 ?_
            rw [hstatus, if_pos hexit]
          · rw [if_neg hexit] at hstatus
            refine same_of_status ?_ ?_ ?_ ?_
            · rw [System.Trapped, hpending]
              exact fun h => hreport (Status.pending.inj h)
            · rw [System.Alive, hpending]
              exact ⟨fun h => hexit (Status.pending.inj h), nofun⟩
            · rw [System.Trapped, hstatus]
              nofun
            · intro _
              rw [hsys, System.context_wait_self, Report.unwind, if_neg hreport]
        · refine .refl_of_eq ?_ ?_
          · rw [hsys, System.status_wait_of_ne _ _ _ heq]
          · rw [hsys, System.context_wait_of_ne _ _ _ heq]
  | atReturn writes rest api htrap => exact absurd htrap hreport
  | atEntry writes rest api htrap => exact absurd htrap hreport
  | elsewhere writes rest htrap => exact absurd htrap hreport

theorem effect_resume {m : Move} {t : Pid} {queue : List Request}
    (hsys : s'.sys = { s.sys with queue := queue }.resume t) (hexec : s'.exec = s.exec) :
    Effect s m s' := by
  have hsame : ∀ u, Same s s' u := by
    unfold System.resume at hsys
    split at hsys
    · rename_i hstopped
      have hstopped : s.sys.status t = .stopped := hstopped
      intro u
      by_cases heq : u = t
      · subst heq
        refine same_of_status ?_ ?_ ?_ ?_
        · rw [System.Trapped, hstopped]
          decide
        · rw [System.Alive, hstopped]
          decide
        · rw [System.Trapped, hsys, System.status_setThread_self]
          exact fun heq => by cases heq
        · intro _
          rw [hsys, System.context_setThread_self]
          rfl
      · refine .refl_of_eq ?_ ?_
        · rw [hsys, System.status_setThread_of_ne _ _ heq]
          rfl
        · rw [hsys, System.context_setThread_of_ne _ _ heq]
          rfl
    · exact fun u => .refl_of_eq (by rw [hsys]; rfl) (by rw [hsys]; rfl)
  unfold System.resume at hsys
  split at hsys
  · exact .quiet (by rw [hsys]; rfl) (by rw [hsys]; rfl) (by rw [hsys]; rfl)
      (by rw [hsys]; exact id) hsame hexec
  · exact .quiet (by rw [hsys]) (by rw [hsys]) (by rw [hsys]) (by rw [hsys]; exact id) hsame hexec

/-- **What a move does to one thread.** -/
inductive ThreadEffect (s : Traced) (m : Move) (s' : Traced) (u : Pid) : Prop
  | stays (hsame : Same s s' u) (hexec : s'.exec u = s.exec u)
  | runs (ctx : Context) (hm : m = .fetch u ctx) (hrun : s.sys.status u = .running)
      (htried : (s.exec u).tried = false) (hbyte : s.sys.code.text ctx.regs.rip ≠ trapByte)
      (huntrapped : ¬ s'.sys.Trapped u)
      (hexec : s'.exec u = (s.exec u).arrive s.sys.monitor.breakpoints s.sys.initialized u ctx
        false)
  | traps (ctx : Context) (hm : m = .fetch u ctx) (hrun : s.sys.status u = .running)
      (htried : (s.exec u).tried = false) (hbyte : s.sys.code.text ctx.regs.rip = trapByte)
      (htrapped : s'.sys.Trapped u) (hinstruction : s'.sys.instruction u = ctx)
      (hexec : s'.exec u = (s.exec u).arrive s.sys.monitor.breakpoints s.sys.initialized u ctx
        true)
  | reruns (hm : m = .retry u) (hrun : s.sys.status u = .running)
      (htried : (s.exec u).tried = true)
      (hbyte : s.sys.code.text (s.sys.instruction u).regs.rip ≠ trapByte)
      (huntrapped : ¬ s'.sys.Trapped u) (hexec : s'.exec u = { s.exec u with tried := false })
  | retraps (hm : m = .retry u) (hrun : s.sys.status u = .running)
      (htried : (s.exec u).tried = true) (htrapped : s'.sys.Trapped u)
      (hinstruction : s'.sys.instruction u = s.sys.instruction u) (hexec : s'.exec u = s.exec u)
  | processed (htrapped : s.sys.Trapped u) (halive : s'.sys.Alive u)
      (huntrapped : ¬ s'.sys.Trapped u) (hinstruction : s'.sys.instruction u = s.sys.instruction u)
      (hexec : s'.exec u = { s.exec u with unprocessed := false })

theorem Effect.thread {m : Move} (h : Effect s m s') (u : Pid) : ThreadEffect s m s' u := by
  cases h with
  | run t ctx hm hrun htried hbyte hsys hexec =>
      by_cases heq : u = t
      · subst heq
        exact .runs ctx hm hrun htried hbyte (hsys ▸ System.not_trapped_of_running hrun)
          (by rw [hexec, Function.update_self])
      · exact .stays (.refl_of_eq (by rw [hsys]) (by rw [hsys]))
          (by rw [hexec, Function.update_of_ne heq])
  | trap t ctx hm hrun htried hbyte hmonitor hlog hphase htrapped hinstruction hothers hexec =>
      by_cases heq : u = t
      · subst heq
        exact .traps ctx hm hrun htried hbyte htrapped hinstruction
          (by rw [hexec, Function.update_self])
      · exact .stays (hothers u heq) (by rw [hexec, Function.update_of_ne heq])
  | rerun t hm hrun htried hbyte hsys hexec =>
      by_cases heq : u = t
      · subst heq
        exact .reruns hm hrun htried hbyte (hsys ▸ System.not_trapped_of_running hrun)
          (by rw [hexec, Function.update_self])
      · exact .stays (.refl_of_eq (by rw [hsys]) (by rw [hsys]))
          (by rw [hexec, Function.update_of_ne heq])
  | retrap t hm hrun htried hbyte hmonitor hlog hphase htrapped hinstruction hothers hexec =>
      by_cases heq : u = t
      · subst heq
        exact .retraps hm hrun htried htrapped hinstruction (by rw [hexec])
      · exact .stays (hothers u heq) (by rw [hexec])
  | quiet htracked hbps hlog hphase hsame hexec => exact .stays (hsame u) (by rw [hexec])
  | process t hwait htrapped hbps halive huntrapped hinstruction hothers hexec hverdict =>
      by_cases heq : u = t
      · subst heq
        exact .processed htrapped halive huntrapped hinstruction
          (by rw [hexec, Function.update_self])
      · exact .stays (hothers u heq) (by rw [hexec, Function.update_of_ne heq])

theorem Effect.breakpoints {m : Move} (h : Effect s m s') :
    s'.sys.monitor.breakpoints = s.sys.monitor.breakpoints := by
  cases h with
  | run t ctx hm hrun htried hbyte hsys hexec => rw [hsys]
  | trap t ctx hm hrun htried hbyte hmonitor hlog hphase htrapped hinstruction hothers hexec =>
      rw [hmonitor]
  | rerun t hm hrun htried hbyte hsys hexec => rw [hsys]
  | retrap t hm hrun htried hbyte hmonitor hlog hphase htrapped hinstruction hothers hexec =>
      rw [hmonitor]
  | quiet htracked hbps hlog hphase hsame hexec => exact hbps
  | process t hwait htrapped hbps halive huntrapped hinstruction hothers hexec hverdict =>
      exact hbps

theorem Effect.loop {m : Move} (h : Effect s m s') (hloop : s'.sys.phase = .loop) : s.sys.phase = .loop := by
  cases h with
  | run t ctx hm hrun htried hbyte hsys hexec => exact hsys ▸ hloop
  | trap t ctx hm hrun htried hbyte hmonitor hlog hphase => exact hphase ▸ hloop
  | rerun t hm hrun htried hbyte hsys hexec => exact hsys ▸ hloop
  | retrap t hm hrun htried hbyte hmonitor hlog hphase => exact hphase ▸ hloop
  | quiet htracked hbps hlog hphase => exact hphase hloop
  | process t hwait => exact hwait.1

theorem ThreadEffect.processed_sublist {m : Move} {u : Pid} (h : ThreadEffect s m s' u) :
    (s.exec u).processed.Sublist (s'.exec u).processed := by
  cases h with
  | stays hsame hexec => rw [hexec]
  | runs ctx hm hrun htried hbyte huntrapped hexec =>
      rw [hexec]
      exact (Execution.processed_sublist _).trans Execution.finished_sublist_arrive
  | traps ctx hm hrun htried hbyte htrapped hinstruction hexec =>
      rw [hexec]
      exact (Execution.processed_sublist _).trans Execution.finished_sublist_arrive
  | reruns hm hrun htried hbyte huntrapped hexec =>
      rw [hexec]
      exact List.Sublist.refl _
  | retraps hm hrun htried htrapped hinstruction hexec => rw [hexec]
  | processed htrapped halive huntrapped hinstruction hexec =>
      rw [hexec]
      exact Execution.processed_sublist _

/-- An instruction that has not trapped leaves no trap pending. -/
theorem ThreadEffect.untried {m : Move} {u : Pid} (h : ThreadEffect s m s' u)
    (hs : (s.exec u).tried = false → ¬ s.sys.Trapped u) (htried : (s'.exec u).tried = false) :
    ¬ s'.sys.Trapped u := by
  cases h with
  | stays hsame hexec =>
      intro htrapped
      rw [hexec] at htried
      exact hs htried ((hsame.trapped (System.alive_of_trapped htrapped)).mp htrapped)
  | runs ctx hm hrun htried' hbyte huntrapped hexec => exact huntrapped
  | traps ctx hm hrun htried' hbyte htrapped hinstruction hexec =>
      rw [hexec] at htried
      cases htried
  | reruns hm hrun htried' hbyte huntrapped hexec => exact huntrapped
  | retraps hm hrun htried' htrapped hinstruction hexec =>
      rw [hexec, htried'] at htried
      cases htried
  | processed htrapped halive huntrapped hinstruction hexec => exact huntrapped

/-- A return that has not been processed is one with a pending trap. -/
theorem ThreadEffect.unprocessed {m : Move} {u : Pid} (h : ThreadEffect s m s' u)
    (hs : (s.exec u).unprocessed = true → s.sys.Alive u → s.sys.Trapped u)
    (hun : (s'.exec u).unprocessed = true) (halive : s'.sys.Alive u) : s'.sys.Trapped u := by
  cases h with
  | stays hsame hexec =>
      exact (hsame.trapped halive).mpr (hs (hexec ▸ hun) (hsame.alive halive))
  | runs ctx hm hrun htried hbyte huntrapped hexec =>
      rw [hexec] at hun
      cases hun
  | traps ctx hm hrun htried hbyte htrapped hinstruction hexec => exact htrapped
  | reruns hm hrun htried hbyte huntrapped hexec =>
      rw [hexec] at hun
      exact absurd (hs hun (System.alive_of_running hrun)) (System.not_trapped_of_running hrun)
  | retraps hm hrun htried htrapped hinstruction hexec => exact htrapped
  | processed htrapped halive' huntrapped hinstruction hexec =>
      rw [hexec] at hun
      cases hun

/-- A thread that has not been created yet has an empty record. -/
def Fresh (s : Traced) : Prop := ∀ u, s.sys.status u = .unborn → s.exec u = {}

/-- **Every move has one of the effects.** -/
theorem step_effect {m : Move} (hfresh : Fresh s)
    (hok : s.sys.TrapsArmed (m.label s.sys)) (h : s.step m = some s') : Effect s m s' := by
  obtain ⟨hc, hsys, hexec⟩ := step_eq_some h
  have hkind := System.step_kind hsys
  generalize hs'' : s'.sys = s'' at hkind
  cases m with
  | fetch t ctx =>
      rw [show Move.label s.sys (.fetch t ctx) = .fetch t ctx from rfl] at hkind
      cases hkind with
      | trap _ _ hrun hbyte =>
          obtain ⟨htrapped, hinstr⟩ := trapped_setThread hs''
          refine .trap t ctx rfl hrun hc hbyte (by rw [hs'']; rfl) (by rw [hs'']; rfl)
            (by rw [hs'']; rfl) htrapped hinstr (same_of_setThread hs'') ?_
          rw [hexec, record, show s.traps ctx = true from decide_eq_true hbyte]
      | execute _ _ hrun hbyte =>
          refine .run t ctx rfl hrun hc hbyte hs'' ?_
          rw [hexec, record, show s.traps ctx = false from decide_eq_false hbyte]
  | retry t =>
      rw [show Move.label s.sys (.retry t) = .fetch t (s.sys.context t) from rfl] at hkind
      cases hkind with
      | trap _ _ hrun hbyte =>
          have hinstr := System.instruction_of_not_trapped (System.not_trapped_of_running hrun)
          obtain ⟨htrapped, hinstr'⟩ := trapped_setThread hs''
          refine .retrap t rfl hrun hc (hinstr ▸ hbyte) (by rw [hs'']; rfl) (by rw [hs'']; rfl)
            (by rw [hs'']; rfl) htrapped (hinstr'.trans hinstr.symm) (same_of_setThread hs'') ?_
          rw [hexec, record, show s.traps (s.sys.context t) = true from decide_eq_true hbyte,
            ← show (s.exec t).tried = true from hc]
          exact Function.update_eq_self t s.exec
      | execute _ _ hrun hbyte =>
          have hinstr := System.instruction_of_not_trapped (System.not_trapped_of_running hrun)
          refine .rerun t rfl hrun hc (hinstr ▸ hbyte) hs'' ?_
          rw [hexec, record, show s.traps (s.sys.context t) = false from decide_eq_false hbyte]
  | signal t signum =>
      rw [show Move.label s.sys (.signal t signum) = .signal t signum (s.sys.context t) from rfl]
        at hkind
      cases hkind with
      | signal _ _ _ hrun =>
          refine effect_setThread hs'' (same_of_status (System.not_trapped_of_running hrun)
            (System.alive_of_running hrun) ?_ fun _ => ?_) hexec
          · rw [System.Trapped, hs'', System.status_setThread_self]
            intro heq
            cases heq
            exact absurd rfl hok
          · rw [hs'', System.context_setThread_self]
  | clone t child ctx =>
      rw [show Move.label s.sys (.clone t child ctx) = .clone t child ctx from rfl] at hkind
      cases hkind with
      | clone _ _ _ hrun hchild =>
          refine effect_threads hs'' ?_ hexec
          intro u
          by_cases hu : u = child
          · -- the new thread has no record yet
            subst hu
            refine same_of_status ?_ ?_ ?_ ?_
            · rw [System.Trapped, hchild]
              nofun
            · rw [System.Alive, hchild]
              exact ⟨nofun, nofun⟩
            · rw [System.Trapped, hs'', System.status_setThread_self]
              nofun
            · intro htried
              rw [hfresh u hchild] at htried
              cases htried
          · by_cases hu' : u = t
            · subst hu'
              refine same_of_status (System.not_trapped_of_running hrun)
                (System.alive_of_running hrun) ?_ fun htried => ?_
              · rw [System.Trapped, hs'', System.status_setThread_of_ne _ _ hu,
                  System.status_setThread_self]
                nofun
              · cases htried.symm.trans (show (s.exec u).tried = false from hc)
            · refine .refl_of_eq ?_ ?_
              · rw [hs'', System.status_setThread_of_ne _ _ hu,
                  System.status_setThread_of_ne _ _ hu']
              · rw [hs'', System.context_setThread_of_ne _ _ hu,
                  System.context_setThread_of_ne _ _ hu']
  | exit t =>
      rw [show Move.label s.sys (.exit t) = .exit t from rfl] at hkind
      cases hkind with
      | exit _ =>
          refine effect_setThread hs'' (same_of_not_alive fun halive => halive.1 ?_) hexec
          rw [hs'', System.status_setThread_self]
  | interrupt signum =>
      rw [show Move.label s.sys (.interrupt signum) = .interrupt signum from rfl] at hkind
      cases hkind with
      | interrupt _ =>
          refine .quiet (by rw [hs'']; rfl) (by rw [hs'']) (by rw [hs'']) (by rw [hs'']; exact id)
            (fun u => .refl_of_eq (by rw [hs'']; rfl) (by rw [hs'']; rfl)) hexec
  | wait t out =>
      rw [show Move.label s.sys (.wait t out) = .wait t out from rfl] at hkind
      cases hkind with
      | wait _ report _ hpending hwait =>
          -- a trap is the one report that the loop looks into
          by_cases hreport : report = .stop .sigtrap false
          · subst hreport
            exact effect_wait_trap hwait hpending hs'' (hexec.trans (if_pos hpending))
          · refine effect_wait_other hwait hpending hreport hs'' (hexec.trans (if_neg ?_))
            rw [hpending]
            exact fun heq => hreport (Status.pending.inj heq)
  | waitFails eintr =>
      rw [show Move.label s.sys (.waitFails eintr) = .waitFails eintr from rfl] at hkind
      cases hkind with
      | waitAgain hwait =>
          exact .quiet (by rw [hs'']) (by rw [hs'']) (by rw [hs'']) (by rw [hs'']; exact id)
            (fun u => .refl_of_eq (by rw [hs'']) (by rw [hs''])) hexec
      | waitError hwait =>
          exact .quiet (by rw [hs'']) (by rw [hs'']) (by rw [hs'']) (fun _ => hwait.1)
            (fun u => .refl_of_eq (by rw [hs'']; rfl) (by rw [hs'']; rfl)) hexec
  | issue =>
      rw [show Move.label s.sys .issue = .issue from rfl] at hkind
      cases hkind with
      | issueWrite w queue hqueue =>
          exact .quiet (by rw [hs'']) (by rw [hs'']) (by rw [hs'']) (by rw [hs'']; exact id)
            (fun u => .refl_of_eq (by rw [hs'']; rfl) (by rw [hs'']; rfl)) hexec
      | issueResume t signum queue hqueue => exact effect_resume hs'' hexec
      | issueOther r queue hqueue hother =>
          exact .quiet (by rw [hs'']) (by rw [hs'']) (by rw [hs'']) (by rw [hs'']; exact id)
            (fun u => .refl_of_eq (by rw [hs'']; rfl) (by rw [hs'']; rfl)) hexec

theorem fresh_step {m : Move} (h : Fresh s) (hok : s.sys.TrapsArmed (m.label s.sys))
    (hstep : s.step m = some s') : Fresh s' := by
  intro u hu
  have hunborn := System.unborn_of_step (step_eq_some hstep).2.1 hu
  cases (step_effect h hok hstep).thread u with
  | stays hsame hexec =>
      rw [hexec]
      exact h u hunborn
  | runs ctx hm hrun => cases hrun.symm.trans hunborn
  | traps ctx hm hrun => cases hrun.symm.trans hunborn
  | reruns hm hrun => cases hrun.symm.trans hunborn
  | retraps hm hrun => cases hrun.symm.trans hunborn
  | processed htrapped => cases htrapped.symm.trans hunborn

end StepEffect

end Traced

end Memleax
