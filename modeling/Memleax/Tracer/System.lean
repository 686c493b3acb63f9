import Memleax.Tracer.Loop

/-!
# memleax and its target

The whole system: the loop of `main`, the requests that it has sent and the
kernel has not carried out yet, the text of the target and its threads. A
thread runs until it fetches a trap byte, is stopped by a signal, creates a
thread or ends; the stop stays pending until `waitpid` reports it, and the
thread stays stopped until the loop resumes it. Requests are carried out one by
one with the steps of the running threads in between, so a thread can meet the
text between any two writes.

The steps are those of any interleaving: which thread moves, which pending stop
`waitpid` reports and what the outside answers is up to the label.
-/

namespace Memleax

open Framework

inductive Status where
  | unborn
  | running
  /-- stopped or ended, not reported by `waitpid` yet -/
  | pending (report : Report)
  /-- reported, until `ptrace_continue` -/
  | stopped
  | exited
deriving DecidableEq, Repr

structure Thread where
  status : Status := .unborn
  /-- registers and data as of the last stop -/
  context : Context := ⟨{ rip := 0 }, fun _ => 0⟩

structure System where
  monitor : Monitor
  code : Code
  /-- requests sent and not carried out yet -/
  queue : List Request
  threads : Pid → Thread
  phase : Phase := .loop
  /-- the handler calls so far -/
  log : List Invocation := []

inductive Label where
  /-- a thread fetches the instruction at its program counter -/
  | fetch (t : Pid) (ctx : Context)
  /-- a thread is stopped before a signal is delivered to it -/
  | signal (t : Pid) (signum : Signo) (ctx : Context)
  | clone (t child : Pid) (ctx : Context)
  /-- a thread ends, possibly killed in a stop -/
  | exit (t : Pid)
  /-- `signal_handler` runs in memleax -/
  | interrupt (signum : Signo)
  /-- `waitpid` reports a thread and the loop makes one iteration -/
  | wait (t : Pid) (out : Outside)
  /-- `waitpid` fails, with `EINTR` or not -/
  | waitFails (eintr : Bool)
  /-- the kernel carries out the next request -/
  | issue

/-- The registers that a trap leaves: the trap byte has been executed. -/
def Context.trapped (ctx : Context) : Context :=
  { ctx with regs := { ctx.regs with rip := ctx.regs.rip + 1 } }

theorem pcUnwind_trapped (ctx : Context) : pcUnwind ctx.trapped = ctx := by
  obtain ⟨⟨rip, rax, rdi, rsi, rsp⟩, data⟩ := ctx
  simp [pcUnwind, Context.trapped]

namespace System

def setThread (s : System) (t : Pid) (thread : Thread) : System :=
  { s with threads := Function.update s.threads t thread }

def status (s : System) (t : Pid) : Status := (s.threads t).status

def context (s : System) (t : Pid) : Context := (s.threads t).context

/-- `ptrace_continue` has an effect on a stopped thread only. -/
def resume (s : System) (t : Pid) : System :=
  if s.status t = .stopped then s.setThread t ⟨.running, s.context t⟩ else s

/-- The loop waits in `waitpid`. -/
def AtWaitpid (s : System) : Prop := s.phase = .loop ∧ s.queue = []

instance (s : System) : Decidable s.AtWaitpid :=
  inferInstanceAs (Decidable (_ ∧ _))

/-- The thread as `waitpid` leaves it behind. -/
def reported (report : Report) (ctx : Context) : Thread :=
  ⟨if report = .exit then .exited else .stopped, ctx⟩

def wait (s : System) (t : Pid) (report : Report) (out : Outside) : System :=
  let turn := s.monitor.turn s.code t report (s.context t) out
  { s.setThread t (reported report turn.context) with
    monitor := turn.monitor
    queue := turn.requests
    phase := turn.phase
    log := s.log ++ turn.invoked.toList }

/-- Carry out one request. Alarms and child processes are outside of the
target. -/
def issue (s : System) (queue : List Request) : Request → System
  | .write w => { s with code := s.code.write w, queue := queue }
  | .resume t _ => { s with queue := queue }.resume t
  | .alarm _ => { s with queue := queue }
  | .writeChild _ _ _ => { s with queue := queue }
  | .detach _ => { s with queue := queue }

def step (s : System) : Label → Option System
  | .fetch t ctx =>
      if s.status t = .running then
        if s.code.text ctx.regs.rip = trapByte then
          some (s.setThread t ⟨.pending (.stop .sigtrap false), ctx.trapped⟩)
        else some s
      else none
  | .signal t signum ctx =>
      if s.status t = .running then some (s.setThread t ⟨.pending (.stop signum false), ctx⟩)
      else none
  | .clone t child ctx =>
      if s.status t = .running ∧ s.status child = .unborn then
        some ((s.setThread t ⟨.pending (.stop .sigtrap true), ctx⟩).setThread child
          ⟨.pending (.stop .sigstop false), ctx⟩)
      else none
  | .exit t =>
      if s.status t = .unborn ∨ s.status t = .exited then none
      else some (s.setThread t ⟨.pending .exit, s.context t⟩)
  | .interrupt signum => some { s with monitor := { s.monitor with signo := some signum } }
  | .wait t out =>
      match s.status t with
      | .pending report => if s.AtWaitpid then some (s.wait t report out) else none
      | _ => none
  | .waitFails eintr =>
      if s.AtWaitpid then some (if eintr then s else { s with phase := .left .waitError })
      else none
  | .issue =>
      match s.queue with
      | [] => none
      | r :: queue => some (s.issue queue r)

/-- The system when `breakpoint_init` begins: the other threads have been
attached and run on, `g_target_pid` is stopped. `none` is the exit of a missing
function. -/
def begin (symtabByName : Api → Word) (text : Bytes 64) (targetPid : Pid) (limits : Limits)
    (others : Pid → Bool) : Option System :=
  (breakpointInit symtabByName text).map fun init =>
    { monitor := { targetPid := targetPid, limits := limits, breakpoints := init.breakpoints }
      code := { text := text }
      queue := init.writes.map Request.write ++ [.resume targetPid none]
      threads := fun t =>
        if t = targetPid then { status := .stopped }
        else if others t then { status := .running }
        else {} }

/-- Nothing is pending when it begins. -/
theorem not_pending_begin {symtabByName : Api → Word} {text : Bytes 64} {targetPid : Pid}
    {limits : Limits} {others : Pid → Bool} {s₀ : System}
    (hbegin : begin symtabByName text targetPid limits others = some s₀) (t : Pid)
    (report : Report) : s₀.status t ≠ .pending report := by
  obtain ⟨init, -, rfl⟩ := Option.map_eq_some_iff.mp hbegin
  simp only [status]
  split
  · nofun
  · split <;> nofun

/-! ## What one step does -/

@[simp] theorem status_setThread_self (s : System) (t : Pid) (thread : Thread) :
    (s.setThread t thread).status t = thread.status := by
  simp [status, setThread]

theorem status_setThread_of_ne (s : System) {t u : Pid} (thread : Thread) (h : u ≠ t) :
    (s.setThread t thread).status u = s.status u := by
  simp [status, setThread, h]

@[simp] theorem context_setThread_self (s : System) (t : Pid) (thread : Thread) :
    (s.setThread t thread).context t = thread.context := by
  simp [context, setThread]

theorem context_setThread_of_ne (s : System) {t u : Pid} (thread : Thread) (h : u ≠ t) :
    (s.setThread t thread).context u = s.context u := by
  simp [context, setThread, h]

theorem status_wait_self (s : System) (t : Pid) (report : Report) (out : Outside) :
    (s.wait t report out).status t = if report = .exit then .exited else .stopped := by
  simp [wait, status, setThread, reported]

theorem status_wait_of_ne (s : System) {t u : Pid} (report : Report) (out : Outside)
    (h : u ≠ t) : (s.wait t report out).status u = s.status u := by
  simp [wait, status, setThread, h]

theorem context_wait_self (s : System) (t : Pid) (report : Report) (out : Outside) :
    (s.wait t report out).context t = report.unwind (s.context t) := by
  rw [← (s.monitor.turn_keeps s.code t (s.context t) out report).1]
  simp [wait, context, setThread, reported]

theorem context_wait_of_ne (s : System) {t u : Pid} (report : Report) (out : Outside)
    (h : u ≠ t) : (s.wait t report out).context u = s.context u := by
  simp [wait, context, setThread, h]

theorem not_pending_wait_self (s : System) (t : Pid) (report r : Report) (out : Outside) :
    (s.wait t report out).status t ≠ .pending r := by
  rw [status_wait_self]
  split <;> nofun

/-- **Every step of the system**, with the state it leads to. -/
inductive StepKind (s : System) : Label → System → Prop
  | trap (t : Pid) (ctx : Context) (hrun : s.status t = .running)
      (hbyte : s.code.text ctx.regs.rip = trapByte) :
      StepKind s (.fetch t ctx) (s.setThread t ⟨.pending (.stop .sigtrap false), ctx.trapped⟩)
  | execute (t : Pid) (ctx : Context) (hrun : s.status t = .running)
      (hbyte : s.code.text ctx.regs.rip ≠ trapByte) : StepKind s (.fetch t ctx) s
  | signal (t : Pid) (signum : Signo) (ctx : Context) (hrun : s.status t = .running) :
      StepKind s (.signal t signum ctx) (s.setThread t ⟨.pending (.stop signum false), ctx⟩)
  | clone (t child : Pid) (ctx : Context) (hrun : s.status t = .running)
      (hchild : s.status child = .unborn) :
      StepKind s (.clone t child ctx)
        ((s.setThread t ⟨.pending (.stop .sigtrap true), ctx⟩).setThread child
          ⟨.pending (.stop .sigstop false), ctx⟩)
  | exit (t : Pid) (hborn : s.status t ≠ .unborn) :
      StepKind s (.exit t) (s.setThread t ⟨.pending .exit, s.context t⟩)
  | interrupt (signum : Signo) :
      StepKind s (.interrupt signum) { s with monitor := { s.monitor with signo := some signum } }
  | wait (t : Pid) (report : Report) (out : Outside) (hpending : s.status t = .pending report)
      (hwait : s.AtWaitpid) : StepKind s (.wait t out) (s.wait t report out)
  | waitAgain (hwait : s.AtWaitpid) : StepKind s (.waitFails true) s
  | waitError (hwait : s.AtWaitpid) :
      StepKind s (.waitFails false) { s with phase := .left .waitError }
  | issueWrite (w : Write) (queue : List Request) (hqueue : s.queue = .write w :: queue) :
      StepKind s .issue { s with code := s.code.write w, queue := queue }
  | issueResume (t : Pid) (signum : Option Signo) (queue : List Request)
      (hqueue : s.queue = .resume t signum :: queue) :
      StepKind s .issue ({ s with queue := queue }.resume t)
  | issueOther (r : Request) (queue : List Request) (hqueue : s.queue = r :: queue)
      (hother : ∀ w, r ≠ .write w) : StepKind s .issue { s with queue := queue }

theorem step_kind {s s' : System} {label : Label} (h : s.step label = some s') :
    s.StepKind label s' := by
  cases label with
  | fetch t ctx =>
      rw [step] at h
      split at h
      · rename_i hrun
        split at h
        · rename_i hbyte
          cases h
          exact .trap t ctx hrun hbyte
        · rename_i hbyte
          cases h
          exact .execute t ctx hrun hbyte
      · cases h
  | signal t signum ctx =>
      rw [step] at h
      split at h
      · rename_i hrun
        cases h
        exact .signal t signum ctx hrun
      · cases h
  | clone t child ctx =>
      rw [step] at h
      split at h
      · rename_i hrun
        cases h
        exact .clone t child ctx hrun.1 hrun.2
      · cases h
  | exit t =>
      rw [step] at h
      split at h
      · cases h
      · rename_i hno
        cases h
        exact .exit t fun hunborn => hno (Or.inl hunborn)
  | interrupt signum =>
      cases h
      exact .interrupt signum
  | wait t out =>
      rw [step] at h
      split at h
      · rename_i report hpending
        split at h
        · rename_i hwait
          cases h
          exact .wait t report out hpending hwait
        · cases h
      · cases h
  | waitFails eintr =>
      rw [step] at h
      split at h
      · rename_i hwait
        cases h
        cases eintr with
        | true => exact .waitAgain hwait
        | false => exact .waitError hwait
      · cases h
  | issue =>
      rw [step] at h
      split at h
      · cases h
      · rename_i r queue hqueue
        cases h
        cases r with
        | write w => exact .issueWrite w queue hqueue
        | resume t signum => exact .issueResume t signum queue hqueue
        | alarm seconds => exact .issueOther _ queue hqueue nofun
        | writeChild pid address data => exact .issueOther _ queue hqueue nofun
        | detach pid => exact .issueOther _ queue hqueue nofun

/-- **What one step does to one thread.** -/
inductive StatusStep (s s' : System) (u : Pid) : Label → Prop
  | same (label : Label) (hsame : s'.status u = s.status u) : StatusStep s s' u label
  | trap (ctx : Context) (hrun : s.status u = .running)
      (hbyte : s.code.text ctx.regs.rip = trapByte)
      (hnew : s'.status u = .pending (.stop .sigtrap false)) : StatusStep s s' u (.fetch u ctx)
  | signal (signum : Signo) (ctx : Context) (hrun : s.status u = .running)
      (hnew : s'.status u = .pending (.stop signum false)) : StatusStep s s' u (.signal u signum ctx)
  | creates (child : Pid) (ctx : Context) (hrun : s.status u = .running)
      (hnew : s'.status u = .pending (.stop .sigtrap true)) : StatusStep s s' u (.clone u child ctx)
  | created (t : Pid) (ctx : Context) (hunborn : s.status u = .unborn)
      (hnew : s'.status u = .pending (.stop .sigstop false)) : StatusStep s s' u (.clone t u ctx)
  | exit (hborn : s.status u ≠ .unborn) (hnew : s'.status u = .pending .exit) :
      StatusStep s s' u (.exit u)
  | reported (report : Report) (out : Outside) (hpending : s.status u = .pending report)
      (hwait : s.AtWaitpid) (hnew : s'.status u = if report = .exit then .exited else .stopped) :
      StatusStep s s' u (.wait u out)
  | resumed (signum : Option Signo) (queue : List Request)
      (hqueue : s.queue = .resume u signum :: queue) (hstopped : s.status u = .stopped)
      (hnew : s'.status u = .running) : StatusStep s s' u .issue

theorem status_step {s s' : System} {label : Label} (h : s.step label = some s') (u : Pid) :
    s.StatusStep s' u label := by
  cases step_kind h with
  | trap t ctx hrun hbyte =>
      by_cases heq : u = t
      · subst heq
        exact .trap ctx hrun hbyte (status_setThread_self _ _ _)
      · exact .same _ (status_setThread_of_ne _ _ heq)
  | execute t ctx hrun hbyte => exact .same _ rfl
  | signal t signum ctx hrun =>
      by_cases heq : u = t
      · subst heq
        exact .signal signum ctx hrun (status_setThread_self _ _ _)
      · exact .same _ (status_setThread_of_ne _ _ heq)
  | clone t child ctx hrun hchild =>
      by_cases hnew : u = child
      · subst hnew
        exact .created t ctx hchild (status_setThread_self _ _ _)
      · have hother := status_setThread_of_ne (s.setThread t ⟨.pending (.stop .sigtrap true), ctx⟩)
          ⟨.pending (.stop .sigstop false), ctx⟩ hnew
        by_cases heq : u = t
        · subst heq
          exact .creates child ctx hrun (hother.trans (status_setThread_self _ _ _))
        · exact .same _ (hother.trans (status_setThread_of_ne _ _ heq))
  | exit t hborn =>
      by_cases heq : u = t
      · subst heq
        exact .exit hborn (status_setThread_self _ _ _)
      · exact .same _ (status_setThread_of_ne _ _ heq)
  | wait t report out hpending hwait =>
      by_cases heq : u = t
      · subst heq
        exact .reported report out hpending hwait (status_wait_self _ _ _ _)
      · exact .same _ (status_wait_of_ne _ _ _ heq)
  | issueResume t signum queue hqueue =>
      unfold resume
      split
      · rename_i hstopped
        by_cases heq : u = t
        · subst heq
          exact .resumed signum queue hqueue hstopped (status_setThread_self _ _ _)
        · exact .same _ (status_setThread_of_ne _ _ heq)
      · exact .same _ rfl
  | _ => exact .same _ rfl

/-- A thread that has been created stays created. -/
theorem unborn_of_step {s s' : System} {label : Label} (h : s.step label = some s') {u : Pid}
    (hu : s'.status u = .unborn) : s.status u = .unborn := by
  cases status_step h u with
  | same label hsame => exact hsame.symm.trans hu
  | trap ctx hrun hbyte hnew => cases hnew.symm.trans hu
  | signal signum ctx hrun hnew => cases hnew.symm.trans hu
  | creates child ctx hrun hnew => cases hnew.symm.trans hu
  | created t ctx hunborn hnew => exact hunborn
  | exit hborn hnew => cases hnew.symm.trans hu
  | reported report out hpending hwait hnew =>
      rw [hnew] at hu
      split at hu <;> cases hu
  | resumed signum queue hqueue hstopped hnew => cases hnew.symm.trans hu

/-- Only `clone` creates a thread. -/
theorem unborn_step {s s' : System} {label : Label} (h : s.step label = some s') {u : Pid}
    (hclone : ∀ t ctx, label ≠ .clone t u ctx) (hu : s.status u = .unborn) :
    s'.status u = .unborn := by
  cases status_step h u with
  | same label hsame => exact hsame.trans hu
  | trap ctx hrun hbyte hnew => cases hrun.symm.trans hu
  | signal signum ctx hrun hnew => cases hrun.symm.trans hu
  | creates child ctx hrun hnew => cases hrun.symm.trans hu
  | created t ctx hunborn hnew => exact absurd rfl (hclone t ctx)
  | exit hborn hnew => exact absurd hu hborn
  | reported report out hpending hwait hnew => cases hpending.symm.trans hu
  | resumed signum queue hqueue hstopped hnew => cases hstopped.symm.trans hu

end System

/-! ## A sample target -/

/-- A text of `nop`s with the four functions in it. -/
def sampleText : Bytes 64 := fun _ => 0x90

def sampleSymtab : Api → Word
  | .malloc => 0x1000
  | .free => 0x1100
  | .realloc => 0x1200
  | .calloc => 0x1300

theorem sampleSymtab_apart (api other : Api) (h : api ≠ other) :
    ¬ Bytes.Within 8 (sampleSymtab api) (sampleSymtab other) := by
  revert h
  cases api <;> cases other <;> decide

/-- The default options of `main`. -/
def defaultLimits : Limits := { expire := 10, memblockLimit := 1000, callstackLimit := 1000 }

/-- The sample target with the threads `1 .. n`. -/
def sampleBegin (n : Nat) : Option System :=
  System.begin sampleSymtab sampleText 1 defaultLimits fun t => decide (t ≤ n ∧ t ≠ 0)

/-- A thread at `rip` with `returnAddress` on top of its stack. -/
def sampleContext (rip returnAddress : Word) (rax rdi : Word) : Context where
  regs := { rip := rip, rax := rax, rdi := rdi, rsp := 0x8000 }
  data := ptraceSetData (fun _ => 0) 0x8000 returnAddress

def sampleOutside : Outside where
  env := { now := 0, ips := [0x2000] }
  sweepNow := 0

/-- Carry out `n` requests. -/
def issues (n : Nat) : List Label := List.replicate n .issue

/-- One thread calls `malloc(16)`. -/
def sampleCall (returnAddress : Word) : List Label :=
  issues 5 ++ [.fetch 1 (sampleContext 0x1000 returnAddress 0 16), .wait 1 sampleOutside] ++ issues 4

end Memleax
