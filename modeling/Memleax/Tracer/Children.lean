import Memleax.Tracer.Standing

/-!
# Child processes

A target that creates processes. The kernel attaches memleax to each of them, as
`ptrace_trace_child` asks; the child begins in a `SIGSTOP`, and when `waitpid`
reports it the loop cleans up its entries and detaches it. After `fork` the child
has a copy of the memory of its parent, after `vfork` it has the same memory. A
child that starts another program gets a new memory.

The system is that of `System`, with the threads of the child processes among the
threads. Each thread sees the text in its own memory, and a request of the loop
takes effect in the memory of the thread that it is for (`Family.within`). A
process that has been detached runs on unseen.
-/

namespace Memleax

open Framework

/-! ## What the loop asks for child processes -/

/-- The child process that a request is for. -/
def Request.childPid : Request → Option Pid
  | .writeChild pid _ _ | .detach pid => some pid
  | .write _ | .resume _ _ | .alarm _ => none

/-- Requests that are not for a child process. -/
def NoChildren (requests : List Request) : Prop := ∀ r ∈ requests, r.childPid = none

theorem noChildren_nil : NoChildren [] := by simp [NoChildren]

theorem NoChildren.append {rs rs' : List Request} (h : NoChildren rs) (h' : NoChildren rs') :
    NoChildren (rs ++ rs') := by
  intro r hr
  rcases List.mem_append.mp hr with hr | hr
  · exact h r hr
  · exact h' r hr

theorem noChildren_writes (writes : List Write) : NoChildren (writes.map Request.write) := by
  intro r hr
  obtain ⟨w, -, rfl⟩ := List.mem_map.mp hr
  rfl

section Turn

variable (m : Monitor) (code : Code) (pid : Pid) (ctx : Context) (out : Outside)

theorem Monitor.lexpire_noChildren {sent : List Request} (hsent : NoChildren sent)
    (invoked : Option Invocation) : NoChildren (m.lexpire pid ctx out sent invoked).requests := by
  unfold Monitor.lexpire
  dsimp only
  split
  · exact hsent
  · exact hsent.append (by simp [NoChildren, Request.childPid])

theorem Monitor.atReturn_noChildren (writes : List Write) (api : Api) :
    NoChildren (m.atReturn pid ctx out (writes.map Request.write) api).requests := by
  have hwrites := noChildren_writes writes
  unfold Monitor.atReturn
  dsimp only
  split
  · exact hwrites
  · split
    · exact Monitor.lexpire_noChildren _ pid ctx out hwrites _
    · exact Monitor.lexpire_noChildren _ pid ctx out
        (hwrites.append (by simp [NoChildren, Request.childPid])) _

theorem Monitor.onSigtrap_noChildren : NoChildren (m.onSigtrap code pid ctx out).requests := by
  unfold Monitor.onSigtrap
  dsimp only
  split
  · split <;> exact noChildren_nil
  · split
    · exact noChildren_nil
    · rename_i writes hrecover
      split
      · split
        · exact noChildren_writes writes
        · exact Monitor.atReturn_noChildren _ pid _ out writes _
      · split
        · exact Monitor.lexpire_noChildren _ pid _ out
            ((noChildren_writes writes).append (by simp [NoChildren, Request.childPid])) _
        · unfold Monitor.elsewhere
          dsimp only
          split
          · exact noChildren_writes writes
          · exact Monitor.lexpire_noChildren _ pid _ out (noChildren_writes writes) _

/-- `breakpoint_cleanup(pid)` and `ptrace_detach(pid, 0)`. -/
def Monitor.detachChild : List Request :=
  (Api.all.map fun api =>
    .writeChild pid (m.breakpoints api).entryAddress (m.breakpoints api).entryCode) ++ [.detach pid]

/-- Only the `SIGSTOP` of a child process makes the loop clean up and detach it. -/
theorem Monitor.turn_child (report : Report) :
    NoChildren (m.turn code pid report ctx out).requests ∨
      (∃ event, report = .stop .sigstop event) ∧ m.signo = none ∧ out.isTask = false ∧
        m.turn code pid report ctx out =
          { monitor := m, context := ctx, requests := m.detachChild pid } := by
  have hforward : ∀ signum : Option Signo, NoChildren [.resume pid signum] := by
    intro signum
    simp [NoChildren, Request.childPid]
  cases report with
  | exit =>
      rw [Monitor.turn]
      split <;> exact Or.inl noChildren_nil
  | stop signum event =>
      cases signum with
      | sigstop =>
          show NoChildren (m.onSigstop pid ctx out).requests ∨ _ ∧ _ ∧ _ ∧
            m.onSigstop pid ctx out = _
          unfold Monitor.onSigstop
          split
          · exact Or.inl (Monitor.lexpire_noChildren _ pid ctx out noChildren_nil _)
          · split
            · exact Or.inl noChildren_nil
            · rename_i hsigno
              split
              · exact Or.inl (hforward none)
              · rename_i htask
                exact Or.inr ⟨⟨event, rfl⟩, not_not.mp hsigno, by simpa using htask, rfl⟩
      | sigtrap =>
          cases event with
          | true => exact Or.inl (hforward none)
          | false => exact Or.inl (m.onSigtrap_noChildren code pid ctx out)
      | _ => exact Or.inl (hforward _)

end Turn

/-! ## The model -/

/-- A child process that memleax has been told of, or a thread of one. -/
structure Child where
  /-- its memory: one of the copies, or `none` for the memory of the target -/
  space : Option Nat
  /-- its memory is the copy that `fork` made -/
  forked : Bool := false
  traced : Bool := true
  /-- the loop has processed its `SIGSTOP` -/
  handled : Bool := false
deriving DecidableEq, Repr

structure Family where
  /-- all traced threads, with the text of the target -/
  sys : System
  /-- `none` for a thread of the target -/
  child : Pid → Option Child := fun _ => none
  /-- the text in the memory of child processes -/
  copies : Nat → Code := fun _ => { text := fun _ => 0 }
  /-- the next copy -/
  fresh : Nat := 0
  /-- the thread whose stop the requests under way are for -/
  current : Pid

inductive FamilyLabel where
  | sys (label : Label)
  | fork (t child : Pid) (ctx : Context)
  | vfork (t child : Pid) (ctx : Context)
  /-- a child process starts another program -/
  | exec (t : Pid) (ctx : Context) (text : Bytes 64)

/-- `g_target_pid` is stopped when the system begins. -/
theorem System.status_begin {symtabByName : Api → Word} {text : Bytes 64} {targetPid : Pid}
    {limits : Limits} {others : Pid → Bool} {s₀ : System}
    (hbegin : System.begin symtabByName text targetPid limits others = some s₀) :
    s₀.monitor.targetPid = targetPid ∧ s₀.status targetPid = .stopped := by
  obtain ⟨init, -, rfl⟩ := Option.map_eq_some_iff.mp hbegin
  exact ⟨rfl, by simp [System.status]⟩

theorem System.status_setThread (s : System) (t : Pid) (thread : Thread) (u : Pid) :
    (s.setThread t thread).status u = if u = t then thread.status else s.status u := by
  split
  · rename_i heq
    rw [heq, System.status_setThread_self]
  · rename_i hne
    exact System.status_setThread_of_ne _ _ hne

theorem System.born_setThread (s : System) {t : Pid} {thread : Thread}
    (hthread : thread.status ≠ .unborn) {u : Pid} (h : s.status u ≠ .unborn) :
    (s.setThread t thread).status u ≠ .unborn := by
  rw [System.status_setThread]
  split
  · exact hthread
  · exact h

/-- `ptrace_continue` changes one thread at most. -/
theorem System.resume_keeps (s : System) (t : Pid) :
    (s.resume t).monitor = s.monitor ∧ (s.resume t).code = s.code ∧
      (s.resume t).queue = s.queue ∧ (s.resume t).phase = s.phase := by
  unfold System.resume
  split <;> exact ⟨rfl, rfl, rfl, rfl⟩

theorem System.status_resume_self (s : System) (t : Pid) :
    (s.resume t).status t = .running ∨ (s.resume t).status t = s.status t := by
  unfold System.resume
  split
  · exact Or.inl (System.status_setThread_self _ _ _)
  · exact Or.inr rfl

theorem System.status_resume_of_ne (s : System) {t u : Pid} (h : u ≠ t) :
    (s.resume t).status u = s.status u := by
  unfold System.resume
  split
  · exact System.status_setThread_of_ne _ _ h
  · rfl

/-- A resumed thread runs, if it was stopped. -/
theorem System.born_resume (s : System) {t u : Pid} (h : s.status u ≠ .unborn) :
    (s.resume t).status u ≠ .unborn := by
  by_cases heq : u = t
  · subst heq
    rcases s.status_resume_self u with hrun | hsame
    · rw [hrun]
      simp
    · rw [hsame]
      exact h
  · rw [s.status_resume_of_ne heq]
    exact h

/-- `ptrace_continue` does not look at the text. -/
theorem System.resume_code (s : System) (code : Code) (t : Pid) :
    { s with code := code }.resume t = { s.resume t with code := code } := by
  have hstatus : { s with code := code }.status t = s.status t := rfl
  unfold System.resume
  rw [hstatus]
  split <;> rfl

/-- Only a request changes the text. -/
theorem System.code_step {s s' : System} {label : Label} (h : s.step label = some s')
    (hne : label ≠ .issue) : s'.code = s.code := by
  cases System.step_kind h with
  | issueWrite w queue hqueue => exact absurd rfl hne
  | issueResume t signum queue hqueue => exact absurd rfl hne
  | issueOther r queue hqueue hother => exact absurd rfl hne
  | _ => rfl

namespace Family

/-- When `breakpoint_init` begins there are no child processes. -/
def start (s₀ : System) : Family := { sys := s₀, current := s₀.monitor.targetPid }

def space (s : Family) (t : Pid) : Option Nat := (s.child t).bind Child.space

def traced (s : Family) (t : Pid) : Bool :=
  match s.child t with
  | none => true
  | some c => c.traced

def codeAt (s : Family) : Option Nat → Code
  | none => s.sys.code
  | some i => s.copies i

def setCode (s : Family) (space : Option Nat) (code : Code) : Family :=
  match space with
  | none => { s with sys := { s.sys with code := code } }
  | some i => { s with copies := Function.update s.copies i code }

def setThread (s : Family) (t : Pid) (thread : Thread) : Family :=
  { s with sys := s.sys.setThread t thread }

/-- The system as the thread `t` sees it. -/
def within (s : Family) (t : Pid) : System := { s.sys with code := s.codeAt (s.space t) }

/-- A step of that system. -/
def run (s : Family) (t : Pid) (label : Label) : Option Family :=
  ((s.within t).step label).map fun sys =>
    ({ s with sys := { sys with code := s.sys.code } } : Family).setCode (s.space t) sys.code

def adopt (s : Family) (t : Pid) (c : Option Child) : Family :=
  { s with child := Function.update s.child t c }

/-- A memory with the text `code`, for the child process `c` of thread `t`. -/
def newSpace (s : Family) (t : Pid) (c : Child) (code : Code) : Family :=
  { s with
    child := Function.update s.child t (some { c with space := some s.fresh })
    copies := Function.update s.copies s.fresh code
    fresh := s.fresh + 1 }

/-- The loop is about the stop of `t`, which is the first one of a child process
if it is a `SIGSTOP`. -/
def handle (s : Family) (t : Pid) (report : Report) : Family :=
  { s with
    current := t
    child :=
      if report = .stop .sigstop false then
        Function.update s.child t ((s.child t).map fun c => { c with handled := true })
      else s.child }

/-- A `ptrace_set_data` on the child process `pid`. -/
def writeChild (s : Family) (queue : List Request) (pid : Pid) (address data : Word) : Family :=
  let code := s.codeAt (s.space pid)
  ({ s with sys := { s.sys with queue := queue } } : Family).setCode (s.space pid)
    { code with text := ptraceSetData code.text address data }

/-- `ptrace_detach(pid, 0)`, for a child process. -/
def detach (s : Family) (queue : List Request) (pid : Pid) : Family :=
  ({ s with sys := { s.sys with queue := queue }.resume pid } : Family).adopt pid
    ((s.child pid).map fun c => { c with traced := false })

def step (s : Family) : FamilyLabel → Option Family
  | .sys (.fetch t ctx) => if s.traced t then s.run t (.fetch t ctx) else none
  | .sys (.signal t signum ctx) => if s.traced t then s.run t (.signal t signum ctx) else none
  | .sys (.clone t u ctx) =>
      if s.traced t then
        (s.run t (.clone t u ctx)).map
          (·.adopt u ((s.child t).map fun c => { c with handled := false }))
      else none
  | .sys (.exit t) =>
      if s.traced t then s.run t (.exit t)
      else if s.sys.status t = .running then some (s.setThread t ⟨.exited, s.sys.context t⟩)
      else none
  | .sys (.interrupt signum) => s.run s.current (.interrupt signum)
  | .sys (.wait t out) =>
      match s.sys.status t with
      | .pending report =>
          (s.run t (.wait t { out with isTask := (s.child t).isNone })).map (·.handle t report)
      | _ => none
  | .sys (.waitFails eintr) => s.run s.current (.waitFails eintr)
  | .sys .issue =>
      match s.sys.queue with
      | .writeChild pid address data :: queue => some (s.writeChild queue pid address data)
      | .detach pid :: queue => some (s.detach queue pid)
      | _ => s.run s.current .issue
  | .fork t u ctx =>
      if s.traced t then
        (s.run t (.clone t u ctx)).map
          (·.newSpace u { space := none, forked := true } (s.codeAt (s.space t)))
      else none
  | .vfork t u ctx =>
      if s.traced t then
        (s.run t (.clone t u ctx)).map (·.adopt u (some { space := s.space t }))
      else none
  | .exec t ctx text =>
      match s.child t with
      | none => none
      | some c =>
          if s.sys.status t = .running then
            -- a traced process is stopped by the kernel before its first instruction
            let thread : Thread :=
              if c.traced then ⟨.pending (.stop .sigtrap false), ctx⟩ else ⟨.running, ctx⟩
            some ((s.setThread t thread).newSpace t { c with forked := false } { text := text })
          else none

/-! ## Small facts about the operations -/

theorem space_congr {s s' : Family} {t : Pid} (h : s'.child t = s.child t) :
    s'.space t = s.space t := by
  rw [space, space, h]

theorem space_of_child {s : Family} {t : Pid} {c : Child} (h : s.child t = some c) :
    s.space t = c.space := by
  rw [space, h]
  rfl

theorem space_newSpace_self (s : Family) (t : Pid) (c : Child) (code : Code) :
    (s.newSpace t c code).space t = some s.fresh := by
  have hchild : (s.newSpace t c code).child t = some { c with space := some s.fresh } :=
    Function.update_self _ _ _
  exact space_of_child hchild

/-- Nothing but a text is written. -/
theorem setCode_keeps (s : Family) (space : Option Nat) (code : Code) :
    (s.setCode space code).sys.monitor = s.sys.monitor ∧
      (s.setCode space code).sys.phase = s.sys.phase ∧
      (s.setCode space code).child = s.child := by
  cases space with
  | none => exact ⟨rfl, rfl, rfl⟩
  | some i => exact ⟨rfl, rfl, rfl⟩

section Detach

variable (s : Family) (queue : List Request) (pid : Pid)

theorem detach_keeps :
    (s.detach queue pid).sys.monitor = s.sys.monitor ∧
      (s.detach queue pid).sys.code = s.sys.code ∧ (s.detach queue pid).sys.queue = queue ∧
      (s.detach queue pid).sys.phase = s.sys.phase :=
  System.resume_keeps { s.sys with queue := queue } pid

theorem status_detach_self : (s.detach queue pid).sys.status pid = .running ∨
    (s.detach queue pid).sys.status pid = s.sys.status pid :=
  System.status_resume_self { s.sys with queue := queue } pid

theorem status_detach_of_ne {u : Pid} (h : u ≠ pid) :
    (s.detach queue pid).sys.status u = s.sys.status u :=
  System.status_resume_of_ne { s.sys with queue := queue } h

theorem born_detach {u : Pid} (h : s.sys.status u ≠ .unborn) :
    (s.detach queue pid).sys.status u ≠ .unborn :=
  System.born_resume { s.sys with queue := queue } h

/-- The record of `pid` changes by a mark. -/
theorem child_detach_self : (s.detach queue pid).child pid =
    (s.child pid).map fun c => { c with traced := false } := Function.update_self _ _ _

theorem child_detach_of_ne {u : Pid} (h : u ≠ pid) :
    (s.detach queue pid).child u = s.child u := Function.update_of_ne h _ _

theorem child_detach_of_none {u : Pid} (h : s.child u = none) :
    (s.detach queue pid).child u = none := by
  by_cases heq : u = pid
  · subst heq
    rw [child_detach_self, h]
    rfl
  · rw [child_detach_of_ne _ _ _ heq]
    exact h

theorem space_detach (u : Pid) : (s.detach queue pid).space u = s.space u := by
  by_cases heq : u = pid
  · subst heq
    rw [space, space, child_detach_self]
    cases s.child u <;> rfl
  · exact space_congr (child_detach_of_ne _ _ _ heq)

end Detach

/-! ## What one step does -/

/-- A thread or process `u` has been created by `t`. -/
def created (s : Family) (t u : Pid) (ctx : Context) : Family :=
  (s.setThread t ⟨.pending (.stop .sigtrap true), ctx⟩).setThread u
    ⟨.pending (.stop .sigstop false), ctx⟩

theorem status_created (s : Family) (t u : Pid) (ctx : Context) (v : Pid) :
    (s.created t u ctx).sys.status v =
      if v = u then .pending (.stop .sigstop false)
      else if v = t then .pending (.stop .sigtrap true) else s.sys.status v := by
  unfold created setThread
  rw [System.status_setThread, System.status_setThread]

theorem born_created (s : Family) (t u : Pid) (ctx : Context) {v : Pid}
    (h : s.sys.status v ≠ .unborn) : (s.created t u ctx).sys.status v ≠ .unborn := by
  unfold created setThread
  apply System.born_setThread _ (by simp)
  apply System.born_setThread _ (by simp)
  exact h

/-- One iteration of the loop, on the stop of `t`. -/
def wait (s : Family) (t : Pid) (report : Report) (out : Outside) : Family :=
  ({ s with
    sys := { (s.within t).wait t report { out with isTask := (s.child t).isNone } with
      code := s.sys.code } } : Family).handle t report

/-- The iteration, as a function of the loop. -/
def turn (s : Family) (t : Pid) (report : Report) (out : Outside) : Turn :=
  s.sys.monitor.turn (s.codeAt (s.space t)) t report (s.sys.context t)
    { out with isTask := (s.child t).isNone }

theorem status_wait_self (s : Family) (t : Pid) (report : Report) (out : Outside) :
    (s.wait t report out).sys.status t = if report = .exit then .exited else .stopped :=
  (s.within t).status_wait_self t report _

theorem status_wait_of_ne (s : Family) {t u : Pid} (report : Report) (out : Outside)
    (h : u ≠ t) : (s.wait t report out).sys.status u = s.sys.status u :=
  (s.within t).status_wait_of_ne report _ h

theorem born_wait (s : Family) (t : Pid) (report : Report) (out : Outside) {u : Pid}
    (h : s.sys.status u ≠ .unborn) : (s.wait t report out).sys.status u ≠ .unborn := by
  by_cases heq : u = t
  · rw [heq, status_wait_self]
    split <;> simp
  · rw [status_wait_of_ne _ _ _ heq]
    exact h

/-- The record of the reported thread. -/
theorem child_wait_self (s : Family) (t : Pid) (report : Report) (out : Outside) :
    (s.wait t report out).child t =
      if report = .stop .sigstop false then (s.child t).map fun c => { c with handled := true }
      else s.child t := by
  show (if report = .stop .sigstop false then Function.update s.child t _ else s.child) t = _
  split
  · exact Function.update_self _ _ _
  · rfl

theorem child_wait_of_ne (s : Family) {t u : Pid} (report : Report) (out : Outside)
    (h : u ≠ t) : (s.wait t report out).child u = s.child u := by
  show (if report = .stop .sigstop false then Function.update s.child t _ else s.child) u = _
  split
  · exact Function.update_of_ne h _ _
  · rfl

/-- Only the marks change. -/
theorem child_wait (s : Family) (t : Pid) (report : Report) (out : Outside) (u : Pid) :
    ((s.wait t report out).child u).map Child.space = (s.child u).map Child.space := by
  by_cases heq : u = t
  · rw [heq, child_wait_self]
    split
    · rw [Option.map_map]
      rfl
    · rfl
  · rw [child_wait_of_ne _ _ _ heq]

theorem space_wait (s : Family) (t : Pid) (report : Report) (out : Outside) (u : Pid) :
    (s.wait t report out).space u = s.space u := by
  have h := s.child_wait t report out u
  cases hs : s.child u with
  | none =>
      rw [hs] at h
      rw [space, space, hs, Option.map_eq_none_iff.mp h]
  | some c =>
      rw [hs] at h
      obtain ⟨c', hc', hspace⟩ := Option.map_eq_some_iff.mp h
      rw [space, space, hs, hc']
      exact hspace

theorem child_wait_eq_none_iff (s : Family) (t : Pid) (report : Report) (out : Outside) (u : Pid) :
    (s.wait t report out).child u = none ↔ s.child u = none := by
  have h := s.child_wait t report out u
  rw [← Option.map_eq_none_iff (f := Child.space), h, Option.map_eq_none_iff]

/-- **Every step of the family**, with the state it leads to. -/
inductive StepKind (s : Family) : FamilyLabel → Family → Prop
  | trap (t : Pid) (ctx : Context) (hrun : s.sys.status t = .running)
      (hbyte : (s.codeAt (s.space t)).text ctx.regs.rip = trapByte) (htraced : s.traced t = true) :
      StepKind s (.sys (.fetch t ctx))
        (s.setThread t ⟨.pending (.stop .sigtrap false), ctx.trapped⟩)
  | execute (t : Pid) (ctx : Context) (hrun : s.sys.status t = .running)
      (hbyte : (s.codeAt (s.space t)).text ctx.regs.rip ≠ trapByte) :
      StepKind s (.sys (.fetch t ctx)) s
  | signal (t : Pid) (signum : Signo) (ctx : Context) (hrun : s.sys.status t = .running)
      (htraced : s.traced t = true) :
      StepKind s (.sys (.signal t signum ctx)) (s.setThread t ⟨.pending (.stop signum false), ctx⟩)
  | clone (t u : Pid) (ctx : Context) (hrun : s.sys.status t = .running)
      (hunborn : s.sys.status u = .unborn) (htraced : s.traced t = true) :
      StepKind s (.sys (.clone t u ctx))
        ((s.created t u ctx).adopt u ((s.child t).map fun c => { c with handled := false }))
  | fork (t u : Pid) (ctx : Context) (hrun : s.sys.status t = .running)
      (hunborn : s.sys.status u = .unborn) (htraced : s.traced t = true) :
      StepKind s (.fork t u ctx)
        ((s.created t u ctx).newSpace u { space := none, forked := true } (s.codeAt (s.space t)))
  | vfork (t u : Pid) (ctx : Context) (hrun : s.sys.status t = .running)
      (hunborn : s.sys.status u = .unborn) (htraced : s.traced t = true) :
      StepKind s (.vfork t u ctx) ((s.created t u ctx).adopt u (some { space := s.space t }))
  | exec (t : Pid) (ctx : Context) (text : Bytes 64) (c : Child) (hchild : s.child t = some c)
      (hrun : s.sys.status t = .running) (thread : Thread)
      (hthread : thread =
        if c.traced then ⟨.pending (.stop .sigtrap false), ctx⟩ else ⟨.running, ctx⟩) :
      StepKind s (.exec t ctx text)
        ((s.setThread t thread).newSpace t { c with forked := false } { text := text })
  | exit (t : Pid) (hborn : s.sys.status t ≠ .unborn) (htraced : s.traced t = true) :
      StepKind s (.sys (.exit t)) (s.setThread t ⟨.pending .exit, s.sys.context t⟩)
  | leave (t : Pid) (hrun : s.sys.status t = .running) (htraced : s.traced t = false) :
      StepKind s (.sys (.exit t)) (s.setThread t ⟨.exited, s.sys.context t⟩)
  | interrupt (signum : Signo) :
      StepKind s (.sys (.interrupt signum))
        { s with sys := { s.sys with monitor := { s.sys.monitor with signo := some signum } } }
  | wait (t : Pid) (report : Report) (out : Outside) (hpending : s.sys.status t = .pending report)
      (hwait : s.sys.AtWaitpid) : StepKind s (.sys (.wait t out)) (s.wait t report out)
  | waitAgain (hwait : s.sys.AtWaitpid) : StepKind s (.sys (.waitFails true)) s
  | waitError (hwait : s.sys.AtWaitpid) :
      StepKind s (.sys (.waitFails false))
        { s with sys := { s.sys with phase := .left .waitError } }
  | issueWrite (w : Write) (queue : List Request) (hqueue : s.sys.queue = .write w :: queue) :
      StepKind s (.sys .issue)
        (({ s with sys := { s.sys with queue := queue } } : Family).setCode (s.space s.current)
          ((s.codeAt (s.space s.current)).write w))
  | issueResume (t : Pid) (signum : Option Signo) (queue : List Request)
      (hqueue : s.sys.queue = .resume t signum :: queue) :
      StepKind s (.sys .issue) { s with sys := { s.sys with queue := queue }.resume t }
  | issueAlarm (seconds : Int) (queue : List Request)
      (hqueue : s.sys.queue = .alarm seconds :: queue) :
      StepKind s (.sys .issue) { s with sys := { s.sys with queue := queue } }
  | writeChild (pid : Pid) (address data : Word) (queue : List Request)
      (hqueue : s.sys.queue = .writeChild pid address data :: queue) :
      StepKind s (.sys .issue) (s.writeChild queue pid address data)
  | detach (pid : Pid) (queue : List Request) (hqueue : s.sys.queue = .detach pid :: queue) :
      StepKind s (.sys .issue) (s.detach queue pid)

theorem setCode_self (s : Family) (space : Option Nat) : s.setCode space (s.codeAt space) = s := by
  cases space with
  | none => rfl
  | some i =>
      simp only [setCode, codeAt, Function.update_eq_self]

/-- The text is put back where it was. -/
theorem setCode_within (s : Family) (t : Pid) (sys sys' : System)
    (hcode : sys.code = (s.within t).code) (hsys : { sys with code := s.sys.code } = sys') :
    ({ s with sys := { sys with code := s.sys.code } } : Family).setCode (s.space t) sys.code =
      { s with sys := sys' } := by
  subst hsys
  rw [hcode]
  exact setCode_self { s with sys := { sys with code := s.sys.code } } (s.space t)

/-- A step that leaves the text alone. -/
theorem run_keeps {s s' : Family} {t : Pid} {label : Label} (h : s.run t label = some s')
    (hcode : ∀ sys, (s.within t).step label = some sys → sys.code = (s.within t).code) :
    ∃ sys, (s.within t).step label = some sys ∧
      s' = { s with sys := { sys with code := s.sys.code } } := by
  obtain ⟨sys, hstep, rfl⟩ := Option.map_eq_some_iff.mp h
  exact ⟨sys, hstep, s.setCode_within t sys _ (hcode sys hstep) rfl⟩

theorem step_kind {s s' : Family} {label : FamilyLabel} (h : s.step label = some s') :
    s.StepKind label s' := by
  -- what creates a thread or a process
  have hcreate : ∀ (t u : Pid) (ctx : Context) (f : Family → Family),
      (s.run t (.clone t u ctx)).map f = some s' →
      s.sys.status t = .running ∧ s.sys.status u = .unborn ∧ s' = f (s.created t u ctx) := by
    intro t u ctx f h
    obtain ⟨s₁, hrun, rfl⟩ := Option.map_eq_some_iff.mp h
    obtain ⟨sys, hstep, rfl⟩ := run_keeps hrun fun _ h => System.code_step h (by simp)
    cases System.step_kind hstep with
    | clone _ _ _ hrunning hunborn => exact ⟨hrunning, hunborn, rfl⟩
  cases label with
  | sys label =>
      cases label with
      | fetch t ctx =>
          rw [step] at h
          split at h
          · rename_i htraced
            obtain ⟨sys, hstep, rfl⟩ := run_keeps h fun _ h => System.code_step h (by simp)
            cases System.step_kind hstep with
            | trap _ _ hrun hbyte => exact .trap t ctx hrun hbyte htraced
            | execute _ _ hrun hbyte => exact .execute t ctx hrun hbyte
          · cases h
      | signal t signum ctx =>
          rw [step] at h
          split at h
          · rename_i htraced
            obtain ⟨sys, hstep, rfl⟩ := run_keeps h fun _ h => System.code_step h (by simp)
            cases System.step_kind hstep with
            | signal _ _ _ hrun => exact .signal t signum ctx hrun htraced
          · cases h
      | clone t u ctx =>
          rw [step] at h
          split at h
          · rename_i htraced
            obtain ⟨hrun, hunborn, rfl⟩ := hcreate t u ctx _ h
            exact .clone t u ctx hrun hunborn htraced
          · cases h
      | exit t =>
          rw [step] at h
          split at h
          · rename_i htraced
            obtain ⟨sys, hstep, rfl⟩ := run_keeps h fun _ h => System.code_step h (by simp)
            cases System.step_kind hstep with
            | exit _ hborn => exact .exit t hborn htraced
          · rename_i htraced
            split at h
            · rename_i hrun
              cases h
              exact .leave t hrun (by simpa using htraced)
            · cases h
      | interrupt signum =>
          obtain ⟨sys, hstep, rfl⟩ := run_keeps h fun _ h => System.code_step h (by simp)
          cases System.step_kind hstep with
          | interrupt _ => exact .interrupt signum
      | wait t out =>
          rw [step] at h
          split at h
          · rename_i report hpending
            obtain ⟨s₁, hrun, rfl⟩ := Option.map_eq_some_iff.mp h
            obtain ⟨sys, hstep, rfl⟩ := run_keeps hrun fun _ h => System.code_step h (by simp)
            cases System.step_kind hstep with
            | wait _ report' _ hpending' hwait =>
                obtain rfl := Status.pending.inj (hpending.symm.trans hpending')
                exact .wait t report out hpending hwait
          · cases h
      | waitFails eintr =>
          obtain ⟨sys, hstep, rfl⟩ := run_keeps h fun _ h => System.code_step h (by simp)
          cases System.step_kind hstep with
          | waitAgain hwait => exact .waitAgain hwait
          | waitError hwait => exact .waitError hwait
      | issue =>
          rw [step] at h
          split at h
          · rename_i pid address data queue hqueue
            cases h
            exact .writeChild pid address data queue hqueue
          · rename_i pid queue hqueue
            cases h
            exact .detach pid queue hqueue
          · rename_i hwrite hdetach
            obtain ⟨sys, hstep, rfl⟩ := Option.map_eq_some_iff.mp h
            rw [System.step] at hstep
            split at hstep
            · cases hstep
            · rename_i r queue hqueue
              cases hstep
              cases r with
              | write w => exact .issueWrite w queue hqueue
              | resume t signum =>
                  rw [s.setCode_within s.current ((s.within s.current).issue queue (.resume t signum))
                    ({ s.sys with queue := queue }.resume t)]
                  · exact .issueResume t signum queue hqueue
                  · exact (System.resume_keeps _ t).2.1
                  · exact (System.resume_code { s.within s.current with queue := queue } _ t).symm
              | alarm seconds =>
                  rw [s.setCode_within s.current ((s.within s.current).issue queue (.alarm seconds))
                    { s.sys with queue := queue } rfl rfl]
                  exact .issueAlarm seconds queue hqueue
              | writeChild pid address data => exact absurd hqueue (hwrite pid address data queue)
              | detach pid => exact absurd hqueue (hdetach pid queue)
  | fork t u ctx =>
      rw [step] at h
      split at h
      · rename_i htraced
        obtain ⟨hrun, hunborn, rfl⟩ := hcreate t u ctx _ h
        exact .fork t u ctx hrun hunborn htraced
      · cases h
  | vfork t u ctx =>
      rw [step] at h
      split at h
      · rename_i htraced
        obtain ⟨hrun, hunborn, rfl⟩ := hcreate t u ctx _ h
        exact .vfork t u ctx hrun hunborn htraced
      · cases h
  | exec t ctx text =>
      rw [step] at h
      split at h
      · cases h
      · rename_i c hchild
        split at h
        · rename_i hrun
          cases h
          exact .exec t ctx text c hchild hrun _ rfl
        · cases h

/-- A step of a target that the loop is made for. Nothing is asked of the child
processes with a memory of their own. -/
def Traces (s : Family) : FamilyLabel → Prop
  | .sys (.fetch t ctx) => s.space t = none → s.sys.Traces (.fetch t ctx)
  | .sys (.signal t signum ctx) => s.space t = none → s.sys.Traces (.signal t signum ctx)
  | _ => True

instance (s : Family) : (label : FamilyLabel) → Decidable (s.Traces label)
  | .sys (.fetch _ _) | .sys (.signal _ _ _) => inferInstanceAs (Decidable (_ → _))
  | .sys (.clone _ _ _) | .sys (.exit _) | .sys (.interrupt _) | .sys (.wait _ _)
  | .sys (.waitFails _) | .sys .issue | .fork _ _ _ | .vfork _ _ _ | .exec _ _ _ =>
      inferInstanceAs (Decidable True)

end Family

/-! ## Sample runs -/

/-- Thread `t` forks the child process 3, which is reported. -/
def sampleFork (t : Pid) : List FamilyLabel :=
  [.fork t 3 (sampleContext 0x3000 0 0 0), .sys (.wait 3 sampleOutside)]

def familyIssues (n : Nat) : List FamilyLabel := (issues n).map FamilyLabel.sys

end Memleax
