import Memleax.Tracer.Breakpoint

/-!
# The loop of `main`

One iteration of the loop of `memleax.c`, from what `waitpid` reports to the
next `waitpid`. Between the two the loop reads what a stopped thread and its
own variables hold, which the running threads cannot change, and sends requests
to the kernel: the iteration is a function to the requests it sends, in order,
and to the variables it leaves behind (`Turn`).

What C leaves undefined is an outcome of its own (`Phase.undefined`): a `bp`
that is `NULL` where it is followed, and a hold beyond the 1000 elements of
`hold_threads`.
-/

namespace Memleax

open Framework

abbrev Pid := Nat

/-- The signals that the loop tells apart. -/
inductive Signo where
  | sigstop
  | sigtrap
  | sigalrm
  | sigint
  | sighup
  | sigterm
  | other (number : Nat)
deriving DecidableEq, Repr

/-- What `waitpid` says about one thread: a stop, with `WSTOPSIG(status)` and
whether `status >> 16` is set, or the end of the thread. -/
inductive Report where
  | stop (signum : Signo) (event : Bool)
  | exit
deriving DecidableEq, Repr

inductive Request where
  | write (w : Write)
  /-- `ptrace_continue(pid, signum)`, `none` for `0` -/
  | resume (pid : Pid) (signum : Option Signo)
  | alarm (seconds : Int)
  /-- a `ptrace_set_data` on a child process -/
  | writeChild (pid : Pid) (address data : Word)
  | detach (pid : Pid)
deriving DecidableEq, Repr

/-- The `break`s out of the loop. -/
inductive Exit where
  | waitError
  | targetExit
  | terminate
  | notEnoughMemory
  | unknownBreakpoint
  | tooMany
deriving DecidableEq, Repr

inductive Phase where
  | loop
  | left (why : Exit)
  | undefined
deriving DecidableEq, Repr

/-- A call of `bp->handler(ret, arg1, arg2)` for thread `g_current_thread`. -/
structure Invocation where
  thread : Pid
  api : Api
  ret : Word
  arg1 : Word
  arg2 : Word
deriving DecidableEq, Repr

/-- The variables of `main` and the globals that it uses. -/
structure Monitor where
  targetPid : Pid
  limits : Limits
  breakpoints : Breakpoints
  bp : Option Api := none
  returnAddress : Word := 0
  returnCode : Word := 0
  arg1 : Word := 0
  arg2 : Word := 0
  lastThread : Pid := 0
  /-- `hold_threads[0 .. hold_thread_num)`, the last one first -/
  holdThreads : List Pid := []
  /-- `g_signo`, `none` for `0` -/
  signo : Option Signo := none
  currentEntry : Word := 0
  currentThread : Pid := 0
  store : Store := {}

/-- The answers of the outside during one iteration. The frames that the
unwinder finds are `env.ips`; `g_current_entry` comes before them. -/
structure Outside where
  env : Env
  /-- `time(NULL)` in `memblock_expire` -/
  sweepNow : Int
  /-- `proc_task_check(g_target_pid, pid)` -/
  isTask : Bool := true

structure Turn where
  monitor : Monitor
  /-- the reported thread's, after `ptrace_set_regs` -/
  context : Context
  requests : List Request := []
  phase : Phase := .loop
  invoked : Option Invocation := none

/-- `hold_threads[1000]`. -/
def holdMax : Nat := 1000

namespace Monitor

/-- From `lexpire` to the end of the body, after the requests `sent`. -/
def lexpire (m : Monitor) (pid : Pid) (ctx : Context) (out : Outside) (sent : List Request)
    (invoked : Option Invocation) : Turn :=
  let r := memblockExpire m.store out.sweepNow m.limits
  let m := { m with store := r.2 }
  if r.1 < 0 then ⟨m, ctx, sent, .left .tooMany, invoked⟩
  else ⟨m, ctx, sent ++ [.alarm r.1, .resume pid none], .loop, invoked⟩

/-- A `SIGSTOP`: by `signal_handler`, or of a new thread or process. -/
def onSigstop (m : Monitor) (pid : Pid) (ctx : Context) (out : Outside) : Turn :=
  if m.signo = some .sigalrm then { m with signo := none }.lexpire pid ctx out [] none
  else if m.signo ≠ none then { monitor := m, context := ctx, phase := .left .terminate }
  else if out.isTask then { monitor := m, context := ctx, requests := [.resume pid none] }
  else
    { monitor := m
      context := ctx
      requests := (Api.all.map fun api =>
          .writeChild pid (m.breakpoints api).entryAddress (m.breakpoints api).entryCode) ++
        [.detach pid] }

/-- The writes of the block under `if (return_address != 0)`; `none` when it
follows a `NULL` pointer. -/
def recover (m : Monitor) : Option (List Write) :=
  if m.returnAddress = 0 then some []
  else
    m.bp.map fun api =>
      [⟨.recoverReturn, m.returnAddress, m.returnCode⟩,
        ⟨.resetEntry api, (m.breakpoints api).entryAddress,
          trapCode (m.breakpoints api).entryCode⟩]

/-- "at function return". -/
def atReturn (m : Monitor) (pid : Pid) (ctx : Context) (out : Outside) (sent : List Request)
    (api : Api) : Turn :=
  let m := { m with
    currentEntry := (m.breakpoints api).entryAddress
    currentThread := pid
    returnAddress := 0 }
  let env := { out.env with ips := m.currentEntry :: out.env.ips }
  let r := api.handler m.store env (callReturnValue ctx) m.arg1 m.arg2
  let invoked := some ⟨pid, api, callReturnValue ctx, m.arg1, m.arg2⟩
  let m := { m with store := r.2 }
  if r.1 ≠ 0 then ⟨m, ctx, sent, .left .notEnoughMemory, invoked⟩
  else
    -- wakeup one hold-thread
    match m.holdThreads with
    | [] => m.lexpire pid ctx out sent invoked
    | held :: rest =>
        { m with holdThreads := rest }.lexpire pid ctx out (sent ++ [Request.resume held none]) invoked

/-- "at function entry", on the text that `code` shows by now. -/
def atEntry (m : Monitor) (pid : Pid) (ctx : Context) (out : Outside) (sent : List Request)
    (code : Code) (api : Api) : Turn :=
  let bp := m.breakpoints api
  let w : Write := ⟨.recoverEntry api, bp.entryAddress, bp.entryCode⟩
  let returnAddress := callReturnAddress ctx
  let returnCode := ptraceGetData (code.write w).text returnAddress
  let w' : Write := ⟨.setReturn, returnAddress, trapCode returnCode⟩
  let m := { m with
    bp := some api
    returnAddress := returnAddress
    returnCode := returnCode
    arg1 := callArg1 ctx
    arg2 := callArg2 ctx
    lastThread := pid }
  m.lexpire pid ctx out (sent ++ [Request.write w, Request.write w']) none

/-- A trap that is neither at the return address nor at an entry. -/
def elsewhere (m : Monitor) (pid : Pid) (ctx : Context) (out : Outside) (sent : List Request)
    (code : Code) : Turn :=
  let m := { m with bp := none }
  if isBreakpoint code.text ctx.regs.rip then ⟨m, ctx, sent, .left .unknownBreakpoint, none⟩
  else m.lexpire pid ctx out sent none

/-- A `SIGTRAP` that is no event, from "get registers" on. -/
def onSigtrap (m : Monitor) (code : Code) (pid : Pid) (ctx : Context) (out : Outside) : Turn :=
  let ctx := pcUnwind ctx
  let rip := ctx.regs.rip
  if m.returnAddress ≠ 0 ∧ m.lastThread ≠ pid then
    -- another thread is in a function, so hold this one
    if m.holdThreads.length < holdMax then
      { monitor := { m with holdThreads := pid :: m.holdThreads }, context := ctx }
    else { monitor := m, context := ctx, phase := .undefined }
  else
    match m.recover with
    | none => { monitor := m, context := ctx, phase := .undefined }
    | some writes =>
        let sent := writes.map Request.write
        let code := writes.foldl Code.write code
        if rip = m.returnAddress then
          match m.bp with
          | none => { monitor := m, context := ctx, requests := sent, phase := .undefined }
          | some api => m.atReturn pid ctx out sent api
        else
          match breakpointByEntry m.breakpoints rip with
          | some api => m.atEntry pid ctx out sent code api
          | none => m.elsewhere pid ctx out sent code

/-- One iteration, on a report of `waitpid`. -/
def turn (m : Monitor) (code : Code) (pid : Pid) (report : Report) (ctx : Context)
    (out : Outside) : Turn :=
  match report with
  | .exit =>
      if pid ≠ m.targetPid then { monitor := m, context := ctx }
      else { monitor := m, context := ctx, phase := .left .targetExit }
  | .stop .sigstop _ => m.onSigstop pid ctx out
  | .stop .sigtrap true => { monitor := m, context := ctx, requests := [.resume pid none] }
  | .stop .sigtrap false => m.onSigtrap code pid ctx out
  | .stop signum _ => { monitor := m, context := ctx, requests := [.resume pid (some signum)] }

end Monitor

/-- What follows the loop: `breakpoint_cleanup`, and the return code when a
call is pending. -/
def Monitor.detachText (m : Monitor) (text : Bytes 64) : Bytes 64 :=
  let text := breakpointCleanup m.breakpoints text
  if m.returnAddress ≠ 0 then ptraceSetData text m.returnAddress m.returnCode else text

/-! ## What one iteration does -/

/-- The variables that describe the call being tracked. -/
structure Tracked where
  bp : Option Api
  returnAddress : Word
  returnCode : Word
  arg1 : Word
  arg2 : Word
  lastThread : Pid

def Monitor.tracked (m : Monitor) : Tracked :=
  ⟨m.bp, m.returnAddress, m.returnCode, m.arg1, m.arg2, m.lastThread⟩

def NoWrites (requests : List Request) : Prop := ∀ w, Request.write w ∉ requests

theorem noWrites_nil : NoWrites [] := fun _ h => by cases h

def Report.unwind (report : Report) (ctx : Context) : Context :=
  if report = .stop .sigtrap false then pcUnwind ctx else ctx

/-- The word that is saved at the return address of a call of `api`. -/
def Code.returnCode (code : Code) (bps : Breakpoints) (api : Api) (returnAddress : Word) : Word :=
  ptraceGetData
    (code.write ⟨.recoverEntry api, (bps api).entryAddress, (bps api).entryCode⟩).text
    returnAddress

def Code.entryWrites (code : Code) (bps : Breakpoints) (api : Api) (returnAddress : Word) :
    List Write :=
  [⟨.recoverEntry api, (bps api).entryAddress, (bps api).entryCode⟩,
    ⟨.setReturn, returnAddress, trapCode (code.returnCode bps api returnAddress)⟩]

/-- **Everything an iteration can do to the text and to the tracked call.** A
report is quiet, or it is a trap that is taken for the return of the tracked
call, for a call, or for neither. -/
inductive Monitor.TurnKind (m : Monitor) (code : Code) (pid : Pid) (report : Report)
    (ctx : Context) (turn : Turn) : Prop
  | quiet (htracked : turn.monitor.tracked = m.tracked) (hwrites : NoWrites turn.requests)
      (hinvoked : turn.invoked = none) (hphase : turn.phase ≠ .left .unknownBreakpoint)
      (htrap : report = .stop .sigtrap false →
        (m.returnAddress ≠ 0 ∧ m.lastThread ≠ pid) ∨ turn.phase = .undefined)
  | atReturn (writes : List Write) (rest : List Request) (api : Api)
      (htrap : report = .stop .sigtrap false)
      (hlast : m.returnAddress ≠ 0 → m.lastThread = pid) (hrecover : m.recover = some writes)
      (hbp : m.bp = some api) (hrip : (pcUnwind ctx).regs.rip = m.returnAddress)
      (hrest : NoWrites rest) (hrequests : turn.requests = writes.map Request.write ++ rest)
      (htracked : turn.monitor.tracked = { m.tracked with returnAddress := 0 })
      (hinvoked : turn.invoked = some ⟨pid, api, callReturnValue ctx, m.arg1, m.arg2⟩)
      (hphase : turn.phase ≠ .left .unknownBreakpoint)
  | atEntry (writes : List Write) (rest : List Request) (api : Api)
      (htrap : report = .stop .sigtrap false)
      (hlast : m.returnAddress ≠ 0 → m.lastThread = pid) (hrecover : m.recover = some writes)
      (hrip : (pcUnwind ctx).regs.rip ≠ m.returnAddress)
      (hentry : breakpointByEntry m.breakpoints (pcUnwind ctx).regs.rip = some api)
      (hrest : NoWrites rest)
      (hrequests : turn.requests = (writes ++ (writes.foldl Code.write code).entryWrites
        m.breakpoints api (callReturnAddress ctx)).map Request.write ++ rest)
      (htracked : turn.monitor.tracked =
        { bp := some api
          returnAddress := callReturnAddress ctx
          returnCode := (writes.foldl Code.write code).returnCode m.breakpoints api
            (callReturnAddress ctx)
          arg1 := callArg1 ctx
          arg2 := callArg2 ctx
          lastThread := pid })
      (hinvoked : turn.invoked = none) (hphase : turn.phase ≠ .left .unknownBreakpoint)
  | elsewhere (writes : List Write) (rest : List Request)
      (htrap : report = .stop .sigtrap false)
      (hlast : m.returnAddress ≠ 0 → m.lastThread = pid) (hrecover : m.recover = some writes)
      (hrip : (pcUnwind ctx).regs.rip ≠ m.returnAddress)
      (hentry : breakpointByEntry m.breakpoints (pcUnwind ctx).regs.rip = none)
      (hrest : NoWrites rest) (hrequests : turn.requests = writes.map Request.write ++ rest)
      (htracked : turn.monitor.tracked = { m.tracked with bp := none })
      (hinvoked : turn.invoked = none)
      (hphase : turn.phase = .left .unknownBreakpoint →
        isBreakpoint (writes.foldl Code.write code).text (pcUnwind ctx).regs.rip = true)

theorem Monitor.lexpire_spec (m : Monitor) (pid : Pid) (ctx : Context) (out : Outside)
    (sent : List Request) (invoked : Option Invocation) :
    (m.lexpire pid ctx out sent invoked).monitor.tracked = m.tracked ∧
      (m.lexpire pid ctx out sent invoked).monitor.breakpoints = m.breakpoints ∧
      (m.lexpire pid ctx out sent invoked).context = ctx ∧
      (m.lexpire pid ctx out sent invoked).invoked = invoked ∧
      (m.lexpire pid ctx out sent invoked).phase ≠ .left .unknownBreakpoint ∧
      ∃ rest, NoWrites rest ∧ (m.lexpire pid ctx out sent invoked).requests = sent ++ rest := by
  unfold Monitor.lexpire
  by_cases hneg : (memblockExpire m.store out.sweepNow m.limits).1 < 0
  · rw [if_pos hneg]
    exact ⟨rfl, rfl, rfl, rfl, nofun, [], noWrites_nil, (List.append_nil _).symm⟩
  · rw [if_neg hneg]
    exact ⟨rfl, rfl, rfl, rfl, nofun, _, by simp [NoWrites], rfl⟩

section Turn

variable (m : Monitor) (code : Code) (pid : Pid) (ctx : Context) (out : Outside)

theorem Monitor.onSigstop_kind (event : Bool) :
    m.TurnKind code pid (.stop .sigstop event) ctx (m.onSigstop pid ctx out) := by
  unfold Monitor.onSigstop
  split
  · obtain ⟨htracked, -, -, hinvoked, hphase, rest, hrest, hrequests⟩ :=
      Monitor.lexpire_spec { m with signo := none } pid ctx out [] none
    exact .quiet htracked (by rw [hrequests]; exact hrest) hinvoked hphase nofun
  · split
    · exact .quiet rfl noWrites_nil rfl nofun nofun
    · split
      · exact .quiet rfl (by simp [NoWrites]) rfl nofun nofun
      · exact .quiet rfl (by simp [NoWrites]) rfl nofun nofun

theorem Monitor.atReturn_spec (sent : List Request) (api : Api) :
    (m.atReturn pid ctx out sent api).monitor.tracked = { m.tracked with returnAddress := 0 } ∧
      (m.atReturn pid ctx out sent api).monitor.breakpoints = m.breakpoints ∧
      (m.atReturn pid ctx out sent api).context = ctx ∧
      (m.atReturn pid ctx out sent api).invoked =
        some ⟨pid, api, callReturnValue ctx, m.arg1, m.arg2⟩ ∧
      (m.atReturn pid ctx out sent api).phase ≠ .left .unknownBreakpoint ∧
      ∃ rest, NoWrites rest ∧ (m.atReturn pid ctx out sent api).requests = sent ++ rest := by
  rw [Monitor.atReturn]
  split
  · exact ⟨rfl, rfl, rfl, rfl, nofun, [], noWrites_nil, (List.append_nil _).symm⟩
  · split
    · exact Monitor.lexpire_spec _ pid ctx out sent _
    · rename_i held rest _
      obtain ⟨htracked, hbps, hctx, hinvoked, hphase, more, hmore, hrequests⟩ :=
        Monitor.lexpire_spec _ pid ctx out (sent ++ [Request.resume held none]) _
      refine ⟨htracked, hbps, hctx, hinvoked, hphase, .resume held none :: more, ?_, ?_⟩
      · intro w hw
        rcases List.mem_cons.mp hw with h | h
        · cases h
        · exact hmore w h
      · rw [hrequests, List.append_assoc]
        rfl

theorem Monitor.onSigtrap_kind :
    m.TurnKind code pid (.stop .sigtrap false) ctx (m.onSigtrap code pid ctx out) := by
  unfold Monitor.onSigtrap
  by_cases hhold : m.returnAddress ≠ 0 ∧ m.lastThread ≠ pid
  · rw [if_pos hhold]
    split
    · exact .quiet rfl noWrites_nil rfl nofun fun _ => Or.inl hhold
    · exact .quiet rfl noWrites_nil rfl nofun fun _ => Or.inl hhold
  · rw [if_neg hhold]
    have hlast : m.returnAddress ≠ 0 → m.lastThread = pid := fun h0 =>
      Decidable.byContradiction fun hne => hhold ⟨h0, hne⟩
    cases hrecover : m.recover with
    | none => exact .quiet rfl noWrites_nil rfl nofun fun _ => Or.inr rfl
    | some writes =>
        dsimp only
        by_cases hrip : (pcUnwind ctx).regs.rip = m.returnAddress
        · rw [if_pos hrip]
          cases hbp : m.bp with
          | none =>
              -- without a `bp` nothing has been recovered
              have hwrites : writes = [] := by
                rw [Monitor.recover, hbp] at hrecover
                split at hrecover
                · exact (Option.some.inj hrecover).symm
                · cases hrecover
              exact .quiet rfl (by simp [hwrites, NoWrites]) rfl nofun fun _ => Or.inr rfl
          | some api =>
              obtain ⟨htracked, -, -, hinvoked, hphase, rest, hrest, hrequests⟩ :=
                m.atReturn_spec pid (pcUnwind ctx) out (writes.map Request.write) api
              exact .atReturn writes rest api rfl hlast hrecover hbp hrip hrest hrequests htracked
                hinvoked hphase
        · rw [if_neg hrip]
          cases hentry : breakpointByEntry m.breakpoints (pcUnwind ctx).regs.rip with
          | some api =>
              obtain ⟨htracked, -, -, hinvoked, hphase, rest, hrest, hrequests⟩ :=
                Monitor.lexpire_spec _ pid (pcUnwind ctx) out _ none
              refine .atEntry writes rest api rfl hlast hrecover hrip hentry hrest
                (hrequests.trans ?_) htracked hinvoked hphase
              rw [List.map_append]
              rfl
          | none =>
              dsimp only
              unfold Monitor.elsewhere
              split
              · rename_i hbreak
                exact .elsewhere writes [] rfl hlast hrecover hrip hentry noWrites_nil
                  (List.append_nil _).symm rfl rfl fun _ => hbreak
              · obtain ⟨htracked, -, -, hinvoked, hphase, rest, hrest, hrequests⟩ :=
                  Monitor.lexpire_spec { m with bp := none } pid (pcUnwind ctx) out
                    (writes.map Request.write) none
                exact .elsewhere writes rest rfl hlast hrecover hrip hentry hrest hrequests
                  htracked hinvoked fun h => absurd h hphase

theorem Monitor.turn_kind (report : Report) :
    m.TurnKind code pid report ctx (m.turn code pid report ctx out) := by
  cases report with
  | exit =>
      rw [Monitor.turn]
      split
      · exact .quiet rfl noWrites_nil rfl nofun nofun
      · exact .quiet rfl noWrites_nil rfl nofun nofun
  | stop signum event =>
      cases signum with
      | sigstop => exact m.onSigstop_kind code pid ctx out event
      | sigtrap =>
          cases event with
          | false => exact m.onSigtrap_kind code pid ctx out
          | true => exact .quiet rfl (by simp [Monitor.turn, NoWrites]) rfl nofun nofun
      | sigalrm => exact .quiet rfl (by simp [Monitor.turn, NoWrites]) rfl nofun nofun
      | sigint => exact .quiet rfl (by simp [Monitor.turn, NoWrites]) rfl nofun nofun
      | sighup => exact .quiet rfl (by simp [Monitor.turn, NoWrites]) rfl nofun nofun
      | sigterm => exact .quiet rfl (by simp [Monitor.turn, NoWrites]) rfl nofun nofun
      | other number => exact .quiet rfl (by simp [Monitor.turn, NoWrites]) rfl nofun nofun

theorem Monitor.onSigtrap_keeps :
    (m.onSigtrap code pid ctx out).context = pcUnwind ctx ∧
      (m.onSigtrap code pid ctx out).monitor.breakpoints = m.breakpoints := by
  unfold Monitor.onSigtrap
  split
  · split <;> exact ⟨rfl, rfl⟩
  · cases m.recover with
    | none => exact ⟨rfl, rfl⟩
    | some writes =>
        dsimp only
        split
        · cases m.bp with
          | none => exact ⟨rfl, rfl⟩
          | some api =>
              obtain ⟨-, hbps, hctx, -⟩ :=
                m.atReturn_spec pid (pcUnwind ctx) out (writes.map Request.write) api
              exact ⟨hctx, hbps⟩
        · cases breakpointByEntry m.breakpoints (pcUnwind ctx).regs.rip with
          | some api =>
              obtain ⟨-, hbps, hctx, -⟩ :=
                Monitor.lexpire_spec _ pid (pcUnwind ctx) out _ none
              exact ⟨hctx, hbps⟩
          | none =>
              dsimp only
              unfold Monitor.elsewhere
              split
              · exact ⟨rfl, rfl⟩
              · obtain ⟨-, hbps, hctx, -⟩ :=
                  Monitor.lexpire_spec { m with bp := none } pid (pcUnwind ctx) out
                    (writes.map Request.write) none
                exact ⟨hctx, hbps⟩

theorem Monitor.onSigstop_keeps :
    (m.onSigstop pid ctx out).context = ctx ∧
      (m.onSigstop pid ctx out).monitor.breakpoints = m.breakpoints := by
  unfold Monitor.onSigstop
  split
  · obtain ⟨-, hbps, hctx, -⟩ := Monitor.lexpire_spec { m with signo := none } pid ctx out [] none
    exact ⟨hctx, hbps⟩
  · split
    · exact ⟨rfl, rfl⟩
    · split <;> exact ⟨rfl, rfl⟩

/-- The loop writes back the registers of a trapped thread, and of no other,
and leaves `g_breakpoints` alone. -/
theorem Monitor.turn_keeps (report : Report) :
    (m.turn code pid report ctx out).context = report.unwind ctx ∧
      (m.turn code pid report ctx out).monitor.breakpoints = m.breakpoints := by
  cases report with
  | exit =>
      rw [Monitor.turn]
      split <;> exact ⟨rfl, rfl⟩
  | stop signum event =>
      cases signum with
      | sigstop => exact m.onSigstop_keeps pid ctx out
      | sigtrap =>
          cases event with
          | false => exact m.onSigtrap_keeps code pid ctx out
          | true => exact ⟨rfl, rfl⟩
      | sigalrm => exact ⟨rfl, rfl⟩
      | sigint => exact ⟨rfl, rfl⟩
      | sighup => exact ⟨rfl, rfl⟩
      | sigterm => exact ⟨rfl, rfl⟩
      | other number => exact ⟨rfl, rfl⟩

/-! ## The variables that belong to others

`g_target_pid` is set before the loop and `g_signo` by `signal_handler`. -/

theorem Monitor.lexpire_globals (sent : List Request) (invoked : Option Invocation) :
    (m.lexpire pid ctx out sent invoked).monitor.targetPid = m.targetPid ∧
      (m.lexpire pid ctx out sent invoked).monitor.signo = m.signo := by
  unfold Monitor.lexpire
  dsimp only
  split <;> exact ⟨rfl, rfl⟩

theorem Monitor.onSigtrap_globals :
    (m.onSigtrap code pid ctx out).monitor.targetPid = m.targetPid ∧
      (m.onSigtrap code pid ctx out).monitor.signo = m.signo := by
  unfold Monitor.onSigtrap
  dsimp only
  split
  · split <;> exact ⟨rfl, rfl⟩
  · split
    · exact ⟨rfl, rfl⟩
    · split
      · split
        · exact ⟨rfl, rfl⟩
        · unfold Monitor.atReturn
          dsimp only
          split
          · exact ⟨rfl, rfl⟩
          · split <;> exact Monitor.lexpire_globals _ _ _ _ _ _
      · split
        · exact Monitor.lexpire_globals _ _ _ _ _ _
        · unfold Monitor.elsewhere
          dsimp only
          split
          · exact ⟨rfl, rfl⟩
          · exact Monitor.lexpire_globals _ _ _ _ _ _

/-- Only the iteration on a `SIGSTOP` looks at `g_signo`. -/
theorem Monitor.turn_globals (report : Report) :
    (m.turn code pid report ctx out).monitor.targetPid = m.targetPid ∧
      ((∀ event, report ≠ .stop .sigstop event) →
        (m.turn code pid report ctx out).monitor.signo = m.signo) := by
  cases report with
  | exit =>
      rw [Monitor.turn]
      split <;> exact ⟨rfl, fun _ => rfl⟩
  | stop signum event =>
      cases signum with
      | sigstop =>
          refine ⟨?_, fun hne => absurd rfl (hne event)⟩
          show (m.onSigstop pid ctx out).monitor.targetPid = _
          unfold Monitor.onSigstop
          split
          · exact (Monitor.lexpire_globals _ _ _ _ _ _).1
          · split
            · rfl
            · split <;> rfl
      | sigtrap =>
          cases event with
          | true => exact ⟨rfl, fun _ => rfl⟩
          | false =>
              obtain ⟨htarget, hsigno⟩ := m.onSigtrap_globals code pid ctx out
              exact ⟨htarget, fun _ => hsigno⟩
      | _ => exact ⟨rfl, fun _ => rfl⟩

end Turn

end Memleax
