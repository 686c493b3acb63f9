import Memleax.Store.Expiry
import Memleax.Tracer.Signals

/-!
# The expiry timer

`memblock_expire` returns the seconds until the oldest active block is overdue,
and the loop hands them to `alarm`. When the alarm goes off, `signal_handler`
leaves `SIGALRM` in `g_signo` and sends a `SIGSTOP` to the target; the loop
sweeps again when it meets a `SIGSTOP` stop. Only some paths through the loop
call `alarm`, so the next sweep may be owed to an alarm that was set many
iterations ago, or to a `SIGSTOP` under way.

The system of `Signals` is taken with the alarm and with the `SIGSTOP`s that
`signal_handler` has sent (`Timed`). When the alarm goes off, between which
steps, is up to the label. A `SIGCONT` makes the kernel discard a `SIGSTOP` that
no thread has taken yet, and the sweep that it stood for is lost
(`timer_lost_sigcont`).
-/

namespace Memleax

open Framework

structure Timed where
  fine : Fine
  /-- the last clock reading -/
  clock : Int
  /-- the time for which the alarm is set -/
  alarm : Option Int := none
  /-- a `SIGSTOP` of `signal_handler` waits for a thread to take it -/
  sent : Bool := false
  /-- the threads whose unreported stop is by such a `SIGSTOP` -/
  carries : Pid → Bool := fun _ => false

inductive TimedLabel where
  | fine (label : FineLabel)
  | fire
  /-- a thread is stopped by the `SIGSTOP` of `signal_handler` -/
  | take (t : Pid) (ctx : Context)
  /-- somebody sends the target a `SIGCONT` -/
  | sigcont

/-- A `SIGCONT` is sent to the target or reported. -/
def TimedLabel.isSigcont : TimedLabel → Bool
  | .sigcont => true
  | .fine (.sys (.signal _ signum _)) => signum = .other 18
  | _ => false

namespace Timed

/-- `alarm(seconds)`, right after the clock has been read. -/
def setAlarm (s : Timed) (seconds : Int) : Timed :=
  { s with alarm := if seconds = 0 then none else some (s.clock + seconds) }

/-- What a step means for the alarm and the `SIGSTOP`s. -/
def note (s : Timed) : FineLabel → Timed
  | .sys (.interrupt _) => { s with sent := true }
  -- 18 is `SIGCONT`; a `SIGSTOP` sent after it would have discarded it in turn
  | .sys (.signal _ signum _) => if signum = .other 18 then { s with sent := false } else s
  | .sys (.wait t out) =>
      { s with clock := out.sweepNow, carries := Function.update s.carries t false }
  | .sys .issue =>
      match s.fine.sys.queue with
      | .alarm seconds :: _ => s.setAlarm seconds
      | _ => s
  | _ => s

def step (s : Timed) : TimedLabel → Option Timed
  | .fine label => (s.fine.step label).map fun f => { s.note label with fine := f }
  | .fire =>
      if s.alarm = none then none
      else (s.fine.step (.sys (.interrupt .sigalrm))).map fun f =>
        { s with fine := f, alarm := none, sent := true }
  | .take t ctx =>
      if s.sent = true then
        (s.fine.step (.sys (.signal t .sigstop ctx))).map fun f =>
          { s with fine := f, sent := false, carries := Function.update s.carries t true }
      else none
  | .sigcont => some { s with sent := false }

/-- The clock does not run backwards, and no thread is killed in the stop that it
has taken from `signal_handler`. -/
def Ticking (s : Timed) : TimedLabel → Prop
  | .fine (.sys (.wait _ out)) =>
      s.clock ≤ out.env.freeNow ∧ out.env.freeNow ≤ out.env.now ∧ out.env.now ≤ out.sweepNow
  | .fine (.sys (.exit t)) => s.carries t = false
  | _ => True

instance (s : Timed) : (label : TimedLabel) → Decidable (s.Ticking label)
  | .fine (.sys (.wait _ _)) => inferInstanceAs (Decidable (_ ∧ _))
  | .fine (.sys (.exit _)) => inferInstanceAs (Decidable (_ = _))
  | .fine .advance | .fine (.sys (.fetch _ _)) | .fine (.sys (.signal _ _ _))
  | .fine (.sys (.clone _ _ _)) | .fine (.sys (.interrupt _)) | .fine (.sys (.waitFails _))
  | .fine (.sys .issue) | .fire | .take _ _ | .sigcont => inferInstanceAs (Decidable True)

/-- And no `SIGCONT` discards a `SIGSTOP` of `signal_handler`. -/
def Steady (s : Timed) (label : TimedLabel) : Prop :=
  s.Ticking label ∧ (label.isSigcont = true → s.sent = false)

instance (s : Timed) (label : TimedLabel) : Decidable (s.Steady label) :=
  inferInstanceAs (Decidable (_ ∧ _))

def store (s : Timed) : Store := s.fine.sys.monitor.store

def AtWaitpid (s : Timed) : Prop := s.fine.stage = .outside ∧ s.fine.sys.AtWaitpid

/-- The alarm is set for a time at which no active block is overdue by more than
a second. -/
def InTime (s : Timed) (expire : Int) : Prop :=
  ∃ time, s.alarm = some time ∧
    ∀ b ∈ s.store.active, time ≤ (s.store.block b).create + expire + 1

/-- A `SIGSTOP` of `signal_handler` has still to be processed. -/
def UnderWay (s : Timed) : Prop :=
  s.sent = true ∨
    ∃ t, s.carries t = true ∧ s.fine.sys.status t = .pending (.stop .sigstop false)

/-- The next sweep is owed to the alarm or to a `SIGSTOP`. -/
def Owed (s : Timed) (expire : Int) : Prop :=
  s.InTime expire ∨ (s.fine.sys.monitor.signo ≠ none ∧ s.UnderWay)

end Timed

/-! ## What an iteration does about the timer -/

def NoAlarms (requests : List Request) : Prop := ∀ seconds, Request.alarm seconds ∉ requests

/-- The iteration ends with a sweep and its `alarm`, at time `sweepNow`, after at
most one call of a handler, at time `callNow`. -/
structure Monitor.Swept (m : Monitor) (callNow sweepNow : Int) (turn : Turn) (s : Store)
    (before : List Request) (pid : Pid) : Prop where
  call : s = m.store ∨ ∃ (api : Api) (ret arg1 arg2 : Word) (env : Env),
    env.now = callNow ∧ s = m.store.step (.call api ret arg1 arg2 env)
  limits : turn.monitor.limits = m.limits
  store : turn.monitor.store = (memblockExpire s sweepNow m.limits).2
  delay : 0 ≤ (memblockExpire s sweepNow m.limits).1
  noAlarms : NoAlarms before
  requests : turn.requests = before ++
    [.alarm (memblockExpire s sweepNow m.limits).1, .resume pid none]

/-- **What an iteration does about the timer.** It leaves the loop, or it touches
neither the store nor the alarm, or it ends with a sweep. -/
inductive Monitor.Sweeps (m : Monitor) (callNow sweepNow : Int) (turn : Turn) : Prop
  | left (hphase : turn.phase ≠ .loop)
  | unswept (hlimits : turn.monitor.limits = m.limits) (hstore : turn.monitor.store = m.store)
      (hrequests : NoAlarms turn.requests)
  | swept (s : Store) (before : List Request) (pid : Pid) (h : m.Swept callNow sweepNow turn s before pid)

section Sweeps

variable {m : Monitor} {out : Outside} {callNow : Int}

theorem Monitor.lexpire_swept {m' : Monitor} (pid : Pid) (ctx : Context) {sent : List Request}
    (invoked : Option Invocation) (hlimits : m'.limits = m.limits)
    (hcall : m'.store = m.store ∨ ∃ (api : Api) (ret arg1 arg2 : Word) (env : Env),
      env.now = callNow ∧ m'.store = m.store.step (.call api ret arg1 arg2 env))
    (hsent : NoAlarms sent) :
    (m'.lexpire pid ctx out sent invoked).phase ≠ .loop ∨
      m.Swept callNow out.sweepNow (m'.lexpire pid ctx out sent invoked) m'.store sent pid := by
  unfold Monitor.lexpire
  by_cases hneg : (memblockExpire m'.store out.sweepNow m'.limits).1 < 0
  · rw [if_pos hneg]
    exact Or.inl (by simp)
  · rw [if_neg hneg]
    refine Or.inr ⟨hcall, hlimits, ?_, ?_, hsent, ?_⟩
    · rw [← hlimits]
    · rw [← hlimits]
      exact not_lt.mp hneg
    · rw [← hlimits]

theorem Monitor.lexpire_sweeps {m' : Monitor} (pid : Pid) (ctx : Context) {sent : List Request}
    (invoked : Option Invocation) (hlimits : m'.limits = m.limits)
    (hcall : m'.store = m.store ∨ ∃ (api : Api) (ret arg1 arg2 : Word) (env : Env),
      env.now = callNow ∧ m'.store = m.store.step (.call api ret arg1 arg2 env))
    (hsent : NoAlarms sent) : m.Sweeps callNow out.sweepNow (m'.lexpire pid ctx out sent invoked) := by
  rcases Monitor.lexpire_swept pid ctx invoked hlimits hcall hsent with hleft | hswept
  · exact .left hleft
  · exact .swept _ _ _ hswept

theorem noAlarms_writes (writes : List Write) : NoAlarms (writes.map Request.write) := by
  simp [NoAlarms]

theorem Monitor.atReturn_sweeps (pid : Pid) (ctx : Context) (writes : List Write) (api : Api) :
    m.Sweeps out.env.now out.sweepNow (m.atReturn pid ctx out (writes.map Request.write) api) := by
  unfold Monitor.atReturn
  dsimp only
  split
  · exact .left (by simp)
  · split
    · refine Monitor.lexpire_sweeps pid ctx _ rfl (Or.inr ?_) (noAlarms_writes writes)
      exact ⟨api, _, _, _, { out.env with ips := (m.breakpoints api).entryAddress :: out.env.ips },
        rfl, rfl⟩
    · refine Monitor.lexpire_sweeps pid ctx _ rfl (Or.inr ?_) (by simp [NoAlarms])
      exact ⟨api, _, _, _, { out.env with ips := (m.breakpoints api).entryAddress :: out.env.ips },
        rfl, rfl⟩

theorem Monitor.onSigtrap_sweeps (code : Code) (pid : Pid) (ctx : Context) :
    m.Sweeps out.env.now out.sweepNow (m.onSigtrap code pid ctx out) := by
  unfold Monitor.onSigtrap
  dsimp only
  split
  · split
    · exact .unswept rfl rfl (noAlarms_writes [])
    · exact .left (by simp)
  · split
    · exact .left (by simp)
    · rename_i writes _
      split
      · split
        · exact .left (by simp)
        · exact Monitor.atReturn_sweeps pid _ writes _
      · split
        · exact Monitor.lexpire_sweeps pid _ _ rfl (Or.inl rfl) (by simp [NoAlarms])
        · unfold Monitor.elsewhere
          dsimp only
          split
          · exact .left (by simp)
          · exact Monitor.lexpire_sweeps pid _ _ rfl (Or.inl rfl) (noAlarms_writes writes)

theorem Monitor.turn_sweeps (code : Code) (pid : Pid) {report : Report} (ctx : Context)
    (hne : ∀ event, report ≠ .stop .sigstop event) :
    m.Sweeps out.env.now out.sweepNow (m.turn code pid report ctx out) := by
  cases report with
  | exit =>
      rw [Monitor.turn]
      split
      · exact .unswept rfl rfl (noAlarms_writes [])
      · exact .left (by simp)
  | stop signum event =>
      cases signum with
      | sigstop => exact absurd rfl (hne event)
      | sigtrap =>
          cases event with
          | true => exact .unswept rfl rfl (by simp [Monitor.turn, NoAlarms])
          | false => exact Monitor.onSigtrap_sweeps code pid ctx
      | _ => exact .unswept rfl rfl (by simp [Monitor.turn, NoAlarms])

/-- The rest of an iteration on a `SIGSTOP`, when `g_signo` is `0`. -/
theorem Monitor.sigstopOther_sweeps (pid : Pid) (ctx : Context) :
    m.Sweeps callNow out.sweepNow (m.sigstopOther pid ctx out) := by
  unfold Monitor.sigstopOther
  split
  · exact .left (by simp)
  · split
    · exact .unswept rfl rfl (by simp [NoAlarms])
    · exact .unswept rfl rfl (by simp [NoAlarms])

end Sweeps

theorem Monitor.Swept.timely {expire clock callNow sweepNow : Int} {m : Monitor} {turn : Turn}
    {s : Store} {before : List Request} {pid : Pid} (h : m.Swept callNow sweepNow turn s before pid)
    (hlimits : m.limits.expire = expire) (hint : expire < 2 ^ 31) (hs : Consistent m.store)
    (ht : Timely expire clock m.store) (hcall : clock ≤ callNow)
    (hsweep : callNow ≤ sweepNow) :
    Consistent turn.monitor.store ∧ Timely expire sweepNow turn.monitor.store ∧
      ((memblockExpire s sweepNow m.limits).1 = 0 ∧ turn.monitor.store.active = [] ∨
        0 < (memblockExpire s sweepNow m.limits).1 ∧ ∀ b ∈ turn.monitor.store.active,
          sweepNow + (memblockExpire s sweepNow m.limits).1 ≤
            (turn.monitor.store.block b).create + expire + 1) := by
  have hbefore : Consistent s ∧ Timely expire sweepNow s := by
    rcases h.call with rfl | ⟨api, ret, arg1, arg2, env, hnow, rfl⟩
    · exact ⟨hs, ht.mono (hcall.trans hsweep)⟩
    · have hop : Timely expire (Op.call api ret arg1 arg2 env).now
          (m.store.step (.call api ret arg1 arg2 env)) :=
        timely_step hs (ht.mono (by rw [Op.now, hnow]; exact hcall)) trivial
      exact ⟨consistent_step hs _, hop.mono (by rw [Op.now, hnow]; exact hsweep)⟩
  have hop : Op.ExpiresAfter expire (.sweep sweepNow m.limits) := hlimits
  have hafter : Timely expire sweepNow (s.step (.sweep sweepNow m.limits)) :=
    timely_step hbefore.1 hbefore.2 hop
  have hdelay := h.delay
  rw [h.store]
  refine ⟨consistent_step hbefore.1 (.sweep sweepNow m.limits), hafter, ?_⟩
  rcases memblockExpire_delay hbefore.1 hbefore.2 hlimits hint with hneg | hzero | ⟨-, hneg⟩ | hpos
  · omega
  · exact Or.inl hzero
  · omega
  · exact Or.inr hpos

/-! ## The invariant -/

def Stage.sweepNow : Stage → Option Int
  | .outside => none
  | .testAlarm _ out | .clear _ out | .testOther _ out => some out.sweepNow

/-- Where the next sweep comes from: the `alarm` of the iteration under way, the
one or the `SIGSTOP` of earlier steps, or the iteration itself. -/
inductive Timed.Owing (s : Timed) (expire : Int) : Prop
  | soon (before : List Request) (seconds : Int) (pid : Pid) (hout : s.fine.stage = .outside)
      (hqueue : s.fine.sys.queue = before ++ [.alarm seconds, .resume pid none])
      (hbefore : NoAlarms before)
      (hseconds : (seconds = 0 ∧ s.store.active = []) ∨
        (0 < seconds ∧ ∀ b ∈ s.store.active,
          s.clock + seconds ≤ (s.store.block b).create + expire + 1))
  | owed (hout : s.fine.stage = .outside) (hqueue : NoAlarms s.fine.sys.queue)
      (howed : s.store.active = [] ∨ s.Owed expire)
  | inside (hinside : s.fine.stage.inside = true) (hclear : s.fine.stage.clearing = false)
      (howed : s.store.active = [] ∨ s.InTime expire ∨ s.fine.sys.monitor.signo ≠ none)
  | clear (hclear : s.fine.stage.clearing = true)

structure TimerInv (expire : Int) (s : Timed) : Prop where
  limits : s.fine.sys.monitor.limits.expire = expire
  consistent : Consistent s.store
  timely : Timely expire s.clock s.store
  idle : s.fine.stage.inside = true → s.fine.sys.queue = []
  now : ∀ now, s.fine.stage.sweepNow = some now → now = s.clock
  carried : ∀ t, s.carries t = true → s.fine.sys.status t = .pending (.stop .sigstop false)
  owing : s.Owing expire

section Step

variable {expire : Int} {s : Timed}

/-- A step of the threads alone, in which no `SIGSTOP` of `signal_handler` gets
lost. -/
theorem TimerInv.threads (h : TimerInv expire s) {s' : System}
    (hm : s'.monitor = s.fine.sys.monitor) (hq : s'.queue = s.fine.sys.queue)
    (hst : ∀ t, s.carries t = true → s.fine.sys.status t = .pending (.stop .sigstop false) →
      s'.status t = .pending (.stop .sigstop false)) :
    TimerInv expire { s with fine := ⟨s', s.fine.stage⟩ } := by
  have hstore : ({ s with fine := ⟨s', s.fine.stage⟩ } : Timed).store = s.store :=
    congrArg Monitor.store hm
  have hintime : s.InTime expire → ({ s with fine := ⟨s', s.fine.stage⟩ } : Timed).InTime expire := by
    rintro ⟨time, halarm, hall⟩
    exact ⟨time, halarm, by rw [hstore]; exact hall⟩
  refine ⟨?_, ?_, ?_, ?_, h.now, fun t ht => hst t ht (h.carried t ht), ?_⟩
  · show s'.monitor.limits.expire = expire
    rw [hm]
    exact h.limits
  · rw [hstore]
    exact h.consistent
  · rw [hstore]
    exact h.timely
  · intro hinside
    exact hq.trans (h.idle hinside)
  · cases h.owing with
    | soon before seconds pid hout hqueue hbefore hseconds =>
        exact .soon before seconds pid hout (hq.trans hqueue) hbefore (by rw [hstore]; exact hseconds)
    | owed hout hqueue howed =>
        refine .owed hout (show NoAlarms s'.queue by rw [hq]; exact hqueue) ?_
        rw [hstore]
        refine howed.imp_right (Or.imp hintime ?_)
        rintro ⟨hsigno, hway⟩
        refine ⟨show s'.monitor.signo ≠ none by rw [hm]; exact hsigno, hway.imp_right ?_⟩
        rintro ⟨t, ht, hpending⟩
        exact ⟨t, ht, hst t ht hpending⟩
    | inside hinside hclear howed =>
        refine .inside hinside hclear ?_
        rw [hstore]
        refine howed.imp_right (Or.imp hintime fun hsigno => ?_)
        show s'.monitor.signo ≠ none
        rw [hm]
        exact hsigno
    | clear hclear => exact .clear hclear

theorem TimerInv.interrupt (h : TimerInv expire s) (signum : Signo) (alarm : Option Int)
    {s' : System} (hs' : s' = { s.fine.sys with
      monitor := { s.fine.sys.monitor with signo := some signum } }) :
    TimerInv expire { s with fine := ⟨s', s.fine.stage⟩, alarm := alarm, sent := true } := by
  subst hs'
  refine ⟨h.limits, h.consistent, h.timely, h.idle, h.now, h.carried, ?_⟩
  cases h.owing with
  | soon before seconds pid hout hqueue hbefore hseconds =>
      exact .soon before seconds pid hout hqueue hbefore hseconds
  | owed hout hqueue howed =>
      exact .owed hout hqueue (Or.inr (Or.inr ⟨by simp, Or.inl rfl⟩))
  | inside hinside hclear howed => exact .inside hinside hclear (Or.inr (Or.inr (by simp)))
  | clear hclear => exact .clear hclear

theorem TimerInv.take (h : TimerInv expire s) (t : Pid) (ctx : Context) :
    TimerInv expire { s with
      fine := ⟨s.fine.sys.setThread t ⟨.pending (.stop .sigstop false), ctx⟩, s.fine.stage⟩
      sent := false
      carries := Function.update s.carries t true } := by
  have hself : (s.fine.sys.setThread t ⟨.pending (.stop .sigstop false), ctx⟩).status t =
      .pending (.stop .sigstop false) := System.status_setThread_self _ _ _
  refine ⟨h.limits, h.consistent, h.timely, h.idle, h.now, ?_, ?_⟩
  · intro u hu
    by_cases heq : u = t
    · rw [heq]
      exact hself
    · refine (System.status_setThread_of_ne _ _ heq).trans (h.carried u ?_)
      simpa [heq] using hu
  · cases h.owing with
    | soon before seconds pid hout hqueue hbefore hseconds =>
        exact .soon before seconds pid hout hqueue hbefore hseconds
    | owed hout hqueue howed =>
        refine .owed hout hqueue (howed.imp_right (Or.imp id ?_))
        rintro ⟨hsigno, -⟩
        exact ⟨hsigno, Or.inr ⟨t, Function.update_self _ _ _, hself⟩⟩
    | inside hinside hclear howed => exact .inside hinside hclear howed
    | clear hclear => exact .clear hclear

theorem TimerInv.issued (h : TimerInv expire s) {r : Request} {queue : List Request}
    (hqueue : s.fine.sys.queue = r :: queue) (hr : ∀ seconds, r ≠ .alarm seconds) (code : Code) :
    TimerInv expire { s with fine :=
      ⟨{ s.fine.sys with code := code, queue := queue }, s.fine.stage⟩ } := by
  have hidle : s.fine.stage.inside = true → queue = [] := by
    intro hinside
    cases (h.idle hinside).symm.trans hqueue
  refine ⟨h.limits, h.consistent, h.timely, hidle, h.now, h.carried, ?_⟩
  cases h.owing with
  | soon before seconds pid hout heq hbefore hseconds =>
      cases before with
      | nil => exact absurd (List.cons.inj (hqueue.symm.trans heq)).1 (hr seconds)
      | cons first before =>
          obtain ⟨-, hrest⟩ := List.cons.inj (hqueue.symm.trans heq)
          exact .soon before seconds pid hout hrest
            (fun n hn => hbefore n (List.mem_cons_of_mem _ hn)) hseconds
  | owed hout hno howed =>
      refine .owed hout (fun n hn => hno n ?_) howed
      rw [hqueue]
      exact List.mem_cons_of_mem _ hn
  | inside hinside hclear howed => exact .inside hinside hclear howed
  | clear hclear => exact .clear hclear

theorem TimerInv.issuedAlarm (h : TimerInv expire s) {seconds : Int} {queue : List Request}
    (hqueue : s.fine.sys.queue = .alarm seconds :: queue) :
    TimerInv expire { s.setAlarm seconds with fine :=
      ⟨{ s.fine.sys with queue := queue }, s.fine.stage⟩ } := by
  have hidle : s.fine.stage.inside = true → queue = [] := by
    intro hinside
    cases (h.idle hinside).symm.trans hqueue
  refine ⟨h.limits, h.consistent, h.timely, hidle, h.now, h.carried, ?_⟩
  cases h.owing with
  | soon before seconds' pid hout heq hbefore hseconds =>
      cases before with
      | nil =>
          obtain ⟨hfirst, hrest⟩ := List.cons.inj (hqueue.symm.trans heq)
          cases hfirst
          refine .owed hout ?_ ?_
          · show NoAlarms queue
            rw [hrest]
            simp [NoAlarms]
          · rcases hseconds with ⟨-, hempty⟩ | ⟨hpos, hall⟩
            · exact Or.inl hempty
            · refine Or.inr (Or.inl ⟨s.clock + seconds, ?_, hall⟩)
              show (if seconds = 0 then none else some (s.clock + seconds)) = _
              rw [if_neg (by omega)]
      | cons first before =>
          obtain ⟨hfirst, -⟩ := List.cons.inj (hqueue.symm.trans heq)
          exact absurd (by rw [← hfirst]; exact List.mem_cons_self) (hbefore seconds)
  | owed hout hno howed =>
      exact absurd (by rw [hqueue]; exact List.mem_cons_self) (hno seconds)
  | inside hinside hclear howed => cases (h.idle hinside).symm.trans hqueue
  | clear hclear =>
      have hinside : s.fine.stage.inside = true := by
        cases hstage : s.fine.stage <;> rw [hstage] at hclear <;> first | rfl | cases hclear
      cases (h.idle hinside).symm.trans hqueue

theorem TimerInv.finished (h : TimerInv expire s) (hint : expire < 2 ^ 31) {callNow sweepNow : Int}
    {turn : Turn} {s' : System} {carries : Pid → Bool} (hnow : s.clock ≤ callNow)
    (hsweep : callNow ≤ sweepNow) (hsweeps : s.fine.sys.monitor.Sweeps callNow sweepNow turn)
    (hloop : turn.phase = .loop) (hm : s'.monitor = turn.monitor) (hq : s'.queue = turn.requests)
    (hcarried : ∀ t, carries t = true → s'.status t = .pending (.stop .sigstop false))
    (howed : turn.monitor.store = s.store → NoAlarms turn.requests → s.store.active = [] ∨
      ({ s with fine := ⟨s', .outside⟩, clock := sweepNow, carries := carries } : Timed).Owed
        expire) :
    TimerInv expire { s with fine := ⟨s', .outside⟩, clock := sweepNow, carries := carries } := by
  have hstore : ({ s with fine := ⟨s', .outside⟩, clock := sweepNow, carries := carries } :
      Timed).store = turn.monitor.store := congrArg Monitor.store hm
  cases hsweeps with
  | left hphase => exact absurd hloop hphase
  | unswept hlimits hsame hrequests =>
      refine ⟨?_, ?_, ?_, by simp [Stage.inside], by simp [Stage.sweepNow], hcarried, .owed rfl ?_ ?_⟩
      · show s'.monitor.limits.expire = expire
        rw [hm, hlimits]
        exact h.limits
      · rw [hstore, hsame]
        exact h.consistent
      · rw [hstore, hsame]
        exact h.timely.mono (hnow.trans hsweep)
      · show NoAlarms s'.queue
        rw [hq]
        exact hrequests
      · rw [hstore, hsame]
        exact howed hsame hrequests
  | swept st before pid hswept =>
      obtain ⟨hcons, htimely, hdelay⟩ :=
        hswept.timely h.limits hint h.consistent h.timely hnow hsweep
      refine ⟨?_, ?_, ?_, by simp [Stage.inside], by simp [Stage.sweepNow], hcarried,
        .soon before _ pid rfl (hq.trans hswept.requests) hswept.noAlarms ?_⟩
      · show s'.monitor.limits.expire = expire
        rw [hm, hswept.limits]
        exact h.limits
      · rw [hstore]
        exact hcons
      · rw [hstore]
        exact htimely
      · rw [hstore]
        exact hdelay

theorem TimerInv.not_carries (h : TimerInv expire s) {t : Pid}
    (ht : s.fine.sys.status t ≠ .pending (.stop .sigstop false)) : s.carries t = false := by
  cases hc : s.carries t with
  | false => rfl
  | true => exact absurd (h.carried t hc) ht

theorem TimerInv.setThread (h : TimerInv expire s) {t : Pid} (thread : Thread)
    (ht : s.carries t = false) :
    TimerInv expire { s with fine := ⟨s.fine.sys.setThread t thread, s.fine.stage⟩ } := by
  refine h.threads rfl rfl fun u hu hpending => ?_
  rw [System.status_setThread_of_ne]
  · exact hpending
  · rintro rfl
    cases ht.symm.trans hu

theorem Timed.sent_eq_self (hsent : s.sent = false) : { s with sent := false } = s := by
  obtain ⟨fine, clock, alarm, sent, carries⟩ := s
  cases hsent
  rfl

/-- A signal that is reported, `SIGCONT` or not, discards nothing. -/
theorem Timed.Steady.note_signal {t : Pid} {signum : Signo} {ctx : Context}
    (hok : s.Steady (.fine (.sys (.signal t signum ctx)))) :
    s.note (.sys (.signal t signum ctx)) = s := by
  rw [Timed.note]
  split
  · rename_i hcont
    exact Timed.sent_eq_self (hok.2 (decide_eq_true hcont))
  · rfl

/-- A step in which the loop takes no part. -/
theorem TimerInv.other (h : TimerInv expire s) {label : Label} {s' : System}
    (hok : s.Steady (.fine (.sys label))) (hstep : s.fine.sys.step label = some s')
    (hwait : ∀ t out, label ≠ .wait t out) (hfails : ∀ eintr, label ≠ .waitFails eintr) :
    TimerInv expire { s.note (.sys label) with fine := ⟨s', s.fine.stage⟩ } := by
  cases System.step_kind hstep with
  | trap t ctx hrun hbyte => exact h.setThread _ (h.not_carries (by rw [hrun]; simp))
  | execute t ctx hrun hbyte => exact h
  | signal t signum ctx hrun =>
      rw [hok.note_signal]
      exact h.setThread _ (h.not_carries (by rw [hrun]; simp))
  | clone t child ctx hrun hchild =>
      have hparent := h.setThread ⟨.pending (.stop .sigtrap true), ctx⟩
        (h.not_carries (by rw [hrun]; simp))
      exact hparent.setThread _ (h.not_carries (by rw [hchild]; simp))
  | exit t hborn => exact h.setThread _ hok.1
  | interrupt signum => exact h.interrupt signum s.alarm rfl
  | wait t report out hpending hat => exact absurd rfl (hwait t out)
  | waitAgain hat => exact absurd rfl (hfails true)
  | waitError hat => exact absurd rfl (hfails false)
  | issueWrite w queue hqueue =>
      simp only [Timed.note, hqueue]
      exact h.issued hqueue (by simp) _
  | issueResume t signum queue hqueue =>
      simp only [Timed.note, hqueue]
      have hissued := h.issued hqueue (by simp) s.fine.sys.code
      unfold System.resume
      split
      · rename_i hstopped
        exact hissued.setThread _ (hissued.not_carries (by rw [hstopped]; simp))
      · exact hissued
  | issueOther r queue hqueue hother =>
      cases r with
      | alarm seconds =>
          simp only [Timed.note, hqueue]
          exact h.issuedAlarm hqueue
      | write w => exact absurd rfl (hother w)
      | resume t signum =>
          simp only [Timed.note, hqueue]
          exact h.issued hqueue (by simp) s.fine.sys.code
      | writeChild pid address data =>
          simp only [Timed.note, hqueue]
          exact h.issued hqueue (by simp) s.fine.sys.code
      | detach pid =>
          simp only [Timed.note, hqueue]
          exact h.issued hqueue (by simp) s.fine.sys.code

theorem TimerInv.atWaitpid (h : TimerInv expire s) (hout : s.fine.stage = .outside)
    (hqueue : s.fine.sys.queue = []) : s.store.active = [] ∨ s.Owed expire := by
  cases h.owing with
  | soon before seconds pid _ heq =>
      have hlen := congrArg List.length (hqueue.symm.trans heq)
      simp at hlen
  | owed _ _ howed => exact howed
  | inside hinside =>
      rw [hout] at hinside
      cases hinside
  | clear hclear =>
      rw [hout] at hclear
      cases hclear

theorem TimerInv.wait (h : TimerInv expire s) (hint : expire < 2 ^ 31) {t : Pid} {report : Report}
    {out : Outside} (hnow : s.clock ≤ out.env.now) (hsweep : out.env.now ≤ out.sweepNow)
    (hpending : s.fine.sys.status t = .pending report)
    (hne : ∀ event, report ≠ .stop .sigstop event) (hwait : s.fine.sys.AtWaitpid)
    (hout : s.fine.stage = .outside) (hloop : (s.fine.sys.wait t report out).phase = .loop) :
    TimerInv expire { s.note (.sys (.wait t out)) with
      fine := ⟨s.fine.sys.wait t report out, .outside⟩ } := by
  have hstatus : ∀ u, s.carries u = true →
      (s.fine.sys.wait t report out).status u = .pending (.stop .sigstop false) := by
    intro u hu
    have hcarried := h.carried u hu
    rw [System.status_wait_of_ne]
    · exact hcarried
    · rintro rfl
      cases hpending.symm.trans hcarried
      exact hne false rfl
  have hcarries : ∀ u, Function.update s.carries t false u = true → u ≠ t ∧ s.carries u = true := by
    intro u hu
    by_cases heq : u = t
    · rw [heq, Function.update_self] at hu
      cases hu
    · rw [Function.update_of_ne heq] at hu
      exact ⟨heq, hu⟩
  refine h.finished hint hnow hsweep (Monitor.turn_sweeps s.fine.sys.code t (s.fine.sys.context t) hne)
    hloop rfl rfl (fun u hu => hstatus u (hcarries u hu).2) ?_
  intro hsame _
  refine (h.atWaitpid hout hwait.2).imp_right ?_
  rintro (⟨time, halarm, hall⟩ | ⟨hsigno, hway⟩)
  · refine Or.inl ⟨time, halarm, ?_⟩
    show ∀ b ∈ (s.fine.sys.wait t report out).monitor.store.active,
      time ≤ ((s.fine.sys.wait t report out).monitor.store.block b).create + expire + 1
    rw [show (s.fine.sys.wait t report out).monitor.store = s.store from hsame]
    exact hall
  · refine Or.inr ⟨?_, hway.imp_right ?_⟩
    · show (s.fine.sys.wait t report out).monitor.signo ≠ none
      rw [System.wait_signo _ _ hne]
      exact hsigno
    · rintro ⟨u, hu, hpending'⟩
      refine ⟨u, ?_, hstatus u hu⟩
      show Function.update s.carries t false u = true
      rw [Function.update_of_ne]
      · exact hu
      · rintro rfl
        cases hpending.symm.trans hpending'
        exact hne false rfl

/-- The loop begins with a `SIGSTOP`. -/
theorem TimerInv.sigstop (h : TimerInv expire s) {t : Pid} {out : Outside}
    (hnow : s.clock ≤ out.env.now) (hsweep : out.env.now ≤ out.sweepNow)
    (hwait : s.fine.sys.AtWaitpid) (hout : s.fine.stage = .outside) :
    TimerInv expire { s.note (.sys (.wait t out)) with
      fine := ⟨s.fine.sys.setThread t ⟨.stopped, s.fine.sys.context t⟩, .testAlarm t out⟩ } := by
  refine ⟨h.limits, h.consistent, h.timely.mono (hnow.trans hsweep), fun _ => hwait.2, ?_, ?_, ?_⟩
  · rintro now hnow'
    exact (Option.some.inj hnow').symm
  · intro u hu
    have hu' : Function.update s.carries t false u = true := hu
    by_cases heq : u = t
    · rw [heq, Function.update_self] at hu'
      cases hu'
    · rw [Function.update_of_ne heq] at hu'
      exact (System.status_setThread_of_ne _ _ heq).trans (h.carried u hu')
  · refine .inside rfl rfl ((h.atWaitpid hout hwait.2).imp_right ?_)
    exact Or.imp id And.left

/-- The end of an iteration on a `SIGSTOP`, whose clock has been read before. -/
theorem TimerInv.finish (h : TimerInv expire s) (hint : expire < 2 ^ 31) {now : Int}
    {turn : Turn} (hnow : s.fine.stage.sweepNow = some now)
    (hsweeps : s.fine.sys.monitor.Sweeps now now turn) (hloop : turn.phase = .loop)
    (howed : turn.monitor.store = s.store → NoAlarms turn.requests →
      s.store.active = [] ∨ s.InTime expire) :
    TimerInv expire { s with fine := ⟨s.fine.sys.finish turn, .outside⟩ } := by
  obtain rfl : now = s.clock := h.now _ hnow
  refine h.finished hint le_rfl le_rfl hsweeps hloop rfl rfl h.carried fun hsame hno => ?_
  refine (howed hsame hno).imp_right ?_
  rintro ⟨time, halarm, hall⟩
  refine Or.inl ⟨time, halarm, ?_⟩
  show ∀ b ∈ turn.monitor.store.active, time ≤ (turn.monitor.store.block b).create + expire + 1
  rw [hsame]
  exact hall

theorem TimerInv.clear (h : TimerInv expire s) (hint : expire < 2 ^ 31) {t : Pid} {out : Outside}
    (hstage : s.fine.stage = .clear t out)
    (hloop : ({ s.fine.sys.monitor with signo := none }.lexpire t (s.fine.sys.context t) out []
      none).phase = .loop) :
    TimerInv expire { s with fine := ⟨s.fine.sys.finish
      ({ s.fine.sys.monitor with signo := none }.lexpire t (s.fine.sys.context t) out [] none),
      .outside⟩ } := by
  have hswept : s.fine.sys.monitor.Swept out.sweepNow out.sweepNow
      ({ s.fine.sys.monitor with signo := none }.lexpire t (s.fine.sys.context t) out [] none)
      s.store [] t := by
    have hlimits : ({ s.fine.sys.monitor with signo := none } : Monitor).limits =
        s.fine.sys.monitor.limits := rfl
    refine (Monitor.lexpire_swept t _ none hlimits (Or.inl rfl) ?_).resolve_left ?_
    · exact noAlarms_writes []
    · exact fun hleft => hleft hloop
  refine h.finish hint (by rw [hstage]; rfl) (.swept _ _ _ hswept) hloop ?_
  intro _ hno
  refine absurd ?_ (hno (memblockExpire s.store out.sweepNow s.fine.sys.monitor.limits).1)
  rw [hswept.requests]
  exact List.mem_cons_self

theorem TimerInv.testOther (h : TimerInv expire s) (hint : expire < 2 ^ 31) {t : Pid}
    {out : Outside} (hstage : s.fine.stage = .testOther t out)
    (hloop : (s.fine.sys.monitor.sigstopOther t (s.fine.sys.context t) out).phase = .loop) :
    TimerInv expire { s with fine := ⟨s.fine.sys.finish
      (s.fine.sys.monitor.sigstopOther t (s.fine.sys.context t) out), .outside⟩ } := by
  have hsweeps : s.fine.sys.monitor.Sweeps out.sweepNow out.sweepNow
      (s.fine.sys.monitor.sigstopOther t (s.fine.sys.context t) out) :=
    Monitor.sigstopOther_sweeps t _
  refine h.finish hint (by rw [hstage]; rfl) hsweeps hloop fun _ _ => ?_
  cases h.owing with
  | soon before seconds pid hout => cases hstage.symm.trans hout
  | owed hout => cases hstage.symm.trans hout
  | inside hinside hclear howed =>
      refine howed.imp_right fun h => h.resolve_right fun hsigno => ?_
      rw [Monitor.sigstopOther_left hsigno] at hloop
      cases hloop
  | clear hclear =>
      rw [hstage] at hclear
      cases hclear

structure TimerOk (expire : Int) (s : Timed) : Prop where
  looping : s.fine.stage.inside = true → s.fine.sys.phase = .loop
  inv : s.fine.sys.phase = .loop → TimerInv expire s

theorem timerOk_fine (h : TimerOk expire s) (hint : expire < 2 ^ 31) {label : FineLabel} {f : Fine}
    (hok : s.Steady (.fine label)) (hstep : s.fine.step label = some f) :
    TimerOk expire { s.note label with fine := f } := by
  cases Fine.step_kind hstep with
  | other label s' hs hwait hfails =>
      obtain ⟨hphase, -⟩ := System.step_other hs hwait hfails
      refine ⟨fun hinside => hphase.trans (h.looping hinside), fun hloop => ?_⟩
      exact (h.inv (hphase.symm.trans hloop)).other hok hs hwait hfails
  | waitFails eintr s' hs hout =>
      refine ⟨by simp [Stage.inside], fun hloop => ?_⟩
      cases System.step_kind hs with
      | waitAgain hwait =>
          have hinv := h.inv hwait.1
          rw [← hout]
          exact hinv
      | waitError hwait => cases hloop
  | wait t report out hpending hne hwait hout =>
      refine ⟨by simp [Stage.inside], fun hloop => ?_⟩
      obtain ⟨⟨hfree, hcall, hsweep⟩, -⟩ := hok
      exact (h.inv hwait.1).wait hint (hfree.trans hcall) hsweep hpending hne hwait hout hloop
  | sigstop t event out hpending hwait hout =>
      refine ⟨fun _ => hwait.1, fun _ => ?_⟩
      obtain ⟨⟨hfree, hcall, hsweep⟩, -⟩ := hok
      exact (h.inv hwait.1).sigstop (hfree.trans hcall) hsweep hwait hout
  | isAlarm t out hstage halarm =>
      have hloop := h.looping (by rw [hstage]; rfl)
      obtain ⟨hlimits, hcons, htimely, hidle, hnow, hcarried, -⟩ := h.inv hloop
      rw [hstage] at hidle hnow
      exact ⟨fun _ => hloop, fun _ =>
        ⟨hlimits, hcons, htimely, hidle, hnow, hcarried, .clear rfl⟩⟩
  | noAlarm t out hstage halarm =>
      have hloop := h.looping (by rw [hstage]; rfl)
      obtain ⟨hlimits, hcons, htimely, hidle, hnow, hcarried, howing⟩ := h.inv hloop
      rw [hstage] at hidle hnow
      refine ⟨fun _ => hloop, fun _ => ⟨hlimits, hcons, htimely, hidle, hnow, hcarried, ?_⟩⟩
      cases howing with
      | soon before seconds pid hout => cases hstage.symm.trans hout
      | owed hout => cases hstage.symm.trans hout
      | inside hinside hclear howed => exact .inside rfl rfl howed
      | clear hclear =>
          rw [hstage] at hclear
          cases hclear
  | clear t out hstage =>
      have hinv := h.inv (h.looping (by rw [hstage]; rfl))
      exact ⟨by simp [Stage.inside], fun hloop => hinv.clear hint hstage hloop⟩
  | testOther t out hstage =>
      have hinv := h.inv (h.looping (by rw [hstage]; rfl))
      exact ⟨by simp [Stage.inside], fun hloop => hinv.testOther hint hstage hloop⟩

theorem timerOk_step {s' : Timed} (h : TimerOk expire s) (hint : expire < 2 ^ 31)
    {label : TimedLabel} (hok : s.Steady label) (hstep : s.step label = some s') :
    TimerOk expire s' := by
  cases label with
  | fine label =>
      obtain ⟨f, hf, rfl⟩ := Option.map_eq_some_iff.mp hstep
      exact timerOk_fine h hint hok hf
  | fire =>
      rw [Timed.step] at hstep
      split at hstep
      · cases hstep
      · obtain ⟨f, hf, rfl⟩ := Option.map_eq_some_iff.mp hstep
        cases Fine.step_kind hf with
        | other label sys hs hwait hfails =>
            cases System.step_kind hs with
            | interrupt signum =>
                exact ⟨h.looping, fun hloop => (h.inv hloop).interrupt .sigalrm none rfl⟩
  | take t ctx =>
      rw [Timed.step] at hstep
      split at hstep
      · obtain ⟨f, hf, rfl⟩ := Option.map_eq_some_iff.mp hstep
        cases Fine.step_kind hf with
        | other label sys hs hwait hfails =>
            cases System.step_kind hs with
            | signal t signum ctx hrun =>
                exact ⟨h.looping, fun hloop => (h.inv hloop).take t ctx⟩
      · cases hstep
  | sigcont =>
      cases hstep
      rw [Timed.sent_eq_self (hok.2 rfl)]
      exact h

end Step

/-! ## The theorem -/

def Timed.begin (s₀ : System) (clock : Int) : Timed := { fine := ⟨s₀, .outside⟩, clock := clock }

/-- What is expected of the timer when the option `-e` is `expire`. -/
structure TimerKept (expire : Int) : Prop where
  /-- Whenever the loop waits with active blocks, the next sweep is owed. -/
  owed : ∀ symtabByName text targetPid limits others s₀ clock s, limits.expire = expire →
    System.begin symtabByName text targetPid limits others = some s₀ →
    Reachable Timed.step Timed.Steady (Timed.begin s₀ clock) s →
    s.AtWaitpid → s.store.active ≠ [] → s.Owed expire
  /-- A sweep returns `0` with no block left active, a positive delay, or `-1`. -/
  delay : ∀ ops now lim, lim.expire = expire → ClockMonotone (ops ++ [.sweep now lim]) →
    (∀ op ∈ ops, op.ExpiresAfter expire) →
    ((memblockExpire (Store.run ops) now lim).1 = 0 ∧
        (memblockExpire (Store.run ops) now lim).2.active = []) ∨
      0 < (memblockExpire (Store.run ops) now lim).1 ∨
      (memblockExpire (Store.run ops) now lim).1 = -1

theorem timerOk_begin {symtabByName : Api → Word} {text : Bytes 64} {targetPid : Pid}
    {limits : Limits} {others : Pid → Bool} {s₀ : System}
    (hbegin : System.begin symtabByName text targetPid limits others = some s₀) (clock : Int) :
    TimerOk limits.expire (Timed.begin s₀ clock) := by
  obtain ⟨init, -, rfl⟩ := Option.map_eq_some_iff.mp hbegin
  refine ⟨fun _ => rfl, fun _ => ?_⟩
  constructor
  case limits => rfl
  case consistent => exact consistent_run []
  case timely => exact Timely.init _ clock
  case idle =>
    intro hinside
    cases hinside
  case now =>
    intro now hnow
    cases hnow
  case carried =>
    intro t ht
    cases ht
  case owing => exact .owed rfl (by simp [NoAlarms, Timed.begin]) (Or.inl rfl)

def longestLimits : Limits := { defaultLimits with expire := 2147483647 }

def oneBlock : List Op := [.call .malloc 0x5000 16 0 { now := 0, ips := [0x1000] }]

/-- The delay of a block of age `0` is one more than the threshold. -/
theorem delay_oneBlock : (memblockExpire (Store.run oneBlock) 0 longestLimits).1 = -2147483648 := by
  decide +kernel

theorem delay_overflows : ¬ TimerKept (2 ^ 31 - 1) := by
  intro h
  have hdelay := h.delay oneBlock 0 longestLimits rfl (by unfold ClockMonotone; decide)
    (by simp [oneBlock, Op.ExpiresAfter])
  rw [delay_oneBlock] at hdelay
  omega

/-- **The expiry timer is not lost** in steady runs, for every threshold that `-e`
can take but the largest `int`, for which a delay overflows. -/
theorem timer_kept_iff {expire : Int} (hint : expire < 2 ^ 31) :
    TimerKept expire ↔ expire ≠ 2 ^ 31 - 1 := by
  constructor
  · rintro h rfl
    exact delay_overflows h
  · intro hne
    refine ⟨?_, ?_⟩
    · intro symtabByName text targetPid limits others s₀ clock s hlimits hbegin hs hwait hactive
      subst hlimits
      have hok : TimerOk limits.expire s :=
        Reachable.invariant (TimerOk limits.expire) hs (timerOk_begin hbegin clock)
          fun _ _ _ h hok hstep => timerOk_step h hint hok hstep
      exact ((hok.inv hwait.2.1).atWaitpid hwait.1 hwait.2.2).resolve_left hactive
    · intro ops now lim hlim hclock hexp
      have htimely : Timely expire now (Store.run ops) :=
        timely_run hclock.init.1 hexp now hclock.init.2
      rcases memblockExpire_delay (consistent_run ops) htimely hlim hint with
        hneg | hzero | ⟨heq, -⟩ | hpos
      · exact Or.inr (Or.inr hneg)
      · exact Or.inl hzero
      · exact absurd heq hne
      · exact Or.inr (Or.inl hpos.1)

def sampleReturn : List Label :=
  sampleCall 0x2000 ++ [.fetch 1 (sampleContext 0x2000 0 0x5000 0), .wait 1 sampleOutside] ++
    issues 4

/-- The alarm goes off, and before the target has taken the `SIGSTOP` it is sent a
`SIGCONT`, which is forwarded to it. -/
def sampleSigcont : List TimedLabel :=
  sampleReturn.map (fun label => .fine (.sys label)) ++
    [.fire, .sigcont, .fine (.sys (.signal 1 (.other 18) (sampleContext 0x2000 0 0x5000 0))),
      .fine (.sys (.wait 1 sampleOutside)), .fine (.sys .issue)]

def TimedLabel.isTake : TimedLabel → Bool
  | .take _ _ => true
  | _ => false

/-- As long as no thread takes a `SIGSTOP` of `signal_handler`, none has. -/
theorem Timed.not_carries {s₀ : System} {clock : Int} {s : Timed}
    (h : Reachable Timed.step (fun s label => s.Ticking label ∧ label.isTake = false)
      (Timed.begin s₀ clock) s) : ∀ t, s.carries t = false := by
  refine Reachable.invariant (fun s => ∀ t, s.carries t = false) h (fun _ => rfl) ?_
  intro s label s' hs hok hstep
  cases label with
  | fine label =>
      obtain ⟨f, -, rfl⟩ := Option.map_eq_some_iff.mp hstep
      intro t
      show (s.note label).carries t = false
      unfold Timed.note
      split
      · exact hs t
      · split
        · exact hs t
        · exact hs t
      · rename_i u out
        by_cases heq : t = u
        · rw [heq]
          exact Function.update_self _ _ _
        · exact (Function.update_of_ne heq _ _).trans (hs t)
      · split
        · exact hs t
        · exact hs t
      · exact hs t
  | fire =>
      rw [Timed.step] at hstep
      split at hstep
      · cases hstep
      · obtain ⟨f, -, rfl⟩ := Option.map_eq_some_iff.mp hstep
        exact hs
  | take t ctx => cases hok.2
  | sigcont =>
      cases hstep
      exact hs

/-- The loop waits with a block, and neither an alarm nor a `SIGSTOP` is to come. -/
theorem timer_lost_sigcont :
    ∃ s₀ s, sampleBegin 1 = some s₀ ∧
      Reachable Timed.step Timed.Ticking (Timed.begin s₀ 0) s ∧ s.AtWaitpid ∧
      s.store.active ≠ [] ∧ ¬ s.Owed 10 := by
  have hrun : ((sampleBegin 1).bind fun s₀ =>
      (feed Timed.step (fun s label => s.Ticking label ∧ label.isTake = false)
        (Timed.begin s₀ 0) sampleSigcont).map fun s =>
        (s.fine.stage.inside, decide s.fine.sys.AtWaitpid, s.store.active, s.alarm, s.sent)) =
      some (false, true, [0], none, false) := by decide +kernel
  obtain ⟨s₀, s, hbegin, hreach, hobserved⟩ := Reachable.exists_of_run hrun
  simp only [Prod.mk.injEq, decide_eq_true_eq] at hobserved
  obtain ⟨hinside, hwait, hactive, halarm, hsent⟩ := hobserved
  refine ⟨s₀, s, hbegin, hreach.mono fun _ _ h => h.1,
    ⟨Fine.eq_outside_of_inside (by rw [hinside]; simp), hwait⟩, by rw [hactive]; simp, ?_⟩
  rintro (⟨time, htime, -⟩ | ⟨-, hway | ⟨t, ht, -⟩⟩)
  · cases halarm.symm.trans htime
  · cases hsent.symm.trans hway
  · cases (Timed.not_carries hreach t).symm.trans ht

/-- `memleax -e 2147483647`: the first sweep in the second of a `malloc` returns
`-2147483648`, and the loop is left as if a limit had been reached. A `SIGCONT`
loses the timer at any threshold. -/
theorem timer_lost_longest :
    (longestLimits.expire = 2147483647 ∧ ¬ TimerKept longestLimits.expire ∧
      (memblockExpire (Store.run oneBlock) 0 longestLimits).1 = -2147483648 ∧
      (memblockExpire (Store.run oneBlock) 0 longestLimits).2.active ≠ []) ∧
    ∃ s₀ s, sampleBegin 1 = some s₀ ∧
      Reachable Timed.step Timed.Ticking (Timed.begin s₀ 0) s ∧ s.AtWaitpid ∧
      s.store.active ≠ [] ∧ ¬ s.Owed 10 :=
  ⟨⟨rfl, delay_overflows, delay_oneBlock, by decide +kernel⟩, timer_lost_sigcont⟩

/-- A thread has called `malloc(16)` and returned; the alarm is set. -/
theorem timer_kept_sampleCall :
    ∃ s₀ s, sampleBegin 1 = some s₀ ∧
      Reachable Timed.step Timed.Steady (Timed.begin s₀ 0) s ∧ s.AtWaitpid ∧
      s.store.active ≠ [] ∧ s.Owed 10 := by
  have hrun : ((sampleBegin 1).bind fun s₀ =>
      (feed Timed.step Timed.Steady (Timed.begin s₀ 0)
        (sampleReturn.map fun label => .fine (.sys label))).map fun s =>
        (s.fine.stage.inside, decide s.fine.sys.AtWaitpid, s.store.active)) =
      some (false, true, [0]) := by decide +kernel
  obtain ⟨s₀, s, hbegin, hreach, hobserved⟩ := Reachable.exists_of_run hrun
  simp only [Prod.mk.injEq, decide_eq_true_eq] at hobserved
  obtain ⟨hinside, hwait, hactive⟩ := hobserved
  have hat : s.AtWaitpid := ⟨Fine.eq_outside_of_inside (by rw [hinside]; simp), hwait⟩
  have hne : s.store.active ≠ [] := by
    rw [hactive]
    simp
  have hkept : TimerKept 10 := (timer_kept_iff (by decide)).mpr (by decide)
  exact ⟨s₀, s, hbegin, hreach, hat, hne, hkept.owed _ _ _ _ _ _ _ _ rfl hbegin hreach hat hne⟩

end Memleax
