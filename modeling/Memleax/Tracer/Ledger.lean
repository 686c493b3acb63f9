import Memleax.Store.HeapRefinement
import Memleax.Tracer.Nesting

/-!
# The loop as seen from the store

Of all that the loop does, the store only meets two kinds of iterations: a sweep
at `lexpire`, and the return of a call, whose handler runs before the sweep. The
ledger is the machine that makes such rounds and nothing else, whatever the
threads, the text and the requests are doing. The system refines it
(`System.refines_ledger`): its store and its log are those of a ledger, and so is
the reason for which it leaves the loop, if it is one that the store gives
(`Phase.ofStore`).

What holds of every history of the store therefore holds in every state of the
system. The last section does this for the target's heap.
-/

namespace Memleax

open Framework

/-- What the store meets in one iteration. -/
inductive Round where
  | sweep (now : Int)
  /-- the return of a call, and the sweep after it unless the handler fails -/
  | call (inv : Invocation) (env : Env) (now : Int)

structure Ledger where
  store : Store := {}
  log : List Invocation := []
  /-- what has been done to the store -/
  history : List Op := []
  phase : Phase := .loop

/-- The reasons to leave the loop that the store gives. -/
def Phase.ofStore : Phase → Phase
  | .left .tooMany => .left .tooMany
  | .left .notEnoughMemory => .left .notEnoughMemory
  | _ => .loop

/-- The operation on the store that a handler call is. -/
def Invocation.op (inv : Invocation) (env : Env) : Op := .call inv.api inv.ret inv.arg1 inv.arg2 env

namespace Ledger

def sweep (lim : Limits) (l : Ledger) (now : Int) : Ledger :=
  let r := memblockExpire l.store now lim
  { l with
    store := r.2
    history := l.history ++ [.sweep now lim]
    phase := if r.1 < 0 then .left .tooMany else l.phase }

def call (l : Ledger) (inv : Invocation) (env : Env) : Ledger :=
  let r := inv.api.handler l.store env inv.ret inv.arg1 inv.arg2
  { store := r.2
    log := l.log ++ [inv]
    history := l.history ++ [inv.op env]
    phase := if r.1 ≠ 0 then .left .notEnoughMemory else l.phase }

/-- One round, unless the loop has been left. -/
def step (lim : Limits) (l : Ledger) (round : Round) : Option Ledger :=
  if l.phase = .loop then
    match round with
    | .sweep now => some (l.sweep lim now)
    | .call inv env now =>
        let l := l.call inv env
        some (if l.phase = .loop then l.sweep lim now else l)
  else none

section Step

variable {lim : Limits} {l : Ledger} {inv : Invocation} {env : Env} {now : Int}

/-- A handler that fails ends the loop before the sweep. -/
theorem step_call_fails (h : l.phase = .loop)
    (hret : (inv.api.handler l.store env inv.ret inv.arg1 inv.arg2).1 ≠ 0) :
    l.step lim (.call inv env now) = some (l.call inv env) := by
  have hphase : (l.call inv env).phase ≠ .loop := by
    rw [call]
    dsimp only
    rw [if_pos hret]
    nofun
  rw [step, if_pos h]
  dsimp only
  rw [if_neg hphase]

theorem call_phase (h : l.phase = .loop)
    (hret : (inv.api.handler l.store env inv.ret inv.arg1 inv.arg2).1 = 0) :
    (l.call inv env).phase = .loop := by
  rw [call]
  dsimp only
  rw [if_neg (not_not.mpr hret), h]

theorem step_call (h : l.phase = .loop)
    (hret : (inv.api.handler l.store env inv.ret inv.arg1 inv.arg2).1 = 0) :
    l.step lim (.call inv env now) = some ((l.call inv env).sweep lim now) := by
  rw [step, if_pos h]
  dsimp only
  rw [if_pos (call_phase h hret)]

end Step

/-- The answers of the outside in a round are those of one iteration. The
backtrace begins with the entry of the function called. -/
def Answered (bps : Breakpoints) (P : Outside → Prop) : Round → Prop
  | .sweep now => ∃ out, P out ∧ now = out.sweepNow
  | .call inv env now => ∃ out, P out ∧ now = out.sweepNow ∧
      env = { out.env with ips := (bps inv.api).entryAddress :: out.env.ips }

end Ledger

/-! ## One iteration -/

def Request.isAlarm : Request → Bool
  | .alarm _ => true
  | _ => false

/-- The iteration has passed `memblock_expire`, which is followed by `alarm` or
the end of the loop. -/
def Turn.swept (turn : Turn) : Bool :=
  decide (turn.phase = .left .tooMany) || turn.requests.any Request.isAlarm

/-- The round that the iteration is to the store, if any. -/
def Turn.round (turn : Turn) (bps : Breakpoints) (out : Outside) : Option Round :=
  match turn.invoked with
  | some inv =>
      some (.call inv { out.env with ips := (bps inv.api).entryAddress :: out.env.ips }
        out.sweepNow)
  | none => if turn.swept then some (.sweep out.sweepNow) else none

/-- The ledger of the system, after the limits and the breakpoints are known. -/
structure System.Kept (lim : Limits) (bps : Breakpoints) (s : System) (l : Ledger) : Prop where
  limits : s.monitor.limits = lim
  breakpoints : s.monitor.breakpoints = bps
  store : s.monitor.store = l.store
  log : s.log = l.log
  phase : l.phase = s.phase.ofStore

/-- What an iteration is to the ledger: nothing, or one round. -/
inductive Monitor.Rounds (m : Monitor) (l : Ledger) (out : Outside) (turn : Turn) : Prop
  | none (hround : turn.round m.breakpoints out = none)
      (hstore : turn.monitor.store = m.store) (hinvoked : turn.invoked = none)
      (hphase : turn.phase.ofStore = .loop)
  | one (round : Round) (l' : Ledger) (hround : turn.round m.breakpoints out = some round)
      (hanswered : Ledger.Answered m.breakpoints (· = out) round)
      (hstep : l.step m.limits round = some l') (hstore : turn.monitor.store = l'.store)
      (hlog : l'.log = l.log ++ turn.invoked.toList) (hphase : l'.phase = turn.phase.ofStore)

section Turn

variable {m : Monitor} {l : Ledger} {out : Outside}

theorem Monitor.lexpire_limits (m : Monitor) (pid : Pid) (ctx : Context) (out : Outside)
    (sent : List Request) (invoked : Option Invocation) :
    (m.lexpire pid ctx out sent invoked).monitor.limits = m.limits := by
  unfold Monitor.lexpire
  dsimp only
  split <;> rfl

variable (out) in
/-- `lexpire` is a sweep. -/
theorem Monitor.lexpire_sweep {m : Monitor} {l : Ledger} (hstore : m.store = l.store)
    (hphase : l.phase = .loop) (pid : Pid) (ctx : Context) (sent : List Request)
    (invoked : Option Invocation) :
    (m.lexpire pid ctx out sent invoked).monitor.store = (l.sweep m.limits out.sweepNow).store ∧
      (l.sweep m.limits out.sweepNow).phase =
        (m.lexpire pid ctx out sent invoked).phase.ofStore := by
  unfold Monitor.lexpire Ledger.sweep
  rw [hstore]
  dsimp only
  split
  · exact ⟨rfl, rfl⟩
  · exact ⟨rfl, hphase⟩

theorem Monitor.lexpire_passes (m : Monitor) (pid : Pid) (ctx : Context) (sent : List Request)
    (invoked : Option Invocation) : (m.lexpire pid ctx out sent invoked).swept = true := by
  unfold Monitor.lexpire
  dsimp only
  split
  · rfl
  · simp [Turn.swept, Request.isAlarm]

/-- An iteration that only sends writes and goes no further. -/
theorem Turn.round_writes (bps : Breakpoints) {m' : Monitor} {ctx : Context} {phase : Phase}
    (hphase : phase ≠ .left .tooMany) (writes : List Write) :
    Turn.round ⟨m', ctx, writes.map Request.write, phase, none⟩ bps out = none := by
  have hno : (writes.map Request.write).any Request.isAlarm = false := by
    rw [List.any_map, List.any_eq_false]
    exact fun _ _ => Bool.false_ne_true
  simp [Turn.round, Turn.swept, hphase, hno]

/-- An iteration that only sweeps. -/
theorem Monitor.lexpire_rounds {m' : Monitor} (hlimits : m'.limits = m.limits)
    (hstore : m'.store = l.store) (hphase : l.phase = .loop) (pid : Pid) (ctx : Context)
    (sent : List Request) : m.Rounds l out (m'.lexpire pid ctx out sent none) := by
  obtain ⟨hs, hp⟩ := Monitor.lexpire_sweep (m := m') out hstore hphase pid ctx sent none
  rw [hlimits] at hs hp
  have hinvoked := (Monitor.lexpire_spec m' pid ctx out sent none).2.2.2.1
  refine .one (.sweep out.sweepNow) _ ?_ ⟨out, rfl, rfl⟩ (if_pos hphase) hs ?_ hp
  · rw [Turn.round, hinvoked]
    exact if_pos (m'.lexpire_passes pid ctx sent none)
  · rw [hinvoked]
    exact (List.append_nil _).symm

/-- The two ways in which the return of a call goes on after the handler. -/
theorem Monitor.atReturn_store (m : Monitor) (pid : Pid) (ctx : Context) (out : Outside)
    (sent : List Request) (api : Api) {r : Int × Store}
    (hr : api.handler m.store
      { out.env with ips := (m.breakpoints api).entryAddress :: out.env.ips }
      (callReturnValue ctx) m.arg1 m.arg2 = r) :
    (r.1 ≠ 0 → (m.atReturn pid ctx out sent api).monitor.store = r.2 ∧
      (m.atReturn pid ctx out sent api).phase = .left .notEnoughMemory) ∧
    (r.1 = 0 → ∃ (m' : Monitor) (sent' : List Request),
      m.atReturn pid ctx out sent api = m'.lexpire pid ctx out sent'
        (some ⟨pid, api, callReturnValue ctx, m.arg1, m.arg2⟩) ∧
      m'.limits = m.limits ∧ m'.store = r.2) := by
  subst hr
  unfold Monitor.atReturn
  dsimp only
  constructor
  · intro hret
    rw [if_pos hret]
    exact ⟨rfl, rfl⟩
  · intro hret
    rw [if_neg (not_not.mpr hret)]
    split
    · exact ⟨_, _, rfl, rfl, rfl⟩
    · exact ⟨_, _, rfl, rfl, rfl⟩

theorem Monitor.atReturn_rounds (hstore : m.store = l.store) (hphase : l.phase = .loop) (pid : Pid)
    (ctx : Context) (sent : List Request) (api : Api) :
    m.Rounds l out (m.atReturn pid ctx out sent api) := by
  -- the call that has returned, and the outside that its handler sees
  obtain ⟨inv, hinv⟩ : ∃ inv : Invocation, inv = ⟨pid, api, callReturnValue ctx, m.arg1, m.arg2⟩ :=
    ⟨_, rfl⟩
  obtain ⟨env, henv⟩ : ∃ env : Env, env =
      { out.env with ips := (m.breakpoints api).entryAddress :: out.env.ips } := ⟨_, rfl⟩
  have hanswered : Ledger.Answered m.breakpoints (· = out) (.call inv env out.sweepNow) := by
    rw [hinv]
    exact ⟨out, rfl, rfl, henv⟩
  have hinvoked := (m.atReturn_spec pid ctx out sent api).2.2.2.1
  rw [← hinv] at hinvoked
  have hround : (m.atReturn pid ctx out sent api).round m.breakpoints out =
      some (.call inv env out.sweepNow) := by
    rw [Turn.round, hinvoked, henv, hinv]
  have hhandler : api.handler m.store env (callReturnValue ctx) m.arg1 m.arg2 =
      inv.api.handler l.store env inv.ret inv.arg1 inv.arg2 := by rw [hinv, hstore]
  have hlog : ∀ (l' : Ledger), l'.log = l.log ++ [inv] →
      l'.log = l.log ++ (m.atReturn pid ctx out sent api).invoked.toList := by
    intro l' hl'
    rw [hl', hinvoked]
    rfl
  rw [henv] at hhandler
  obtain ⟨hfails, hsucceeds⟩ := m.atReturn_store pid ctx out sent api hhandler
  rw [← henv] at hfails hsucceeds
  by_cases hret : (inv.api.handler l.store env inv.ret inv.arg1 inv.arg2).1 = 0
  · -- the handler succeeds, and `lexpire` follows
    rcases hsucceeds hret with ⟨m', sent', hturn, hlimits, hstore'⟩
    obtain ⟨hs, hp⟩ := Monitor.lexpire_sweep (l := l.call inv env) out hstore'
      (Ledger.call_phase hphase hret) pid ctx sent'
      (some ⟨pid, api, callReturnValue ctx, m.arg1, m.arg2⟩)
    rw [← hturn, hlimits] at hs hp
    exact .one _ _ hround hanswered (Ledger.step_call hphase hret) hs (hlog _ rfl) hp
  · obtain ⟨hs, hp⟩ := hfails hret
    refine .one _ _ hround hanswered (Ledger.step_call_fails hphase hret) hs (hlog _ rfl) ?_
    rw [hp, Ledger.call]
    dsimp only
    rw [if_pos hret]
    rfl

theorem Monitor.onSigtrap_rounds (hstore : m.store = l.store) (hphase : l.phase = .loop)
    (code : Code) (pid : Pid) (ctx : Context) : m.Rounds l out (m.onSigtrap code pid ctx out) := by
  unfold Monitor.onSigtrap
  dsimp only
  split
  · split
    · exact .none rfl rfl rfl rfl
    · exact .none rfl rfl rfl rfl
  · split
    · exact .none rfl rfl rfl rfl
    · split
      · split
        · exact .none (Turn.round_writes _ (by decide) _) rfl rfl rfl
        · exact Monitor.atReturn_rounds hstore hphase pid _ _ _
      · split
        · exact Monitor.lexpire_rounds (by rfl) (by exact hstore) hphase pid _ _
        · unfold Monitor.elsewhere
          dsimp only
          split
          · exact .none (Turn.round_writes _ (by decide) _) rfl rfl rfl
          · exact Monitor.lexpire_rounds (by rfl) (by exact hstore) hphase pid _ _

theorem Monitor.onSigstop_rounds (hstore : m.store = l.store) (hphase : l.phase = .loop) (pid : Pid)
    (ctx : Context) : m.Rounds l out (m.onSigstop pid ctx out) := by
  unfold Monitor.onSigstop
  split
  · exact Monitor.lexpire_rounds (by rfl) (by exact hstore) hphase pid ctx []
  · split
    · exact .none rfl rfl rfl rfl
    · split
      · exact .none rfl rfl rfl rfl
      · exact .none rfl rfl rfl rfl

/-- **Every iteration is at most one round.** -/
theorem Monitor.turn_rounds (out : Outside) (hstore : m.store = l.store)
    (hphase : l.phase = .loop) (code : Code)
    (pid : Pid) (report : Report) (ctx : Context) :
    m.Rounds l out (m.turn code pid report ctx out) := by
  cases report with
  | exit =>
      rw [Monitor.turn]
      split
      · exact .none rfl rfl rfl rfl
      · exact .none rfl rfl rfl rfl
  | stop signum event =>
      cases signum with
      | sigstop => exact Monitor.onSigstop_rounds hstore hphase pid ctx
      | sigtrap =>
          cases event with
          | true => exact .none rfl rfl rfl rfl
          | false => exact Monitor.onSigtrap_rounds hstore hphase code pid ctx
      | _ => exact .none rfl rfl rfl rfl

end Turn

/-! ## The refinement -/

section Refinement

variable {P : Outside → Prop} {lim : Limits} {bps : Breakpoints}

/-- What the iterations are told by the outside is as `P` says. -/
def System.Told (P : Outside → Prop) (_ : System) : Label → Prop
  | .wait _ out => P out
  | _ => True

theorem Ledger.Answered.mono {P Q : Outside → Prop} (hPQ : ∀ out, P out → Q out) {round : Round}
    (h : Ledger.Answered bps P round) : Ledger.Answered bps Q round := by
  cases round with
  | sweep now =>
      rcases h with ⟨out, hout, hnow⟩
      exact ⟨out, hPQ out hout, hnow⟩
  | call inv env now =>
      rcases h with ⟨out, hout, hnow, henv⟩
      exact ⟨out, hPQ out hout, hnow, henv⟩

/-- The limits are the options of `main`, for good. -/
theorem Monitor.turn_limits (m : Monitor) (code : Code) (pid : Pid) (report : Report)
    (ctx : Context) (out : Outside) : (m.turn code pid report ctx out).monitor.limits = m.limits := by
  have hsigtrap : (m.onSigtrap code pid ctx out).monitor.limits = m.limits := by
    unfold Monitor.onSigtrap
    dsimp only
    split
    · split <;> rfl
    · split
      · rfl
      · split
        · split
          · rfl
          · unfold Monitor.atReturn
            dsimp only
            split
            · rfl
            · split <;> exact Monitor.lexpire_limits _ _ _ _ _ _
        · split
          · exact Monitor.lexpire_limits _ _ _ _ _ _
          · unfold Monitor.elsewhere
            dsimp only
            split
            · rfl
            · exact Monitor.lexpire_limits _ _ _ _ _ _
  cases report with
  | exit =>
      rw [Monitor.turn]
      split <;> rfl
  | stop signum event =>
      cases signum with
      | sigstop =>
          show (m.onSigstop pid ctx out).monitor.limits = m.limits
          unfold Monitor.onSigstop
          split
          · exact Monitor.lexpire_limits _ _ _ _ _ _
          · split
            · rfl
            · split <;> rfl
      | sigtrap =>
          cases event with
          | true => rfl
          | false => exact hsigtrap
      | _ => rfl

/-- The round that a step of the system is to the store, if any. -/
def System.round (s : System) : Label → Option Round
  | .wait t out =>
      match s.status t with
      | .pending report =>
          (s.monitor.turn s.code t report (s.context t) out).round s.monitor.breakpoints out
      | _ => none
  | _ => none

/-- The ledger after a step that is a round or none. -/
def Ledger.follow (lim : Limits) (l : Ledger) : Option Round → Option Ledger
  | none => some l
  | some round => l.step lim round

/-- A step that leaves the loop's variables, the log and the phase alone. -/
theorem System.Kept.quiet {s s' : System} {l : Ledger} (h : s.Kept lim bps l)
    (hlimits : s'.monitor.limits = s.monitor.limits)
    (hbps : s'.monitor.breakpoints = s.monitor.breakpoints)
    (hstore : s'.monitor.store = s.monitor.store) (hlog : s'.log = s.log)
    (hphase : s'.phase.ofStore = s.phase.ofStore) : s'.Kept lim bps l :=
  ⟨hlimits.trans h.limits, hbps.trans h.breakpoints, hstore.trans h.store, hlog.trans h.log,
    h.phase.trans hphase.symm⟩

/-- **One step.** -/
theorem System.Kept.follow {s s' : System} {l : Ledger} {label : Label} (h : s.Kept lim bps l)
    (hstep : s.step label = some s') :
    ∃ l', l.follow lim (s.round label) = some l' ∧ s'.Kept lim bps l' ∧
      ∀ P round, s.Told P label → s.round label = some round → Ledger.Answered bps P round := by
  cases System.step_kind hstep with
  | wait t report out hpending hwait =>
      have hphase : l.phase = .loop := by rw [h.phase, hwait.1]; rfl
      have hlimits := s.monitor.turn_limits s.code t report (s.context t) out
      have hbps := (s.monitor.turn_keeps s.code t (s.context t) out report).2
      have hround : s.round (.wait t out) =
          (s.monitor.turn s.code t report (s.context t) out).round s.monitor.breakpoints out := by
        simp only [System.round, hpending]
      rw [hround]
      cases Monitor.turn_rounds out h.store hphase s.code t report (s.context t) with
      | none hnothing hstore hinvoked hnone =>
          rw [hnothing]
          refine ⟨l, rfl, h.quiet hlimits hbps hstore ?_ ?_, nofun⟩
          · show s.log ++ (s.monitor.turn s.code t report (s.context t) out).invoked.toList = s.log
            rw [hinvoked]
            exact List.append_nil _
          · rw [hwait.1]
            exact hnone
      | one round l' hsome hanswered hledger hstore hlog hend =>
          rw [h.limits] at hledger
          rw [h.breakpoints] at hanswered
          rw [hsome]
          refine ⟨l', hledger, ?_, ?_⟩
          · refine ⟨hlimits.trans h.limits, hbps.trans h.breakpoints, hstore, ?_, hend⟩
            show s.log ++ _ = l'.log
            rw [h.log, hlog]
          · intro P round' hok heq
            obtain rfl := Option.some.inj heq
            exact hanswered.mono fun o ho => ho ▸ hok
  | waitError hwait => exact ⟨l, rfl, h.quiet rfl rfl rfl rfl (by rw [hwait.1]; rfl), nofun⟩
  | issueResume t signum queue hqueue =>
      refine ⟨l, rfl, ?_, nofun⟩
      unfold System.resume
      split <;> exact h.quiet rfl rfl rfl rfl rfl
  | _ => exact ⟨l, rfl, h.quiet rfl rfl rfl rfl rfl, nofun⟩

theorem System.Kept.step {s s' : System} {l : Ledger} {label : Label} (h : s.Kept lim bps l)
    (hok : s.Told P label) (hstep : s.step label = some s') :
    ∃ l', Reachable (Ledger.step lim) (fun _ => Ledger.Answered bps P) l l' ∧
      s'.Kept lim bps l' := by
  rcases h.follow hstep with ⟨l', hfollow, hkept, hanswered⟩
  refine ⟨l', ?_, hkept⟩
  cases hround : s.round label with
  | none =>
      rw [hround] at hfollow
      exact Option.some.inj hfollow ▸ .start
  | some round =>
      rw [hround] at hfollow
      exact Reachable.start.step (hanswered P round hok hround) hfollow

theorem System.kept_begin {symtabByName : Api → Word} {text : Bytes 64} {targetPid : Pid}
    {others : Pid → Bool} {s₀ : System}
    (hbegin : System.begin symtabByName text targetPid lim others = some s₀) :
    s₀.Kept lim s₀.monitor.breakpoints {} := by
  obtain ⟨init, -, rfl⟩ := Option.map_eq_some_iff.mp hbegin
  exact ⟨rfl, rfl, rfl, rfl, rfl⟩

/-- **The system refines the ledger.** -/
theorem System.refines_ledger {symtabByName : Api → Word} {text : Bytes 64} {targetPid : Pid}
    {others : Pid → Bool} {s₀ s : System}
    (hbegin : System.begin symtabByName text targetPid lim others = some s₀)
    (hs : Reachable System.step (System.Told P) s₀ s) :
    ∃ l, Reachable (Ledger.step lim) (fun _ => Ledger.Answered s₀.monitor.breakpoints P) {} l ∧
      s.Kept lim s₀.monitor.breakpoints l :=
  Reachable.simulate (fun _ _ _ _ h hok hstep => h.step hok hstep) hs (System.kept_begin hbegin)

end Refinement

/-! ## The target's heap, from the handler calls -/

/-- An outside that no call has asked anything. -/
def Env.idle : Env where
  now := 0
  ips := []

/-- The heap after the calls of a log. -/
def Heap.afterCall (h : Heap) (inv : Invocation) : Heap := h.step (inv.op .idle)

/-- The call is one of a conforming allocator, and no `realloc` of a tracked
block that fails. -/
def Heap.Admits (h : Heap) (inv : Invocation) : Prop :=
  h.Conforms (inv.op .idle) ∧
    (inv.api = .realloc → inv.ret = 0 → inv.arg2 ≠ 0 → h.tracked inv.arg1 = none)

/-- memleax's own `malloc`s succeed. -/
def Outside.MallocOk (out : Outside) : Prop :=
  out.env.memblockMalloc = true ∧ out.env.callstackMalloc = true

theorem Heap.step_op (h : Heap) (inv : Invocation) (env : Env) :
    h.step (inv.op env) = h.afterCall inv := by
  obtain ⟨t, api, ret, arg1, arg2⟩ := inv
  cases api <;> rfl

theorem Heap.conforms_op (h : Heap) (inv : Invocation) (env : Env) :
    h.Conforms (inv.op env) ↔ h.Conforms (inv.op .idle) := by
  obtain ⟨t, api, ret, arg1, arg2⟩ := inv
  cases api <;> exact Iff.rfl

theorem Heap.Admits.noFailedRealloc {s : Store} {h : Heap} {inv : Invocation}
    (hadmits : h.Admits inv) (hr : Refines (s, h)) (env : Env) :
    NoFailedRealloc (s, h) (inv.op env) := by
  obtain ⟨t, api, ret, arg1, arg2⟩ := inv
  cases api with
  | realloc =>
      intro hret hsize
      have hnone := hadmits.2 rfl hret hsize
      rw [← show s.sizeMap = h.tracked from hr, Store.sizeMap, Option.map_eq_none_iff] at hnone
      exact hnone
  | _ => trivial

/-- The store of a ledger beside the heap after its log. -/
structure Ledger.Tracks (live : Set Word) (l : Ledger) : Prop where
  inv : HeapInv (l.store, l.log.foldl Heap.afterCall { live := live })
  refines : Refines (l.store, l.log.foldl Heap.afterCall { live := live })

section Heap

variable {live : Set Word} {l l' : Ledger}

theorem Ledger.Tracks.sweep (h : l.Tracks live) (lim : Limits) (now : Int) :
    (l.sweep lim now).Tracks live where
  inv := heapInv_step (.sweep now lim) ⟨trivial, trivial⟩ h.inv h.refines
  refines := (refines_step_iff (.sweep now lim) ⟨trivial, trivial⟩ h.inv h.refines).mpr trivial

theorem Ledger.Tracks.call (h : l.Tracks live) {inv : Invocation} {env : Env}
    (hadmits : (l.log.foldl Heap.afterCall { live := live }).Admits inv)
    (hok : (inv.op env).MallocOk) : (l.call inv env).Tracks live := by
  have hhonest : Honest (l.store, l.log.foldl Heap.afterCall { live := live }) (inv.op env) :=
    ⟨(Heap.conforms_op _ inv env).mpr hadmits.1, hok⟩
  have hrealloc := hadmits.noFailedRealloc h.refines env
  have hinv := heapInv_step _ hhonest h.inv h.refines
  have hrefines := (refines_step_iff _ hhonest h.inv h.refines).mpr hrealloc
  have hboth : bothStep (l.store, l.log.foldl Heap.afterCall { live := live }) (inv.op env) =
      ((l.call inv env).store, (l.call inv env).log.foldl Heap.afterCall { live := live }) := by
    rw [bothStep, Heap.step_op, Ledger.call, List.foldl_append]
    rfl
  rw [hboth] at hinv hrefines
  exact ⟨hinv, hrefines⟩

/-- **The store of a ledger tracks the heap that its log leaves behind.** -/
theorem Ledger.tracks {bps : Breakpoints} {lim : Limits}
    (hl : Reachable (Ledger.step lim) (fun _ => Ledger.Answered bps Outside.MallocOk) {} l)
    (hlog : Along Heap.afterCall Heap.Admits { live := live } l.log) : l.Tracks live := by
  have hall : Along Heap.afterCall Heap.Admits { live := live } l.log → l.Tracks live := by
    refine Reachable.invariant
      (fun l => Along Heap.afterCall Heap.Admits { live := live } l.log → l.Tracks live) hl
      (fun _ => ⟨heapInv_attached live, rfl⟩) ?_
    intro l round l' ih hanswered hstep hlog
    unfold Ledger.step at hstep
    split at hstep
    · cases round with
      | sweep now =>
          obtain rfl := Option.some.inj hstep
          exact (ih hlog).sweep lim now
      | call inv env now =>
          rcases hanswered with ⟨out, hmalloc, -, henv⟩
          have hok : (inv.op env).MallocOk := by
            rw [henv]
            exact hmalloc
          have hcall : Along Heap.afterCall Heap.Admits { live := live } (l.log ++ [inv]) →
              (l.call inv env).Tracks live := by
            intro hlog
            obtain ⟨hbefore, hadmits⟩ := (along_append_single _ _ _).mp hlog
            exact (ih hbefore).call hadmits hok
          obtain rfl := Option.some.inj hstep
          split at hlog
          · rename_i hphase
            rw [if_pos hphase]
            exact (hcall hlog).sweep lim now
          · rename_i hphase
            rw [if_neg hphase]
            exact hcall hlog
    · cases hstep
  exact hall hlog

end Heap

theorem System.Kept.tracks {lim : Limits} {bps : Breakpoints} {s : System} {l : Ledger}
    {live : Set Word} (h : s.Kept lim bps l)
    (hl : Reachable (Ledger.step lim) (fun _ => Ledger.Answered bps Outside.MallocOk) {} l)
    (hlog : Along Heap.afterCall Heap.Admits { live := live } s.log) :
    s.monitor.store.sizeMap = (s.log.foldl Heap.afterCall { live := live }).tracked := by
  rw [h.log] at hlog ⊢
  rw [h.store]
  exact (Ledger.tracks hl hlog).refines

/-- **memleax tracks what its handlers are told**, with any threads and in any
order of steps: `memblock_search` finds the blocks that the calls passed to the
handlers have obtained and not released, with the sizes last requested. -/
theorem System.tracks_log {symtabByName : Api → Word} {text : Bytes 64} {targetPid : Pid}
    {lim : Limits} {others : Pid → Bool} {s₀ s : System} {live : Set Word}
    (hbegin : System.begin symtabByName text targetPid lim others = some s₀)
    (hs : Reachable System.step (System.Told Outside.MallocOk) s₀ s)
    (hlog : Along Heap.afterCall Heap.Admits { live := live } s.log) :
    s.monitor.store.sizeMap = (s.log.foldl Heap.afterCall { live := live }).tracked := by
  obtain ⟨l, hl, hkept⟩ := Reachable.simulate (fun _ _ _ _ h hok hstep => h.step hok hstep) hs
    (System.kept_begin hbegin)
  exact hkept.tracks hl hlog

instance (out : Outside) : Decidable out.MallocOk := inferInstanceAs (Decidable (_ ∧ _))

instance (s : System) : (label : Label) → Decidable (s.Told Outside.MallocOk label)
  | .wait _ out => inferInstanceAs (Decidable out.MallocOk)
  | .fetch _ _ | .signal _ _ _ | .clone _ _ _ | .exit _ | .interrupt _ | .waitFails _ | .issue =>
      inferInstanceAs (Decidable True)

/-- `calloc` calls `malloc` inside, and both return. -/
def callocReturns : List Move := callInside.take 29

theorem callocReturns_reachable :
    ∃ s₀ s, sampleBegin 1 = some s₀ ∧
      Reachable Traced.step
        (fun s m => s.NestMove m ∧ s.sys.Told Outside.MallocOk (m.label s.sys)) (.start s₀) s ∧
      s.sys.phase = .loop ∧ s.sys.log = [⟨1, .malloc, 0x5000, 16, 0⟩] ∧
      s.leafCalls 1 = [⟨1, .malloc, 0x5000, 16, 0⟩] := by
  have hrun : ((sampleBegin 1).bind fun s₀ =>
      (feed Traced.step
        (fun s m => s.NestMove m ∧ s.sys.Told Outside.MallocOk (m.label s.sys)) (.start s₀)
        callocReturns).map fun s => (decide (s.sys.phase = .loop), s.sys.log, s.leafCalls 1)) =
      some (true, [⟨1, .malloc, 0x5000, 16, 0⟩], [⟨1, .malloc, 0x5000, 16, 0⟩]) := by decide +kernel
  obtain ⟨s₀, s, hbegin, hreach, hs⟩ := Reachable.exists_of_run hrun
  simp only [Prod.mk.injEq, decide_eq_true_eq] at hs
  exact ⟨s₀, s, hbegin, hreach, hs⟩

theorem callocReturns_system :
    ∃ s₀ s, sampleBegin 1 = some s₀ ∧
      Reachable System.step (System.Told Outside.MallocOk) s₀ s ∧
      s.log = [⟨1, .malloc, 0x5000, 16, 0⟩] := by
  obtain ⟨s₀, s, hbegin, hreach, -, hlog, -⟩ := callocReturns_reachable
  exact ⟨s₀, s.sys, hbegin, hreach.project Traced.sys fun s m _ hok hstep =>
    ⟨m.label s.sys, hok.2, (Traced.step_eq_some hstep).2.1⟩, hlog⟩

theorem callocReturns_admitted :
    Along Heap.afterCall Heap.Admits { live := ∅ } [⟨1, .malloc, 0x5000, 16, 0⟩] :=
  ⟨⟨fun _ => Set.notMem_empty _, nofun⟩, trivial⟩

theorem System.refines_ledger_callocReturns :
    ∃ (s₀ s : System) (l : Ledger), sampleBegin 1 = some s₀ ∧
      s.Kept defaultLimits s₀.monitor.breakpoints l ∧ l.log = [⟨1, .malloc, 0x5000, 16, 0⟩] := by
  obtain ⟨s₀, s, hbegin, hreach, hlog⟩ := callocReturns_system
  obtain ⟨l, -, hkept⟩ := System.refines_ledger hbegin hreach
  exact ⟨s₀, s, l, hbegin, hkept, hkept.log.symm.trans hlog⟩

theorem System.tracks_log_callocReturns :
    ∃ s₀ s : System, sampleBegin 1 = some s₀ ∧ s.monitor.store.sizeMap 0x5000 = some 16 := by
  obtain ⟨s₀, s, hbegin, hreach, hlog⟩ := callocReturns_system
  refine ⟨s₀, s, hbegin, ?_⟩
  rw [System.tracks_log hbegin hreach (hlog ▸ callocReturns_admitted), hlog]
  rfl

end Memleax
