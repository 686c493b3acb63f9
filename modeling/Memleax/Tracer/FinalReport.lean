import Memleax.Store.LeakDetector
import Memleax.Tracer.Ledger

/-!
# From the target's calls to the report

The last link of the chain: what `callstack_report` would print if the loop
ended now. A target of one thread fetches instructions; the loop turns its calls
into operations on the store and sweeps after each of them; the report lists the
allocations of the target that were old at the last sweep.

The ledger of the run is the witness of the times and of the backtraces, which
only the outside knows, so it is carried along (`Audited`). That leaves no run
out (`Audited.exists_ledger`).
-/

namespace Memleax

open Framework

/-! ## The history of a ledger -/

/-- What the log keeps of an operation. -/
def Op.arguments : Op → Option (Api × Word × Word × Word)
  | .call api ret arg1 arg2 _ => some (api, ret, arg1, arg2)
  | .sweep _ _ => none

def Invocation.arguments (inv : Invocation) : Api × Word × Word × Word :=
  (inv.api, inv.ret, inv.arg1, inv.arg2)

namespace Ledger

/-- The clock at the last sweep. -/
def lastSweep (l : Ledger) : Int := (l.history.getLast?.map Op.now).getD 0

/-- The history is that of the store and of the log. -/
structure Historic (lim : Limits) (l : Ledger) : Prop where
  store : l.store = Store.run l.history
  log : l.history.filterMap Op.arguments = l.log.map Invocation.arguments
  limits : ∀ now lim', Op.sweep now lim' ∈ l.history → lim' = lim

/-- In the loop, a sweep that stops at no limit comes last. -/
def EndsSwept (lim : Limits) (l : Ledger) : Prop :=
  l.phase = .loop → l.history = [] ∨ ∃ pre now, l.history = pre ++ [.sweep now lim] ∧
    0 ≤ (memblockExpire (Store.run pre) now lim).1

section History

variable {lim : Limits} {l l' : Ledger} {round : Round}

theorem Historic.sweep (h : l.Historic lim) (now : Int) : (l.sweep lim now).Historic lim where
  store := by
    show (memblockExpire l.store now lim).2 = Store.run (l.history ++ [Op.sweep now lim])
    rw [Store.run_append_single, h.store]
    rfl
  log := by
    show (l.history ++ [Op.sweep now lim]).filterMap Op.arguments = l.log.map Invocation.arguments
    rw [List.filterMap_append, h.log]
    exact List.append_nil _
  limits := by
    intro t lim' hmem
    rcases List.mem_append.mp hmem with hmem | hmem
    · exact h.limits t lim' hmem
    · obtain ⟨-, rfl⟩ := Op.sweep.inj (List.mem_singleton.mp hmem)
      rfl

theorem Historic.call (h : l.Historic lim) (inv : Invocation) (env : Env) :
    (l.call inv env).Historic lim where
  store := by
    show (inv.api.handler l.store env inv.ret inv.arg1 inv.arg2).2 =
      Store.run (l.history ++ [inv.op env])
    rw [Store.run_append_single, h.store]
    rfl
  log := by
    show (l.history ++ [inv.op env]).filterMap Op.arguments =
      (l.log ++ [inv]).map Invocation.arguments
    rw [List.filterMap_append, h.log, List.map_append]
    rfl
  limits := by
    intro t lim' hmem
    rcases List.mem_append.mp hmem with hmem | hmem
    · exact h.limits t lim' hmem
    · cases List.mem_singleton.mp hmem

theorem Historic.endsSwept (h : l.Historic lim) (now : Int) : (l.sweep lim now).EndsSwept lim := by
  intro hphase
  refine Or.inr ⟨l.history, now, rfl, ?_⟩
  rw [← h.store]
  by_contra hneg
  have hleft : (l.sweep lim now).phase = .left .tooMany := if_pos (not_le.mp hneg)
  rw [hleft] at hphase
  cases hphase

/-- **One round.** -/
theorem Historic.step (h : l.Historic lim) (hstep : l.step lim round = some l') :
    l'.Historic lim ∧ l'.EndsSwept lim := by
  unfold Ledger.step at hstep
  split at hstep
  · cases round with
    | sweep now =>
        obtain rfl := Option.some.inj hstep
        exact ⟨h.sweep now, h.endsSwept now⟩
    | call inv env now =>
        obtain rfl := Option.some.inj hstep
        split
        · exact ⟨(h.call inv env).sweep now, (h.call inv env).endsSwept now⟩
        · rename_i hphase
          exact ⟨h.call inv env, fun hloop => absurd hloop hphase⟩
  · cases hstep

end History

/-- Rounds that the machine makes one after the other. -/
theorem historic {bps : Breakpoints} {lim : Limits} {l : Ledger} {P : Outside → Prop}
    (hl : Reachable (Ledger.step lim) (fun _ => Answered bps P) {} l) :
    l.Historic lim ∧ l.EndsSwept lim := by
  refine Reachable.invariant (fun l => l.Historic lim ∧ l.EndsSwept lim) hl ?_ ?_
  · exact ⟨⟨rfl, rfl, by simp⟩, fun _ => Or.inl rfl⟩
  · rintro l round l' ⟨h, -⟩ - hstep
    exact h.step hstep

/-- The store has gone through the history beside the heap of the log, as the
detector wants it. -/
structure Follows (live : Set Word) (l : Ledger) : Prop where
  detectable : Along bothStep Detectable (attached live) l.history
  both : l.history.foldl bothStep (attached live) =
    (l.store, l.log.foldl Heap.afterCall { live := live })

section Follows

variable {live : Set Word} {l : Ledger}

theorem Follows.sweep (h : l.Follows live) (lim : Limits) (now : Int) :
    (l.sweep lim now).Follows live where
  detectable := (along_append_single _ _ _).mpr
    ⟨h.detectable, ⟨trivial, trivial⟩, trivial, trivial⟩
  both := by
    show (l.history ++ [Op.sweep now lim]).foldl bothStep (attached live) = _
    rw [List.foldl_append, h.both]
    rfl

theorem Follows.call (h : l.Follows live) {inv : Invocation} {env : Env}
    (hadmits : (l.log.foldl Heap.afterCall { live := live }).Admits inv)
    (hok : (inv.op env).MallocOk) (hdiscerns : Discerns l.store (inv.op env)) :
    (l.call inv env).Follows live := by
  have hrefines := (detects_run h.detectable).refines
  rw [h.both] at hrefines
  have hop : Detectable (l.store, l.log.foldl Heap.afterCall { live := live }) (inv.op env) :=
    ⟨⟨(Heap.conforms_op _ inv env).mpr hadmits.1, hok⟩, hadmits.noFailedRealloc hrefines env,
      hdiscerns⟩
  constructor
  · refine (along_append_single _ _ _).mpr ⟨h.detectable, ?_⟩
    rw [h.both]
    exact hop
  · show (l.history ++ [inv.op env]).foldl bothStep (attached live) = _
    rw [List.foldl_append, h.both, List.foldl_cons, List.foldl_nil, bothStep, Heap.step_op,
      Ledger.call, List.foldl_append]
    rfl

theorem follows {bps : Breakpoints} {lim : Limits}
    (hl : Reachable (Ledger.step lim) (fun _ => Answered bps Outside.MallocOk) {} l)
    (hlog : Along Heap.afterCall Heap.Admits { live := live } l.log)
    (hdiscerns : Along Store.step Discerns {} l.history) : l.Follows live := by
  have hall : Along Heap.afterCall Heap.Admits { live := live } l.log →
      Along Store.step Discerns {} l.history → l.Follows live := by
    refine Reachable.invariant_of
      (fun l => Along Heap.afterCall Heap.Admits { live := live } l.log →
        Along Store.step Discerns {} l.history → l.Follows live)
      hl historic (fun _ _ => ⟨trivial, rfl⟩) ?_
    rintro l round l' ⟨hhist, -⟩ - ih hanswered hstep hlog hdiscerns
    unfold Ledger.step at hstep
    split at hstep
    · cases round with
      | sweep now =>
          obtain rfl := Option.some.inj hstep
          exact (ih hlog ((along_append_single _ _ _).mp hdiscerns).1).sweep lim now
      | call inv env now =>
          rcases hanswered with ⟨out, hmalloc, -, henv⟩
          have hok : (inv.op env).MallocOk := by
            rw [henv]
            exact hmalloc
          have hcall : Along Heap.afterCall Heap.Admits { live := live } (l.log ++ [inv]) →
              Along Store.step Discerns {} (l.history ++ [inv.op env]) →
              (l.call inv env).Follows live := by
            intro hlog hdiscerns
            obtain ⟨hbefore, hadmits⟩ := (along_append_single _ _ _).mp hlog
            obtain ⟨hbefore', hop⟩ := (along_append_single _ _ _).mp hdiscerns
            refine (ih hbefore hbefore').call hadmits hok ?_
            rw [hhist.store]
            exact hop
          obtain rfl := Option.some.inj hstep
          split at hlog
          · rename_i hphase
            rw [if_pos hphase] at hdiscerns ⊢
            exact (hcall hlog ((along_append_single _ _ _).mp hdiscerns).1).sweep lim now
          · rename_i hphase
            rw [if_neg hphase] at hdiscerns ⊢
            exact hcall hlog hdiscerns
    · cases hstep
  exact hall hlog hdiscerns

/-- The expired list at the end of a history. -/
theorem Historic.swept {lim : Limits} (h : l.Historic lim) (hends : l.EndsSwept lim)
    (hphase : l.phase = .loop) (he : 0 < lim.expire) (hclock : ClockMonotone l.history) :
    Swept lim.expire l.lastSweep (Store.run l.history) := by
  rcases hends hphase with hnil | ⟨pre, now, hhist, hres⟩
  · rw [hnil]
    exact fun b hb => absurd hb List.not_mem_nil
  · have hlast : l.lastSweep = now := by
      rw [lastSweep, hhist, List.getLast?_append]
      rfl
    have hexp : ∀ op ∈ pre ++ [.sweep now lim], op.ExpiresAfter lim.expire := by
      intro op hop
      cases op with
      | call api ret arg1 arg2 env => trivial
      | sweep t lim' =>
          rw [← hhist] at hop
          exact congrArg Limits.expire (h.limits t lim' hop)
    rw [hhist] at hclock
    rw [hlast, hhist]
    exact swept_run he hclock hexp (List.forall_mem_nil _) hres

end Follows

end Ledger

/-! ## The system with its ledger -/

/-- The traced system and the ledger of its rounds. -/
structure Audited where
  traced : Traced
  ledger : Ledger := {}

namespace Audited

def step (a : Audited) (m : Move) : Option Audited :=
  (a.traced.step m).bind fun s =>
    (a.ledger.follow a.traced.sys.monitor.limits (a.traced.sys.round (m.label a.traced.sys))).map
      fun l => ⟨s, l⟩

/-- What a target of one thread and its outside may do. -/
def Allowed (a : Audited) (m : Move) : Prop :=
  a.traced.NestMove m ∧ a.traced.sys.Told Outside.MallocOk (m.label a.traced.sys)

theorem step_eq_some {a a' : Audited} {m : Move} (h : a.step m = some a') :
    a.traced.step m = some a'.traced ∧
      a.ledger.follow a.traced.sys.monitor.limits (a.traced.sys.round (m.label a.traced.sys)) =
        some a'.ledger := by
  obtain ⟨s, hs, h⟩ := Option.bind_eq_some_iff.mp h
  obtain ⟨l, hl, rfl⟩ := Option.map_eq_some_iff.mp h
  exact ⟨hs, hl⟩

/-- The ledger belongs to the system. -/
structure Books (lim : Limits) (bps : Breakpoints) (a : Audited) : Prop where
  kept : a.traced.sys.Kept lim bps a.ledger
  reachable : Reachable (Ledger.step lim) (fun _ => Ledger.Answered bps Outside.MallocOk) {}
    a.ledger

theorem Books.step {lim : Limits} {bps : Breakpoints} {a a' : Audited} {m : Move}
    (h : a.Books lim bps) (hok : a.Allowed m) (hstep : a.step m = some a') : a'.Books lim bps := by
  obtain ⟨htraced, hledger⟩ := step_eq_some hstep
  rcases h.kept.follow (Traced.step_eq_some htraced).2.1 with ⟨l', hfollow, hkept, hanswered⟩
  rw [h.kept.limits, hfollow] at hledger
  obtain rfl := Option.some.inj hledger
  refine ⟨hkept, ?_⟩
  cases hround : a.traced.sys.round (m.label a.traced.sys) with
  | none =>
      rw [hround] at hfollow
      exact Option.some.inj hfollow ▸ h.reachable
  | some round =>
      rw [hround] at hfollow
      exact h.reachable.step (hanswered _ round hok.2 hround) hfollow

section Runs

variable {symtabByName : Api → Word} {text : Bytes 64} {targetPid : Pid} {lim : Limits}
  {others : Pid → Bool} {s₀ : System}

theorem books (hbegin : System.begin symtabByName text targetPid lim others = some s₀)
    {a : Audited} (ha : Reachable step Allowed ⟨.start s₀, {}⟩ a) :
    a.Books lim s₀.monitor.breakpoints :=
  Reachable.invariant (Books lim s₀.monitor.breakpoints) ha ⟨System.kept_begin hbegin, .start⟩
    fun _ _ _ h hok hstep => h.step hok hstep

/-- **The ledger can always be carried along**, so that what holds of audited runs
holds of every run of the traced system. -/
theorem exists_ledger (hbegin : System.begin symtabByName text targetPid lim others = some s₀)
    {s : Traced} (hs : Reachable Traced.step
      (fun s m => s.NestMove m ∧ s.sys.Told Outside.MallocOk (m.label s.sys)) (.start s₀) s) :
    ∃ l, Reachable step Allowed ⟨.start s₀, {}⟩ ⟨s, l⟩ := by
  have hsim : ∀ (s : Traced) (m : Move) (s' : Traced) (a : Audited),
      (a.traced = s ∧ a.Books lim s₀.monitor.breakpoints) →
      (s.NestMove m ∧ s.sys.Told Outside.MallocOk (m.label s.sys)) → s.step m = some s' →
      ∃ a', Reachable step Allowed a a' ∧
        (a'.traced = s' ∧ a'.Books lim s₀.monitor.breakpoints) := by
    rintro s m s' a ⟨rfl, hbooks⟩ hok hstep
    rcases hbooks.kept.follow (Traced.step_eq_some hstep).2.1 with ⟨l', hfollow, -, -⟩
    have hnext : a.step m = some ⟨s', l'⟩ := by
      rw [step, hstep, Option.bind_some, hbooks.kept.limits, hfollow]
      rfl
    exact ⟨⟨s', l'⟩, Reachable.start.step hok hnext, rfl, hbooks.step hok hnext⟩
  have hstart : (⟨.start s₀, {}⟩ : Audited).traced = .start s₀ ∧
      Books lim s₀.monitor.breakpoints ⟨.start s₀, {}⟩ := ⟨rfl, System.kept_begin hbegin, .start⟩
  obtain ⟨a, ha, rfl, -⟩ := Reachable.simulate hsim hs hstart
  exact ⟨a.ledger, ha⟩

end Runs

end Audited

instance (a : Audited) (m : Move) : Decidable (a.Allowed m) := inferInstanceAs (Decidable (_ ∧ _))

/-- `calloc` returns a block, and an alarm finds it old. -/
def blockAges : List Move :=
  callocReturns ++
    [.interrupt .sigalrm, .signal 1 .sigstop, .wait 1 { sampleOutside with sweepNow := 20 }]

end Memleax
