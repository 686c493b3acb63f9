import Memleax.Framework.Runs
import Memleax.Store.Callstack

/-!
# Which callstack a backtrace is accounted to

A callstack stands for one backtrace as long as `hash_search` tells backtraces
apart. It compares the bytes of the searched backtrace only, so it cannot see
that a stored backtrace goes on: one that extends the searched one in the same
slot (by a zero word, for instance) is taken for it. A stored backtrace that is
shorter is read past its end.

`Distinguished` is the exact condition on a bucket under which neither happens,
and `callstackIdentity_iff` carries it to sequences of lookups.
-/

namespace Memleax

open Framework

/-! ## The loop of `hash_search` -/

/-- The nodes that the loop of `hash_search` hands to `memcmp`: all those of
the chain up to the first match. -/
def inspected {ν : Type*} (hit : ν → Bool) : List ν → List ν
  | [] => []
  | x :: xs => if hit x then [x] else x :: inspected hit xs

theorem mem_of_mem_inspected {ν : Type*} {hit : ν → Bool} {xs : List ν} {x : ν}
    (h : x ∈ inspected hit xs) : x ∈ xs := by
  induction xs with
  | nil => exact h
  | cons y ys ih =>
      unfold inspected at h
      split at h
      · exact List.mem_cons.mpr (Or.inl (List.mem_singleton.mp h))
      · rcases List.mem_cons.mp h with rfl | h
        · exact List.mem_cons_self
        · exact List.mem_cons_of_mem _ (ih h)

def CallstackTable.matches (t : CallstackTable) (beyond : CallstackId → Nat → Word)
    (ips : List Word) (cs : CallstackId) : Bool :=
  decide ((t.object cs).view (beyond cs) ips.length = ips)

/-- Of a stored backtrace that is long enough, `memcmp` sees the beginning. -/
theorem Callstack.view_eq_take {cs : Callstack} {n : Nat} (beyond : Nat → Word)
    (h : n ≤ cs.ips.length) : cs.view beyond n = cs.ips.take n := by
  apply List.ext_getElem (by simp [Callstack.view, h])
  intro i hi _
  have hin : i < cs.ips.length := by
    simp only [Callstack.view, List.length_map, List.length_range] at hi
    omega
  simp [Callstack.view, hin]

theorem CallstackTable.matches_iff_prefix {t : CallstackTable} {ips : List Word}
    {cs : CallstackId} (beyond : CallstackId → Nat → Word)
    (h : ips.length ≤ (t.object cs).ips.length) :
    t.matches beyond ips cs = true ↔ ips <+: (t.object cs).ips := by
  rw [CallstackTable.matches, decide_eq_true_iff, Callstack.view_eq_take _ h, eq_comm,
    List.prefix_iff_eq_take]

theorem CallstackTable.matches_self {t : CallstackTable} {ips : List Word} {cs : CallstackId}
    (beyond : CallstackId → Nat → Word) (h : (t.object cs).ips = ips) :
    t.matches beyond ips cs = true :=
  (t.matches_iff_prefix beyond (by rw [h])).mpr (by rw [h])

/-- On the way to the entry of the searched backtrace, or to the end of the
chain, every stored backtrace is at least as long and does not extend it. -/
def Distinguished (stored : CallstackId → List Word) (ips : List Word) :
    List CallstackId → Prop
  | [] => True
  | cs :: rest =>
      stored cs = ips ∨
        ips.length ≤ (stored cs).length ∧ ¬ ips <+: stored cs ∧ Distinguished stored ips rest

/-- **The walk along one bucket** finds no other backtrace and stays within the
stored ones exactly when they are `Distinguished`. -/
theorem walk_iff_distinguished (t : CallstackTable) (beyond : CallstackId → Nat → Word)
    (ips : List Word) (chain : List CallstackId) :
    ((∀ cs, chain.find? (t.matches beyond ips) = some cs → (t.object cs).ips = ips) ∧
        ∀ cs ∈ inspected (t.matches beyond ips) chain, ips.length ≤ (t.object cs).ipNum) ↔
      Distinguished (fun cs => (t.object cs).ips) ips chain := by
  induction chain with
  | nil => simp [inspected, Distinguished]
  | cons cs rest ih =>
      unfold inspected Distinguished
      by_cases heq : (t.object cs).ips = ips
      · -- the entry of the searched backtrace ends the walk
        have hhit := t.matches_self beyond heq
        refine iff_of_true ⟨?_, ?_⟩ (Or.inl heq)
        · simp [hhit, heq]
        · simp [hhit, Callstack.ipNum, heq]
      · rw [or_iff_right heq]
        cases hhit : t.matches beyond ips cs with
        | true =>
            -- the walk ends at another backtrace, which either extends the searched one or is
            -- too short to be compared with it
            refine iff_of_false (fun h => heq (h.1 cs (by simp [hhit]))) ?_
            rintro ⟨hlen, hno, -⟩
            exact hno ((t.matches_iff_prefix beyond hlen).mp hhit)
        | false =>
            rw [List.find?_cons_of_neg (by simp [hhit]), if_neg (by simp)]
            rw [List.forall_mem_cons, and_left_comm, ih]
            apply and_congr_right
            intro hlen
            have hno : ¬ ips <+: (t.object cs).ips := by
              rw [← t.matches_iff_prefix beyond hlen, hhit]
              simp
            exact (and_iff_right hno).symm

/-! ## Sequences of lookups -/

/-- `BACKTRACE_MAX`. -/
def backtraceMax : Nat := 50

/-- A backtrace as `callstack_current` takes it, with what the heap holds
behind the stored ones at that moment. -/
structure Backtrace where
  ips : List Word
  beyond : CallstackId → Nat → Word := fun _ _ => 0
  nonempty : 0 < ips.length
  bounded : ips.length ≤ backtraceMax

/-- A completed lookup: the backtrace, the callstack returned and the
callstacks inspected. -/
structure Taken where
  ips : List Word
  callstack : Option CallstackId
  inspected : List CallstackId

structure Lookups where
  table : CallstackTable := {}
  taken : List Taken := []

def Lookups.step (s : Lookups) (a : Backtrace) : Lookups where
  table := (callstackCurrent s.table a.beyond true a.ips).2
  taken := ⟨a.ips, (callstackCurrent s.table a.beyond true a.ips).1,
    inspected (s.table.matches a.beyond a.ips) (s.table.hash (hashSlot a.ips))⟩ :: s.taken

/-- What a callstack is for. -/
structure Identified (s : Lookups) : Prop where
  returned : ∀ x ∈ s.taken, ∃ cs, x.callstack = some cs ∧
    (s.table.object cs).ipNum = x.ips.length ∧ (s.table.object cs).ips = x.ips
  same : ∀ x ∈ s.taken, ∀ y ∈ s.taken, x.callstack = y.callstack ↔ x.ips = y.ips
  within : ∀ x ∈ s.taken, ∀ cs ∈ x.inspected, x.ips.length ≤ (s.table.object cs).ipNum

/-- The bucket of the backtrace tells it apart. -/
def Lookups.Distinguishes (s : Lookups) (a : Backtrace) : Prop :=
  Distinguished (fun cs => (s.table.object cs).ips) a.ips (s.table.hash (hashSlot a.ips))

/-- What holds after every sequence, also when backtraces were confused. -/
structure LookupInv (s : Lookups) : Prop where
  chained : Chained (fun cs => hashSlot (s.table.object cs).ips) (· < s.table.fresh) s.table.hash
  distinct : ∀ c < s.table.fresh, ∀ d < s.table.fresh,
    (s.table.object c).ips = (s.table.object d).ips → c = d
  created : ∀ x ∈ s.taken, ∀ cs, x.callstack = some cs → cs < s.table.fresh
  visited : ∀ x ∈ s.taken, ∀ cs ∈ x.inspected, cs < s.table.fresh

section Step

variable {s : Lookups} (a : Backtrace)

/-- A lookup returns what the walk found and leaves the table alone, or returns
the new object. -/
theorem Lookups.step_cases :
    (∃ cs, (s.table.hash (hashSlot a.ips)).find? (s.table.matches a.beyond a.ips) = some cs ∧
      (s.step a).table = s.table ∧ callstackCurrent s.table a.beyond true a.ips = (some cs, s.table)) ∨
    ((s.table.hash (hashSlot a.ips)).find? (s.table.matches a.beyond a.ips) = none ∧
      (s.step a).table = s.table.create a.ips ∧
      callstackCurrent s.table a.beyond true a.ips =
        (some s.table.fresh, s.table.create a.ips)) := by
  have hsearch : s.table.search a.beyond a.ips =
      (s.table.hash (hashSlot a.ips)).find? (s.table.matches a.beyond a.ips) := rfl
  rw [Lookups.step, ← hsearch, callstackCurrent]
  cases s.table.search a.beyond a.ips with
  | some cs => exact Or.inl ⟨cs, rfl, rfl, rfl⟩
  | none => exact Or.inr ⟨rfl, rfl, rfl⟩

/-- An object, once created, keeps its backtrace. -/
theorem Lookups.step_object {cs : CallstackId} (h : cs < s.table.fresh) :
    (s.step a).table.object cs = s.table.object cs := by
  obtain ⟨-, -, ht, -⟩ | ⟨-, ht, -⟩ := s.step_cases a
  · rw [ht]
  · rw [ht, CallstackTable.create_object_of_lt _ h]

/-- A walk that finds nothing passes no entry of the backtrace. -/
theorem LookupInv.not_stored (hi : LookupInv s)
    (hnone : (s.table.hash (hashSlot a.ips)).find? (s.table.matches a.beyond a.ips) = none)
    {cs : CallstackId} (h : cs < s.table.fresh) : (s.table.object cs).ips ≠ a.ips := by
  intro heq
  have hmem : cs ∈ s.table.hash (hashSlot a.ips) := (hi.chained.mem _ _).mpr ⟨h, by rw [heq]⟩
  exact List.find?_eq_none.mp hnone cs hmem (s.table.matches_self a.beyond heq)

theorem LookupInv.create (hi : LookupInv s)
    (hnone : (s.table.hash (hashSlot a.ips)).find? (s.table.matches a.beyond a.ips) = none) :
    Chained (fun cs => hashSlot ((s.table.create a.ips).object cs).ips)
        (· < (s.table.create a.ips).fresh) (s.table.create a.ips).hash ∧
      ∀ c < (s.table.create a.ips).fresh, ∀ d < (s.table.create a.ips).fresh,
        ((s.table.create a.ips).object c).ips = ((s.table.create a.ips).object d).ips → c = d := by
  constructor
  · exact CallstackTable.create_hashed hi.chained a.ips
  · intro c hc d hd heq
    rcases Nat.lt_succ_iff_lt_or_eq.mp hc with hc | rfl <;>
      rcases Nat.lt_succ_iff_lt_or_eq.mp hd with hd | rfl
    · rw [CallstackTable.create_object_of_lt _ hc, CallstackTable.create_object_of_lt _ hd] at heq
      exact hi.distinct c hc d hd heq
    · rw [CallstackTable.create_object_of_lt _ hc, CallstackTable.create_object_fresh] at heq
      exact absurd heq (hi.not_stored a hnone hc)
    · rw [CallstackTable.create_object_of_lt _ hd, CallstackTable.create_object_fresh] at heq
      exact absurd heq.symm (hi.not_stored a hnone hd)
    · rfl

theorem lookupInv_step (hi : LookupInv s) : LookupInv (s.step a) := by
  have hlive : ∀ cs ∈ s.table.hash (hashSlot a.ips), cs < s.table.fresh :=
    fun cs h => ((hi.chained.mem _ _).mp h).1
  have hfresh : s.table.fresh ≤ (s.step a).table.fresh := by
    obtain ⟨-, -, ht, -⟩ | ⟨-, ht, -⟩ := s.step_cases a
    · rw [ht]
    · rw [ht]
      exact Nat.le_succ _
  refine ⟨?_, ?_, ?_, ?_⟩
  · obtain ⟨-, -, ht, -⟩ | ⟨hnone, ht, -⟩ := s.step_cases a
    · rw [ht]
      exact hi.chained
    · rw [ht]
      exact (hi.create a hnone).1
  · obtain ⟨-, -, ht, -⟩ | ⟨hnone, ht, -⟩ := s.step_cases a
    · rw [ht]
      exact hi.distinct
    · rw [ht]
      exact (hi.create a hnone).2
  · intro x hx cs hcs
    rcases List.mem_cons.mp hx with rfl | hx
    · obtain ⟨c, hfind, ht, hcur⟩ | ⟨-, ht, hcur⟩ := s.step_cases a
      · rw [hcur] at hcs
        obtain rfl := Option.some.inj hcs
        exact ht ▸ hlive _ (List.mem_of_find?_eq_some hfind)
      · rw [hcur] at hcs
        obtain rfl := Option.some.inj hcs
        exact ht ▸ Nat.lt_succ_self _
    · exact lt_of_lt_of_le (hi.created x hx cs hcs) hfresh
  · intro x hx cs hcs
    refine lt_of_lt_of_le ?_ hfresh
    rcases List.mem_cons.mp hx with rfl | hx
    · exact hlive cs (mem_of_mem_inspected hcs)
    · exact hi.visited x hx cs hcs

/-- **One lookup** keeps the identity of callstacks exactly when its bucket
tells the backtrace apart. -/
theorem identified_step_iff (hi : LookupInv s) (h : Identified s) :
    Identified (s.step a) ↔ s.Distinguishes a := by
  have hi' := lookupInv_step a hi
  have hlive : ∀ cs ∈ s.table.hash (hashSlot a.ips), cs < s.table.fresh :=
    fun cs hcs => ((hi.chained.mem _ _).mp hcs).1
  rw [Lookups.Distinguishes, ← walk_iff_distinguished s.table a.beyond]
  constructor
  · intro h'
    constructor
    · intro cs hfind
      -- what the lookup has found is what it returned
      obtain ⟨c, hc, -, hips⟩ := h'.returned _ List.mem_cons_self
      obtain ⟨d, hd, ht, hcur⟩ | ⟨hnone, -⟩ := s.step_cases a
      · rw [hcur] at hc
        obtain rfl := Option.some.inj hc
        obtain rfl := Option.some.inj (hd.symm.trans hfind)
        exact ht ▸ hips
      · cases hnone.symm.trans hfind
    · intro cs hcs
      rw [← s.step_object a (hlive cs (mem_of_mem_inspected hcs))]
      exact h'.within _ List.mem_cons_self cs hcs
  · rintro ⟨hfound, hwithin⟩
    -- callstacks are never changed, so older lookups keep what they were given
    have hreturned : ∀ x ∈ (s.step a).taken, ∃ cs, x.callstack = some cs ∧
        ((s.step a).table.object cs).ips = x.ips := by
      intro x hx
      rcases List.mem_cons.mp hx with rfl | hx
      · obtain ⟨c, hfind, ht, hcur⟩ | ⟨-, ht, hcur⟩ := s.step_cases a
        · refine ⟨c, by rw [hcur], ?_⟩
          rw [ht]
          exact hfound c hfind
        · refine ⟨s.table.fresh, by rw [hcur], ?_⟩
          rw [ht, CallstackTable.create_object_fresh]
      · obtain ⟨cs, hcs, -, hips⟩ := h.returned x hx
        exact ⟨cs, hcs, by rw [s.step_object a (hi.created x hx cs hcs), hips]⟩
    refine ⟨?_, ?_, ?_⟩
    · intro x hx
      obtain ⟨cs, hcs, hips⟩ := hreturned x hx
      exact ⟨cs, hcs, by rw [Callstack.ipNum, hips], hips⟩
    · intro x hx y hy
      obtain ⟨c, hc, hcips⟩ := hreturned x hx
      obtain ⟨d, hd, hdips⟩ := hreturned y hy
      rw [← hcips, ← hdips, hc, hd, Option.some_inj]
      constructor
      · rintro rfl
        rfl
      · exact hi'.distinct c (hi'.created x hx c hc) d (hi'.created y hy d hd)
    · intro x hx cs hcs
      rcases List.mem_cons.mp hx with rfl | hx
      · rw [s.step_object a (hlive cs (mem_of_mem_inspected hcs))]
        exact hwithin cs hcs
      · rw [s.step_object a (hi.visited x hx cs hcs)]
        exact h.within x hx cs hcs

end Step

theorem lookupInv_init : LookupInv {} where
  chained := (Chained.empty fun _ => hashSlot []).congr (fun _ => by simp) fun _ _ => rfl
  distinct := by simp
  created := by simp
  visited := by simp

theorem identified_init : Identified {} := ⟨by simp, by simp, by simp⟩

/-- **CallStack identity.** Backtraces and callstacks correspond in every state
of a sequence of lookups exactly when at every lookup the bucket tells the
backtrace apart. -/
theorem callstackIdentity_iff (backtraces : List Backtrace) :
    Throughout Lookups.step Identified {} backtraces ↔
      Along Lookups.step Lookups.Distinguishes {} backtraces := by
  have hinv : ∀ s a, True → LookupInv s → Identified s → LookupInv (Lookups.step s a) :=
    fun s a _ hi _ => lookupInv_step a hi
  exact throughout_iff_along hinv (fun s a _ hi h => identified_step_iff a hi h)
    (along_of_forall (fun _ _ => trivial) _ _) lookupInv_init identified_init

/-- Two backtraces of `malloc`: the second one is the first without its last,
zero, word. -/
def truncatedBacktrace : List Backtrace :=
  [{ ips := [0x1000, 0x2000, 0], nonempty := by decide, bounded := by decide },
    { ips := [0x1000, 0x2000], nonempty := by decide, bounded := by decide }]

theorem callstack_confused_with_longer :
    ¬ Throughout Lookups.step Identified {} truncatedBacktrace := by
  intro h
  obtain ⟨cs, hcs, hnum, -⟩ := h.last.returned _ List.mem_cons_self
  have h0 : (0 : CallstackId) = cs := by
    refine Option.some.inj (Eq.trans ?_ hcs)
    decide +kernel
  subst h0
  revert hnum
  decide +kernel

end Memleax
