import Memleax.Store.Lifetimes
import Memleax.Store.Totals

/-!
# The final report

`callstack_report` walks the chains of `g_callstack_hash`, collects the
callstacks whose `expired_count` and `free_expired_count` differ in a growing
array, sorts them and prints one record for each.

`array.h` computes sizes in bytes as `int`s. The array of pointers starts with
room for 1000 and doubles, so it holds 262144000 pointers at most: the next
doubling asks `realloc` for a number of bytes that has become negative. What
`malloc` and `realloc` grant and what `qsort` does are parameters.
-/

namespace Memleax

open Framework

/-! ## `array.h` -/

/-- `struct array_s`; `data` holds the items that have been stored, or is `NULL`. -/
structure CArray (α : Type) where
  itemMax : CInt
  itemNum : CInt := 0
  itemSize : CInt
  data : Option (List α) := none

section Array

variable {α : Type}

/-- `a->item_size * a->item_max`, an `int`, as the `size_t` that is asked for. -/
def CArray.bytes (a : CArray α) : Word := (a.itemSize * a.itemMax).signExtend 64

/-- The first half of `array_push`: `malloc` on the first call, `realloc` when
the array is full. -/
def CArray.reserve (grants : Word → Bool) (a : CArray α) : CArray α :=
  match a.data with
  | none => { a with data := if grants a.bytes then some [] else none }
  | some items =>
      if a.itemNum = a.itemMax then
        let a := { a with itemMax := a.itemMax * 2 }
        { a with data := if grants a.bytes then some items else none }
      else a

/-- `array_push` and the store through the pointer that it returns. `none` is a
store through `NULL`, or one that is not behind the last item in the memory of
the array. -/
def CArray.push (grants : Word → Bool) (a : CArray α) (x : α) : Option (CArray α) :=
  let a := a.reserve grants
  match a.data with
  | none => none
  | some items =>
      let offset := (a.itemSize * a.itemNum).toInt
      if offset = a.itemSize.toInt * items.length ∧ offset + a.itemSize.toInt ≤ a.bytes.toNat then
        some { a with itemNum := a.itemNum + 1, data := some (items ++ [x]) }
      else none

/-- `array_sort`. -/
def CArray.sort (qsort : (α → α → CInt) → List α → List α) (compar : α → α → CInt)
    (a : CArray α) : CArray α :=
  { a with data := a.data.map (qsort compar) }

/-- `array_out`, for the pointer to the `i`-th item. -/
def CArray.out (a : CArray α) (i : Nat) : Bool :=
  decide ((a.itemSize * a.itemNum).toInt ≤ a.itemSize.toInt * i)

/-- The items from the `i`-th on that `array_for_each` visits. -/
def CArray.walk (a : CArray α) : Nat → List α → List α
  | _, [] => []
  | i, x :: xs => if a.out i then [] else x :: a.walk (i + 1) xs

/-- `array_for_each`. -/
def CArray.forEach (a : CArray α) : List α := a.walk 0 (a.data.getD [])

end Array

/-! ## `callstack.c` -/

/-- `hash_for_each`: the chains in the order of their slots. -/
def hashForEach (hash : Chains CallstackId) : List CallstackId :=
  (List.range hashSize).flatMap hash

def callstackCmp (t : CallstackTable) (a b : CallstackId) : CInt :=
  ((t.object a).expiredCount - (t.object a).freeExpiredCount) -
    ((t.object b).expiredCount - (t.object b).freeExpiredCount)

/-- The figures of one callstack in the report. -/
structure Statistics where
  id : CInt
  mayLeak : CInt
  mayLeakBytes : CInt
  expired : CInt
  expiredBytes : CInt
  freeExpired : CInt
  freeExpiredBytes : CInt
  alloc : CInt
  allocBytes : CInt
  free : CInt
  freeBytes : CInt
  freeMin : CInt
  freeMax : CInt
  freeAverage : CInt
  unfreeMax : CInt
deriving DecidableEq, Repr

def Callstack.statistics (cs : Callstack) : Statistics where
  id := cs.id
  mayLeak := cs.expiredCount - cs.freeExpiredCount
  mayLeakBytes := cs.expiredSize - cs.freeExpiredSize
  expired := cs.expiredCount
  expiredBytes := cs.expiredSize
  freeExpired := cs.freeExpiredCount
  freeExpiredBytes := cs.freeExpiredSize
  alloc := cs.allocCount
  allocBytes := cs.allocSize
  free := cs.freeCount
  freeBytes := cs.freeSize
  freeMin := cs.freeMin
  freeMax := cs.freeMax
  freeAverage := cs.freeAverage
  unfreeMax := cs.unfreeMax

/-- What `callstack_report` prints. A record is followed by the backtrace of the
callstack. -/
inductive ReportLine where
  | noExpired
  | header
  | record (cs : CallstackId) (figures : Statistics)
deriving DecidableEq, Repr

def ReportLine.callstack : ReportLine → Option CallstackId
  | .record cs _ => some cs
  | _ => none

/-- The loop of `callstack_report` over the hash. -/
def callstackCollect (grants : Word → Bool) (t : CallstackTable) :
    List CallstackId → CArray CallstackId → Option (CArray CallstackId)
  | [], a => some a
  | cs :: rest, a =>
      if (t.object cs).expiredCount = (t.object cs).freeExpiredCount then
        callstackCollect grants t rest a
      else (a.push grants cs).bind (callstackCollect grants t rest)

/-- `ARRAY(callstacks, struct callstack_s *, 1000)`. -/
def callstacksArray : CArray CallstackId := { itemMax := 1000, itemSize := 8 }

/-- `callstack_report`; `none` when it writes outside its array. -/
def callstackReport
    (qsort : (CallstackId → CallstackId → CInt) → List CallstackId → List CallstackId)
    (grants : Word → Bool) (s : Store) (now : Int) : Option (List ReportLine) :=
  let s := memblockCount s now
  (callstackCollect grants s.table (hashForEach s.table.hash) callstacksArray).map fun a =>
    if a.itemNum = 0 then [.noExpired]
    else .header :: (a.sort qsort (callstackCmp s.table)).forEach.map fun cs =>
      .record cs (s.table.object cs).statistics

/-! ## The array -/

section Array

variable {α : Type} {items : List α} {a : CArray α} {grants : Word → Bool}

/-- As many pointers as the array can hold: `1000 * 2 ^ 18`. -/
def arrayCapacity : Nat := 262144000

/-- Memory allocation succeeds, for requests that `malloc` does not refuse
outright: those above `PTRDIFF_MAX`. -/
def Granting (grants : Word → Bool) : Prop := ∀ n : Word, grants n = true ↔ n.toNat < 2 ^ 63

/-- The array of pointers with `items` in it, after `k` doublings. -/
structure CArray.Filled (k : Nat) (items : List α) (a : CArray α) : Prop where
  doublings : k ≤ 18
  itemMax : a.itemMax = BitVec.ofNat 32 (1000 * 2 ^ k)
  itemNum : a.itemNum = BitVec.ofNat 32 items.length
  itemSize : a.itemSize = 8
  room : items.length ≤ 1000 * 2 ^ k
  data : a.data = some items ∨ (items = [] ∧ k = 0 ∧ a.data = none)

theorem pow_le_of_le_18 {k : Nat} (h : k ≤ 18) : 2 ^ k ≤ 262144 :=
  Nat.pow_le_pow_right (by decide) h

theorem eight_mul_ofNat (n : Nat) : (8 : CInt) * BitVec.ofNat 32 n = BitVec.ofNat 32 (8 * n) :=
  (BitVec.ofNat_mul 8 n).symm

theorem CArray.Filled.bytes_toNat {k : Nat} (h : a.Filled k items) :
    a.bytes.toNat = 8 * (1000 * 2 ^ k) := by
  have hk := pow_le_of_le_18 h.doublings
  rw [CArray.bytes, h.itemSize, h.itemMax, eight_mul_ofNat, toNat_signExtend_ofNat (by omega)]

theorem CArray.Filled.store {k : Nat} (h : a.Filled k items) (hlt : items.length < 1000 * 2 ^ k)
    (x : α) : { a with itemNum := a.itemNum + 1, data := some (items ++ [x]) }.Filled k
      (items ++ [x]) ∧
    (a.itemSize * a.itemNum).toInt = a.itemSize.toInt * items.length ∧
    (a.itemSize * a.itemNum).toInt + a.itemSize.toInt ≤ a.bytes.toNat := by
  have hk := pow_le_of_le_18 h.doublings
  have hoffset : (a.itemSize * a.itemNum).toInt = 8 * items.length := by
    rw [h.itemSize, h.itemNum, eight_mul_ofNat, toInt_of_eq_ofNat rfl (by omega)]
    omega
  have hsize : a.itemSize.toInt = 8 := by
    rw [h.itemSize]
    rfl
  refine ⟨⟨h.doublings, h.itemMax, ?_, h.itemSize, ?_, Or.inl rfl⟩, ?_, ?_⟩
  · rw [h.itemNum, List.length_append, BitVec.ofNat_add]
    rfl
  · rw [List.length_append, List.length_singleton]
    exact hlt
  · rw [hoffset, hsize]
  · rw [hoffset, hsize, h.bytes_toNat]
    omega

theorem CArray.reserve_of_some (hdata : a.data = some items) :
    a.reserve grants = if a.itemNum = a.itemMax then
      { a with
        itemMax := a.itemMax * 2
        data := if grants { a with itemMax := a.itemMax * 2 }.bytes then some items else none }
      else a := by
  unfold CArray.reserve
  rw [hdata]

theorem CArray.Filled.double {k : Nat} (h : a.Filled k items) (hdata : a.data = some items)
    (hk : k < 18) : { a with itemMax := a.itemMax * 2 }.Filled (k + 1) items := by
  have hmax : a.itemMax * 2 = BitVec.ofNat 32 (1000 * 2 ^ (k + 1)) := by
    have hdouble : BitVec.ofNat 32 (1000 * 2 ^ k * 2) = BitVec.ofNat 32 (1000 * 2 ^ k) * 2 :=
      BitVec.ofNat_mul _ 2
    rw [h.itemMax, pow_succ, ← mul_assoc, hdouble]
  have hroom := h.room
  refine ⟨hk, hmax, h.itemNum, h.itemSize, ?_, Or.inl hdata⟩
  rw [pow_succ]
  omega

/-- The first half of `array_push` makes room while there are fewer items than
the array can hold. -/
theorem CArray.Filled.reserve (hgrants : Granting grants) {k : Nat} (h : a.Filled k items)
    (hlen : items.length < arrayCapacity) : ∃ k', (a.reserve grants).Filled k' items ∧
      (a.reserve grants).data = some items ∧ items.length < 1000 * 2 ^ k' := by
  unfold arrayCapacity at hlen
  rcases h.data with hdata | ⟨rfl, rfl, hdata⟩
  · rw [CArray.reserve_of_some hdata]
    have hk := pow_le_of_le_18 h.doublings
    have hroom := h.room
    by_cases hfull : items.length = 1000 * 2 ^ k
    · -- a full array of fewer items than the maximum is doubled
      have hlt : k < 18 := by
        rcases Nat.lt_or_eq_of_le h.doublings with hlt | rfl
        · exact hlt
        · omega
      have hdouble := h.double hdata hlt
      have hgrant : grants { a with itemMax := a.itemMax * 2 }.bytes = true := by
        have hk' := pow_le_of_le_18 (Nat.succ_le_of_lt hlt)
        rw [hgrants, hdouble.bytes_toNat]
        omega
      have hnum : a.itemNum = a.itemMax := by rw [h.itemNum, h.itemMax, hfull]
      rw [if_pos hnum, if_pos hgrant]
      refine ⟨k + 1, ⟨hdouble.doublings, hdouble.itemMax, hdouble.itemNum, hdouble.itemSize,
        hdouble.room, Or.inl rfl⟩, rfl, ?_⟩
      rw [hfull, pow_succ]
      have := Nat.two_pow_pos k
      omega
    · have hnum : a.itemNum ≠ a.itemMax := by
        intro heq
        rw [h.itemNum, h.itemMax] at heq
        have hnat := congrArg BitVec.toNat heq
        rw [BitVec.toNat_ofNat, BitVec.toNat_ofNat, Nat.mod_eq_of_lt (by omega),
          Nat.mod_eq_of_lt (by omega)] at hnat
        exact hfull hnat
      rw [if_neg hnum]
      exact ⟨k, h, hdata, by omega⟩
  · -- the first push
    rw [CArray.reserve, hdata]
    dsimp only
    have hgrant : grants a.bytes = true := by
      rw [hgrants, h.bytes_toNat]
      decide
    rw [if_pos hgrant]
    exact ⟨0, ⟨h.doublings, h.itemMax, h.itemNum, h.itemSize, h.room, Or.inl rfl⟩, rfl, by simp⟩

/-- **Pushing** succeeds while there are fewer items than the array can hold. -/
theorem CArray.Filled.push (hgrants : Granting grants) {k : Nat} (h : a.Filled k items)
    (hlen : items.length < arrayCapacity) (x : α) :
    ∃ a' k', a.push grants x = some a' ∧ a'.Filled k' (items ++ [x]) := by
  obtain ⟨k', hfilled, hdata, hlt⟩ := h.reserve hgrants hlen
  obtain ⟨hstored, hoffset, hinside⟩ := hfilled.store hlt x
  refine ⟨_, k', ?_, hstored⟩
  unfold CArray.push
  simp only [hdata]
  rw [if_pos ⟨hoffset, hinside⟩]

/-- A full array cannot grow: the byte size of the next doubling is negative as
an `int` and enormous as a `size_t`. -/
theorem CArray.Filled.push_full (hgrants : Granting grants) {k : Nat} (h : a.Filled k items)
    (hlen : items.length = arrayCapacity) (x : α) : a.push grants x = none := by
  unfold arrayCapacity at hlen
  have hroom := h.room
  have hk18 : k = 18 := by
    rcases Nat.lt_or_eq_of_le h.doublings with hlt | rfl
    · have hk : 2 ^ k ≤ 2 ^ 17 := Nat.pow_le_pow_right (by decide) (Nat.le_of_lt_succ hlt)
      omega
    · rfl
  subst hk18
  have hdata : a.data = some items := by
    rcases h.data with hdata | ⟨-, hzero, -⟩
    · exact hdata
    · cases hzero
  have hnum : a.itemNum = a.itemMax := by
    rw [h.itemNum, h.itemMax, hlen]
    decide
  have hbytes : { a with itemMax := a.itemMax * 2 }.bytes.toNat = 2 ^ 64 - 100663296 := by
    show ((a.itemSize * (a.itemMax * 2)).signExtend 64).toNat = 2 ^ 64 - 100663296
    rw [h.itemSize, h.itemMax]
    decide
  have hrefused : ¬ grants { a with itemMax := a.itemMax * 2 }.bytes = true := by
    rw [hgrants, hbytes]
    decide
  have hreserve : (a.reserve grants).data = none := by
    rw [CArray.reserve_of_some hdata, if_pos hnum, if_neg hrefused]
  unfold CArray.push
  simp only [hreserve]

theorem CArray.Filled.walk_eq {k : Nat} (h : a.Filled k items) :
    ∀ (i : Nat) (xs : List α), i + xs.length = items.length → a.walk i xs = xs
  | _, [], _ => rfl
  | i, x :: xs, hi => by
      have hk := pow_le_of_le_18 h.doublings
      have hroom := h.room
      rw [List.length_cons] at hi
      have hin : a.out i = false := by
        rw [CArray.out, h.itemSize, h.itemNum, eight_mul_ofNat, toInt_of_eq_ofNat rfl (by omega)]
        apply decide_eq_false
        show ¬ ((8 * items.length : Nat) : Int) ≤ 8 * i
        omega
      rw [CArray.walk, hin, h.walk_eq (i + 1) xs (by omega)]
      rfl

theorem CArray.Filled.forEach_sort {k : Nat} (h : a.Filled k items)
    {qsort : (α → α → CInt) → List α → List α} {compar : α → α → CInt}
    (hperm : (qsort compar items).Perm items) (hdata : a.data = some items) :
    (a.sort qsort compar).forEach = qsort compar items := by
  have hsorted : (a.sort qsort compar).Filled k (qsort compar items) := by
    refine ⟨h.doublings, h.itemMax, ?_, h.itemSize, ?_, Or.inl ?_⟩
    · rw [hperm.length_eq]
      exact h.itemNum
    · rw [hperm.length_eq]
      exact h.room
    · simp [CArray.sort, hdata]
  rw [CArray.forEach]
  have hdata' : (a.sort qsort compar).data.getD [] = qsort compar items := by
    simp [CArray.sort, hdata]
  rw [hdata']
  exact hsorted.walk_eq 0 _ (by simp)

theorem callstacksArray_filled : callstacksArray.Filled 0 [] :=
  ⟨by decide, rfl, rfl, rfl, by simp, Or.inr ⟨rfl, rfl, rfl⟩⟩

end Array

/-! ## Collecting -/

section Collect

variable {grants : Word → Bool} {t : CallstackTable}

/-- The callstacks that the loop does not pass over. -/
def CallstackTable.leaking (t : CallstackTable) (l : List CallstackId) : List CallstackId :=
  l.filter fun cs => (t.object cs).expiredCount ≠ (t.object cs).freeExpiredCount

/-- The loop collects them all, or fails when there are too many. -/
theorem callstackCollect_eq (hgrants : Granting grants) : ∀ (l items : List CallstackId)
    (a : CArray CallstackId) (k : Nat), a.Filled k items → items.length ≤ arrayCapacity →
      ((items ++ t.leaking l).length ≤ arrayCapacity ∧
        ∃ a' k', callstackCollect grants t l a = some a' ∧ a'.Filled k' (items ++ t.leaking l)) ∨
      (arrayCapacity < (items ++ t.leaking l).length ∧ callstackCollect grants t l a = none)
  | [], items, a, k, h, hlen => by
      rw [CallstackTable.leaking, List.filter_nil, List.append_nil]
      exact Or.inl ⟨hlen, a, k, rfl, h⟩
  | cs :: rest, items, a, k, h, hlen => by
      rw [callstackCollect]
      by_cases heq : (t.object cs).expiredCount = (t.object cs).freeExpiredCount
      · have hskip : t.leaking (cs :: rest) = t.leaking rest := by
          simp [CallstackTable.leaking, heq]
        rw [if_pos heq, hskip]
        exact callstackCollect_eq hgrants rest items a k h hlen
      · have hpush : items ++ t.leaking (cs :: rest) = (items ++ [cs]) ++ t.leaking rest := by
          simp [CallstackTable.leaking, heq]
        rw [if_neg heq, hpush]
        rcases Nat.lt_or_eq_of_le hlen with hlt | hfull
        · obtain ⟨a', k', hsome, hfilled⟩ := h.push hgrants hlt cs
          rw [hsome, Option.bind_some]
          exact callstackCollect_eq hgrants rest _ a' k' hfilled (by simp; omega)
        · rw [h.push_full hgrants hfull cs, Option.bind_none]
          refine Or.inr ⟨?_, rfl⟩
          simp only [List.length_append, List.length_singleton]
          omega

end Collect

/-! ## The chains hold every callstack once -/

theorem hashSlot_lt (key : List Word) : hashSlot key < hashSize :=
  Nat.mod_lt _ (by decide)

theorem mem_hashForEach {t : CallstackTable} (h : t.Hashed) {cs : CallstackId} :
    cs ∈ hashForEach t.hash ↔ cs < t.fresh := by
  rw [hashForEach, List.mem_flatMap]
  constructor
  · rintro ⟨k, -, hcs⟩
    exact ((h.mem k cs).mp hcs).1
  · intro hcs
    exact ⟨_, List.mem_range.mpr (hashSlot_lt _), (h.mem _ cs).mpr ⟨hcs, rfl⟩⟩

theorem hashForEach_nodup {t : CallstackTable} (h : t.Hashed) : (hashForEach t.hash).Nodup := by
  refine List.nodup_flatMap.mpr ⟨fun k _ => h.nodup k, ?_⟩
  apply List.Nodup.pairwise_of_forall_ne List.nodup_range
  intro i _ j _ hij x hxi hxj
  exact hij (((h.mem i x).mp hxi).2.symm.trans ((h.mem j x).mp hxj).2)

theorem hashed_lookup {s : Store} (h : s.table.Hashed) (env : Env) :
    (callstackCurrent s.table env.beyond env.callstackMalloc env.ips).2.Hashed := by
  unfold callstackCurrent
  split
  · exact h
  · split
    · exact CallstackTable.create_hashed h env.ips
    · exact h

/-- Writes to counters leave the chains and the backtraces alone. -/
theorem CallstackTable.Hashed.congr {t t' : CallstackTable} (h : t.Hashed)
    (hhash : t'.hash = t.hash) (hfresh : t'.fresh = t.fresh) (hips : ∀ c, (t'.object c).ips = (t.object c).ips) :
    t'.Hashed := by
  unfold CallstackTable.Hashed at h ⊢
  rw [hhash, hfresh]
  apply Chained.congr h (fun _ => Iff.rfl)
  intro c _
  rw [hips]

theorem hashed_step {s : Store} (h : s.table.Hashed) (op : Op) : (s.step op).table.Hashed := by
  refine Store.step_induct (P := fun s => s.table.Hashed) ?_ ?_ ?_ ?_ ?_ ?_ h
  · intro s out h
    exact h
  · intro s env h
    exact hashed_lookup h env
  · intro s env pointer size cs table h _ _ hcs
    have h' := hashed_lookup h env
    rw [hcs] at h'
    refine h'.congr rfl rfl ?_
    exact link_field Callstack.ips fun _ _ => rfl
  · intro s now pointer b h _
    refine h.congr ?_ (s.delete_table_fresh now b) ?_
    · unfold Store.delete
      dsimp only [Store.unlink]
      split <;> rfl
    · apply delete_field Callstack.ips
      intro cs mb t
      unfold Callstack.countDelete
      split <;> rfl
  · intro pointer b size env _ h _
    refine h.congr rfl rfl ?_
    exact resize_field Callstack.ips fun _ _ _ => rfl
  · intro s b rest now lim _ h _ _
    obtain ⟨_, _, _, heq⟩ := memblockExpireOne_cases s b
    refine h.congr ?_ (memblockExpireOne_table_fresh s b) ?_
    · rw [heq]
      rfl
    · exact expireOne_field Callstack.ips fun _ _ _ => rfl

theorem hashed_run (ops : List Op) : (Store.run ops).table.Hashed := by
  induction ops using List.reverseRecOn with
  | nil =>
      apply (Chained.empty fun _ => hashSlot []).congr
      · intro c
        exact iff_of_false (Nat.not_lt_zero c) id
      · intro c _
        rfl
  | append_singleton ops op ih =>
      rw [Store.run_append_single]
      exact hashed_step ih op

/-! ## The comparator -/

/-- The number of blocks of a callstack on `g_memblock_expire`. -/
def Store.leaks (s : Store) (c : CallstackId) : Nat := (s.blocksOf c s.expire).length

/-- The number of blocks that ever expired at a callstack. -/
def Store.everExpired (s : Store) (c : CallstackId) : Nat :=
  (s.blocksOf c s.recorded).countP fun b => (s.block b).expired

/-- What `qsort` asks of a comparator on the items of a list. -/
structure ConsistentOn {α : Type} (compar : α → α → CInt) (l : List α) : Prop where
  sign : ∀ a ∈ l, ∀ b ∈ l, (compar a b).toInt < 0 ↔ 0 < (compar b a).toInt
  trans : ∀ a ∈ l, ∀ b ∈ l, ∀ c ∈ l, (compar a b).toInt ≤ 0 → (compar b c).toInt ≤ 0 →
    (compar a c).toInt ≤ 0

/-- What `qsort` does with such a comparator. -/
def Sorts {α : Type} (qsort : (α → α → CInt) → List α → List α) : Prop :=
  ∀ compar l, ConsistentOn compar l → (qsort compar l).Perm l ∧
    (qsort compar l).Pairwise fun a b => (compar a b).toInt ≤ 0

/-- The comparator compares numbers of blocks, without overflow. -/
structure CmpExact (s : Store) : Prop where
  leaks : ∀ c, (s.table.object c).expiredCount.toInt - (s.table.object c).freeExpiredCount.toInt =
    s.leaks c
  difference : ∀ c, ((s.table.object c).expiredCount - (s.table.object c).freeExpiredCount).toInt =
    (s.table.object c).expiredCount.toInt - (s.table.object c).freeExpiredCount.toInt
  compare : ∀ c d, (callstackCmp s.table c d).toInt = s.leaks c - s.leaks d
  consistent : ∀ l, ConsistentOn (callstackCmp s.table) l

section Comparator

variable {s : Store}

theorem tally_oneExpired_eq (s : Store) (c : CallstackId) (l : List BlockId) :
    tally s.block oneExpired l c =
      BitVec.ofNat 32 ((s.blocksOf c l).countP fun b => (s.block b).expired) := by
  induction l with
  | nil => rfl
  | cons b l ih =>
      rw [← List.singleton_append, tally_append, ih, tally_singleton]
      by_cases hc : (s.block b).callstack = c
      · cases he : (s.block b).expired <;>
          simp [Store.blocksOf, hc, oneExpired, he, BitVec.ofNat_add, add_comm]
      · simp [Store.blocksOf, hc]

theorem Totalled.expiredCount_eq (h : Totalled s) (c : CallstackId) :
    (s.table.object c).expiredCount = BitVec.ofNat 32 (s.everExpired c) := by
  have hexpired := h.expired c
  rwa [sub_zero, tally_oneExpired_eq] at hexpired

/-- A block on the expired list is one of those that ever expired. -/
theorem leaks_le_everExpired (hp : Placed s) (c : CallstackId) : s.leaks c ≤ s.everExpired c := by
  rw [Store.leaks, Store.everExpired, List.countP_eq_length_filter]
  apply List.Subperm.length_le
  apply (hp.expire_nodup.filter _).subperm
  intro b hb
  obtain ⟨hmem, hc⟩ := List.mem_filter.mp hb
  have hrec := hp.mem_recorded (List.mem_append_right _ hmem)
  exact List.mem_filter.mpr ⟨List.mem_filter.mpr ⟨hrec, hc⟩, hp.old b hmem⟩

theorem toInt_sub_of_eq {x y : CInt} {m n : Nat} (hx : x.toInt = m) (hy : y.toInt = n)
    (hm : m < 2 ^ 31) (hn : n < 2 ^ 31) : (x - y).toInt = m - n := by
  rw [BitVec.toInt_sub, hx, hy]
  apply Int.bmod_eq_of_le <;> simp <;> omega

theorem cmpExact (hs : Consistent s) (h : Totalled s) (hcounts : ∀ c, s.everExpired c < 2 ^ 31) :
    CmpExact s := by
  have hle : ∀ c, s.leaks c ≤ s.everExpired c := leaks_le_everExpired hs.toPlaced
  have hdiff : ∀ c, (s.table.object c).expiredCount - (s.table.object c).freeExpiredCount =
      BitVec.ofNat 32 (s.leaks c) := hs.agrees.leaks
  have hleaks : ∀ c, ((s.table.object c).expiredCount -
      (s.table.object c).freeExpiredCount).toInt = s.leaks c := fun c =>
    toInt_of_eq_ofNat (hdiff c) (lt_of_le_of_lt (hle c) (hcounts c))
  have hexpired : ∀ c, (s.table.object c).expiredCount.toInt = s.everExpired c := fun c =>
    toInt_of_eq_ofNat (h.expiredCount_eq c) (hcounts c)
  have hfree : ∀ c, (s.table.object c).freeExpiredCount.toInt =
      (s.everExpired c - s.leaks c : Nat) := by
    intro c
    have hsplit : BitVec.ofNat 32 (s.everExpired c) =
        BitVec.ofNat 32 (s.everExpired c - s.leaks c) + BitVec.ofNat 32 (s.leaks c) := by
      rw [← BitVec.ofNat_add, Nat.sub_add_cancel (hle c)]
    have heq : (s.table.object c).freeExpiredCount =
        BitVec.ofNat 32 (s.everExpired c - s.leaks c) := by
      have hc := hdiff c
      rw [h.expiredCount_eq, hsplit, sub_eq_iff_eq_add,
        add_comm (BitVec.ofNat 32 (s.leaks c))] at hc
      exact (add_right_cancel hc).symm
    have hlt := hcounts c
    exact toInt_of_eq_ofNat heq (by omega)
  have hcompare : ∀ c d, (callstackCmp s.table c d).toInt = s.leaks c - s.leaks d := fun c d =>
    toInt_sub_of_eq (hleaks c) (hleaks d) (lt_of_le_of_lt (hle c) (hcounts c))
      (lt_of_le_of_lt (hle d) (hcounts d))
  refine ⟨?_, ?_, hcompare, ?_⟩
  · intro c
    rw [hexpired, hfree, Nat.cast_sub (hle c)]
    omega
  · intro c
    rw [hleaks, hexpired, hfree, Nat.cast_sub (hle c)]
    omega
  · intro l
    refine ⟨?_, ?_⟩
    · intro c _ d _
      rw [hcompare, hcompare]
      omega
    · intro c _ d _ e _
      rw [hcompare, hcompare, hcompare]
      omega

end Comparator

/-! ## The theorem -/

/-- The callstacks that the lines are about. -/
def listed (lines : List ReportLine) : List CallstackId := lines.filterMap ReportLine.callstack

/-- What the report should print for a store. -/
structure ReportExact (s : Store) (lines : List ReportLine) : Prop where
  once : (listed lines).Nodup
  leaking : ∀ c, c ∈ listed lines ↔ s.leaks c ≠ 0
  ascending : (listed lines).Pairwise fun c d => s.leaks c ≤ s.leaks d
  nothing : .noExpired ∈ lines ↔ ∀ c, s.leaks c = 0

/-- The callstacks with a block on `g_memblock_expire`. -/
def Store.leakingCallstacks (s : Store) : List CallstackId :=
  (List.range s.table.fresh).filter fun c => s.leaks c ≠ 0

section Report

variable {s : Store}

theorem leaks_ne_zero_lt (hp : Placed s) {c : CallstackId} (h : s.leaks c ≠ 0) :
    c < s.table.fresh := by
  obtain ⟨b, hb⟩ := List.exists_mem_of_ne_nil _ fun hnil => h (List.length_eq_zero_iff.mpr hnil)
  obtain ⟨hmem, hc⟩ := List.mem_filter.mp hb
  rw [← of_decide_eq_true hc]
  exact hp.known b (List.mem_append_right _ hmem)

/-- The loop over the hash passes over exactly the callstacks without a leak. -/
theorem leaking_perm (hp : Placed s) (hcmp : CmpExact s) (hhash : s.table.Hashed) :
    (s.table.leaking (hashForEach s.table.hash)).Nodup ∧
      (∀ c, c ∈ s.table.leaking (hashForEach s.table.hash) ↔ s.leaks c ≠ 0) ∧
      (s.table.leaking (hashForEach s.table.hash)).length = s.leakingCallstacks.length := by
  have hne : ∀ c, (s.table.object c).expiredCount ≠ (s.table.object c).freeExpiredCount ↔
      s.leaks c ≠ 0 := by
    intro c
    rw [ne_eq, ne_eq, ← BitVec.toInt_inj, ← sub_eq_zero, hcmp.leaks, Int.natCast_eq_zero]
  have hmem : ∀ c, c ∈ s.table.leaking (hashForEach s.table.hash) ↔ s.leaks c ≠ 0 := by
    intro c
    rw [CallstackTable.leaking, List.mem_filter, mem_hashForEach hhash, decide_eq_true_iff, hne]
    exact and_iff_right_of_imp (leaks_ne_zero_lt hp)
  have hnodup : (s.table.leaking (hashForEach s.table.hash)).Nodup :=
    (hashForEach_nodup hhash).filter _
  refine ⟨hnodup, hmem, List.Perm.length_eq ?_⟩
  apply (List.perm_ext_iff_of_nodup hnodup (List.nodup_range.filter _)).mpr
  intro c
  rw [hmem, List.mem_filter, List.mem_range, decide_eq_true_iff]
  exact (and_iff_right_of_imp (leaks_ne_zero_lt hp)).symm

/-- `memblock_count` changes nothing that the report selects or sorts by. -/
theorem CountedFrom.table_eq {s' : Store} (h : CountedFrom s s') :
    callstackCmp s'.table = callstackCmp s.table ∧ s'.table.hash = s.table.hash ∧
      ∀ l, s'.table.leaking l = s.table.leaking l := by
  have hcounts : ∀ c, (s'.table.object c).expiredCount = (s.table.object c).expiredCount ∧
      (s'.table.object c).freeExpiredCount = (s.table.object c).freeExpiredCount := by
    intro c
    rw [h.object c]
    exact ⟨rfl, rfl⟩
  refine ⟨?_, h.hash, ?_⟩
  · funext c d
    rw [callstackCmp, callstackCmp, (hcounts c).1, (hcounts c).2, (hcounts d).1, (hcounts d).2]
  · intro l
    apply List.filter_congr
    intro c _
    rw [(hcounts c).1, (hcounts c).2]

theorem listed_records (l : List CallstackId) (f : CallstackId → Statistics) :
    listed (.header :: l.map fun cs => .record cs (f cs)) = l := by
  have hmap : (l.map fun cs => ReportLine.record cs (f cs)).filterMap ReportLine.callstack = l := by
    induction l with
    | nil => rfl
    | cons c l ih => simp [ReportLine.callstack, ih]
  exact hmap

end Report

/-- **The final report.** After any history in which no callstack sees `2 ^ 31`
expiries, the comparator is exact, and the report prints every callstack with a
block on the expired list once, in ascending order of their numbers, exactly
when there are no more of them than the array can hold. -/
theorem report_iff
    (qsort : (CallstackId → CallstackId → CInt) → List CallstackId → List CallstackId)
    (hqsort : Sorts qsort) (grants : Word → Bool) (hgrants : Granting grants) (ops : List Op)
    (hcounts : ∀ c, (Store.run ops).everExpired c < 2 ^ 31) (now : Int) :
    CmpExact (Store.run ops) ∧
      ((∃ lines, callstackReport qsort grants (Store.run ops) now = some lines ∧
        ReportExact (Store.run ops) lines) ↔
        (Store.run ops).leakingCallstacks.length ≤ arrayCapacity) := by
  have hs := consistent_run ops
  have hcmp := cmpExact hs (totalled_run ops) hcounts
  obtain ⟨hnodup, hmem, hlength⟩ := leaking_perm hs.toPlaced hcmp (hashed_run ops)
  obtain ⟨htable, hhash, hleaking⟩ := (memblockCount_countedFrom (Store.run ops) now).table_eq
  refine ⟨hcmp, ?_⟩
  rw [← hlength]
  have hcollect := callstackCollect_eq (t := (memblockCount (Store.run ops) now).table) hgrants
    (hashForEach (Store.run ops).table.hash) [] callstacksArray 0 callstacksArray_filled
    (Nat.zero_le _)
  rw [hleaking, List.nil_append] at hcollect
  generalize (Store.run ops).table.leaking (hashForEach (Store.run ops).table.hash) = l at *
  unfold callstackReport
  dsimp only
  rw [hhash, htable]
  rcases hcollect with ⟨hle, a, k, hsome, hfilled⟩ | ⟨hlt, hnone⟩
  · refine iff_of_true ?_ hle
    rw [hsome, Option.map_some]
    have hnum : a.itemNum = 0 ↔ l = [] := by
      rw [hfilled.itemNum]
      constructor
      · intro hzero
        have hnat := congrArg BitVec.toNat hzero
        unfold arrayCapacity at hle
        rw [BitVec.toNat_ofNat, Nat.mod_eq_of_lt (by omega)] at hnat
        exact List.length_eq_zero_iff.mp hnat
      · rintro rfl
        rfl
    by_cases hnil : l = []
    · rw [if_pos (hnum.mpr hnil)]
      subst hnil
      have hzero : ∀ c, (Store.run ops).leaks c = 0 := by
        intro c
        by_contra hne
        exact List.not_mem_nil ((hmem c).mpr hne)
      refine ⟨_, rfl, List.nodup_nil, ?_, List.Pairwise.nil, ?_⟩
      · intro c
        simp [listed, ReportLine.callstack, hzero c]
      · exact iff_of_true (by simp) hzero
    · rw [if_neg fun h => hnil (hnum.mp h)]
      obtain ⟨hperm, hsorted⟩ := hqsort (callstackCmp (Store.run ops).table) l (hcmp.consistent l)
      have hdata : a.data = some l := by
        rcases hfilled.data with hdata | ⟨hempty, -⟩
        · exact hdata
        · exact absurd hempty hnil
      rw [hfilled.forEach_sort hperm hdata]
      refine ⟨_, rfl, ?_⟩
      constructor
      · rw [listed_records]
        exact hperm.nodup_iff.mpr hnodup
      · intro c
        rw [listed_records, hperm.mem_iff]
        exact hmem c
      · rw [listed_records]
        apply hsorted.imp
        intro c d hle
        rw [hcmp.compare] at hle
        omega
      · refine iff_of_false (by simp) ?_
        intro hzero
        obtain ⟨c, hc⟩ := List.exists_mem_of_ne_nil l hnil
        exact (hmem c).mp hc (hzero c)
  · refine iff_of_false ?_ (not_le.mpr hlt)
    rw [hnone]
    rintro ⟨lines, heq, -⟩
    cases heq

/-- A `qsort` and an allocator that behave as documented. -/
def sortedBy {α : Type} (compar : α → α → CInt) (l : List α) : List α :=
  (l.attach.mergeSort fun a b => decide ((compar a.1 b.1).toInt ≤ 0)).map Subtype.val

theorem sorts_sortedBy {α : Type} : Sorts (sortedBy (α := α)) := by
  intro compar l h
  constructor
  · have hperm := (List.mergeSort_perm l.attach
      fun a b => decide ((compar a.1 b.1).toInt ≤ 0)).map Subtype.val
    rwa [List.attach_map_subtype_val] at hperm
  · rw [sortedBy, List.pairwise_map]
    have hsorted := @List.pairwise_mergeSort {x // x ∈ l}
      (fun a b => decide ((compar a.1 b.1).toInt ≤ 0)) ?_ ?_ l.attach
    · apply hsorted.imp
      intro a b hle
      exact of_decide_eq_true hle
    · intro a b c hab hbc
      exact decide_eq_true (h.trans a.1 a.2 b.1 b.2 c.1 c.2 (of_decide_eq_true hab)
        (of_decide_eq_true hbc))
    · intro a b
      have hsign := h.sign b.1 b.2 a.1 a.2
      rw [Bool.or_eq_true, decide_eq_true_iff, decide_eq_true_iff]
      omega

def ptrdiffGrants (n : Word) : Bool := decide (n.toNat < 2 ^ 63)

theorem granting_ptrdiffGrants : Granting ptrdiffGrants :=
  fun _ => decide_eq_true_iff

/-- Two callstacks leak, the second one twice. -/
def twoLeaks : List Op :=
  [.call .malloc 0x5000 100 0 { now := 0, ips := [0x1000, 0x2000] },
    .call .malloc 0x6000 100 0 { now := 0, ips := [0x1000, 0x2400] },
    .call .malloc 0x7000 100 0 { now := 0, ips := [0x1000, 0x2400] },
    .sweep 12 { expire := 10, memblockLimit := 1000, callstackLimit := 1000 }]

theorem report_iff_twoLeaks : ∃ lines,
    callstackReport sortedBy ptrdiffGrants (Store.run twoLeaks) 20 = some lines ∧
      ReportExact (Store.run twoLeaks) lines := by
  have hcounts : ∀ c, (Store.run twoLeaks).everExpired c < 2 ^ 31 := by
    intro c
    refine lt_of_le_of_lt (List.countP_le_length.trans (List.length_filter_le _ _)) ?_
    decide +kernel
  apply (report_iff sortedBy sorts_sortedBy ptrdiffGrants granting_ptrdiffGrants twoLeaks hcounts
    20).2.mpr
  refine le_trans (List.length_filter_le _ _) ?_
  decide +kernel

/-! ## More callstacks than the array can hold -/

/-- The `i`-th of many leaks: a block from a callstack of its own, which a sweep
expires. -/
def leakAt (i : Nat) : List Op :=
  [.call .malloc (BitVec.ofNat 64 (i + 1)) 1 0 { now := 0, ips := [BitVec.ofNat 64 (i + 1)] },
    .sweep 10 { expire := 10, memblockLimit := 1000, callstackLimit := 2147483646 }]

def manyLeaks (n : Nat) : List Op := (List.range n).flatMap leakAt

/-- The store after `n` of them. -/
structure ManyLeaks (n : Nat) (s : Store) : Prop where
  callstacks : s.table.fresh = n
  blocks : s.fresh = n
  backtrace : ∀ c < n, (s.table.object c).ips = [BitVec.ofNat 64 (c + 1)]
  callstack : ∀ b < n, (s.block b).callstack = b
  active : s.active = []
  expire : s.expire = List.range n

theorem ofNat_succ_inj {i j : Nat} (hi : i < 2 ^ 32) (hj : j < 2 ^ 32)
    (h : BitVec.ofNat 64 (i + 1) = BitVec.ofNat 64 (j + 1)) : i = j := by
  have hnat := congrArg BitVec.toNat h
  rw [BitVec.toNat_ofNat, BitVec.toNat_ofNat, Nat.mod_eq_of_lt (by omega),
    Nat.mod_eq_of_lt (by omega)] at hnat
  omega

/-- The backtrace of the next leak is a new one. -/
theorem ManyLeaks.lookup {n : Nat} {s : Store} (h : ManyLeaks n s) (hs : s.table.Linked)
    (hn : n < 2 ^ 32) (beyond : CallstackId → Nat → Word) :
    callstackCurrent s.table beyond true [BitVec.ofNat 64 (n + 1)] =
      (some n, s.table.create [BitVec.ofNat 64 (n + 1)]) := by
  have hnone : s.table.search beyond [BitVec.ofNat 64 (n + 1)] = none := by
    apply List.find?_eq_none.mpr
    intro c hc hview
    have hlt : c < n := h.callstacks ▸ hs _ c hc
    have heq := of_decide_eq_true hview
    simp only [Callstack.view, h.backtrace c hlt, List.length_singleton, List.range_one,
      List.map_cons, List.map_nil, List.getElem?_cons_zero, Option.getD_some, List.cons.injEq,
      and_true] at heq
    exact absurd (ofNat_succ_inj (lt_trans hlt hn) hn heq) (Nat.ne_of_lt hlt)
  rw [callstackCurrent, hnone, ← h.callstacks]
  rfl

theorem manyLeaks_succ (n : Nat) : manyLeaks (n + 1) = manyLeaks n ++ leakAt n := by
  rw [manyLeaks, List.range_succ, List.flatMap_append, List.flatMap_singleton]
  rfl

theorem memblockExpire_single {s : Store} {b : BlockId} {now : Int} {lim : Limits}
    (hact : s.active = [b]) (hold : lim.expire ≤ now - (s.block b).create) :
    ∃ out, (memblockExpire s now lim).2 = { memblockExpireOne s b with out := out } := by
  rw [memblockExpire, hact, memblockExpireLoop]
  dsimp only
  rw [if_neg (not_lt.mpr hold)]
  split
  · exact ⟨_, rfl⟩
  · split
    · exact ⟨_, rfl⟩
    · exact ⟨_, rfl⟩

theorem ManyLeaks.leak {n : Nat} {s : Store} (h : ManyLeaks n s) (hs : Consistent s)
    (hn : n < 2 ^ 32) : ManyLeaks (n + 1) ((leakAt n).foldl Store.step s) := by
  have hpointer : BitVec.ofNat 64 (n + 1) ≠ 0 := by
    intro hzero
    have hnat := congrArg BitVec.toNat hzero
    rw [BitVec.toNat_ofNat, Nat.mod_eq_of_lt (by omega)] at hnat
    simp at hnat
  -- the store after the `malloc`
  let mb : Memblock := { pointer := BitVec.ofNat 64 (n + 1), size := 1, callstack := n }
  let s₁ : Store := { s with table := s.table.create [BitVec.ofNat 64 (n + 1)] }.link mb
  have hmalloc : s.step (.call .malloc (BitVec.ofNat 64 (n + 1)) 1 0
      { now := 0, ips := [BitVec.ofNat 64 (n + 1)] }) = s₁ := by
    simp only [Store.step, Api.handler, bphMalloc, memblockNew, if_neg hpointer]
    rw [h.lookup hs.linked hn]
    rfl
  have hfresh : s.fresh = n := h.blocks
  have hactive : s₁.active = [n] := by
    show s.active ++ [s.fresh] = [n]
    rw [h.active, hfresh]
    rfl
  have hblock : s₁.block n = mb := by
    show Function.update s.block s.fresh mb n = mb
    rw [hfresh, Function.update_self]
  have hold : (10 : Int) ≤ 10 - (s₁.block n).create := by
    rw [hblock]
    exact le_rfl
  obtain ⟨out, hsweep⟩ := @memblockExpire_single s₁ n 10
    { expire := 10, memblockLimit := 1000, callstackLimit := 2147483646 } hactive hold
  have hlast : (leakAt n).foldl Store.step s = { memblockExpireOne s₁ n with out := out } := by
    rw [leakAt, List.foldl_cons, hmalloc, List.foldl_cons, List.foldl_nil]
    exact hsweep
  rw [hlast]
  refine ⟨?_, ?_, ?_, ?_, ?_, ?_⟩
  · show (memblockExpireOne s₁ n).table.fresh = n + 1
    rw [memblockExpireOne_table_fresh, ← h.callstacks]
    rfl
  · show (memblockExpireOne s₁ n).fresh = n + 1
    rw [memblockExpireOne_fresh, ← hfresh]
    rfl
  · intro c hc
    show ((memblockExpireOne s₁ n).table.object c).ips = _
    have hsame : ((memblockExpireOne s₁ n).table.object c).ips =
        ((s.table.create [BitVec.ofNat 64 (n + 1)]).object c).ips := by
      obtain ⟨id, hobject⟩ := memblockExpireOne_object s₁ n c
      have hlink : (s₁.table.object c).ips =
          ((s.table.create [BitVec.ofNat 64 (n + 1)]).object c).ips := by
        rw [link_object]
        split <;> rfl
      rw [hobject, ← hlink]
      split <;> rfl
    rw [hsame]
    rcases Nat.lt_succ_iff_lt_or_eq.mp hc with hc | rfl
    · rw [CallstackTable.create_object_of_lt _ (by rw [h.callstacks]; exact hc)]
      exact h.backtrace c hc
    · have hself := s.table.create_object_fresh [BitVec.ofNat 64 (c + 1)]
      rw [h.callstacks] at hself
      rw [hself]
  · intro b hb
    show ((memblockExpireOne s₁ n).block b).callstack = b
    rw [(expireOne_block b).2.2.2]
    rcases Nat.lt_succ_iff_lt_or_eq.mp hb with hb | rfl
    · have hother : s₁.block b = s.block b := by
        show Function.update s.block s.fresh mb b = s.block b
        rw [Function.update_of_ne (by rw [hfresh]; exact Nat.ne_of_lt hb)]
      rw [hother]
      exact h.callstack b hb
    · rw [hblock]
  · show (memblockExpireOne s₁ n).active = []
    rw [expireOne_active hactive]
  · show (memblockExpireOne s₁ n).expire = List.range (n + 1)
    have hexpire : s₁.expire = List.range n := h.expire
    rw [memblockExpireOne_expire, hexpire, List.erase_of_not_mem (by simp), List.range_succ]

theorem manyLeaks_run {n : Nat} (hn : n ≤ 2 ^ 32) : ManyLeaks n (Store.run (manyLeaks n)) := by
  induction n with
  | zero => exact ⟨rfl, rfl, by simp, by simp, rfl, rfl⟩
  | succ n ih =>
      have hrun : Store.run (manyLeaks (n + 1)) =
          (leakAt n).foldl Store.step (Store.run (manyLeaks n)) := by
        rw [manyLeaks_succ, Store.run, List.foldl_append]
        rfl
      rw [hrun]
      exact (ih (Nat.le_of_succ_le hn)).leak (consistent_run _) hn

theorem ManyLeaks.blocksOf {n : Nat} {s : Store} (h : ManyLeaks n s) {c : CallstackId}
    {l : List BlockId} (hl : l = List.range n) :
    (s.blocksOf c l).length = if c < n then 1 else 0 := by
  have hfilter : s.blocksOf c l = (List.range n).filter fun b => b = c := by
    rw [hl]
    apply List.filter_congr
    intro b hb
    rw [h.callstack b (List.mem_range.mp hb)]
  rw [hfilter, ← List.countP_eq_length_filter]
  have hcount : (List.range n).countP (fun b => b = c) = (List.range n).count c := by
    rw [List.count]
    congr
  rw [hcount]
  by_cases hc : c < n
  · rw [if_pos hc]
    exact List.count_eq_one_of_mem List.nodup_range (List.mem_range.mpr hc)
  · rw [if_neg hc]
    exact List.count_eq_zero_of_not_mem fun hmem => hc (List.mem_range.mp hmem)

/-- With one callstack more than the array can hold `array_push` returns `NULL`,
and the report does not get further. -/
theorem report_array_overflow :
    (∀ c, (Store.run (manyLeaks (arrayCapacity + 1))).everExpired c < 2 ^ 31) ∧
      (Store.run (manyLeaks (arrayCapacity + 1))).leakingCallstacks.length = arrayCapacity + 1 ∧
      callstackReport sortedBy ptrdiffGrants (Store.run (manyLeaks (arrayCapacity + 1))) 20 =
        none := by
  have hmany := manyLeaks_run (n := arrayCapacity + 1) (by decide)
  generalize hops : manyLeaks (arrayCapacity + 1) = ops at *
  have hcounts : ∀ c, (Store.run ops).everExpired c < 2 ^ 31 := by
    intro c
    refine lt_of_le_of_lt List.countP_le_length ?_
    rw [hmany.blocksOf (by rw [Store.recorded, hmany.blocks])]
    split <;> decide
  have hleaks : ∀ c, (Store.run ops).leaks c = if c < arrayCapacity + 1 then 1 else 0 :=
    fun c => hmany.blocksOf hmany.expire
  have hlength : (Store.run ops).leakingCallstacks.length = arrayCapacity + 1 := by
    have hall : (Store.run ops).leakingCallstacks = List.range (arrayCapacity + 1) := by
      rw [Store.leakingCallstacks, hmany.callstacks]
      apply List.filter_eq_self.mpr
      intro c hc
      rw [hleaks, if_pos (List.mem_range.mp hc)]
      rfl
    rw [hall, List.length_range]
  refine ⟨hcounts, hlength, ?_⟩
  have hs := consistent_run ops
  have hcmp := cmpExact hs (totalled_run ops) hcounts
  obtain ⟨-, -, hlen⟩ := leaking_perm hs.toPlaced hcmp (hashed_run ops)
  obtain ⟨-, hhash, hleaking⟩ := (memblockCount_countedFrom (Store.run ops) 20).table_eq
  unfold callstackReport
  dsimp only
  rw [hhash]
  rcases callstackCollect_eq (t := (memblockCount (Store.run ops) 20).table)
    granting_ptrdiffGrants (hashForEach (Store.run ops).table.hash) [] callstacksArray 0
    callstacksArray_filled (Nat.zero_le _) with ⟨hle, -⟩ | ⟨-, hnone⟩
  · rw [hleaking, List.nil_append, hlen, hlength] at hle
    exact absurd hle (Nat.not_succ_le_self _)
  · rw [hnone]
    rfl

end Memleax
