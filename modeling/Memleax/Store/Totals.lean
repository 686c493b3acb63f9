import Memleax.Store.Consistency

/-!
# Cumulative totals

`alloc_count`, `alloc_size`, `expired_count` and their `free_` companions grow
over the whole life of a callstack: they are about all blocks ever recorded,
those freed long ago included. A block that is deleted keeps its record in the
model, so these blocks are the numbers below `Store.fresh`, and a total is a
tally over them.

The totals are `int`s. As numbers modulo `2 ^ 32` they are right after every
history (`Totalled`); the value that is printed is the true, unbounded sum
exactly as long as that sum fits an `int` (`byteTotals_iff`).
-/

namespace Memleax

/-- All blocks ever recorded. -/
def Store.recorded (s : Store) : List BlockId := List.range s.fresh

/-- The recorded blocks that are not in the store any more. -/
def Store.freed (s : Store) : List BlockId := s.recorded.filter fun b => b ∉ s.stored

/-- A block counts for one once it has expired. -/
def oneExpired (mb : Memblock) : CInt := if mb.expired then 1 else 0

/-- The totals of every callstack, over all blocks ever recorded. -/
structure Totalled (s : Store) : Prop where
  known : ∀ b ∈ s.recorded, (s.block b).callstack < s.table.fresh
  bytes : Balanced s (·.allocSize) (fun _ => 0) sizeInt s.recorded
  expired : Balanced s (·.expiredCount) (fun _ => 0) oneExpired s.recorded

/-! ## One lemma per primitive -/

section Primitives

variable {s : Store} {b : BlockId}

theorem mem_recorded : b ∈ s.recorded ↔ b < s.fresh := List.mem_range

theorem recorded_nodup (s : Store) : s.recorded.Nodup := List.nodup_range

theorem Placed.mem_recorded (h : Placed s) (hb : b ∈ s.stored) : b ∈ s.recorded :=
  List.mem_range.mpr (h.created b hb)

theorem totalled_lookup (hp : Placed s) (h : Totalled s) (env : Env) : Totalled { s with
    table := (callstackCurrent s.table env.beyond env.callstackMalloc env.ips).2 } := by
  rcases callstackCurrent_cases hp.linked env.beyond env.callstackMalloc env.ips with
    ⟨cs, -, heq⟩ | heq | ⟨-, heq⟩
  · rw [heq]
    exact h
  · rw [heq]
    refine ⟨?_, h.bytes.create h.known _ (sub_self 0), h.expired.create h.known _ (sub_self 0)⟩
    intro b hb
    exact Nat.lt_succ_of_lt (h.known b hb)
  · rw [heq]
    exact h

theorem link_recorded (s : Store) (mb : Memblock) :
    (s.link mb).recorded = s.recorded ++ [s.fresh] := List.range_succ

theorem link_block_recorded {mb : Memblock} (hb : b ∈ s.recorded) :
    (s.link mb).block b = s.block b := by
  have hne : b ≠ s.fresh := ne_of_lt (mem_recorded.mp hb)
  simp [Store.link, hne]

/-- A new block is one more recorded block. -/
theorem tally_link_recorded (f : Memblock → CInt) (mb : Memblock) (c : CallstackId) :
    tally (s.link mb).block f (s.link mb).recorded c =
      tally s.block f s.recorded c + if mb.callstack = c then f mb else 0 := by
  rw [link_recorded, tally_append, tally_singleton, link_block_fresh]
  congr 1
  apply tally_congr
  · intro b hb
    rw [link_block_recorded hb]
  · intro b hb
    rw [link_block_recorded hb]

theorem totalled_link (h : Totalled s) {mb : Memblock} (hmb : mb.expired = false)
    (hcs : mb.callstack < s.table.fresh) : Totalled (s.link mb) where
  known := by
    intro b hb
    rw [link_recorded] at hb
    rcases List.mem_append.mp hb with hb | hb
    · rw [link_block_recorded hb]
      exact h.known b hb
    · rw [List.mem_singleton.mp hb, link_block_fresh]
      exact hcs
  bytes := by
    refine h.bytes.shift mb.callstack (sizeInt mb) ?_ (fun _ => link_object_of_ne)
      (tally_link_recorded sizeInt mb)
    rw [link_object_self]
    simp only [Callstack.countAlloc, CInt.addSize_eq, sizeInt]
    ring
  expired := by
    refine h.expired.shift mb.callstack (oneExpired mb) ?_ (fun _ => link_object_of_ne)
      (tally_link_recorded oneExpired mb)
    rw [link_object_self]
    simp [Callstack.countAlloc, oneExpired, hmb]

theorem totalled_delete (h : Totalled s) (now : Int) : Totalled (s.delete now b) where
  known := by
    intro x hx
    rw [Store.delete_table_fresh]
    exact h.known x hx
  bytes := by
    refine h.bytes.shift (s.block b).callstack 0 ?_ (fun _ => delete_object_of_ne) ?_
    · rw [delete_object_self]
      cases he : (s.block b).expired <;>
        simp [Callstack.countDelete, he, Callstack.countFree, Callstack.countFreeExpired]
    · intro c
      rw [ite_self, add_zero]
      rfl
  expired := by
    refine h.expired.shift (s.block b).callstack 0 ?_ (fun _ => delete_object_of_ne) ?_
    · rw [delete_object_self]
      cases he : (s.block b).expired <;>
        simp [Callstack.countDelete, he, Callstack.countFree, Callstack.countFreeExpired]
    · intro c
      rw [ite_self, add_zero]
      rfl

theorem totalled_resize (h : Totalled s) (hb : b ∈ s.recorded) (size : Word) :
    Totalled (s.resize b size) where
  known := by
    intro x hx
    rw [(resize_block x).2.2.2]
    exact h.known x hx
  bytes := by
    refine h.bytes.shift (s.block b).callstack (size.setWidth 32 - sizeInt (s.block b)) ?_
      (fun _ => resize_object_of_ne) (tally_resize_size (recorded_nodup s) hb)
    rw [resize_object_self]
    simp only [Callstack.resize, CInt.addSize_eq, CInt.subSize_eq, sizeInt]
    ring
  expired := by
    refine h.expired.shift (s.block b).callstack 0 ?_ (fun _ => resize_object_of_ne) ?_
    · rw [resize_object_self]
      simp [Callstack.resize]
    · intro c
      rw [ite_self, add_zero]
      apply tally_congr (fun x _ => (resize_block x).2.2.2)
      intro x _
      rw [oneExpired, oneExpired, (resize_block x).2.2.1]

/-- The block that expires had not been counted. -/
theorem totalled_expireOne {rest : List BlockId} (hp : Placed s) (h : Totalled s)
    (hact : s.active = b :: rest) : Totalled (memblockExpireOne s b) := by
  obtain ⟨id, hself⟩ := expireOne_object_self s b
  have hmem : b ∈ s.active := by simp [hact]
  have hrec : (memblockExpireOne s b).recorded = s.recorded := by
    rw [Store.recorded, memblockExpireOne_fresh, Store.recorded]
  refine ⟨?_, ?_, ?_⟩
  · intro x hx
    rw [memblockExpireOne_table_fresh, (expireOne_block x).2.2.2]
    exact h.known x (hrec ▸ hx)
  · have hsize : ∀ mb mb' : Memblock, mb.size = mb'.size → sizeInt mb = sizeInt mb' := by
      intro mb mb' heq
      rw [sizeInt, sizeInt, heq]
    refine h.bytes.shift (s.block b).callstack 0 ?_ (fun _ => expireOne_object_of_ne) ?_
    · rw [hself]
      simp [Callstack.countExpired]
    · intro c
      rw [ite_self, add_zero, hrec, tally_expireOne hsize]
  · refine h.expired.shift (s.block b).callstack 1 ?_ (fun _ => expireOne_object_of_ne) ?_
    · rw [hself]
      simp [Callstack.countExpired]
    · intro c
      have hyoung : oneExpired (s.block b) = 0 := by simp [oneExpired, hp.young b hmem]
      rw [hrec, memblockExpireOne_block, tally_update (recorded_nodup s)
        (hp.mem_recorded (List.mem_append_left _ hmem)), tally_singleton, hyoung, ite_self,
        sub_zero]
      rfl

end Primitives

/-! ## Whole histories -/

theorem totalled_step {s : Store} (hs : Consistent s) (h : Totalled s) (op : Op) :
    Totalled (s.step op) := by
  refine Consistent.step_induct ?_ ?_ ?_ ?_ ?_ ?_ hs h
  · intro s out h
    exact ⟨h.known, h.bytes, h.expired⟩
  · intro s env hs h
    exact totalled_lookup hs.toPlaced h env
  · intro s env pointer size cs _ h _ hlt
    exact totalled_link h rfl hlt
  · intro s now b _ h _
    exact totalled_delete h now
  · intro pointer b size env _ _ hmem
    exact totalled_resize h (hs.toPlaced.mem_recorded hmem) size
  · intro s b rest now lim _ hs h hact _
    exact totalled_expireOne hs.toPlaced h hact

theorem totalled_run (ops : List Op) : Totalled (Store.run ops) := by
  induction ops using List.reverseRecOn with
  | nil => exact ⟨by simp [Store.run, Store.recorded], fun _ => sub_self 0, fun _ => sub_self 0⟩
  | append_singleton ops op ih =>
      rw [Store.run_append_single]
      exact totalled_step (consistent_run ops) ih op

/-! ## Reading the totals as numbers -/

section Reading

variable {s : Store}

theorem Totalled.allocSize_eq (h : Totalled s) (c : CallstackId) :
    (s.table.object c).allocSize = BitVec.ofNat 32 (s.bytesOf c s.recorded) := by
  have hbytes := h.bytes c
  rwa [sub_zero, tally_size_eq] at hbytes

/-- Every recorded block is in the store or has been freed. -/
theorem stored_append_freed_perm (h : Placed s) : (s.stored ++ s.freed).Perm s.recorded := by
  apply (List.perm_ext_iff_of_nodup ?_ (recorded_nodup s)).mpr
  · intro b
    rw [List.mem_append, Store.freed, List.mem_filter]
    constructor
    · rintro (hb | ⟨hb, -⟩)
      · exact h.mem_recorded hb
      · exact hb
    · intro hb
      by_cases hmem : b ∈ s.stored
      · exact Or.inl hmem
      · exact Or.inr ⟨hb, by simp [hmem]⟩
  · refine List.nodup_append.mpr ⟨h.nodup, (recorded_nodup s).filter _, ?_⟩
    rintro b hb b' hb' rfl
    have hnot := (List.mem_filter.mp hb').2
    simp [hb] at hnot

theorem bytesOf_append (c : CallstackId) (l l' : List BlockId) :
    s.bytesOf c (l ++ l') = s.bytesOf c l + s.bytesOf c l' := by
  simp [Store.bytesOf, Store.blocksOf]

theorem bytesOf_perm (c : CallstackId) {l l' : List BlockId} (h : l.Perm l') :
    s.bytesOf c l = s.bytesOf c l' :=
  ((h.filter _).map _).sum_eq

theorem bytesOf_recorded (h : Placed s) (c : CallstackId) :
    s.bytesOf c s.recorded = s.bytesOf c s.stored + s.bytesOf c s.freed := by
  rw [← bytesOf_perm c (stored_append_freed_perm h), bytesOf_append]

theorem Totalled.freeSize_eq (hs : Consistent s) (h : Totalled s) (c : CallstackId) :
    (s.table.object c).freeSize = BitVec.ofNat 32 (s.bytesOf c s.freed) := by
  have hstored : (s.table.object c).allocSize - (s.table.object c).freeSize =
      BitVec.ofNat 32 (s.bytesOf c s.stored) := (hs.bytes c).trans (tally_size_eq s c s.stored)
  rw [h.allocSize_eq, bytesOf_recorded hs.toPlaced, BitVec.ofNat_add] at hstored
  have hfree : BitVec.ofNat 32 (s.bytesOf c s.freed) - (s.table.object c).freeSize = 0 := by
    rw [add_sub_assoc] at hstored
    exact add_eq_left.mp hstored
  exact (sub_eq_zero.mp hfree).symm

/-- An `int` that is `n` modulo `2 ^ 32` is `n` exactly when `n` fits. -/
theorem toInt_eq_iff_of_eq_ofNat {x : CInt} {n : Nat} (h : x = BitVec.ofNat 32 n) :
    x.toInt = n ↔ n < 2 ^ 31 := by
  constructor
  · intro heq
    have hlt := BitVec.two_mul_toInt_lt (x := x)
    omega
  · exact toInt_of_eq_ofNat h

end Reading

/-- What the two printed byte totals of a callstack should be. -/
structure ByteTotals (s : Store) (c : CallstackId) : Prop where
  alloc : (s.table.object c).allocSize.toInt = s.bytesOf c s.recorded
  free : (s.table.object c).freeSize.toInt = s.bytesOf c s.freed
  alloc_nonneg : 0 ≤ (s.table.object c).allocSize.toInt
  free_nonneg : 0 ≤ (s.table.object c).freeSize.toInt

/-- **Byte totals.** After any history, the totals printed for a callstack are
the true sums exactly when the sizes of all blocks ever recorded at it add up
to less than `2 ^ 31`. -/
theorem byteTotals_iff (ops : List Op) (c : CallstackId) :
    ByteTotals (Store.run ops) c ↔
      (Store.run ops).bytesOf c (Store.run ops).recorded < 2 ^ 31 := by
  have hs := consistent_run ops
  have halloc := (totalled_run ops).allocSize_eq c
  have hfree := (totalled_run ops).freeSize_eq hs c
  constructor
  · intro h
    exact (toInt_eq_iff_of_eq_ofNat halloc).mp h.alloc
  · intro hlt
    -- what has been freed is part of what was allocated
    have hle := bytesOf_recorded hs.toPlaced c
    have h₁ := toInt_of_eq_ofNat halloc hlt
    have h₂ := toInt_of_eq_ofNat hfree (by omega)
    exact ⟨h₁, h₂, by omega, by omega⟩

/-- Two blocks of 1 GiB from one callstack, one after the other. -/
def twoGigabytes : List Op :=
  [.call .malloc 0x10000000 0x40000000 0 { now := 0, ips := [0x1000, 0x2000] },
    .call .free 0 0x10000000 0 { now := 1, ips := [0x1200, 0x2000] },
    .call .malloc 0x10000000 0x40000000 0 { now := 2, ips := [0x1000, 0x2000] }]

/-- `alloc_size` is printed as `-2147483648`. -/
theorem alloc_size_negative :
    ((Store.run twoGigabytes).table.object 0).allocSize.toInt = -2147483648 ∧
      ¬ ByteTotals (Store.run twoGigabytes) 0 := by
  have hval : ((Store.run twoGigabytes).table.object 0).allocSize.toInt = -2147483648 := by
    decide +kernel
  refine ⟨hval, fun h => ?_⟩
  have hneg := h.alloc_nonneg
  rw [hval] at hneg
  omega

end Memleax
