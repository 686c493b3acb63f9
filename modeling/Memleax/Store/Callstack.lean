import Mathlib.Data.BitVec
import Memleax.Framework.Chains

/-!
# Callstacks and their hash

`callstack.c` and `hash.h` on a 64-bit machine. A callstack is identified by
the words of its backtrace: `callstackCurrent` looks the words up in
`g_callstack_hash` and creates a new object when the search fails.

The C objects are addressed by number: object `n` is the `n`-th one created.
Addresses are never compared in the code, so the numbering is not observable.
`memcmp` compares as many words as the *searched* backtrace has, whatever the
length of the stored one; the words it finds past the end of a stored object
are an input of the search (`beyond`).
-/

namespace Memleax

open Framework

/-- `uintptr_t`, `size_t` and `unw_word_t`. -/
abbrev Word := BitVec 64

/-- The C type `int`, in two's complement. -/
abbrev CInt := BitVec 32

theorem CInt.setWidth_signExtend (n : CInt) : (n.signExtend 64).setWidth 32 = n := by
  apply BitVec.eq_of_getLsbD_eq
  intro i hi
  simp only [BitVec.getLsbD_setWidth, BitVec.getLsbD_signExtend, hi, decide_true, Bool.true_and]
  have h64 : i < 64 := by omega
  simp [h64]

/-- An `int` that is not negative, as a `size_t`. -/
theorem toNat_signExtend_ofNat {n : Nat} (h : n < 2 ^ 31) :
    ((BitVec.ofNat 32 n).signExtend 64).toNat = n := by
  rw [BitVec.toNat_signExtend]
  have hmsb : (BitVec.ofNat 32 n).msb = false := by
    rw [BitVec.msb_eq_decide]
    simp
    omega
  simp [hmsb]
  omega

/-! ## `hash.h` -/

/-- `HASH_SIZE`. -/
def hashSize : Nat := 29989

/-- A word as the two `uint32_t` that a little-endian machine sees in it. -/
def halves (w : Word) : List (BitVec 32) := [w.setWidth 32, (w >>> 32).setWidth 32]

/-- The key words folded with `^=`, modulo the number of slots. -/
def hashSlot (key : List Word) : Nat :=
  ((key.flatMap halves).foldl (· ^^^ ·) 0).toNat % hashSize

/-! ## `struct callstack_s` -/

/-- The address of a `struct callstack_s`: its number in order of creation. -/
abbrev CallstackId := Nat

structure Callstack where
  id : CInt := 0
  allocCount : CInt := 0
  freeCount : CInt := 0
  expiredCount : CInt := 0
  freeExpiredCount : CInt := 0
  allocSize : CInt := 0
  freeSize : CInt := 0
  expiredSize : CInt := 0
  freeExpiredSize : CInt := 0
  freeMin : CInt := 0
  freeMax : CInt := 0
  freeTotal : CInt := 0
  unfreeMax : CInt := 0
  ips : List Word := []
deriving DecidableEq, Repr

/-- `ip_num`: the length of the flexible array `ips`. -/
def Callstack.ipNum (cs : Callstack) : Nat := cs.ips.length

/-- The first `n` words at `ips`: the stored ones, then whatever the heap holds
behind the object. -/
def Callstack.view (cs : Callstack) (beyond : Nat → Word) (n : Nat) : List Word :=
  (List.range n).map fun i => (cs.ips[i]?).getD (beyond i)

/-- `g_callstack_hash` with the objects that it links. -/
structure CallstackTable where
  hash : Chains CallstackId := fun _ => []
  object : CallstackId → Callstack := fun _ => {}
  fresh : CallstackId := 0

/-- Write to one callstack through its pointer. -/
def CallstackTable.modify (t : CallstackTable) (cs : CallstackId)
    (f : Callstack → Callstack) : CallstackTable :=
  { t with object := Function.update t.object cs (f (t.object cs)) }

/-- `hash_search` on `g_callstack_hash`. -/
def CallstackTable.search (t : CallstackTable) (beyond : CallstackId → Nat → Word)
    (ips : List Word) : Option CallstackId :=
  t.hash.search (hashSlot ips) fun cs =>
    decide ((t.object cs).view (beyond cs) ips.length = ips)

/-- What follows the failed search of `callstack_current`: the object is zeroed
(`bzero`), filled and hashed. -/
def CallstackTable.create (t : CallstackTable) (ips : List Word) : CallstackTable where
  hash := t.hash.pushHead (hashSlot ips) t.fresh
  object := Function.update t.object t.fresh { ips := ips }
  fresh := t.fresh + 1

/-- `callstack_current`, given the backtrace `ips` (the entry address first).
`mallocOk` is whether the `malloc` of a new object succeeds. -/
def callstackCurrent (t : CallstackTable) (beyond : CallstackId → Nat → Word)
    (mallocOk : Bool) (ips : List Word) : Option CallstackId × CallstackTable :=
  match t.search beyond ips with
  | some cs => (some cs, t)
  | none => if mallocOk then (some t.fresh, t.create ips) else (none, t)

/-! ## What a lookup leaves alone -/

@[simp] theorem CallstackTable.modify_hash (t : CallstackTable) (cs : CallstackId)
    (f : Callstack → Callstack) : (t.modify cs f).hash = t.hash := rfl

@[simp] theorem CallstackTable.modify_fresh (t : CallstackTable) (cs : CallstackId)
    (f : Callstack → Callstack) : (t.modify cs f).fresh = t.fresh := rfl

@[simp] theorem CallstackTable.modify_object_self (t : CallstackTable) (cs : CallstackId)
    (f : Callstack → Callstack) : (t.modify cs f).object cs = f (t.object cs) := by
  simp [CallstackTable.modify]

theorem CallstackTable.modify_object_of_ne (t : CallstackTable) {cs c : CallstackId}
    (f : Callstack → Callstack) (h : c ≠ cs) : (t.modify cs f).object c = t.object c := by
  simp [CallstackTable.modify, h]

/-- Every linked object has been created. -/
def CallstackTable.Linked (t : CallstackTable) : Prop := ∀ k, ∀ cs ∈ t.hash k, cs < t.fresh

theorem CallstackTable.search_lt {t : CallstackTable} (ht : t.Linked)
    {beyond : CallstackId → Nat → Word} {ips : List Word} {cs : CallstackId}
    (h : t.search beyond ips = some cs) : cs < t.fresh :=
  ht _ _ (List.mem_of_find?_eq_some h)

theorem CallstackTable.create_linked {t : CallstackTable} (ht : t.Linked) (ips : List Word) :
    (t.create ips).Linked := by
  intro k cs hcs
  rcases Chains.mem_pushHead.mp hcs with ⟨rfl, -⟩ | hcs
  · exact Nat.lt_succ_self _
  · exact Nat.lt_succ_of_lt (ht k cs hcs)

theorem CallstackTable.create_object_of_lt {t : CallstackTable} {cs : CallstackId}
    (ips : List Word) (h : cs < t.fresh) : (t.create ips).object cs = t.object cs :=
  Function.update_of_ne (Nat.ne_of_lt h) _ _

@[simp] theorem CallstackTable.create_object_fresh (t : CallstackTable) (ips : List Word) :
    (t.create ips).object t.fresh = { ips := ips } :=
  Function.update_self _ _ _

/-- Every created object is linked in the slot of its backtrace, once. -/
def CallstackTable.Hashed (t : CallstackTable) : Prop :=
  Chained (fun cs => hashSlot (t.object cs).ips) (· < t.fresh) t.hash

theorem CallstackTable.create_hashed {t : CallstackTable} (h : t.Hashed) (ips : List Word) :
    (t.create ips).Hashed := by
  have hcongr : Chained (fun cs => hashSlot ((t.create ips).object cs).ips) (· < t.fresh) t.hash :=
    h.congr (fun _ => Iff.rfl) fun c hc => by rw [CallstackTable.create_object_of_lt _ hc]
  have hpush := hcongr.pushHead (x := t.fresh) fun _ hy => hy
  simp only [CallstackTable.create_object_fresh] at hpush
  exact hpush.congr (fun c => Nat.lt_succ_iff_lt_or_eq.trans Or.comm) fun _ _ => rfl

/-- **Every outcome of `callstack_current`.** It returns an object that was
linked before and changes nothing, or returns a zeroed new object, or fails. -/
theorem callstackCurrent_cases {t : CallstackTable} (ht : t.Linked)
    (beyond : CallstackId → Nat → Word) (mallocOk : Bool) (ips : List Word) :
    (∃ cs < t.fresh, callstackCurrent t beyond mallocOk ips = (some cs, t)) ∨
    (callstackCurrent t beyond mallocOk ips = (some t.fresh, t.create ips)) ∨
    (mallocOk = false ∧ callstackCurrent t beyond mallocOk ips = (none, t)) := by
  unfold callstackCurrent
  cases hs : t.search beyond ips with
  | some cs => exact Or.inl ⟨cs, t.search_lt ht hs, rfl⟩
  | none =>
      cases mallocOk with
      | true => exact Or.inr (Or.inl rfl)
      | false => exact Or.inr (Or.inr ⟨rfl, rfl⟩)

end Memleax
