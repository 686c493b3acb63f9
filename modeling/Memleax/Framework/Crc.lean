import Mathlib.Data.BitVec
import Mathlib.Logic.Function.Iterate

/-!
# Reflected cyclic redundancy checks

A register of `w` bits takes the message bit by bit, the lowest bit of a byte
first: the bit is added to the lowest one of the register, the register is
shifted down, and the polynomial is added if the bit that falls out is set.

A shift is linear (`shift_xor`) and does nothing but shift where the bits that
fall out are clear (`iterate_shift_high`). So `n` bits at a time can be taken by
way of a table of what the shifts make of `n` bits alone (`foldl_feedBit_eq`).
-/

namespace Framework.Crc

variable {w : Nat} (poly : BitVec w)

/-- The register shifted down by one bit. -/
def shift (crc : BitVec w) : BitVec w :=
  if crc.getLsbD 0 then (crc >>> 1) ^^^ poly else crc >>> 1

/-- Take one bit of the message. -/
def feedBit (crc : BitVec w) (bit : Bool) : BitVec w :=
  shift poly (crc ^^^ (BitVec.ofBool bit).setWidth w)

/-- The bits of a word, the lowest one first. -/
def bitsOf : {n : Nat} → BitVec n → List Bool
  | 0, _ => []
  | n + 1, x => x.getLsbD 0 :: bitsOf ((x >>> 1).setWidth n)

/-- The register after the bytes of a message. -/
def feed (crc : BitVec w) (bytes : List (BitVec 8)) : BitVec w :=
  (bytes.flatMap bitsOf).foldl (feedBit poly) crc

/-- The checksum of a message: it starts with all bits set and ends with all bits
inverted. -/
def checksum (bytes : List (BitVec 8)) : BitVec w :=
  feed poly (BitVec.allOnes w) bytes ^^^ BitVec.allOnes w

variable {poly}

theorem feed_append (crc : BitVec w) (bytes bytes' : List (BitVec 8)) :
    feed poly crc (bytes ++ bytes') = feed poly (feed poly crc bytes) bytes' := by
  rw [feed, List.flatMap_append, List.foldl_append]
  rfl

/-! ## Shifts -/

theorem shift_xor (x y : BitVec w) : shift poly (x ^^^ y) = shift poly x ^^^ shift poly y := by
  unfold shift
  rw [BitVec.getLsbD_xor, BitVec.ushiftRight_xor_distrib]
  cases x.getLsbD 0 <;> cases y.getLsbD 0
  · rfl
  · simp [BitVec.xor_assoc]
  · simp [BitVec.xor_assoc, BitVec.xor_comm poly]
  · simp only [Bool.xor_self, Bool.false_eq_true, if_false, if_true]
    rw [BitVec.xor_comm (y >>> 1), BitVec.xor_assoc, ← BitVec.xor_assoc poly, BitVec.xor_self,
      BitVec.zero_xor]

theorem iterate_shift_xor (n : Nat) (x y : BitVec w) :
    (shift poly)^[n] (x ^^^ y) = (shift poly)^[n] x ^^^ (shift poly)^[n] y := by
  induction n generalizing x y with
  | zero => rfl
  | succ n ih => rw [Function.iterate_succ_apply, shift_xor, ih]; rfl

theorem shift_of_clear {x : BitVec w} (h : x.getLsbD 0 = false) : shift poly x = x >>> 1 := by
  rw [shift, h]
  rfl

/-- Clear bits fall out without a trace. -/
theorem iterate_shift_high {n : Nat} {x : BitVec w} (h : ∀ i < n, x.getLsbD i = false) :
    (shift poly)^[n] x = x >>> n := by
  induction n generalizing x with
  | zero => simp
  | succ n ih =>
      rw [Function.iterate_succ_apply, shift_of_clear (h 0 (Nat.succ_pos n)), ih]
      · rw [← BitVec.shiftRight_add, Nat.add_comm]
      · intro i hi
        rw [BitVec.getLsbD_ushiftRight, Nat.add_comm]
        exact h (i + 1) (Nat.succ_lt_succ hi)

/-- The low bits of a word. -/
def low (n : Nat) (x : BitVec w) : BitVec w := (x.setWidth n).setWidth w

theorem getLsbD_low {n : Nat} (x : BitVec w) (i : Nat) :
    (low n x).getLsbD i = (decide (i < n) && x.getLsbD i) := by
  rw [low, BitVec.getLsbD_setWidth, BitVec.getLsbD_setWidth]
  by_cases hi : i < w
  · simp [hi]
  · simp [hi, BitVec.getLsbD_of_ge x i (Nat.le_of_not_lt hi)]

/-- **`n` shifts by way of a table** of what they make of `n` bits. -/
theorem iterate_shift_eq (n : Nat) (x : BitVec w) :
    (shift poly)^[n] x = (shift poly)^[n] (low n x) ^^^ (x >>> n) := by
  have hsplit : x = low n x ^^^ (low n x ^^^ x) := by
    rw [← BitVec.xor_assoc, BitVec.xor_self, BitVec.zero_xor]
  have hhigh : (shift poly)^[n] (low n x ^^^ x) = x >>> n := by
    rw [iterate_shift_high]
    · apply BitVec.eq_of_getLsbD_eq
      intro i hi
      have hi' : ¬ n + i < n := by omega
      rw [BitVec.getLsbD_ushiftRight, BitVec.getLsbD_ushiftRight, BitVec.getLsbD_xor, getLsbD_low,
        decide_eq_false hi', Bool.false_and, Bool.false_xor]
    · intro i hi
      rw [BitVec.getLsbD_xor, getLsbD_low]
      simp [hi]
  conv_lhs => rw [hsplit, iterate_shift_xor, hhigh]

/-! ## Bits of the message -/

/-- Adding the bits one by one is adding them all and then shifting. -/
theorem foldl_feedBit {n : Nat} (hn : n ≤ w) (crc : BitVec w) (x : BitVec n) :
    (bitsOf x).foldl (feedBit poly) crc = (shift poly)^[n] (crc ^^^ x.setWidth w) := by
  induction n generalizing crc with
  | zero =>
      rw [BitVec.eq_nil x]
      simp [bitsOf]
  | succ n ih =>
      -- the first bit falls out, the others move down
      let first : BitVec w := (BitVec.ofBool (x.getLsbD 0)).setWidth w
      have hrest : shift poly (first ^^^ x.setWidth w) = ((x >>> 1).setWidth n).setWidth w := by
        rw [shift_of_clear]
        · apply BitVec.eq_of_getLsbD_eq
          intro i hi
          have hbit : (decide (1 + i < w) && x.getLsbD (1 + i)) =
              (decide (i < w) && (decide (i < n) && x.getLsbD (1 + i))) := by
            by_cases hin : i < n
            · have hiw : 1 + i < w := by omega
              simp [hin, hi, hiw]
            · simp [hin, BitVec.getLsbD_of_ge x (1 + i) (by omega)]
          simpa [first] using hbit
        · simp [first]
      have hsplit : crc ^^^ x.setWidth w = (crc ^^^ first) ^^^ (first ^^^ x.setWidth w) := by
        rw [BitVec.xor_assoc, ← BitVec.xor_assoc first, BitVec.xor_self, BitVec.zero_xor]
      rw [bitsOf, List.foldl_cons, ih (by omega), Function.iterate_succ_apply, hsplit, shift_xor,
        hrest]
      rfl

/-- **`n` bits of the message at a time**, with a table for `n` bits. -/
theorem foldl_feedBit_eq {n : Nat} (hn : n ≤ w) (crc : BitVec w) (x : BitVec n) :
    (bitsOf x).foldl (feedBit poly) crc =
      (shift poly)^[n] (low n (crc ^^^ x.setWidth w)) ^^^ (crc >>> n) := by
  have hclear : x.setWidth w >>> n = 0#w := by
    apply BitVec.eq_of_getLsbD_eq
    intro i hi
    simp
  rw [foldl_feedBit hn, iterate_shift_eq, BitVec.ushiftRight_xor_distrib, hclear, BitVec.xor_zero]

end Framework.Crc
