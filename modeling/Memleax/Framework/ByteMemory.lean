import Mathlib.Data.BitVec
import Mathlib.Data.Set.Insert

/-!
# Words in a byte-addressed memory

A memory maps addresses to bytes; a word of `n` bytes is read and written at
any address, little-endian, and address arithmetic wraps around.

The second half is about memories that differ from an original one by a fixed
byte planted at a set of addresses, the way a debugger plants trap bytes. A
word saved under one set of planted addresses and written back under another
one leaves the first set inside the window of the word and the second one
outside of it (`planted_restore`); with the trap byte put in front it also
plants its own address (`planted_arm`). Overlapping windows need nothing else.
Where it is only known at which addresses the byte may stand, the memory is
`Sown`.
-/

namespace Framework

/-- A memory with addresses of `w` bits. -/
abbrev Bytes (w : Nat) := BitVec w → BitVec 8

variable {w n : Nat}

/-- Byte `k` of a word, from the least significant one. -/
def byteOf (v : BitVec (8 * n)) (k : Nat) : BitVec 8 := v.extractLsb' (8 * k) 8

theorem getLsbD_byteOf (v : BitVec (8 * n)) (k : Nat) {i : Nat} (hi : i < 8) :
    (byteOf v k).getLsbD i = v.getLsbD (8 * k + i) := by
  rw [byteOf, BitVec.getLsbD_extractLsb', decide_eq_true hi, Bool.true_and]

/-- A word is its bytes. -/
theorem eq_of_byteOf_eq {v v' : BitVec (8 * n)} (h : ∀ k < n, byteOf v k = byteOf v' k) : v = v' := by
  apply BitVec.eq_of_getLsbD_eq
  intro i hi
  have hmod : i % 8 < 8 := Nat.mod_lt i (by decide)
  have hbyte := congrArg (BitVec.getLsbD · (i % 8)) (h (i / 8) (by omega))
  simp only [getLsbD_byteOf _ _ hmod, Nat.div_add_mod] at hbyte
  exact hbyte

/-! ## The first byte of a word -/

/-- `v` with `c` as its first byte. -/
def withFront (c : BitVec 8) (v : BitVec (8 * n)) : BitVec (8 * n) :=
  (v &&& BitVec.allOnes (8 * n) <<< 8) ||| c.setWidth (8 * n)

theorem getLsbD_withFront (c : BitVec 8) (v : BitVec (8 * n)) {i : Nat} (hi : i < 8 * n) :
    (withFront c v).getLsbD i = if i < 8 then c.getLsbD i else v.getLsbD i := by
  simp only [withFront, BitVec.getLsbD_or, BitVec.getLsbD_and, BitVec.getLsbD_shiftLeft,
    BitVec.getLsbD_allOnes, BitVec.getLsbD_setWidth, hi, decide_true, Bool.true_and]
  by_cases h8 : i < 8
  · simp [h8]
  · have hsub : i - 8 < 8 * n := by omega
    simp [h8, hsub, BitVec.getLsbD_of_ge c i (Nat.le_of_not_lt h8)]

theorem byteOf_withFront_zero (hn : 0 < n) (c : BitVec 8) (v : BitVec (8 * n)) :
    byteOf (withFront c v) 0 = c := by
  apply BitVec.eq_of_getLsbD_eq
  intro i hi
  rw [getLsbD_byteOf _ _ hi, getLsbD_withFront c v (by omega), if_pos (by omega), Nat.mul_zero,
    Nat.zero_add]

theorem byteOf_withFront_of_pos (c : BitVec 8) (v : BitVec (8 * n)) {k : Nat} (hk : 0 < k)
    (hkn : k < n) : byteOf (withFront c v) k = byteOf v k := by
  apply BitVec.eq_of_getLsbD_eq
  intro i hi
  rw [getLsbD_byteOf _ _ hi, getLsbD_byteOf _ _ hi, getLsbD_withFront c v (by omega),
    if_neg (by omega)]

/-- The first byte by way of a mask. -/
theorem and_eq_setWidth_iff (hn : 0 < n) (c : BitVec 8) (v : BitVec (8 * n)) :
    v &&& (BitVec.allOnes 8).setWidth (8 * n) = c.setWidth (8 * n) ↔ byteOf v 0 = c := by
  have hlow : v &&& (BitVec.allOnes 8).setWidth (8 * n) = (byteOf v 0).setWidth (8 * n) := by
    apply BitVec.eq_of_getLsbD_eq
    intro i hi
    simp only [byteOf, BitVec.getLsbD_and, BitVec.getLsbD_setWidth, BitVec.getLsbD_allOnes,
      BitVec.getLsbD_extractLsb', Nat.mul_zero, Nat.zero_add, hi, decide_true, Bool.true_and]
    exact Bool.and_comm _ _
  rw [hlow]
  constructor
  · intro h
    refine BitVec.eq_of_toNat_eq ?_
    have hnat := congrArg BitVec.toNat h
    rw [BitVec.toNat_setWidth_of_le (by omega), BitVec.toNat_setWidth_of_le (by omega)] at hnat
    exact hnat
  · intro h
    rw [h]

namespace Bytes

def readWord (m : Bytes w) : (n : Nat) → BitVec w → BitVec (8 * n)
  | 0, _ => 0#0
  | n + 1, a => m.readWord n (a + 1) ++ m a

/-- `b` is one of the `n` bytes from `a` on. -/
def Within (n : Nat) (a b : BitVec w) : Prop := (b - a).toNat < n

instance (n : Nat) (a b : BitVec w) : Decidable (Within n a b) :=
  inferInstanceAs (Decidable (_ < _))

def writeWord (m : Bytes w) (a : BitVec w) (v : BitVec (8 * n)) : Bytes w :=
  fun b => if Within n a b then byteOf v (b - a).toNat else m b

theorem byteOf_readWord (m : Bytes w) {k : Nat} (hk : k < n) (a : BitVec w) :
    byteOf (m.readWord n a) k = m (a + BitVec.ofNat w k) := by
  induction n generalizing a k with
  | zero => exact absurd hk (Nat.not_lt_zero k)
  | succ n ih =>
      cases k with
      | zero =>
          rw [show BitVec.ofNat w 0 = 0#w from rfl, BitVec.add_zero]
          apply BitVec.eq_of_getLsbD_eq
          intro i hi
          simp [byteOf, readWord, BitVec.getLsbD_append, hi]
      | succ k =>
          have hk : k < n := Nat.lt_of_succ_lt_succ hk
          have hnext : a + 1 + BitVec.ofNat w k = a + BitVec.ofNat w (k + 1) := by
            rw [BitVec.ofNat_add, BitVec.add_assoc, BitVec.add_comm (BitVec.ofNat w k)]
            rfl
          rw [← hnext, ← ih hk (a + 1)]
          apply BitVec.eq_of_getLsbD_eq
          intro i hi
          have hlow : ¬ 8 * (k + 1) + i < 8 := by omega
          have hbit : 8 * (k + 1) + i - 8 = 8 * k + i := by omega
          simp [byteOf, readWord, BitVec.getLsbD_append, hi, hlow, hbit]

theorem writeWord_of_within {m : Bytes w} {a b : BitVec w} {v : BitVec (8 * n)}
    (h : Within n a b) : m.writeWord a v b = byteOf v (b - a).toNat :=
  if_pos h

theorem writeWord_of_not_within {m : Bytes w} {a b : BitVec w} {v : BitVec (8 * n)}
    (h : ¬ Within n a b) : m.writeWord a v b = m b :=
  if_neg h

/-- Byte `b` of a word read at `a`. -/
theorem byteOf_readWord_sub (m : Bytes w) {a b : BitVec w} (h : Within n a b) :
    byteOf (m.readWord n a) (b - a).toNat = m b := by
  rw [byteOf_readWord m h, BitVec.ofNat_toNat, BitVec.setWidth_eq, BitVec.add_comm,
    BitVec.sub_add_cancel]

theorem within_self (hn : 0 < n) (a : BitVec w) : Within n a a := by
  rw [Within, BitVec.sub_self]
  exact hn

theorem eq_of_toNat_sub {a b : BitVec w} (h : (b - a).toNat = 0) : b = a := by
  have hsub : b - a = 0 := BitVec.eq_of_toNat_eq (by simpa using h)
  rw [← BitVec.sub_add_cancel b a, hsub]
  simp

theorem toNat_offset (a : BitVec w) {k : Nat} (hk : k < 2 ^ w) :
    (a + BitVec.ofNat w k - a).toNat = k := by
  rw [BitVec.add_comm, BitVec.add_sub_cancel, BitVec.toNat_ofNat, Nat.mod_eq_of_lt hk]

/-- `b` is in the window of `a` exactly if it is `a + k` for some `k < n`. -/
theorem within_iff_exists {a b : BitVec w} :
    Within n a b ↔ ∃ k < n, b = a + BitVec.ofNat w k := by
  constructor
  · intro h
    refine ⟨(b - a).toNat, h, ?_⟩
    rw [BitVec.ofNat_toNat, BitVec.setWidth_eq, BitVec.add_comm, BitVec.sub_add_cancel]
  · rintro ⟨k, hk, rfl⟩
    rw [Within, BitVec.add_comm, BitVec.add_sub_cancel, BitVec.toNat_ofNat]
    exact lt_of_le_of_lt (Nat.mod_le _ _) hk

/-- Two memories with the same bytes, at one address and at another, have the
same word there. -/
theorem readWord_eq_of_forall {m m' : Bytes w} {a a' : BitVec w}
    (h : ∀ k < n, m (a + BitVec.ofNat w k) = m' (a' + BitVec.ofNat w k)) :
    m.readWord n a = m'.readWord n a' := by
  induction n generalizing a a' with
  | zero => rfl
  | succ n ih =>
      have hzero := h 0 (Nat.succ_pos n)
      rw [show BitVec.ofNat w 0 = 0#w from rfl, BitVec.add_zero, BitVec.add_zero] at hzero
      rw [readWord, readWord, hzero]
      congr 1
      apply ih
      intro k hk
      have hnext := h (k + 1) (Nat.succ_lt_succ hk)
      rw [BitVec.ofNat_add, BitVec.add_comm (BitVec.ofNat w k), ← BitVec.add_assoc,
        ← BitVec.add_assoc] at hnext
      exact hnext

/-- A word depends on its own bytes only. -/
theorem readWord_congr {m m' : Bytes w} {a : BitVec w}
    (h : ∀ b, Within n a b → m b = m' b) : m.readWord n a = m'.readWord n a := by
  apply readWord_eq_of_forall
  intro k hk
  exact h _ (within_iff_exists.mpr ⟨k, hk, rfl⟩)

/-- The first `k` bytes of a word. -/
theorem setWidth_readWord (m : Bytes w) {k : Nat} (hk : k ≤ n) (a : BitVec w) :
    (m.readWord n a).setWidth (8 * k) = m.readWord k a := by
  apply eq_of_byteOf_eq
  intro i hi
  have hbyte : byteOf ((m.readWord n a).setWidth (8 * k)) i = byteOf (m.readWord n a) i := by
    apply BitVec.eq_of_getLsbD_eq
    intro j hj
    have hjk : 8 * i + j < 8 * k := by omega
    rw [getLsbD_byteOf _ _ hj, getLsbD_byteOf _ _ hj, BitVec.getLsbD_setWidth,
      decide_eq_true hjk, Bool.true_and]
  rw [hbyte, byteOf_readWord m (by omega), byteOf_readWord m hi]

/-- The bytes of a word from the `k`th on. -/
theorem extract_readWord (m : Bytes w) {k l : Nat} (hk : k + l ≤ n) (a : BitVec w) :
    (m.readWord n a).extractLsb' (8 * k) (8 * l) = m.readWord l (a + BitVec.ofNat w k) := by
  apply eq_of_byteOf_eq
  intro i hi
  have hbyte : byteOf ((m.readWord n a).extractLsb' (8 * k) (8 * l)) i =
      byteOf (m.readWord n a) (k + i) := by
    apply BitVec.eq_of_getLsbD_eq
    intro j hj
    have hjl : 8 * i + j < 8 * l := by omega
    rw [getLsbD_byteOf _ _ hj, getLsbD_byteOf _ _ hj, BitVec.getLsbD_extractLsb',
      decide_eq_true hjl, Bool.true_and, Nat.mul_add, Nat.add_assoc]
  rw [hbyte, byteOf_readWord m (by omega), byteOf_readWord m hi, BitVec.ofNat_add,
    BitVec.add_assoc]

/-- A word that has been written is read again, if it does not reach around. -/
theorem readWord_writeWord (m : Bytes w) (hn : n ≤ 2 ^ w) (a : BitVec w) (v : BitVec (8 * n)) :
    (m.writeWord a v).readWord n a = v := by
  apply eq_of_byteOf_eq
  intro k hk
  have hin : Within n a (a + BitVec.ofNat w k) := within_iff_exists.mpr ⟨k, hk, rfl⟩
  rw [byteOf_readWord _ hk, writeWord_of_within hin, toNat_offset a (by omega)]

/-- Writing back what was there before. -/
theorem writeWord_restore (m : Bytes w) (a : BitVec w) (v : BitVec (8 * n)) :
    (m.writeWord a v).writeWord a (m.readWord n a) = m := by
  funext b
  by_cases hb : Within n a b
  · rw [writeWord_of_within hb, byteOf_readWord_sub m hb]
  · rw [writeWord_of_not_within hb, writeWord_of_not_within hb]

/-- The first byte of a word. -/
theorem byteOf_readWord_zero (m : Bytes w) (hn : 0 < n) (a : BitVec w) :
    byteOf (m.readWord n a) 0 = m a := by
  have h := byteOf_readWord_sub m (within_self hn a)
  rwa [BitVec.sub_self] at h

end Bytes

/-! ## Planted bytes -/

open Classical in
/-- `m` with the byte `c` planted at every address of `A`. -/
noncomputable def planted (m : Bytes w) (c : BitVec 8) (A : Set (BitVec w)) : Bytes w :=
  fun b => if b ∈ A then c else m b

section Planted

variable {m : Bytes w} {c : BitVec 8} {A B C : Set (BitVec w)} {a b : BitVec w}

theorem planted_of_mem (h : b ∈ A) : planted m c A b = c := if_pos h

theorem planted_of_notMem (h : b ∉ A) : planted m c A b = m b := if_neg h

theorem planted_empty : planted m c ∅ = m := by
  funext b
  exact planted_of_notMem (Set.notMem_empty b)

theorem planted_congr_at (h : b ∈ A ↔ b ∈ B) : planted m c A b = planted m c B b := by
  by_cases hb : b ∈ A
  · rw [planted_of_mem hb, planted_of_mem (h.mp hb)]
  · rw [planted_of_notMem hb, planted_of_notMem fun hB => hb (h.mpr hB)]

/-- Planted bytes do not show where the memory has them already. -/
theorem planted_eq_self_iff : planted m c A = m ↔ ∀ b ∈ A, m b = c := by
  constructor
  · intro h b hb
    rw [← congrFun h b, planted_of_mem hb]
  · intro h
    funext b
    by_cases hb : b ∈ A
    · rw [planted_of_mem hb, h b hb]
    · rw [planted_of_notMem hb]

/-- **Writing back a saved word.** -/
theorem planted_restore (hin : ∀ b, Bytes.Within n a b → (b ∈ C ↔ b ∈ B))
    (hout : ∀ b, ¬ Bytes.Within n a b → (b ∈ C ↔ b ∈ A)) :
    (planted m c A).writeWord a ((planted m c B).readWord n a) = planted m c C := by
  funext b
  by_cases hb : Bytes.Within n a b
  · rw [Bytes.writeWord_of_within hb, Bytes.byteOf_readWord_sub _ hb]
    exact planted_congr_at (hin b hb).symm
  · rw [Bytes.writeWord_of_not_within hb]
    exact planted_congr_at (hout b hb).symm

/-- **Writing back a saved word with the trap byte in front.** -/
theorem planted_arm {v : BitVec (8 * n)} (hn : 0 < n) (hv0 : byteOf v 0 = c)
    (hv : ∀ k, 0 < k → k < n → byteOf v k = byteOf ((planted m c B).readWord n a) k)
    (ha : a ∈ C) (hin : ∀ b, b ≠ a → Bytes.Within n a b → (b ∈ C ↔ b ∈ B))
    (hout : ∀ b, ¬ Bytes.Within n a b → (b ∈ C ↔ b ∈ A)) :
    (planted m c A).writeWord a v = planted m c C := by
  funext b
  by_cases hba : b = a
  · subst hba
    rw [Bytes.writeWord_of_within (Bytes.within_self hn b), BitVec.sub_self, planted_of_mem ha]
    exact hv0
  by_cases hb : Bytes.Within n a b
  · have hpos : 0 < (b - a).toNat :=
      Nat.pos_of_ne_zero fun h0 => hba (Bytes.eq_of_toNat_sub h0)
    rw [Bytes.writeWord_of_within hb, hv _ hpos hb, Bytes.byteOf_readWord_sub _ hb]
    exact planted_congr_at (hin b hba hb).symm
  · rw [Bytes.writeWord_of_not_within hb]
    exact planted_congr_at (hout b hb).symm

end Planted

/-! ## Bytes planted at some of the addresses -/

/-- `m'` is `m` with the byte `c` at some of the addresses `A`. -/
def Sown (m : Bytes w) (c : BitVec 8) (A : Set (BitVec w)) (m' : Bytes w) : Prop :=
  ∀ b, m' b = m b ∨ (b ∈ A ∧ m' b = c)

section Sown

variable {m m' m'' : Bytes w} {c : BitVec 8} {A B C : Set (BitVec w)} {a : BitVec w}

theorem Sown.refl (m : Bytes w) (c : BitVec 8) (A : Set (BitVec w)) : Sown m c A m :=
  fun _ => Or.inl rfl

/-- **Writing back a word** that was read in another such memory. -/
theorem Sown.restore (h : Sown m c A m') (h' : Sown m c B m'')
    (hin : ∀ b, Bytes.Within n a b → b ∈ B → b ∈ C)
    (hout : ∀ b, ¬ Bytes.Within n a b → b ∈ A → b ∈ C) :
    Sown m c C (m'.writeWord a (m''.readWord n a)) := by
  intro b
  by_cases hb : Bytes.Within n a b
  · rw [Bytes.writeWord_of_within hb, Bytes.byteOf_readWord_sub _ hb]
    exact (h' b).imp_right fun hsown => ⟨hin b hb hsown.1, hsown.2⟩
  · rw [Bytes.writeWord_of_not_within hb]
    exact (h b).imp_right fun hsown => ⟨hout b hb hsown.1, hsown.2⟩

/-- **Writing back such a word with the byte `c` in front.** -/
theorem Sown.arm {v : BitVec (8 * n)} (h : Sown m c A m') (h' : Sown m c B m'')
    (hv0 : byteOf v 0 = c)
    (hv : ∀ k, 0 < k → k < n → byteOf v k = byteOf (m''.readWord n a) k) (ha : a ∈ C)
    (hin : ∀ b, Bytes.Within n a b → b ∈ B → b ∈ C)
    (hout : ∀ b, ¬ Bytes.Within n a b → b ∈ A → b ∈ C) : Sown m c C (m'.writeWord a v) := by
  intro b
  by_cases hb : Bytes.Within n a b
  · rw [Bytes.writeWord_of_within hb]
    by_cases hzero : (b - a).toNat = 0
    · rw [hzero, hv0]
      exact Or.inr ⟨Bytes.eq_of_toNat_sub hzero ▸ ha, rfl⟩
    · rw [hv _ (Nat.pos_of_ne_zero hzero) hb, Bytes.byteOf_readWord_sub _ hb]
      exact (h' b).imp_right fun hsown => ⟨hin b hb hsown.1, hsown.2⟩
  · rw [Bytes.writeWord_of_not_within hb]
    exact (h b).imp_right fun hsown => ⟨hout b hb hsown.1, hsown.2⟩

end Sown

end Framework
