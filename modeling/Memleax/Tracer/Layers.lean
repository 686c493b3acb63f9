import Memleax.Tracer.MapSections

/-!
# The other machines

`machines.h`, `ptrace_utils.h` and the request to `ptrace` in `_ptr_access_mem` for
every platform: x86, x86_64, ARMv7 and AArch64 on Linux, i386 and amd64 on FreeBSD.
All of them are little-endian.

A request moves a `long` on Linux, which has the size of a pointer, and an `int` on
FreeBSD. On AArch64 the trap instruction is half of a `long`, and the other half is
written too (`breakpoint_iff`); on amd64 a pointer takes two reads, of which only
`_ptr_access_mem` makes both (`readers_agree_iff`).
-/

namespace Memleax

open Framework

/-! ## The memory of a target -/

/-- The bytes of a target, and the addresses at which it has any. -/
structure Target (w : Nat) where
  bytes : Bytes w
  mapped : BitVec w → Bool

namespace Target

variable {w n : Nat} (t : Target w)

/-- All of the `n` bytes at `a` are there. -/
def Reaches (n : Nat) (a : BitVec w) : Prop := ∀ k < n, t.mapped (a + BitVec.ofNat w k) = true

instance (n : Nat) (a : BitVec w) : Decidable (t.Reaches n a) :=
  inferInstanceAs (Decidable (∀ k < n, _))

def peek (n : Nat) (a : BitVec w) : Option (BitVec (8 * n)) :=
  if t.Reaches n a then some (t.bytes.readWord n a) else none

/-- What has been written before a byte is missing stays written. -/
def poke (a : BitVec w) (v : BitVec (8 * n)) : Target w :=
  { t with bytes := fun b =>
      if t.Reaches ((b - a).toNat + 1) a then t.bytes.writeWord a v b else t.bytes b }

end Target

/-! ## `ptrace_utils.h` -/

section Requests

variable {p : Nat} (t : Target (8 * p)) (address : BitVec (8 * p))

/-- A pointer has `p` bytes, and so has a `long`. A request that fails returns `-1`. -/
def Linux.ptraceGetData : BitVec (8 * p) := (t.peek p address).getD (-1)

def Linux.ptraceSetData (data : BitVec (8 * p)) : Target (8 * p) := t.poke address data

def Freebsd.ptraceGetData : CInt := (t.peek 4 address).getD (-1)

def Freebsd.ptraceSetData (data : CInt) : Target (8 * p) := t.poke (n := 4) address data

end Requests

/-! ## `machines.h` -/

/-- What the header files are on one platform. The word that `ptrace_get_data` returns
is taken as a `uintptr_t`. -/
structure Layer where
  /-- the bytes of a pointer -/
  pointer : Nat
  /-- the bytes of the trap instruction -/
  trapLength : Nat
  ptraceGetData : Target (8 * pointer) → BitVec (8 * pointer) → BitVec (8 * pointer)
  ptraceSetData :
    Target (8 * pointer) → BitVec (8 * pointer) → BitVec (8 * pointer) → Target (8 * pointer)
  setBreakpoint :
    Target (8 * pointer) → BitVec (8 * pointer) → BitVec (8 * pointer) → Target (8 * pointer)
  isBreakpoint : Target (8 * pointer) → BitVec (8 * pointer) → Bool

def Layer.x86 : Layer where
  pointer := 4
  trapLength := 1
  ptraceGetData := Linux.ptraceGetData
  ptraceSetData := Linux.ptraceSetData
  setBreakpoint t address code := Linux.ptraceSetData t address ((code &&& 0xFFFFFF00) ||| 0xCC)
  isBreakpoint t address := Linux.ptraceGetData t address &&& 0xFF == 0xCC

def Layer.x8664 : Layer where
  pointer := 8
  trapLength := 1
  ptraceGetData := Linux.ptraceGetData
  ptraceSetData := Linux.ptraceSetData
  setBreakpoint t address code :=
    Linux.ptraceSetData t address ((code &&& 0xFFFFFFFFFFFFFF00) ||| 0xCC)
  isBreakpoint t address := Linux.ptraceGetData t address &&& 0xFF == 0xCC

def Layer.armv7 : Layer where
  pointer := 4
  trapLength := 4
  ptraceGetData := Linux.ptraceGetData
  ptraceSetData := Linux.ptraceSetData
  setBreakpoint t address _ := Linux.ptraceSetData t address 0xE7F001F0
  isBreakpoint t address := Linux.ptraceGetData t address == 0xE7F001F0

def Layer.aarch64 : Layer where
  pointer := 8
  trapLength := 4
  ptraceGetData := Linux.ptraceGetData
  ptraceSetData := Linux.ptraceSetData
  setBreakpoint t address _ := Linux.ptraceSetData t address 0xd4200000
  isBreakpoint t address := Linux.ptraceGetData t address == 0xd4200000

def Layer.freebsdI386 : Layer where
  pointer := 4
  trapLength := 1
  ptraceGetData := Freebsd.ptraceGetData
  ptraceSetData := Freebsd.ptraceSetData
  setBreakpoint t address code := Freebsd.ptraceSetData t address ((code &&& 0xFFFFFF00) ||| 0xCC)
  isBreakpoint t address := Freebsd.ptraceGetData t address &&& 0xFF == 0xCC

def Layer.freebsdAmd64 : Layer where
  pointer := 8
  trapLength := 1
  ptraceGetData t address := (Freebsd.ptraceGetData t address).signExtend 64
  ptraceSetData t address data := Freebsd.ptraceSetData t address (data.setWidth 32)
  setBreakpoint t address code :=
    Freebsd.ptraceSetData t address (((code &&& 0xFFFFFF00) ||| 0xCC).setWidth 32)
  isBreakpoint t address := Freebsd.ptraceGetData t address &&& 0xFF == 0xCC

inductive Platform where
  | x86
  | x8664
  | armv7
  | aarch64
  | freebsdI386
  | freebsdAmd64
deriving DecidableEq, Repr

def Platform.layer : Platform → Layer
  | .x86 => .x86
  | .x8664 => .x8664
  | .armv7 => .armv7
  | .aarch64 => .aarch64
  | .freebsdI386 => .freebsdI386
  | .freebsdAmd64 => .freebsdAmd64

/-! ## A breakpoint -/

/-- A breakpoint at `address` touches the trap instruction only, is one, and can be
undone. -/
structure Layer.BreakpointRight (l : Layer) (t : Target (8 * l.pointer))
    (address : BitVec (8 * l.pointer)) : Prop where
  frame : ∀ b, ¬ Bytes.Within l.trapLength address b →
    (l.setBreakpoint t address (l.ptraceGetData t address)).bytes b = t.bytes b
  trap : l.isBreakpoint (l.setBreakpoint t address (l.ptraceGetData t address)) address = true
  restore : l.ptraceSetData (l.setBreakpoint t address (l.ptraceGetData t address)) address
    (l.ptraceGetData t address) = t

/-- The bytes that `ptrace` moves at once. -/
def Platform.word : Platform → Nat
  | .x86 => 4
  | .x8664 => 8
  | .armv7 => 4
  | .aarch64 => 8
  | .freebsdI386 => 4
  | .freebsdAmd64 => 4

section Memory

variable {w n : Nat} {t : Target w} {a : BitVec w}

theorem Target.peek_of_reaches (h : t.Reaches n a) : t.peek n a = some (t.bytes.readWord n a) :=
  if_pos h

theorem Target.peek_of_not_reaches (h : ¬ t.Reaches n a) : t.peek n a = none := if_neg h

theorem Target.peek_eq_some_iff {v : BitVec (8 * n)} :
    t.peek n a = some v ↔ t.Reaches n a ∧ t.bytes.readWord n a = v := by
  by_cases h : t.Reaches n a
  · simp [Target.peek_of_reaches h, h]
  · simp [Target.peek_of_not_reaches h, h]

/-- A word and the one behind it. -/
theorem Target.reaches_add_iff {k : Nat} :
    t.Reaches (n + k) a ↔ t.Reaches n a ∧ t.Reaches k (a + BitVec.ofNat w n) := by
  constructor
  · intro h
    refine ⟨fun i hi => h i (by omega), ?_⟩
    intro i hi
    rw [BitVec.add_assoc, ← BitVec.ofNat_add]
    exact h (n + i) (by omega)
  · rintro ⟨hfirst, hsecond⟩ i hi
    by_cases hin : i < n
    · exact hfirst i hin
    · have hi' := hsecond (i - n) (by omega)
      rwa [BitVec.add_assoc, ← BitVec.ofNat_add, Nat.add_sub_cancel' (by omega)] at hi'

theorem Target.poke_bytes_of_not_within {v : BitVec (8 * n)} {b : BitVec w}
    (hb : ¬ Bytes.Within n a b) : (t.poke a v).bytes b = t.bytes b := by
  show (if _ then t.bytes.writeWord a v b else t.bytes b) = _
  rw [Bytes.writeWord_of_not_within hb, ite_self]

theorem Target.poke_of_reaches (h : t.Reaches n a) (v : BitVec (8 * n)) :
    t.poke a v = { t with bytes := t.bytes.writeWord a v } := by
  have hbytes : (t.poke a v).bytes = t.bytes.writeWord a v := by
    funext b
    by_cases hb : Bytes.Within n a b
    · have hreaches : t.Reaches ((b - a).toNat + 1) a := by
        intro k hk
        exact h k (lt_of_lt_of_le hk hb)
      exact if_pos hreaches
    · rw [Target.poke_bytes_of_not_within hb, Bytes.writeWord_of_not_within hb]
  rw [← hbytes]
  rfl

/-- Writing maps nothing. -/
theorem Target.reaches_poke {v : BitVec (8 * n)} {m : Nat} {b : BitVec w} :
    (t.poke a v).Reaches m b ↔ t.Reaches m b :=
  Iff.rfl

theorem Target.peek_poke (h : t.Reaches n a) (hn : n ≤ 2 ^ w) (v : BitVec (8 * n)) :
    (t.poke a v).peek n a = some v := by
  rw [Target.peek_of_reaches (Target.reaches_poke.mpr h), Target.poke_of_reaches h,
    Bytes.readWord_writeWord t.bytes hn]

theorem Target.poke_restore (h : t.Reaches n a) (v : BitVec (8 * n)) :
    (t.poke a v).poke a (t.bytes.readWord n a) = t := by
  rw [Target.poke_of_reaches (Target.reaches_poke.mpr h), Target.poke_of_reaches h,
    Bytes.writeWord_restore]

/-- A word of which only the first byte is new. -/
theorem Target.poke_withFront_bytes (h : t.Reaches n a) (c : BitVec 8) {b : BitVec w}
    (hb : ¬ Bytes.Within 1 a b) :
    (t.poke a (withFront c (t.bytes.readWord n a))).bytes b = t.bytes b := by
  rw [Target.poke_of_reaches h]
  by_cases hin : Bytes.Within n a b
  · have hpos : 0 < (b - a).toNat := by
      rw [Bytes.Within] at hb
      omega
    show t.bytes.writeWord a _ b = _
    rw [Bytes.writeWord_of_within hin, byteOf_withFront_of_pos c _ hpos hin,
      Bytes.byteOf_readWord_sub _ hin]
  · exact Bytes.writeWord_of_not_within hin

end Memory

section Right

variable {l : Layer} {n : Nat} {t : Target (8 * l.pointer)} {address : BitVec (8 * l.pointer)}

/-- A platform on which the trap instruction is the first byte of a word of `n` bytes. -/
theorem Layer.breakpointRight_of_front (hn : n ≤ 2 ^ (8 * l.pointer)) (hpos : 0 < n)
    (hlength : l.trapLength = 1) (h : t.Reaches n address)
    (hset : l.setBreakpoint t address (l.ptraceGetData t address) =
      t.poke address (withFront trapByte (t.bytes.readWord n address)))
    (htrap : ∀ t' v, t'.peek n address = some v → byteOf v 0 = trapByte →
      l.isBreakpoint t' address = true)
    (hrestore : ∀ t', l.ptraceSetData t' address (l.ptraceGetData t address) =
      t'.poke address (t.bytes.readWord n address)) : l.BreakpointRight t address := by
  constructor
  · intro b hb
    rw [hlength] at hb
    rw [hset, Target.poke_withFront_bytes h trapByte hb]
  · rw [hset]
    exact htrap _ _ (Target.peek_poke h hn _) (byteOf_withFront_zero hpos trapByte _)
  · rw [hrestore, hset, Target.poke_restore h]

/-- A platform on which a breakpoint is a word of `n` bytes: the instruction and what
comes with it. -/
theorem Layer.breakpointRight_iff_of_word (hn : n ≤ 2 ^ (8 * l.pointer)) {v : BitVec (8 * n)}
    (h : t.Reaches n address)
    (hset : l.setBreakpoint t address (l.ptraceGetData t address) = t.poke address v)
    (htrap : ∀ t', t'.peek n address = some v → l.isBreakpoint t' address = true)
    (hrestore : ∀ t', l.ptraceSetData t' address (l.ptraceGetData t address) =
      t'.poke address (t.bytes.readWord n address)) :
    l.BreakpointRight t address ↔ ∀ k, l.trapLength ≤ k → k < n →
      t.bytes (address + BitVec.ofNat _ k) = byteOf v k := by
  have hoffset {k : Nat} (hk : k < n) :
      (address + BitVec.ofNat (8 * l.pointer) k - address).toNat = k :=
    Bytes.toNat_offset address (by omega)
  constructor
  · intro hright k hk hkn
    have hin : Bytes.Within n address (address + BitVec.ofNat _ k) :=
      Bytes.within_iff_exists.mpr ⟨k, hkn, rfl⟩
    have hout : ¬ Bytes.Within l.trapLength address (address + BitVec.ofNat _ k) := by
      rw [Bytes.Within, hoffset hkn]
      omega
    have hframe := hright.frame _ hout
    rw [hset, Target.poke_of_reaches h] at hframe
    rw [← hframe]
    show t.bytes.writeWord address v _ = _
    rw [Bytes.writeWord_of_within hin, hoffset hkn]
  · intro hrest
    constructor
    · intro b hb
      rw [hset]
      by_cases hin : Bytes.Within n address b
      · obtain ⟨k, hkn, rfl⟩ := Bytes.within_iff_exists.mp hin
        rw [Bytes.Within, hoffset hkn, Nat.not_lt] at hb
        rw [Target.poke_of_reaches h, hrest k hb hkn]
        show t.bytes.writeWord address v _ = _
        rw [Bytes.writeWord_of_within hin, hoffset hkn]
      · exact Target.poke_bytes_of_not_within hin
    · rw [hset]
      exact htrap _ (Target.peek_poke h hn v)
    · rw [hrestore, hset, Target.poke_restore h]

end Right

/-! ## The platforms -/

theorem trapWord_eq (code : BitVec 32) :
    (code &&& 0xFFFFFF00) ||| 0xCC = withFront (n := 4) trapByte code := by
  have hmask : (0xFFFFFF00 : BitVec 32) = BitVec.allOnes 32 <<< 8 := by decide
  have htrap : (0xCC : BitVec 32) = trapByte.setWidth 32 := by decide
  rw [hmask, htrap]
  rfl

theorem trapWordTest_iff (v : BitVec 32) : v &&& 0xFF = 0xCC ↔ byteOf (n := 4) v 0 = trapByte := by
  have hmask : (0xFF : BitVec 32) = (BitVec.allOnes 8).setWidth 32 := by decide
  have htrap : (0xCC : BitVec 32) = trapByte.setWidth 32 := by decide
  rw [hmask, htrap]
  exact and_eq_setWidth_iff (n := 4) (by decide) trapByte v

theorem Linux.ptraceGetData_of_reaches {p : Nat} {t : Target (8 * p)} {address : BitVec (8 * p)}
    (h : t.Reaches p address) : Linux.ptraceGetData t address = t.bytes.readWord p address := by
  rw [Linux.ptraceGetData, Target.peek_of_reaches h, Option.getD_some]

theorem Freebsd.ptraceGetData_of_reaches {p : Nat} {t : Target (8 * p)} {address : BitVec (8 * p)}
    (h : t.Reaches 4 address) : Freebsd.ptraceGetData t address = t.bytes.readWord 4 address := by
  rw [Freebsd.ptraceGetData, Target.peek_of_reaches h, Option.getD_some]

theorem Linux.ptraceGetData_of_not_reaches {p : Nat} {t : Target (8 * p)}
    {address : BitVec (8 * p)} (h : ¬ t.Reaches p address) : Linux.ptraceGetData t address = -1 := by
  rw [Linux.ptraceGetData, Target.peek_of_not_reaches h, Option.getD_none]

theorem Freebsd.ptraceGetData_of_not_reaches {p : Nat} {t : Target (8 * p)}
    {address : BitVec (8 * p)} (h : ¬ t.Reaches 4 address) :
    Freebsd.ptraceGetData t address = -1 := by
  rw [Freebsd.ptraceGetData, Target.peek_of_not_reaches h, Option.getD_none]

/-- The word at an address of which some byte is missing is no breakpoint. -/
theorem Platform.reaches_of_isBreakpoint (p : Platform) {t : Target (8 * p.layer.pointer)}
    {address : BitVec (8 * p.layer.pointer)} (h : p.layer.isBreakpoint t address = true) :
    t.Reaches p.word address := by
  by_contra hnot
  cases p with
  | x86 =>
      have hget : Linux.ptraceGetData (p := 4) t address = -1 :=
        Linux.ptraceGetData_of_not_reaches hnot
      have htest : (-1 : BitVec 32) &&& 0xFF = 0xCC :=
        (congrArg (· &&& 0xFF) hget).symm.trans (eq_of_beq h)
      exact absurd htest (by decide)
  | x8664 =>
      have hget : Linux.ptraceGetData (p := 8) t address = -1 :=
        Linux.ptraceGetData_of_not_reaches hnot
      have htest : (-1 : BitVec 64) &&& 0xFF = 0xCC :=
        (congrArg (· &&& 0xFF) hget).symm.trans (eq_of_beq h)
      exact absurd htest (by decide)
  | armv7 =>
      have hget : Linux.ptraceGetData (p := 4) t address = -1 :=
        Linux.ptraceGetData_of_not_reaches hnot
      have htest : (-1 : BitVec 32) = 0xE7F001F0 := hget.symm.trans (eq_of_beq h)
      exact absurd htest (by decide)
  | aarch64 =>
      have hget : Linux.ptraceGetData (p := 8) t address = -1 :=
        Linux.ptraceGetData_of_not_reaches hnot
      have htest : (-1 : BitVec 64) = 0xd4200000 := hget.symm.trans (eq_of_beq h)
      exact absurd htest (by decide)
  | freebsdI386 =>
      have hget : Freebsd.ptraceGetData (p := 4) t address = -1 :=
        Freebsd.ptraceGetData_of_not_reaches hnot
      have htest : (-1 : BitVec 32) &&& 0xFF = 0xCC :=
        (congrArg (· &&& 0xFF) hget).symm.trans (eq_of_beq h)
      exact absurd htest (by decide)
  | freebsdAmd64 =>
      have hget : Freebsd.ptraceGetData (p := 8) t address = -1 :=
        Freebsd.ptraceGetData_of_not_reaches hnot
      have htest : (-1 : BitVec 32) &&& 0xFF = 0xCC :=
        (congrArg (· &&& 0xFF) hget).symm.trans (eq_of_beq h)
      exact absurd htest (by decide)

theorem Platform.reaches_setBreakpoint (p : Platform) {t : Target (8 * p.layer.pointer)}
    {address code b : BitVec (8 * p.layer.pointer)} {n : Nat} :
    (p.layer.setBreakpoint t address code).Reaches n b ↔ t.Reaches n b := by
  cases p with
  | x86 | x8664 | armv7 | aarch64 | freebsdI386 | freebsdAmd64 => exact Iff.rfl

theorem Platform.right_x86 {t : Target 32} {address : BitVec 32} (h : t.Reaches 4 address) :
    Layer.x86.BreakpointRight t address := by
  have hget : Layer.x86.ptraceGetData t address = t.bytes.readWord 4 address :=
    Linux.ptraceGetData_of_reaches h
  refine Layer.breakpointRight_of_front (l := .x86) (n := 4) (by decide) (by decide) rfl h ?_ ?_ ?_
  · rw [hget]
    exact congrArg (t.poke address) (trapWord_eq _)
  · intro t' v hv hzero
    have hget' : Linux.ptraceGetData (p := 4) t' address = v := congrArg (Option.getD · _) hv
    exact beq_iff_eq.mpr (by rw [hget']; exact (trapWordTest_iff v).mpr hzero)
  · intro t'
    rw [hget]
    rfl

theorem Platform.right_x8664 {t : Target 64} {address : Word} (h : t.Reaches 8 address) :
    Layer.x8664.BreakpointRight t address := by
  have hget : Layer.x8664.ptraceGetData t address = t.bytes.readWord 8 address :=
    Linux.ptraceGetData_of_reaches h
  refine Layer.breakpointRight_of_front (l := .x8664) (n := 8) (by decide) (by decide) rfl h ?_ ?_ ?_
  · rw [hget]
    exact congrArg (t.poke address) (trapCode_eq _)
  · intro t' v hv hzero
    have hget' : Linux.ptraceGetData (p := 8) t' address = v := congrArg (Option.getD · _) hv
    exact beq_iff_eq.mpr (by rw [hget']; exact (trapTest_iff v).mpr hzero)
  · intro t'
    rw [hget]
    rfl

theorem Platform.right_freebsdI386 {t : Target 32} {address : BitVec 32}
    (h : t.Reaches 4 address) : Layer.freebsdI386.BreakpointRight t address := by
  have hget : Layer.freebsdI386.ptraceGetData t address = t.bytes.readWord 4 address :=
    Freebsd.ptraceGetData_of_reaches (p := 4) h
  refine Layer.breakpointRight_of_front (l := .freebsdI386) (n := 4) (by decide) (by decide) rfl h
    ?_ ?_ ?_
  · rw [hget]
    exact congrArg (t.poke address) (trapWord_eq _)
  · intro t' v hv hzero
    have hget' : Freebsd.ptraceGetData (p := 4) t' address = v := congrArg (Option.getD · _) hv
    exact beq_iff_eq.mpr (by rw [hget']; exact (trapWordTest_iff v).mpr hzero)
  · intro t'
    rw [hget]
    rfl

/-- The upper half of the word is lost again on the way to `ptrace`. -/
theorem Platform.right_freebsdAmd64 {t : Target 64} {address : Word} (h : t.Reaches 4 address) :
    Layer.freebsdAmd64.BreakpointRight t address := by
  have hget : Layer.freebsdAmd64.ptraceGetData t address =
      (t.bytes.readWord 4 address).signExtend 64 :=
    congrArg (BitVec.signExtend 64) (Freebsd.ptraceGetData_of_reaches (p := 8) h)
  refine Layer.breakpointRight_of_front (l := .freebsdAmd64) (n := 4) (by decide) (by decide) rfl h
    ?_ ?_ ?_
  · have hcode : ((((t.bytes.readWord 4 address).signExtend 64 &&& 0xFFFFFF00) ||| 0xCC) :
        BitVec 64).setWidth 32 = withFront (n := 4) trapByte (t.bytes.readWord 4 address) := by
      rw [BitVec.setWidth_or, BitVec.setWidth_and, CInt.setWidth_signExtend]
      exact trapWord_eq _
    rw [hget]
    exact congrArg (t.poke address) hcode
  · intro t' v hv hzero
    have hget' : Freebsd.ptraceGetData (p := 8) t' address = v := congrArg (Option.getD · _) hv
    exact beq_iff_eq.mpr (by rw [hget']; exact (trapWordTest_iff v).mpr hzero)
  · intro t'
    rw [hget]
    exact congrArg (t'.poke address) (CInt.setWidth_signExtend _)

theorem Platform.right_armv7 {t : Target 32} {address : BitVec 32} (h : t.Reaches 4 address) :
    Layer.armv7.BreakpointRight t address := by
  have hget : Layer.armv7.ptraceGetData t address = t.bytes.readWord 4 address :=
    Linux.ptraceGetData_of_reaches h
  refine (Layer.breakpointRight_iff_of_word (l := .armv7) (n := 4) (by decide) (v := 0xE7F001F0) h
    rfl ?_ ?_).mpr ?_
  · intro t' hv
    exact beq_iff_eq.mpr (congrArg (Option.getD · _) hv)
  · intro t'
    rw [hget]
    rfl
  · intro k hk hk4
    exact absurd (lt_of_lt_of_le hk4 hk) (lt_irrefl k)

/-- The instruction is half of the word that is written. -/
theorem Platform.right_aarch64_iff {t : Target 64} {address : Word} (h : t.Reaches 8 address) :
    Layer.aarch64.BreakpointRight t address ↔
      ∀ k, 4 ≤ k → k < 8 → t.bytes (address + BitVec.ofNat 64 k) = 0 := by
  have hget : Layer.aarch64.ptraceGetData t address = t.bytes.readWord 8 address :=
    Linux.ptraceGetData_of_reaches h
  have hzero : ∀ k < 8, 4 ≤ k → byteOf (n := 8) 0xd4200000 k = 0 := by decide
  rw [Layer.breakpointRight_iff_of_word (l := .aarch64) (n := 8) (by decide) (v := 0xd4200000) h
    rfl ?_ ?_]
  · constructor
    · intro hrest k hk hk8
      exact (hrest k hk hk8).trans (hzero k hk8 hk)
    · intro hrest k hk hk8
      exact (hrest k hk hk8).trans (hzero k hk8 hk).symm
  · intro t' hv
    exact beq_iff_eq.mpr (congrArg (Option.getD · _) hv)
  · intro t'
    rw [hget]
    rfl

/-- **A breakpoint touches the trap instruction only**, on every machine but AArch64:
there the bytes behind the instruction have to be zero already. -/
theorem breakpoint_iff (p : Platform) (t : Target (8 * p.layer.pointer))
    (address : BitVec (8 * p.layer.pointer)) :
    p.layer.BreakpointRight t address ↔ t.Reaches p.word address ∧
      (p = .aarch64 → ∀ k, 4 ≤ k → k < 8 → t.bytes (address + BitVec.ofNat _ k) = 0) := by
  constructor
  · intro hright
    have hreaches : t.Reaches p.word address :=
      p.reaches_setBreakpoint.mp (p.reaches_of_isBreakpoint hright.trap)
    refine ⟨hreaches, ?_⟩
    rintro rfl
    exact (Platform.right_aarch64_iff hreaches).mp hright
  · rintro ⟨hreaches, hrest⟩
    cases p with
    | x86 => exact Platform.right_x86 hreaches
    | x8664 => exact Platform.right_x8664 hreaches
    | armv7 => exact Platform.right_armv7 hreaches
    | aarch64 => exact (Platform.right_aarch64_iff hreaches).mpr (hrest rfl)
    | freebsdI386 => exact Platform.right_freebsdI386 hreaches
    | freebsdAmd64 => exact Platform.right_freebsdAmd64 hreaches

/-- Text of nothing but `nop` instructions. -/
def nops : Target 64 where
  bytes a := match a.toNat % 4 with
    | 0 => 0x1f
    | 1 => 0x20
    | 2 => 0x03
    | _ => 0xd5
  mapped _ := true

/-- The instruction behind the breakpoint is gone. -/
theorem breakpoint_clobbers_next :
    ¬ Platform.aarch64.layer.BreakpointRight nops 0x400000 := by
  intro hright
  have hframe := hright.frame 0x400004 (by decide)
  exact absurd hframe (by decide)

/-! ## Two readers -/

section Readers

variable (l : Layer) (t : Target (8 * l.pointer)) (sp : BitVec (8 * l.pointer))

/-- On the machines that have the return address on the stack. -/
def Layer.callReturnAddress : BitVec (8 * l.pointer) := l.ptraceGetData t sp

/-- On those that have the arguments there as well. -/
def Layer.callArg1 : BitVec (8 * l.pointer) := l.ptraceGetData t (sp + 4)

def Layer.callArg2 : BitVec (8 * l.pointer) := l.ptraceGetData t (sp + 8)

/-- What an accessor of libunwind does: it fails with `-UNW_EUNSPEC`, or yields a word,
or evaluates an expression that has no value in C. -/
inductive Access (w : Nat) where
  | fails
  | yields (val : BitVec w)
  | undefined
deriving DecidableEq, Repr

/-- The end of `_ptr_access_mem`, where no section has the address. A `long` and an
`unw_word_t` have the size of a pointer. -/
def Linux.ptrAccessMem (addr : BitVec (8 * l.pointer)) : Access (8 * l.pointer) :=
  let val := l.ptraceGetData t addr
  if val = -1 then .fails else .yields val

/-- The two halves are put together by a shift of 32 bits. -/
def Freebsd.ptrAccessMem (addr : BitVec (8 * l.pointer)) : Access (8 * l.pointer) :=
  let val := l.ptraceGetData t addr
  if val = -1 then .fails
  else if 32 < 8 * l.pointer then
    let high := l.ptraceGetData t (addr + 4)
    .yields ((high <<< 32) ||| (val &&& 0xFFFFFFFF))
  else .undefined

end Readers

/-- The platforms that pass the return address on the stack. -/
inductive X86Platform where
  | linuxX86
  | linuxX8664
  | freebsdI386
  | freebsdAmd64
deriving DecidableEq, Repr

namespace X86Platform

def layer : X86Platform → Layer
  | .linuxX86 => .x86
  | .linuxX8664 => .x8664
  | .freebsdI386 => .freebsdI386
  | .freebsdAmd64 => .freebsdAmd64

def ptrAccessMem (p : X86Platform) (t : Target (8 * p.layer.pointer))
    (addr : BitVec (8 * p.layer.pointer)) : Access (8 * p.layer.pointer) :=
  match p with
  | .linuxX86 => Linux.ptrAccessMem .x86 t addr
  | .linuxX8664 => Linux.ptrAccessMem .x8664 t addr
  | .freebsdI386 => Freebsd.ptrAccessMem .freebsdI386 t addr
  | .freebsdAmd64 => Freebsd.ptrAccessMem .freebsdAmd64 t addr

variable (p : X86Platform) (t : Target (8 * p.layer.pointer))

/-- The word that is stored at an address, if all of it is there. -/
def stored (address : BitVec (8 * p.layer.pointer)) : Option (BitVec (8 * p.layer.pointer)) :=
  t.peek p.layer.pointer address

/-- `value` is what is stored at an address, and `_ptr_access_mem` yields it too, if it
succeeds. -/
structure ReadRight (address value : BitVec (8 * p.layer.pointer)) : Prop where
  value : ∀ v, p.stored t address = some v → value = v
  access : p.ptrAccessMem t address = .fails ∨
    ∃ v, p.stored t address = some v ∧ p.ptrAccessMem t address = .yields v

/-- Both readers are right, at every address that a call looks at. -/
structure ReadersAgree (sp : BitVec (8 * p.layer.pointer)) : Prop where
  returnAddress : p.ReadRight t sp (p.layer.callReturnAddress t sp)
  arg1 : p.layer.pointer = 4 → p.ReadRight t (sp + 4) (p.layer.callArg1 t sp)
  arg2 : p.layer.pointer = 4 → p.ReadRight t (sp + 8) (p.layer.callArg2 t sp)

/-- The words that both readers can read. -/
def Readable (address : BitVec (8 * p.layer.pointer)) : Prop :=
  match p with
  | .linuxX86 | .linuxX8664 => True
  | .freebsdI386 =>
      -- a word for which `_ptr_access_mem` gives up
      ∀ v, t.peek 4 address = some v → v = -1
  | .freebsdAmd64 =>
      -- a word that is the sign extension of its lower half
      (∀ v, t.peek 8 address = some v → (v.setWidth 32).signExtend 64 = v) ∧
        ∀ v, t.peek 4 address = some v → v ≠ -1 → t.Reaches 4 (address + 4)

end X86Platform

/-- A read word and a failed read are told apart unless the word is `-1`. -/
theorem Linux.ptrAccessMem_right {l : Layer} {t : Target (8 * l.pointer)}
    {addr : BitVec (8 * l.pointer)}
    (hget : l.ptraceGetData t addr = (t.peek l.pointer addr).getD (-1)) :
    Linux.ptrAccessMem l t addr = .fails ∨
      ∃ v, t.peek l.pointer addr = some v ∧ Linux.ptrAccessMem l t addr = .yields v := by
  rw [Linux.ptrAccessMem, hget]
  cases hpeek : t.peek l.pointer addr with
  | none => exact Or.inl (if_pos rfl)
  | some v =>
      by_cases hv : v = -1
      · exact Or.inl (if_pos hv)
      · exact Or.inr ⟨v, rfl, if_neg hv⟩

/-- On i386 `_ptr_access_mem` is never right but when it fails. -/
theorem Freebsd.ptrAccessMem_i386_iff {t : Target 32} {addr : BitVec 32} :
    Freebsd.ptrAccessMem .freebsdI386 t addr = .fails ∨
      (∃ v, t.peek 4 addr = some v ∧ Freebsd.ptrAccessMem .freebsdI386 t addr = .yields v) ↔
      ∀ v, t.peek 4 addr = some v → v = -1 := by
  have haccess : Freebsd.ptrAccessMem .freebsdI386 t addr =
      if Freebsd.ptraceGetData (p := 4) t addr = -1 then .fails else .undefined := rfl
  rw [haccess, Freebsd.ptraceGetData]
  cases hpeek : t.peek 4 addr with
  | none => simp
  | some v =>
      rw [Option.getD_some]
      by_cases hv : v = -1
      · rw [if_pos hv]
        refine iff_of_true (Or.inl rfl) ?_
        intro v' hv'
        exact Option.some.inj hv' ▸ hv
      · rw [if_neg hv]
        refine iff_of_false ?_ ?_
        · rintro (hfails | ⟨v', -, hyields⟩)
          · cases hfails
          · cases hyields
        · intro hall
          exact hv (hall v rfl)

/-- The two halves of a word, put together. -/
theorem halves_or (v : Word) :
    (((v.extractLsb' 32 32).signExtend 64 <<< 32) ||| ((v.setWidth 32).signExtend 64 &&& 0xFFFFFFFF))
      = v := by
  have hmask : (0xFFFFFFFF : Word) = (BitVec.allOnes 32).setWidth 64 := by decide
  rw [hmask]
  apply BitVec.eq_of_getLsbD_eq
  intro i hi
  simp only [BitVec.getLsbD_or, BitVec.getLsbD_and, BitVec.getLsbD_shiftLeft,
    BitVec.getLsbD_signExtend, BitVec.getLsbD_extractLsb', BitVec.getLsbD_setWidth,
    BitVec.getLsbD_allOnes, hi, decide_true, Bool.true_and]
  by_cases hlow : i < 32
  · simp [hlow]
  · have hsub : i - 32 < 32 := by omega
    have hsub64 : i - 32 < 64 := by omega
    have hadd : 32 + (i - 32) = i := by omega
    simp [hlow, hsub, hsub64, hadd]

theorem signExtend_eq_neg_one_iff (n : CInt) : n.signExtend 64 = -1 ↔ n = -1 := by
  constructor
  · intro h
    rw [← CInt.setWidth_signExtend n, h]
    decide
  · rintro rfl
    decide

/-- On amd64 it needs both halves, once it has taken the lower one. -/
theorem Freebsd.ptrAccessMem_amd64_iff {t : Target 64} {addr : Word} :
    Freebsd.ptrAccessMem .freebsdAmd64 t addr = .fails ∨
      (∃ v, t.peek 8 addr = some v ∧ Freebsd.ptrAccessMem .freebsdAmd64 t addr = .yields v) ↔
      ∀ v, t.peek 4 addr = some v → v ≠ -1 → t.Reaches 4 (addr + 4) := by
  have haccess : Freebsd.ptrAccessMem .freebsdAmd64 t addr =
      if (Freebsd.ptraceGetData (p := 8) t addr).signExtend 64 = -1 then .fails
      else .yields (((Freebsd.ptraceGetData (p := 8) t (addr + 4)).signExtend 64 <<< 32) |||
        ((Freebsd.ptraceGetData (p := 8) t addr).signExtend 64 &&& (0xFFFFFFFF : Word))) := rfl
  simp only [signExtend_eq_neg_one_iff] at haccess
  have hsplit : t.Reaches 8 addr ↔ t.Reaches 4 addr ∧ t.Reaches 4 (addr + 4) :=
    Target.reaches_add_iff (n := 4) (k := 4)
  constructor
  · intro h v hv hne
    have hlow : Freebsd.ptraceGetData (p := 8) t addr = v := congrArg (Option.getD · _) hv
    rw [haccess, hlow, if_neg hne] at h
    obtain hfails | ⟨v', hv', -⟩ := h
    · cases hfails
    · exact (hsplit.mp (Target.peek_eq_some_iff.mp hv').1).2
  · intro h
    by_cases hminus : Freebsd.ptraceGetData (p := 8) t addr = -1
    · exact Or.inl (haccess.trans (if_pos hminus))
    by_cases hfirst : t.Reaches 4 addr
    · have hlow := Freebsd.ptraceGetData_of_reaches (p := 8) hfirst
      have hsecond := h _ (Target.peek_of_reaches hfirst) (hlow ▸ hminus)
      have hhigh := Freebsd.ptraceGetData_of_reaches (p := 8) hsecond
      have hwhole := halves_or (t.bytes.readWord 8 addr)
      rw [Bytes.setWidth_readWord (n := 8) (k := 4) _ (by decide),
        Bytes.extract_readWord (n := 8) (k := 4) (l := 4) _ (by decide)] at hwhole
      refine Or.inr ⟨_, Target.peek_of_reaches (hsplit.mpr ⟨hfirst, hsecond⟩), ?_⟩
      rw [haccess, if_neg hminus, hlow, hhigh]
      exact congrArg Access.yields hwhole
    · exact absurd (Freebsd.ptraceGetData_of_not_reaches hfirst) hminus

/-- The other reader takes the lower half of a stored word only. -/
theorem Freebsd.ptraceGetData_amd64 {t : Target 64} {address v : Word}
    (h : t.peek 8 address = some v) :
    Layer.freebsdAmd64.ptraceGetData t address = (v.setWidth 32).signExtend 64 := by
  obtain ⟨hreaches, rfl⟩ := Target.peek_eq_some_iff.mp h
  have hfirst : t.Reaches 4 address := ((Target.reaches_add_iff (n := 4) (k := 4)).mp hreaches).1
  rw [Bytes.setWidth_readWord (n := 8) (k := 4) _ (by decide)]
  exact congrArg (BitVec.signExtend 64) (Freebsd.ptraceGetData_of_reaches hfirst)

namespace X86Platform

/-- One address. -/
theorem readRight_iff (p : X86Platform) {t : Target (8 * p.layer.pointer)}
    {address : BitVec (8 * p.layer.pointer)} :
    p.ReadRight t address (p.layer.ptraceGetData t address) ↔ p.Readable t address := by
  cases p with
  | linuxX86 =>
      refine iff_of_true ⟨?_, Linux.ptrAccessMem_right rfl⟩ trivial
      intro v hv
      exact congrArg (Option.getD · _) hv
  | linuxX8664 =>
      refine iff_of_true ⟨?_, Linux.ptrAccessMem_right rfl⟩ trivial
      intro v hv
      exact congrArg (Option.getD · _) hv
  | freebsdI386 =>
      constructor
      · intro hright
        exact Freebsd.ptrAccessMem_i386_iff.mp hright.access
      · intro hreadable
        refine ⟨?_, Freebsd.ptrAccessMem_i386_iff.mpr hreadable⟩
        intro v hv
        exact congrArg (Option.getD · _) hv
  | freebsdAmd64 =>
      constructor
      · intro hright
        refine ⟨?_, Freebsd.ptrAccessMem_amd64_iff.mp hright.access⟩
        intro v hv
        exact (Freebsd.ptraceGetData_amd64 hv).symm.trans (hright.value v hv)
      · rintro ⟨hextended, hhalves⟩
        refine ⟨?_, Freebsd.ptrAccessMem_amd64_iff.mpr hhalves⟩
        intro v hv
        exact (Freebsd.ptraceGetData_amd64 hv).trans (hextended v hv)

end X86Platform

/-- **Both readers agree** on Linux. On amd64 they do for the words that an `int` can
tell, and on i386 only where one of them fails. -/
theorem readers_agree_iff (p : X86Platform) (t : Target (8 * p.layer.pointer))
    (sp : BitVec (8 * p.layer.pointer)) :
    p.ReadersAgree t sp ↔ p.Readable t sp ∧
      (p.layer.pointer = 4 → p.Readable t (sp + 4) ∧ p.Readable t (sp + 8)) := by
  constructor
  · intro hagree
    refine ⟨p.readRight_iff.mp hagree.returnAddress, ?_⟩
    intro hpointer
    exact ⟨p.readRight_iff.mp (hagree.arg1 hpointer), p.readRight_iff.mp (hagree.arg2 hpointer)⟩
  · rintro ⟨hsp, hargs⟩
    refine ⟨p.readRight_iff.mpr hsp, ?_, ?_⟩
    · intro hpointer
      exact p.readRight_iff.mpr (hargs hpointer).1
    · intro hpointer
      exact p.readRight_iff.mpr (hargs hpointer).2

/-- A stack with a return address above 32 bits, as those of a shared library are. -/
def libraryReturn : Target 64 where
  bytes := Bytes.writeWord (n := 8) (fun _ => 0) 0x7fffffffe000 0x800001234
  mapped _ := true

/-- `call_return_address` returns the lower half of it. -/
theorem return_address_truncated :
    ¬ X86Platform.freebsdAmd64.ReadersAgree libraryReturn 0x7fffffffe000 := by
  intro hagree
  have hvalue := hagree.returnAddress.value 0x800001234 (by decide)
  exact absurd hvalue (by decide)

/-! ## x86_64 on Linux

The layer of `Machine` is the one of this platform. -/

section Machine

variable {t : Target 64} {address : Word}

theorem ptraceGetData_eq_layer (h : t.Reaches 8 address) :
    ptraceGetData t.bytes address = Layer.x8664.ptraceGetData t address :=
  (Linux.ptraceGetData_of_reaches (p := 8) h).symm

theorem setBreakpoint_eq_layer (h : t.Reaches 8 address) (code : Word) :
    setBreakpoint t.bytes address code = (Layer.x8664.setBreakpoint t address code).bytes :=
  (congrArg Target.bytes (Target.poke_of_reaches (n := 8) h _)).symm

theorem isBreakpoint_eq_layer (h : t.Reaches 8 address) :
    isBreakpoint t.bytes address = Layer.x8664.isBreakpoint t address := by
  rw [isBreakpoint, ptraceGetData_eq_layer h]
  rfl

/-- What is left to `ptrace` when no section has the address. -/
theorem ptrAccessMem_eq_layer {sections : List MapSection}
    (h : (sections.find? fun ms => ms.holds address) = none) :
    (ptrAccessMem sections (fun a => t.peek 8 a) address).elim .fails .yields =
      X86Platform.linuxX8664.ptrAccessMem t address := by
  have haccess : X86Platform.linuxX8664.ptrAccessMem t address =
      if (t.peek 8 address).getD (-1) = -1 then .fails
      else .yields ((t.peek 8 address).getD (-1)) := rfl
  rw [haccess, ptrAccessMem, h]
  dsimp only
  split
  · rfl
  · rfl

end Machine

end Memleax
