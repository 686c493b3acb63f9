import Memleax.Framework.Bisect
import Memleax.Symbols.Symtab

/-!
# Symbols by address

`symtab_by_address` bisects the symbol table, which is sorted by the start of
the symbols. A symbol that lies below the address sends the search to the
right, and a larger symbol that starts further left and goes on behind it is
then missed. `symbolLookup_iff` says for which tables and addresses the answer
is that of a linear scan.

Indices are not bounded here. `array_push` fails long before `min + max` leaves
the range of an `int`.
-/

namespace Memleax

open Framework

/-! ## The loop over the mappings -/

section Build

variable {σ ε : Type}

/-- The debug files that `debug_try_get` hands out for a mapping are read until
one of them yields items. -/
def debugTry (buildFile : List σ → ε → Word → List σ × Int) (start : Word) :
    List ε → List σ → List σ
  | [], table => table
  | file :: rest, table =>
      let r := buildFile table file start
      if r.2 > 0 then r.1 else debugTry buildFile start rest r.1

/-- The loop over `proc_maps` that `symtab_build` and `debug_line_build` share. -/
def buildMaps (buildFile : List σ → ε → Word → List σ × Int) (files : Mapping → List ε)
    (lines : List Mapping) : List σ :=
  (procMaps lines).foldl (fun table m => debugTry buildFile m.start (files m) table) []

end Build

/-! ## The sort -/

section Sorting

variable {α : Type} (key : α → Word)

/-- `symbol_cmp` and `dwarf_die_cmp`. No two items are equal. -/
def startCmp (a b : α) : CInt := if key a < key b then -1 else 1

/-- Items with the same key stand in any order. -/
def Ascending (l : List α) : Prop := l.Pairwise fun a b => key a ≤ key b

instance (l : List α) : Decidable (Ascending key l) :=
  inferInstanceAs (Decidable (l.Pairwise fun a b => key a ≤ key b))

/-- What `qsort` is assumed to do with such a comparison. -/
def SortsBy (qsort : (α → α → CInt) → List α → List α) : Prop :=
  ∀ l, (qsort (startCmp key) l).Perm l ∧ Ascending key (qsort (startCmp key) l)

/-- A sort that swaps two items only if they are found in the wrong order. -/
def stableSort (compar : α → α → CInt) (l : List α) : List α :=
  l.mergeSort fun a b => decide (0 ≤ (compar b a).toInt)

theorem startCmp_nonneg_iff (a b : α) : 0 ≤ (startCmp key b a).toInt ↔ key a ≤ key b := by
  unfold startCmp
  split
  · rename_i hlt
    exact iff_of_false (by decide) (BitVec.not_le.mpr hlt)
  · rename_i hlt
    exact iff_of_true (by decide) (BitVec.not_lt.mp hlt)

theorem sortsBy_stableSort : SortsBy key stableSort := by
  intro l
  refine ⟨List.mergeSort_perm _ _, ?_⟩
  have hsorted := @List.pairwise_mergeSort α
    (fun a b => decide (0 ≤ (startCmp key b a).toInt)) ?_ ?_ l
  · apply hsorted.imp
    intro a b hab
    exact (startCmp_nonneg_iff key a b).mp (of_decide_eq_true hab)
  · intro a b c hab hbc
    have hab := (startCmp_nonneg_iff key a b).mp (of_decide_eq_true hab)
    have hbc := (startCmp_nonneg_iff key b c).mp (of_decide_eq_true hbc)
    exact decide_eq_true ((startCmp_nonneg_iff key a c).mpr (BitVec.le_trans hab hbc))
  · intro a b
    rw [Bool.or_eq_true, decide_eq_true_iff, decide_eq_true_iff, startCmp_nonneg_iff,
      startCmp_nonneg_iff]
    exact BitVec.le_total (key a) (key b)

theorem stableSort_of_ascending {l : List α} (h : Ascending key l) :
    stableSort (startCmp key) l = l := by
  apply List.mergeSort_of_pairwise
  apply List.Pairwise.imp _ h
  intro a b hab
  exact decide_eq_true ((startCmp_nonneg_iff key a b).mpr hab)

end Sorting

/-! ## `symtab.c` -/

def symbolCmp : Symbol → Symbol → CInt := startCmp Symbol.address

def symtabBuild (qsort : (Symbol → Symbol → CInt) → List Symbol → List Symbol)
    (files : Mapping → List (Option Elf)) (lines : List Mapping) : List Symbol :=
  qsort symbolCmp (buildMaps symtabBuildFile files lines)

/-- The test of the loop on one symbol. -/
def Symbol.test (address : Word) (sym : Symbol) : Ordering :=
  if address < sym.address then .lt
  else if address ≥ sym.address + sym.size then .gt
  else .eq

/-- The name of the symbol and the offset, an `int`. -/
def symtabByAddress (table : List Symbol) (address : Word) : Option (String × CInt) :=
  (bisectList (Symbol.test address) table).bind fun mid =>
    table[mid]?.map fun sym => (sym.name, (address - sym.address).setWidth 32)

/-! ## What a lookup is to find -/

/-- The address lies in the symbol. -/
def Symbol.Covers (sym : Symbol) (address : Word) : Prop :=
  sym.address.toNat ≤ address.toNat ∧ address.toNat < sym.address.toNat + sym.size.toNat

/-- The end of the symbol is an address. -/
def Symbol.NoWrap (sym : Symbol) : Prop := sym.address.toNat + sym.size.toNat < 2 ^ 64

instance (sym : Symbol) (address : Word) : Decidable (sym.Covers address) :=
  inferInstanceAs (Decidable (_ ∧ _))

instance (sym : Symbol) : Decidable sym.NoWrap := inferInstanceAs (Decidable (_ < _))

/-- The lookup agrees with a linear scan. -/
structure LookupRight (table : List Symbol) (address : Word) : Prop where
  none_iff : symtabByAddress table address = none ↔ ∀ sym ∈ table, ¬ sym.Covers address
  found : ∀ name offset, symtabByAddress table address = some (name, offset) →
    ∃ sym ∈ table, sym.Covers address ∧ name = sym.name ∧
      offset.toInt = address.toNat - sym.address.toNat

/-- No symbol covers the address; or one does, at `k`, such that no probe before
`k` covers it, those to the right of `k` start above the address, and the offset
fits an `int` (that of this symbol, or that of one with the same name and the
same lower half of the address, to which it is cut). -/
def LookupFits (table : List Symbol) (address : Word) : Prop :=
  (∀ sym ∈ table, ¬ sym.Covers address) ∨
  ∃ k sym, table[k]? = some sym ∧ sym.Covers address ∧
    (∀ j ∈ probesBefore table.length k, ∀ other, table[j]? = some other →
      ¬ other.Covers address ∧ (k < j → address < other.address)) ∧
    ∃ other ∈ table, other.Covers address ∧ other.name = sym.name ∧
      other.address.setWidth 32 = sym.address.setWidth 32 ∧
      address.toNat - other.address.toNat < 2 ^ 31

section Lookup

variable {table : List Symbol} {address : Word} {sym : Symbol}

theorem Symbol.test_eq_iff (h : sym.NoWrap) : sym.test address = .eq ↔ sym.Covers address := by
  have hend : (sym.address + sym.size).toNat = sym.address.toNat + sym.size.toNat := by
    rw [BitVec.toNat_add, Nat.mod_eq_of_lt h]
  unfold Symbol.test Symbol.Covers
  split
  · rename_i hlt
    have hlt := BitVec.lt_def.mp hlt
    refine iff_of_false (by simp) ?_
    omega
  · rename_i hlow
    have hlow := BitVec.le_def.mp (BitVec.not_lt.mp hlow)
    split
    · rename_i hge
      have hge := BitVec.le_def.mp hge
      refine iff_of_false (by simp) ?_
      omega
    · rename_i hlt
      have hlt := BitVec.lt_def.mp (BitVec.not_le.mp hlt)
      refine iff_of_true rfl ?_
      omega

theorem Symbol.test_lt_iff : sym.test address = .lt ↔ address < sym.address := by
  unfold Symbol.test
  split
  · rename_i hlt
    exact iff_of_true rfl hlt
  · rename_i hlt
    refine iff_of_false ?_ hlt
    split <;> simp

/-- A symbol at or below the address that does not cover it sends the search to
the right. -/
theorem Symbol.test_gt_of_not_covers (h : sym.NoWrap) (hle : sym.address ≤ address)
    (hnot : ¬ sym.Covers address) : sym.test address = .gt := by
  cases htest : sym.test address with
  | lt => exact absurd (Symbol.test_lt_iff.mp htest) (BitVec.not_lt.mpr hle)
  | eq => exact absurd ((Symbol.test_eq_iff h).mp htest) hnot
  | gt => rfl

/-- Where the search ends, in a sorted table. -/
theorem bisectSymbols_eq_some_iff (hsorted : Ascending Symbol.address table)
    (hwrap : ∀ sym ∈ table, sym.NoWrap) {k : Nat} :
    bisectList (Symbol.test address) table = some k ↔
      ∃ sym, table[k]? = some sym ∧ sym.Covers address ∧
        ∀ j ∈ probesBefore table.length k, ∀ other, table[j]? = some other →
          ¬ other.Covers address ∧ (k < j → address < other.address) := by
  rw [bisectList_eq_some_iff]
  apply exists_congr
  intro sym
  apply and_congr_right
  intro hk
  have hsym := hwrap sym (List.mem_of_getElem? hk)
  rw [Symbol.test_eq_iff hsym]
  apply and_congr_right
  intro hcovers
  apply forall₂_congr
  intro j hj
  apply forall₂_congr
  intro other hother
  have hne := (mem_probesBefore hj).2
  have hmem := hwrap other (List.mem_of_getElem? hother)
  rcases Nat.lt_or_gt_of_ne hne with hlt | hgt
  · -- to the left of `k` everything starts at or below the address
    rw [compare_gt_iff_gt.mpr hlt]
    have hle : other.address ≤ address := by
      obtain ⟨hjl, rfl⟩ := List.getElem?_eq_some_iff.mp hother
      obtain ⟨hkl, rfl⟩ := List.getElem?_eq_some_iff.mp hk
      have hstart := List.pairwise_iff_getElem.mp hsorted j k hjl hkl hlt
      exact BitVec.le_trans hstart hcovers.1
    constructor
    · intro htest
      refine ⟨?_, fun h => absurd h (Nat.lt_asymm hlt)⟩
      rw [← Symbol.test_eq_iff hmem, htest]
      simp
    · rintro ⟨hnot, -⟩
      exact Symbol.test_gt_of_not_covers hmem hle hnot
  · rw [compare_lt_iff_lt.mpr hgt, Symbol.test_lt_iff]
    constructor
    · intro hlt
      refine ⟨?_, fun _ => hlt⟩
      rintro ⟨hle, -⟩
      exact absurd hle (Nat.not_le.mpr hlt)
    · rintro ⟨-, hlt⟩
      exact hlt hgt

theorem symtabByAddress_eq_some {k : Nat} (hk : table[k]? = some sym)
    (hres : bisectList (Symbol.test address) table = some k) :
    symtabByAddress table address = some (sym.name, (address - sym.address).setWidth 32) := by
  rw [symtabByAddress, hres, Option.bind_some, hk]
  rfl

/-- The offset as an `int` is the distance from `t` exactly if `t` has the same
lower half and is less than `2 ^ 31` away. -/
theorem toInt_offset_iff {start t : Word} (hle : t.toNat ≤ address.toNat) :
    ((address - start).setWidth 32).toInt = address.toNat - t.toNat ↔
      t.setWidth 32 = start.setWidth 32 ∧ address.toNat - t.toNat < 2 ^ 31 := by
  rw [BitVec.toInt_eq_toNat_cond, BitVec.toNat_eq, BitVec.toNat_setWidth, BitVec.toNat_setWidth,
    BitVec.toNat_setWidth, BitVec.toNat_sub]
  have hstart := start.isLt
  have haddress := address.isLt
  split <;> omega

end Lookup

/-- **Symbol lookup** agrees with a linear scan, for every table that
`symtab_build` produces and every address, exactly under `LookupFits`. -/
theorem symbolLookup_iff (qsort : (Symbol → Symbol → CInt) → List Symbol → List Symbol)
    (hqsort : SortsBy Symbol.address qsort) (files : Mapping → List (Option Elf))
    (lines : List Mapping) (hwrap : ∀ sym ∈ symtabBuild qsort files lines, sym.NoWrap)
    (address : Word) :
    LookupRight (symtabBuild qsort files lines) address ↔
      LookupFits (symtabBuild qsort files lines) address := by
  have hsorted : Ascending Symbol.address (symtabBuild qsort files lines) := (hqsort _).2
  generalize symtabBuild qsort files lines = table at hsorted hwrap ⊢
  have hends := fun k => @bisectSymbols_eq_some_iff table address hsorted hwrap k
  constructor
  · intro h
    by_cases hnone : ∀ sym ∈ table, ¬ sym.Covers address
    · exact Or.inl hnone
    · right
      cases hres : bisectList (Symbol.test address) table with
      | none =>
          refine absurd (h.none_iff.mp ?_) hnone
          rw [symtabByAddress, hres]
          rfl
      | some k =>
          obtain ⟨sym, hk, hcovers, hpath⟩ := (hends k).mp hres
          obtain ⟨other, hmem, hother, hname, hoffset⟩ :=
            h.found _ _ (symtabByAddress_eq_some hk hres)
          have hfits := (toInt_offset_iff hother.1).mp hoffset
          exact ⟨k, sym, hk, hcovers, hpath, other, hmem, hother, hname.symm, hfits⟩
  · rintro (hnone | ⟨k, sym, hk, hcovers, hpath, other, hother, hcov, hname, hfits⟩)
    · have hres : symtabByAddress table address = none := by
        cases hres : bisectList (Symbol.test address) table with
        | none =>
            rw [symtabByAddress, hres]
            rfl
        | some k =>
            obtain ⟨sym, hk, hcovers, -⟩ := (hends k).mp hres
            exact absurd hcovers (hnone sym (List.mem_of_getElem? hk))
      refine ⟨iff_of_true hres hnone, ?_⟩
      intro name offset hsome
      cases hres.symm.trans hsome
    · have hres := symtabByAddress_eq_some hk ((hends k).mpr ⟨sym, hk, hcovers, hpath⟩)
      have hmem := List.mem_of_getElem? hk
      constructor
      · refine iff_of_false (by rw [hres]; simp) ?_
        intro hnone
        exact hnone sym hmem hcovers
      · intro name offset hsome
        obtain ⟨rfl, rfl⟩ := Prod.mk.inj (Option.some.inj (hres.symm.trans hsome))
        exact ⟨other, hother, hcov, hname.symm, (toInt_offset_iff hcov.1).mpr hfits⟩

/-! ## A symbol within a symbol -/

/-- A function symbol of `size` bytes. -/
def functionSymbol (name : String) (value size : Word) : ElfSym where
  name := name
  value := value
  size := size
  shndx := 12
  info := 0x12

/-- An executable in which `inner` is a part of `outer`. -/
def nestedSymbols : Elf where
  type := .exec
  phdrs := [{ vaddr := 0x1000, executable := true }]
  sections := [⟨some .symtab, some [functionSymbol "outer" 0x1000 0x100,
    functionSymbol "inner" 0x1010 0x10, functionSymbol "last" 0x2000 0x20]⟩]

/-- The table of the executable. -/
def nestedTable : List Symbol :=
  [⟨0x1000, 0x100, false, "outer"⟩, ⟨0x1010, 0x10, false, "inner"⟩, ⟨0x2000, 0x20, false, "last"⟩]

theorem symtabBuild_nested :
    symtabBuild stableSort (fun _ => [some nestedSymbols]) [sampleMapping 0x1000] =
      nestedTable := by
  have hbuild : buildMaps symtabBuildFile (fun _ => [some nestedSymbols]) [sampleMapping 0x1000] =
      nestedTable := by
    decide
  rw [symtabBuild, hbuild]
  apply stableSort_of_ascending
  decide

/-- `last` is found behind one probe. -/
theorem symbolLookup_iff_last :
    LookupRight (symtabBuild stableSort (fun _ => [some nestedSymbols]) [sampleMapping 0x1000])
      0x2008 := by
  apply (symbolLookup_iff stableSort (sortsBy_stableSort _) _ _ ?_ _).mpr
  · rw [symtabBuild_nested]
    right
    refine ⟨2, ⟨0x2000, 0x20, false, "last"⟩, rfl, by decide, ?_, ?_⟩
    · decide
    · exact ⟨⟨0x2000, 0x20, false, "last"⟩, by decide, by decide, rfl, rfl, by decide⟩
  · rw [symtabBuild_nested]
    decide

/-- `inner` is probed first, lies below the address and hides the rest of `outer`. -/
theorem lookup_misses_outer :
    (∀ sym ∈ symtabBuild stableSort (fun _ => [some nestedSymbols]) [sampleMapping 0x1000],
        sym.NoWrap) ∧
      SortsBy Symbol.address stableSort ∧
      ¬ LookupRight (symtabBuild stableSort (fun _ => [some nestedSymbols])
        [sampleMapping 0x1000]) 0x1050 := by
  rw [symtabBuild_nested]
  refine ⟨by decide, sortsBy_stableSort _, ?_⟩
  intro h
  have hnone : symtabByAddress nestedTable 0x1050 = none := by decide
  have hcovers : Symbol.Covers ⟨0x1000, 0x100, false, "outer"⟩ 0x1050 := by decide
  exact h.none_iff.mp hnone _ List.mem_cons_self hcovers

end Memleax
