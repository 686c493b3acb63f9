import Memleax.Symbols.DebugLine
import Memleax.Symbols.SymbolLookup

/-!
# Source lines by address

`debug_line_search` bisects the compilation units, which are sorted by the
address of their first row, and then the rows of the unit that it has found.
Both loops take an interval with its two ends. An address at which one row ends
and the next begins is in both, and the first of them that is probed is the
answer. The same holds of units whose ranges interleave. `lineLookup_iff` says
for which units and addresses the answer is that of a linear scan.

Indices are not bounded here; those of less than `2 ^ 30` units and rows fit an
`int`.
-/

namespace Memleax

open Framework

/-! ## `debug_line.c` -/

def dwarfDieCmp : DwarfDie → DwarfDie → CInt := startCmp DwarfDie.start

def debugLineBuild (qsort : (DwarfDie → DwarfDie → CInt) → List DwarfDie → List DwarfDie)
    (files : Mapping → List (Option (Elf × Dwarf))) (lines : List Mapping) : List DwarfDie :=
  qsort dwarfDieCmp (buildMaps debugLineBuildFile files lines)

/-- The test of the loop on one unit. -/
def DwarfDie.test (address : Word) (dd : DwarfDie) : Ordering := rangeTest dd.start dd.stop address

/-- The file and the line of a row. -/
def debugLineSearch (dies : List DwarfDie) (address : Word) : Option (String × Int) :=
  (bisectList (DwarfDie.test address) dies).bind fun mid =>
    dies[mid]?.bind fun dd => debugLineSearchDwdie dd address

/-! ## What a lookup is to find -/

/-- The address lies between `row` and the row after it. -/
def DwarfDie.Covers (dd : DwarfDie) (address : Word) (row : LineRow) : Prop :=
  ∃ k next, dd.lines[k]? = some row ∧ dd.lines[k + 1]? = some next ∧
    dd.rowAddress row ≤ address ∧ address < dd.rowAddress next

/-- The lookup agrees with a linear scan over the rows of all units. -/
structure LineRight (dies : List DwarfDie) (address : Word) : Prop where
  found : (∃ dd ∈ dies, ∃ row, dd.Covers address row) → ∃ dd ∈ dies, ∃ row,
    dd.Covers address row ∧ debugLineSearch dies address = some (row.source, row.lineno)
  none : (∀ dd ∈ dies, ∀ row, ¬ dd.Covers address row) → debugLineSearch dies address = none

/-- The unit at `u` holds the address, its end included. Of the units that are
probed before it, those on the left end below the address and those on the right
start above it. -/
structure UnitReached (dies : List DwarfDie) (address : Word) (u : Nat) (dd : DwarfDie) :
    Prop where
  get : dies[u]? = some dd
  within : dd.start ≤ address ∧ address ≤ dd.stop
  left : ∀ j ∈ probesBefore dies.length u, j < u → ∀ other, dies[j]? = some other →
    other.stop < address
  right : ∀ j ∈ probesBefore dies.length u, u < j → ∀ other, dies[j]? = some other →
    address < other.start

/-- The same for the row at `k` of a unit, which ends where the next row starts. -/
structure RowReached (dd : DwarfDie) (address : Word) (k : Nat) (row next : LineRow) : Prop where
  getRow : dd.lines[k]? = some row
  getNext : dd.lines[k + 1]? = some next
  within : dd.rowAddress row ≤ address ∧ address ≤ dd.rowAddress next
  left : ∀ j ∈ probesBefore (dd.lines.length - 1) k, j < k → ∀ low high,
    dd.lines[j]? = some low → dd.lines[j + 1]? = some high →
    dd.rowAddress low ≤ address ∧ dd.rowAddress high < address
  right : ∀ j ∈ probesBefore (dd.lines.length - 1) k, k < j → ∀ low,
    dd.lines[j]? = some low → address < dd.rowAddress low

/-- The row that is reached starts at or below the address and the next row
above it (or a row for which that is so has the same file and line); or no row
covers the address, and none is reached. -/
def LineFits (dies : List DwarfDie) (address : Word) : Prop :=
  (∃ u dd k row next, UnitReached dies address u dd ∧ RowReached dd address k row next ∧
    (address < dd.rowAddress next ∨ ∃ other ∈ dies, ∃ same, other.Covers address same ∧
      same.source = row.source ∧ same.lineno = row.lineno)) ∨
  (∀ dd ∈ dies, ∀ row, ¬ dd.Covers address row) ∧
    ∀ u dd k row next, UnitReached dies address u dd → ¬ RowReached dd address k row next

/-! ## Where the two loops end -/

section Reached

variable {dies : List DwarfDie} {address : Word} {dd : DwarfDie}

theorem bisectUnits_eq_some_iff (hsorted : Ascending DwarfDie.start dies) {u : Nat} :
    bisectList (DwarfDie.test address) dies = some u ↔ ∃ dd, UnitReached dies address u dd := by
  have hends := @bisectRanges_eq_some_iff _ dies _ _ _ _ _ _ DwarfDie.start DwarfDie.stop address u
  refine hends.trans ?_
  apply exists_congr
  intro dd
  constructor
  · rintro ⟨hget, hwithin, hpath⟩
    refine ⟨hget, hwithin, ?_, ?_⟩
    · intro j hj hlt other hother
      exact ((hpath j hj other hother).1 hlt).2
    · intro j hj hgt other hother
      exact (hpath j hj other hother).2 hgt
  · intro h
    refine ⟨h.get, h.within, ?_⟩
    intro j hj other hother
    refine ⟨?_, fun hgt => h.right j hj hgt other hother⟩
    intro hlt
    refine ⟨?_, h.left j hj hlt other hother⟩
    obtain ⟨hjl, rfl⟩ := List.getElem?_eq_some_iff.mp hother
    obtain ⟨hul, rfl⟩ := List.getElem?_eq_some_iff.mp h.get
    exact BitVec.le_trans (List.pairwise_iff_getElem.mp hsorted j u hjl hul hlt) h.within.1

/-- The rows of a unit, each with the next one. -/
def DwarfDie.rows (dd : DwarfDie) : List (LineRow × LineRow) := dd.lines.zip dd.lines.tail

/-- The test of `debug_line_search_dwdie`. -/
def DwarfDie.rowTest (dd : DwarfDie) (address : Word) (p : LineRow × LineRow) : Ordering :=
  rangeTest (dd.rowAddress p.1) (dd.rowAddress p.2) address

theorem DwarfDie.rows_length : dd.rows.length = dd.lines.length - 1 := by
  simp [DwarfDie.rows]

theorem DwarfDie.rows_eq_some_iff {k : Nat} {row next : LineRow} :
    dd.rows[k]? = some (row, next) ↔ dd.lines[k]? = some row ∧ dd.lines[k + 1]? = some next := by
  rw [DwarfDie.rows, List.getElem?_zip_eq_some, List.getElem?_tail]

/-- The loop of `debug_line_search_dwdie` is a bisection of the rows. -/
theorem debugLineBisect_eq : ∀ {fuel : Nat} {min max : Int}, 0 ≤ min → max < dd.rows.length →
    debugLineBisect dd address fuel min max =
      (bisect (fun i => (dd.rows[i]?).elim .eq (dd.rowTest address)) fuel min max).bind fun mid =>
        dd.rows[mid]?.map fun p => (p.1.source, p.1.lineno) := by
  intro fuel
  induction fuel with
  | zero =>
      intro min max _ _
      rfl
  | succ fuel ih =>
      intro min max hmin hmax
      rw [debugLineBisect, bisect]
      split
      · dsimp only
        generalize hmid : ((min + max) / 2).toNat = mid
        have hlt : mid < dd.rows.length := by omega
        obtain ⟨⟨row, next⟩, hget⟩ : ∃ p, dd.rows[mid]? = some p :=
          ⟨_, List.getElem?_eq_getElem hlt⟩
        obtain ⟨hrow, hnext⟩ := DwarfDie.rows_eq_some_iff.mp hget
        rw [hrow, hnext, hget, Option.elim_some, DwarfDie.rowTest, rangeTest]
        dsimp only
        split
        · exact ih hmin (by omega)
        · split
          · exact ih (by omega) hmax
          · rw [Option.bind_some, hget]
            rfl
      · rfl

theorem debugLineSearchDwdie_eq :
    debugLineSearchDwdie dd address =
      (bisectList (dd.rowTest address) dd.rows).bind fun mid =>
        dd.rows[mid]?.map fun p => (p.1.source, p.1.lineno) := by
  have hlength := dd.rows_length
  rw [debugLineSearchDwdie, debugLineBisect_eq le_rfl (by omega), bisectList, bisection]
  congr 1
  cases hlines : dd.lines with
  | nil =>
      rw [hlines] at hlength
      rw [hlength]
      rfl
  | cons first rest =>
      rw [hlines, List.length_cons, Nat.add_sub_cancel] at hlength
      rw [hlength, List.length_cons, bisect_succ le_rfl (by omega)]
      congr 1
      omega

/-- **What is found in a unit.** -/
theorem debugLineSearchDwdie_eq_some_iff {r : String × Int} :
    debugLineSearchDwdie dd address = some r ↔
      ∃ k row next, RowReached dd address k row next ∧ r = (row.source, row.lineno) := by
  have hends := fun k => @bisectRanges_eq_some_iff _ dd.rows _ _ _ _ _ _
    (fun p => dd.rowAddress p.1) (fun p => dd.rowAddress p.2) address k
  rw [debugLineSearchDwdie_eq, Option.bind_eq_some_iff]
  apply exists_congr
  intro k
  constructor
  · rintro ⟨hres, hr⟩
    obtain ⟨⟨row, next⟩, hget, hwithin, hpath⟩ := (hends k).mp hres
    rw [hget] at hr
    obtain ⟨hrow, hnext⟩ := DwarfDie.rows_eq_some_iff.mp hget
    rw [dd.rows_length] at hpath
    refine ⟨row, next, ⟨hrow, hnext, hwithin, ?_, ?_⟩, (Option.some.inj hr).symm⟩
    · intro j hj hlt low high hlow hhigh
      exact (hpath j hj _ (DwarfDie.rows_eq_some_iff.mpr ⟨hlow, hhigh⟩)).1 hlt
    · intro j hj hgt low hlow
      have hjl : j < dd.rows.length := by
        rw [dd.rows_length]
        exact (mem_probesBefore hj).1
      obtain ⟨⟨low', high⟩, hjget⟩ : ∃ p, dd.rows[j]? = some p :=
        ⟨_, List.getElem?_eq_getElem hjl⟩
      have hsame := hlow.symm.trans (DwarfDie.rows_eq_some_iff.mp hjget).1
      rw [Option.some.inj hsame]
      exact (hpath j hj _ hjget).2 hgt
  · rintro ⟨row, next, h, rfl⟩
    have hget := DwarfDie.rows_eq_some_iff.mpr ⟨h.getRow, h.getNext⟩
    refine ⟨(hends k).mpr ⟨(row, next), hget, h.within, ?_⟩, ?_⟩
    · rintro j hj ⟨low, high⟩ hjget
      rw [dd.rows_length] at hj
      obtain ⟨hlow, hhigh⟩ := DwarfDie.rows_eq_some_iff.mp hjget
      exact ⟨fun hlt => h.left j hj hlt low high hlow hhigh, fun hgt => h.right j hj hgt low hlow⟩
    · rw [hget]
      rfl

/-- **What is found.** -/
theorem debugLineSearch_eq_some_iff (hsorted : Ascending DwarfDie.start dies) {r : String × Int} :
    debugLineSearch dies address = some r ↔ ∃ u dd k row next, UnitReached dies address u dd ∧
      RowReached dd address k row next ∧ r = (row.source, row.lineno) := by
  rw [debugLineSearch, Option.bind_eq_some_iff]
  apply exists_congr
  intro u
  constructor
  · rintro ⟨hres, hr⟩
    obtain ⟨dd, hunit⟩ := (bisectUnits_eq_some_iff hsorted).mp hres
    rw [hunit.get, Option.bind_some] at hr
    obtain ⟨k, row, next, hrow, hr⟩ := debugLineSearchDwdie_eq_some_iff.mp hr
    exact ⟨dd, k, row, next, hunit, hrow, hr⟩
  · rintro ⟨dd, k, row, next, hunit, hrow, hr⟩
    refine ⟨(bisectUnits_eq_some_iff hsorted).mpr ⟨dd, hunit⟩, ?_⟩
    rw [hunit.get, Option.bind_some]
    exact debugLineSearchDwdie_eq_some_iff.mpr ⟨k, row, next, hrow, hr⟩

/-- A row that is reached covers the address if the next row starts above it. -/
theorem RowReached.covers {k : Nat} {row next : LineRow} (h : RowReached dd address k row next)
    (hlt : address < dd.rowAddress next) : dd.Covers address row :=
  ⟨k, next, h.getRow, h.getNext, h.within.1, hlt⟩

end Reached

/-- **Line lookup** agrees with a linear scan, for every list of units that
`debug_line_build` produces and every address, exactly under `LineFits`. -/
theorem lineLookup_iff (qsort : (DwarfDie → DwarfDie → CInt) → List DwarfDie → List DwarfDie)
    (hqsort : SortsBy DwarfDie.start qsort) (files : Mapping → List (Option (Elf × Dwarf)))
    (lines : List Mapping) (address : Word) :
    LineRight (debugLineBuild qsort files lines) address ↔
      LineFits (debugLineBuild qsort files lines) address := by
  have hsorted : Ascending DwarfDie.start (debugLineBuild qsort files lines) := (hqsort _).2
  generalize debugLineBuild qsort files lines = dies at hsorted ⊢
  have hsome := fun r => @debugLineSearch_eq_some_iff dies address hsorted r
  constructor
  · intro h
    by_cases hcovers : ∃ dd ∈ dies, ∃ row, dd.Covers address row
    · left
      obtain ⟨other, hother, same, hsame, hres⟩ := h.found hcovers
      obtain ⟨u, dd, k, row, next, hunit, hrow, heq⟩ := (hsome _).mp hres
      obtain ⟨hsource, hlineno⟩ := Prod.mk.inj heq
      exact ⟨u, dd, k, row, next, hunit, hrow, Or.inr ⟨other, hother, same, hsame, hsource,
        hlineno⟩⟩
    · right
      have hnone : ∀ dd ∈ dies, ∀ row, ¬ dd.Covers address row := by
        intro dd hdd row hrow
        exact hcovers ⟨dd, hdd, row, hrow⟩
      refine ⟨hnone, ?_⟩
      intro u dd k row next hunit hrow
      have hres := (hsome _).mpr ⟨u, dd, k, row, next, hunit, hrow, rfl⟩
      cases (h.none hnone).symm.trans hres
  · rintro (⟨u, dd, k, row, next, hunit, hrow, hfits⟩ | ⟨hnone, hreached⟩)
    · have hres := (hsome _).mpr ⟨u, dd, k, row, next, hunit, hrow, rfl⟩
      obtain ⟨other, hother, same, hsame, hsource, hlineno⟩ : ∃ other ∈ dies, ∃ same,
          other.Covers address same ∧ same.source = row.source ∧ same.lineno = row.lineno := by
        rcases hfits with hlt | hsame
        · exact ⟨dd, List.mem_of_getElem? hunit.get, row, hrow.covers hlt, rfl, rfl⟩
        · exact hsame
      constructor
      · intro _
        refine ⟨other, hother, same, hsame, ?_⟩
        rw [hsource, hlineno]
        exact hres
      · intro hnone
        exact absurd hsame (hnone other hother same)
    · constructor
      · rintro ⟨dd, hdd, row, hrow⟩
        exact absurd hrow (hnone dd hdd row)
      · intro _
        cases hres : debugLineSearch dies address with
        | none => rfl
        | some r =>
            obtain ⟨u, dd, k, row, next, hunit, hrow, -⟩ := (hsome r).mp hres
            exact absurd hrow (hreached u dd k row next hunit)

/-! ## An address at which a row begins -/

/-- Three rows of an executable, at increasing addresses. -/
def threeRows : List LineRow :=
  [⟨0x1000, 1, "main.c"⟩, ⟨0x1010, 2, "main.c"⟩, ⟨0x1020, 3, "main.c"⟩]

def threeRowsFile : Elf × Dwarf :=
  ({ type := .exec, phdrs := [{ vaddr := 0x1000, executable := true }] }, some [some threeRows])

/-- The unit of the executable. -/
def threeRowsUnit : DwarfDie where
  start := 0x1000
  stop := 0x1020
  offset := 0
  lines := threeRows

theorem debugLineBuild_threeRows :
    debugLineBuild stableSort (fun _ => [some threeRowsFile]) [sampleMapping 0x1000] =
      [threeRowsUnit] := by
  have hbuild : buildMaps debugLineBuildFile (fun _ => [some threeRowsFile])
      [sampleMapping 0x1000] = [threeRowsUnit] := by
    decide
  rw [debugLineBuild, hbuild]
  apply stableSort_of_ascending
  decide

/-- Within the second row the line is found. -/
theorem lineLookup_iff_withinRow :
    LineRight (debugLineBuild stableSort (fun _ => [some threeRowsFile]) [sampleMapping 0x1000])
      0x1014 := by
  apply (lineLookup_iff stableSort (sortsBy_stableSort _) _ _ _).mpr
  rw [debugLineBuild_threeRows]
  left
  refine ⟨0, threeRowsUnit, 1, ⟨0x1010, 2, "main.c"⟩, ⟨0x1020, 3, "main.c"⟩, ?_, ?_, Or.inl ?_⟩
  · exact ⟨rfl, by decide, by decide, by decide⟩
  · refine ⟨rfl, rfl, by decide, ?_, by decide⟩
    intro j hj _ low high hlow hhigh
    have hprobes : probesBefore (threeRowsUnit.lines.length - 1) 1 = [0] := by decide
    rw [hprobes, List.mem_singleton] at hj
    subst hj
    cases hlow
    cases hhigh
    decide
  · decide

/-- At the start of the second row the first one is found. -/
theorem lookup_finds_row_before :
    (threeRows.map LineRow.address).Pairwise (· ≤ ·) ∧ SortsBy DwarfDie.start stableSort ∧
      ¬ LineRight (debugLineBuild stableSort (fun _ => [some threeRowsFile])
        [sampleMapping 0x1000]) 0x1010 := by
  rw [debugLineBuild_threeRows]
  refine ⟨by decide, sortsBy_stableSort _, ?_⟩
  intro h
  have hfound : debugLineSearch [threeRowsUnit] 0x1010 = some ("main.c", 1) := by decide
  have hcovers : threeRowsUnit.Covers 0x1010 ⟨0x1010, 2, "main.c"⟩ :=
    ⟨1, ⟨0x1020, 3, "main.c"⟩, rfl, rfl, by decide, by decide⟩
  obtain ⟨dd, hdd, row, ⟨k, next, hrow, hnext, hle, hlt⟩, hres⟩ :=
    h.found ⟨threeRowsUnit, List.mem_cons_self, _, hcovers⟩
  obtain rfl := List.mem_singleton.mp hdd
  have hlineno : 1 = row.lineno := (Prod.mk.inj (Option.some.inj (hfound.symm.trans hres))).2
  -- only the first row has this line, and it ends at the address
  rcases k with _ | _ | k
  · cases hnext
    exact absurd hlt (by decide)
  · cases hrow
    exact absurd hlineno (by decide)
  · cases hnext

end Memleax
