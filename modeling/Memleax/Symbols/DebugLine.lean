import Memleax.Symbols.Symtab

/-!
# The line table

`debug_line.c` as it is built with libdw: the compilation units of a file with
their line rows, recorded with the offset at which the file has been loaded.

The offset is computed apart from the one of `symtab.c`, by another test on the
type of the file and without the address of the first segment. `callstack_print`
looks up one runtime address in both tables, so the two translations have to
agree (`same_translation_iff` says when they do).
-/

namespace Memleax

/-- A row of a line table: `dwarf_lineaddr`, `dwarf_lineno` and `dwarf_linesrc`. -/
structure LineRow where
  address : Word
  lineno : Int
  source : String
deriving DecidableEq, Repr

/-- What libdw finds in a file: nothing, or its compilation units. A unit has
its line rows, unless `dwarf_offdie` fails. -/
abbrev Dwarf := Option (List (Option (List LineRow)))

structure DwarfDie where
  start : Word
  stop : Word
  offset : Word
  lines : List LineRow
deriving DecidableEq, Repr

/-- The record of a unit with line rows. -/
def dwarfDie (offset : Word) (first : LineRow) (rest : List LineRow) : DwarfDie where
  start := first.address + offset
  stop := ((first :: rest).getLast (List.cons_ne_nil _ _)).address + offset
  offset := offset
  lines := first :: rest

/-- The loop over the units, with `count`. -/
def debugLineLoop (offset : Word) :
    List (Option (List LineRow)) → List DwarfDie × Int → List DwarfDie × Int
  | [], s => s
  | none :: rest, s => debugLineLoop offset rest s
  | some [] :: rest, s => debugLineLoop offset rest s
  | some (first :: rows) :: rest, (dies, count) =>
      debugLineLoop offset rest (dies ++ [dwarfDie offset first rows], count + 1)

def debugLineBuildDwarf (dies : List DwarfDie) (dbg : Dwarf) (offset : Word) :
    List DwarfDie × Int :=
  match dbg with
  | none => (dies, -1)
  | some units => debugLineLoop offset units (dies, 0)

/-- `none` when the file cannot be opened or is no ELF file. -/
def debugLineBuildFile (dies : List DwarfDie) (file : Option (Elf × Dwarf)) (start : Word) :
    List DwarfDie × Int :=
  match file with
  | none => (dies, -1)
  | some (elf, dbg) =>
      let offset := if elf.type = .exec then 0 else start
      debugLineBuildDwarf dies dbg offset

/-- The runtime address at which `debug_line_search_dwdie` sees a row. -/
def DwarfDie.rowAddress (dd : DwarfDie) (row : LineRow) : Word := row.address + dd.offset

/-- The bisection of `debug_line_search_dwdie`, in at most `fuel` probes. -/
def debugLineBisect (dd : DwarfDie) (address : Word) : Nat → Int → Int → Option (String × Int)
  | 0, _, _ => none
  | fuel + 1, min, max =>
      if min ≤ max then
        let mid := (min + max) / 2
        match dd.lines[mid.toNat]?, dd.lines[mid.toNat + 1]? with
        | some line1, some line2 =>
            if address < dd.rowAddress line1 then debugLineBisect dd address fuel min (mid - 1)
            else if address > dd.rowAddress line2 then
              debugLineBisect dd address fuel (mid + 1) max
            else some (line1.source, line1.lineno)
        | _, _ => none
      else none

/-- Every probe halves the rows that are left, so there are fewer probes than
rows. -/
def debugLineSearchDwdie (dd : DwarfDie) (address : Word) : Option (String × Int) :=
  debugLineBisect dd address dd.lines.length 0 (dd.lines.length - 2)

/-! ## The two translations -/

/-- Where `symtab_build_file` puts the ELF address `v`. -/
def symtabTranslate (elf : Elf) (start v : Word) : Word :=
  if elf.type = .dyn then v - firstLoad elf.phdrs + start else v

/-- Where `debug_line_build_file` puts the ELF address `v`. -/
def lineTranslate (elf : Elf) (start v : Word) : Word :=
  v + if elf.type = .exec then 0 else start

theorem symtabBuildFile_eq (table : List Symbol) (elf : Elf) (start : Word) :
    (symtabBuildFile table (some elf) start).1 =
      table ++ elf.functions.map fun esym => esym.at (symtabTranslate elf start esym.value) := by
  by_cases hdyn : elf.type = .dyn
  · rw [symtabBuildFile_dyn table hdyn]
    simp only [symtabTranslate, if_pos hdyn]
  · rw [symtabBuildFile_of_ne table hdyn]
    simp only [symtabTranslate, if_neg hdyn]

theorem debugLineLoop_offset {offset : Word} {units : List (Option (List LineRow))}
    {dies : List DwarfDie} {count : Int} (h : ∀ dd ∈ dies, dd.offset = offset) :
    ∀ dd ∈ (debugLineLoop offset units (dies, count)).1, dd.offset = offset := by
  induction units generalizing dies count with
  | nil => exact h
  | cons rows rest ih =>
      rcases rows with _ | _ | ⟨first, rows⟩
      · exact ih h
      · exact ih h
      · rw [debugLineLoop]
        apply ih
        intro dd hdd
        rcases List.mem_append.mp hdd with hdd | hdd
        · exact h dd hdd
        · rw [List.mem_singleton.mp hdd]
          rfl

/-- Every row is seen at its translated address. -/
theorem rowAddress_eq (elf : Elf) (dbg : Dwarf) (start : Word) {dd : DwarfDie}
    (hdd : dd ∈ (debugLineBuildFile [] (some (elf, dbg)) start).1) (row : LineRow) :
    dd.rowAddress row = lineTranslate elf start row.address := by
  have hoffset : dd.offset = if elf.type = .exec then 0 else start := by
    cases dbg with
    | none => cases hdd
    | some units => exact debugLineLoop_offset (by simp) dd hdd
  rw [DwarfDie.rowAddress, hoffset]
  rfl

/-- The line that is found is that of a row which is seen at or below the
address. -/
theorem debugLineBisect_some {dd : DwarfDie} {address : Word} {r : String × Int} :
    ∀ {fuel : Nat} {min max : Int}, debugLineBisect dd address fuel min max = some r →
      ∃ row ∈ dd.lines, dd.rowAddress row ≤ address ∧ r = (row.source, row.lineno)
  | 0, _, _, h => by cases h
  | fuel + 1, min, max, h => by
      rw [debugLineBisect] at h
      dsimp only at h
      split at h
      · split at h
        · rename_i line1 line2 hline1 hline2
          split at h
          · exact debugLineBisect_some h
          · rename_i hlow
            split at h
            · exact debugLineBisect_some h
            · exact ⟨line1, List.mem_of_getElem? hline1, BitVec.not_lt.mp hlow,
                (Option.some.inj h).symm⟩
        · cases h
      · cases h

/-- Names and lines of a file are placed by the same translation. So the line
that is found for an address in a function is that of a row as far below the
address as it is in the file. -/
structure SameTranslation (elf : Elf) (start : Word) : Prop where
  translate : ∀ v, symtabTranslate elf start v = lineTranslate elf start v
  found : ∀ (dbg : Dwarf), ∀ dd ∈ (debugLineBuildFile [] (some (elf, dbg)) start).1,
    ∀ sym ∈ (symtabBuildFile [] (some elf) start).1, ∀ (d : Word) (r : String × Int),
      debugLineSearchDwdie dd (sym.address + d) = some r →
      ∃ esym ∈ elf.functions, sym.name = esym.name ∧ ∃ row ∈ dd.lines,
        r = (row.source, row.lineno) ∧ dd.rowAddress row ≤ sym.address + d ∧
          sym.address + d - dd.rowAddress row = esym.value + d - row.address

/-- The difference of the two translations, for each type of file. -/
theorem translate_eq_iff (elf : Elf) (start v : Word) :
    symtabTranslate elf start v = lineTranslate elf start v ↔
      elf.type = .exec ∨ (elf.type = .dyn ∧ firstLoad elf.phdrs = 0) ∨
        (elf.type ≠ .dyn ∧ start = 0) := by
  unfold symtabTranslate lineTranslate
  by_cases hexec : elf.type = .exec
  · simp [hexec]
  · by_cases hdyn : elf.type = .dyn
    · rw [if_pos hdyn, if_neg hexec, sub_add_eq_add_iff]
      constructor
      · intro h
        exact Or.inr (Or.inl ⟨hdyn, by simpa using h⟩)
      · rintro (h | ⟨-, h⟩ | ⟨h, -⟩)
        · exact absurd h hexec
        · rw [h, add_zero]
        · exact absurd hdyn h
    · rw [if_neg hdyn, if_neg hexec]
      constructor
      · intro h
        exact Or.inr (Or.inr ⟨hdyn, by simpa using h⟩)
      · rintro (h | ⟨h, -⟩ | ⟨-, h⟩)
        · exact absurd h hexec
        · exact absurd h hdyn
        · rw [h, add_zero]

/-- **Names and lines are placed by the same translation** exactly if the file
is an executable at fixed addresses, or dynamic with its first segment at
address `0`, or of another type and handed in with a mapping start of `0`. -/
theorem same_translation_iff (elf : Elf) (start : Word) :
    SameTranslation elf start ↔
      elf.type = .exec ∨ (elf.type = .dyn ∧ firstLoad elf.phdrs = 0) ∨
        (elf.type ≠ .dyn ∧ start = 0) := by
  constructor
  · intro h
    exact (translate_eq_iff elf start 0).mp (h.translate 0)
  · intro h
    have htranslate : ∀ v, symtabTranslate elf start v = lineTranslate elf start v :=
      fun v => (translate_eq_iff elf start v).mpr h
    refine ⟨htranslate, ?_⟩
    intro dbg dd hdd sym hsym d r hfound
    rw [symtabBuildFile_eq, List.nil_append] at hsym
    obtain ⟨esym, hesym, rfl⟩ := List.mem_map.mp hsym
    obtain ⟨row, hrow, hbelow, hr⟩ := debugLineBisect_some hfound
    refine ⟨esym, hesym, rfl, row, hrow, hr, hbelow, ?_⟩
    rw [rowAddress_eq elf dbg start hdd]
    show symtabTranslate elf start esym.value + d - _ = _
    rw [htranslate]
    unfold lineTranslate
    abel

/-- A prelinked library: its first segment has an address of its own. -/
theorem translations_differ_prelinked :
    ¬ SameTranslation (sampleLibrary [{ vaddr := 0x3A00000000, executable := true }])
      0x3A00000000 := by
  intro h
  have hzero := h.translate 0
  revert hzero
  decide

end Memleax
