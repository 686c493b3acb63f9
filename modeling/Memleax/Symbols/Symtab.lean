import Memleax.Tracer.Breakpoint
import Mathlib.Tactic.Abel

/-!
# The symbol table

`symtab.c`, and the mappings that `proc_maps` of `proc_info.c` hands to it. What
libelf reads from a file is data here (`Elf`): the type of the file, its program
headers and its symbol sections. File offsets of segments are left out, no
function reads them.

`symtab_build_file` places a symbol of a dynamic file at
`st_value - base_addr + start`: `base_addr` belongs to the first loadable
segment and `start` to the segment of an executable mapping. The two have to be
the same segment, or start on the same page, for the sum to be the address at
which the symbol really is.
-/

namespace Memleax

open Framework

/-! ## What libelf reads -/

/-- `e_type`. -/
inductive ElfType where
  | none
  | rel
  | exec
  | dyn
  | core
  | other (number : Nat)
deriving DecidableEq, Repr

/-- A program header: whether `p_type` is `PT_LOAD`, whether `p_flags` has
`PF_X`, and `p_vaddr`. -/
structure Phdr where
  load : Bool := true
  executable : Bool := false
  vaddr : Word
deriving DecidableEq, Repr

/-- A `GElf_Sym` with its name. -/
structure ElfSym where
  name : String
  value : Word
  size : Word
  shndx : BitVec 16
  info : BitVec 8
deriving DecidableEq, Repr

def ElfSym.bind (esym : ElfSym) : BitVec 8 := esym.info >>> 4

def ElfSym.type (esym : ElfSym) : BitVec 8 := esym.info &&& 0xF

def shnUndef : BitVec 16 := 0
def stbWeak : BitVec 8 := 2
def stbNum : BitVec 8 := 3
def sttFunc : BitVec 8 := 2

/-- `sh_type`. -/
inductive ShType where
  | symtab
  | dynsym
  | other
deriving DecidableEq, Repr

/-- A section: its header if `gelf_getshdr` finds one, and its symbols if
`elf_getdata` finds data. -/
structure Section where
  header : Option ShType
  data : Option (List ElfSym)

structure Elf where
  type : ElfType
  phdrs : List Phdr
  sections : List Section := []

/-! ## `symtab.c` -/

structure Symbol where
  address : Word
  size : Word
  weak : Bool
  name : String
deriving DecidableEq, Repr

/-- The symbols that are passed over. -/
def ElfSym.skipped (esym : ElfSym) : Bool :=
  esym.value == 0 || esym.size == 0 || esym.shndx == shnUndef || esym.bind == stbNum ||
    esym.type != sttFunc

/-- The record of a function symbol at `address`. -/
def ElfSym.at (esym : ElfSym) (address : Word) : Symbol where
  address := address
  size := esym.size
  weak := esym.bind == stbWeak
  name := esym.name

/-- The loop over the symbols of a section, with `count`. -/
def symtabLoop (offset baseAddr : Word) : List ElfSym → List Symbol × Nat → List Symbol × Nat
  | [], s => s
  | esym :: rest, (table, count) =>
      if esym.skipped then symtabLoop offset baseAddr rest (table, count)
      else
        symtabLoop offset baseAddr rest
          (table ++ [esym.at (esym.value - baseAddr + offset)], count + 1)

def symtabBuildSection (table : List Symbol) (scn : Section) (offset baseAddr : Word) :
    List Symbol × Nat :=
  match scn.header with
  | none => (table, 0)
  | some .other => (table, 0)
  | some .symtab | some .dynsym =>
      match scn.data with
      | none => (table, 0)
      | some esyms => symtabLoop offset baseAddr esyms (table, 0)

def symtabElfBase : List Phdr → Word
  | [] => 0
  | header :: rest => if header.load then header.vaddr else symtabElfBase rest

/-- The loop over the sections of a file. -/
def symtabSections (offset baseAddr : Word) :
    List Section → List Symbol × Nat → List Symbol × Nat
  | [], s => s
  | scn :: rest, (table, count) =>
      let r := symtabBuildSection table scn offset baseAddr
      symtabSections offset baseAddr rest (r.1, count + r.2)

/-- `symtab_build_file` on a table; `none` when the file cannot be opened or is
no ELF file. -/
def symtabBuildFile (table : List Symbol) (file : Option Elf) (start : Word) : List Symbol × Int :=
  match file with
  | none => (table, -1)
  | some elf =>
      let offset := if elf.type = .dyn then start else 0
      let baseAddr := if elf.type = .dyn then symtabElfBase elf.phdrs else 0
      let r := symtabSections offset baseAddr elf.sections (table, 0)
      (r.1, r.2)

/-- The loop of `symtab_by_name`, with `address`. -/
def symtabByNameLoop (name : String) : List Symbol → Word → Word
  | [], address => address
  | sym :: rest, address =>
      if sym.name = name then
        if sym.weak then
          symtabByNameLoop name rest (if address = 0 then sym.address else address)
        else sym.address
      else symtabByNameLoop name rest address

def symtabByName (table : List Symbol) (name : String) : Word := symtabByNameLoop name table 0

/-- The names that `breakpoint_init` looks up. -/
def Api.name : Api → String
  | .malloc => "malloc"
  | .free => "free"
  | .realloc => "realloc"
  | .calloc => "calloc"

/-! ## `proc_maps` -/

/-- A line of `/proc/pid/maps`, as `sscanf` takes it apart. -/
structure Mapping where
  start : Word
  stop : Word
  /-- `perms[2]` is `x` -/
  executable : Bool
  /-- the word behind the inode, empty for an anonymous mapping -/
  path : String
  /-- another word follows, `(deleted)` as a rule -/
  deleted : Bool := false
deriving DecidableEq, Repr

/-- The mappings that `proc_maps` yields: executable, of a file that is still
there. -/
def procMaps (lines : List Mapping) : List Mapping :=
  lines.filter fun m => m.executable && m.path.toList.head? == some '/' && !m.deleted

/-! ## The recorded symbols -/

/-- The function symbols of a section. -/
def Section.functions (scn : Section) : List ElfSym :=
  match scn.header, scn.data with
  | some .symtab, some esyms => esyms.filter fun esym => !esym.skipped
  | some .dynsym, some esyms => esyms.filter fun esym => !esym.skipped
  | _, _ => []

/-- The function symbols of a file. -/
def Elf.functions (elf : Elf) : List ElfSym := elf.sections.flatMap Section.functions

/-- `p_vaddr` of the first loadable segment, `0` if there is none. -/
def firstLoad (phdrs : List Phdr) : Word := ((phdrs.find? Phdr.load).map Phdr.vaddr).getD 0

theorem symtabElfBase_eq (phdrs : List Phdr) : symtabElfBase phdrs = firstLoad phdrs := by
  induction phdrs with
  | nil => rfl
  | cons header rest ih =>
      rw [symtabElfBase, firstLoad, List.find?_cons]
      cases hload : header.load with
      | true => rfl
      | false => exact ih

theorem symtabLoop_eq (offset baseAddr : Word) (esyms : List ElfSym) (table : List Symbol)
    (count : Nat) :
    symtabLoop offset baseAddr esyms (table, count) =
      (table ++ (esyms.filter fun esym => !esym.skipped).map
          (fun esym => esym.at (esym.value - baseAddr + offset)),
        count + (esyms.filter fun esym => !esym.skipped).length) := by
  induction esyms generalizing table count with
  | nil => simp [symtabLoop]
  | cons esym rest ih =>
      rw [symtabLoop]
      cases hskip : esym.skipped with
      | true => simp [hskip, ih]
      | false =>
          simp only [hskip, Bool.false_eq_true, if_false, ih, List.filter_cons, Bool.not_false,
            if_true, List.map_cons, List.length_cons, List.append_assoc, List.singleton_append]
          rw [Nat.add_assoc, Nat.add_comm 1]

theorem symtabBuildSection_eq (table : List Symbol) (scn : Section) (offset baseAddr : Word) :
    symtabBuildSection table scn offset baseAddr =
      (table ++ scn.functions.map (fun esym => esym.at (esym.value - baseAddr + offset)),
        scn.functions.length) := by
  obtain ⟨header, data⟩ := scn
  unfold symtabBuildSection Section.functions
  cases header with
  | none => simp
  | some shType =>
      cases shType with
      | other => simp
      | symtab =>
          cases data with
          | none => simp
          | some esyms => simp [symtabLoop_eq]
      | dynsym =>
          cases data with
          | none => simp
          | some esyms => simp [symtabLoop_eq]

theorem symtabSections_eq (offset baseAddr : Word) (sections : List Section)
    (table : List Symbol) (count : Nat) :
    (symtabSections offset baseAddr sections (table, count)).1 =
      table ++ (sections.flatMap Section.functions).map
        (fun esym => esym.at (esym.value - baseAddr + offset)) := by
  induction sections generalizing table count with
  | nil => simp [symtabSections]
  | cons scn rest ih =>
      simp only [symtabSections, symtabBuildSection_eq, ih, List.flatMap_cons, List.map_append,
        List.append_assoc]

theorem symtabBuildFile_dyn (table : List Symbol) {elf : Elf} (hdyn : elf.type = .dyn)
    (start : Word) :
    (symtabBuildFile table (some elf) start).1 =
      table ++ elf.functions.map
        fun esym => esym.at (esym.value - firstLoad elf.phdrs + start) := by
  simp only [symtabBuildFile, hdyn, if_true, symtabSections_eq, symtabElfBase_eq, Elf.functions]

theorem symtabBuildFile_of_ne (table : List Symbol) {elf : Elf} (hdyn : elf.type ≠ .dyn)
    (start : Word) :
    (symtabBuildFile table (some elf) start).1 =
      table ++ elf.functions.map fun esym => esym.at esym.value := by
  simp [symtabBuildFile, hdyn, symtabSections_eq, Elf.functions]

theorem symtabByNameLoop_mem {name : String} {table : List Symbol} {address : Word}
    (h : symtabByNameLoop name table address ≠ 0) :
    symtabByNameLoop name table address = address ∨
      ∃ sym ∈ table, sym.name = name ∧ symtabByNameLoop name table address = sym.address := by
  induction table generalizing address with
  | nil => exact Or.inl rfl
  | cons sym rest ih =>
      have hrest : ∀ a, symtabByNameLoop name rest a ≠ 0 →
          symtabByNameLoop name rest a = a ∨ ∃ s ∈ sym :: rest, s.name = name ∧
            symtabByNameLoop name rest a = s.address := by
        intro a ha
        rcases ih ha with hsame | ⟨s, hs, hname, haddr⟩
        · exact Or.inl hsame
        · exact Or.inr ⟨s, List.mem_cons_of_mem _ hs, hname, haddr⟩
      rw [symtabByNameLoop] at h ⊢
      by_cases hname : sym.name = name
      · rw [if_pos hname] at h ⊢
        split at h
        · rename_i hweak
          rw [if_pos hweak]
          rcases hrest _ h with hsame | hmem
          · by_cases hzero : address = 0
            · rw [if_pos hzero] at hsame ⊢
              exact Or.inr ⟨sym, List.mem_cons_self, hname, hsame⟩
            · rw [if_neg hzero] at hsame ⊢
              exact Or.inl hsame
          · exact Or.inr hmem
        · rename_i hstrong
          rw [if_neg hstrong]
          exact Or.inr ⟨sym, List.mem_cons_self, hname, rfl⟩
      · rw [if_neg hname] at h ⊢
        exact hrest address h

theorem symtabByName_mem {name : String} {table : List Symbol} (h : symtabByName table name ≠ 0) :
    ∃ sym ∈ table, sym.name = name ∧ symtabByName table name = sym.address := by
  rcases symtabByNameLoop_mem h with hzero | hmem
  · exact absurd hzero h
  · exact hmem

/-! ## Runtime addresses -/

/-- The start of the page of an address. -/
def pageDown (a : Word) : Word := a &&& ~~~0xFFF

/-- The mapping `m` is that of segment `seg`, which has been loaded `bias` above
its virtual address. -/
structure Loaded (bias : Word) (seg : Phdr) (m : Mapping) : Prop where
  load : seg.load = true
  start : m.start = pageDown (bias + seg.vaddr)
  executable : m.executable = seg.executable

/-- The symbols of a file that has been loaded at `bias` are recorded at their
runtime addresses, and there the trap bytes are written. -/
structure RuntimeAddresses (elf : Elf) (bias start : Word) : Prop where
  recorded : (symtabBuildFile [] (some elf) start).1 =
    elf.functions.map fun esym => esym.at (esym.value + bias)
  hooked : ∀ (s i : Init) (api : Api),
    doBreakpointInit (fun api => symtabByName (symtabBuildFile [] (some elf) start).1 api.name)
      s api = some i →
    ∃ esym ∈ elf.functions, esym.name = api.name ∧ ∃ w : Write,
      i.writes = s.writes ++ [w] ∧ w.address = esym.value + bias

/-- The two ways to place a symbol differ by the same amount everywhere. -/
theorem sub_add_eq_add_iff (value base start bias : Word) :
    value - base + start = value + bias ↔ start = bias + base := by
  constructor
  · intro h
    have hadd := congrArg (fun x => x - value + base) h
    rw [show value - base + start - value + base = start by abel,
      show value + bias - value + base = bias + base by abel] at hadd
    exact hadd
  · rintro rfl
    abel

/-- **Symbol addresses are runtime addresses** of an executable mapping of a
dynamic file exactly if its segment starts on the page that begins at the first
loadable segment, or the file has no function symbols. -/
theorem symbol_addresses_iff {elf : Elf} (hdyn : elf.type = .dyn) (bias : Word)
    {lines : List Mapping} {m : Mapping} (_hm : m ∈ procMaps lines) {seg : Phdr}
    (_hseg : seg ∈ elf.phdrs) (hload : Loaded bias seg m) :
    RuntimeAddresses elf bias m.start ↔
      elf.functions = [] ∨ pageDown (bias + seg.vaddr) = bias + firstLoad elf.phdrs := by
  have htable := symtabBuildFile_dyn [] hdyn m.start
  rw [List.nil_append] at htable
  rw [← hload.start]
  constructor
  · intro h
    cases hfun : elf.functions with
    | nil => exact Or.inl rfl
    | cons esym rest =>
        have heq := htable.symm.trans h.recorded
        rw [hfun, List.map_cons, List.map_cons] at heq
        have haddr := congrArg Symbol.address (List.cons.inj heq).1
        exact Or.inr ((sub_add_eq_add_iff _ _ _ _).mp haddr)
  · intro h
    have hrecorded : (symtabBuildFile [] (some elf) m.start).1 =
        elf.functions.map fun esym => esym.at (esym.value + bias) := by
      rw [htable]
      rcases h with hnil | hstart
      · rw [hnil]
        rfl
      · apply List.map_congr_left
        intro esym _
        rw [(sub_add_eq_add_iff _ _ _ _).mpr hstart]
    refine ⟨hrecorded, ?_⟩
    intro s i api hinit
    obtain ⟨hne, w, rfl, rfl⟩ := doBreakpointInit_eq_some hinit
    obtain ⟨sym, hsym, hname, haddr⟩ := symtabByName_mem hne
    rw [hrecorded] at hsym
    obtain ⟨esym, hesym, rfl⟩ := List.mem_map.mp hsym
    exact ⟨esym, hesym, hname, _, rfl, haddr⟩

/-- A function symbol `malloc` in the text of a library. -/
def sampleSymbol : ElfSym where
  name := "malloc"
  value := 0x1040
  size := 0x20
  shndx := 12
  info := 0x12

/-- A library with the given segments that exports `malloc`. -/
def sampleLibrary (phdrs : List Phdr) : Elf where
  type := .dyn
  phdrs := phdrs
  sections := [⟨some .dynsym, some [sampleSymbol]⟩]

/-- Headers and read-only data come first, the text has a segment of its own. -/
def separateCode : List Phdr := [{ vaddr := 0 }, { vaddr := 0x1000, executable := true }]

/-- The mapping of an executable segment. -/
def sampleMapping (start : Word) : Mapping where
  start := start
  stop := start + 0x1000
  executable := true
  path := "/lib/libc.so.6"

/-- With a segment of its own the text starts a page above the first segment,
and so does the recorded `malloc`. -/
theorem symbol_addresses_fail_separateCode :
    (sampleMapping 0x7F0000001000) ∈ procMaps [sampleMapping 0x7F0000001000] ∧
      { vaddr := 0x1000, executable := true } ∈ (sampleLibrary separateCode).phdrs ∧
      Loaded 0x7F0000000000 { vaddr := 0x1000, executable := true }
        (sampleMapping 0x7F0000001000) ∧
      ¬ RuntimeAddresses (sampleLibrary separateCode) 0x7F0000000000 0x7F0000001000 := by
  refine ⟨by decide, by decide, ⟨rfl, by decide, rfl⟩, ?_⟩
  intro h
  have haddr := congrArg (List.map Symbol.address) h.recorded
  revert haddr
  decide

/-- A library whose first segment holds the text. -/
theorem symbol_addresses_firstSegment :
    RuntimeAddresses (sampleLibrary [{ vaddr := 0, executable := true }, { vaddr := 0x201000 }])
      0x7F0000000000 0x7F0000000000 := by
  have hm : (sampleMapping 0x7F0000000000) ∈ procMaps [sampleMapping 0x7F0000000000] := by decide
  have hload : Loaded 0x7F0000000000 { vaddr := 0, executable := true }
      (sampleMapping 0x7F0000000000) := ⟨rfl, by decide, rfl⟩
  exact (symbol_addresses_iff rfl 0x7F0000000000 hm List.mem_cons_self hload).mpr
    (Or.inr (by decide))

end Memleax
