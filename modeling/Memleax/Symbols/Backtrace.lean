import Memleax.Framework.Scanf
import Memleax.Symbols.AddrMaps
import Memleax.Symbols.LineLookup
import Memleax.Symbols.SymbolLookup

/-!
# The printed backtrace

`callstack_print` goes through the words of a backtrace and prints for each of them the
library, the function and the source line that the tables have for it.

The tables are built from files, and the files are loaded somewhere. `loadedFunctions` and
`loadedUnits` are the functions and the line rows of the program where the loader has put
them. `backtrace_truthful` says that the printed lines are true of the program, if
functions and units do not overlap and the words are those of calls: none is the end of a
mapping, and no row begins at the byte before it.
-/

namespace Memleax

open Framework

/-! ## `callstack_print` -/

/-- A line of the output. -/
structure PrintedFrame where
  address : Word
  library : String
  function : Option (String × CInt)
  line : Option (String × Int)
deriving DecidableEq, Repr

def PrintedFrame.functionText (f : PrintedFrame) : String :=
  f.function.elim "" fun r => "  " ++ r.1 ++ "()+" ++ toString r.2.toInt

def PrintedFrame.lineText (f : PrintedFrame) : String :=
  f.line.elim "" fun r =>
    (if f.function.isNone then "  ?()" else "") ++ "  " ++ r.1 ++ ":" ++ toString r.2

def PrintedFrame.text (f : PrintedFrame) : String :=
  "    0x" ++ String.ofList (Scanf.printNat 16 16 f.address.toNat) ++ "  " ++ f.library ++
    f.functionText ++ f.lineText ++ "\n"

/-- `proc_name && strcmp(proc_name, "main") == 0` -/
def PrintedFrame.inMain (f : PrintedFrame) : Bool := f.function.any fun r => r.1 == "main"

/-- `g_addr_maps`, `g_symbol_table` and `g_dwarf_dies`. -/
structure DebugTables where
  maps : List AddrMap
  symbols : List Symbol
  dies : List DwarfDie

/-- The body of the loop. A word is a return address, so the line is that of the byte before. -/
def DebugTables.frame (t : DebugTables) (address : Word) : PrintedFrame where
  address := address
  library := addrMapsSearch t.maps address
  function := symtabByAddress t.symbols address
  line := debugLineSearch t.dies (address - 1)

def callstackPrint (t : DebugTables) : List Word → List PrintedFrame
  | [] => []
  | address :: rest =>
      if address = 0 then []
      else if (t.frame address).inMain then [t.frame address]
      else t.frame address :: callstackPrint t rest

def callstackPrintText (t : DebugTables) (ips : List Word) : String :=
  String.join ((callstackPrint t ips).map PrintedFrame.text)

/-! ## What is loaded -/

/-- The function symbols are those of the first file that has any. -/
def symbolFile (files : List (Option Elf)) : Option Elf :=
  files.findSome? fun file => file.filter fun elf => !elf.functions.isEmpty

/-- The units with line rows. -/
def Dwarf.units (dbg : Dwarf) : List (List LineRow) :=
  (dbg.getD []).filterMap fun rows => rows.filter fun rows => !rows.isEmpty

def lineFile (files : List (Option (Elf × Dwarf))) : Option (Elf × Dwarf) :=
  files.findSome? fun file => file.filter fun file => !(Dwarf.units file.2).isEmpty

/-- A unit of a file that is loaded at `bias`. -/
def unitAt (bias : Word) : List LineRow → Option DwarfDie
  | [] => none
  | first :: rest => some (dwarfDie bias first rest)

section Loaded

variable (symFiles : Mapping → List (Option Elf))
  (lineFiles : Mapping → List (Option (Elf × Dwarf))) (bias : Mapping → Word)
  (lines : List Mapping)

/-- The functions of the program, at their addresses. -/
def loadedFunctions : List Symbol :=
  (procMaps lines).flatMap fun m => ((symbolFile (symFiles m)).elim [] Elf.functions).map
    fun esym => esym.at (esym.value + bias m)

/-- The units of the program, at their addresses. -/
def loadedUnits : List DwarfDie :=
  (procMaps lines).flatMap fun m =>
    ((lineFile (lineFiles m)).elim [] fun file => Dwarf.units file.2).filterMap (unitAt (bias m))

/-- The mapping starts where the first segment of its file has been loaded, and an executable
of a fixed address is where it says. -/
structure FilePlaced (m : Mapping) : Prop where
  symbols : ∀ elf, symbolFile (symFiles m) = some elf →
    (elf.type = .dyn → m.start = bias m + firstLoad elf.phdrs) ∧ (elf.type ≠ .dyn → bias m = 0)
  lines : ∀ file, lineFile (lineFiles m) = some file →
    (file.1.type ≠ .exec → m.start = bias m) ∧ (file.1.type = .exec → bias m = 0)

end Loaded

theorem symtabSections_snd (offset baseAddr : Word) (sections : List Section)
    (table : List Symbol) (count : Nat) :
    (symtabSections offset baseAddr sections (table, count)).2 =
      count + (sections.flatMap Section.functions).length := by
  induction sections generalizing table count with
  | nil => simp [symtabSections]
  | cons scn rest ih =>
      simp only [symtabSections, symtabBuildSection_eq, ih, List.flatMap_cons, List.length_append]
      omega

theorem symtabBuildFile_snd (table : List Symbol) (elf : Elf) (start : Word) :
    (symtabBuildFile table (some elf) start).2 = elf.functions.length := by
  simp [symtabBuildFile, symtabSections_snd, Elf.functions]

/-- A file without function symbols is passed over. -/
theorem debugTry_symtabBuildFile (start : Word) (files : List (Option Elf))
    (table : List Symbol) :
    debugTry symtabBuildFile start files table =
      table ++ (symbolFile files).elim [] fun elf =>
        elf.functions.map fun esym => esym.at (symtabTranslate elf start esym.value) := by
  induction files with
  | nil => simp [debugTry, symbolFile]
  | cons file files ih =>
      rw [debugTry, symbolFile, List.findSome?_cons]
      cases file with
      | none => exact ih
      | some elf =>
          rw [symtabBuildFile_snd, symtabBuildFile_eq]
          by_cases hnil : elf.functions = []
          · have hnone : (some elf).filter (fun elf => !elf.functions.isEmpty) = none := by
              simp [hnil]
            rw [hnone, hnil, if_neg (by simp)]
            simpa [symbolFile] using ih
          · have hsome : (some elf).filter (fun elf => !elf.functions.isEmpty) = some elf := by
              simp [hnil]
            have hpos : 0 < elf.functions.length := List.length_pos_iff.mpr hnil
            rw [hsome, if_pos (by exact_mod_cast hpos)]
            rfl

theorem debugLineLoop_eq (offset : Word) (units : List (Option (List LineRow)))
    (dies : List DwarfDie) (count : Int) :
    debugLineLoop offset units (dies, count) =
      (dies ++ (Dwarf.units (some units)).filterMap (unitAt offset),
        count + (Dwarf.units (some units)).length) := by
  induction units generalizing dies count with
  | nil => simp [debugLineLoop, Dwarf.units]
  | cons rows rest ih =>
      rcases rows with _ | _ | ⟨first, rows⟩
      · rw [debugLineLoop, ih]
        simp [Dwarf.units]
      · rw [debugLineLoop, ih]
        simp [Dwarf.units]
      · rw [debugLineLoop, ih]
        simp only [Dwarf.units, Option.getD_some, List.filterMap_cons, Option.filter_some,
          List.isEmpty_cons, Bool.not_false, if_true, unitAt, List.append_assoc,
          List.singleton_append, List.length_cons]
        congr 1
        push_cast
        omega

/-- A file without line rows is passed over. -/
theorem debugTry_debugLineBuildFile (start : Word) (files : List (Option (Elf × Dwarf)))
    (dies : List DwarfDie) :
    debugTry debugLineBuildFile start files dies =
      dies ++ (lineFile files).elim [] fun file =>
        (Dwarf.units file.2).filterMap (unitAt (lineTranslate file.1 start 0)) := by
  induction files with
  | nil => simp [debugTry, lineFile]
  | cons file files ih =>
      rw [debugTry, lineFile, List.findSome?_cons]
      rcases file with _ | ⟨elf, _ | units⟩
      · exact ih
      · exact ih
      · have hbuild : debugLineBuildFile dies (some (elf, some units)) start =
            (dies ++ (Dwarf.units (some units)).filterMap (unitAt (lineTranslate elf start 0)),
              ((Dwarf.units (some units)).length : Int)) := by
          rw [debugLineBuildFile, lineTranslate, zero_add]
          show debugLineLoop _ units (dies, 0) = _
          rw [debugLineLoop_eq, Int.zero_add]
        rw [hbuild]
        by_cases hnil : Dwarf.units (some units) = []
        · have hnone : (some (elf, some units)).filter
              (fun file : Elf × Dwarf => !(Dwarf.units file.2).isEmpty) = none := by
            simp [hnil]
          rw [hnone, hnil, if_neg (by simp)]
          simpa [lineFile] using ih
        · have hsome : (some (elf, some units)).filter
              (fun file : Elf × Dwarf => !(Dwarf.units file.2).isEmpty) =
                some (elf, some units) := by
            simp [hnil]
          have hpos : 0 < (Dwarf.units (some units)).length := List.length_pos_iff.mpr hnil
          have hyields : ((Dwarf.units (some units)).length : Int) > 0 := by exact_mod_cast hpos
          rw [hsome, if_pos hyields]
          rfl

theorem buildMaps_eq_flatMap {σ ε : Type} {buildFile : List σ → ε → Word → List σ × Int}
    {files : Mapping → List ε} {items : Mapping → List σ} {lines : List Mapping}
    (h : ∀ m ∈ procMaps lines, ∀ table,
      debugTry buildFile m.start (files m) table = table ++ items m) :
    buildMaps buildFile files lines = (procMaps lines).flatMap items := by
  have hfold : ∀ maps : List Mapping, (∀ m ∈ maps, ∀ table,
      debugTry buildFile m.start (files m) table = table ++ items m) → ∀ table,
        maps.foldl (fun table m => debugTry buildFile m.start (files m) table) table =
          table ++ maps.flatMap items := by
    intro maps
    induction maps with
    | nil =>
        intro _ table
        simp
    | cons m maps ih =>
        intro hmaps table
        rw [List.forall_mem_cons] at hmaps
        rw [List.foldl_cons, hmaps.1, ih hmaps.2, List.flatMap_cons, List.append_assoc]
  exact hfold _ h []

section Tables

variable {symFiles : Mapping → List (Option Elf)}
  {lineFiles : Mapping → List (Option (Elf × Dwarf))} {bias : Mapping → Word}
  {lines : List Mapping} (hplaced : ∀ m ∈ procMaps lines, FilePlaced symFiles lineFiles bias m)

include hplaced

theorem symtabBuild_perm {qsort : (Symbol → Symbol → CInt) → List Symbol → List Symbol}
    (hqsort : SortsBy Symbol.address qsort) :
    (symtabBuild qsort symFiles lines).Perm (loadedFunctions symFiles bias lines) := by
  refine ((hqsort _).1).trans (.of_eq (buildMaps_eq_flatMap fun m hm table => ?_))
  rw [debugTry_symtabBuildFile]
  congr 1
  cases hfile : symbolFile (symFiles m) with
  | none => rfl
  | some elf =>
      obtain ⟨hdyn, hexec⟩ := (hplaced m hm).symbols elf hfile
      refine List.map_congr_left fun esym _ => congrArg esym.at ?_
      rw [symtabTranslate]
      split
      · rename_i htype
        exact (sub_add_eq_add_iff _ _ _ _).mpr (hdyn htype)
      · rename_i htype
        rw [hexec htype, add_zero]

theorem debugLineBuild_perm
    {qsort : (DwarfDie → DwarfDie → CInt) → List DwarfDie → List DwarfDie}
    (hqsort : SortsBy DwarfDie.start qsort) :
    (debugLineBuild qsort lineFiles lines).Perm (loadedUnits lineFiles bias lines) := by
  refine ((hqsort _).1).trans (.of_eq (buildMaps_eq_flatMap fun m hm table => ?_))
  rw [debugTry_debugLineBuildFile]
  congr 1
  cases hfile : lineFile (lineFiles m) with
  | none => rfl
  | some file =>
      obtain ⟨hdyn, hexec⟩ := (hplaced m hm).lines file hfile
      have hbias : lineTranslate file.1 m.start 0 = bias m := by
        rw [lineTranslate, zero_add]
        split
        · rename_i htype
          exact (hexec htype).symm
        · rename_i htype
          exact hdyn htype
      rw [Option.elim_some, hbias]
      rfl

end Tables

/-! ## What is found in the tables -/

/-- Functions of less than 2 GiB. One that begins within another is another name of it. -/
structure FunctionsApart (functions : List Symbol) : Prop where
  sizes : ∀ sym ∈ functions, sym.NoWrap ∧ sym.size.toNat ≤ 2 ^ 31
  apart : ∀ a ∈ functions, ∀ b ∈ functions, a.Covers b.address →
    b.address = a.address ∧ b.size = a.size

/-- Units that do not overlap, with their rows in order. -/
structure UnitsApart (units : List DwarfDie) : Prop where
  nonempty : ∀ dd ∈ units, dd.start < dd.stop
  apart : units.Pairwise fun a b => a.stop ≤ b.start ∨ b.stop ≤ a.start
  ascending : ∀ dd ∈ units, dd.lines.Pairwise fun r s => dd.rowAddress r ≤ dd.rowAddress s

theorem FunctionsApart.perm {l l' : List Symbol} (h : FunctionsApart l) (hperm : l'.Perm l) :
    FunctionsApart l' where
  sizes sym hsym := h.sizes sym (hperm.mem_iff.mp hsym)
  apart a ha b hb := h.apart a (hperm.mem_iff.mp ha) b (hperm.mem_iff.mp hb)

theorem UnitsApart.perm {l l' : List DwarfDie} (h : UnitsApart l) (hperm : l'.Perm l) :
    UnitsApart l' where
  nonempty dd hdd := h.nonempty dd (hperm.mem_iff.mp hdd)
  apart := (hperm.pairwise_iff fun hab => hab.symm).mpr h.apart
  ascending dd hdd := h.ascending dd (hperm.mem_iff.mp hdd)

section Lookups

variable {table : List Symbol} {dies : List DwarfDie} {address : Word}

/-- The search for a function is not led astray by functions with two names. -/
theorem lookupRight_of_apart (hsorted : Ascending Symbol.address table)
    (h : FunctionsApart table) : LookupRight table address := by
  have hwrap : ∀ sym ∈ table, sym.NoWrap := fun sym hsym => (h.sizes sym hsym).1
  cases hres : bisectList (Symbol.test address) table with
  | none =>
      have hlookup : symtabByAddress table address = none := by
        rw [symtabByAddress, hres]
        rfl
      refine ⟨iff_of_true hlookup ?_, fun name offset hsome => by cases hlookup.symm.trans hsome⟩
      intro sym hsym hcovers
      obtain ⟨k, hk⟩ := List.mem_iff_getElem?.mp hsym
      have hfound : ∃ i, bisectList (Symbol.test address) table = some i := by
        refine bisectList_isSome hk ((Symbol.test_eq_iff (hwrap sym hsym)).mpr hcovers) ?_
        intro j other hj
        have hother := List.mem_of_getElem? hj
        obtain ⟨hjl, rfl⟩ := List.getElem?_eq_some_iff.mp hj
        obtain ⟨hkl, rfl⟩ := List.getElem?_eq_some_iff.mp hk
        constructor
        · intro hlt htest
          have hle := List.pairwise_iff_getElem.mp hsorted j k hjl hkl hlt
          have hstart := BitVec.lt_def.mp (Symbol.test_lt_iff.mp htest)
          have hle := BitVec.le_def.mp hle
          have hcovers := hcovers.1
          omega
        · intro hlt htest
          have hle := BitVec.le_def.mp (List.pairwise_iff_getElem.mp hsorted k j hkl hjl hlt)
          have hbelow : table[j].address.toNat ≤ address.toNat := by
            by_contra hnot
            have hlt := Symbol.test_lt_iff.mpr (BitVec.lt_def.mpr (Nat.lt_of_not_le hnot))
            cases hlt.symm.trans htest
          -- it begins within the one that is looked for, so it covers the address as well
          obtain ⟨haddress, hsize⟩ := h.apart _ hsym _ hother ⟨hle, by
            have hend := hcovers.2
            omega⟩
          have hsame : table[j].Covers address := by
            rw [Symbol.Covers, haddress, hsize]
            exact hcovers
          cases ((Symbol.test_eq_iff (hwrap _ hother)).mpr hsame).symm.trans htest
      rcases hfound with ⟨i, hi⟩
      cases hres.symm.trans hi
  | some k =>
      obtain ⟨sym, hk, hcovers, -⟩ := (bisectSymbols_eq_some_iff hsorted hwrap).mp hres
      have hmem := List.mem_of_getElem? hk
      have hlookup := symtabByAddress_eq_some hk hres
      refine ⟨iff_of_false (by rw [hlookup]; simp) fun hnone => hnone sym hmem hcovers, ?_⟩
      intro name offset hsome
      obtain ⟨rfl, rfl⟩ := Prod.mk.inj (Option.some.inj (hlookup.symm.trans hsome))
      refine ⟨sym, hmem, hcovers, rfl, (toInt_offset_iff hcovers.1).mpr ⟨rfl, ?_⟩⟩
      have hsize := (h.sizes sym hmem).2
      have hend := hcovers.2
      omega

/-- A unit as `debug_line_build_dwarf` records it. -/
def DwarfDie.Recorded (dd : DwarfDie) : Prop := ∃ bias first rest, dd = dwarfDie bias first rest

theorem DwarfDie.Recorded.bounds {dd : DwarfDie} (h : dd.Recorded)
    (hrows : dd.lines.Pairwise fun r s => dd.rowAddress r ≤ dd.rowAddress s) :
    ∀ row ∈ dd.lines, dd.start ≤ dd.rowAddress row ∧ dd.rowAddress row ≤ dd.stop := by
  rcases h with ⟨bias, first, rest, rfl⟩
  intro row hrow
  change row ∈ first :: rest at hrow
  change (first :: rest).Pairwise _ at hrows
  constructor
  · rcases List.mem_cons.mp hrow with rfl | hmem
    · exact BitVec.le_refl _
    · exact (List.pairwise_cons.mp hrows).1 row hmem
  · have hlast := List.dropLast_append_getLast (List.cons_ne_nil first rest)
    rw [← hlast, List.pairwise_append] at hrows
    rw [← hlast] at hrow
    rcases List.mem_append.mp hrow with hmem | hmem
    · exact hrows.2.2 row hmem _ (List.mem_singleton_self _)
    · rw [List.mem_singleton.mp hmem]
      exact BitVec.le_refl _

section Units

variable {dd : DwarfDie} {u k : Nat} {row next : LineRow}

/-- Within a unit the search for it ends there. -/
theorem UnitsApart.unitReached (h : UnitsApart dies) (hsorted : Ascending DwarfDie.start dies)
    (hu : dies[u]? = some dd) (hstart : dd.start < address) (hstop : address < dd.stop) :
    UnitReached dies address u dd := by
  refine ⟨hu, ⟨BitVec.le_of_lt hstart, BitVec.le_of_lt hstop⟩, ?_, ?_⟩
  · intro j _ hlt other hj
    obtain ⟨hjl, rfl⟩ := List.getElem?_eq_some_iff.mp hj
    obtain ⟨hul, rfl⟩ := List.getElem?_eq_some_iff.mp hu
    have hle := List.pairwise_iff_getElem.mp hsorted j u hjl hul hlt
    have hapart := List.pairwise_iff_getElem.mp h.apart j u hjl hul hlt
    simp only [BitVec.lt_def, BitVec.le_def] at *
    omega
  · intro j _ hlt other hj
    have hnonempty := h.nonempty other (List.mem_of_getElem? hj)
    obtain ⟨hjl, rfl⟩ := List.getElem?_eq_some_iff.mp hj
    obtain ⟨hul, rfl⟩ := List.getElem?_eq_some_iff.mp hu
    have hle := List.pairwise_iff_getElem.mp hsorted u j hul hjl hlt
    have hapart := List.pairwise_iff_getElem.mp h.apart u j hul hjl hlt
    simp only [BitVec.lt_def, BitVec.le_def] at *
    omega

/-- Between two rows the search for the row ends there. -/
theorem rowReached_of_ascending
    (hrows : dd.lines.Pairwise fun r s => dd.rowAddress r ≤ dd.rowAddress s)
    (hrow : dd.lines[k]? = some row) (hnext : dd.lines[k + 1]? = some next)
    (hlow : dd.rowAddress row < address) (hhigh : address < dd.rowAddress next) :
    RowReached dd address k row next := by
  have hle : ∀ {i j : Nat} {r s : LineRow}, i ≤ j → dd.lines[i]? = some r →
      dd.lines[j]? = some s → (dd.rowAddress r).toNat ≤ (dd.rowAddress s).toNat := by
    intro i j r s hij hi hj
    obtain ⟨hil, rfl⟩ := List.getElem?_eq_some_iff.mp hi
    obtain ⟨hjl, rfl⟩ := List.getElem?_eq_some_iff.mp hj
    rcases Nat.eq_or_lt_of_le hij with rfl | hlt
    · exact Nat.le_refl _
    · exact BitVec.le_def.mp (List.pairwise_iff_getElem.mp hrows i j hil hjl hlt)
  refine ⟨hrow, hnext, ⟨BitVec.le_of_lt hlow, BitVec.le_of_lt hhigh⟩, ?_, ?_⟩
  · intro j _ hlt low high hj hj'
    have hfirst := hle (Nat.le_of_lt hlt) hj hrow
    have hsecond := hle hlt hj' hrow
    simp only [BitVec.lt_def, BitVec.le_def] at *
    omega
  · intro j _ hlt low hj
    have hbelow := hle hlt hnext hj
    simp only [BitVec.lt_def] at *
    omega

end Units

/-- At a byte at which no row begins the search for a line finds it. -/
theorem lineRight_of_apart (hsorted : Ascending DwarfDie.start dies)
    (hrecorded : ∀ dd ∈ dies, dd.Recorded) (h : UnitsApart dies)
    (haddress : ∀ dd ∈ dies, ∀ row ∈ dd.lines, dd.rowAddress row ≠ address) :
    LineRight dies address := by
  have hsome := fun r => @debugLineSearch_eq_some_iff dies address hsorted r
  constructor
  · rintro ⟨dd, hdd, row, k, next, hrow, hnext, hlow, hhigh⟩
    refine ⟨dd, hdd, row, ⟨k, next, hrow, hnext, hlow, hhigh⟩, ?_⟩
    obtain ⟨u, hu⟩ := List.mem_iff_getElem?.mp hdd
    have hrows := h.ascending dd hdd
    have hbounds := (hrecorded dd hdd).bounds hrows
    have hstart := (hbounds row (List.mem_of_getElem? hrow)).1
    have hstop := (hbounds next (List.mem_of_getElem? hnext)).2
    have hne := haddress dd hdd row (List.mem_of_getElem? hrow)
    have hstrict : dd.rowAddress row < address := by
      simp only [BitVec.lt_def, BitVec.le_def, ne_eq, BitVec.toNat_eq] at *
      omega
    refine (hsome _).mpr ⟨u, dd, k, row, next, ?_, ?_, rfl⟩
    · refine h.unitReached hsorted hu ?_ ?_
      · simp only [BitVec.lt_def, BitVec.le_def] at *
        omega
      · simp only [BitVec.lt_def, BitVec.le_def] at *
        omega
    · exact rowReached_of_ascending hrows hrow hnext hstrict hhigh
  · intro hnone
    cases hres : debugLineSearch dies address with
    | none => rfl
    | some r =>
        obtain ⟨u, dd, k, row, next, hunit, hrow, -⟩ := (hsome r).mp hres
        have hdd := List.mem_of_getElem? hunit.get
        have hne := haddress dd hdd next (List.mem_of_getElem? hrow.getNext)
        have hle := hrow.within.2
        refine absurd (hrow.covers ?_) (hnone dd hdd row)
        simp only [BitVec.lt_def, BitVec.le_def, ne_eq, BitVec.toNat_eq] at *
        omega

end Lookups

/-! ## The printed lines -/

section Truthful

variable (symFiles : Mapping → List (Option Elf))
  (lineFiles : Mapping → List (Option (Elf × Dwarf))) (bias : Mapping → Word)
  (lines : List Mapping)

/-- A printed line is true of the program. -/
structure PrintedFrame.Truthful (f : PrintedFrame) : Prop where
  library : ∀ m ∈ procMaps lines, m.start ≤ f.address ∧ f.address < m.stop →
    libraryName m.path = some f.library
  noLibrary : (∀ m ∈ procMaps lines, ¬ (m.start ≤ f.address ∧ f.address < m.stop)) →
    f.library = "??"
  function : ∀ name offset, f.function = some (name, offset) →
    ∃ sym ∈ loadedFunctions symFiles bias lines, sym.Covers f.address ∧ name = sym.name ∧
      offset.toInt = f.address.toNat - sym.address.toNat
  noFunction : f.function = none →
    ∀ sym ∈ loadedFunctions symFiles bias lines, ¬ sym.Covers f.address
  line : ∀ source lineno, f.line = some (source, lineno) →
    ∃ dd ∈ loadedUnits lineFiles bias lines, ∃ row, dd.Covers (f.address - 1) row ∧
      source = row.source ∧ lineno = row.lineno
  noLine : f.line = none →
    ∀ dd ∈ loadedUnits lineFiles bias lines, ∀ row, ¬ dd.Covers (f.address - 1) row

/-- The word is not the end of a mapping, and the byte before it not the beginning of a row. -/
structure CallSite (address : Word) : Prop where
  mapping : ∀ m ∈ procMaps lines, m.stop ≠ address
  row : ∀ dd ∈ loadedUnits lineFiles bias lines, ∀ row ∈ dd.lines,
    dd.rowAddress row ≠ address - 1

/-- What is to be printed of a backtrace: it ends before a 0, and with `main`. -/
inductive Shown (truthful : PrintedFrame → Prop) : List Word → List PrintedFrame → Prop
  | nil : Shown truthful [] []
  | zero (rest : List Word) : Shown truthful (0 :: rest) []
  | main {f : PrintedFrame} (rest : List Word) (hne : f.address ≠ 0) (hf : truthful f)
      (hmain : f.inMain = true) : Shown truthful (f.address :: rest) [f]
  | frame {f : PrintedFrame} {rest : List Word} {frames : List PrintedFrame}
      (hne : f.address ≠ 0) (hf : truthful f) (hmain : f.inMain = false)
      (h : Shown truthful rest frames) : Shown truthful (f.address :: rest) (f :: frames)

end Truthful

theorem shown_callstackPrint {truthful : PrintedFrame → Prop} (t : DebugTables) {ips : List Word}
    (h : ∀ ip ∈ ips, ip ≠ 0 → truthful (t.frame ip)) :
    Shown truthful ips (callstackPrint t ips) := by
  induction ips with
  | nil => exact .nil
  | cons ip rest ih =>
      rw [List.forall_mem_cons] at h
      rw [callstackPrint]
      split
      · rename_i hzero
        rw [hzero]
        exact .zero rest
      · rename_i hne
        split
        · rename_i hmain
          exact @Shown.main _ (t.frame ip) rest hne (h.1 hne) hmain
        · rename_i hmain
          exact @Shown.frame _ (t.frame ip) rest _ hne (h.1 hne) (by simpa using hmain) (ih h.2)

theorem exists_mem_of_forall₂ {α β : Type*} {R : α → β → Prop} {l : List α} {l' : List β}
    (h : List.Forall₂ R l l') :
    (∀ a ∈ l, ∃ b ∈ l', R a b) ∧ ∀ b ∈ l', ∃ a ∈ l, R a b := by
  induction h with
  | nil => simp
  | @cons a b l l' hab _ ih =>
      constructor
      · rintro x hx
        rcases List.mem_cons.mp hx with rfl | hx
        · exact ⟨b, List.mem_cons_self, hab⟩
        · obtain ⟨y, hy, hxy⟩ := ih.1 x hx
          exact ⟨y, List.mem_cons_of_mem _ hy, hxy⟩
      · rintro y hy
        rcases List.mem_cons.mp hy with rfl | hy
        · exact ⟨a, List.mem_cons_self, hab⟩
        · obtain ⟨x, hx, hxy⟩ := ih.2 y hy
          exact ⟨x, List.mem_cons_of_mem _ hx, hxy⟩

section Frames

variable {symFiles : Mapping → List (Option Elf)}
  {lineFiles : Mapping → List (Option (Elf × Dwarf))} {bias : Mapping → Word}
  {lines : List Mapping} {address : Word}

/-- The libraries that are found are those of the mappings. -/
theorem library_truthful (hlines : MapsAscending lines) {maps : List AddrMap}
    (hmaps : addrMapsBuild lines = some maps) (hends : ∀ m ∈ procMaps lines, m.stop ≠ address) :
    (∀ m ∈ procMaps lines, m.start ≤ address ∧ address < m.stop →
      libraryName m.path = some (addrMapsSearch maps address)) ∧
    ((∀ m ∈ procMaps lines, ¬ (m.start ≤ address ∧ address < m.stop)) →
      addrMapsSearch maps address = "??") := by
  obtain ⟨hrecorded, hmapping⟩ := exists_mem_of_forall₂ (addrMapsBuild_eq_some_iff.mp hmaps)
  have hright : NameRight maps address := by
    refine (RangesAscending.of_build hlines hmaps).nameRight_iff.mpr ?_
    intro i am hi hstop
    rcases hmapping am (List.mem_of_getElem? hi) with ⟨m, hm, hbuild⟩
    obtain ⟨name, -, rfl⟩ := Option.map_eq_some_iff.mp hbuild
    exact absurd hstop (hends m hm)
  constructor
  · intro m hm hwithin
    rcases hrecorded m hm with ⟨am, ham, hbuild⟩
    obtain ⟨name, hname, rfl⟩ := Option.map_eq_some_iff.mp hbuild
    rw [hname, hright.found _ ham hwithin]
  · intro hnone
    refine hright.none fun am ham hcontains => ?_
    rcases hmapping am ham with ⟨m, hm, hbuild⟩
    obtain ⟨name, -, rfl⟩ := Option.map_eq_some_iff.mp hbuild
    exact hnone m hm hcontains

theorem recorded_of_loaded {dd : DwarfDie} (h : dd ∈ loadedUnits lineFiles bias lines) :
    dd.Recorded := by
  obtain ⟨m, -, h⟩ := List.mem_flatMap.mp h
  obtain ⟨rows, -, h⟩ := List.mem_filterMap.mp h
  cases rows with
  | nil => cases h
  | cons first rest => exact ⟨bias m, first, rest, (Option.some.inj h).symm⟩

end Frames

/-- **The printed backtrace is true of the program** whose files are loaded where memleax takes
them to be (`FilePlaced`): the library, the function with the offset in it and the source line
of each word are those of the program, up to `main`, and nothing is made up where the files say
nothing. The line is that of the byte before the word, also for the first word, which is no
return address but the entry of the function called. -/
theorem backtrace_truthful
    {sortSymbols : (Symbol → Symbol → CInt) → List Symbol → List Symbol}
    {sortDies : (DwarfDie → DwarfDie → CInt) → List DwarfDie → List DwarfDie}
    (hsymbols : SortsBy Symbol.address sortSymbols) (hdies : SortsBy DwarfDie.start sortDies)
    {symFiles : Mapping → List (Option Elf)} {lineFiles : Mapping → List (Option (Elf × Dwarf))}
    {bias : Mapping → Word} {lines : List Mapping} {maps : List AddrMap}
    (hlines : MapsAscending lines) (hmaps : addrMapsBuild lines = some maps)
    (hplaced : ∀ m ∈ procMaps lines, FilePlaced symFiles lineFiles bias m)
    (hfunctions : FunctionsApart (loadedFunctions symFiles bias lines))
    (hunits : UnitsApart (loadedUnits lineFiles bias lines)) {ips : List Word}
    (hips : ∀ ip ∈ ips, ip ≠ 0 → CallSite lineFiles bias lines ip) :
    Shown (PrintedFrame.Truthful symFiles lineFiles bias lines) ips
      (callstackPrint ⟨maps, symtabBuild sortSymbols symFiles lines,
        debugLineBuild sortDies lineFiles lines⟩ ips) := by
  refine shown_callstackPrint _ fun ip hip hne => ?_
  rcases hips ip hip hne with ⟨hend, hrow⟩
  have hsymtab := symtabBuild_perm hplaced hsymbols
  have htable := debugLineBuild_perm hplaced hdies
  obtain ⟨hlibrary, hnoLibrary⟩ := library_truthful hlines hmaps hend
  have hfunction : LookupRight (symtabBuild sortSymbols symFiles lines) ip :=
    lookupRight_of_apart (hsymbols _).2 (hfunctions.perm hsymtab)
  have hline : LineRight (debugLineBuild sortDies lineFiles lines) (ip - 1) := by
    refine lineRight_of_apart (hdies _).2 ?_ (hunits.perm htable) ?_
    · intro dd hdd
      exact recorded_of_loaded (htable.mem_iff.mp hdd)
    · intro dd hdd
      exact hrow dd (htable.mem_iff.mp hdd)
  refine ⟨hlibrary, hnoLibrary, ?_, ?_, ?_, ?_⟩
  · intro name offset hsome
    rcases hfunction.found name offset hsome with ⟨sym, hsym, hfound⟩
    exact ⟨sym, hsymtab.mem_iff.mp hsym, hfound⟩
  · intro hnone sym hsym
    exact hfunction.none_iff.mp hnone sym (hsymtab.mem_iff.mpr hsym)
  · intro source lineno hsome
    change debugLineSearch _ (ip - 1) = _ at hsome
    by_cases hcovers : ∃ dd ∈ debugLineBuild sortDies lineFiles lines, ∃ row,
        dd.Covers (ip - 1) row
    · obtain ⟨dd, hdd, row, hcov, hfound⟩ := hline.found hcovers
      obtain ⟨rfl, rfl⟩ := Prod.mk.inj (Option.some.inj (hsome.symm.trans hfound))
      exact ⟨dd, htable.mem_iff.mp hdd, row, hcov, rfl, rfl⟩
    · have hnone := hline.none fun dd hdd row hrow => hcovers ⟨dd, hdd, row, hrow⟩
      cases hnone.symm.trans hsome
  · intro hnone dd hdd row hcovers
    rcases hline.found ⟨dd, htable.mem_iff.mpr hdd, row, hcovers⟩ with ⟨_, _, _, _, hfound⟩
    cases hnone.symm.trans hfound

/-! ## A program with one function -/

/-- A program that the loader has put at `0x400000`. -/
def mainElf : Elf where
  type := .dyn
  phdrs := [{ vaddr := 0, executable := true }]
  sections := [⟨some .symtab, some [functionSymbol "main" 0x1000 0x20]⟩]

def mainRows : List LineRow := [⟨0x1000, 5, "app.c"⟩, ⟨0x1010, 6, "app.c"⟩, ⟨0x1020, 7, "app.c"⟩]

def mainMapping : Mapping where
  start := 0x400000
  stop := 0x402000
  executable := true
  path := "/bin/app"

/-- The only function and the only unit, where they are. -/
def mainTables : DebugTables where
  maps := [⟨0x400000, 0x402000, "app"⟩]
  symbols := [⟨0x401000, 0x20, false, "main"⟩]
  dies := [⟨0x401000, 0x401020, 0x400000, mainRows⟩]

example : callstackPrintText mainTables [0x401018, 0x400800] =
    "    0x0000000000401018  app  main()+24  app.c:6\n" := by decide

theorem symtabBuild_mainElf :
    symtabBuild stableSort (fun _ => [some mainElf]) [mainMapping] = mainTables.symbols := by
  have hbuild : buildMaps symtabBuildFile (fun _ => [some mainElf]) [mainMapping] =
      mainTables.symbols := by decide
  rw [symtabBuild, hbuild]
  apply stableSort_of_ascending
  decide

theorem debugLineBuild_mainRows :
    debugLineBuild stableSort (fun _ => [some (mainElf, some [some mainRows])]) [mainMapping] =
      mainTables.dies := by
  have hbuild : buildMaps debugLineBuildFile (fun _ => [some (mainElf, some [some mainRows])])
      [mainMapping] = mainTables.dies := by decide
  rw [debugLineBuild, hbuild]
  apply stableSort_of_ascending
  decide

theorem backtrace_truthful_main :
    ∃ f : PrintedFrame, f.function = some ("main", 0x18) ∧ f.line = some ("app.c", 6) ∧
      Shown (PrintedFrame.Truthful (fun _ => [some mainElf])
        (fun _ => [some (mainElf, some [some mainRows])]) (fun _ => 0x400000) [mainMapping])
        [0x401018, 0x400800] [f] := by
  have hlines : MapsAscending [mainMapping] := ⟨by decide, by decide⟩
  have hmaps : addrMapsBuild [mainMapping] = some mainTables.maps := by decide
  have hfunctions : loadedFunctions (fun _ => [some mainElf]) (fun _ => 0x400000) [mainMapping] =
      mainTables.symbols := by decide
  have hunits : loadedUnits (fun _ => [some (mainElf, some [some mainRows])]) (fun _ => 0x400000)
      [mainMapping] = mainTables.dies := by decide
  have hplaced : ∀ m ∈ procMaps [mainMapping], FilePlaced (fun _ => [some mainElf])
      (fun _ => [some (mainElf, some [some mainRows])]) (fun _ => 0x400000) m := by
    intro m hm
    obtain rfl := List.mem_singleton.mp hm
    constructor
    · rintro elf ⟨⟩
      exact ⟨fun _ => by decide, fun h => absurd rfl h⟩
    · rintro file ⟨⟩
      exact ⟨fun _ => rfl, fun h => by cases h⟩
  have hsites : ∀ ip ∈ [(0x401018 : Word), 0x400800],
      CallSite (fun _ => [some (mainElf, some [some mainRows])]) (fun _ => 0x400000)
        [mainMapping] ip := by
    intro ip hip
    simp only [List.mem_cons, List.not_mem_nil, or_false] at hip
    constructor
    · rcases hip with rfl | rfl <;> decide
    · rw [hunits]
      rcases hip with rfl | rfl <;> decide
  have hfunctionsApart : FunctionsApart mainTables.symbols := ⟨by decide, by decide⟩
  have hunitsApart : UnitsApart mainTables.dies := ⟨by decide, by decide, by decide⟩
  rw [← hfunctions] at hfunctionsApart
  rw [← hunits] at hunitsApart
  have hshown := backtrace_truthful (sortsBy_stableSort _) (sortsBy_stableSort _) hlines hmaps
    hplaced hfunctionsApart hunitsApart fun ip hip _ => hsites ip hip
  rw [symtabBuild_mainElf, debugLineBuild_mainRows] at hshown
  exact ⟨mainTables.frame 0x401018, by decide, by decide, hshown⟩

end Memleax
