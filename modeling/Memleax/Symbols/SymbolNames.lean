import Mathlib.Order.Bounds.Defs
import Memleax.Symbols.SymbolLookup

/-!
# Symbols by name

`symtab_by_name` takes the first strong symbol with the name, or else the first
weak one that is not at `0`, of a table that is sorted by address. The order of
symbols with the same address is up to `qsort`, and that of the files up to the
mappings; neither makes a difference: `breakpoints_at_names` says where
`breakpoint_init` puts the breakpoints, in terms of the recorded symbols alone.
-/

namespace Memleax

open Framework

/-- The addresses of the symbols with a name, the weak or the strong ones. -/
def addressesOf (table : List Symbol) (name : String) (weak : Bool) : Set Word :=
  { a | ∃ sym ∈ table, sym.name = name ∧ sym.weak = weak ∧ sym.address = a }

/-- **What a name stands for**: the least address of a strong symbol; if there is none, the
least one of a weak symbol that is not `0`; or else `0`. -/
inductive NamedAt (table : List Symbol) (name : String) : Word → Prop
  | strong {a : Word} (hleast : IsLeast (addressesOf table name false) a) : NamedAt table name a
  | weak {a : Word} (hstrong : ∀ a, a ∉ addressesOf table name false)
      (hleast : IsLeast { a | a ∈ addressesOf table name true ∧ a ≠ 0 } a) : NamedAt table name a
  | absent (hstrong : ∀ a, a ∉ addressesOf table name false)
      (hweak : ∀ a ∈ addressesOf table name true, a = 0) : NamedAt table name 0

section Names

variable {table : List Symbol} {name : String}

theorem addressesOf_perm {table' : List Symbol} (h : table.Perm table') (name : String)
    (weak : Bool) : addressesOf table name weak = addressesOf table' name weak := by
  ext a
  exact exists_congr fun sym => and_congr_left fun _ => h.mem_iff

theorem NamedAt.perm {table' : List Symbol} (h : table.Perm table') {a : Word}
    (hat : NamedAt table name a) : NamedAt table' name a := by
  have hstrong := addressesOf_perm h name false
  have hweak := addressesOf_perm h name true
  cases hat with
  | strong hleast => exact .strong (hstrong ▸ hleast)
  | weak hnone hleast => exact .weak (hstrong ▸ hnone) (hweak ▸ hleast)
  | absent hnone hzero => exact .absent (hstrong ▸ hnone) (hweak ▸ hzero)

/-- A name stands for one address. -/
theorem NamedAt.unique {a b : Word} (ha : NamedAt table name a) (hb : NamedAt table name b) :
    a = b := by
  have hleast : ∀ {s : Set Word} {a b : Word}, IsLeast s a → IsLeast s b → a = b := by
    rintro s a b ⟨has, hle⟩ ⟨hbs, hle'⟩
    exact BitVec.le_antisymm (hle hbs) (hle' has)
  cases ha with
  | strong ha =>
      cases hb with
      | strong hb => exact hleast ha hb
      | weak hnone _ => exact absurd ha.1 (hnone a)
      | absent hnone _ => exact absurd ha.1 (hnone a)
  | weak hnone ha =>
      cases hb with
      | strong hb => exact absurd hb.1 (hnone b)
      | weak _ hb => exact hleast ha hb
      | absent _ hzero => exact absurd (hzero a ha.1.1) ha.1.2
  | absent hnone hzero =>
      cases hb with
      | strong hb => exact absurd hb.1 (hnone b)
      | weak _ hb => exact absurd (hzero b hb.1.1) hb.1.2
      | absent => rfl

/-- The symbols that end the loop. -/
def Symbol.strongly (name : String) (sym : Symbol) : Bool := sym.name == name && !sym.weak

/-- The symbols that the loop remembers while it has nothing better. -/
def Symbol.weakly (name : String) (sym : Symbol) : Bool :=
  sym.name == name && sym.weak && sym.address != 0

/-- The loop looks for two symbols at once. -/
theorem symtabByNameLoop_eq (name : String) (table : List Symbol) (address : Word) :
    symtabByNameLoop name table address =
      ((table.find? (Symbol.strongly name)).map Symbol.address).getD
        (if address = 0 then ((table.find? (Symbol.weakly name)).map Symbol.address).getD 0
        else address) := by
  induction table generalizing address with
  | nil =>
      rw [symtabByNameLoop, List.find?_nil, List.find?_nil, Option.map_none, Option.getD_none]
      split
      · rename_i hzero
        exact hzero
      · rfl
  | cons sym rest ih =>
      rw [symtabByNameLoop, List.find?_cons, List.find?_cons]
      by_cases hname : sym.name = name
      · rw [if_pos hname]
        cases hweak : sym.weak with
        | false => simp [Symbol.strongly, hname, hweak]
        | true =>
            have hstrongly : sym.strongly name = false := by simp [Symbol.strongly, hweak]
            rw [if_pos rfl, ih, hstrongly]
            dsimp only
            congr 1
            by_cases haddress : address = 0
            · rw [if_pos haddress, if_pos haddress]
              by_cases hzero : sym.address = 0
              · have hweakly : sym.weakly name = false := by simp [Symbol.weakly, hzero]
                rw [if_pos hzero, hweakly]
              · have hweakly : sym.weakly name = true := by
                  rw [Symbol.weakly, hweak, bne_iff_ne.mpr hzero, beq_iff_eq.mpr hname]
                  rfl
                rw [if_neg hzero, hweakly]
                rfl
            · rw [if_neg haddress, if_neg haddress, if_neg haddress]
      · have hstrongly : sym.strongly name = false := by simp [Symbol.strongly, hname]
        have hweakly : sym.weakly name = false := by simp [Symbol.weakly, hname]
        rw [if_neg hname, ih, hstrongly, hweakly]

/-- In a sorted table the first symbol of a kind has the least address of its kind. -/
theorem isLeast_of_find? (hsorted : Ascending Symbol.address table) {p : Symbol → Bool}
    {sym : Symbol} (h : table.find? p = some sym) :
    IsLeast { a | ∃ s ∈ table, p s = true ∧ s.address = a } sym.address := by
  obtain ⟨hp, before, rest, rfl, hbefore⟩ := List.find?_eq_some_iff_append.mp h
  refine ⟨⟨sym, by simp, hp, rfl⟩, ?_⟩
  rintro a ⟨s, hs, hps, rfl⟩
  rcases List.mem_append.mp hs with hs | hs
  · have hnot := hbefore s hs
    rw [hps] at hnot
    cases hnot
  · rcases List.mem_cons.mp hs with rfl | hs
    · exact BitVec.le_refl _
    · exact (List.pairwise_cons.mp (List.pairwise_append.mp hsorted).2.1).1 s hs

theorem mem_strong_iff {a : Word} : a ∈ addressesOf table name false ↔
    ∃ s ∈ table, s.strongly name = true ∧ s.address = a := by
  refine exists_congr fun s => and_congr_right fun _ => ?_
  simp [Symbol.strongly, and_assoc]

theorem mem_weak_iff {a : Word} : a ∈ addressesOf table name true ∧ a ≠ 0 ↔
    ∃ s ∈ table, s.weakly name = true ∧ s.address = a := by
  constructor
  · rintro ⟨⟨s, hs, hname, hweak, rfl⟩, hne⟩
    refine ⟨s, hs, ?_, rfl⟩
    rw [Symbol.weakly, hweak, bne_iff_ne.mpr hne, beq_iff_eq.mpr hname]
    rfl
  · rintro ⟨s, hs, hweakly, rfl⟩
    simp only [Symbol.weakly, Bool.and_eq_true, beq_iff_eq, bne_iff_ne] at hweakly
    exact ⟨⟨s, hs, hweakly.1.1, hweakly.1.2, rfl⟩, hweakly.2⟩

/-- `symtab_by_name`, on a sorted table. -/
theorem symtabByName_namedAt (hsorted : Ascending Symbol.address table) (name : String) :
    NamedAt table name (symtabByName table name) := by
  have hstrong : addressesOf table name false =
      { a | ∃ s ∈ table, s.strongly name = true ∧ s.address = a } := Set.ext fun _ => mem_strong_iff
  have hweak : { a | a ∈ addressesOf table name true ∧ a ≠ 0 } =
      { a | ∃ s ∈ table, s.weakly name = true ∧ s.address = a } := Set.ext fun _ => mem_weak_iff
  rw [symtabByName, symtabByNameLoop_eq, if_pos rfl]
  cases hfirst : table.find? (Symbol.strongly name) with
  | some sym => exact .strong (hstrong ▸ isLeast_of_find? hsorted hfirst)
  | none =>
      have hnone : ∀ a, a ∉ addressesOf table name false := by
        intro a ha
        obtain ⟨s, hs, hstrongly, -⟩ := mem_strong_iff.mp ha
        exact List.find?_eq_none.mp hfirst s hs hstrongly
      rw [Option.map_none, Option.getD_none]
      cases hfirst : table.find? (Symbol.weakly name) with
      | some sym => exact .weak hnone (hweak ▸ isLeast_of_find? hsorted hfirst)
      | none =>
          refine .absent hnone ?_
          intro a ha
          by_contra hne
          obtain ⟨s, hs, hweakly, -⟩ := mem_weak_iff.mp ⟨ha, hne⟩
          exact List.find?_eq_none.mp hfirst s hs hweakly

end Names

/-! ## The breakpoints -/

section Breakpoints

variable {symtabByName : Api → Word}

/-- `breakpoint_init` only fails at a function that is not found. -/
theorem doBreakpointInit_fold_eq_none {apis : List Api} {s : Init}
    (h : apis.foldlM (doBreakpointInit symtabByName) s = none) :
    ∃ api ∈ apis, symtabByName api = 0 := by
  induction apis generalizing s with
  | nil => cases h
  | cons api apis ih =>
      rw [List.foldlM_cons] at h
      by_cases hzero : symtabByName api = 0
      · exact ⟨api, List.mem_cons_self, hzero⟩
      · rw [doBreakpointInit, if_neg hzero] at h
        obtain ⟨other, hother, hzero⟩ := ih h
        exact ⟨other, List.mem_cons_of_mem _ hother, hzero⟩

end Breakpoints

/-- **Where the breakpoints are.** Whatever `qsort` does with symbols at the same address,
each breakpoint is at the address that the name of its function stands for among the
recorded symbols; if one of the names stands for `0`, memleax does not begin. -/
theorem breakpoints_at_names (qsort : (Symbol → Symbol → CInt) → List Symbol → List Symbol)
    (hsort : SortsBy Symbol.address qsort) (files : Mapping → List (Option Elf))
    (lines : List Mapping) (text : Bytes 64) :
    (breakpointInit (fun api => symtabByName (symtabBuild qsort files lines) api.name) text = none →
      ∃ api : Api, NamedAt (buildMaps symtabBuildFile files lines) api.name 0) ∧
    ∀ init : Init,
      breakpointInit (fun api => symtabByName (symtabBuild qsort files lines) api.name) text =
        some init →
      ∀ api : Api, (init.breakpoints api).entryAddress ≠ 0 ∧
        NamedAt (buildMaps symtabBuildFile files lines) api.name
          (init.breakpoints api).entryAddress := by
  rcases hsort (buildMaps symtabBuildFile files lines) with ⟨hperm, hsorted⟩
  have hnamed : ∀ name, NamedAt (buildMaps symtabBuildFile files lines) name
      (symtabByName (symtabBuild qsort files lines) name) :=
    fun name => (symtabByName_namedAt hsorted name).perm hperm
  constructor
  · intro hnone
    obtain ⟨api, -, hzero⟩ := doBreakpointInit_fold_eq_none hnone
    exact ⟨api, hzero ▸ hnamed api.name⟩
  · intro init hsome api
    obtain ⟨haddress, hne⟩ := (breakpointInit_armed hsome).1 api
    rw [haddress]
    exact ⟨hne, hnamed api.name⟩

/-- An executable that has a weak `malloc` below the strong one. -/
def twoMallocs : Elf where
  type := .exec
  phdrs := [{ vaddr := 0x800, executable := true }]
  sections := [⟨some .symtab, some [{ functionSymbol "malloc" 0x800 0x20 with info := 0x22 },
    functionSymbol "malloc" 0x1000 0x20, functionSymbol "free" 0x1100 0x20,
    functionSymbol "realloc" 0x1200 0x20, functionSymbol "calloc" 0x1300 0x20]⟩]

/-- The table of the executable. -/
def twoMallocsTable : List Symbol :=
  [⟨0x800, 0x20, true, "malloc"⟩, ⟨0x1000, 0x20, false, "malloc"⟩, ⟨0x1100, 0x20, false, "free"⟩,
    ⟨0x1200, 0x20, false, "realloc"⟩, ⟨0x1300, 0x20, false, "calloc"⟩]

theorem symtabBuild_twoMallocs :
    symtabBuild stableSort (fun _ => [some twoMallocs]) [sampleMapping 0x800] =
      twoMallocsTable := by
  have hbuild : buildMaps symtabBuildFile (fun _ => [some twoMallocs]) [sampleMapping 0x800] =
      twoMallocsTable := by
    decide
  rw [symtabBuild, hbuild]
  apply stableSort_of_ascending
  decide

theorem breakpoints_at_names_twoMallocs :
    ∃ init : Init,
      breakpointInit (fun api => symtabByName (symtabBuild stableSort (fun _ => [some twoMallocs])
        [sampleMapping 0x800]) api.name) (fun _ => 0x90) = some init ∧
      (init.breakpoints .malloc).entryAddress = 0x1000 ∧
      NamedAt (buildMaps symtabBuildFile (fun _ => [some twoMallocs]) [sampleMapping 0x800])
        "malloc" (init.breakpoints .malloc).entryAddress := by
  have hsome : (breakpointInit (fun api => symtabByName (symtabBuild stableSort
      (fun _ => [some twoMallocs]) [sampleMapping 0x800]) api.name) (fun _ => 0x90)).map
        (fun init => (init.breakpoints .malloc).entryAddress) = some 0x1000 := by
    rw [symtabBuild_twoMallocs]
    decide +kernel
  obtain ⟨init, hinit, haddress⟩ := Option.map_eq_some_iff.mp hsome
  obtain ⟨-, hnamed⟩ := breakpoints_at_names stableSort (sortsBy_stableSort Symbol.address)
    (fun _ => [some twoMallocs]) [sampleMapping 0x800] (fun _ => 0x90)
  exact ⟨init, hinit, haddress, (hnamed init hinit .malloc).2⟩

end Memleax
