import Memleax.Framework.Bisect
import Memleax.Symbols.Symtab

/-!
# Libraries by address

`addr_maps.c` records the range and the name of each mapping that `proc_maps`
yields, and bisects the ranges. The last address of a range is one too far: an
address at which a mapping ends counts as inside. If the next mapping starts
there, the two compete and the one that is probed first is the answer.

A name is cut behind `.so` and copied into 100 bytes without a test of its
length. Every character of a path is one byte here.
-/

namespace Memleax

open Framework

/-! ## `addr_maps.c` -/

structure AddrMap where
  start : Word
  stop : Word
  name : String
deriving DecidableEq, Repr

/-- The rest of a string from the last `c` on. -/
def strrchr (c : Char) : List Char → Option (List Char)
  | [] => none
  | x :: rest => (strrchr c rest).or (if x = c then some (x :: rest) else none)

/-- The index of the first `needle` in a string. -/
def strstr (needle : List Char) : List Char → Option Nat
  | [] => none
  | x :: rest =>
      if needle.isPrefixOf (x :: rest) then some 0 else (strstr needle rest).map (· + 1)

/-- The name that is recorded for a path. `none` when the copy runs over the end
of `name[100]`, or the path has no `/`. -/
def libraryName (path : String) : Option String :=
  (strrchr '/' path.toList).bind fun p =>
    match strstr ['.', 's', 'o'] p with
    | none => some (String.ofList ((p.drop 1).take 99))
    | some q => if q + 2 < 100 then some (String.ofList ((p.drop 1).take (q + 2))) else none

def addrMapsBuildFile (path : String) (start stop : Word) : Option AddrMap :=
  (libraryName path).map fun name => ⟨start, stop, name⟩

/-- The loop of `addr_maps_build`, with `g_addr_maps`. -/
def addrMapsLoop : List Mapping → List AddrMap → Option (List AddrMap)
  | [], maps => some maps
  | m :: rest, maps =>
      (addrMapsBuildFile m.path m.start m.stop).bind fun am => addrMapsLoop rest (maps ++ [am])

def addrMapsBuild (lines : List Mapping) : Option (List AddrMap) :=
  addrMapsLoop (procMaps lines) []

/-- The test of the loop on one range. -/
def AddrMap.test (address : Word) (am : AddrMap) : Ordering := rangeTest am.start am.stop address

def addrMapsSearch (maps : List AddrMap) (address : Word) : String :=
  match bisectList (AddrMap.test address) maps with
  | some mid => (maps[mid]?.map AddrMap.name).getD "??"
  | none => "??"

/-! ## What a lookup is to find -/

/-- The mappings as `/proc/pid/maps` lists them: half-open ranges in ascending
order, pairwise disjoint. -/
structure MapsAscending (lines : List Mapping) : Prop where
  range : ∀ m ∈ lines, m.start < m.stop
  disjoint : lines.Pairwise fun a b => a.stop ≤ b.start

def AddrMap.Contains (am : AddrMap) (address : Word) : Prop :=
  am.start ≤ address ∧ address < am.stop

/-- The name of the range that contains the address, or `??`. -/
structure NameRight (maps : List AddrMap) (address : Word) : Prop where
  found : ∀ am ∈ maps, am.Contains address → addrMapsSearch maps address = am.name
  none : (∀ am ∈ maps, ¬ am.Contains address) → addrMapsSearch maps address = "??"

/-- `.so` is near enough to the start of the file name. -/
def NameFits (path : String) : Prop :=
  ∀ p, strrchr '/' path.toList = some p → ∀ q, strstr ['.', 's', 'o'] p = some q → q + 2 < 100

/-- Where a range ends at the address, the next one starts there and is probed
first or has the same name; or no range starts there and the name happens to be
that of an unknown address. -/
def EndsFit (maps : List AddrMap) (address : Word) : Prop :=
  ∀ i am, maps[i]? = some am → am.stop = address →
    (∃ next, maps[i + 1]? = some next ∧ next.start = address ∧
      (i + 1 ∈ probesBefore maps.length i ∨ next.name = am.name)) ∨
    ((∀ next, maps[i + 1]? = some next → next.start ≠ address) ∧ am.name = "??")

/-! ## Building -/

theorem addrMapsLoop_eq_some_iff {lines : List Mapping} {maps r : List AddrMap} :
    addrMapsLoop lines maps = some r ↔ ∃ ams, r = maps ++ ams ∧
      List.Forall₂ (fun m am => addrMapsBuildFile m.path m.start m.stop = some am) lines ams := by
  induction lines generalizing maps with
  | nil =>
      constructor
      · intro h
        exact ⟨[], by rw [List.append_nil, Option.some.inj h], List.Forall₂.nil⟩
      · rintro ⟨ams, rfl, hams⟩
        cases hams
        rw [List.append_nil]
        rfl
  | cons m rest ih =>
      rw [addrMapsLoop, Option.bind_eq_some_iff]
      constructor
      · rintro ⟨am, ham, hrest⟩
        obtain ⟨ams, rfl, hams⟩ := ih.mp hrest
        exact ⟨am :: ams, by rw [List.append_assoc, List.singleton_append], hams.cons ham⟩
      · rintro ⟨ams, rfl, hams⟩
        cases hams with
        | cons ham hams =>
            refine ⟨_, ham, ih.mpr ⟨_, ?_, hams⟩⟩
            rw [List.append_assoc, List.singleton_append]

theorem addrMapsBuild_eq_some_iff {lines : List Mapping} {maps : List AddrMap} :
    addrMapsBuild lines = some maps ↔
      List.Forall₂ (fun m am => addrMapsBuildFile m.path m.start m.stop = some am)
        (procMaps lines) maps := by
  rw [addrMapsBuild, addrMapsLoop_eq_some_iff]
  simp only [List.nil_append, exists_eq_left']

theorem strrchr_of_mem {c : Char} {l : List Char} (h : c ∈ l) : ∃ p, strrchr c l = some p := by
  induction l with
  | nil => cases h
  | cons x rest ih =>
      rw [strrchr]
      cases hrest : strrchr c rest with
      | some p => exact ⟨p, rfl⟩
      | none =>
          rcases List.mem_cons.mp h with rfl | hmem
          · exact ⟨c :: rest, if_pos rfl⟩
          · obtain ⟨p, hp⟩ := ih hmem
            cases hrest.symm.trans hp

/-- A name is recorded for an absolute path exactly if it fits. -/
theorem libraryName_isSome_iff {path : String} (h : '/' ∈ path.toList) :
    (∃ name, libraryName path = some name) ↔ NameFits path := by
  obtain ⟨p, hp⟩ := strrchr_of_mem h
  rw [libraryName, NameFits, hp, Option.bind_some]
  cases hq : strstr ['.', 's', 'o'] p with
  | none =>
      refine iff_of_true ⟨_, rfl⟩ ?_
      rintro p' ⟨rfl⟩ q hq'
      cases hq.symm.trans hq'
  | some q =>
      constructor
      · rintro ⟨name, hname⟩ p' ⟨rfl⟩ q' hq'
        obtain rfl := Option.some.inj (hq.symm.trans hq')
        by_contra hlt
        dsimp only at hname
        rw [if_neg hlt] at hname
        cases hname
      · intro hfits
        exact ⟨_, if_pos (hfits p rfl q hq)⟩

theorem addrMapsBuild_isSome_iff {lines : List Mapping} :
    (∃ maps, addrMapsBuild lines = some maps) ↔ ∀ m ∈ procMaps lines, NameFits m.path := by
  have hslash : ∀ m ∈ procMaps lines, '/' ∈ m.path.toList := by
    intro m hm
    have hyields := (List.mem_filter.mp hm).2
    simp only [Bool.and_eq_true, beq_iff_eq] at hyields
    exact List.mem_of_mem_head? hyields.1.2
  simp only [addrMapsBuild_eq_some_iff]
  generalize procMaps lines = yielded at hslash ⊢
  induction yielded with
  | nil => exact iff_of_true ⟨[], List.Forall₂.nil⟩ (by simp)
  | cons m rest ih =>
      have hname := libraryName_isSome_iff (hslash m List.mem_cons_self)
      have hrest := ih fun m' hm' => hslash m' (List.mem_cons_of_mem _ hm')
      rw [List.forall_mem_cons]
      refine Iff.trans ?_ (and_congr hname hrest)
      constructor
      · rintro ⟨maps, hmaps⟩
        cases hmaps with
        | cons ham hams =>
            obtain ⟨name, hname, -⟩ := Option.map_eq_some_iff.mp ham
            exact ⟨⟨name, hname⟩, _, hams⟩
      · rintro ⟨⟨name, hname⟩, ams, hams⟩
        refine ⟨⟨m.start, m.stop, name⟩ :: ams, hams.cons ?_⟩
        rw [addrMapsBuildFile, hname]
        rfl

/-! ## Ranges in order -/

/-- The recorded ranges, as the mappings have them. -/
structure RangesAscending (maps : List AddrMap) : Prop where
  range : ∀ am ∈ maps, am.start < am.stop
  disjoint : maps.Pairwise fun a b => a.stop ≤ b.start

theorem addrMapsBuild_ranges {lines : List Mapping} {maps : List AddrMap}
    (h : addrMapsBuild lines = some maps) :
    maps.map (fun am => (am.start, am.stop)) =
      (procMaps lines).map fun m => (m.start, m.stop) := by
  have hmaps := addrMapsBuild_eq_some_iff.mp h
  generalize procMaps lines = yielded at hmaps ⊢
  clear h
  induction hmaps with
  | nil => rfl
  | cons ham _ ih =>
      obtain ⟨name, -, rfl⟩ := Option.map_eq_some_iff.mp ham
      rw [List.map_cons, List.map_cons, ih]

theorem RangesAscending.of_build {lines : List Mapping} {maps : List AddrMap}
    (hlines : MapsAscending lines) (h : addrMapsBuild lines = some maps) :
    RangesAscending maps := by
  have hranges := addrMapsBuild_ranges h
  constructor
  · have hrange : ∀ r ∈ (procMaps lines).map fun m => (m.start, m.stop), r.1 < r.2 := by
      intro r hr
      obtain ⟨m, hm, rfl⟩ := List.mem_map.mp hr
      exact hlines.range m (List.mem_of_mem_filter hm)
    intro am ham
    rw [← hranges] at hrange
    exact hrange _ (List.mem_map_of_mem ham)
  · have hpair : ((procMaps lines).map fun m => (m.start, m.stop)).Pairwise
        fun a b => a.2 ≤ b.1 := by
      rw [List.pairwise_map]
      exact hlines.disjoint.sublist List.filter_sublist
    rw [← hranges, List.pairwise_map] at hpair
    exact hpair

section Ordered

variable {maps : List AddrMap} {address : Word} {i j : Nat} {am other : AddrMap}

theorem RangesAscending.stop_le_start (h : RangesAscending maps) (hi : maps[i]? = some am)
    (hj : maps[j]? = some other) (hlt : i < j) : am.stop ≤ other.start := by
  obtain ⟨hil, rfl⟩ := List.getElem?_eq_some_iff.mp hi
  obtain ⟨hjl, rfl⟩ := List.getElem?_eq_some_iff.mp hj
  exact List.pairwise_iff_getElem.mp h.disjoint i j hil hjl hlt

/-- Besides a range that ends at an address only the next one can hold it, its
end included, and then starts there. -/
theorem RangesAscending.eq_or_next (h : RangesAscending maps) (hi : maps[i]? = some am)
    (hstop : am.stop = address) (hj : maps[j]? = some other)
    (hwithin : other.start ≤ address ∧ address ≤ other.stop) :
    j = i ∨ j = i + 1 ∧ other.start = address := by
  have ham := h.range am (List.mem_of_getElem? hi)
  rcases lt_trichotomy j i with hlt | heq | hgt
  · have hle := h.stop_le_start hj hi hlt
    simp only [BitVec.le_def, BitVec.lt_def, ← hstop] at *
    omega
  · exact Or.inl heq
  · right
    have hle := h.stop_le_start hi hj hgt
    have hstart : other.start = address := by
      simp only [BitVec.le_def, BitVec.toNat_eq] at *
      omega
    refine ⟨?_, hstart⟩
    by_contra hne
    -- a range between the two would be empty
    have hnext : i + 1 < maps.length := by
      have := (List.getElem?_eq_some_iff.mp hj).1
      omega
    have hget := List.getElem?_eq_getElem hnext
    have h₁ := h.stop_le_start hi hget (Nat.lt_succ_self i)
    have h₂ := h.stop_le_start hget hj (by omega)
    have h₃ := h.range _ (List.mem_of_getElem? hget)
    simp only [BitVec.le_def, BitVec.lt_def, BitVec.toNat_eq] at *
    omega

/-- Ranges in order turn no search away. -/
theorem RangesAscending.search_isSome (h : RangesAscending maps) (hi : maps[i]? = some am)
    (hwithin : am.start ≤ address ∧ address ≤ am.stop) :
    ∃ k, bisectList (AddrMap.test address) maps = some k := by
  have htest : am.test address = .eq := rangeTest_eq_iff.mpr hwithin
  apply bisectList_isSome hi htest
  intro j other hj
  have hother := h.range other (List.mem_of_getElem? hj)
  constructor
  · intro hlt htest
    have hgt := rangeTest_lt_iff.mp htest
    have hle := h.stop_le_start hj hi hlt
    simp only [BitVec.le_def, BitVec.lt_def] at *
    omega
  · intro hlt htest
    have hgt := rangeTest_gt_iff.mp htest
    have hle := h.stop_le_start hi hj hlt
    simp only [BitVec.le_def, BitVec.lt_def] at *
    omega

theorem mapSearch_eq_some_iff {k : Nat} :
    bisectList (AddrMap.test address) maps = some k ↔
      ∃ am, maps[k]? = some am ∧ (am.start ≤ address ∧ address ≤ am.stop) ∧
        ∀ j ∈ probesBefore maps.length k, ∀ other, maps[j]? = some other →
          (j < k → other.start ≤ address ∧ other.stop < address) ∧
            (k < j → address < other.start) :=
  bisectRanges_eq_some_iff

theorem addrMapsSearch_of_some {k : Nat} (hk : maps[k]? = some am)
    (hres : bisectList (AddrMap.test address) maps = some k) :
    addrMapsSearch maps address = am.name := by
  rw [addrMapsSearch, hres]
  dsimp only
  rw [hk]
  rfl

/-- A range that ends at the address is the answer unless the next one starts
there and is probed before. -/
theorem RangesAscending.search_end_iff (h : RangesAscending maps) (hi : maps[i]? = some am)
    (hstop : am.stop = address) :
    bisectList (AddrMap.test address) maps = some i ↔
      ∀ next, maps[i + 1]? = some next → next.start = address →
        i + 1 ∉ probesBefore maps.length i := by
  have ham := h.range am (List.mem_of_getElem? hi)
  rw [mapSearch_eq_some_iff]
  constructor
  · rintro ⟨_, _, -, hpath⟩ next hnext hstart hmem
    have hlt := (hpath _ hmem next hnext).2 (Nat.lt_succ_self i)
    rw [hstart] at hlt
    exact BitVec.lt_irrefl _ hlt
  · intro hnext
    refine ⟨am, hi, ⟨?_, ?_⟩, ?_⟩
    · exact hstop ▸ BitVec.le_of_lt ham
    · exact hstop ▸ BitVec.le_refl _
    · intro j hj other hother
      have hrange := h.range other (List.mem_of_getElem? hother)
      constructor
      · intro hlt
        have hle := h.stop_le_start hother hi hlt
        simp only [BitVec.le_def, BitVec.lt_def, ← hstop] at *
        omega
      · intro hgt
        have hle := h.stop_le_start hi hother hgt
        rw [hstop] at hle
        by_contra hnot
        have hstart := BitVec.not_lt.mp hnot
        have hwithin : other.start ≤ address ∧ address ≤ other.stop :=
          ⟨hstart, BitVec.le_trans hle (BitVec.le_of_lt hrange)⟩
        rcases h.eq_or_next hi hstop hother hwithin with rfl | ⟨rfl, heq⟩
        · exact Nat.lt_irrefl _ hgt
        · exact hnext other hother heq hj

/-- What is found contains the address or ends there. -/
theorem mapSearch_cases {k : Nat} (hres : bisectList (AddrMap.test address) maps = some k) :
    ∃ am, maps[k]? = some am ∧ (am.Contains address ∨ am.stop = address) := by
  obtain ⟨am, hk, ⟨hstart, hstop⟩, -⟩ := mapSearch_eq_some_iff.mp hres
  refine ⟨am, hk, ?_⟩
  by_cases hlt : address < am.stop
  · exact Or.inl ⟨hstart, hlt⟩
  · exact Or.inr (BitVec.le_antisymm (BitVec.not_lt.mp hlt) hstop)

/-- A range that starts at an address contains it. -/
theorem RangesAscending.contains_start (h : RangesAscending maps) (hi : maps[i]? = some am)
    (hstart : am.start = address) : am.Contains address := by
  have hrange := h.range am (List.mem_of_getElem? hi)
  rw [hstart] at hrange
  exact ⟨hstart ▸ BitVec.le_refl _, hrange⟩

/-- The range that contains the end of another is the next one. -/
theorem RangesAscending.next_of_contains (h : RangesAscending maps) (hi : maps[i]? = some am)
    (hstop : am.stop = address) (hj : maps[j]? = some other) (hother : other.Contains address) :
    j = i + 1 ∧ other.start = address := by
  have hwithin := And.imp_right BitVec.le_of_lt hother
  rcases h.eq_or_next hi hstop hj hwithin with rfl | hnext
  · obtain rfl := Option.some.inj (hi.symm.trans hj)
    exact absurd hother.2 (hstop ▸ BitVec.lt_irrefl _)
  · exact hnext

theorem RangesAscending.nameRight_iff (h : RangesAscending maps) :
    NameRight maps address ↔ EndsFit maps address := by
  constructor
  · intro hright i am hi hstop
    have ham := h.range am (List.mem_of_getElem? hi)
    have hwithin : am.start ≤ address ∧ address ≤ am.stop :=
      ⟨hstop ▸ BitVec.le_of_lt ham, hstop ▸ BitVec.le_refl _⟩
    have hend := h.search_end_iff hi hstop
    by_cases hnext : ∃ next, maps[i + 1]? = some next ∧ next.start = address
    · left
      obtain ⟨next, hget, hstart⟩ := hnext
      refine ⟨next, hget, hstart, ?_⟩
      by_cases hmem : i + 1 ∈ probesBefore maps.length i
      · exact Or.inl hmem
      · right
        have hfound := hright.found next (List.mem_of_getElem? hget) (h.contains_start hget hstart)
        rw [← hfound, addrMapsSearch_of_some hi (hend.mpr fun _ _ _ => hmem)]
    · right
      have hnone : ∀ next, maps[i + 1]? = some next → next.start ≠ address := by
        intro next hget hstart
        exact hnext ⟨next, hget, hstart⟩
      refine ⟨hnone, ?_⟩
      rw [← addrMapsSearch_of_some hi (hend.mpr fun next hget hs => absurd hs (hnone next hget))]
      apply hright.none
      intro other hother hcontains
      obtain ⟨j, hj⟩ := List.mem_iff_getElem?.mp hother
      obtain ⟨rfl, hstart⟩ := h.next_of_contains hi hstop hj hcontains
      exact hnone other hj hstart
  · intro hfit
    constructor
    · intro am ham hcontains
      obtain ⟨c, hc⟩ := List.mem_iff_getElem?.mp ham
      obtain ⟨k, hres⟩ := h.search_isSome hc (And.imp_right BitVec.le_of_lt hcontains)
      obtain ⟨found, hk, hin | hstop⟩ := mapSearch_cases hres
      · obtain rfl := index_unique h.disjoint hk hc hin hcontains
        exact addrMapsSearch_of_some hc hres
      · -- the range before the containing one has been probed first
        obtain ⟨rfl, hstart⟩ := h.next_of_contains hk hstop hc hcontains
        rw [addrMapsSearch_of_some hk hres]
        rcases hfit k found hk hstop with ⟨next, hget, hnext, hfirst⟩ | ⟨hnone, -⟩
        · obtain rfl := Option.some.inj (hget.symm.trans hc)
          rcases hfirst with hmem | hname
          · exact absurd hmem ((h.search_end_iff hk hstop).mp hres next hget hnext)
          · exact hname.symm
        · exact absurd hstart (hnone am hc)
    · intro hnone
      cases hres : bisectList (AddrMap.test address) maps with
      | none =>
          rw [addrMapsSearch, hres]
      | some k =>
          obtain ⟨found, hk, hin | hstop⟩ := mapSearch_cases hres
          · exact absurd hin (hnone found (List.mem_of_getElem? hk))
          · rw [addrMapsSearch_of_some hk hres]
            rcases hfit k found hk hstop with ⟨next, hget, hstart, -⟩ | ⟨-, hname⟩
            · exact absurd (h.contains_start hget hstart) (hnone next (List.mem_of_getElem? hget))
            · exact hname

end Ordered

/-- **Library lookup** returns the name that is recorded for the mapping that
contains the address, or `??`, exactly if every name fits the record and, where
a mapping ends at the address, the next one starts there and is probed first or
has the same name (or none starts there and the name is `??`). -/
theorem libraryLookup_iff {lines : List Mapping} (hlines : MapsAscending lines) (address : Word) :
    (∃ maps, addrMapsBuild lines = some maps ∧ NameRight maps address) ↔
      (∀ m ∈ procMaps lines, NameFits m.path) ∧
        ∀ maps, addrMapsBuild lines = some maps → EndsFit maps address := by
  rw [← addrMapsBuild_isSome_iff]
  constructor
  · rintro ⟨maps, hbuild, hright⟩
    refine ⟨⟨maps, hbuild⟩, ?_⟩
    intro maps' hbuild'
    obtain rfl := Option.some.inj (hbuild.symm.trans hbuild')
    exact (RangesAscending.of_build hlines hbuild).nameRight_iff.mp hright
  · rintro ⟨⟨maps, hbuild⟩, hfit⟩
    have hright := (RangesAscending.of_build hlines hbuild).nameRight_iff.mpr (hfit maps hbuild)
    exact ⟨maps, hbuild, hright⟩

/-! ## Adjacent libraries -/

/-- A page of text of a library. -/
def libraryPage (path : String) (start : Word) : Mapping where
  start := start
  stop := start + 0x1000
  executable := true
  path := path

def twoLibraries : List Mapping :=
  [libraryPage "/lib/libc.so.6" 0x1000, libraryPage "/lib/libm.so.6" 0x2000]

def threeLibraries : List Mapping := twoLibraries ++ [libraryPage "/lib/libz.so.1" 0x8000]

theorem addrMapsBuild_threeLibraries :
    addrMapsBuild threeLibraries = some [⟨0x1000, 0x2000, "libc.so"⟩, ⟨0x2000, 0x3000, "libm.so"⟩,
      ⟨0x8000, 0x9000, "libz.so"⟩] := by
  decide

/-- Of three libraries the second one is probed first. -/
theorem libraryLookup_iff_threeLibraries :
    ∃ maps, addrMapsBuild threeLibraries = some maps ∧ NameRight maps 0x2000 := by
  have hlines : MapsAscending threeLibraries := ⟨by decide, by decide⟩
  apply (libraryLookup_iff hlines 0x2000).mpr
  refine ⟨addrMapsBuild_isSome_iff.mp ⟨_, addrMapsBuild_threeLibraries⟩, ?_⟩
  intro maps hmaps
  obtain rfl := Option.some.inj (addrMapsBuild_threeLibraries.symm.trans hmaps)
  intro i am hi hstop
  rcases i with _ | _ | _ | i
  · left
    exact ⟨⟨0x2000, 0x3000, "libm.so"⟩, rfl, rfl, Or.inl (by decide)⟩
  · cases hi
    exact absurd hstop (by decide)
  · cases hi
    exact absurd hstop (by decide)
  · cases hi

/-- Of two libraries the first one is, and claims the start of the second. -/
theorem lookup_finds_library_before :
    MapsAscending twoLibraries ∧
      ¬ ∃ maps, addrMapsBuild twoLibraries = some maps ∧ NameRight maps 0x2000 := by
  refine ⟨⟨by decide, by decide⟩, ?_⟩
  rintro ⟨maps, hmaps, hright⟩
  have hbuild : addrMapsBuild twoLibraries =
      some [⟨0x1000, 0x2000, "libc.so"⟩, ⟨0x2000, 0x3000, "libm.so"⟩] := by
    decide
  obtain rfl := Option.some.inj (hbuild.symm.trans hmaps)
  have hfound := hright.found ⟨0x2000, 0x3000, "libm.so"⟩ (by decide) ⟨by decide, by decide⟩
  revert hfound
  decide

end Memleax
