import Memleax.Symbols.AddrMaps
import Memleax.Tracer.Machine

/-!
# The cache of the text

`ptr_maps_build` reads the files of the executable mappings into
`g_map_sections`, and `_ptr_access_mem`, which libunwind calls, answers from
there what lies in them and asks `ptrace` for the rest.

A file is read from its beginning, whatever part of it has been mapped; the word
is taken from a multiple of 8 below the address; and the end of a section counts
as inside. So a cached answer can be trusted only for mappings of the beginning
of a file, at multiples of 8 from their start, as far as the file has been read
(`access_iff`). A word that `ptrace` reads is taken for an error if it is `-1`.
-/

namespace Memleax

open Framework

/-! ## `ptr_backtrace.c` -/

/-- `data` starts with the bytes that have been read from the file. -/
structure MapSection where
  start : Word
  stop : Word
  data : Bytes 64

abbrev Contents := String → Nat → BitVec 8

/-- What the files are for `ptr_maps_build`: the part of each that is mapped, of
which `proc_maps` reads and drops the position, and how much of it is read. -/
structure Mapped where
  lines : List Mapping
  ascending : MapsAscending lines
  /-- the position in the file at which the mapping begins -/
  offset : Mapping → Nat
  length : String → Nat
  /-- the bytes that are read, `none` when `open` or `read` fails -/
  rlen : Mapping → Option Nat
  rlen_le : ∀ m ∈ procMaps lines, ∀ r, rlen m = some r →
    r ≤ m.stop.toNat - m.start.toNat ∧ r ≤ length m.path

/-- The section of a mapping; `behind` is what happens to be in memory behind
the bytes that have been read. -/
def mapSection (contents : Contents) (behind : Bytes 64) (m : Mapping) (rlen : Nat) :
    MapSection where
  start := m.start
  stop := m.start + BitVec.ofNat 64 rlen
  data := fun i => if i.toNat < rlen then contents m.path i.toNat else behind i

def ptrMapsBuildFile (contents : Contents) (behind : Bytes 64) (sections : List MapSection)
    (m : Mapping) (rlen : Option Nat) : List MapSection :=
  match rlen with
  | none => sections
  | some rlen => sections ++ [mapSection contents behind m rlen]

def ptrMapsBuild (g : Mapped) (contents : Contents) (behind : Mapping → Bytes 64) :
    List MapSection :=
  (procMaps g.lines).foldl
    (fun sections m => ptrMapsBuildFile contents (behind m) sections m (g.rlen m)) []

def MapSection.holds (ms : MapSection) (addr : Word) : Bool :=
  decide (addr ≥ ms.start) && decide (addr ≤ ms.stop)

/-- `ms->data[(addr - ms->start) / sizeof(unw_word_t)]` -/
def MapSection.word (ms : MapSection) (addr : Word) : Word :=
  ms.data.readWord 8 ((addr - ms.start) / 8 * 8)

/-- `none` for `-UNW_EUNSPEC`. `peek` is the request to `ptrace`, which returns
`-1` when it fails. -/
def ptrAccessMem (sections : List MapSection) (peek : Word → Option Word) (addr : Word) :
    Option Word :=
  match sections.find? fun ms => ms.holds addr with
  | some ms => some (ms.word addr)
  | none =>
      let val := (peek addr).getD (-1)
      if val = -1 then none else some val

/-! ## What an access is to return -/

/-- The text of the target is that of the files, from the mapped position on. -/
def Mapped.Backs (g : Mapped) (contents : Contents) (text : Bytes 64) : Prop :=
  ∀ m ∈ procMaps g.lines, ∀ i, i < m.stop.toNat - m.start.toNat →
    g.offset m + i < g.length m.path →
    text (m.start + BitVec.ofNat 64 i) = contents m.path (g.offset m + i)

/-- An access to `addr` is right, whatever the files contain. -/
structure AccessRight (g : Mapped) (peek : Word → Option Word) (addr : Word) : Prop where
  /-- a cached word is that of the text, and from bytes that have been read -/
  cached : ∀ contents behind text, g.Backs contents text →
    ∀ ms, ((ptrMapsBuild g contents behind).find? fun ms => ms.holds addr) = some ms →
      ptrAccessMem (ptrMapsBuild g contents behind) peek addr = some (ptraceGetData text addr) ∧
        ((addr - ms.start) / 8 * 8).toNat + 8 ≤ (ms.stop - ms.start).toNat
  /-- otherwise the answer is that of `ptrace`, and fails if that does -/
  traced : ∀ contents behind,
    ((ptrMapsBuild g contents behind).find? fun ms => ms.holds addr) = none →
      ptrAccessMem (ptrMapsBuild g contents behind) peek addr = peek addr

/-- The first mapping of which the part that has been read holds an address, its
end included. -/
def Mapped.holder (g : Mapped) (addr : Word) : Option Mapping :=
  (procMaps g.lines).find? fun m =>
    (g.rlen m).any fun r => decide (m.start ≤ addr) && decide (addr ≤ m.start + BitVec.ofNat 64 r)

/-- The mapping begins where the file does, the address is a multiple of 8 from
its start, and the word has been read; or no section holds the address, and the
word there is not `-1`. -/
def AccessFits (g : Mapped) (peek : Word → Option Word) (addr : Word) : Prop :=
  match g.holder addr with
  | some m => g.offset m = 0 ∧ 8 ∣ addr.toNat - m.start.toNat ∧
      ∃ r, g.rlen m = some r ∧ addr.toNat + 8 ≤ m.start.toNat + r
  | none => peek addr ≠ some (-1)

/-! ## The sections -/

section Sections

variable {g : Mapped} {contents : Contents} {behind : Mapping → Bytes 64} {addr : Word}
  {m : Mapping} {r : Nat}

theorem ptrMapsBuild_eq :
    ptrMapsBuild g contents behind = (procMaps g.lines).filterMap fun m =>
      (g.rlen m).map (mapSection contents (behind m) m) := by
  have hloop : ∀ (lines : List Mapping) (sections : List MapSection),
      lines.foldl (fun sections m => ptrMapsBuildFile contents (behind m) sections m (g.rlen m))
        sections =
      sections ++ lines.filterMap fun m => (g.rlen m).map (mapSection contents (behind m) m) := by
    intro lines
    induction lines with
    | nil =>
        intro sections
        simp
    | cons m rest ih =>
        intro sections
        rw [List.foldl_cons, ih, List.filterMap_cons]
        cases hr : g.rlen m with
        | none => rfl
        | some r => simp [ptrMapsBuildFile]
  rw [ptrMapsBuild, hloop, List.nil_append]

theorem find_ptrMapsBuild :
    ((ptrMapsBuild g contents behind).find? fun ms => ms.holds addr) =
      (g.holder addr).bind fun m => (g.rlen m).map (mapSection contents (behind m) m) := by
  rw [ptrMapsBuild_eq, List.find?_filterMap, Mapped.holder]
  congr 2
  funext m
  rw [Option.any_map]
  rfl

theorem Mapped.holder_eq_some (h : g.holder addr = some m) :
    m ∈ procMaps g.lines ∧ ∃ r, g.rlen m = some r ∧ m.start ≤ addr ∧
      addr ≤ m.start + BitVec.ofNat 64 r := by
  refine ⟨List.mem_of_find?_eq_some h, ?_⟩
  have hholds := List.find?_some h
  obtain ⟨r, hr, hin⟩ := (Option.any_eq_true _ _).mp hholds
  rw [Bool.and_eq_true, decide_eq_true_iff, decide_eq_true_iff] at hin
  exact ⟨r, hr, hin⟩

theorem Mapped.toNat_stop (hm : m ∈ procMaps g.lines) (hr : g.rlen m = some r) :
    (m.start + BitVec.ofNat 64 r).toNat = m.start.toNat + r := by
  have hrange := g.ascending.range m (List.mem_of_mem_filter hm)
  have hle := (g.rlen_le m hm r hr).1
  have hstop := m.stop.isLt
  rw [BitVec.lt_def] at hrange
  rw [BitVec.toNat_add, BitVec.toNat_ofNat, Nat.add_mod_mod, Nat.mod_eq_of_lt (by omega)]

theorem toNat_index {start : Word} (h : start ≤ addr) :
    ((addr - start) / 8 * 8).toNat = (addr.toNat - start.toNat) / 8 * 8 := by
  have hsub : (addr - start).toNat = addr.toNat - start.toNat := BitVec.toNat_sub_of_le h
  have haddr := addr.isLt
  have height : (8 : Word).toNat = 8 := rfl
  rw [BitVec.toNat_mul, BitVec.toNat_udiv, hsub, height]
  exact Nat.mod_eq_of_lt (by omega)

theorem mapSection_data {b : Bytes 64} {i : Word} (h : i.toNat < r) :
    (mapSection contents b m r).data i = contents m.path i.toNat :=
  if_pos h

theorem mapSection_word {b : Bytes 64} :
    (mapSection contents b m r).word addr =
      (mapSection contents b m r).data.readWord 8 ((addr - m.start) / 8 * 8) :=
  rfl

end Sections

/-! ## The text of the files -/

/-- A text that is that of the files, also behind their ends. -/
def Mapped.text (g : Mapped) (contents : Contents) : Bytes 64 := fun a =>
  match (procMaps g.lines).find? fun m => decide (m.start ≤ a) && decide (a < m.stop) with
  | some m => contents m.path (g.offset m + (a.toNat - m.start.toNat))
  | none => 0

theorem MapsAscending.eq_of_mem {lines : List Mapping} (h : MapsAscending lines)
    {m m' : Mapping} (hm : m ∈ lines) (hm' : m' ∈ lines) {a : Word}
    (hin : m.start ≤ a ∧ a < m.stop) (hin' : m'.start ≤ a ∧ a < m'.stop) : m = m' := by
  obtain ⟨i, hi⟩ := List.mem_iff_getElem?.mp hm
  obtain ⟨j, hj⟩ := List.mem_iff_getElem?.mp hm'
  obtain rfl := index_unique h.disjoint hi hj hin hin'
  exact Option.some.inj (hi.symm.trans hj)

theorem Mapped.text_of_mem {g : Mapped} {contents : Contents} {m : Mapping}
    (hm : m ∈ procMaps g.lines) {a : Word} (hin : m.start ≤ a ∧ a < m.stop) :
    g.text contents a = contents m.path (g.offset m + (a.toNat - m.start.toNat)) := by
  have hin' : (decide (m.start ≤ a) && decide (a < m.stop)) = true := by
    rw [Bool.and_eq_true, decide_eq_true_iff, decide_eq_true_iff]
    exact hin
  unfold Mapped.text
  cases hfind : (procMaps g.lines).find? fun m => decide (m.start ≤ a) && decide (a < m.stop) with
  | none => exact absurd hin' (List.find?_eq_none.mp hfind m hm)
  | some m' =>
      have hholds := List.find?_some hfind
      rw [Bool.and_eq_true, decide_eq_true_iff, decide_eq_true_iff] at hholds
      have hm' := List.mem_of_find?_eq_some hfind
      obtain rfl := g.ascending.eq_of_mem (List.mem_of_mem_filter hm) (List.mem_of_mem_filter hm')
        hin hholds
      rfl

theorem Mapped.backs_text (g : Mapped) (contents : Contents) :
    g.Backs contents (g.text contents) := by
  intro m hm i hi _
  have hstop := m.stop.isLt
  have hadd : (m.start + BitVec.ofNat 64 i).toNat = m.start.toNat + i := by
    rw [BitVec.toNat_add, BitVec.toNat_ofNat, Nat.add_mod_mod, Nat.mod_eq_of_lt (by omega)]
  rw [g.text_of_mem hm, hadd, Nat.add_sub_cancel_left]
  rw [BitVec.le_def, BitVec.lt_def, hadd]
  omega

/-! ## Accesses -/

section Access

variable {g : Mapped} {peek : Word → Option Word} {addr : Word} {m : Mapping} {r : Nat}

/-- **A cached word is that of the text** if the mapping begins where the file
does, the address is a multiple of 8 from its start, and the word has been read. -/
theorem word_eq_text (hm : m ∈ procMaps g.lines) (hr : g.rlen m = some r) (hstart : m.start ≤ addr)
    (hoffset : g.offset m = 0) (hdvd : 8 ∣ addr.toNat - m.start.toNat)
    (hread : addr.toNat + 8 ≤ m.start.toNat + r) {contents : Contents} {b text : Bytes 64}
    (htext : g.Backs contents text) :
    (mapSection contents b m r).word addr = ptraceGetData text addr := by
  obtain ⟨hle, hlength⟩ := g.rlen_le m hm r hr
  have hindex : ((addr - m.start) / 8 * 8).toNat = addr.toNat - m.start.toNat := by
    rw [toNat_index hstart, Nat.div_mul_cancel hdvd]
  rw [BitVec.le_def] at hstart
  have haddr := addr.isLt
  rw [mapSection_word, ptraceGetData]
  apply Bytes.readWord_eq_of_forall
  intro k hk
  have hbyte : ((addr - m.start) / 8 * 8 + BitVec.ofNat 64 k).toNat =
      addr.toNat - m.start.toNat + k := by
    rw [BitVec.toNat_add, hindex, BitVec.toNat_ofNat, Nat.add_mod_mod, Nat.mod_eq_of_lt]
    have := (g.toNat_stop hm hr) ▸ (m.start + BitVec.ofNat 64 r).isLt
    omega
  have hplace : addr + BitVec.ofNat 64 k =
      m.start + BitVec.ofNat 64 (addr.toNat - m.start.toNat + k) := by
    apply BitVec.eq_of_toNat_eq
    simp only [BitVec.toNat_add, BitVec.toNat_ofNat]
    omega
  have hmapped := htext m hm (addr.toNat - m.start.toNat + k) (by omega) (by omega)
  rw [mapSection_data (by omega), hbyte, hplace, hmapped, hoffset, Nat.zero_add]

/-- The contents in which one byte stands out. -/
def markedAt (i : Nat) : Contents := fun _ j => if j = i then 1 else 0

/-- **A cached word is that of the text**, whatever the files contain, only if
the mapping begins where the file does and the address is a multiple of 8 from
its start. -/
theorem geometry_of_word_eq (hm : m ∈ procMaps g.lines) (hr : g.rlen m = some r)
    (hstart : m.start ≤ addr) (hread : (addr.toNat - m.start.toNat) / 8 * 8 + 8 ≤ r)
    {b : Bytes 64}
    (h : (mapSection (markedAt ((addr.toNat - m.start.toNat) / 8 * 8)) b m r).word addr =
      ptraceGetData (g.text (markedAt ((addr.toNat - m.start.toNat) / 8 * 8))) addr) :
    g.offset m = 0 ∧ 8 ∣ addr.toNat - m.start.toNat := by
  have hindex := toNat_index hstart
  have hstop := m.stop.isLt
  have hle := (g.rlen_le m hm r hr).1
  have hin : m.start ≤ addr ∧ addr < m.stop := by
    refine ⟨hstart, ?_⟩
    rw [BitVec.le_def] at hstart
    rw [BitVec.lt_def]
    omega
  have hfirst := congrArg (fun v => byteOf (n := 8) v 0) h
  rw [mapSection_word, ptraceGetData, Bytes.byteOf_readWord_zero _ (by decide),
    Bytes.byteOf_readWord_zero _ (by decide), g.text_of_mem hm hin, mapSection_data (by omega),
    hindex] at hfirst
  -- the marked byte is not that of the text unless both positions are one
  by_cases hsame : g.offset m + (addr.toNat - m.start.toNat) =
      (addr.toNat - m.start.toNat) / 8 * 8
  · refine ⟨by omega, ?_⟩
    omega
  · rw [markedAt, if_pos rfl, markedAt, if_neg hsame] at hfirst
    exact absurd hfirst (by decide)

theorem ptrAccessMem_of_some {sections : List MapSection} {ms : MapSection}
    (h : (sections.find? fun ms => ms.holds addr) = some ms) :
    ptrAccessMem sections peek addr = some (ms.word addr) := by
  rw [ptrAccessMem, h]

/-- A failed request and a word of `-1` are one. -/
theorem ptrAccessMem_eq_peek_iff {sections : List MapSection}
    (h : (sections.find? fun ms => ms.holds addr) = none) :
    ptrAccessMem sections peek addr = peek addr ↔ peek addr ≠ some (-1) := by
  rw [ptrAccessMem, h]
  dsimp only
  cases hpeek : peek addr with
  | none => simp
  | some val =>
      rw [Option.getD_some]
      by_cases hval : val = -1
      · rw [if_pos hval, hval]
        simp
      · rw [if_neg hval]
        refine iff_of_true rfl ?_
        intro hsome
        exact hval (Option.some.inj hsome)

end Access

/-- **Cached unwinding reads** agree with the target, whatever the files
contain, exactly under `AccessFits`. -/
theorem access_iff (g : Mapped) (peek : Word → Option Word) (addr : Word) :
    AccessRight g peek addr ↔ AccessFits g peek addr := by
  have hfind := fun contents behind => @find_ptrMapsBuild g contents behind addr
  unfold AccessFits
  cases hholder : g.holder addr with
  | none =>
      rw [hholder] at hfind
      constructor
      · intro h
        exact (ptrAccessMem_eq_peek_iff (hfind (fun _ _ => 0) fun _ _ => 0)).mp
          (h.traced _ _ (hfind _ _))
      · intro hpeek
        constructor
        · intro contents behind text _ ms hms
          cases (hfind contents behind).symm.trans hms
        · intro contents behind hnone
          exact (ptrAccessMem_eq_peek_iff hnone).mpr hpeek
  | some m =>
      obtain ⟨hm, r, hr, hstart, hstop⟩ := g.holder_eq_some hholder
      rw [hholder] at hfind
      simp only [Option.bind_some, hr, Option.map_some] at hfind
      -- `end - start` of the section is what has been read
      have hread : (m.start + BitVec.ofNat 64 r - m.start).toNat = r := by
        have hle : m.start ≤ m.start + BitVec.ofNat 64 r := BitVec.le_trans hstart hstop
        rw [BitVec.toNat_sub_of_le hle, g.toNat_stop hm hr, Nat.add_sub_cancel_left]
      constructor
      · intro h
        generalize hmark : (addr.toNat - m.start.toNat) / 8 * 8 = i
        have hms := hfind (markedAt i) fun _ _ => 0
        obtain ⟨hword, hbytes⟩ := h.cached _ _ _ (g.backs_text (markedAt i)) _ hms
        rw [ptrAccessMem_of_some hms] at hword
        have hindex := toNat_index hstart
        have hbytes : i + 8 ≤ r := by
          have hbytes' : ((addr - m.start) / 8 * 8).toNat + 8 ≤
              (m.start + BitVec.ofNat 64 r - m.start).toNat := hbytes
          omega
        subst hmark
        obtain ⟨hoffset, hdvd⟩ := geometry_of_word_eq hm hr hstart hbytes (Option.some.inj hword)
        refine ⟨hoffset, hdvd, r, hr, ?_⟩
        rw [BitVec.le_def] at hstart
        omega
      · rintro ⟨hoffset, hdvd, r', hr', hbytes⟩
        obtain rfl := Option.some.inj (hr.symm.trans hr')
        constructor
        · intro contents behind text htext ms hms
          obtain rfl := Option.some.inj ((hfind contents behind).symm.trans hms)
          refine ⟨?_, ?_⟩
          · rw [ptrAccessMem_of_some hms, word_eq_text hm hr hstart hoffset hdvd hbytes htext]
          · show ((addr - m.start) / 8 * 8).toNat + 8 ≤
              (m.start + BitVec.ofNat 64 r - m.start).toNat
            rw [hread, toNat_index hstart, Nat.div_mul_cancel hdvd]
            rw [BitVec.le_def] at hstart
            omega
        · intro contents behind hnone
          cases (hfind contents behind).symm.trans hnone

/-! ## A text segment behind the headers -/

/-- The second page of a library is mapped. -/
def secondPage : Mapped where
  lines := [libraryPage "/lib/libc.so.6" 0x7F0000001000]
  ascending := ⟨by decide, by decide⟩
  offset := fun _ => 0x1000
  length := fun _ => 0x2000
  rlen := fun _ => some 0x1000
  rlen_le := by
    intro m hm r hr
    obtain rfl := Option.some.inj hr
    rw [List.mem_singleton.mp (List.mem_of_mem_filter hm)]
    decide

def twoPages : Contents := fun _ i => if i < 0x1000 then 0x11 else 0x22

/-- The cached word at the start of the mapping is from the first page of the
file. A word of `-1` outside of the mapping is not returned. -/
theorem cached_word_of_wrong_page :
    secondPage.Backs twoPages (secondPage.text twoPages) ∧
      ptraceGetData (secondPage.text twoPages) 0x7F0000001000 = 0x2222222222222222 ∧
      ptrAccessMem (ptrMapsBuild secondPage twoPages fun _ _ => 0) (fun _ => none)
        0x7F0000001000 = some 0x1111111111111111 ∧
      ¬ AccessRight secondPage (fun _ => none) 0x7F0000001000 ∧
      ¬ AccessRight secondPage (fun _ => some (-1)) 0x1000 := by
  have hbacks := secondPage.backs_text twoPages
  have htext : ptraceGetData (secondPage.text twoPages) 0x7F0000001000 = 0x2222222222222222 := by
    decide
  have hcached : ptrAccessMem (ptrMapsBuild secondPage twoPages fun _ _ => 0) (fun _ => none)
      0x7F0000001000 = some 0x1111111111111111 := by
    decide
  refine ⟨hbacks, htext, hcached, ?_, ?_⟩
  · intro h
    have hword := (h.cached twoPages (fun _ _ => 0) _ hbacks _ rfl).1
    rw [hcached, htext] at hword
    exact absurd hword (by decide)
  · intro h
    have hnone := h.traced twoPages (fun _ _ => 0) (by rfl)
    revert hnone
    decide

end Memleax
