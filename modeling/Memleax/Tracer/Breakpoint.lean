import Memleax.Framework.Runs
import Memleax.Store.Memblock
import Memleax.Tracer.Machine

/-!
# Breakpoints

`breakpoint.c`: the four entry breakpoints, with the word that was read at each
entry before its trap byte was written.

memleax writes the target's text in five places. A `Write` remembers which one
it is, so that beside the text the model knows which breakpoints stand
(`Code`): which entries are armed and where the return breakpoint is. `Patched`
says that the text is the original one with a trap byte at exactly these
addresses, and there is one lemma for each of the five places that its write
keeps this, whatever windows of saved words overlap.
-/

namespace Memleax

open Framework

structure Breakpoint where
  entryAddress : Word := 0
  entryCode : Word := 0
deriving DecidableEq, Repr

/-- `g_breakpoints`, one for each function. -/
abbrev Breakpoints := Api → Breakpoint

/-- The functions in the order of `g_breakpoints`. -/
def Api.all : List Api := [.malloc, .free, .realloc, .calloc]

theorem Api.mem_all (api : Api) : api ∈ Api.all := by cases api <;> decide

/-! ## Writes to the text -/

/-- The places in the source that write the target's text. -/
inductive Site where
  /-- "write the trap instruction" of `do_breakpoint_init` -/
  | initEntry (api : Api)
  /-- "recover return code" -/
  | recoverReturn
  /-- "re-set breakpoint at entry address" -/
  | resetEntry (api : Api)
  /-- "recover entry code" -/
  | recoverEntry (api : Api)
  /-- "set breakpoint at return address" -/
  | setReturn
deriving DecidableEq, Repr

/-- A `ptrace_set_data` on the text of the target. -/
structure Write where
  site : Site
  address : Word
  data : Word
deriving DecidableEq, Repr

/-- The text with the breakpoints that stand in it, and the return addresses at
which one has stood. -/
structure Code where
  text : Bytes 64
  entryArmed : Api → Bool := fun _ => false
  returnArmed : Option Word := none
  returns : List Word := []

def Code.write (c : Code) (w : Write) : Code where
  text := ptraceSetData c.text w.address w.data
  entryArmed := match w.site with
    | .initEntry api => Function.update c.entryArmed api true
    | .resetEntry api => Function.update c.entryArmed api true
    | .recoverEntry api => Function.update c.entryArmed api false
    | .recoverReturn => c.entryArmed
    | .setReturn => c.entryArmed
  returnArmed := match w.site with
    | .recoverReturn => none
    | .setReturn => some w.address
    | .initEntry _ => c.returnArmed
    | .resetEntry _ => c.returnArmed
    | .recoverEntry _ => c.returnArmed
  returns := if w.site = .setReturn then w.address :: c.returns else c.returns

/-! ## `breakpoint.c` -/

/-- The state of `breakpoint_init`: the text so far, `g_breakpoints` and the
writes made. -/
structure Init where
  code : Code
  breakpoints : Breakpoints := fun _ => {}
  writes : List Write := []

/-- `none` is the `exit(3)` of a function that is not found. -/
def doBreakpointInit (symtabByName : Api → Word) (s : Init) (api : Api) : Option Init :=
  let entryAddress := symtabByName api
  if entryAddress = 0 then none
  else
    let entryCode := ptraceGetData s.code.text entryAddress
    let w : Write := ⟨.initEntry api, entryAddress, trapCode entryCode⟩
    some
      { code := s.code.write w
        breakpoints := Function.update s.breakpoints api ⟨entryAddress, entryCode⟩
        writes := s.writes ++ [w] }

def breakpointInit (symtabByName : Api → Word) (text : Bytes 64) : Option Init :=
  Api.all.foldlM (doBreakpointInit symtabByName) { code := { text := text } }

def breakpointCleanup (bps : Breakpoints) (text : Bytes 64) : Bytes 64 :=
  Api.all.foldl (fun text api => ptraceSetData text (bps api).entryAddress (bps api).entryCode) text

def breakpointByEntry (bps : Breakpoints) (address : Word) : Option Api :=
  Api.all.find? fun api => decide (address = (bps api).entryAddress)

/-! ## The armed addresses -/

/-- The entries at which a trap byte stands. -/
def Code.armedEntries (c : Code) (bps : Breakpoints) : Set Word :=
  { a | ∃ api, c.entryArmed api = true ∧ a = (bps api).entryAddress }

/-- The addresses at which memleax has a trap byte standing. -/
def Code.armed (c : Code) (bps : Breakpoints) : Set Word :=
  { a | a ∈ c.armedEntries bps ∨ c.returnArmed = some a }

instance (c : Code) (bps : Breakpoints) (a : Word) : Decidable (a ∈ c.armed bps) :=
  decidable_of_iff
    ((∃ api ∈ Api.all, c.entryArmed api = true ∧ a = (bps api).entryAddress) ∨
      c.returnArmed = some a)
    (or_congr ⟨fun ⟨api, _, h⟩ => ⟨api, h⟩, fun ⟨api, h⟩ => ⟨api, api.mem_all, h⟩⟩ Iff.rfl)

/-- What `breakpoint_init` has read, on a target whose entries are at least a
word apart. -/
structure Hooked (orig : Bytes 64) (bps : Breakpoints) : Prop where
  nonzero : ∀ api, (bps api).entryAddress ≠ 0
  code : ∀ api, (bps api).entryCode = ptraceGetData orig (bps api).entryAddress
  apart : ∀ api other, api ≠ other →
    ¬ Bytes.Within 8 (bps api).entryAddress (bps other).entryAddress

/-- The text is the original one with a trap byte at the armed addresses. -/
def Code.Patched (orig : Bytes 64) (bps : Breakpoints) (c : Code) : Prop :=
  c.text = planted orig trapByte (c.armed bps)

theorem Hooked.entry_injective {orig : Bytes 64} {bps : Breakpoints} (h : Hooked orig bps)
    {api other : Api} (heq : (bps api).entryAddress = (bps other).entryAddress) :
    api = other := by
  by_contra hne
  refine h.apart api other hne ?_
  rw [heq]
  exact Bytes.within_self (by decide) _

theorem eq_of_breakpointByEntry {bps : Breakpoints} {address : Word} {api : Api}
    (h : breakpointByEntry bps address = some api) : address = (bps api).entryAddress := by
  simpa using List.find?_some h

theorem breakpointByEntry_eq_some_iff {orig : Bytes 64} {bps : Breakpoints}
    (h : Hooked orig bps) {address : Word} {api : Api} :
    breakpointByEntry bps address = some api ↔ address = (bps api).entryAddress := by
  refine ⟨eq_of_breakpointByEntry, ?_⟩
  rintro rfl
  cases hfind : breakpointByEntry bps (bps api).entryAddress with
  | none =>
      have := List.find?_eq_none.mp hfind api api.mem_all
      simp at this
  | some other => rw [h.entry_injective (eq_of_breakpointByEntry hfind)]

theorem breakpointByEntry_eq_none_iff {bps : Breakpoints} {address : Word} :
    breakpointByEntry bps address = none ↔ ∀ api, address ≠ (bps api).entryAddress := by
  rw [breakpointByEntry, List.find?_eq_none]
  constructor
  · intro h api
    simpa using h api api.mem_all
  · intro h api _
    simpa using h api

/-! ## One lemma for each write -/

section Writes

variable {orig : Bytes 64} {bps : Breakpoints} {c : Code} {api : Api}

/-- An entry's saved word shows the text without any breakpoint. -/
theorem Hooked.entryCode_eq (hk : Hooked orig bps) (api : Api) :
    (bps api).entryCode =
      (planted orig trapByte ∅).readWord 8 (bps api).entryAddress := by
  rw [planted_empty, hk.code api]
  rfl

/-- No other armed entry lies in the window of an entry. -/
theorem Hooked.eq_of_within (hk : Hooked orig bps) {b : Word} (hb : b ∈ c.armedEntries bps)
    (hw : Bytes.Within 8 (bps api).entryAddress b) : b = (bps api).entryAddress := by
  obtain ⟨other, -, rfl⟩ := hb
  by_cases heq : api = other
  · rw [heq]
  · exact absurd hw (hk.apart api other heq)

theorem Code.Patched.armEntry (hk : Hooked orig bps) (hp : c.Patched orig bps)
    (hr : c.returnArmed = none) (api : Api) {c' : Code}
    (htext : c'.text = setBreakpoint c.text (bps api).entryAddress (bps api).entryCode)
    (harmed : c'.entryArmed = Function.update c.entryArmed api true)
    (hr' : c'.returnArmed = none) : c'.Patched orig bps := by
  have hmem : ∀ b, b ∈ c'.armed bps ↔ b = (bps api).entryAddress ∨ b ∈ c.armed bps := by
    intro b
    simp only [Code.armed, Code.armedEntries, hr, hr', harmed, Set.mem_ofPred_eq, reduceCtorEq,
      or_false]
    constructor
    · rintro ⟨other, hother, rfl⟩
      by_cases heq : other = api
      · exact Or.inl (by rw [heq])
      · rw [Function.update_of_ne heq] at hother
        exact Or.inr ⟨other, hother, rfl⟩
    · rintro (rfl | ⟨other, hother, rfl⟩)
      · exact ⟨api, by simp, rfl⟩
      · by_cases heq : other = api
        · exact ⟨api, by simp, by rw [heq]⟩
        · exact ⟨other, by rw [Function.update_of_ne heq, hother], rfl⟩
  rw [Code.Patched, htext, show c.text = _ from hp]
  refine planted_arm (n := 8) (B := ∅) (by decide) (byteOf_trapCode_zero _) (fun k hk0 hk8 => ?_)
    ((hmem _).mpr (Or.inl rfl)) (fun b hne hw => ?_) (fun b hw => ?_)
  · rw [byteOf_trapCode_of_pos _ hk0 hk8, hk.entryCode_eq api]
  · refine iff_of_false ?_ (Set.notMem_empty b)
    intro hb
    rcases (hmem b).mp hb with heq | hb | hret
    · exact hne heq
    · exact hne (hk.eq_of_within hb hw)
    · rw [hr] at hret
      cases hret
  · rw [hmem, or_iff_right]
    rintro rfl
    exact hw (Bytes.within_self (by decide) _)

theorem Code.Patched.recoverEntry (hk : Hooked orig bps) (hp : c.Patched orig bps)
    (hr : c.returnArmed = none) :
    (c.write ⟨.recoverEntry api, (bps api).entryAddress, (bps api).entryCode⟩).Patched orig bps := by
  set c' := c.write ⟨.recoverEntry api, (bps api).entryAddress, (bps api).entryCode⟩ with hc'
  have hmem : ∀ b, b ∈ c'.armed bps ↔ b ≠ (bps api).entryAddress ∧ b ∈ c.armed bps := by
    intro b
    simp only [hc', Code.write, Code.armed, Code.armedEntries, hr, Set.mem_ofPred_eq, reduceCtorEq,
      or_false]
    constructor
    · rintro ⟨other, hother, rfl⟩
      have hne : other ≠ api := by
        rintro rfl
        simp at hother
      rw [Function.update_of_ne hne] at hother
      exact ⟨fun heq => hne (hk.entry_injective heq), other, hother, rfl⟩
    · rintro ⟨hne, other, hother, rfl⟩
      have hne' : other ≠ api := by
        rintro rfl
        exact hne rfl
      exact ⟨other, by rw [Function.update_of_ne hne', hother], rfl⟩
  have htext : c'.text = c.text.writeWord (n := 8) (bps api).entryAddress (bps api).entryCode := rfl
  rw [Code.Patched, htext, show c.text = _ from hp, hk.entryCode_eq api]
  refine planted_restore ?_ ?_
  · intro b hw
    -- in the window of an entry no other breakpoint stands
    refine iff_of_false ?_ (Set.notMem_empty b)
    intro hb
    obtain ⟨hne, hb | hret⟩ := (hmem b).mp hb
    · exact hne (hk.eq_of_within hb hw)
    · rw [hr] at hret
      cases hret
  · intro b hw
    rw [hmem, and_iff_right]
    rintro rfl
    exact hw (Bytes.within_self (by decide) _)

/-- Setting the return breakpoint over the word just read there. -/
theorem Code.Patched.setReturn (hp : c.Patched orig bps) (hr : c.returnArmed = none)
    (address : Word) :
    (c.write ⟨.setReturn, address, trapCode (ptraceGetData c.text address)⟩).Patched orig bps := by
  set c' := c.write ⟨.setReturn, address, trapCode (ptraceGetData c.text address)⟩ with hc'
  have hmem : ∀ b, b ∈ c'.armed bps ↔ b = address ∨ b ∈ c.armed bps := by
    intro b
    simp only [hc', Code.write, Code.armed, Code.armedEntries, hr, Set.mem_ofPred_eq, reduceCtorEq,
      or_false, Option.some_inj]
    rw [or_comm, eq_comm]
  have htext : c'.text = c.text.writeWord (n := 8) address
      (trapCode (ptraceGetData c.text address)) := rfl
  rw [Code.Patched, htext, show c.text = _ from hp]
  refine planted_arm (n := 8) (B := c.armed bps) (by decide) (byteOf_trapCode_zero _)
    (fun k hk0 hk8 => byteOf_trapCode_of_pos _ hk0 hk8) ((hmem _).mpr (Or.inl rfl))
    (fun b hne _ => ?_) (fun b hw => ?_)
  · rw [hmem, or_iff_right hne]
  · rw [hmem, or_iff_right]
    rintro rfl
    exact hw (Bytes.within_self (by decide) _)

/-- The word that was read at a return address: the entries that are armed now
were armed then. -/
def Code.SavedReturn (c : Code) (orig : Bytes 64) (bps : Breakpoints) (address code : Word) : Prop :=
  code = ptraceGetData (planted orig trapByte (c.armedEntries bps)) address

theorem Code.Patched.recoverReturn (hp : c.Patched orig bps) {address code : Word}
    (hr : c.returnArmed = some address) (hs : c.SavedReturn orig bps address code) :
    (c.write ⟨.recoverReturn, address, code⟩).Patched orig bps := by
  set c' := c.write ⟨.recoverReturn, address, code⟩ with hc'
  have hmem : ∀ b, b ∈ c'.armed bps ↔ b ∈ c.armedEntries bps := by
    intro b
    simp only [hc', Code.write, Code.armed, Code.armedEntries, Set.mem_ofPred_eq, reduceCtorEq,
      or_false]
  have htext : c'.text = c.text.writeWord (n := 8) address code := rfl
  rw [Code.Patched, htext, show c.text = _ from hp, show code = _ from hs]
  -- inside the window the saved word has the armed entries, as the text has to
  apply planted_restore (fun b _ => hmem b)
  intro b hw
  rw [hmem]
  refine ⟨Or.inl, ?_⟩
  intro hb
  rcases hb with hb | hb
  · exact hb
  · rw [hr] at hb
    cases hb
    exact absurd (Bytes.within_self (by decide) _) hw

end Writes

/-! ## `breakpoint_init` -/

/-- The breakpoints of a target: every entry with its original word. -/
def hookedBreakpoints (symtabByName : Api → Word) (text : Bytes 64) : Breakpoints :=
  fun api => ⟨symtabByName api, ptraceGetData text (symtabByName api)⟩

section BreakpointInit

variable {symtabByName : Api → Word} {text : Bytes 64}

theorem doBreakpointInit_eq_some {s i : Init} {api : Api}
    (h : doBreakpointInit symtabByName s api = some i) :
    symtabByName api ≠ 0 ∧
      ∃ w : Write, w = ⟨.initEntry api, symtabByName api,
          trapCode (ptraceGetData s.code.text (symtabByName api))⟩ ∧
        i = { code := s.code.write w
              breakpoints := Function.update s.breakpoints api
                ⟨symtabByName api, ptraceGetData s.code.text (symtabByName api)⟩
              writes := s.writes ++ [w] } := by
  unfold doBreakpointInit at h
  by_cases hz : symtabByName api = 0
  · rw [if_pos hz] at h
    cases h
  · rw [if_neg hz] at h
    exact ⟨hz, _, rfl, (Option.some.inj h).symm⟩

theorem init_fold_armed {apis : List Api} {s i : Init}
    (h : apis.foldlM (doBreakpointInit symtabByName) s = some i) :
    (∀ api ∈ apis, symtabByName api ≠ 0) ∧
      ∃ writes, i.writes = s.writes ++ writes ∧ i.code = writes.foldl Code.write s.code ∧
        (∀ w ∈ writes, w.site ≠ .setReturn) ∧ i.code.returnArmed = s.code.returnArmed ∧
        (∀ api, i.code.entryArmed api = true ↔ api ∈ apis ∨ s.code.entryArmed api = true) ∧
        ∀ api, (i.breakpoints api).entryAddress =
          if api ∈ apis then symtabByName api else (s.breakpoints api).entryAddress := by
  induction apis generalizing s with
  | nil =>
      obtain rfl := Option.some.inj h
      exact ⟨by simp, [], by simp, rfl, by simp, rfl, by simp, by simp⟩
  | cons api apis ih =>
      rw [List.foldlM_cons] at h
      obtain ⟨t, ht, h⟩ := Option.bind_eq_some_iff.mp h
      obtain ⟨hz, w, hw, rfl⟩ := doBreakpointInit_eq_some ht
      obtain ⟨hnonzero, writes, hwrites, hcode, hsites, hret, harmed, hbps⟩ := ih h
      refine ⟨List.forall_mem_cons.mpr ⟨hz, hnonzero⟩, w :: writes,
        by rw [hwrites, List.append_assoc]; rfl, hcode,
        List.forall_mem_cons.mpr ⟨by rw [hw]; nofun, hsites⟩, hret.trans (by rw [hw]; rfl),
        fun other => ?_, fun other => ?_⟩
      · rw [harmed, List.mem_cons, hw]
        show _ ∨ Function.update s.code.entryArmed api true other = true ↔ _
        by_cases heq : other = api
        · simp [heq]
        · simp [heq]
      · rw [hbps]
        by_cases heq : other = api
        · simp [heq]
        · simp [heq]

/-- An entry that is not armed yet is read as in the original text. -/
theorem Code.Patched.read_entry {bps : Breakpoints} (hk : Hooked text bps) {c : Code}
    (hp : c.Patched text bps) (hr : c.returnArmed = none) {api : Api}
    (ha : c.entryArmed api = false) :
    ptraceGetData c.text (bps api).entryAddress = (bps api).entryCode := by
  rw [hk.code api, ptraceGetData, ptraceGetData, show c.text = _ from hp]
  refine Bytes.readWord_congr fun b hw => planted_of_notMem ?_
  rintro (⟨other, hother, rfl⟩ | hret)
  · by_cases heq : api = other
    · rw [heq, hother] at ha
      cases ha
    · exact hk.apart api other heq hw
  · rw [hr] at hret
    cases hret

/-- Each entry is saved, and the text is patched all along. -/
theorem init_fold_patched (hk : Hooked text (hookedBreakpoints symtabByName text))
    {apis : List Api} (hnd : apis.Nodup) {s i : Init}
    (hp : s.code.Patched text (hookedBreakpoints symtabByName text))
    (hr : s.code.returnArmed = none) (hun : ∀ api ∈ apis, s.code.entryArmed api = false)
    (h : apis.foldlM (doBreakpointInit symtabByName) s = some i) :
    (∀ writes, i.writes = s.writes ++ writes →
      Throughout Code.write (Code.Patched text (hookedBreakpoints symtabByName text))
        s.code writes) ∧
      ∀ api, i.breakpoints api =
        if api ∈ apis then hookedBreakpoints symtabByName text api else s.breakpoints api := by
  induction apis generalizing s with
  | nil =>
      obtain rfl := Option.some.inj h
      refine ⟨?_, by simp⟩
      intro writes hwrites
      obtain rfl := List.append_right_eq_self.mp hwrites.symm
      exact hp
  | cons api apis ih =>
      rw [List.foldlM_cons] at h
      obtain ⟨t, ht, h⟩ := Option.bind_eq_some_iff.mp h
      obtain ⟨-, w, hw, rfl⟩ := doBreakpointInit_eq_some ht
      -- the entries armed so far are out of the window that is read
      have hread : ptraceGetData s.code.text (symtabByName api) =
          ptraceGetData text (symtabByName api) :=
        hp.read_entry hk hr (hun api List.mem_cons_self)
      obtain ⟨hnot, hnd⟩ := List.nodup_cons.mp hnd
      have harmed : (s.code.write w).entryArmed = Function.update s.code.entryArmed api true := by
        rw [hw]
        rfl
      have hr' : (s.code.write w).returnArmed = none := by
        rw [hw]
        exact hr
      have hp' : (s.code.write w).Patched text (hookedBreakpoints symtabByName text) := by
        refine hp.armEntry hk hr api ?_ harmed hr'
        rw [hw, hread]
        rfl
      have hun' : ∀ other ∈ apis, (s.code.write w).entryArmed other = false := fun other ho => by
        rw [harmed, Function.update_of_ne (ne_of_mem_of_not_mem ho hnot)]
        exact hun other (List.mem_cons_of_mem _ ho)
      obtain ⟨hall, hbps⟩ := ih hnd hp' hr' hun' h
      constructor
      · intro writes hwrites
        obtain ⟨-, rest, hrest, -⟩ := init_fold_armed h
        have heq : writes = w :: rest := by
          rw [hrest, List.append_assoc] at hwrites
          exact (List.append_cancel_left hwrites).symm
        rw [heq]
        exact ⟨hp, hall rest hrest⟩
      · intro other
        rw [hbps]
        by_cases heq : other = api
        · subst heq
          rw [if_neg hnot, if_pos List.mem_cons_self]
          refine (Function.update_self _ _ _).trans ?_
          rw [hread]
          rfl
        · simp [heq]

/-- **What `breakpoint_init` leaves behind.** -/
theorem breakpointInit_armed {i : Init} (h : breakpointInit symtabByName text = some i) :
    (∀ api, (i.breakpoints api).entryAddress = symtabByName api ∧ symtabByName api ≠ 0) ∧
      (∀ w ∈ i.writes, w.site ≠ .setReturn) ∧
      (i.writes.foldl Code.write { text := text }).returnArmed = none ∧
      ∀ api, (i.writes.foldl Code.write { text := text }).entryArmed api = true := by
  obtain ⟨hnonzero, writes, hwrites, hcode, hsites, hret, harmed, hbps⟩ := init_fold_armed h
  have hwrites : i.writes = writes := hwrites
  rw [hwrites, ← hcode]
  refine ⟨fun api => ⟨?_, hnonzero api api.mem_all⟩, hsites, hret,
    fun api => (harmed api).mpr (Or.inl api.mem_all)⟩
  rw [hbps api, if_pos api.mem_all]

/-- The text, when the entries are at least a word apart. -/
theorem breakpointInit_patched {i : Init} (h : breakpointInit symtabByName text = some i)
    (hapart : ∀ api other, api ≠ other →
      ¬ Bytes.Within 8 (symtabByName api) (symtabByName other)) :
    i.breakpoints = hookedBreakpoints symtabByName text ∧ Hooked text i.breakpoints ∧
      Throughout Code.write (Code.Patched text i.breakpoints) { text := text } i.writes := by
  have hk : Hooked text (hookedBreakpoints symtabByName text) :=
    ⟨fun api => ((breakpointInit_armed h).1 api).2, fun _ => rfl, hapart⟩
  have hp : ({ text := text } : Code).Patched text (hookedBreakpoints symtabByName text) := by
    have hnone : ({ text := text } : Code).armed (hookedBreakpoints symtabByName text) = ∅ := by
      apply Set.eq_empty_of_forall_notMem
      intro b hb
      rcases hb with ⟨api, hapi, -⟩ | hret
      · cases hapi
      · cases hret
    rw [Code.Patched, hnone, planted_empty]
  obtain ⟨hall, hbps⟩ := init_fold_patched hk (by decide) hp rfl (fun _ _ => rfl) h
  have heq : i.breakpoints = hookedBreakpoints symtabByName text := by
    funext api
    rw [hbps api, if_pos api.mem_all]
  rw [heq]
  exact ⟨rfl, hk, hall i.writes rfl⟩

end BreakpointInit

end Memleax
