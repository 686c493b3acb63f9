import Memleax.Symbols.DebugTry
import Memleax.Symbols.ProcMaps

/-!
# `proc_maps` on FreeBSD

There the mappings are a table that libprocstat fills, and the static variables of `proc_maps`
are the table and an index. No text has to be taken apart, so every executable file mapping is
returned to every consumer. But the program itself is recognised by the last part of its path,
which is compared with the 19 characters that the kernel keeps of a command:
`freebsd_enumerates_iff` says when `exe_self` comes out right.
-/

namespace Memleax

open Framework

namespace Freebsd

/-- The fields of `struct kinfo_vmentry` that are read. -/
structure KinfoVmentry where
  kveStart : Word
  kveEnd : Word
  /-- `KVME_PROT_EXEC` -/
  protExec : Bool
  kvePath : Path
deriving DecidableEq, Repr

/-- What `procstat_getvmmap` fills, and `ki_comm`. -/
structure KinfoProc where
  vmmap : List KinfoVmentry
  comm : Path

/-- The static variables. -/
structure MapsStatics where
  freep : Option (List KinfoVmentry) := none
  i : Nat := 0
  exeName : Path := []

/-- What a call returns and stores. -/
structure FileMapping where
  path : Path
  start : Word
  stop : Word
  exeSelf : Bool
deriving DecidableEq, Repr

/-- The `while` loop, from the `i`-th entry of the table on. -/
def procMapsLoop (table : List KinfoVmentry) (exeName : Path) :
    List KinfoVmentry → Nat → Except Abort (Option FileMapping × MapsStatics)
  | [], _ => .ok (none, { freep := none, i := 0, exeName := exeName })
  | kve :: rest, i =>
      if kve.protExec = true ∧ kve.kvePath.head? = some '/' then do
        let p ← orUndefined (strrchr '/' kve.kvePath)
        .ok (some ⟨kve.kvePath, kve.kveStart, kve.kveEnd, decide (exeName = p.drop 1)⟩,
          { freep := some table, i := i + 1, exeName := exeName })
      else procMapsLoop table exeName rest (i + 1)

def procMaps (proc : KinfoProc) (st : MapsStatics) :
    Except Abort (Option FileMapping × MapsStatics) :=
  match st.freep with
  | none => procMapsLoop proc.vmmap proc.comm (proc.vmmap.drop st.i) st.i
  | some table => procMapsLoop table st.exeName (table.drop st.i) st.i

/-! ## What is to be returned -/

/-- The entry is an executable mapping of a file. -/
def KinfoVmentry.Wanted (kve : KinfoVmentry) : Prop :=
  kve.protExec = true ∧ kve.kvePath.head? = some '/'

instance (kve : KinfoVmentry) : Decidable kve.Wanted := inferInstanceAs (Decidable (_ ∧ _))

/-- The mapping of an entry, with the flag of the program itself. -/
def KinfoVmentry.mapping (self : Path → Bool) (kve : KinfoVmentry) : Option FileMapping :=
  if kve.Wanted then some ⟨kve.kvePath, kve.kveStart, kve.kveEnd, self kve.kvePath⟩ else none

/-- A consumer that finds the table freed gets the mappings and then `NULL`, and leaves it
freed for the next one. -/
def Enumerates (proc : KinfoProc) (wanted : List FileMapping) : Prop :=
  ∀ st : MapsStatics, st.freep = none → st.i = 0 →
    ∃ st', st'.freep = none ∧ st'.i = 0 ∧ Yields (procMaps proc) st wanted st'

section Calls

variable {proc : KinfoProc} {table : List KinfoVmentry} {exeName : Path}

theorem strrchr_of_wanted {kve : KinfoVmentry} (h : kve.Wanted) :
    strrchr '/' kve.kvePath = some ('/' :: baseName kve.kvePath) :=
  strrchr_slash (List.mem_of_head? h.2)

/-- The flag that the calls compute. -/
def named (comm : Path) (path : Path) : Bool := decide (comm = baseName path)

theorem procMapsLoop_wanted {kve : KinfoVmentry} (h : kve.Wanted) (rest : List KinfoVmentry)
    (i : Nat) :
    procMapsLoop table exeName (kve :: rest) i =
      .ok (some ⟨kve.kvePath, kve.kveStart, kve.kveEnd, named exeName kve.kvePath⟩,
        { freep := some table, i := i + 1, exeName := exeName }) := by
  rw [procMapsLoop]
  refine (if_pos h).trans ?_
  rw [strrchr_of_wanted h]
  rfl

theorem procMapsLoop_passed {kve : KinfoVmentry} (h : ¬ kve.Wanted) (rest : List KinfoVmentry)
    (i : Nat) :
    procMapsLoop table exeName (kve :: rest) i = procMapsLoop table exeName rest (i + 1) := by
  rw [procMapsLoop]
  exact if_neg h

/-- From the `i`-th entry of the table on. -/
theorem yields_drop (table : List KinfoVmentry) (exeName : Path) :
    ∀ (rest : List KinfoVmentry) (i : Nat), table.drop i = rest →
      Yields (procMaps proc) { freep := some table, i := i, exeName := exeName }
        (rest.filterMap (KinfoVmentry.mapping (named exeName)))
        { freep := none, i := 0, exeName := exeName } := by
  intro rest
  induction rest with
  | nil =>
      intro i hdrop
      refine .done ?_
      rw [procMaps]
      dsimp only
      rw [hdrop]
      rfl
  | cons kve rest ih =>
      intro i hdrop
      have hnext : table.drop (i + 1) = rest := by
        rw [← List.tail_drop, hdrop, List.tail_cons]
      have hcall : procMaps proc { freep := some table, i := i, exeName := exeName } =
          procMapsLoop table exeName (kve :: rest) i := by
        rw [procMaps]
        dsimp only
        rw [hdrop]
      rw [List.filterMap_cons, KinfoVmentry.mapping]
      by_cases hwanted : kve.Wanted
      · rw [if_pos hwanted]
        exact .item (hcall.trans (procMapsLoop_wanted hwanted rest i)) (ih (i + 1) hnext)
      · rw [if_neg hwanted]
        refine (ih (i + 1) hnext).congr ?_
        rw [hcall, procMapsLoop_passed hwanted, procMaps]
        dsimp only
        rw [hnext]

/-- What a consumer gets. -/
theorem enumerates_named (proc : KinfoProc) :
    Enumerates proc (proc.vmmap.filterMap (KinfoVmentry.mapping (named proc.comm))) := by
  intro st hfreed hi
  refine ⟨{ freep := none, i := 0, exeName := proc.comm }, rfl, rfl, ?_⟩
  have hopen := @yields_drop proc proc.vmmap proc.comm proc.vmmap 0 rfl
  refine hopen.congr ?_
  rw [procMaps, procMaps, hfreed, hi]

theorem Enumerates.unique {wanted wanted' : List FileMapping} (h : Enumerates proc wanted)
    (h' : Enumerates proc wanted') : wanted = wanted' := by
  rcases h {} rfl rfl with ⟨_, -, -, hyields⟩
  rcases h' {} rfl rfl with ⟨_, -, -, hyields'⟩
  exact hyields.unique hyields'

end Calls

theorem mapping_eq_none_iff {self : Path → Bool} {kve : KinfoVmentry} :
    kve.mapping self = none ↔ ¬ kve.Wanted := by
  unfold KinfoVmentry.mapping
  split
  · rename_i h
    exact iff_of_false (Option.some_ne_none _) (not_not.mpr h)
  · rename_i h
    exact iff_of_true rfl h

theorem mapping_eq_iff {self self' : Path → Bool} {kve : KinfoVmentry} :
    kve.mapping self = kve.mapping self' ↔ (kve.Wanted → self kve.kvePath = self' kve.kvePath) := by
  unfold KinfoVmentry.mapping
  split
  · rename_i h
    simp [h]
  · rename_i h
    simp [h]

/-- **`proc_maps` on FreeBSD yields every executable file mapping**, for each consumer. The
flag `exe_self` marks the mappings of the program and no others exactly if the name of the
program has 19 characters at most, or it is not mapped, and no other file that is mapped for
execution has a name that these characters spell. -/
theorem freebsd_enumerates_iff (proc : KinfoProc) (exe : Path)
    (hcomm : proc.comm = (baseName exe).take 19) :
    Enumerates proc
        (proc.vmmap.filterMap (KinfoVmentry.mapping fun path => decide (path = exe))) ↔
      (∀ kve ∈ proc.vmmap, kve.Wanted → kve.kvePath = exe → (baseName exe).length ≤ 19) ∧
        ∀ kve ∈ proc.vmmap, kve.Wanted → kve.kvePath ≠ exe →
          baseName kve.kvePath ≠ (baseName exe).take 19 := by
  have hlength : (baseName exe).take 19 = baseName exe ↔ (baseName exe).length ≤ 19 :=
    List.take_eq_self_iff _
  have hflags : Enumerates proc
      (proc.vmmap.filterMap (KinfoVmentry.mapping fun path => decide (path = exe))) ↔
      ∀ kve ∈ proc.vmmap, kve.Wanted →
        (proc.comm = baseName kve.kvePath ↔ kve.kvePath = exe) := by
    have heq : Enumerates proc
        (proc.vmmap.filterMap (KinfoVmentry.mapping fun path => decide (path = exe))) ↔
        proc.vmmap.filterMap (KinfoVmentry.mapping (named proc.comm)) =
          proc.vmmap.filterMap (KinfoVmentry.mapping fun path => decide (path = exe)) := by
      constructor
      · exact (enumerates_named proc).unique
      · intro h
        rw [← h]
        exact enumerates_named proc
    rw [heq, filterMap_eq_iff fun kve h => mapping_eq_none_iff.mpr (mapping_eq_none_iff.mp h)]
    refine forall₂_congr fun kve _ => ?_
    rw [mapping_eq_iff, named, decide_eq_decide]
  rw [hflags, hcomm]
  constructor
  · intro h
    constructor
    · intro kve hkve hwanted hexe
      have hsame := (h kve hkve hwanted).mpr hexe
      rw [hexe] at hsame
      exact hlength.mp hsame
    · intro kve hkve hwanted hne hsame
      exact hne ((h kve hkve hwanted).mp hsame.symm)
  · rintro ⟨hself, hothers⟩ kve hkve hwanted
    constructor
    · intro hsame
      by_contra hne
      exact hothers kve hkve hwanted hne hsame.symm
    · intro hexe
      rw [hexe]
      exact hlength.mpr (hself kve hkve hwanted hexe)

/-! ## A shell and a library -/

def shellProc : KinfoProc where
  vmmap := [⟨0x400000, 0x420000, true, "/bin/sh".toList⟩, ⟨0x620000, 0x621000, false, []⟩,
    ⟨0x800000, 0x900000, true, "/lib/libc.so.7".toList⟩]
  comm := "sh".toList

theorem freebsd_enumerates_iff_shell :
    Enumerates shellProc [⟨"/bin/sh".toList, 0x400000, 0x420000, true⟩,
      ⟨"/lib/libc.so.7".toList, 0x800000, 0x900000, false⟩] := by
  have hmappings : shellProc.vmmap.filterMap
      (KinfoVmentry.mapping fun path => decide (path = "/bin/sh".toList)) =
        [⟨"/bin/sh".toList, 0x400000, 0x420000, true⟩,
          ⟨"/lib/libc.so.7".toList, 0x800000, 0x900000, false⟩] := by decide
  rw [← hmappings]
  exact (freebsd_enumerates_iff shellProc "/bin/sh".toList (by decide)).mpr
    ⟨by decide, by decide⟩

end Freebsd

end Memleax
