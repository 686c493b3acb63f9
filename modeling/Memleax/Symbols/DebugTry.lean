import Mathlib.Data.List.DropRight
import Memleax.Framework.Iterators
import Memleax.Symbols.AddrMaps
import Memleax.Symbols.DebugFile
import Memleax.Symbols.SymbolLookup

/-!
# Where debug information is looked for

`debug_try_init` takes down by what the debug file of a mapped file is to be
known, and each `debug_try_get` hands out the next file to read. Its `switch`
falls through: a candidate that is not valid is passed over, and `g_index` keeps
the place between the calls.

`Catalogue.debugFiles` is the list that comes out of it, and `build_reads_debugFiles`
says that `symtab_build` and `debug_line_build` read the files in this order, for
each mapping until one yields something. The notes and the links are to be
well-formed (what happens otherwise is the subject of `Memleax.Symbols.DebugFile`).
-/

namespace Memleax

open Framework

/-- A file name, or other text of C, without the `0` at its end. -/
abbrev Path := List Char

/-- A file, for libelf and for `read`. -/
structure DiskFile where
  sections : Option (List (Option NamedSection)) := none
  content : List CByte
  reads : Reads content

/-- What `open` finds. -/
abbrev Disk := Path → Option DiskFile

/-- The lines that `debug_file.c` and its callers print. -/
inductive DebugMessage where
  | unmatchBuildId (debugPath path : Path)
  | unmatchCrc32 (debugPath path : Path)
  | withoutChecking (debugPath path : Path)
  | invalidDebugInfo (path : Path)
  /-- "no symbol table found" or "no debug-line found" -/
  | nothingFound (path : Path)
deriving DecidableEq

/-- The end of memleax before its time. -/
inductive Abort where
  | exit (code : Nat) (out : List DebugMessage)
  | undefined
deriving DecidableEq

/-- The static variables of `debug_file.c`, and what has been printed. -/
structure DebugStatics where
  path : Path
  dir : Path
  index : Nat
  exeSelf : Bool
  buildId : List CByte
  buildidLen : BitVec 32
  debugFname : Path
  debugCrc32 : BitVec 32
  out : List DebugMessage := []

/-- What the memory holds behind the sections that are decoded: those of the
mapped file, and the note of each candidate. -/
structure Behind where
  note : List CByte
  link : List CByte
  candidate : Nat → List CByte

/-! ## `debug_file.c` -/

/-- Text that is written to a buffer of `size` bytes. -/
def intoBuffer (size : Nat) (text : Path) : Except Abort Path :=
  if text.length < size then .ok text else .error .undefined

def orUndefined {α : Type*} : Option α → Except Abort α
  | none => .error .undefined
  | some x => .ok x

def DebugStatics.say (st : DebugStatics) (m : DebugMessage) : DebugStatics :=
  { st with out := st.out ++ [m] }

/-- A C string in a buffer. -/
def cstring (bytes : List CByte) : Path :=
  (bytes.takeWhile (· ≠ 0)).map fun byte => Char.ofNat byte.toNat

def debugValid (disk : Disk) (beyond : List CByte) (st : DebugStatics) (debugPath : Path) :
    Except Abort (Bool × DebugStatics) :=
  match disk debugPath with
  | none => .ok (false, st)
  | some file =>
      if st.buildidLen ≠ 0 then do
        let bid ← orUndefined (elfBuildId file.sections beyond)
        -- `bid[100]`
        if bid.out.length > 100 then .error .undefined
        else if bid.ret ≠ st.buildidLen ∨ bid.out ≠ st.buildId then
          .ok (false, st.say (.unmatchBuildId debugPath st.path))
        else .ok (true, st)
      else if st.debugCrc32 ≠ 0 then
        if fileCrc32 file.reads.chunks ≠ st.debugCrc32 then
          .ok (false, st.say (.unmatchCrc32 debugPath st.path))
        else .ok (true, st)
      else .ok (true, st.say (.withoutChecking debugPath st.path))

def debugTryInit (disk : Disk) (behind : Behind) (path : Path) (exeSelf : Bool)
    (out : List DebugMessage) : Except Abort DebugStatics := do
  let gPath ← intoBuffer 1024 path
  let p ← orUndefined (strrchr '/' path)
  let gDir ← intoBuffer 1024 (path.take (path.length - p.length))
  let sections := (disk path).bind DiskFile.sections
  let note ← orUndefined (elfBuildId sections behind.note)
  let link ← orUndefined (elfDebugLink sections behind.link)
  -- `g_build_id[100]` and `g_debug_fname[1024]`
  if note.out.length > 100 ∨ link.out.length > 1024 then .error .undefined
  else
    let fname ← if link.ret = 0 then intoBuffer 1024 (p.drop 1 ++ ".debug".toList)
      else .ok (cstring link.out)
    .ok
      { path := gPath
        dir := gDir
        index := 0
        exeSelf := exeSelf
        buildId := note.out
        buildidLen := note.ret
        debugFname := fname
        debugCrc32 := link.ret
        out := out }

/-- `%02x`. -/
def hexByte (byte : CByte) : Path :=
  [Nat.digitChar (byte.toNat / 16), Nat.digitChar (byte.toNat % 16)]

def buildIdPath (buildId : List CByte) : Path :=
  "/usr/lib/debug/.build-id/".toList ++ hexByte (buildId.headD 0) ++ "/".toList ++
    buildId.tail.flatMap hexByte ++ ".debug".toList

/-- A call of `debug_try_get`: the path that is returned, `none` for `NULL`. -/
abbrev DebugTry := Except Abort (Option Path × DebugStatics)

/-- A candidate in `debug_path[2048]`; if it is not valid, the next case follows. -/
def tryPath (disk : Disk) (beyond : List CByte) (candidate : Path) (st : DebugStatics)
    (next : DebugStatics → DebugTry) : DebugTry := do
  let debugPath ← intoBuffer 2048 candidate
  let r ← debugValid disk beyond st debugPath
  if r.1 then .ok (some debugPath, r.2) else next r.2

section Cases

variable (disk : Disk) (behind : Behind)

/-- `default`. -/
def debugTry6 (st : DebugStatics) : DebugTry := .ok (none, st)

def debugTry5 (st : DebugStatics) : DebugTry :=
  tryPath disk (behind.candidate 5)
    ("/usr/lib/debug".toList ++ st.dir ++ "/".toList ++ st.debugFname) { st with index := 6 }
    debugTry6

def debugTry4 (st : DebugStatics) : DebugTry :=
  tryPath disk (behind.candidate 4) (st.dir ++ "/.debug/".toList ++ st.debugFname)
    { st with index := 5 } (debugTry5 disk behind)

def debugTry3 (st : DebugStatics) : DebugTry :=
  tryPath disk (behind.candidate 3) (st.dir ++ "/".toList ++ st.debugFname)
    { st with index := 4 } (debugTry4 disk behind)

def debugTry2 (st : DebugStatics) : DebugTry :=
  if st.buildidLen ≠ 0 then
    tryPath disk (behind.candidate 2) (buildIdPath st.buildId) { st with index := 3 }
      (debugTry3 disk behind)
  else debugTry3 disk behind { st with index := 3 }

def debugTry1 (st : DebugStatics) : DebugTry := .ok (some st.path, { st with index := 2 })

def debugTry0 (optDebugInfoFile : Option Path) (st : DebugStatics) : DebugTry :=
  match optDebugInfoFile with
  | none => debugTry1 { st with index := 1 }
  | some file =>
      if st.exeSelf then do
        let r ← debugValid disk (behind.candidate 0) { st with index := 1 } file
        if r.1 then .ok (some file, r.2)
        else .error (.exit 4 (r.2.out ++ [.invalidDebugInfo file]))
      else debugTry1 { st with index := 1 }

def debugTryGet (optDebugInfoFile : Option Path) (st : DebugStatics) : DebugTry :=
  match st.index with
  | 0 => debugTry0 disk behind optDebugInfoFile st
  | 1 => debugTry1 st
  | 2 => debugTry2 disk behind st
  | 3 => debugTry3 disk behind st
  | 4 => debugTry4 disk behind st
  | 5 => debugTry5 disk behind st
  | _ => debugTry6 st

end Cases

/-! ## The callers -/

section Build

variable {σ ε : Type}

/-- The body of the loop over `debug_try_get`. -/
def tryFile (buildFile : List σ → ε → Word → List σ × Int) (files : Path → ε) (start : Word)
    (table : List σ) (debugp : Path) : List σ × Bool :=
  let r := buildFile table (files debugp) start
  (r.1, decide (r.2 > 0))

/-- The body of the loop over `proc_maps`, in at most `fuel` calls of
`debug_try_get`; `none` if they do not suffice. -/
def buildMapping (buildFile : List σ → ε → Word → List σ × Int) (files : Path → ε) (disk : Disk)
    (behind : Mapping → Behind) (optDebugInfoFile : Option Path) (exeName : Path) (fuel : Nat)
    (s : List σ × List DebugMessage) (m : Mapping) :
    Option (Except Abort (List σ × List DebugMessage)) :=
  let path := m.path.toList
  let exeSelf := decide (path = exeName)
  match debugTryInit disk (behind m) path exeSelf s.2 with
  | .error e => some (.error e)
  | .ok st =>
      (takeUntil (debugTryGet disk (behind m) optDebugInfoFile) (tryFile buildFile files m.start)
        fuel st s.1).map fun r => r.map fun (st, table, debugp) =>
          (table, if exeSelf ∧ debugp = none then st.out ++ [.nothingFound path] else st.out)

/-- The loop over `proc_maps`, to its end or to that of memleax. -/
def buildLoop (buildFile : List σ → ε → Word → List σ × Int) (files : Path → ε) (disk : Disk)
    (behind : Mapping → Behind) (optDebugInfoFile : Option Path) (exeName : Path) (fuel : Nat) :
    List Mapping → List σ × List DebugMessage → Option (Except Abort (List σ × List DebugMessage))
  | [], s => some (.ok s)
  | m :: rest, s =>
      match buildMapping buildFile files disk behind optDebugInfoFile exeName fuel s m with
      | some (.ok s') =>
          buildLoop buildFile files disk behind optDebugInfoFile exeName fuel rest s'
      | r => r

end Build

/-! ## What is to be read -/

/-- The name behind the last slash. -/
def baseName (path : Path) : Path := path.rtakeWhile (· ≠ '/')

def dirName (path : Path) : Path := (path.rdropWhile (· ≠ '/')).dropLast

/-- The names that the buffers are made for. -/
structure Short (path : Path) : Prop where
  short : path.length < 1024
  base : (baseName path ++ ".debug".toList).length < 1024

/-- The paths that `debug_try_init` is made for. -/
structure Locatable (path : Path) : Prop extends Short path where
  absolute : '/' ∈ path

/-- The build ID of a file, empty if the note is not there. -/
inductive HasBuildId (file : Option (List (Option NamedSection))) : List CByte → Prop
  | absent (hnone : elfSectionData file ".note.gnu.build-id" 1000 = none) : HasBuildId file []
  | note {scn desc : List CByte}
      (hsome : elfSectionData file ".note.gnu.build-id" 1000 = some scn)
      (hnote : GnuNote scn desc) : HasBuildId file desc

/-- The name and the checksum of the debug file, `0` if there is no link. -/
inductive HasDebugLink (file : Option (List (Option NamedSection))) : Path → BitVec 32 → Prop
  | absent (hnone : elfSectionData file ".gnu_debuglink" 1000 = none) : HasDebugLink file [] 0
  | link {scn name : List CByte} {crc : BitVec 32}
      (hsome : elfSectionData file ".gnu_debuglink" 1000 = some scn)
      (hlink : DebugLink scn name crc) :
      HasDebugLink file (name.map fun byte => Char.ofNat byte.toNat) crc

/-- A disk on which every note and every link is well-formed, with what they say. -/
structure Catalogue where
  disk : Disk
  buildId : Path → List CByte
  linkName : Path → Path
  linkCrc : Path → BitVec 32
  noted : ∀ path, HasBuildId ((disk path).bind DiskFile.sections) (buildId path)
  linked : ∀ path, HasDebugLink ((disk path).bind DiskFile.sections) (linkName path) (linkCrc path)

namespace Catalogue

variable (c : Catalogue) (path : Path)

/-- The file can be opened, and it belongs to `path` by the build ID, or else by the
checksum of the link. Without either every file will do. -/
def belongs (candidate : Path) : Bool :=
  (c.disk candidate).any fun file =>
    if c.buildId path ≠ [] then c.buildId candidate == c.buildId path
    else c.linkCrc path == 0 || Crc.checksum crc32Poly file.content == c.linkCrc path

def debugName : Path :=
  if c.linkCrc path = 0 then baseName path ++ ".debug".toList else c.linkName path

/-- Where a debug file may be, apart from the place that the build ID names. -/
def directories : List Path :=
  [dirName path ++ "/".toList ++ c.debugName path,
    dirName path ++ "/.debug/".toList ++ c.debugName path,
    "/usr/lib/debug".toList ++ dirName path ++ "/".toList ++ c.debugName path]

def candidates : List Path :=
  if c.buildId path ≠ [] then buildIdPath (c.buildId path) :: c.directories path
  else c.directories path

/-- The file of the option, for the program itself. -/
def given (optDebugInfoFile : Option Path) (exeSelf : Bool) : List Path :=
  if exeSelf then optDebugInfoFile.toList else []

/-- **The files for a mapped file**: the one of the option, the mapped file itself,
and those of the candidates that belong to it. -/
def debugFiles (optDebugInfoFile : Option Path) (exeSelf : Bool) : List Path :=
  given optDebugInfoFile exeSelf ++ path :: (c.candidates path).filter (c.belongs path)

/-- The file of the option does not belong to the program. -/
def Refuses (optDebugInfoFile : Option Path) (exeSelf : Bool) : Prop :=
  ∃ file ∈ given optDebugInfoFile exeSelf, c.belongs path file = false

instance (optDebugInfoFile : Option Path) (exeSelf : Bool) :
    Decidable (c.Refuses path optDebugInfoFile exeSelf) :=
  inferInstanceAs (Decidable (∃ file ∈ _, _ = _))

end Catalogue

/-! ## Names and sections -/

theorem strrchr_append_cons {c : Char} (pre : List Char) {post : List Char} (h : c ∉ post) :
    strrchr c (pre ++ c :: post) = some (c :: post) := by
  induction pre with
  | nil =>
      have hnone : strrchr c post = none := by
        induction post with
        | nil => rfl
        | cons x rest ih =>
            rw [strrchr, ih fun hmem => h (List.mem_cons_of_mem _ hmem), Option.none_or, if_neg]
            rintro rfl
            exact h List.mem_cons_self
      rw [List.nil_append, strrchr, hnone, if_pos rfl]
      rfl
  | cons x pre ih =>
      rw [List.cons_append, strrchr, ih]
      rfl

/-- A path is its directory, a slash, and its name. -/
theorem path_eq {path : Path} (h : '/' ∈ path) :
    path = dirName path ++ '/' :: baseName path := by
  have hsplit : path = path.rdropWhile (· ≠ '/') ++ path.rtakeWhile (· ≠ '/') := by
    rw [List.rdropWhile, List.rtakeWhile, ← List.reverse_append, List.takeWhile_append_dropWhile,
      List.reverse_reverse]
  have hne : path.rdropWhile (· ≠ '/') ≠ [] := by
    rw [Ne, List.rdropWhile_eq_nil_iff]
    intro hall
    simpa using hall '/' h
  have hlast : (path.rdropWhile (· ≠ '/')).getLast hne = '/' := by
    simpa using List.rdropWhile_last_not (fun x => decide (x ≠ '/')) path hne
  have hdir := List.dropLast_append_getLast hne
  rw [hlast] at hdir
  rw [← hdir, List.append_assoc, List.singleton_append] at hsplit
  exact hsplit

theorem slash_notMem_baseName (path : Path) : '/' ∉ baseName path := by
  intro h
  rw [baseName, List.rtakeWhile, List.mem_reverse] at h
  simpa using List.mem_takeWhile_imp h

theorem strrchr_slash {path : Path} (h : '/' ∈ path) :
    strrchr '/' path = some ('/' :: baseName path) := by
  conv_lhs => rw [path_eq h]
  exact strrchr_append_cons _ (slash_notMem_baseName path)

theorem cstring_append_zero {name : List CByte} (h : 0 ∉ name) :
    cstring (name ++ [0]) = name.map fun byte => Char.ofNat byte.toNat := by
  rw [cstring, List.takeWhile_append_of_pos]
  · simp
  · intro byte hbyte
    rw [decide_eq_true_iff]
    rintro rfl
    exact h hbyte

section Sections

variable {file : Option (List (Option NamedSection))} {desc : List CByte} {name : Path}
  {crc : BitVec 32}

theorem HasBuildId.length_le (h : HasBuildId file desc) : desc.length ≤ 100 := by
  cases h with
  | absent => exact Nat.zero_le _
  | note _ hnote => exact hnote.2.1

theorem HasBuildId.decodes (h : HasBuildId file desc) (beyond : List CByte) :
    ∃ d, elfBuildId file beyond = some d ∧ d.ret = BitVec.ofNat 32 desc.length ∧ d.out = desc := by
  cases h with
  | absent hnone => exact ⟨{ ret := 0 }, by rw [elfBuildId, hnone], rfl, rfl⟩
  | note hsome hnote => exact ⟨_, hnote.decodes beyond hsome, rfl, rfl⟩

theorem HasDebugLink.decodes (h : HasDebugLink file name crc) (beyond : List CByte) :
    ∃ d, elfDebugLink file beyond = some d ∧ d.ret = crc ∧ cstring d.out = name ∧
      d.out.length ≤ 1024 := by
  cases h with
  | absent hnone => exact ⟨{ ret := 0 }, by rw [elfDebugLink, hnone], rfl, rfl, Nat.zero_le _⟩
  | @link scn name crc hsome hlink =>
      refine ⟨_, hlink.decodes beyond hsome, rfl, cstring_append_zero hlink.1, ?_⟩
      have hle := length_of_elfSectionData hsome
      rcases hlink with ⟨-, pad, rest, -, -, rfl⟩
      simp only [List.length_append] at hle ⊢
      omega

theorem HasDebugLink.length_lt (h : HasDebugLink file name crc) : name.length < 1000 := by
  cases h with
  | absent => exact Nat.zero_lt_succ _
  | link hsome hlink =>
      have hle := length_of_elfSectionData hsome
      rcases hlink with ⟨-, pad, rest, -, -, rfl⟩
      simp only [List.length_append, List.length_map, List.length_singleton] at hle ⊢
      omega

end Sections

namespace Catalogue

variable {c : Catalogue} {path candidate : Path} {exeSelf : Bool} {st : DebugStatics}

theorem buildidLen_eq_zero_iff : BitVec.ofNat 32 (c.buildId path).length = 0 ↔
    c.buildId path = [] := by
  have hle := (c.noted path).length_le
  rw [← List.length_eq_zero_iff]
  constructor
  · intro h
    have htoNat := congrArg BitVec.toNat h
    rw [BitVec.toNat_ofNat, Nat.mod_eq_of_lt (by omega)] at htoNat
    exact htoNat
  · intro h
    rw [h]
    rfl

/-- The names of all candidates fit into `debug_path`. -/
theorem directory_fits (h : Locatable path) :
    (dirName path).length + (c.debugName path).length < 2030 := by
  have hlength := congrArg List.length (path_eq h.absolute)
  rw [List.length_append, List.length_cons] at hlength
  have hshort := h.short
  unfold debugName
  split
  · rw [List.length_append]
    have hdebug : ".debug".toList.length = 6 := rfl
    omega
  · have hlink := (c.linked path).length_lt
    omega

/-! ## What `debug_try_init` takes down -/

/-- The statics are those of `path`. -/
structure Stands (c : Catalogue) (path : Path) (exeSelf : Bool) (st : DebugStatics) : Prop where
  dir : st.dir = dirName path
  buildId : st.buildId = c.buildId path
  buildidLen : st.buildidLen = BitVec.ofNat 32 (c.buildId path).length
  debugFname : st.debugFname = c.debugName path
  debugCrc32 : st.debugCrc32 = c.linkCrc path
  exe : st.exeSelf = exeSelf
  name : st.path = path

theorem Stands.at_index (h : c.Stands path exeSelf st) (k : Nat) :
    c.Stands path exeSelf { st with index := k } :=
  ⟨h.dir, h.buildId, h.buildidLen, h.debugFname, h.debugCrc32, h.exe, h.name⟩

theorem Stands.said (h : c.Stands path exeSelf st) (out : List DebugMessage) :
    c.Stands path exeSelf { st with out := out } :=
  ⟨h.dir, h.buildId, h.buildidLen, h.debugFname, h.debugCrc32, h.exe, h.name⟩

theorem debugTryInit_stands (h : Locatable path) (behind : Behind) (exeSelf : Bool)
    (out : List DebugMessage) :
    ∃ st, debugTryInit c.disk behind path exeSelf out = .ok st ∧ c.Stands path exeSelf st ∧
      st.index = 0 := by
  obtain ⟨note, hnote, hnoteRet, hnoteOut⟩ := (c.noted path).decodes behind.note
  obtain ⟨link, hlink, hlinkRet, hlinkName, hlinkFits⟩ := (c.linked path).decodes behind.link
  have hid := (c.noted path).length_le
  have hsplit := path_eq h.absolute
  have hstrrchr := strrchr_slash h.absolute
  have hlength : path.length - ('/' :: baseName path).length = (dirName path).length := by
    have hlength := congrArg List.length hsplit
    rw [List.length_append] at hlength
    omega
  have hdir : path.take (path.length - ('/' :: baseName path).length) = dirName path := by
    rw [hlength]
    conv_lhs => arg 2; rw [hsplit]
    exact List.take_left
  have hdirFits : (dirName path).length < 1024 := by
    rw [← hdir, List.length_take]
    have hshort := h.short
    omega
  have hfits : ¬ (note.out.length > 100 ∨ link.out.length > 1024) := by
    rw [hnoteOut]
    omega
  refine ⟨{ path := path, dir := dirName path, index := 0, exeSelf := exeSelf, buildId := note.out,
            buildidLen := note.ret, debugFname := c.debugName path, debugCrc32 := link.ret,
            out := out }, ?_, ⟨rfl, hnoteOut, hnoteRet, rfl, hlinkRet, rfl, rfl⟩, rfl⟩
  rw [debugTryInit, hstrrchr]
  simp only [intoBuffer, if_pos h.short, orUndefined, hnote, hlink, if_neg hfits, hdir,
    if_pos hdirFits, bind, Except.bind]
  rw [debugName, hlinkRet, ← hlinkName]
  split
  · rw [List.drop_one, List.tail_cons, if_pos h.base]
  · rfl

/-! ## What `debug_try_get` hands out -/

/-- A file is valid exactly if it belongs to the path. Only the output changes. -/
theorem Stands.debugValid_eq (h : c.Stands path exeSelf st) (beyond : List CByte)
    (candidate : Path) :
    ∃ out, debugValid c.disk beyond st candidate =
      .ok (c.belongs path candidate, { st with out := out }) := by
  unfold debugValid belongs
  cases hdisk : c.disk candidate with
  | none => exact ⟨st.out, rfl⟩
  | some file =>
      have hlen : st.buildidLen = 0 ↔ st.buildId = [] := by
        rw [h.buildidLen, h.buildId]
        exact buildidLen_eq_zero_iff
      rw [← h.buildId, ← h.debugCrc32]
      dsimp only [Option.any_some]
      by_cases hid : st.buildId = []
      · rw [if_neg (not_not.mpr (hlen.mpr hid)), if_neg (not_not.mpr hid)]
        split
        · -- the checksum of the link
          rename_i hcrc
          have hsum : fileCrc32 file.reads.chunks = Crc.checksum crc32Poly file.content := by
            rw [fileCrc32,
              fileCrc32Loop_eq 0 fun chunk hchunk => (file.reads.size chunk hchunk).1,
              file.reads.whole, gnuDebuglinkCrc32_eq, Crc.checksum, BitVec.xor_allOnes]
            rfl
          rw [hsum, beq_eq_false_iff_ne.mpr hcrc, Bool.false_or]
          split
          · rename_i hne
            rw [beq_eq_false_iff_ne.mpr hne]
            exact ⟨_, rfl⟩
          · rename_i heq
            rw [beq_iff_eq.mpr (not_not.mp heq)]
            exact ⟨_, rfl⟩
        · rename_i hcrc
          rw [beq_iff_eq.mpr (not_not.mp hcrc)]
          exact ⟨_, rfl⟩
      · have hnoted := c.noted candidate
        rw [hdisk, Option.bind_some] at hnoted
        rcases hnoted.decodes beyond with ⟨d, hd, hret, hout⟩
        have hfits : ¬ d.out.length > 100 := hout ▸ Nat.not_lt.mpr hnoted.length_le
        have hsame : (d.ret ≠ st.buildidLen ∨ d.out ≠ st.buildId) ↔
            c.buildId candidate ≠ st.buildId := by
          rw [hret, hout, h.buildidLen, ← h.buildId]
          constructor
          · rintro (hdiff | hdiff)
            · exact fun heq => hdiff (by rw [heq])
            · exact hdiff
          · exact Or.inr
        rw [if_pos fun hzero => hid (hlen.mp hzero), if_pos hid, hd]
        simp only [orUndefined, bind, Except.bind, if_neg hfits, hsame]
        split
        · rename_i hne
          rw [beq_eq_false_iff_ne.mpr hne]
          exact ⟨_, rfl⟩
        · rename_i heq
          rw [beq_iff_eq.mpr (not_not.mp heq)]
          exact ⟨_, rfl⟩

/-- A case of the `switch` hands out its candidate, or is passed over. -/
theorem Stands.tryPath_eq (h : c.Stands path exeSelf st) (beyond : List CByte)
    (hfits : candidate.length < 2048) (next : DebugStatics → DebugTry) :
    ∃ out, tryPath c.disk beyond candidate st next =
      if c.belongs path candidate then .ok (some candidate, { st with out := out })
      else next { st with out := out } := by
  rcases h.debugValid_eq beyond candidate with ⟨out, hvalid⟩
  refine ⟨out, ?_⟩
  simp only [tryPath, intoBuffer, if_pos hfits, bind, Except.bind, hvalid]

section Get

variable (behind : Behind) (optDebugInfoFile : Option Path)

/-- In a case with a candidate the calls return it if it belongs to the path, and then
what the calls from the next case on return. -/
theorem Stands.yields_tryPath (h : c.Stands path exeSelf st) (beyond : List CByte) (k : Nat)
    (next : DebugStatics → DebugTry) {rest : List Path} (hfits : candidate.length < 2048)
    (hget : debugTryGet c.disk behind optDebugInfoFile st =
      tryPath c.disk beyond candidate { st with index := k } next)
    (hnext : ∀ st' : DebugStatics, st'.index = k →
      debugTryGet c.disk behind optDebugInfoFile st' = next st')
    (hrest : ∀ st', c.Stands path exeSelf st' → st'.index = k →
      ∃ s, Yields (debugTryGet c.disk behind optDebugInfoFile) st'
        (rest.filter (c.belongs path)) s) :
    ∃ s, Yields (debugTryGet c.disk behind optDebugInfoFile) st
      ((candidate :: rest).filter (c.belongs path)) s := by
  obtain ⟨out, htry⟩ := (h.at_index k).tryPath_eq beyond hfits next
  rcases hrest _ ((h.at_index k).said out) rfl with ⟨s, hyields⟩
  refine ⟨s, ?_⟩
  rw [htry] at hget
  rw [List.filter_cons]
  split
  · rename_i hbelongs
    rw [if_pos hbelongs] at hget
    exact .item hget hyields
  · rename_i hbelongs
    rw [if_neg hbelongs, ← hnext _ rfl] at hget
    exact hyields.congr hget

theorem Stands.yields_directories (hpath : Locatable path) (h : c.Stands path exeSelf st)
    (hindex : st.index = 3) :
    ∃ s, Yields (debugTryGet c.disk behind optDebugInfoFile) st
      ((c.directories path).filter (c.belongs path)) s := by
  have hfits := directory_fits (c := c) hpath
  refine h.yields_tryPath behind optDebugInfoFile (behind.candidate 3) 4
    (debugTry4 c.disk behind) ?_ ?_ ?_ ?_
  · simp only [List.length_append]
    have : "/".toList.length = 1 := rfl
    omega
  · rw [← h.dir, ← h.debugFname]
    simp only [debugTryGet, hindex]
    rfl
  · intro st' hindex
    simp only [debugTryGet, hindex]
  intro st h hindex
  refine h.yields_tryPath behind optDebugInfoFile (behind.candidate 4) 5
    (debugTry5 c.disk behind) ?_ ?_ ?_ ?_
  · simp only [List.length_append]
    have : "/.debug/".toList.length = 8 := rfl
    omega
  · rw [← h.dir, ← h.debugFname]
    simp only [debugTryGet, hindex]
    rfl
  · intro st' hindex
    simp only [debugTryGet, hindex]
  intro st h hindex
  refine h.yields_tryPath behind optDebugInfoFile (behind.candidate 5) 6 debugTry6 ?_ ?_ ?_ ?_
  · simp only [List.length_append]
    have : "/usr/lib/debug".toList.length = 14 := rfl
    have : "/".toList.length = 1 := rfl
    omega
  · rw [← h.dir, ← h.debugFname]
    simp only [debugTryGet, hindex]
    rfl
  · intro st' hindex
    simp only [debugTryGet, hindex]
  intro st h hindex
  refine ⟨st, .done ?_⟩
  simp only [debugTryGet, hindex]
  rfl

theorem length_buildIdPath {desc : List CByte} (h : desc.length ≤ 100) :
    (buildIdPath desc).length < 2048 := by
  have hhex : (desc.tail.flatMap hexByte).length = 2 * (desc.length - 1) := by
    have hbyte : ∀ byte, (hexByte byte).length = 2 := fun _ => rfl
    rw [List.length_flatMap]
    simp only [hbyte, List.map_const', List.sum_replicate_nat, List.length_tail, Nat.mul_comm]
  have hroot : "/usr/lib/debug/.build-id/".toList.length = 25 := rfl
  have hslash : "/".toList.length = 1 := rfl
  have hdebug : ".debug".toList.length = 6 := rfl
  have hfirst : (hexByte (desc.headD 0)).length = 2 := rfl
  unfold buildIdPath
  simp only [List.length_append]
  rw [hroot, hslash, hdebug, hfirst, hhex]
  omega

theorem Stands.yields_candidates (hpath : Locatable path) (h : c.Stands path exeSelf st)
    (hindex : st.index = 2) :
    ∃ s, Yields (debugTryGet c.disk behind optDebugInfoFile) st
      ((c.candidates path).filter (c.belongs path)) s := by
  have hlen : st.buildidLen = 0 ↔ c.buildId path = [] := by
    rw [h.buildidLen]
    exact buildidLen_eq_zero_iff
  unfold candidates
  split
  · rename_i hid
    have hne : st.buildidLen ≠ 0 := fun hzero => hid (hlen.mp hzero)
    refine h.yields_tryPath behind optDebugInfoFile (behind.candidate 2) 3
      (debugTry3 c.disk behind) (length_buildIdPath (c.noted path).length_le) ?_ ?_ ?_
    · rw [← h.buildId]
      simp only [debugTryGet, hindex, debugTry2, if_pos hne]
    · intro st' hindex
      simp only [debugTryGet, hindex]
    · intro st' h hindex
      exact h.yields_directories behind optDebugInfoFile hpath hindex
  · rename_i hid
    obtain ⟨s, hyields⟩ := (h.at_index 3).yields_directories behind optDebugInfoFile hpath rfl
    refine ⟨s, hyields.congr ?_⟩
    simp only [debugTryGet, hindex, debugTry2, if_neg (not_not.mpr (hlen.mpr (not_not.mp hid)))]

theorem Stands.yields_path (hpath : Locatable path) (h : c.Stands path exeSelf st)
    (hindex : st.index = 1) :
    ∃ s, Yields (debugTryGet c.disk behind optDebugInfoFile) st
      (path :: (c.candidates path).filter (c.belongs path)) s := by
  obtain ⟨s, hyields⟩ := (h.at_index 2).yields_candidates behind optDebugInfoFile hpath rfl
  refine ⟨s, .item ?_ hyields⟩
  simp only [debugTryGet, hindex, debugTry1, h.name]

/-- **The calls after `debug_try_init`** return the debug files one by one. -/
theorem Stands.yields_debugFiles (hpath : Locatable path) (h : c.Stands path exeSelf st)
    (hindex : st.index = 0) (hgood : ¬ c.Refuses path optDebugInfoFile exeSelf) :
    ∃ s, Yields (debugTryGet c.disk behind optDebugInfoFile) st
      (c.debugFiles path optDebugInfoFile exeSelf) s := by
  obtain ⟨s, hyields⟩ := (h.at_index 1).yields_path behind optDebugInfoFile hpath rfl
  cases optDebugInfoFile with
  | none =>
      rw [debugFiles, given, Option.toList_none, ite_self, List.nil_append]
      refine ⟨s, hyields.congr ?_⟩
      simp only [debugTryGet, hindex, debugTry0]
  | some file =>
      cases exeSelf with
      | false =>
          refine ⟨s, hyields.congr ?_⟩
          simp only [debugTryGet, hindex, debugTry0, h.exe, Bool.false_eq_true, if_false]
      | true =>
          have hbelongs : c.belongs path file = true := by
            rw [← Bool.not_eq_false]
            exact fun hnot => hgood ⟨file, List.mem_singleton_self file, hnot⟩
          obtain ⟨out, hvalid⟩ := (h.at_index 1).debugValid_eq (behind.candidate 0) file
          rw [hbelongs] at hvalid
          obtain ⟨s, hyields⟩ :=
            ((h.at_index 1).said out).yields_path behind (some file) hpath rfl
          refine ⟨s, .item ?_ hyields⟩
          simp only [debugTryGet, hindex, debugTry0]
          rw [if_pos h.exe, hvalid]
          rfl

/-- With a file that does not belong to the program, the first call is the last. -/
theorem Stands.refused (h : c.Stands path exeSelf st) (hindex : st.index = 0)
    (hbad : c.Refuses path optDebugInfoFile exeSelf) :
    ∃ out, debugTryGet c.disk behind optDebugInfoFile st = .error (.exit 4 out) := by
  rcases hbad with ⟨file, hgiven, hnot⟩
  cases exeSelf with
  | false => exact absurd hgiven List.not_mem_nil
  | true =>
      obtain rfl := Option.mem_toList.mp hgiven
      obtain ⟨out, hvalid⟩ := (h.at_index 1).debugValid_eq (behind.candidate 0) file
      rw [hnot] at hvalid
      refine ⟨out ++ [.invalidDebugInfo file], ?_⟩
      simp only [debugTryGet, hindex, debugTry0]
      rw [if_pos h.exe, hvalid]
      rfl

theorem length_debugFiles (c : Catalogue) (path : Path) (exeSelf : Bool) :
    (c.debugFiles path optDebugInfoFile exeSelf).length < 7 := by
  have hgiven : (given optDebugInfoFile exeSelf).length ≤ 1 := by
    cases exeSelf <;> cases optDebugInfoFile <;> simp [given]
  have hcandidates : (c.candidates path).length ≤ 4 := by
    unfold candidates
    split <;> simp [directories]
  have hfilter := List.length_filter_le (c.belongs path) (c.candidates path)
  rw [debugFiles, List.length_append, List.length_cons]
  omega

end Get

end Catalogue

/-! ## What `symtab_build` and `debug_line_build` read -/

section Reads

variable {σ ε : Type} (buildFile : List σ → ε → Word → List σ × Int) (files : Path → ε)

/-- The files are read until one yields items. -/
theorem firstOf_tryFile (start : Word) (paths : List Path) (table : List σ) :
    (firstOf (tryFile buildFile files start) paths table).1 =
      debugTry buildFile start (paths.map files) table := by
  induction paths generalizing table with
  | nil => rfl
  | cons debugp paths ih =>
      rw [firstOf, List.map_cons, debugTry]
      by_cases hpos : (buildFile table (files debugp) start).2 > 0
      · simp only [tryFile, hpos, decide_true, if_true]
      · simp only [tryFile, hpos, decide_false, Bool.false_eq_true, if_false]
        exact ih _

variable (c : Catalogue) (behind : Mapping → Behind) (optDebugInfoFile : Option Path)
  (exeName : Path)

/-- The mapping is of the program itself. -/
def isExe (m : Mapping) : Bool := decide (m.path.toList = exeName)

/-- The files for a mapping. -/
def Catalogue.filesOf (m : Mapping) : List ε :=
  (c.debugFiles m.path.toList optDebugInfoFile (isExe exeName m)).map files

/-- `proc_maps` only returns paths that begin with a slash. -/
theorem Short.locatable {lines : List Mapping} {m : Mapping} (hm : m ∈ procMaps lines)
    (h : Short m.path.toList) : Locatable m.path.toList := by
  refine ⟨h, ?_⟩
  rw [procMaps, List.mem_filter, Bool.and_eq_true, Bool.and_eq_true, beq_iff_eq] at hm
  exact List.mem_of_mem_head? hm.2.1.2

/-- One mapping. -/
theorem buildMapping_eq (s : List σ × List DebugMessage) {m : Mapping}
    (hpath : Locatable m.path.toList) :
    (c.Refuses m.path.toList optDebugInfoFile (isExe exeName m) → ∃ out,
      buildMapping buildFile files c.disk behind optDebugInfoFile exeName 7 s m =
        some (.error (.exit 4 out))) ∧
    (¬ c.Refuses m.path.toList optDebugInfoFile (isExe exeName m) → ∃ out,
      buildMapping buildFile files c.disk behind optDebugInfoFile exeName 7 s m =
        some (.ok (debugTry buildFile m.start
          (c.filesOf files optDebugInfoFile exeName m) s.1, out))) := by
  obtain ⟨st, hinit, hstands, hindex⟩ :=
    Catalogue.debugTryInit_stands (c := c) hpath (behind m) (isExe exeName m) s.2
  unfold isExe at hinit
  simp only [buildMapping, hinit]
  constructor
  · intro hbad
    rcases hstands.refused (behind m) optDebugInfoFile hindex hbad with ⟨out, hget⟩
    exact ⟨out, by rw [takeUntil, hget]; rfl⟩
  · intro hgood
    obtain ⟨s', hyields⟩ := hstands.yields_debugFiles (behind m) optDebugInfoFile hpath hindex hgood
    obtain ⟨st', htake⟩ := hyields.takeUntil_eq (tryFile buildFile files m.start)
      (c.length_debugFiles optDebugInfoFile m.path.toList (isExe exeName m)) s.1
    rw [htake, firstOf_tryFile]
    exact ⟨_, rfl⟩

/-- **The debug files are read in their order**, for every mapping until one yields
something, unless the file of the option does not belong to the program: then, and only
then, memleax ends. No buffer overflows, and the calls of `debug_try_get` come to an
end. -/
theorem build_reads_debugFiles (lines : List Mapping)
    (hpaths : ∀ m ∈ procMaps lines, Short m.path.toList) :
    ∃ out, buildLoop buildFile files c.disk behind optDebugInfoFile exeName 7 (procMaps lines)
        ([], []) =
      if ∃ m ∈ procMaps lines, c.Refuses m.path.toList optDebugInfoFile (isExe exeName m) then
        some (.error (.exit 4 out))
      else
        some (.ok (buildMaps buildFile (c.filesOf files optDebugInfoFile exeName) lines, out)) := by
  have hloop : ∀ (ms : List Mapping) (s : List σ × List DebugMessage),
      (∀ m ∈ ms, Locatable m.path.toList) →
      ∃ out, buildLoop buildFile files c.disk behind optDebugInfoFile exeName 7 ms s =
        if ∃ m ∈ ms, c.Refuses m.path.toList optDebugInfoFile (isExe exeName m) then
          some (.error (.exit 4 out))
        else some (.ok (ms.foldl (fun table m => debugTry buildFile m.start
          (c.filesOf files optDebugInfoFile exeName m) table) s.1, out)) := by
    intro ms
    induction ms with
    | nil =>
        intro s _
        exact ⟨s.2, (if_neg (by simp)).symm⟩
    | cons m ms ih =>
        intro s hms
        obtain ⟨hbad, hgood⟩ := buildMapping_eq buildFile files c behind optDebugInfoFile exeName s
          (hms m List.mem_cons_self)
        rw [buildLoop]
        by_cases hrefuses : c.Refuses m.path.toList optDebugInfoFile (isExe exeName m)
        · obtain ⟨out, heq⟩ := hbad hrefuses
          rw [heq]
          exact ⟨out, (if_pos ⟨m, List.mem_cons_self, hrefuses⟩).symm⟩
        · obtain ⟨out, heq⟩ := hgood hrefuses
          rw [heq]
          obtain ⟨out', heq'⟩ := ih
            (debugTry buildFile m.start (c.filesOf files optDebugInfoFile exeName m) s.1, out)
            fun m' hm' => hms m' (List.mem_cons_of_mem _ hm')
          refine ⟨out', ?_⟩
          simp only [heq', List.exists_mem_cons_iff, hrefuses, false_or, List.foldl_cons]
  exact hloop (procMaps lines) ([], []) fun m hm => (hpaths m hm).locatable hm

end Reads

/-- A program that names its debug file, one of another version beside it, and the
right one in the directory `.debug`. -/
def strippedDisk : Disk := fun path =>
  if path = "/bin/a".toList then
    some
      { sections := some [some ⟨".gnu_debuglink",
          [0x61, 0x2E, 0x64, 0x65, 0x62, 0x75, 0x67, 0] ++ le32 0xCBF43926⟩]
        content := []
        reads := ⟨[], by simp, rfl⟩ }
  else if path = "/bin/a.debug".toList then
    some { content := [0x31], reads := ⟨[[0x31]], by simp, rfl⟩ }
  else if path = "/bin/.debug/a.debug".toList then
    some
      { content := [0x31, 0x32, 0x33, 0x34, 0x35, 0x36, 0x37, 0x38, 0x39]
        reads := ⟨[[0x31, 0x32, 0x33, 0x34], [0x35, 0x36, 0x37, 0x38, 0x39]], by simp, rfl⟩ }
  else none

def stripped : Catalogue where
  disk := strippedDisk
  buildId _ := []
  linkName path := if path = "/bin/a".toList then "a.debug".toList else []
  linkCrc path := if path = "/bin/a".toList then 0xCBF43926 else 0
  noted path := by
    refine .absent ?_
    unfold strippedDisk
    split_ifs <;> rfl
  linked path := by
    unfold strippedDisk
    by_cases hexe : path = "/bin/a".toList
    · rw [if_pos hexe, if_pos hexe, if_pos hexe]
      have hlink : DebugLink ([0x61, 0x2E, 0x64, 0x65, 0x62, 0x75, 0x67, 0] ++ le32 0xCBF43926)
          [0x61, 0x2E, 0x64, 0x65, 0x62, 0x75, 0x67] 0xCBF43926 :=
        ⟨by decide, [], [], by decide, by decide, rfl⟩
      exact HasDebugLink.link rfl hlink
    · rw [if_neg hexe, if_neg hexe, if_neg hexe]
      refine .absent ?_
      split_ifs <;> rfl

def strippedExe : Mapping where
  start := 0x400000
  stop := 0x401000
  executable := true
  path := "/bin/a"

/-- Only the debug file has symbols. -/
def strippedElf (path : Path) : Option Elf :=
  if path = "/bin/.debug/a.debug".toList then some (sampleLibrary []) else none

theorem build_reads_debugFiles_stripped :
    stripped.debugFiles "/bin/a".toList none true =
        ["/bin/a".toList, "/bin/.debug/a.debug".toList] ∧
      ∃ out, buildLoop symtabBuildFile strippedElf strippedDisk (fun _ => ⟨[], [], fun _ => []⟩)
          none "/bin/a".toList 7 (procMaps [strippedExe]) ([], []) =
        some (.ok ([⟨0x401040, 0x20, false, "malloc"⟩], out)) := by
  refine ⟨by decide +kernel, ?_⟩
  obtain ⟨out, hbuild⟩ := build_reads_debugFiles symtabBuildFile strippedElf stripped
    (fun _ => ⟨[], [], fun _ => []⟩) none "/bin/a".toList [strippedExe] (by
      intro m hm
      obtain rfl := List.mem_singleton.mp (List.mem_filter.mp hm).1
      exact ⟨by decide, by decide⟩)
  refine ⟨out, hbuild.trans ?_⟩
  rw [if_neg (by decide +kernel)]
  have htable : buildMaps symtabBuildFile (stripped.filesOf strippedElf none "/bin/a".toList)
      [strippedExe] = [⟨0x401040, 0x20, false, "malloc"⟩] := by
    decide +kernel
  rw [htable]

end Memleax
