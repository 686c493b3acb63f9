import Memleax.Framework.Scanf
import Memleax.Symbols.Symtab

/-!
# The iteration over `/proc/pid/maps`

`proc_maps` of `proc_info.c` returns one mapping a call, from the text that the
kernel writes: each line is taken apart by one `sscanf`, and the number of its
conversions is to tell the file mappings from the others. A path ends at its first
white space for `sscanf`, and what follows counts as a ninth conversion, as
`(deleted)` does.

`Vma.line` is the line that the kernel writes for a mapping. The words of a line
are what `Mapping` stands for in the other modules (`Vma.scanned`).
-/

namespace Memleax

open Framework Scanf

/-! ## `proc_maps` -/

/-- `"%zx-%zx %s %x %x:%x %d %s %s"`, with the objects that are assigned. -/
def mapsFormat : List Directive :=
  [.hex 64, .literal '-', .hex 64, .space, .word 5, .space, .hex 32, .space, .hex 32, .literal ':',
    .hex 32, .space, .dec 32, .space, .word 1024, .space, .word 100]

/-- What a call returns: `ret_path` and what it stores, or `NULL`. -/
inductive MapsCall where
  | path (retPath : List Char) (start stop : Word) (exeSelf : Bool)
  | null
deriving DecidableEq, Repr

/-- The static variables. An open file is the list of what `fgets` will return. -/
structure MapsStatics where
  filp : Option (List (List Char)) := none
  exeName : List Char := []

/-- The text of `/proc/pid/maps` and the target of `/proc/pid/exe`. -/
structure ProcFiles where
  maps : List Char
  exe : List Char

/-- What the calls of `fgets(line, size, filp)` return, with `line` so far. -/
def fgetsAll (size : Nat) : List Char → List Char → List (List Char)
  | line, [] => if line = [] then [] else [line]
  | line, c :: rest =>
      if c = '\n' ∨ line.length + 2 = size then (line ++ [c]) :: fgetsAll size [] rest
      else fgetsAll size (line ++ [c]) rest

/-- "first, init"; `none` when `exe_name[exe_len]` is beyond its end. -/
def procMapsInit (proc : ProcFiles) (st : MapsStatics) : Option (List (List Char) × List Char) :=
  match st.filp with
  | some lines => some (lines, st.exeName)
  | none =>
      let exeName := proc.exe.take 1024
      if exeName.length < 1024 then some (fgetsAll 1024 [] proc.maps, exeName) else none

/-- "walk through"; `none` when a conversion is undefined. -/
def procMapsWalk (exeName : List Char) : List (List Char) → Option (MapsCall × MapsStatics)
  | [] => some (.null, { filp := none, exeName := exeName })
  | line :: rest =>
      match scan mapsFormat line with
      | none => none
      | some [.num start, .num stop, .text perms, .num _, .num _, .num _, .num _, .text retPath] =>
          if perms[2]? = some 'x' ∧ retPath.head? = some '/' then
            some (.path retPath (BitVec.ofInt 64 start) (BitVec.ofInt 64 stop)
              (decide (retPath = exeName)), { filp := some rest, exeName := exeName })
          else procMapsWalk exeName rest
      | some _ => procMapsWalk exeName rest

def procMapsCall (proc : ProcFiles) (st : MapsStatics) : Option (MapsCall × MapsStatics) :=
  (procMapsInit proc st).bind fun r => procMapsWalk r.2 r.1

/-- `n` calls, one after the other. -/
def procMapsCalls (proc : ProcFiles) : Nat → MapsStatics → Option (List MapsCall × MapsStatics)
  | 0, st => some ([], st)
  | n + 1, st => do
      let (call, st) ← procMapsCall proc st
      let (calls, st) ← procMapsCalls proc n st
      some (call :: calls, st)

/-! ## What the kernel writes -/

/-- The name of a mapping. -/
inductive VmaName where
  | anonymous
  /-- `[heap]` and the like -/
  | special (text : List Char)
  | file (path : List Char) (deleted : Bool)

def VmaName.text : VmaName → List Char
  | .anonymous => []
  | .special text => text
  | .file path deleted => path ++ if deleted then " (deleted)".toList else []

/-- A newline in a path is written as `\012`. -/
def VmaName.WellFormed : VmaName → Prop
  | .anonymous => True
  | .special text => '\n' ∉ text ∧ ∃ c rest, text = c :: rest ∧ c ≠ '/' ∧ isSpace c = false
  | .file path _ => '\n' ∉ path ∧ ∃ rest, path = '/' :: rest

structure Vma where
  start : Word
  stop : Word
  read : Bool
  write : Bool
  exec : Bool
  shared : Bool
  offset : Nat
  major : Nat
  minor : Nat
  inode : Nat
  name : VmaName
  /-- a device number has 32 bits -/
  major_lt : major < 2 ^ 12
  minor_lt : minor < 2 ^ 20
  wellFormed : name.WellFormed

def Vma.perms (v : Vma) : List Char :=
  [if v.read then 'r' else '-', if v.write then 'w' else '-', if v.exec then 'x' else '-',
    if v.shared then 's' else 'p']

/-- The part of the line in front of the name. -/
def Vma.header (v : Vma) : List Char :=
  printNat 16 8 v.start.toNat ++ '-' :: (printNat 16 8 v.stop.toNat ++ ' ' :: (v.perms ++
    ' ' :: (printNat 16 8 v.offset ++ ' ' :: (printNat 16 2 v.major ++ ':' ::
      (printNat 16 2 v.minor ++ ' ' :: (printNat 10 1 v.inode ++ [' ']))))))

/-- The line, without its end. A name starts in column 73 or later. -/
def Vma.line (v : Vma) : List Char :=
  v.header ++ match v.name with
    | .anonymous => []
    | name => List.replicate (72 - v.header.length + 1) ' ' ++ name.text

/-- A file of lines that are shorter than 1023 bytes. -/
structure MapsFile where
  vmas : List Vma
  short : ∀ v ∈ vmas, v.line.length < 1023

def MapsFile.text (maps : MapsFile) : List Char := maps.vmas.flatMap fun v => v.line ++ ['\n']

/-! ## What is to be returned -/

/-- An executable mapping of a file that is still there, with its path. -/
def Vma.wanted (exe : List Char) (v : Vma) : Option MapsCall :=
  match v.name with
  | .file path false =>
      if v.exec then some (.path path v.start v.stop (decide (path = exe))) else none
  | _ => none

/-- Each consumer gets the mappings that are wanted, and then `NULL`. -/
def Enumerates (proc : ProcFiles) (wanted : List MapsCall) : Prop :=
  ∀ consumers, (procMapsCalls proc (consumers * (wanted.length + 1)) {}).map Prod.fst =
    some (List.replicate consumers (wanted ++ [.null])).flatten

/-- No conversion on the line is undefined. -/
def Vma.Defined (v : Vma) : Prop :=
  v.offset < 2 ^ 32 ∧ v.inode < 2 ^ 31 ∧ (firstWord (afterWord v.name.text)).length < 100

/-- The path of a mapping that is wanted has no white space. -/
def Vma.Plain (v : Vma) : Prop :=
  match v.name with
  | .file path false => v.exec = true → ∀ c ∈ path, isSpace c = false
  | _ => True

/-! ## The scan of a line -/

section Line

variable (v : Vma)

theorem Vma.not_space_of_mem_perms : ∀ c ∈ v.perms, isSpace c = false := by
  have hall : v.perms.all (fun c => !isSpace c) = true := by
    rw [Vma.perms]
    cases v.read <;> cases v.write <;> cases v.exec <;> cases v.shared <;> rfl
  intro c hc
  simpa using List.all_eq_true.mp hall c hc

theorem Vma.scan_perms (fs : List Directive) (rest : List Char) :
    scan (.space :: .word 5 :: fs) (' ' :: (v.perms ++ ' ' :: rest)) =
      (scan fs (' ' :: rest)).map (Value.text v.perms :: ·) := by
  have hperms := v.not_space_of_mem_perms
  have hskip : skipSpace (v.perms ++ ' ' :: rest) = v.perms ++ ' ' :: rest := by
    apply skipSpace_of_not
    intro c hc
    exact hperms c (List.mem_of_mem_head? hc)
  have hword : firstWord (v.perms ++ ' ' :: rest) = v.perms := by
    rw [firstWord_append hperms]
    exact List.append_nil _
  have hrest : (v.perms ++ ' ' :: rest).dropWhile (fun c => !isSpace c) = ' ' :: rest := by
    rw [List.dropWhile_append_of_pos (by simpa using hperms)]
    rfl
  have hspace : skipSpace (' ' :: (v.perms ++ ' ' :: rest)) = v.perms ++ ' ' :: rest := hskip
  rw [scan, hspace, scan_word, hskip, hword, hrest]
  rfl

/-- The values in front of the path. -/
def Vma.values : List Value :=
  [.num v.start.toNat, .num v.stop.toNat, .text v.perms, .num v.offset, .num v.major, .num v.minor,
    .num v.inode]

theorem Vma.scan_header (tail : List Char) :
    scan mapsFormat (v.header ++ tail) =
      if v.offset < 2 ^ 32 ∧ v.inode < 2 ^ 31 then
        (scan [.space, .word 1024, .space, .word 100] (' ' :: tail)).map (v.values ++ ·)
      else none := by
  have hmajor : v.major < 2 ^ 32 := v.major_lt.trans (by decide)
  have hminor : v.minor < 2 ^ 32 := v.minor_lt.trans (by decide)
  simp only [mapsFormat, Vma.header, List.append_assoc, List.cons_append, List.nil_append]
  rw [scan_hex _ _ _ _ 64 (by decide), if_pos v.start.isLt, scan_literal,
    scan_hex _ _ _ _ 64 (by decide), if_pos v.stop.isLt, v.scan_perms,
    scan_space _ _ _ _ (by decide) (by decide), scan_hex _ _ _ _ 32 (by decide)]
  by_cases hoffset : v.offset < 2 ^ 32
  · rw [if_pos hoffset, scan_space _ _ _ _ (by decide) (by decide),
      scan_hex _ _ _ _ 32 (by decide), if_pos hmajor, scan_literal,
      scan_hex _ _ _ _ 32 (by decide), if_pos hminor, scan_space _ _ _ _ (by decide) (by decide),
      scan_dec _ _ _ _ 32 (by decide)]
    by_cases hinode : v.inode < 2 ^ 31
    · rw [if_pos hinode, if_pos ⟨hoffset, hinode⟩]
      simp only [Option.map_map]
      rfl
    · rw [if_neg hinode, if_neg fun h => hinode h.2]
      rfl
  · rw [if_neg hoffset, if_neg fun h => hoffset h.1]
    rfl

end Line

theorem scan_name {text : List Char} (hhead : ∀ c ∈ text.head?, isSpace c = false) (k : Nat) :
    scan [.space, .word 1024, .space, .word 100]
        (' ' :: (List.replicate k ' ' ++ (text ++ ['\n']))) =
      if text = [] then some []
      else if (firstWord text).length < 1024 then
        if firstWord (afterWord text) = [] then some [.text (firstWord text)]
        else if (firstWord (afterWord text)).length < 100 then
          some [.text (firstWord text), .text (firstWord (afterWord text))]
        else none
      else none := by
  have hspaces : skipSpace (' ' :: (List.replicate k ' ' ++ (text ++ ['\n']))) =
      skipSpace (text ++ ['\n']) := skipSpace_spaces k _
  rw [scan, hspaces]
  cases text with
  | nil => rfl
  | cons c text =>
      have hc : isSpace c = false := hhead c rfl
      have hskip : skipSpace (c :: text ++ ['\n']) = c :: text ++ ['\n'] :=
        skipSpace_of_not fun x hx => hhead x hx
      have hword : firstWord (c :: text) ≠ [] := by simp [firstWord, hc]
      have hafter : skipSpace ((c :: text ++ ['\n']).dropWhile fun c => !isSpace c) =
          afterWord (c :: text ++ ['\n']) := rfl
      rw [hskip, scan_word, hskip, firstWord_concat _ rfl, if_neg hword,
        if_neg (List.cons_ne_nil c text)]
      split
      · rw [scan, hafter, scan_word, skipSpace_afterWord, firstWord_afterWord_concat _ rfl]
        split
        · rfl
        · split <;> rfl
      · rfl

section Line

variable {v : Vma} (exe : List Char)

theorem Vma.head_text (v : Vma) : ∀ c ∈ v.name.text.head?, isSpace c = false := by
  have hname := v.wellFormed
  intro c hc
  cases hv : v.name with
  | anonymous =>
      rw [hv] at hc
      cases hc
  | special text =>
      rw [hv] at hc hname
      obtain ⟨-, first, rest, rfl, -, hspace⟩ := hname
      cases hc
      exact hspace
  | file path deleted =>
      rw [hv] at hc hname
      obtain ⟨-, rest, rfl⟩ := hname
      cases hc
      rfl

/-- The words of a name that are assigned. -/
def Vma.words (v : Vma) : List Value :=
  if v.name.text = [] then []
  else if firstWord (afterWord v.name.text) = [] then [.text (firstWord v.name.text)]
  else [.text (firstWord v.name.text), .text (firstWord (afterWord v.name.text))]

instance (v : Vma) : Decidable v.Defined := inferInstanceAs (Decidable (_ ∧ _ ∧ _))

/-- **The scan of a line.** -/
theorem Vma.scan_line (hshort : v.line.length < 1023) :
    scan mapsFormat (v.line ++ ['\n']) =
      if v.Defined then some (v.values ++ v.words) else none := by
  obtain ⟨k, hline⟩ : ∃ k, v.line = v.header ++ (List.replicate k ' ' ++ v.name.text) := by
    rw [Vma.line]
    cases hname : v.name with
    | anonymous => exact ⟨0, rfl⟩
    | special text => exact ⟨_, rfl⟩
    | file path deleted => exact ⟨_, rfl⟩
  have hword : (firstWord v.name.text).length < 1024 := by
    have hle : (firstWord v.name.text).length ≤ v.name.text.length :=
      (List.takeWhile_prefix _).length_le
    rw [hline, List.length_append, List.length_append] at hshort
    omega
  rw [hline, List.append_assoc, List.append_assoc, v.scan_header, scan_name v.head_text,
    Vma.words]
  by_cases hnum : v.offset < 2 ^ 32 ∧ v.inode < 2 ^ 31
  · rw [if_pos hnum]
    by_cases hnil : v.name.text = []
    · have hdef : v.Defined := ⟨hnum.1, hnum.2, by rw [hnil]; decide⟩
      rw [if_pos hnil, if_pos hdef, if_pos hnil]
      rfl
    · rw [if_neg hnil, if_pos hword, if_neg hnil]
      by_cases hone : firstWord (afterWord v.name.text) = []
      · have hdef : v.Defined := ⟨hnum.1, hnum.2, by rw [hone]; decide⟩
        rw [if_pos hone, if_pos hdef, if_pos hone]
        rfl
      · rw [if_neg hone, if_neg hone]
        by_cases hfits : (firstWord (afterWord v.name.text)).length < 100
        · have hdef : v.Defined := ⟨hnum.1, hnum.2, hfits⟩
          rw [if_pos hfits, if_pos hdef]
          rfl
        · have hdef : ¬ v.Defined := fun h => hfits h.2.2
          rw [if_neg hfits, if_neg hdef]
          rfl
  · have hdef : ¬ v.Defined := fun h => hnum ⟨h.1, h.2.1⟩
    rw [if_neg hnum, if_neg hdef]

/-- What a call returns for a line on which every conversion is defined. -/
def Vma.shown (v : Vma) : Option MapsCall :=
  if v.exec = true ∧ (firstWord v.name.text).head? = some '/' ∧
      firstWord (afterWord v.name.text) = [] then
    some (.path (firstWord v.name.text) v.start v.stop (decide (firstWord v.name.text = exe)))
  else none

theorem procMapsWalk_undefined (hshort : v.line.length < 1023) (hdef : ¬ v.Defined)
    (rest : List (List Char)) : procMapsWalk exe ((v.line ++ ['\n']) :: rest) = none := by
  rw [procMapsWalk, Vma.scan_line hshort, if_neg hdef]

theorem procMapsWalk_defined (hshort : v.line.length < 1023) (hdef : v.Defined)
    (rest : List (List Char)) :
    procMapsWalk exe ((v.line ++ ['\n']) :: rest) =
      match v.shown exe with
      | some call => some (call, { filp := some rest, exeName := exe })
      | none => procMapsWalk exe rest := by
  have hexec : v.perms[2]? = some 'x' ↔ v.exec = true := by
    cases hx : v.exec <;> simp [Vma.perms, hx]
  rw [procMapsWalk, Vma.scan_line hshort, if_pos hdef, Vma.words, Vma.shown]
  by_cases hnil : v.name.text = []
  · rw [if_pos hnil, hnil, if_neg (by simp [firstWord])]
    rfl
  · rw [if_neg hnil]
    by_cases hone : firstWord (afterWord v.name.text) = []
    · rw [if_pos hone]
      by_cases hshown : v.exec = true ∧ (firstWord v.name.text).head? = some '/'
      · rw [if_pos ⟨hshown.1, hshown.2, hone⟩]
        simp only [Vma.values, List.cons_append, List.nil_append, hexec, if_pos hshown]
        simp
      · rw [if_neg fun h => hshown ⟨h.1, h.2.1⟩]
        simp only [Vma.values, List.cons_append, List.nil_append, hexec, if_neg hshown]
    · rw [if_neg hone, if_neg fun h => hone h.2.2]
      rfl

/-- What is not wanted is not returned. -/
theorem Vma.shown_eq_none (h : v.wanted exe = none) : v.shown exe = none := by
  have hname := v.wellFormed
  rw [Vma.shown, if_neg]
  rintro ⟨hexec, hslash, hone⟩
  cases hv : v.name with
  | anonymous =>
      rw [hv] at hslash
      cases hslash
  | special text =>
      rw [hv] at hslash hname
      obtain ⟨-, c, rest, rfl, hne, hspace⟩ := hname
      simp only [VmaName.text, firstWord, List.takeWhile_cons, hspace] at hslash
      exact hne (Option.some.inj hslash)
  | file path deleted =>
      cases deleted with
      | true =>
          rw [hv] at hone
          exact firstWord_afterWord_ne_nil path "deleted)".toList (by decide) hone
      | false =>
          rw [Vma.wanted, hv] at h
          simp [hexec] at h

/-- A path is returned whole exactly if it has no white space. -/
theorem Vma.wanted_eq_shown_iff : v.wanted exe = v.shown exe ↔ v.Plain := by
  cases hwanted : v.wanted exe with
  | none =>
      rw [Vma.shown_eq_none exe hwanted]
      simp only [true_iff]
      unfold Vma.Plain
      unfold Vma.wanted at hwanted
      split
      · rename_i path hv
        rw [hv] at hwanted
        intro hexec
        simp [hexec] at hwanted
      · trivial
  | some call =>
      obtain ⟨path, hv, hexec, rfl⟩ : ∃ path, v.name = .file path false ∧ v.exec = true ∧
          call = .path path v.start v.stop (decide (path = exe)) := by
        unfold Vma.wanted at hwanted
        split at hwanted
        · rename_i path hv
          split at hwanted
          · rename_i hexec
            exact ⟨path, hv, hexec, (Option.some.inj hwanted).symm⟩
          · cases hwanted
        · cases hwanted
      have htext : v.name.text = path := by
        rw [hv]
        exact List.append_nil path
      have hplain : v.Plain ↔ firstWord path = path := by
        rw [firstWord_eq_self_iff, Vma.Plain, hv]
        exact ⟨fun h => h hexec, fun h _ => h⟩
      rw [hplain, Vma.shown, htext]
      constructor
      · intro h
        split at h
        · exact (MapsCall.path.inj (Option.some.inj h)).1.symm
        · cases h
      · intro h
        have hafter : afterWord path = [] := by
          have hnone := afterWord_append (firstWord_eq_self_iff.mp h) []
          rwa [List.append_nil] at hnone
        have hslash : path.head? = some '/' := by
          have hname := v.wellFormed
          rw [hv] at hname
          obtain ⟨-, rest, rfl⟩ := hname
          rfl
        rw [h, hafter, if_pos ⟨hexec, hslash, rfl⟩]

end Line

/-! ## The lines of the file -/

theorem Vma.newline_not_mem_line (v : Vma) : '\n' ∉ v.line := by
  have hname := v.wellFormed
  have hnum (base : Nat) (hbase : 1 < base) (hle : base ≤ 16) (width n : Nat) :
      '\n' ∉ printNat base width n := by
    intro hmem
    cases isSpace_of_isDigit (isDigit_of_mem_printNat hbase hle width n _ hmem)
  have hperms : '\n' ∉ v.perms := by
    intro hmem
    cases v.not_space_of_mem_perms _ hmem
  have hheader : '\n' ∉ v.header := by
    simp [Vma.header, hperms, hnum 16 (by decide) (by decide), hnum 10 (by decide) (by decide)]
  have htext : '\n' ∉ v.name.text := by
    cases hv : v.name with
    | anonymous => exact List.not_mem_nil
    | special text =>
        rw [hv] at hname
        exact hname.1
    | file path deleted =>
        rw [hv] at hname
        cases deleted with
        | true => simpa [VmaName.text] using hname.1
        | false => simpa [VmaName.text] using hname.1
  rw [Vma.line]
  split
  · simpa using hheader
  · simp [hheader, htext]

theorem fgetsAll_line {line : List Char} (hline : '\n' ∉ line) (front rest : List Char)
    (hlength : front.length + line.length < 1023) :
    fgetsAll 1024 front (line ++ '\n' :: rest) = (front ++ line ++ ['\n']) :: fgetsAll 1024 [] rest := by
  induction line generalizing front with
  | nil => simp [fgetsAll]
  | cons c line ih =>
      rw [List.mem_cons, not_or] at hline
      rw [List.length_cons] at hlength
      rw [List.cons_append, fgetsAll, if_neg, ih hline.2]
      · simp
      · rw [List.length_append, List.length_singleton]
        omega
      · rintro (hc | hc)
        · exact hline.1 hc.symm
        · omega

/-- The lines of some mappings, as `fgets` returns them. -/
def linesOf (vmas : List Vma) : List (List Char) := vmas.map fun v => v.line ++ ['\n']

theorem fgetsAll_text (maps : MapsFile) : fgetsAll 1024 [] maps.text = linesOf maps.vmas := by
  have hall : ∀ vmas : List Vma, (∀ v ∈ vmas, v.line.length < 1023) →
      fgetsAll 1024 [] (vmas.flatMap fun v => v.line ++ ['\n']) = linesOf vmas := by
    intro vmas
    induction vmas with
    | nil => exact fun _ => rfl
    | cons v vmas ih =>
        intro hshort
        have hv := hshort v List.mem_cons_self
        rw [List.flatMap_cons, List.append_assoc, List.singleton_append,
          fgetsAll_line v.newline_not_mem_line [] _ (by simpa using hv),
          ih fun u hu => hshort u (List.mem_cons_of_mem _ hu)]
        rfl
  exact hall maps.vmas maps.short

/-! ## The calls -/

section Calls

variable {proc : ProcFiles} {exe : List Char} {vmas : List Vma}

theorem procMapsCalls_succ (n : Nat) (st : MapsStatics) :
    procMapsCalls proc (n + 1) st = (procMapsCall proc st).bind fun r =>
      (procMapsCalls proc n r.2).map fun r' => (r.1 :: r'.1, r'.2) := by
  rw [procMapsCalls]
  cases procMapsCall proc st with
  | none => rfl
  | some r =>
      simp only [Option.bind_eq_bind, Option.bind_some]
      cases procMapsCalls proc n r.2 <;> rfl

/-- Only the first call looks at the state. -/
theorem procMapsCalls_congr {st st' : MapsStatics} (h : procMapsCall proc st = procMapsCall proc st')
    (n : Nat) : procMapsCalls proc (n + 1) st = procMapsCalls proc (n + 1) st' := by
  rw [procMapsCalls_succ, procMapsCalls_succ, h]

theorem procMapsCalls_add (m n : Nat) (st : MapsStatics) :
    procMapsCalls proc (m + n) st = (procMapsCalls proc m st).bind fun r =>
      (procMapsCalls proc n r.2).map fun r' => (r.1 ++ r'.1, r'.2) := by
  induction m generalizing st with
  | zero => simp [procMapsCalls]
  | succ m ih =>
      rw [Nat.add_right_comm, procMapsCalls_succ, procMapsCalls_succ]
      cases procMapsCall proc st with
      | none => rfl
      | some r =>
          simp only [Option.bind_some, ih]
          cases procMapsCalls proc m r.2 with
          | none => rfl
          | some r' =>
              simp only [Option.bind_some, Option.map_some]
              cases procMapsCalls proc n r'.2 <;> rfl

theorem procMapsCall_cons {v : Vma} (hshort : v.line.length < 1023) (hdef : v.Defined) :
    procMapsCall proc { filp := some (linesOf (v :: vmas)), exeName := exe } =
      match v.shown exe with
      | some call => some (call, { filp := some (linesOf vmas), exeName := exe })
      | none => procMapsCall proc { filp := some (linesOf vmas), exeName := exe } :=
  procMapsWalk_defined exe hshort hdef (linesOf vmas)

/-- From some lines on to `NULL`. -/
theorem procMapsCalls_of_defined (hshort : ∀ v ∈ vmas, v.line.length < 1023)
    (hdef : ∀ v ∈ vmas, v.Defined) :
    procMapsCalls proc ((vmas.filterMap (Vma.shown exe)).length + 1)
        { filp := some (linesOf vmas), exeName := exe } =
      some (vmas.filterMap (Vma.shown exe) ++ [.null], { filp := none, exeName := exe }) := by
  induction vmas with
  | nil => rfl
  | cons v vmas ih =>
      have hrest := ih (fun u hu => hshort u (List.mem_cons_of_mem _ hu))
        fun u hu => hdef u (List.mem_cons_of_mem _ hu)
      have hcall := @procMapsCall_cons proc exe vmas v (hshort v List.mem_cons_self)
        (hdef v List.mem_cons_self)
      rw [List.filterMap_cons]
      cases hshown : v.shown exe with
      | none =>
          rw [hshown] at hcall
          rw [procMapsCalls_congr hcall]
          exact hrest
      | some call =>
          rw [hshown] at hcall
          rw [List.length_cons, procMapsCalls_succ, hcall, Option.bind_some, hrest]
          rfl

/-- With a line on which a conversion is undefined `NULL` is not reached. -/
theorem null_not_mem_of_undefined (hshort : ∀ v ∈ vmas, v.line.length < 1023)
    (hundef : ∃ v ∈ vmas, ¬ v.Defined) {n : Nat} {calls : List MapsCall} {st : MapsStatics}
    (h : procMapsCalls proc n { filp := some (linesOf vmas), exeName := exe } = some (calls, st)) :
    .null ∉ calls := by
  induction vmas generalizing n calls with
  | nil =>
      obtain ⟨v, hv, -⟩ := hundef
      cases hv
  | cons v vmas ih =>
      cases n with
      | zero =>
          cases h
          exact List.not_mem_nil
      | succ n =>
          have hv := hshort v List.mem_cons_self
          have hshort' : ∀ u ∈ vmas, u.line.length < 1023 :=
            fun u hu => hshort u (List.mem_cons_of_mem _ hu)
          by_cases hdef : v.Defined
          · have hundef' : ∃ u ∈ vmas, ¬ u.Defined := by
              obtain ⟨u, hu, hnot⟩ := hundef
              rcases List.mem_cons.mp hu with rfl | hu
              · exact absurd hdef hnot
              · exact ⟨u, hu, hnot⟩
            have hcall := @procMapsCall_cons proc exe vmas v hv hdef
            cases hshown : v.shown exe with
            | none =>
                rw [hshown] at hcall
                rw [procMapsCalls_congr hcall] at h
                exact ih hshort' hundef' h
            | some call =>
                rw [hshown] at hcall
                rw [procMapsCalls_succ, hcall, Option.bind_some] at h
                obtain ⟨r, hr, h⟩ := Option.map_eq_some_iff.mp h
                cases h
                refine List.not_mem_cons_of_ne_of_not_mem ?_ (ih hshort' hundef' hr)
                rintro rfl
                rw [Vma.shown] at hshown
                split at hshown <;> cases hshown
          · have hcall : procMapsCall proc
                { filp := some (linesOf (v :: vmas)), exeName := exe } = none :=
              procMapsWalk_undefined exe hv hdef (linesOf vmas)
            rw [procMapsCalls_succ, hcall] at h
            cases h

end Calls

/-! ## The enumeration -/

theorem length_filterMap_le {α β : Type*} {f g : α → Option β} (h : ∀ a, f a = none → g a = none)
    (l : List α) : (l.filterMap g).length ≤ (l.filterMap f).length := by
  induction l with
  | nil => rfl
  | cons a l ih =>
      rw [List.filterMap_cons, List.filterMap_cons]
      cases hf : f a with
      | none =>
          rw [h a hf]
          exact ih
      | some b =>
          cases g a with
          | none => exact Nat.le_succ_of_le ih
          | some c => exact Nat.succ_le_succ ih

/-- Two selections, one of which selects less, agree if they agree on each element. -/
theorem filterMap_eq_iff {α β : Type*} {f g : α → Option β} (h : ∀ a, f a = none → g a = none)
    {l : List α} : l.filterMap f = l.filterMap g ↔ ∀ a ∈ l, f a = g a := by
  constructor
  · intro heq
    induction l with
    | nil => simp
    | cons a l ih =>
        rw [List.filterMap_cons, List.filterMap_cons] at heq
        rw [List.forall_mem_cons]
        cases hf : f a with
        | none =>
            rw [hf, h a hf] at heq
            exact ⟨(h a hf).symm, ih heq⟩
        | some b =>
            cases hg : g a with
            | none =>
                rw [hf, hg] at heq
                have hlength := congrArg List.length heq
                have hle := length_filterMap_le h l
                simp only [List.length_cons] at hlength
                omega
            | some c =>
                rw [hf, hg, List.cons.injEq] at heq
                exact ⟨congrArg some heq.1, ih heq.2⟩
  · exact List.filterMap_congr

section Enumeration

variable {maps : MapsFile} {exe : List Char}

theorem null_not_mem_wanted (exe : List Char) (vmas : List Vma) :
    .null ∉ vmas.filterMap (Vma.wanted exe) := by
  intro hmem
  obtain ⟨v, -, hv⟩ := List.mem_filterMap.mp hmem
  unfold Vma.wanted at hv
  split at hv
  · split at hv <;> cases hv
  · cases hv

theorem procMapsCall_closed (hexe : exe.length < 1024) {st : MapsStatics} (hst : st.filp = none) :
    procMapsCall ⟨maps.text, exe⟩ st =
      procMapsCall ⟨maps.text, exe⟩ { filp := some (linesOf maps.vmas), exeName := exe } := by
  have htake : exe.take 1024 = exe := List.take_of_length_le (Nat.le_of_lt hexe)
  simp only [procMapsCall, procMapsInit, hst, htake, if_pos hexe, fgetsAll_text]

theorem procMapsCalls_closed (hexe : exe.length < 1024) (hdef : ∀ v ∈ maps.vmas, v.Defined)
    {st : MapsStatics} (hst : st.filp = none) :
    procMapsCalls ⟨maps.text, exe⟩ ((maps.vmas.filterMap (Vma.shown exe)).length + 1) st =
      some (maps.vmas.filterMap (Vma.shown exe) ++ [.null], { filp := none, exeName := exe }) := by
  rw [procMapsCalls_congr (procMapsCall_closed hexe hst)]
  exact procMapsCalls_of_defined maps.short hdef

/-- **`proc_maps` yields every executable file mapping** with its path, for each
consumer, exactly if the path of the executable fits, no conversion is undefined and
no path that is to be returned has white space. -/
theorem procMaps_enumerates_iff (maps : MapsFile) (exe : List Char) :
    Enumerates ⟨maps.text, exe⟩ (maps.vmas.filterMap (Vma.wanted exe)) ↔
      exe.length < 1024 ∧ ∀ v ∈ maps.vmas, v.Defined ∧ v.Plain := by
  constructor
  · intro h
    obtain ⟨⟨calls, st⟩, hrun, hcalls⟩ := Option.map_eq_some_iff.mp (h 1)
    simp only [Nat.one_mul, List.replicate_one, List.flatten_singleton] at hrun hcalls
    subst hcalls
    have hexe : exe.length < 1024 := by
      by_contra hlong
      have hnone : procMapsCall ⟨maps.text, exe⟩ {} = none := by
        have htake : ¬ (exe.take 1024).length < 1024 := by
          rw [List.length_take]
          omega
        simp only [procMapsCall, procMapsInit, if_neg htake]
        rfl
      rw [procMapsCalls_succ, hnone] at hrun
      cases hrun
    have hdef : ∀ v ∈ maps.vmas, v.Defined := by
      by_contra hnot
      push Not at hnot
      rw [procMapsCalls_congr (procMapsCall_closed hexe rfl)] at hrun
      exact null_not_mem_of_undefined maps.short hnot hrun (by simp)
    -- what is returned up to the first `NULL` is what is shown
    have hshown : maps.vmas.filterMap (Vma.wanted exe) = maps.vmas.filterMap (Vma.shown exe) := by
      have hle := length_filterMap_le (fun v => Vma.shown_eq_none (v := v) exe) maps.vmas
      obtain ⟨k, hk⟩ := Nat.exists_eq_add_of_le (Nat.succ_le_succ hle)
      rw [show (maps.vmas.filterMap (Vma.wanted exe)).length + 1 = _ from hk, procMapsCalls_add,
        procMapsCalls_closed hexe hdef rfl, Option.bind_some] at hrun
      obtain ⟨⟨more, st'⟩, -, heq⟩ := Option.map_eq_some_iff.mp hrun
      have heq : maps.vmas.filterMap (Vma.shown exe) ++ [.null] ++ more =
          maps.vmas.filterMap (Vma.wanted exe) ++ [.null] := congrArg Prod.fst heq
      rcases List.eq_nil_or_concat more with rfl | ⟨front, last, rfl⟩
      · rw [List.append_nil] at heq
        exact (List.append_cancel_right heq).symm
      · rw [List.concat_eq_append, ← List.append_assoc] at heq
        have hfront := (List.append_inj' heq rfl).1
        refine absurd ?_ (null_not_mem_wanted exe maps.vmas)
        rw [← hfront]
        simp
    have hplain := (filterMap_eq_iff fun v => Vma.shown_eq_none (v := v) exe).mp hshown
    exact ⟨hexe, fun v hv => ⟨hdef v hv, (Vma.wanted_eq_shown_iff exe).mp (hplain v hv)⟩⟩
  · rintro ⟨hexe, hok⟩ consumers
    have hshown : maps.vmas.filterMap (Vma.wanted exe) = maps.vmas.filterMap (Vma.shown exe) :=
      List.filterMap_congr fun v hv => (Vma.wanted_eq_shown_iff exe).mpr (hok v hv).2
    rw [hshown]
    have hrounds : ∀ st : MapsStatics, st.filp = none →
        (procMapsCalls ⟨maps.text, exe⟩
          (consumers * ((maps.vmas.filterMap (Vma.shown exe)).length + 1)) st).map Prod.fst =
        some (List.replicate consumers
          (maps.vmas.filterMap (Vma.shown exe) ++ [.null])).flatten := by
      induction consumers with
      | zero =>
          intro st hst
          simp [procMapsCalls]
      | succ consumers ih =>
          intro st hst
          have hround := procMapsCalls_closed hexe (fun v hv => (hok v hv).1) hst
          have hrest := ih { filp := none, exeName := exe } rfl
          rw [Nat.succ_mul, Nat.add_comm, procMapsCalls_add, hround, Option.bind_some,
            Option.map_map]
          obtain ⟨r, hr, hcalls⟩ := Option.map_eq_some_iff.mp hrest
          rw [hr, Option.map_some, List.replicate_succ, List.flatten_cons, ← hcalls]
          rfl
    exact hrounds {} rfl

/-- The words of a line, as the consumers see them. -/
def Vma.scanned (v : Vma) : Mapping where
  start := v.start
  stop := v.stop
  executable := v.exec
  path := String.ofList (firstWord v.name.text)
  deleted := decide (firstWord (afterWord v.name.text) ≠ [])

def Mapping.call (exe : List Char) (m : Mapping) : MapsCall :=
  .path m.path.toList m.start m.stop (decide (m.path.toList = exe))

theorem filterMap_shown (exe : List Char) (vmas : List Vma) :
    vmas.filterMap (Vma.shown exe) = (procMaps (vmas.map Vma.scanned)).map (Mapping.call exe) := by
  induction vmas with
  | nil => rfl
  | cons v vmas ih =>
      have hcond : (v.scanned.executable && v.scanned.path.toList.head? == some '/' &&
          !v.scanned.deleted) = true ↔ v.exec = true ∧
            (firstWord v.name.text).head? = some '/' ∧ firstWord (afterWord v.name.text) = [] := by
        simp [Vma.scanned, and_assoc]
      rw [List.filterMap_cons, List.map_cons, procMaps, List.filter_cons, ih, Vma.shown]
      by_cases hshown : v.exec = true ∧ (firstWord v.name.text).head? = some '/' ∧
          firstWord (afterWord v.name.text) = []
      · rw [if_pos hshown, if_pos (hcond.mpr hshown), List.map_cons, Mapping.call, Vma.scanned,
          String.toList_ofList]
        rfl
      · rw [if_neg hshown, if_neg fun h => hshown (hcond.mp h)]
        rfl

/-- **The calls of a consumer** return `procMaps` of the words of the lines. -/
theorem procMapsCalls_eq_procMaps (hexe : exe.length < 1024)
    (hdef : ∀ v ∈ maps.vmas, v.Defined) {st : MapsStatics} (hst : st.filp = none) :
    procMapsCalls ⟨maps.text, exe⟩ ((procMaps (maps.vmas.map Vma.scanned)).length + 1) st =
      some ((procMaps (maps.vmas.map Vma.scanned)).map (Mapping.call exe) ++ [.null],
        { filp := none, exeName := exe }) := by
  have hround := procMapsCalls_closed hexe hdef hst
  rwa [filterMap_shown, List.length_map] at hround

end Enumeration

/-! ## A path with a space -/

/-- `/opt/my app/lib.so`, mapped for execution. -/
def spacedVma : Vma where
  start := 0x7f0000000000
  stop := 0x7f0000001000
  read := true
  write := false
  exec := true
  shared := false
  offset := 0
  major := 8
  minor := 1
  inode := 42
  name := .file "/opt/my app/lib.so".toList false
  major_lt := by decide
  minor_lt := by decide
  wellFormed := ⟨by decide, _, rfl⟩

def spacedMaps : MapsFile where
  vmas := [spacedVma]
  short := by decide +kernel

def sampleExe : List Char := "/usr/bin/app".toList

theorem path_with_space_dropped :
    spacedMaps.vmas.filterMap (Vma.wanted sampleExe) =
        [.path "/opt/my app/lib.so".toList 0x7f0000000000 0x7f0000001000 false] ∧
      ¬ Enumerates ⟨spacedMaps.text, sampleExe⟩ (spacedMaps.vmas.filterMap (Vma.wanted sampleExe)) := by
  refine ⟨by decide +kernel, ?_⟩
  intro h
  have hwanted : spacedMaps.vmas.filterMap (Vma.wanted sampleExe) =
      [.path "/opt/my app/lib.so".toList 0x7f0000000000 0x7f0000001000 false] := by decide +kernel
  have hcalls : (procMapsCalls ⟨spacedMaps.text, sampleExe⟩ 2 {}).map Prod.fst =
      some [.null, .null] := by decide +kernel
  have hone := h 1
  rw [hwanted] at hone
  rw [show 1 * ([MapsCall.path "/opt/my app/lib.so".toList 0x7f0000000000 0x7f0000001000
    false].length + 1) = 2 from rfl, hcalls] at hone
  revert hone
  decide

end Memleax
