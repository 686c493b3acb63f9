import Memleax.Framework.Getopt
import Memleax.Tracer.BacktraceLimit

/-!
# The command line

The beginning of `main`: the options as `getopt` finds them, and the target. The
options are tested as they come, the operand after all of them.

`command_line` says which command lines memleax starts with, and that the last value
of each option counts. Any other is refused for the first option that is not valid,
or else for its operands.
-/

namespace Memleax

open Framework

/-- `"hve:d:l:m:c:"` -/
def optstring : List Char := ['h', 'v', 'e', ':', 'd', ':', 'l', ':', 'm', ':', 'c', ':']

/-- The `switch` of `main`. -/
def optOf : Getopt.Answer → Opt
  | .value 'e' optarg => .expire optarg
  | .value 'd' optarg => .debugInfoFile optarg
  | .value 'l' optarg => .backtraceLimit optarg
  | .value 'm' optarg => .memblockLimit optarg
  | .value 'c' optarg => .callstackLimit optarg
  | .flag 'h' => .help
  | .flag 'v' => .version
  | _ => .unknown

/-- A `return` of `main` before the target is looked at. -/
inductive Refusal where
  | quit (q : Quit)
  | invalidArgument
  /-- `fprintf(stderr, "invalid target pid: %s\n", argv[optind])` -/
  | invalidTargetPid (argument : List Char)
deriving DecidableEq, Repr

def Refusal.status : Refusal → Nat
  | .quit q => q.status
  | .invalidArgument => 1
  | .invalidTargetPid _ => 2

/-- The options of `argv[1..]` and the target. -/
def parseCommandLine (permute : Bool) (argv : List (List Char)) : Except Refusal (Options × CInt) :=
  match parseOptions ((Getopt.getopt optstring permute argv).1.map optOf) with
  | .error q => .error (.quit q)
  | .ok o =>
      match (Getopt.getopt optstring permute argv).2 with
      | [operand] =>
          if atoi operand = 0 then .error (.invalidTargetPid operand) else .ok (o, atoi operand)
      | _ => .error .invalidArgument

/-! ## What the options mean -/

/-- An option that `main` goes on after. -/
def ValidOption : Getopt.Answer → Prop
  | .value letter optarg =>
      letter = 'd' ∨ letter ∈ ['e', 'l', 'm', 'c'] ∧ atoi optarg ≠ 0 ∧
        (letter = 'l' → (atoi optarg).toInt ≤ backtraceMax)
  | _ => False

instance : (answer : Getopt.Answer) → Decidable (ValidOption answer)
  | .value _ _ => inferInstanceAs (Decidable (_ ∨ _ ∧ _ ∧ (_ → _)))
  | .flag _ | .unknown _ | .missing _ => inferInstanceAs (Decidable False)

/-- What `main` returns with if an option is not valid. -/
def complaint : Getopt.Answer → Quit
  | .flag 'h' => .help
  | .flag 'v' => .version
  | .value 'e' optarg => .invalid "invalid expire: %s\n" optarg
  | .value 'l' optarg =>
      if atoi optarg = 0 then .invalid "invalid backtrace limit: %s\n" optarg
      else .invalid "too big backtrace limit: %s\n" optarg
  | .value 'm' optarg => .invalid "invalid memblock_limit: %s\n" optarg
  | .value 'c' optarg => .invalid "invalid callstack_limit: %s\n" optarg
  | _ => .usage

/-- The last argument of every option, or its default. -/
def configured (answers : List Getopt.Answer) : Options where
  limits := {
    expire := ((Getopt.lastOptarg 'e' answers).map fun optarg => (atoi optarg).toInt).getD 10
    memblockLimit := ((Getopt.lastOptarg 'm' answers).map atoi).getD 1000
    callstackLimit := ((Getopt.lastOptarg 'c' answers).map atoi).getD 1000 }
  backtraceLimit := ((Getopt.lastOptarg 'l' answers).map atoi).getD 50
  debugInfoFile := Getopt.lastOptarg 'd' answers

/-- A number that may not be 0, in a field of the options. -/
theorem map_numberOption (format : String) (optarg : List Char) (f : CInt → Options) :
    (numberOption format optarg).map f =
      if atoi optarg = 0 then .error (.invalid format optarg) else .ok (f (atoi optarg)) := by
  rw [numberOption]
  split <;> rfl

/-- One more option. -/
theorem parseOption_configured (answers : List Getopt.Answer) (answer : Getopt.Answer) :
    parseOption (configured answers) (optOf answer) =
      if ValidOption answer then .ok (configured (answers ++ [answer]))
      else .error (complaint answer) := by
  have hlast := fun letter => Getopt.lastOptarg_concat letter answers answer
  unfold optOf
  split
  · rename_i optarg
    have hnext : configured (answers ++ [.value 'e' optarg]) = { configured answers with
        limits := { (configured answers).limits with expire := (atoi optarg).toInt } } := by
      simp [configured, hlast, Getopt.Answer.optargOf]
    rw [parseOption, map_numberOption, hnext]
    simp [ValidOption, complaint]
  · simp [parseOption, ValidOption, configured, hlast, Getopt.Answer.optargOf]
  · rename_i optarg
    have hnext : configured (answers ++ [.value 'l' optarg]) = { configured answers with
        backtraceLimit := atoi optarg } := by
      simp [configured, hlast, Getopt.Answer.optargOf]
    rw [parseOption, numberOption, hnext]
    by_cases hzero : atoi optarg = 0
    · rw [if_pos hzero, if_neg]
      · simp only [complaint, if_pos hzero]
        rfl
      · rintro (heq | ⟨-, hne, -⟩)
        · cases heq
        · exact hne hzero
    · rw [if_neg hzero]
      by_cases hbig : (atoi optarg).toInt > backtraceMax
      · rw [if_neg]
        · simp only [complaint, if_neg hzero]
          exact if_pos hbig
        · rintro (heq | ⟨-, -, hlimit⟩)
          · cases heq
          · exact absurd (hlimit rfl) (not_le.mpr hbig)
      · have hvalid : ValidOption (.value 'l' optarg) :=
          Or.inr ⟨by decide, hzero, fun _ => not_lt.mp hbig⟩
        rw [if_pos hvalid]
        exact if_neg hbig
  · rename_i optarg
    have hnext : configured (answers ++ [.value 'm' optarg]) = { configured answers with
        limits := { (configured answers).limits with memblockLimit := atoi optarg } } := by
      simp [configured, hlast, Getopt.Answer.optargOf]
    rw [parseOption, map_numberOption, hnext]
    simp [ValidOption, complaint]
  · rename_i optarg
    have hnext : configured (answers ++ [.value 'c' optarg]) = { configured answers with
        limits := { (configured answers).limits with callstackLimit := atoi optarg } } := by
      simp [configured, hlast, Getopt.Answer.optargOf]
    rw [parseOption, map_numberOption, hnext]
    simp [ValidOption, complaint]
  · simp [parseOption, ValidOption, complaint]
  · simp [parseOption, ValidOption, complaint]
  · rename_i he hd hl hm hc hh hv
    have hnot : ¬ ValidOption answer := by
      cases answer with
      | value letter optarg =>
          simp only [ValidOption, List.mem_cons, List.not_mem_nil, or_false]
          rintro (rfl | ⟨rfl | rfl | rfl | rfl, -⟩)
          · exact hd optarg rfl
          · exact he optarg rfl
          · exact hl optarg rfl
          · exact hm optarg rfl
          · exact hc optarg rfl
      | _ => exact not_false
    have husage : complaint answer = .usage := by
      unfold complaint
      split
      · exact absurd rfl hh
      · exact absurd rfl hv
      · exact absurd rfl (he _)
      · exact absurd rfl (hl _)
      · exact absurd rfl (hm _)
      · exact absurd rfl (hc _)
      · rfl
    rw [if_neg hnot, husage]
    rfl

/-- The options up to the first one that is not valid. -/
theorem parseOptions_eq (answers : List Getopt.Answer) :
    parseOptions (answers.map optOf) =
      (answers.find? fun answer => !decide (ValidOption answer)).elim (.ok (configured answers))
        fun answer => .error (complaint answer) := by
  induction answers using List.reverseRecOn with
  | nil => rfl
  | append_singleton answers answer ih =>
      have hrun : parseOptions ((answers ++ [answer]).map optOf) =
          (parseOptions (answers.map optOf)).bind fun o => parseOption o (optOf answer) := by
        rw [parseOptions, List.map_append, List.foldlM_append]
        refine congrArg (Except.bind _) (funext fun o => ?_)
        exact bind_pure _
      rw [hrun, ih, List.find?_append]
      cases hfind : answers.find? fun answer => !decide (ValidOption answer) with
      | some bad => rfl
      | none =>
          rw [Option.none_or]
          refine (parseOption_configured answers answer).trans ?_
          by_cases hvalid : ValidOption answer
          · simp [hvalid]
          · simp [hvalid]

/-! ## What `main` accepts -/

/-- A command line with valid options, and one operand. The last argument of an option counts. -/
structure Starts (permute : Bool) (argv : List (List Char)) (o : Options) (targetPid : CInt) :
    Prop where
  reads : ∃ answers operand, Getopt.Reads optstring permute argv answers [operand] ∧
    (∀ answer ∈ answers, ValidOption answer) ∧ o = configured answers ∧ targetPid = atoi operand
  target : targetPid ≠ 0

/-- Why `main` returns: the first option that is not valid, or else the operands. -/
inductive Refused (permute : Bool) (argv : List (List Char)) : Refusal → Prop
  | option {before after : List Getopt.Answer} {answer : Getopt.Answer}
      (hsplit : (Getopt.getopt optstring permute argv).1 = before ++ answer :: after)
      (hbefore : ∀ valid ∈ before, ValidOption valid) (hnot : ¬ ValidOption answer) :
      Refused permute argv (.quit (complaint answer))
  | operands (hall : ∀ valid ∈ (Getopt.getopt optstring permute argv).1, ValidOption valid)
      (hlength : (Getopt.getopt optstring permute argv).2.length ≠ 1) :
      Refused permute argv .invalidArgument
  | target {operand : List Char}
      (hall : ∀ valid ∈ (Getopt.getopt optstring permute argv).1, ValidOption valid)
      (hoperand : (Getopt.getopt optstring permute argv).2 = [operand])
      (hzero : atoi operand = 0) : Refused permute argv (.invalidTargetPid operand)

/-- The values that the options can have. -/
structure Options.Valid (o : Options) : Prop where
  expire : ∃ n : CInt, n ≠ 0 ∧ o.limits.expire = n.toInt
  memblockLimit : o.limits.memblockLimit ≠ 0
  callstackLimit : o.limits.callstackLimit ≠ 0
  backtraceLimit : LimitChecked o.backtraceLimit

/-- A command line with every option, and the target behind `--`. -/
def Options.spell (o : Options) (targetPid : CInt) : List (List Char) :=
  (o.debugInfoFile.toList.flatMap fun path => [['-', 'd'], path]) ++
    [['-', 'e'], Scanf.printInt o.limits.expire, ['-', 'l'], Scanf.printInt o.backtraceLimit.toInt,
      ['-', 'm'], Scanf.printInt o.limits.memblockLimit.toInt,
      ['-', 'c'], Scanf.printInt o.limits.callstackLimit.toInt,
      ['-', '-'], Scanf.printInt targetPid.toInt]

theorem ValidOption.known {answer : Getopt.Answer} (h : ValidOption answer) : answer.Known := by
  cases answer with
  | value => trivial
  | _ => exact h.elim

theorem atoi_printInt (n : CInt) : atoi (Scanf.printInt n.toInt) = n := by
  have hlow : -2 ^ 31 ≤ n.toInt := BitVec.le_toInt n
  have hhigh : n.toInt < 2 ^ 31 := BitVec.toInt_lt
  have hclamp : max (-2 ^ 63) (min n.toInt (2 ^ 63 - 1)) = n.toInt := by omega
  rw [atoi, Scanf.skipSpace_printInt, Scanf.takeNumber_printInt]
  show BitVec.ofInt 32 (max (-2 ^ 63) (min n.toInt (2 ^ 63 - 1))) = n
  rw [hclamp, BitVec.ofInt_toInt]

section Cases

variable {permute : Bool} {argv : List (List Char)}

theorem parseOptions_of_valid {answers : List Getopt.Answer}
    (hall : ∀ valid ∈ answers, ValidOption valid) :
    parseOptions (answers.map optOf) = .ok (configured answers) := by
  have hnone : (answers.find? fun answer => !decide (ValidOption answer)) = none := by
    rw [List.find?_eq_none]
    intro answer hanswer
    simp [hall answer hanswer]
  rw [parseOptions_eq, hnone]
  rfl

theorem parseCommandLine_of_refused {r : Refusal} (h : Refused permute argv r) :
    parseCommandLine permute argv = .error r := by
  rw [parseCommandLine]
  cases h with
  | @option before after answer hsplit hbefore hnot =>
      have hfirst : (List.find? (fun answer => !decide (ValidOption answer))
          (before ++ answer :: after)) = some answer := by
        rw [List.find?_eq_some_iff_append]
        refine ⟨by simpa using hnot, before, after, rfl, ?_⟩
        intro valid hvalid
        simp [hbefore valid hvalid]
      rw [hsplit, parseOptions_eq, hfirst]
      rfl
  | operands hall hlength =>
      rw [parseOptions_of_valid hall]
      dsimp only
      split
      · rename_i operand hoperand
        rw [hoperand] at hlength
        exact absurd rfl hlength
      · rfl
  | @target operand hall hoperand hzero =>
      rw [parseOptions_of_valid hall, hoperand]
      exact if_pos hzero

theorem parseCommandLine_of_starts {o : Options} {targetPid : CInt}
    (h : Starts permute argv o targetPid) :
    parseCommandLine permute argv = .ok (o, targetPid) := by
  rcases h with ⟨⟨answers, operand, hreads, hall, rfl, rfl⟩, htarget⟩
  rw [parseCommandLine, (Getopt.getopt_eq_iff.mpr hreads).1, parseOptions_of_valid hall]
  exact if_neg htarget

/-- Every command line is one that memleax starts with, or is refused. -/
theorem starts_or_refused (permute : Bool) (argv : List (List Char)) :
    (∃ o targetPid, Starts permute argv o targetPid) ∨ ∃ r, Refused permute argv r := by
  set answers := (Getopt.getopt optstring permute argv).1 with hanswers
  set operands := (Getopt.getopt optstring permute argv).2 with hoperands
  cases hfind : answers.find? fun answer => !decide (ValidOption answer) with
  | some answer =>
      obtain ⟨hnot, before, after, hsplit, hbefore⟩ := List.find?_eq_some_iff_append.mp hfind
      refine Or.inr ⟨_, .option (hanswers.symm.trans hsplit) ?_ (by simpa using hnot)⟩
      intro valid hvalid
      simpa using hbefore valid hvalid
  | none =>
      have hall : ∀ valid ∈ answers, ValidOption valid := by
        simpa using List.find?_eq_none.mp hfind
      by_cases hlength : operands.length = 1
      · obtain ⟨operand, hoperand⟩ := List.length_eq_one_iff.mp hlength
        by_cases hzero : atoi operand = 0
        · exact Or.inr ⟨_, .target hall hoperand hzero⟩
        · have hreads : Getopt.Reads optstring permute argv answers operands :=
            Getopt.getopt_eq_iff.mp ⟨rfl, fun a ha => (hall a ha).known⟩
          rw [hoperand] at hreads
          exact Or.inl ⟨_, _, ⟨answers, operand, hreads, hall, rfl, rfl⟩, hzero⟩
      · exact Or.inr ⟨_, .operands hall hlength⟩

theorem parseCommandLine_ok_iff {o : Options} {targetPid : CInt} :
    parseCommandLine permute argv = .ok (o, targetPid) ↔ Starts permute argv o targetPid := by
  refine ⟨fun h => ?_, parseCommandLine_of_starts⟩
  rcases starts_or_refused permute argv with ⟨o', targetPid', hstarts⟩ | ⟨r, hrefused⟩
  · rw [parseCommandLine_of_starts hstarts] at h
    obtain ⟨rfl, rfl⟩ := Prod.mk.inj (Except.ok.inj h)
    exact hstarts
  · rw [parseCommandLine_of_refused hrefused] at h
    cases h

theorem parseCommandLine_error_iff {r : Refusal} :
    parseCommandLine permute argv = .error r ↔ Refused permute argv r := by
  refine ⟨fun h => ?_, parseCommandLine_of_refused⟩
  rcases starts_or_refused permute argv with ⟨o, targetPid, hstarts⟩ | ⟨r', hrefused⟩
  · rw [parseCommandLine_of_starts hstarts] at h
    cases h
  · rw [parseCommandLine_of_refused hrefused] at h
    obtain rfl := Except.error.inj h
    exact hrefused

end Cases

/-! ## Every configuration has a command line -/

section Spelled

variable (o : Options)

/-- The options of `Options.spell`. -/
def Options.numbers : List Getopt.Answer :=
  [.value 'e' (Scanf.printInt o.limits.expire), .value 'l' (Scanf.printInt o.backtraceLimit.toInt),
    .value 'm' (Scanf.printInt o.limits.memblockLimit.toInt),
    .value 'c' (Scanf.printInt o.limits.callstackLimit.toInt)]

def Options.answers : List Getopt.Answer :=
  o.debugInfoFile.toList.map (Getopt.Answer.value 'd') ++ o.numbers

theorem reads_spell (permute : Bool) (targetPid : CInt) :
    Getopt.Reads optstring permute (o.spell targetPid) o.answers
      [Scanf.printInt targetPid.toInt] := by
  have hnumbers : Getopt.Reads optstring permute
      [['-', 'e'], Scanf.printInt o.limits.expire,
        ['-', 'l'], Scanf.printInt o.backtraceLimit.toInt,
        ['-', 'm'], Scanf.printInt o.limits.memblockLimit.toInt,
        ['-', 'c'], Scanf.printInt o.limits.callstackLimit.toInt,
        ['-', '-'], Scanf.printInt targetPid.toInt]
      o.numbers [Scanf.printInt targetPid.toInt] := by
    refine .separate (by decide) (by decide) (.separate (by decide) (by decide) ?_)
    refine .separate (by decide) (by decide) (.separate (by decide) (by decide) ?_)
    exact .dashes _
  rw [Options.spell, Options.answers]
  cases o.debugInfoFile with
  | none => exact hnumbers
  | some path => exact .separate (by decide) (by decide) hnumbers

variable {o}

theorem validOption_answers (ho : o.Valid) : ∀ answer ∈ o.answers, ValidOption answer := by
  rcases ho.expire with ⟨expire, hexpire, hexpire_eq⟩
  have hnumber : ∀ {letter : Char} {n : CInt}, letter ∈ ['e', 'm', 'c'] → n ≠ 0 →
      ValidOption (.value letter (Scanf.printInt n.toInt)) := by
    intro letter n hletter hn
    refine Or.inr ⟨?_, by rwa [atoi_printInt], ?_⟩
    · simp only [List.mem_cons, List.not_mem_nil, or_false] at hletter ⊢
      tauto
    · rintro rfl
      exact absurd hletter (by decide)
  intro answer hanswer
  rcases List.mem_append.mp hanswer with hpath | hmem
  · obtain ⟨path, -, rfl⟩ := List.mem_map.mp hpath
    exact Or.inl rfl
  · simp only [Options.numbers, List.mem_cons, List.not_mem_nil, or_false] at hmem
    rcases hmem with rfl | rfl | rfl | rfl
    · rw [hexpire_eq]
      exact hnumber (by decide) hexpire
    · obtain ⟨hlimit, hmax⟩ := ho.backtraceLimit
      refine Or.inr ⟨by decide, ?_⟩
      rw [atoi_printInt]
      exact ⟨hlimit, fun _ => hmax⟩
    · exact hnumber (by decide) ho.memblockLimit
    · exact hnumber (by decide) ho.callstackLimit

theorem configured_answers (ho : o.Valid) : configured o.answers = o := by
  obtain ⟨⟨expire, memblockLimit, callstackLimit⟩, backtraceLimit, debugInfoFile⟩ := o
  rcases ho.expire with ⟨n, -, hexpire⟩
  change expire = n.toInt at hexpire
  subst hexpire
  cases debugInfoFile with
  | none =>
      simp [configured, Options.answers, Options.numbers, Getopt.lastOptarg,
        Getopt.Answer.optargOf, atoi_printInt]
  | some path =>
      simp [configured, Options.answers, Options.numbers, Getopt.lastOptarg,
        Getopt.Answer.optargOf, atoi_printInt]

theorem starts_spell (permute : Bool) {targetPid : CInt} (ho : o.Valid) (htarget : targetPid ≠ 0) :
    Starts permute (o.spell targetPid) o targetPid :=
  ⟨⟨o.answers, _, reads_spell o permute targetPid, validOption_answers ho,
    (configured_answers ho).symm, (atoi_printInt targetPid).symm⟩, htarget⟩

end Spelled

theorem configured_valid {answers : List Getopt.Answer}
    (hall : ∀ answer ∈ answers, ValidOption answer) : (configured answers).Valid := by
  have hnumber : ∀ {letter : Char} {optarg : List Char}, letter ≠ 'd' →
      Getopt.lastOptarg letter answers = some optarg → atoi optarg ≠ 0 ∧
        (letter = 'l' → (atoi optarg).toInt ≤ backtraceMax) := by
    intro letter optarg hletter hlast
    rcases hall _ (Getopt.mem_of_lastOptarg hlast) with heq | ⟨-, hvalid⟩
    · exact absurd heq hletter
    · exact hvalid
  constructor
  · cases hlast : Getopt.lastOptarg 'e' answers with
    | none => exact ⟨10, by decide, by simp [configured, hlast]⟩
    | some optarg => exact ⟨_, (hnumber (by decide) hlast).1, by simp [configured, hlast]⟩
  · cases hlast : Getopt.lastOptarg 'm' answers with
    | none => simp [configured, hlast]
    | some optarg => simpa [configured, hlast] using (hnumber (by decide) hlast).1
  · cases hlast : Getopt.lastOptarg 'c' answers with
    | none => simp [configured, hlast]
    | some optarg => simpa [configured, hlast] using (hnumber (by decide) hlast).1
  · cases hlast : Getopt.lastOptarg 'l' answers with
    | none =>
        rw [show (configured answers).backtraceLimit = 50 by simp [configured, hlast]]
        exact ⟨by decide, by decide⟩
    | some optarg =>
        rcases hnumber (by decide) hlast with ⟨hne, hmax⟩
        simpa [configured, hlast, LimitChecked] using ⟨hne, hmax rfl⟩

/-- **What memleax starts with**: the command lines that `getopt` reads without a complaint, with
valid options and a number as their only operand. Any other is refused for the first option
that is not valid, even if there is no operand, and otherwise for its operands. The
configurations are those with numbers other than 0 and at most 50 levels. -/
theorem command_line (permute : Bool) :
    (∀ argv o targetPid, parseCommandLine permute argv = .ok (o, targetPid) ↔
      Starts permute argv o targetPid) ∧
    (∀ argv r, parseCommandLine permute argv = .error r ↔ Refused permute argv r) ∧
    ∀ (o : Options) (targetPid : CInt),
      (∃ argv, parseCommandLine permute argv = .ok (o, targetPid)) ↔ o.Valid ∧ targetPid ≠ 0 := by
  refine ⟨fun argv o targetPid => parseCommandLine_ok_iff,
    fun argv r => parseCommandLine_error_iff, fun o targetPid => ?_⟩
  constructor
  · rintro ⟨argv, hargv⟩
    obtain ⟨⟨answers, operand, -, hall, rfl, -⟩, htarget⟩ := parseCommandLine_ok_iff.mp hargv
    exact ⟨configured_valid hall, htarget⟩
  · rintro ⟨ho, htarget⟩
    exact ⟨o.spell targetPid, parseCommandLine_ok_iff.mpr (starts_spell permute ho htarget)⟩

-- `memleax 42 -e5`, where the operand comes first
example : parseCommandLine true [['4', '2'], ['-', 'e', '5']] =
    .ok ({ limits := { defaultLimits with expire := 5 } }, 42) := by rfl

example : parseCommandLine false [['4', '2'], ['-', 'e', '5']] = .error .invalidArgument := by rfl

end Memleax
