import Mathlib.Data.List.Basic

/-!
# getopt

The elements of a command line, as `getopt` takes them apart: an element that
begins with `-` holds options, one letter each, and the argument of an option is
the rest of its element or else the next element, whatever that is. `--` ends the
options. With `permute` the operands between the options are put behind them, as
GNU does it; without, the first operand ends the options, as POSIX has it.

`Reads` is the grammar of the command lines in which every option is known and
has its argument. `getopt` answers a command line with known options only exactly
if the grammar reads it so (`getopt_eq_iff`), and it reads it in one way.
-/

namespace Framework.Getopt

/-- What `optstring` says about a letter: whether it is an option, and with an argument. -/
def lookup : List Char → Char → Option Bool
  | [], _ => none
  | c :: rest, letter =>
      if c = ':' then lookup rest letter
      else if c = letter then some (rest.head? == some ':')
      else lookup rest letter

/-- An answer of `getopt`. The last two are `'?'`. -/
inductive Answer where
  | flag (letter : Char)
  | value (letter : Char) (optarg : List Char)
  | unknown (letter : Char)
  | missing (letter : Char)
deriving DecidableEq, Repr

def Answer.Known : Answer → Prop
  | .flag _ | .value _ _ => True
  | .unknown _ | .missing _ => False

instance : (answer : Answer) → Decidable answer.Known
  | .flag _ | .value _ _ => inferInstanceAs (Decidable True)
  | .unknown _ | .missing _ => inferInstanceAs (Decidable False)

/-- The argument, if the answer is this option. -/
def Answer.optargOf (letter : Char) : Answer → Option (List Char)
  | .value other optarg => if other = letter then some optarg else none
  | .flag _ | .unknown _ | .missing _ => none

/-- The last argument of an option. -/
def lastOptarg (letter : Char) (answers : List Answer) : Option (List Char) :=
  (answers.filterMap (Answer.optargOf letter)).getLast?

theorem lastOptarg_concat (letter : Char) (answers : List Answer) (answer : Answer) :
    lastOptarg letter (answers ++ [answer]) =
      (answer.optargOf letter).or (lastOptarg letter answers) := by
  rw [lastOptarg, List.filterMap_append]
  cases h : answer.optargOf letter with
  | none => simp [h, lastOptarg]
  | some optarg => simp [h]

theorem mem_of_lastOptarg {letter : Char} {answers : List Answer} {optarg : List Char}
    (h : lastOptarg letter answers = some optarg) : .value letter optarg ∈ answers := by
  obtain ⟨answer, hanswer, hoptarg⟩ := List.mem_filterMap.mp (List.mem_of_getLast? h)
  cases answer with
  | value other arg =>
      rw [Answer.optargOf] at hoptarg
      split at hoptarg
      · rename_i hletter
        rw [hletter, Option.some.inj hoptarg] at hanswer
        exact hanswer
      · cases hoptarg
  | _ => cases hoptarg

variable (optstring : List Char) (permute : Bool)

/-- The letters of one element, up to an option that takes the next element. -/
def letters : List Char → List Answer × Option Char
  | [] => ([], none)
  | c :: rest =>
      match lookup optstring c with
      | none => (.unknown c :: (letters rest).1, (letters rest).2)
      | some false => (.flag c :: (letters rest).1, (letters rest).2)
      | some true => if rest = [] then ([], some c) else ([.value c rest], none)

/-- `-x…`: options, and not `-` alone. -/
def optionLetters : List Char → Option (List Char)
  | '-' :: c :: rest => some (c :: rest)
  | _ => none

/-- All answers of `getopt` until it returns -1, and the elements from `optind` on then. -/
def getopt : List (List Char) → List Answer × List (List Char)
  | [] => ([], [])
  | element :: rest =>
      if element = ['-', '-'] then ([], rest)
      else match optionLetters element with
        | none =>
            if permute then ((getopt rest).1, element :: (getopt rest).2) else ([], element :: rest)
        | some cs =>
            match letters optstring cs, rest with
            | (answers, none), rest => (answers ++ (getopt rest).1, (getopt rest).2)
            | (answers, some c), [] => (answers ++ [.missing c], [])
            | (answers, some c), optarg :: rest =>
                (answers ++ .value c optarg :: (getopt rest).1, (getopt rest).2)

/-! ## The grammar -/

/-- An element with options: the letters, and the argument that is still to come. -/
inductive ReadsLetters : List Char → List Answer → Option Char → Prop
  | nil : ReadsLetters [] [] none
  | flag {c : Char} {rest : List Char} {answers : List Answer} {pending : Option Char}
      (hc : lookup optstring c = some false) (h : ReadsLetters rest answers pending) :
      ReadsLetters (c :: rest) (.flag c :: answers) pending
  | attached {c : Char} {optarg : List Char} (hc : lookup optstring c = some true)
      (harg : optarg ≠ []) : ReadsLetters (c :: optarg) [.value c optarg] none
  | separate {c : Char} (hc : lookup optstring c = some true) : ReadsLetters [c] [] (some c)

/-- A command line, with its options and operands in order. -/
inductive Reads : List (List Char) → List Answer → List (List Char) → Prop
  | nil : Reads [] [] []
  | dashes (rest : List (List Char)) : Reads (['-', '-'] :: rest) [] rest
  | stop {element : List Char} (rest : List (List Char)) (hoperand : optionLetters element = none)
      (hposix : permute = false) : Reads (element :: rest) [] (element :: rest)
  | operand {element : List Char} {rest operands : List (List Char)} {answers : List Answer}
      (hoperand : optionLetters element = none) (hgnu : permute = true)
      (h : Reads rest answers operands) : Reads (element :: rest) answers (element :: operands)
  | element {cs : List Char} {rest operands : List (List Char)} {here answers : List Answer}
      (hne : cs ≠ []) (hdash : cs ≠ ['-']) (hletters : ReadsLetters optstring cs here none)
      (h : Reads rest answers operands) : Reads (('-' :: cs) :: rest) (here ++ answers) operands
  | elements {cs optarg : List Char} {rest operands : List (List Char)} {here answers : List Answer}
      {c : Char} (hdash : cs ≠ ['-']) (hletters : ReadsLetters optstring cs here (some c))
      (h : Reads rest answers operands) :
      Reads (('-' :: cs) :: optarg :: rest) (here ++ .value c optarg :: answers) operands

variable {optstring permute}

theorem optionLetters_eq_some_iff {element cs : List Char} :
    optionLetters element = some cs ↔ element = '-' :: cs ∧ cs ≠ [] := by
  unfold optionLetters
  split
  · rename_i c rest
    constructor
    · rintro ⟨⟩
      exact ⟨rfl, List.cons_ne_nil _ _⟩
    · rintro ⟨heq, -⟩
      exact congrArg some (List.cons.inj heq).2
  · rename_i hnot
    constructor
    · rintro ⟨⟩
    · rintro ⟨rfl, hne⟩
      obtain ⟨c, rest, rfl⟩ := List.exists_cons_of_ne_nil hne
      exact absurd rfl (hnot c rest)

theorem ReadsLetters.ne_nil {cs : List Char} {here : List Answer} {c : Char}
    (h : ReadsLetters optstring cs here (some c)) : cs ≠ [] := by
  cases h with
  | flag => exact List.cons_ne_nil _ _
  | separate => exact List.cons_ne_nil _ _

theorem ReadsLetters.known {cs : List Char} {answers : List Answer} {pending : Option Char}
    (h : ReadsLetters optstring cs answers pending) : ∀ a ∈ answers, a.Known := by
  induction h with
  | nil => exact List.forall_mem_nil _
  | flag _ _ ih => exact List.forall_mem_cons.mpr ⟨trivial, ih⟩
  | attached => exact List.forall_mem_cons.mpr ⟨trivial, List.forall_mem_nil _⟩
  | separate => exact List.forall_mem_nil _

theorem letters_of_reads {cs : List Char} {answers : List Answer} {pending : Option Char}
    (h : ReadsLetters optstring cs answers pending) :
    letters optstring cs = (answers, pending) := by
  induction h with
  | nil => rfl
  | flag hc _ ih => rw [letters, hc, ih]
  | attached hc harg => simp only [letters, hc, if_neg harg]
  | separate hc => simp only [letters, hc, if_true]

theorem reads_letters {cs : List Char} (h : ∀ a ∈ (letters optstring cs).1, a.Known) :
    ReadsLetters optstring cs (letters optstring cs).1 (letters optstring cs).2 := by
  induction cs with
  | nil => exact .nil
  | cons c rest ih =>
      rw [letters] at h ⊢
      cases hc : lookup optstring c with
      | none =>
          rw [hc] at h
          exact absurd (h _ List.mem_cons_self) not_false
      | some takes =>
          cases takes with
          | false =>
              rw [hc] at h
              exact .flag hc (ih fun a ha => h a (List.mem_cons_of_mem _ ha))
          | true =>
              by_cases hrest : rest = []
              · subst hrest
                exact .separate hc
              · simp only [if_neg hrest]
                exact .attached hc hrest

/-- An option with its argument in the next element. -/
theorem Reads.separate {letter : Char} {optarg : List Char} {rest operands : List (List Char)}
    {answers : List Answer} (hdash : letter ≠ '-') (hletter : lookup optstring letter = some true)
    (h : Reads optstring permute rest answers operands) :
    Reads optstring permute (['-', letter] :: optarg :: rest) (.value letter optarg :: answers)
      operands :=
  .elements (by simpa using hdash) (.separate hletter) h

/-! ## The grammar is what `getopt` does -/

theorem Reads.known {argv : List (List Char)} {answers : List Answer}
    {operands : List (List Char)} (h : Reads optstring permute argv answers operands) :
    ∀ a ∈ answers, a.Known := by
  induction h with
  | nil => exact List.forall_mem_nil _
  | dashes => exact List.forall_mem_nil _
  | stop => exact List.forall_mem_nil _
  | operand _ _ _ ih => exact ih
  | element _ _ hletters _ ih =>
      exact List.forall_mem_append.mpr ⟨hletters.known, ih⟩
  | elements _ hletters _ ih =>
      exact List.forall_mem_append.mpr ⟨hletters.known, List.forall_mem_cons.mpr ⟨trivial, ih⟩⟩

theorem getopt_of_reads {argv : List (List Char)} {answers : List Answer}
    {operands : List (List Char)} (h : Reads optstring permute argv answers operands) :
    getopt optstring permute argv = (answers, operands) := by
  induction h with
  | nil => rfl
  | dashes rest => simp [getopt]
  | @stop element rest hoperand hposix =>
      have hne : element ≠ ['-', '-'] := by
        rintro rfl
        cases hoperand
      simp [getopt, hne, hoperand, hposix]
  | @operand element rest operands answers hoperand hgnu _ ih =>
      have hne : element ≠ ['-', '-'] := by
        rintro rfl
        cases hoperand
      simp only [getopt, if_neg hne, hoperand, if_pos hgnu, ih]
  | @element cs rest operands here answers hne hdash hletters _ ih =>
      have hoptions : optionLetters ('-' :: cs) = some cs :=
        optionLetters_eq_some_iff.mpr ⟨rfl, hne⟩
      have hnot : '-' :: cs ≠ ['-', '-'] := fun heq => hdash (List.cons.inj heq).2
      simp only [getopt, if_neg hnot, hoptions, letters_of_reads hletters, ih]
  | @elements cs optarg rest operands here answers c hdash hletters _ ih =>
      have hoptions : optionLetters ('-' :: cs) = some cs :=
        optionLetters_eq_some_iff.mpr ⟨rfl, hletters.ne_nil⟩
      have hnot : '-' :: cs ≠ ['-', '-'] := fun heq => hdash (List.cons.inj heq).2
      simp only [getopt, if_neg hnot, hoptions, letters_of_reads hletters, ih]

theorem reads_getopt {argv : List (List Char)}
    (h : ∀ a ∈ (getopt optstring permute argv).1, a.Known) :
    Reads optstring permute argv (getopt optstring permute argv).1
      (getopt optstring permute argv).2 := by
  fun_induction getopt optstring permute argv with
  | case1 => exact .nil
  | case2 rest => exact .dashes rest
  | case3 element rest hdashes hoperand hgnu ih => exact .operand hoperand hgnu (ih h)
  | case4 element rest hdashes hoperand hposix =>
      exact .stop rest hoperand (by simpa using hposix)
  | case5 element hdashes cs hoptions answers rest hletters ih =>
      obtain ⟨rfl, hne⟩ := optionLetters_eq_some_iff.mp hoptions
      rw [List.forall_mem_append] at h
      have hcs : (∀ a ∈ answers, a.Known) → ReadsLetters optstring cs answers none := by
        simpa only [hletters] using @reads_letters optstring cs
      exact .element hne (fun heq => hdashes (heq ▸ rfl)) (hcs h.1) (ih h.2)
  | case6 element hdashes cs hoptions answers c hletters =>
      exact absurd (h (.missing c) (by simp)) not_false
  | case7 element hdashes cs hoptions answers c optarg rest hletters ih =>
      obtain ⟨rfl, hne⟩ := optionLetters_eq_some_iff.mp hoptions
      rw [List.forall_mem_append, List.forall_mem_cons] at h
      have hcs : (∀ a ∈ answers, a.Known) → ReadsLetters optstring cs answers (some c) := by
        simpa only [hletters] using @reads_letters optstring cs
      exact .elements (fun heq => hdashes (heq ▸ rfl)) (hcs h.1) (ih h.2.2)

/-- **`getopt` reads the grammar**, and nothing else without a complaint. -/
theorem getopt_eq_iff {argv : List (List Char)} {answers : List Answer}
    {operands : List (List Char)} :
    getopt optstring permute argv = (answers, operands) ∧ (∀ a ∈ answers, a.Known) ↔
      Reads optstring permute argv answers operands := by
  constructor
  · rintro ⟨hgetopt, hknown⟩
    have hreads : (∀ a ∈ answers, a.Known) → Reads optstring permute argv answers operands := by
      simpa only [hgetopt] using @reads_getopt optstring permute argv
    exact hreads hknown
  · intro h
    exact ⟨getopt_of_reads h, h.known⟩

end Framework.Getopt
