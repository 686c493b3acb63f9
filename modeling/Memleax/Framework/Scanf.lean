import Mathlib.Algebra.Group.Nat.Defs
import Mathlib.Algebra.Ring.Int.Defs
import Mathlib.Data.List.Basic
import Mathlib.Data.List.DropRight
import Mathlib.Data.List.TakeWhile

/-!
# Formatted input

`sscanf` of the C standard, for the conversions `%x`, `%d` and `%s`, white space
and literal characters, and the numbers that `printf` and its like write.

A conversion that fails ends the scan, and the values so far are what has been
assigned. What the standard leaves undefined is `none`: a number that the object
cannot hold, and a word that is longer than the array.

A number that has been printed is scanned as that number (`takeNumber_printNat`).
-/

namespace Framework.Scanf

/-- `isspace` in the C locale. -/
def isSpace (c : Char) : Bool := c.toNat == 32 || (decide (9 ≤ c.toNat) && decide (c.toNat ≤ 13))

def skipSpace (input : List Char) : List Char := input.dropWhile isSpace

/-! ## Numbers -/

/-- The value of a digit, up to base 16. -/
def digitVal (c : Char) : Option Nat :=
  if 48 ≤ c.toNat ∧ c.toNat ≤ 57 then some (c.toNat - 48)
  else if 97 ≤ c.toNat ∧ c.toNat ≤ 102 then some (c.toNat - 87)
  else if 65 ≤ c.toNat ∧ c.toNat ≤ 70 then some (c.toNat - 55)
  else none

def isDigit (base : Nat) (c : Char) : Bool := (digitVal c).any fun d => decide (d < base)

def numeral (base : Nat) (digits : List Char) : Nat :=
  digits.foldl (fun n c => n * base + (digitVal c).getD 0) 0

def takeSign : List Char → Bool × List Char
  | '-' :: rest => (true, rest)
  | '+' :: rest => (false, rest)
  | input => (false, input)

/-- `0x` before a hexadecimal number. -/
def dropHexMark (base : Nat) : List Char → List Char
  | '0' :: 'x' :: rest => if base = 16 then rest else '0' :: 'x' :: rest
  | '0' :: 'X' :: rest => if base = 16 then rest else '0' :: 'X' :: rest
  | input => input

/-- The number at the front, as `strtol` reads it, and what follows. -/
def takeNumber (base : Nat) (input : List Char) : Option (Int × List Char) :=
  let signed := takeSign input
  let digits := dropHexMark base signed.2
  if digits.takeWhile (isDigit base) = [] then none
  else
    let n : Int := numeral base (digits.takeWhile (isDigit base))
    some (if signed.1 then -n else n, digits.dropWhile (isDigit base))

/-! ## `sscanf` -/

inductive Directive where
  /-- white space in the format, which matches any amount of it -/
  | space
  | literal (c : Char)
  /-- `%x` into an unsigned object of `bits` bits -/
  | hex (bits : Nat)
  /-- `%d` into a signed object of `bits` bits -/
  | dec (bits : Nat)
  /-- `%s` into an array of `size` characters -/
  | word (size : Nat)
deriving DecidableEq, Repr

inductive Value where
  | num (n : Int)
  | text (s : List Char)
deriving DecidableEq, Repr

/-- The values that are assigned. Their number is the result of `sscanf`, where 0 also
stands for `EOF`. -/
def scan : List Directive → List Char → Option (List Value)
  | [], _ => some []
  | .space :: fs, input => scan fs (skipSpace input)
  | .literal c :: fs, input =>
      match input with
      | [] => some []
      | first :: rest => if first = c then scan fs rest else some []
  | .hex bits :: fs, input =>
      match takeNumber 16 (skipSpace input) with
      | none => some []
      | some (n, rest) =>
          if n.natAbs < 2 ^ bits then (scan fs rest).map (Value.num n :: ·) else none
  | .dec bits :: fs, input =>
      match takeNumber 10 (skipSpace input) with
      | none => some []
      | some (n, rest) =>
          if -2 ^ (bits - 1) ≤ n ∧ n < 2 ^ (bits - 1) then (scan fs rest).map (Value.num n :: ·)
          else none
  | .word size :: fs, input =>
      let word := (skipSpace input).takeWhile fun c => !isSpace c
      if word = [] then some []
      else if word.length < size then
        (scan fs ((skipSpace input).dropWhile fun c => !isSpace c)).map (Value.text word :: ·)
      else none

/-! ## Printed numbers -/

/-- At least `width` digits. -/
def printNat (base width n : Nat) : List Char :=
  List.replicate (width - (Nat.toDigits base n).length) '0' ++ Nat.toDigits base n

theorem digitVal_digitChar {d : Nat} (h : d < 16) : digitVal d.digitChar = some d := by
  have hall : ∀ d : Fin 16, digitVal d.val.digitChar = some d.val := by decide
  exact hall ⟨d, h⟩

section Printing

variable {base : Nat} (hbase : 1 < base) (hle : base ≤ 16)

include hbase hle

theorem isDigit_digitChar {d : Nat} (h : d < base) : isDigit base d.digitChar = true := by
  rw [isDigit, digitVal_digitChar (by omega)]
  simpa using h

theorem isDigit_of_mem_toDigits (n : Nat) : ∀ c ∈ Nat.toDigits base n, isDigit base c = true := by
  induction n using Nat.strongRecOn with
  | ind n ih =>
      intro c hc
      rw [Nat.toDigits_eq_if hbase] at hc
      split at hc
      · rename_i hlt
        rw [List.mem_singleton.mp hc]
        exact isDigit_digitChar hbase hle hlt
      · rcases List.mem_append.mp hc with hc | hc
        · exact ih (n / base) (Nat.div_lt_self (by omega) hbase) c hc
        · rw [List.mem_singleton.mp hc]
          exact isDigit_digitChar hbase hle (Nat.mod_lt _ (by omega))

theorem numeral_toDigits (n : Nat) : numeral base (Nat.toDigits base n) = n := by
  induction n using Nat.strongRecOn with
  | ind n ih =>
      rw [Nat.toDigits_eq_if hbase]
      split
      · rename_i hlt
        simp [numeral, digitVal_digitChar (Nat.lt_of_lt_of_le hlt hle)]
      · have hrest := ih (n / base) (Nat.div_lt_self (by omega) hbase)
        have hlast := Nat.mod_lt n (show 0 < base by omega)
        rw [numeral] at hrest
        rw [numeral, List.foldl_append, hrest, List.foldl_cons, List.foldl_nil,
          digitVal_digitChar (Nat.lt_of_lt_of_le hlast hle), Option.getD_some, Nat.mul_comm]
        exact Nat.div_add_mod n base

theorem isDigit_zero : isDigit base '0' = true := by
  rw [isDigit, show digitVal '0' = some 0 from rfl]
  simpa using by omega

theorem isDigit_of_mem_printNat (width n : Nat) :
    ∀ c ∈ printNat base width n, isDigit base c = true := by
  intro c hc
  rcases List.mem_append.mp hc with hc | hc
  · rw [List.eq_of_mem_replicate hc]
    exact isDigit_zero hbase hle
  · exact isDigit_of_mem_toDigits hbase hle n c hc

theorem numeral_printNat (width n : Nat) : numeral base (printNat base width n) = n := by
  have hzeros (k : Nat) : (List.replicate k '0').foldl
      (fun n c => n * base + (digitVal c).getD 0) 0 = 0 := by
    induction k with
    | zero => rfl
    | succ k ih =>
        rw [List.replicate_succ, List.foldl_cons]
        simpa [digitVal] using ih
  rw [numeral, printNat, List.foldl_append, hzeros]
  exact numeral_toDigits hbase hle n

end Printing

theorem printNat_ne_nil (base width n : Nat) : printNat base width n ≠ [] := by
  simp [printNat]

/-- A character that no number goes on with. -/
def stops (c : Char) : Bool := !isDigit 16 c && c != 'x' && c != 'X'

theorem takeWhile_append_cons {p : Char → Bool} {front : List Char} (hfront : ∀ c ∈ front, p c = true)
    {c : Char} (hc : p c = false) (rest : List Char) :
    (front ++ c :: rest).takeWhile p = front ∧ (front ++ c :: rest).dropWhile p = c :: rest := by
  rw [List.takeWhile_append_of_pos hfront, List.dropWhile_append_of_pos hfront]
  simp [hc]

theorem isDigit_of_stops {base : Nat} (hle : base ≤ 16) {c : Char} (h : stops c = true) :
    isDigit base c = false := by
  simp only [stops, Bool.and_eq_true, Bool.not_eq_true', isDigit, Option.any_eq_false] at h
  rw [isDigit, Option.any_eq_false]
  intro d hd
  have hlarge := h.1.1 d hd
  simp only [decide_eq_false_iff_not] at hlarge ⊢
  omega

theorem takeSign_of_digit {base : Nat} {c : Char} (h : isDigit base c = true) (rest : List Char) :
    takeSign (c :: rest) = (false, c :: rest) := by
  unfold takeSign
  split
  · rename_i heq
    rw [(List.cons.inj heq).1] at h
    cases h
  · rename_i heq
    rw [(List.cons.inj heq).1] at h
    cases h
  · rfl

theorem dropHexMark_of_ne {base : Nat} {input : List Char}
    (h : ∀ c ∈ input[1]?, c ≠ 'x' ∧ c ≠ 'X') : dropHexMark base input = input := by
  unfold dropHexMark
  split
  · exact absurd rfl (h 'x' (by simp)).1
  · exact absurd rfl (h 'X' (by simp)).2
  · rfl

section Scanning

variable {base : Nat} (hle : base ≤ 16)

include hle

/-- Digits are not taken for a sign or a mark. -/
theorem takeNumber_digits {digits : List Char} (hdigits : ∀ c ∈ digits, isDigit base c = true)
    (hne : digits ≠ []) {c : Char} (hc : stops c = true) (rest : List Char) :
    takeNumber base (digits ++ c :: rest) = some ((numeral base digits : Int), c :: rest) := by
  have hsign : takeSign (digits ++ c :: rest) = (false, digits ++ c :: rest) := by
    cases digits with
    | nil => exact absurd rfl hne
    | cons d ds => exact takeSign_of_digit (hdigits d List.mem_cons_self) _
  have hmark : dropHexMark base (digits ++ c :: rest) = digits ++ c :: rest := by
    apply dropHexMark_of_ne
    intro x hx
    -- the second character is a digit or the one that stops
    rcases Nat.lt_or_ge 1 digits.length with h1 | h1
    · rw [List.getElem?_append_left h1] at hx
      have hdigit := hdigits x (List.mem_of_getElem? hx)
      constructor
      · rintro rfl
        cases hdigit
      · rintro rfl
        cases hdigit
    · have hlength : digits.length = 1 := by
        have hpos := List.length_pos_iff.mpr hne
        omega
      rw [List.getElem?_append_right h1, hlength] at hx
      cases hx
      simp only [stops, Bool.and_eq_true, bne_iff_ne, ne_eq] at hc
      exact ⟨hc.1.2, hc.2⟩
  obtain ⟨htake, hdrop⟩ := takeWhile_append_cons hdigits (isDigit_of_stops hle hc) rest
  simp [takeNumber, hsign, hmark, htake, hdrop, hne]

/-- **A printed number is scanned as that number.** -/
theorem takeNumber_printNat (hbase : 1 < base) (width n : Nat) {c : Char} (hc : stops c = true)
    (rest : List Char) :
    takeNumber base (printNat base width n ++ c :: rest) = some ((n : Int), c :: rest) := by
  rw [takeNumber_digits hle (isDigit_of_mem_printNat hbase hle width n)
    (printNat_ne_nil base width n) hc, numeral_printNat hbase hle]

end Scanning

theorem isSpace_of_isDigit {base : Nat} {c : Char} (h : isDigit base c = true) :
    isSpace c = false := by
  have hval : digitVal c ≠ none := by
    intro hnone
    rw [isDigit, hnone] at h
    cases h
  have hrange : 48 ≤ c.toNat := by
    unfold digitVal at hval
    grind
  simp only [isSpace, Bool.or_eq_false_iff, beq_eq_false_iff_ne, Bool.and_eq_false_iff,
    decide_eq_false_iff_not]
  omega

theorem skipSpace_of_not {input : List Char} (h : ∀ c ∈ input.head?, isSpace c = false) :
    skipSpace input = input := by
  cases input with
  | nil => rfl
  | cons c rest => rw [skipSpace, List.dropWhile_cons, h c rfl]; rfl

theorem skipSpace_spaces (k : Nat) (input : List Char) :
    skipSpace (List.replicate k ' ' ++ input) = skipSpace input := by
  rw [skipSpace, List.dropWhile_append_of_pos]
  · rfl
  · intro c hc
    rw [List.eq_of_mem_replicate hc]
    rfl

theorem skipSpace_printNat {base : Nat} (hbase : 1 < base) (hle : base ≤ 16) (width n : Nat)
    (rest : List Char) : skipSpace (printNat base width n ++ rest) = printNat base width n ++ rest := by
  apply skipSpace_of_not
  intro c hc
  rw [List.head?_append_of_ne_nil _ (printNat_ne_nil base width n)] at hc
  exact isSpace_of_isDigit (isDigit_of_mem_printNat hbase hle width n c (List.mem_of_mem_head? hc))

/-! ## Signed numbers up to the end -/

theorem dropHexMark_of_base {base : Nat} (h : base ≠ 16) (input : List Char) :
    dropHexMark base input = input := by
  unfold dropHexMark
  split
  · rw [if_neg h]
  · rw [if_neg h]
  · rfl

/-- Digits up to the end. -/
theorem takeNumber_all {base : Nat} {digits : List Char} (hbase : base ≠ 16)
    (hdigits : ∀ c ∈ digits, isDigit base c = true) (hne : digits ≠ []) :
    takeNumber base digits = some ((numeral base digits : Int), []) := by
  have hsign : takeSign digits = (false, digits) := by
    cases digits with
    | nil => exact absurd rfl hne
    | cons d ds => exact takeSign_of_digit (hdigits d List.mem_cons_self) _
  have hmark := dropHexMark_of_base hbase digits
  have htake : digits.takeWhile (isDigit base) = digits := List.takeWhile_eq_self_iff.mpr hdigits
  have hdrop : digits.dropWhile (isDigit base) = [] := List.dropWhile_eq_nil_iff.mpr hdigits
  simp [takeNumber, hsign, hmark, htake, hdrop, hne]

/-- `%d` -/
def printInt (n : Int) : List Char :=
  if n < 0 then '-' :: printNat 10 0 n.natAbs else printNat 10 0 n.natAbs

theorem skipSpace_printInt (n : Int) : skipSpace (printInt n) = printInt n := by
  rw [printInt]
  split
  · rfl
  · have hprint := skipSpace_printNat (by decide : 1 < 10) (by decide) 0 n.natAbs []
    rwa [List.append_nil] at hprint

/-- **A signed number is read as that number.** -/
theorem takeNumber_printInt (n : Int) : takeNumber 10 (printInt n) = some (n, []) := by
  have hdigits := isDigit_of_mem_printNat (by decide : 1 < 10) (by decide) 0 n.natAbs
  have habs : takeNumber 10 (printNat 10 0 n.natAbs) = some ((n.natAbs : Int), []) := by
    rw [takeNumber_all (by decide) hdigits (printNat_ne_nil 10 0 n.natAbs),
      numeral_printNat (by decide) (by decide)]
  rw [printInt]
  split
  · rename_i hneg
    have hminus : takeNumber 10 ('-' :: printNat 10 0 n.natAbs) =
        some (-(n.natAbs : Int), []) := by
      have hmark := dropHexMark_of_base (by decide : 10 ≠ 16) (printNat 10 0 n.natAbs)
      have htake := List.takeWhile_eq_self_iff.mpr hdigits
      have hdrop := List.dropWhile_eq_nil_iff.mpr hdigits
      have hne := printNat_ne_nil 10 0 n.natAbs
      simp [takeNumber, takeSign, hmark, htake, hdrop, hne,
        numeral_printNat (by decide : 1 < 10) (by decide)]
    rw [hminus]
    congr 2
    omega
  · rw [habs]
    congr 2
    omega

/-! ## Scans of what has been printed -/

section Scans

variable (fs : List Directive) (width n : Nat) {c : Char} (rest : List Char)

theorem scan_hex (bits : Nat) (hc : stops c = true) :
    scan (.hex bits :: fs) (printNat 16 width n ++ c :: rest) =
      if n < 2 ^ bits then (scan fs (c :: rest)).map (Value.num n :: ·) else none := by
  rw [scan, skipSpace_printNat (by decide) (by decide), takeNumber_printNat (by decide) (by decide)
    width n hc]
  simp

theorem scan_dec (bits : Nat) (hc : stops c = true) :
    scan (.dec bits :: fs) (printNat 10 width n ++ c :: rest) =
      if n < 2 ^ (bits - 1) then (scan fs (c :: rest)).map (Value.num n :: ·) else none := by
  have hfits : (-2 ^ (bits - 1) ≤ (n : Int) ∧ (n : Int) < 2 ^ (bits - 1)) ↔ n < 2 ^ (bits - 1) := by
    constructor
    · rintro ⟨-, h⟩
      exact_mod_cast h
    · intro h
      have hpos : (0 : Int) < 2 ^ (bits - 1) := Int.pow_pos (by decide)
      exact ⟨by omega, by exact_mod_cast h⟩
  rw [scan, skipSpace_printNat (by decide) (by decide), takeNumber_printNat (by decide) (by decide)
    width n hc]
  simp only [hfits]

theorem scan_literal : scan (.literal c :: fs) (c :: rest) = scan fs rest := by
  simp [scan]

theorem scan_space {base : Nat} (hbase : 1 < base) (hle : base ≤ 16) :
    scan (.space :: fs) (' ' :: (printNat base width n ++ rest)) =
      scan fs (printNat base width n ++ rest) := by
  have hskip : skipSpace (' ' :: (printNat base width n ++ rest)) = printNat base width n ++ rest :=
    skipSpace_printNat hbase hle width n rest
  rw [scan, hskip]

end Scans

/-! ## Words -/

/-- The word at the front. -/
def firstWord (input : List Char) : List Char := input.takeWhile fun c => !isSpace c

/-- What follows the first word and the white space after it. -/
def afterWord (input : List Char) : List Char :=
  skipSpace (input.dropWhile fun c => !isSpace c)

theorem skipSpace_afterWord (input : List Char) : skipSpace (afterWord input) = afterWord input :=
  List.dropWhile_idempotent _ _

theorem firstWord_append {front : List Char} (hfront : ∀ c ∈ front, isSpace c = false)
    (rest : List Char) : firstWord (front ++ rest) = front ++ firstWord rest := by
  rw [firstWord, List.takeWhile_append_of_pos]
  · rfl
  · simpa using hfront

theorem afterWord_append {front : List Char} (hfront : ∀ c ∈ front, isSpace c = false)
    (rest : List Char) : afterWord (front ++ rest) = afterWord rest := by
  rw [afterWord, List.dropWhile_append_of_pos]
  · rfl
  · simpa using hfront

/-- A text is one word exactly if it has no white space. -/
theorem firstWord_eq_self_iff {input : List Char} :
    firstWord input = input ↔ ∀ c ∈ input, isSpace c = false := by
  rw [firstWord, List.takeWhile_eq_self_iff]
  simp

/-- White space at the end does not change the words. -/
theorem firstWord_concat (input : List Char) {c : Char} (hc : isSpace c = true) :
    firstWord (input ++ [c]) = firstWord input := by
  induction input with
  | nil => simp [firstWord, hc]
  | cons x input ih =>
      simp only [firstWord, List.cons_append, List.takeWhile_cons] at ih ⊢
      split
      · rw [ih]
      · rfl

theorem firstWord_skipSpace_concat (input : List Char) {c : Char} (hc : isSpace c = true) :
    firstWord (skipSpace (input ++ [c])) = firstWord (skipSpace input) := by
  induction input with
  | nil => simp [skipSpace, hc]
  | cons x input ih =>
      simp only [skipSpace, List.cons_append, List.dropWhile_cons] at ih ⊢
      split
      · exact ih
      · exact firstWord_concat (x :: input) hc

theorem firstWord_afterWord_concat (input : List Char) {c : Char} (hc : isSpace c = true) :
    firstWord (afterWord (input ++ [c])) = firstWord (afterWord input) := by
  induction input with
  | nil => simp [afterWord, skipSpace, hc]
  | cons x input ih =>
      by_cases hx : isSpace x = true
      · have hspace (rest : List Char) : afterWord (x :: rest) = skipSpace (x :: rest) := by
          simp [afterWord, hx]
        rw [List.cons_append, hspace, hspace]
        exact firstWord_skipSpace_concat (x :: input) hc
      · have hword (rest : List Char) : afterWord (x :: rest) = afterWord rest := by
          simp [afterWord, hx]
        rw [List.cons_append, hword, hword]
        exact ih

theorem firstWord_skipSpace_eq_nil_iff {input : List Char} :
    firstWord (skipSpace input) = [] ↔ ∀ c ∈ input, isSpace c = true := by
  induction input with
  | nil => simp [skipSpace, firstWord]
  | cons x input ih =>
      by_cases hx : isSpace x = true
      · have hskip : skipSpace (x :: input) = skipSpace input := by simp [skipSpace, hx]
        rw [hskip, ih]
        simp [hx]
      · simp [skipSpace, firstWord, hx]

/-- A word behind white space is a second word. -/
theorem firstWord_afterWord_ne_nil (input rest : List Char) {c : Char} (hc : isSpace c = false) :
    firstWord (afterWord (input ++ ' ' :: c :: rest)) ≠ [] := by
  intro hnil
  have hall := firstWord_skipSpace_eq_nil_iff.mp hnil
  have hmem : c ∈ (input ++ ' ' :: c :: rest).dropWhile fun c => !isSpace c := by
    rw [List.dropWhile_append]
    split
    · exact List.mem_cons_of_mem _ List.mem_cons_self
    · simp
  rw [hall c hmem] at hc
  cases hc

theorem scan_word (fs : List Directive) (size : Nat) (input : List Char) :
    scan (.word size :: fs) input =
      if firstWord (skipSpace input) = [] then some []
      else if (firstWord (skipSpace input)).length < size then
        (scan fs ((skipSpace input).dropWhile fun c => !isSpace c)).map
          (Value.text (firstWord (skipSpace input)) :: ·)
      else none := by
  rw [scan]
  rfl

end Framework.Scanf
