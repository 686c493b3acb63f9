import Memleax.Framework.Scanf
import Memleax.Store.CallstackIdentity
import Memleax.Tracer.System
import Memleax.Tracer.ThreadSpaces

/-!
# The limit of backtrace levels

`main` takes the limit from `-l`, `callstack_current` gives the unwinder a buffer of
`opt_backtrace_limit - 1` elements behind the entry address, and the loop of
`ptr_backtrace` writes to the buffer before it looks at its size.

`main` refuses 0 and what is beyond `BACKTRACE_MAX`. With a limit of 1 and with a
negative one there is no room behind the entry address, and one frame is written all the
same (`backtrace_limit_iff`).
-/

namespace Memleax

open Framework

/-! ## The options of `main` -/

/-- What `getopt(argc, argv, "hve:d:l:m:c:")` returns, with `optarg`. -/
inductive Opt where
  | help
  | version
  | expire (optarg : List Char)
  | debugInfoFile (optarg : List Char)
  | backtraceLimit (optarg : List Char)
  | memblockLimit (optarg : List Char)
  | callstackLimit (optarg : List Char)
  | unknown
deriving DecidableEq, Repr

structure Options where
  limits : Limits := defaultLimits
  backtraceLimit : CInt := BitVec.ofNat 32 backtraceMax
  debugInfoFile : Option (List Char) := none
deriving DecidableEq, Repr

/-- A `return` out of the options. -/
inductive Quit where
  | help
  | version
  /-- `printf(format, optarg)` -/
  | invalid (format : String) (optarg : List Char)
  | usage
deriving DecidableEq, Repr

def Quit.status : Quit → Nat
  | .help | .version => 0
  | .invalid _ _ | .usage => 1

/-- `(int)strtol(nptr, NULL, 10)`, where `strtol` stops at the ends of `long`. -/
def atoi (nptr : List Char) : CInt :=
  match Scanf.takeNumber 10 (Scanf.skipSpace nptr) with
  | none => 0
  | some (n, _) => BitVec.ofInt 32 (max (-2 ^ 63) (min n (2 ^ 63 - 1)))

/-- A number that is not 0. -/
def numberOption (format : String) (optarg : List Char) : Except Quit CInt :=
  if atoi optarg = 0 then .error (.invalid format optarg) else .ok (atoi optarg)

def parseOption (o : Options) : Opt → Except Quit Options
  | .expire optarg =>
      (numberOption "invalid expire: %s\n" optarg).map fun expire =>
        { o with limits := { o.limits with expire := expire.toInt } }
  | .debugInfoFile optarg => .ok { o with debugInfoFile := some optarg }
  | .backtraceLimit optarg =>
      (numberOption "invalid backtrace limit: %s\n" optarg).bind fun limit =>
        if limit.toInt > backtraceMax then .error (.invalid "too big backtrace limit: %s\n" optarg)
        else .ok { o with backtraceLimit := limit }
  | .memblockLimit optarg =>
      (numberOption "invalid memblock_limit: %s\n" optarg).map fun limit =>
        { o with limits := { o.limits with memblockLimit := limit } }
  | .callstackLimit optarg =>
      (numberOption "invalid callstack_limit: %s\n" optarg).map fun limit =>
        { o with limits := { o.limits with callstackLimit := limit } }
  | .help => .error .help
  | .version => .error .version
  | .unknown => .error .usage

def parseOptions (opts : List Opt) : Except Quit Options := opts.foldlM parseOption {}

/-- `limit` is a value of `opt_backtrace_limit` after the options. -/
def Accepted (limit : CInt) : Prop := ∃ opts o, parseOptions opts = .ok o ∧ o.backtraceLimit = limit

/-! ## `callstack_current` and the loop of `ptr_backtrace` -/

/-- An unwinder: the program counter of each frame, and whether `unw_step` leads from
it to the next one. -/
structure Unwinder where
  ip : Nat → Word
  steps : Nat → Bool

/-- The words that are written to `ips`, from element `i` on. -/
def backtraceLoop (u : Unwinder) (size : Int) (i : Nat) : List Word :=
  u.ip i :: if (i + 1 : Nat) < size ∧ u.steps i = true then backtraceLoop u size (i + 1) else []
termination_by (size - i).toNat
decreasing_by omega

/-- The beginning of `callstack_current`. -/
structure Recording where
  /-- the elements of `ips` that are written, with the words -/
  writes : List (Nat × Word)
  ipNum : Nat

/-- The buffer of the unwinder begins behind the entry address. `INT_MIN - 1` wraps
around. -/
def recordCallstack (entry : Word) (limit : CInt) (u : Unwinder) : Recording :=
  let frames := backtraceLoop u (limit - 1).toInt 0
  { writes := (0, entry) :: frames.zipIdx.map fun frame => (1 + frame.2, frame.1)
    ipNum := frames.length + 1 }

/-- The elements are those of the array, and their number is within the limit. -/
structure Recording.Right (limit : CInt) (r : Recording) : Prop where
  inside : ∀ w ∈ r.writes, w.1 < backtraceMax
  nonempty : 1 ≤ r.ipNum
  limited : (r.ipNum : Int) ≤ limit.toInt

/-! ## What `main` accepts -/

/-- The values that pass both checks. -/
def LimitChecked (limit : CInt) : Prop := limit ≠ 0 ∧ limit.toInt ≤ backtraceMax

theorem numberOption_cases (format : String) (optarg : List Char) :
    numberOption format optarg = .error (.invalid format optarg) ∨
      ∃ n, n ≠ 0 ∧ numberOption format optarg = .ok n := by
  rw [numberOption]
  split
  · exact Or.inl rfl
  · rename_i hne
    exact Or.inr ⟨_, hne, rfl⟩

theorem limitChecked_parseOption {o o' : Options} {opt : Opt} (h : parseOption o opt = .ok o')
    (ho : LimitChecked o.backtraceLimit) : LimitChecked o'.backtraceLimit := by
  -- the other numbers leave the limit alone
  have hmap {format : String} {optarg : List Char} {f : CInt → Options}
      (h : (numberOption format optarg).map f = .ok o')
      (hf : ∀ n, (f n).backtraceLimit = o.backtraceLimit) : LimitChecked o'.backtraceLimit := by
    rcases numberOption_cases format optarg with herror | ⟨n, -, hok⟩
    · rw [herror] at h
      cases h
    · rw [hok] at h
      cases h
      rw [hf]
      exact ho
  cases opt with
  | expire optarg => exact hmap h fun _ => rfl
  | memblockLimit optarg => exact hmap h fun _ => rfl
  | callstackLimit optarg => exact hmap h fun _ => rfl
  | debugInfoFile optarg =>
      cases h
      exact ho
  | backtraceLimit optarg =>
      rw [parseOption] at h
      rcases numberOption_cases "invalid backtrace limit: %s\n" optarg with herror | ⟨n, hne, hok⟩
      · rw [herror] at h
        cases h
      · rw [hok, Except.bind] at h
        split at h
        · cases h
        · rename_i hsmall
          cases h
          exact ⟨hne, not_lt.mp hsmall⟩
  | help => cases h
  | version => cases h
  | unknown => cases h

theorem limitChecked_of_accepted {limit : CInt} (h : Accepted limit) : LimitChecked limit := by
  obtain ⟨opts, o, hparse, rfl⟩ := h
  have hrun : ∀ (opts : List Opt) (first : Options), LimitChecked first.backtraceLimit →
      opts.foldlM parseOption first = .ok o → LimitChecked o.backtraceLimit := by
    intro opts
    induction opts with
    | nil =>
        intro first hfirst h
        cases h
        exact hfirst
    | cons opt opts ih =>
        intro first hfirst h
        rw [List.foldlM_cons] at h
        cases hopt : parseOption first opt with
        | error quit =>
            rw [hopt] at h
            cases h
        | ok next =>
            rw [hopt] at h
            exact ih next (limitChecked_parseOption hopt hfirst) h
  exact hrun opts {} ⟨by decide, by decide⟩ hparse

/-! ## The frames -/

section Frames

variable (u : Unwinder) (size : Int)

theorem backtraceLoop_length_pos (i : Nat) : 0 < (backtraceLoop u size i).length := by
  rw [backtraceLoop]
  exact Nat.succ_pos _

theorem backtraceLoop_length_le (i : Nat) :
    ((backtraceLoop u size i).length : Int) ≤ max 1 (size - i) := by
  fun_induction backtraceLoop u size i with
  | case1 i ih =>
      rw [List.length_cons]
      by_cases h : (i + 1 : Nat) < size ∧ u.steps i = true
      · have hrest := ih h
        rw [if_pos h]
        omega
      · rw [if_neg h, List.length_nil]
        omega

end Frames

section Recording

variable (entry : Word) (limit : CInt) (u : Unwinder)

theorem mem_writes {w : Nat × Word} (h : w ∈ (recordCallstack entry limit u).writes) :
    w.1 < (recordCallstack entry limit u).ipNum := by
  rcases List.mem_cons.mp h with rfl | h
  · exact Nat.succ_pos _
  · obtain ⟨frame, hframe, rfl⟩ := List.mem_map.mp h
    have hindex := List.snd_lt_of_mem_zipIdx hframe
    show 1 + frame.2 < (backtraceLoop u (limit - 1).toInt 0).length + 1
    omega

theorem two_le_ipNum : 2 ≤ (recordCallstack entry limit u).ipNum :=
  Nat.succ_le_succ (backtraceLoop_length_pos u _ 0)

/-- With room for one frame the limit is kept. -/
theorem ipNum_le (h : 2 ≤ limit.toInt) :
    ((recordCallstack entry limit u).ipNum : Int) ≤ limit.toInt := by
  have hone : (1 : CInt).toInt = 1 := by decide
  have hsize : (limit - 1).toInt = limit.toInt - 1 := by
    rw [BitVec.toInt_sub, hone]
    apply Int.bmod_eq_of_le
    · omega
    · have hlt := BitVec.toInt_lt (x := limit)
      omega
  have hlength := backtraceLoop_length_le u (limit - 1).toInt 0
  show (((backtraceLoop u (limit - 1).toInt 0).length + 1 : Nat) : Int) ≤ limit.toInt
  omega

end Recording

/-- **The limit is kept** by every unwinder, exactly if there is room for a frame behind
the entry address. -/
theorem backtrace_limit_iff {limit : CInt} (haccepted : Accepted limit) (entry : Word)
    (u : Unwinder) : (recordCallstack entry limit u).Right limit ↔ 2 ≤ limit.toInt := by
  constructor
  · intro hright
    have htwo := two_le_ipNum entry limit u
    have hlimited := hright.limited
    omega
  · intro hroom
    have hlimited := ipNum_le entry limit u hroom
    refine ⟨?_, ?_, hlimited⟩
    · intro w hw
      have hindex := mem_writes entry limit u hw
      have hmax := (limitChecked_of_accepted haccepted).2
      omega
    · exact (two_le_ipNum entry limit u).trans' (by decide)

/-- A stack without an end. -/
def endlessStack : Unwinder where
  ip k := BitVec.ofNat 64 (0x2000 + k)
  steps _ := true

/-- `-l 10` -/
theorem backtrace_limit_iff_ten :
    Accepted 10 ∧ (recordCallstack 0x1000 10 endlessStack).Right 10 := by
  have haccepted : Accepted 10 := ⟨[.backtraceLimit ['1', '0']], _, rfl, by decide⟩
  exact ⟨haccepted, (backtrace_limit_iff haccepted 0x1000 endlessStack).mpr (by decide)⟩

/-- `-l 1` records two frames. -/
theorem backtrace_limit_one :
    Accepted 1 ∧ ¬ (recordCallstack 0x1000 1 endlessStack).Right 1 := by
  refine ⟨⟨[.backtraceLimit ['1']], _, rfl, by decide⟩, ?_⟩
  intro hright
  have htwo := two_le_ipNum 0x1000 1 endlessStack
  have hlimited := hright.limited
  rw [show (1 : CInt).toInt = 1 by decide] at hlimited
  omega

/-- So does a negative limit, which `main` accepts as well. -/
example : Accepted (-1) := ⟨[.backtraceLimit ['-', '1']], _, rfl, by decide⟩

/-! ## What is looked up -/

/-- The words of a recording, as `callstack_current` looks them up. -/
def Recording.ips (r : Recording) : List Word := r.writes.map Prod.snd

theorem recordCallstack_ips (entry : Word) (limit : CInt) (u : Unwinder) :
    (recordCallstack entry limit u).ips = entry :: backtraceLoop u (limit - 1).toInt 0 := by
  have hcomp : (Prod.snd ∘ fun frame : Word × Nat => (1 + frame.2, frame.1)) = Prod.fst := rfl
  show entry :: ((backtraceLoop u (limit - 1).toInt 0).zipIdx.map _).map Prod.snd = _
  rw [List.map_map, hcomp, List.zipIdx_map_fst]

theorem length_ips (entry : Word) (limit : CInt) (u : Unwinder) :
    (recordCallstack entry limit u).ips.length = (recordCallstack entry limit u).ipNum := by
  rw [recordCallstack_ips]
  rfl

/-- A recording within the limit is a backtrace that can be looked up. -/
def recordedBacktrace (entry : Word) {limit : CInt} (hlimit : LimitChecked limit)
    (hroom : 2 ≤ limit.toInt) (u : Unwinder) : Backtrace where
  ips := (recordCallstack entry limit u).ips
  nonempty := by
    rw [length_ips]
    exact Nat.lt_of_lt_of_le (by decide) (two_le_ipNum entry limit u)
  bounded := by
    have hle := ipNum_le entry limit u hroom
    have hmax := hlimit.2
    rw [length_ips]
    omega

/-- A stack with these callers. -/
def Unwinder.ofCallers (ip : Word) (callers : List Word) : Unwinder where
  ip k := ((ip :: callers)[k]?).getD 0
  steps k := decide (k < callers.length)

theorem backtraceLoop_eq_unwindLoop (size : Int) {u : Unwinder} {callers : List Word} :
    ∀ {i : Nat} {ip : Word}, (∀ k, u.ip (i + k) = ((ip :: callers)[k]?).getD 0) →
      (∀ k, u.steps (i + k) = decide (k < callers.length)) →
      backtraceLoop u size i = unwindLoop size i ip callers := by
  induction callers with
  | nil =>
      intro i ip hip hsteps
      have hfirst : u.ip i = ip := hip 0
      have hlast : u.steps i = false := hsteps 0
      rw [backtraceLoop, unwindLoop, hfirst, hlast]
      simp
  | cons caller callers ih =>
      intro i ip hip hsteps
      have hfirst : u.ip i = ip := hip 0
      have hnext : u.steps i = true := hsteps 0
      have hrest : backtraceLoop u size (i + 1) = unwindLoop size ((i + 1 : Nat) : Int) caller callers := by
        apply ih
        · intro k
          have hk := hip (k + 1)
          rw [← Nat.add_assoc, Nat.add_right_comm] at hk
          exact hk
        · intro k
          have hk := hsteps (k + 1)
          rw [← Nat.add_assoc, Nat.add_right_comm] at hk
          rw [hk]
          simp
      rw [backtraceLoop, unwindLoop, hfirst, hnext, hrest, Int.natCast_add, Int.natCast_one]
      by_cases hsize : (i : Int) + 1 < size
      · simp [hsize]
      · simp [hsize]

/-- The loop of `ptrBacktrace` is this one, for a stack that ends. -/
theorem backtraceLoop_ofCallers (size : Int) (ip : Word) (callers : List Word) :
    backtraceLoop (.ofCallers ip callers) size 0 = unwindLoop size 0 ip callers := by
  apply backtraceLoop_eq_unwindLoop
  · intro k
    rw [Nat.zero_add]
    rfl
  · intro k
    rw [Nat.zero_add]
    rfl

end Memleax
