import Memleax.Framework.ByteMemory

/-!
# Programs of several threads

A processor executes the instruction at the program counter of a thread, which
it reads from the text; the kernel delivers signals and creates threads. The
threads share their data, and nobody writes the text: `Process.step` and
`Process.Allowed` are the runs of a program on its own.

Some other text will do as well if it has the same bytes wherever an
instruction is read, for example one with other bytes planted elsewhere
(`Processor.executes_planted`).
-/

namespace Framework

/-- A processor and a kernel. `ρ` are the registers of a thread and `δ` the data. -/
structure Processor (w : Nat) (ρ δ ς : Type*) where
  /-- the addresses from which the instruction at the program counter is read -/
  span : Bytes w → ρ → Set (BitVec w)
  executes : Bytes w → ρ × δ → ρ × δ → Prop
  executes_congr : ∀ {text text' : Bytes w} {r : ρ} {d : δ} {after : ρ × δ},
    (∀ a ∈ span text r, text a = text' a) → executes text (r, d) after →
      executes text' (r, d) after
  /-- a signal is delivered: the thread goes on in its handler -/
  delivers : ς → ρ × δ → ρ × δ → Prop
  /-- a thread creates another one, with these registers -/
  creates : ρ × δ → ρ × δ → ρ → Prop

/-- An instruction that reads none of the planted bytes. -/
theorem Processor.executes_planted {w : Nat} {ρ δ ς : Type*} (processor : Processor w ρ δ ς)
    {text : Bytes w} {c : BitVec 8} {A : Set (BitVec w)} {r : ρ} {d : δ} {after : ρ × δ}
    (hclear : ∀ a ∈ processor.span (planted text c A) r, a ∉ A)
    (h : processor.executes (planted text c A) (r, d) after) :
    processor.executes text (r, d) after :=
  processor.executes_congr (fun a ha => planted_of_notMem (hclear a ha)) h

/-- The threads that there are, and the data that they share. -/
@[ext]
structure Process (τ ρ δ : Type*) where
  threads : τ → Option ρ
  data : δ

inductive Event (τ ρ δ ς : Type*) where
  | execute (t : τ) (after : ρ × δ)
  | deliver (t : τ) (signum : ς) (after : ρ × δ)
  | create (t child : τ) (after : ρ × δ) (born : ρ)
  | exit (t : τ)

namespace Process

variable {τ ρ δ ς : Type*} [DecidableEq τ] {w : Nat}

def put (p : Process τ ρ δ) (t : τ) (after : ρ × δ) : Process τ ρ δ :=
  ⟨Function.update p.threads t (some after.1), after.2⟩

def step (p : Process τ ρ δ) : Event τ ρ δ ς → Option (Process τ ρ δ)
  | .execute t after => (p.threads t).map fun _ => p.put t after
  | .deliver t _ after => (p.threads t).map fun _ => p.put t after
  | .create t child after born =>
      if (p.threads child).isNone then
        (p.threads t).map fun _ => (p.put t after).put child (born, after.2)
      else none
  | .exit t => some { p with threads := Function.update p.threads t none }

/-- What the processor lets a thread of the process do. -/
def Allowed (processor : Processor w ρ δ ς) (text : Bytes w) (p : Process τ ρ δ) :
    Event τ ρ δ ς → Prop
  | .execute t after => ∀ r ∈ p.threads t, processor.executes text (r, p.data) after
  | .deliver t signum after => ∀ r ∈ p.threads t, processor.delivers signum (r, p.data) after
  | .create t _ after born => ∀ r ∈ p.threads t, processor.creates (r, p.data) after born
  | .exit _ => True

end Process

end Framework
