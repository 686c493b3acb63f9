import Memleax.Framework.ByteMemory
import Memleax.Store.Callstack

/-!
# The machine layer

`machines.h` and the memory requests of `ptrace_utils.h` for Linux on x86_64: a
word is 8 bytes, little-endian, and the trap instruction is the one byte
`0xCC`, after which the program counter has moved past it.

The text of the target is a memory of its own: the target executes it and only
memleax writes it. What a stopped thread shows otherwise, registers and data,
is its `Context`.
-/

namespace Memleax

open Framework

/-- The registers that memleax looks at. -/
structure Regs where
  rip : Word
  rax : Word := 0
  rdi : Word := 0
  rsi : Word := 0
  rsp : Word := 0
deriving DecidableEq, Repr

/-- The registers and the data memory of a thread. -/
structure Context where
  regs : Regs
  data : Bytes 64

def ptraceGetData (m : Bytes 64) (address : Word) : Word := m.readWord 8 address

def ptraceSetData (m : Bytes 64) (address data : Word) : Bytes 64 :=
  m.writeWord (n := 8) address data

/-- The `int 3` instruction. -/
def trapByte : BitVec 8 := 0xCC

/-- The word that `set_breakpoint` writes over `code`. -/
def trapCode (code : Word) : Word := (code &&& 0xFFFFFFFFFFFFFF00) ||| 0xCC

def setBreakpoint (m : Bytes 64) (address code : Word) : Bytes 64 :=
  ptraceSetData m address (trapCode code)

def isBreakpoint (m : Bytes 64) (address : Word) : Bool :=
  ptraceGetData m address &&& 0xFF == 0xCC

def callReturnAddress (ctx : Context) : Word := ptraceGetData ctx.data ctx.regs.rsp

def callReturnValue (ctx : Context) : Word := ctx.regs.rax

def callArg1 (ctx : Context) : Word := ctx.regs.rdi

def callArg2 (ctx : Context) : Word := ctx.regs.rsi

/-- The registers are written back with the program counter on the trapped
instruction. -/
def pcUnwind (ctx : Context) : Context :=
  { ctx with regs := { ctx.regs with rip := ctx.regs.rip - 1 } }

/-! ## The trap byte in a word -/

theorem trapCode_eq (code : Word) : trapCode code = withFront (n := 8) trapByte code := by
  have hmask : (0xFFFFFFFFFFFFFF00 : Word) = BitVec.allOnes 64 <<< 8 := by decide
  have htrap : (0xCC : Word) = trapByte.setWidth 64 := by decide
  rw [trapCode, hmask, htrap]
  rfl

theorem byteOf_trapCode_zero (code : Word) :
    byteOf (n := 8) (trapCode code) 0 = trapByte := by
  rw [trapCode_eq]
  exact byteOf_withFront_zero (n := 8) (by decide) trapByte code

theorem byteOf_trapCode_of_pos (code : Word) {k : Nat} (hk : 0 < k) (hk8 : k < 8) :
    byteOf (n := 8) (trapCode code) k = byteOf (n := 8) code k := by
  rw [trapCode_eq]
  exact byteOf_withFront_of_pos (n := 8) trapByte code hk hk8

theorem trapTest_iff (v : Word) : v &&& 0xFF = 0xCC ↔ byteOf (n := 8) v 0 = trapByte := by
  have hmask : (0xFF : Word) = (BitVec.allOnes 8).setWidth 64 := by decide
  have htrap : (0xCC : Word) = trapByte.setWidth 64 := by decide
  rw [hmask, htrap]
  exact and_eq_setWidth_iff (n := 8) (by decide) trapByte v

/-- `is_breakpoint` looks at the byte at its address. -/
theorem isBreakpoint_iff (m : Bytes 64) (address : Word) :
    isBreakpoint m address = true ↔ m address = trapByte := by
  have hbyte : byteOf (n := 8) (ptraceGetData m address) 0 = m address :=
    Bytes.byteOf_readWord_zero m (by decide) address
  rw [isBreakpoint, beq_iff_eq, ← hbyte]
  exact trapTest_iff _

end Memleax
