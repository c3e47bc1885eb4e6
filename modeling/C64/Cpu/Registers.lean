import C64.Cpu.Status

/-!
# The register file

Accumulator, two index registers, stack pointer, program counter and status.
-/

namespace C64.Cpu

/-- The registers a program sees. -/
structure Registers where
  a : UInt8
  x : UInt8
  y : UInt8
  /-- The stack pointer, an index into page one. -/
  s : UInt8
  pc : UInt16
  p : Status
deriving DecidableEq

namespace Registers

/-- The registers after a reset, before the start address is read. -/
def reset : Registers := ⟨0, 0, 0, 0xFD, 0, .reset⟩

/-- The stack address the next push writes to. -/
def stackTop (r : Registers) : UInt16 := 0x0100 ||| r.s.toUInt16

/-- Sets the negative and the zero flag from a result. -/
def result (r : Registers) (b : UInt8) : Registers := { r with p := r.p.result b }

/-- Puts a result into the accumulator and sets the flags from it. -/
def withA (r : Registers) (b : UInt8) : Registers := { r with a := b, p := r.p.result b }

/-- Puts a result into the first index register and sets the flags from it. -/
def withX (r : Registers) (b : UInt8) : Registers := { r with x := b, p := r.p.result b }

/-- Puts a result into the second index register and sets the flags from it. -/
def withY (r : Registers) (b : UInt8) : Registers := { r with y := b, p := r.p.result b }

/-- The registers with a flag set or cleared. -/
def withFlag (r : Registers) (f : Flag) (on : Bool) : Registers := { r with p := r.p.put f on }

end Registers

end C64.Cpu
