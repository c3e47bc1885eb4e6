import C64.Cycle

/-!
# The bus

The processor reaches memory and the other chips only through a bus. A bus decodes addresses;
a read may change what it reads from, a write and the passing of time may end in a fault.
-/

namespace C64

/-- The interrupt inputs of the processor. The interrupt request counts as long as it is held,
the non-maskable interrupt when it rises. -/
structure InterruptLines where
  irq : Bool := false
  nmi : Bool := false
deriving DecidableEq

/-- What the processor needs of the machine around it. -/
class Bus (β : Type) where
  /-- Reads the byte at an address. -/
  read : β → UInt16 → UInt8 × β
  /-- Writes a byte to an address. -/
  write : β → UInt16 → UInt8 → Except Fault β
  /-- Lets time pass after an instruction. -/
  tick : β → Nat → Except Fault β
  /-- The interrupt inputs before the next instruction. -/
  lines : β → InterruptLines

end C64
