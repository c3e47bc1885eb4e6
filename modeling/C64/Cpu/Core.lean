import C64.Bus
import C64.Cpu.Registers
import C64.Cpu.Opcode

/-!
# The core

Registers and bus together: fetching, the stack and effective addresses. Indexed modes also
make the reads that the chip makes before the high byte of an address is corrected. Such reads
matter where they reach a register that a read changes.
-/

namespace C64.Cpu

/-- What an instruction works on. -/
structure Core (β : Type) where
  regs : Registers
  bus : β

/-- An address an instruction names. -/
structure Effective where
  address : UInt16
  /-- For an indexed address, the one with the high byte not yet corrected. -/
  uncorrected : Option UInt16
deriving DecidableEq

namespace Effective

/-- An address without indexing. -/
def direct (address : UInt16) : Effective := ⟨address, none⟩

/-- A base address with an index added. -/
def indexed (base : UInt16) (index : UInt8) : Effective :=
  let address := base + index.toUInt16
  ⟨address, some (wordOf (highByte base) (lowByte address))⟩

/-- Whether indexing changed the high byte. -/
def pageCrossed (e : Effective) : Bool :=
  match e.uncorrected with
  | some u => u != e.address
  | none => false

end Effective

namespace Core

variable {β : Type} [Bus β]

/-- Reads the byte at an address. -/
@[inline] def read (c : Core β) (address : UInt16) : UInt8 × Core β :=
  let ⟨regs, bus⟩ := c
  let (b, bus) := Bus.read bus address
  (b, ⟨regs, bus⟩)

/-- Reads an address for nothing but what the read does to it. -/
@[inline] def touch (c : Core β) (address : UInt16) : Core β := (c.read address).2

/-- Writes a byte to an address. -/
@[inline] def write (c : Core β) (address : UInt16) (b : UInt8) : Except Fault (Core β) := do
  let ⟨regs, bus⟩ := c
  return ⟨regs, ← Bus.write bus address b⟩

/-- Reads the byte at the program counter and steps over it. -/
@[specialize] def fetch (c : Core β) : UInt8 × Core β :=
  let (b, c) := c.read c.regs.pc
  (b, { c with regs.pc := c.regs.pc + 1 })

/-- Fetches a word, low byte first. -/
@[specialize] def fetchWord (c : Core β) : UInt16 × Core β :=
  let (low, c) := c.fetch
  let (high, c) := c.fetch
  (wordOf high low, c)

/-- Reads a word, low byte first. -/
@[specialize] def readWord (c : Core β) (address : UInt16) : UInt16 × Core β :=
  let (low, c) := c.read address
  let (high, c) := c.read (address + 1)
  (wordOf high low, c)

/-- Reads a word both of whose bytes lie in the page of its address. -/
@[specialize] def readWordInPage (c : Core β) (address : UInt16) : UInt16 × Core β :=
  let (low, c) := c.read address
  let (high, c) := c.read (wordOf (highByte address) (lowByte (address + 1)))
  (wordOf high low, c)

/-- Pushes a byte. -/
@[specialize] def push (c : Core β) (b : UInt8) : Except Fault (Core β) :=
  let top := c.regs.stackTop
  { c with regs.s := c.regs.s - 1 }.write top b

/-- Pulls a byte. -/
@[specialize] def pull (c : Core β) : UInt8 × Core β :=
  let c := { c with regs.s := c.regs.s + 1 }
  c.read c.regs.stackTop

/-- Pushes a word, high byte first. -/
@[specialize] def pushWord (c : Core β) (w : UInt16) : Except Fault (Core β) := do
  let c ← c.push (highByte w)
  c.push (lowByte w)

/-- Pulls a word, low byte first. -/
@[specialize] def pullWord (c : Core β) : UInt16 × Core β :=
  let (low, c) := c.pull
  let (high, c) := c.pull
  (wordOf high low, c)

/-- Fetches the operand bytes of a mode and finds the address they name. -/
@[specialize] def effective (c : Core β) (mode : AddressMode) : Effective × Core β :=
  match mode with
  | .zeroPage =>
    let (base, c) := c.fetch
    (.direct base.toUInt16, c)
  | .zeroPageX =>
    let (base, c) := c.fetch
    (.direct (base + c.regs.x).toUInt16, c.touch base.toUInt16)
  | .zeroPageY =>
    let (base, c) := c.fetch
    (.direct (base + c.regs.y).toUInt16, c.touch base.toUInt16)
  | .absolute =>
    let (address, c) := c.fetchWord
    (.direct address, c)
  | .absoluteX =>
    let (base, c) := c.fetchWord
    (.indexed base c.regs.x, c)
  | .absoluteY =>
    let (base, c) := c.fetchWord
    (.indexed base c.regs.y, c)
  | .indirect =>
    let (pointer, c) := c.fetchWord
    let (address, c) := c.readWordInPage pointer
    (.direct address, c)
  | .indirectX =>
    let (base, c) := c.fetch
    let c := c.touch base.toUInt16
    let (address, c) := c.readWordInPage (base + c.regs.x).toUInt16
    (.direct address, c)
  | .indirectY =>
    let (pointer, c) := c.fetch
    let (base, c) := c.readWordInPage pointer.toUInt16
    (.indexed base c.regs.y, c)

/-- The address of an operand that is only read, and whether indexing crossed a page. The
uncorrected address is read when it is not the right one. -/
@[specialize] def readAddress (c : Core β) (mode : AddressMode) : Effective × Core β :=
  let (e, c) := c.effective mode
  match e.uncorrected with
  | some u => (e, if u != e.address then c.touch u else c)
  | none => (e, c)

/-- The address of an operand that is written. Indexed modes always read the uncorrected
address first. -/
@[specialize] def writeAddress (c : Core β) (mode : AddressMode) : Effective × Core β :=
  let (e, c) := c.effective mode
  match e.uncorrected with
  | some u => (e, c.touch u)
  | none => (e, c)

end Core

end C64.Cpu
