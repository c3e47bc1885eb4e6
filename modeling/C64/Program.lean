import C64.Memory
import C64.Text.Hex

/-!
# Program files

A program file is an address, low byte first, and the bytes that belong there.
-/

namespace C64

/-- What a program file holds. -/
structure Program where
  address : UInt16
  body : List UInt8
deriving DecidableEq

/-- Why a file is no program. -/
inductive LoadError where
  /-- There is nothing behind the address; the file has `length` bytes. -/
  | tooShort (length : Nat)
  /-- The body of `length` bytes would run past the last address. -/
  | overflow (address : UInt16) (length : Nat)
deriving DecidableEq

/-- What to tell the user. -/
def LoadError.message : LoadError → String
  | tooShort length =>
    s!"PRG image is {length} bytes; it needs a load address and at least one data byte"
  | overflow address length =>
    s!"PRG image of {length} bytes at ${Text.word address} runs past $FFFF"

namespace Program

/-- The program in a file. -/
def ofBytes : List UInt8 → Except LoadError Program
  | low :: high :: b :: rest =>
    let p : Program := ⟨wordOf high low, b :: rest⟩
    if p.address.toNat + p.body.length ≤ 0x10000 then .ok p
    else .error (.overflow p.address p.body.length)
  | bytes => .error (.tooShort bytes.length)

/-- Puts the program into memory. -/
def install (p : Program) (m : Memory) : Memory := m.load p.address p.body

end Program

end C64
