import C64.Cpu.Registers

/-!
# Arithmetic and logic

The operations on the accumulator and on the status, as pure functions. In decimal mode the
two nybbles of a byte are digits; the adder corrects each of them by six where it passes nine,
and some flags are taken before the correction.
-/

namespace C64.Cpu

namespace Registers

/-- Adds `v` and the carry as binary numbers. -/
def addBinary (r : Registers) (v : UInt8) : Registers :=
  let sum := r.a.toNat + v.toNat + r.p.carryByte.toNat
  let result := sum.toUInt8
  let p := r.p.put .carry (sum > 0xFF)
  let p := p.put .overflow (anyBit ((r.a ^^^ result) &&& (v ^^^ result)) 0x80)
  { r with a := result, p := p.result result }

/-- Adds `v` and the carry as two decimal digits. The zero flag comes from the binary sum,
negative and overflow from the sum before its high digit is corrected. -/
def addDecimal (r : Registers) (v : UInt8) : Registers :=
  let a := r.a.toNat
  let c := r.p.carryByte.toNat
  let low := a % 16 + v.toNat % 16 + c
  let low := if low > 9 then low + 6 else low
  let high := a / 16 + v.toNat / 16 + (if low > 0x0F then 1 else 0)
  let early := (high * 16 + low % 16).toUInt8
  let p := r.p.put .zero ((a + v.toNat + c).toUInt8 == 0)
  let p := p.put .negative (anyBit early 0x80)
  let p := p.put .overflow (anyBit ((r.a ^^^ early) &&& (v ^^^ early)) 0x80)
  let high := if high > 9 then high + 6 else high
  { r with a := (high * 16 + low % 16).toUInt8, p := p.put .carry (high > 0x0F) }

/-- Adds `v` and the carry in the mode the status asks for. -/
def add (r : Registers) (v : UInt8) : Registers :=
  if r.p.has .decimal then r.addDecimal v else r.addBinary v

/-- Subtracts `v` and the borrow as two decimal digits. The flags are those of the binary
difference. -/
def subDecimal (r : Registers) (v : UInt8) : Registers :=
  let a : Int := r.a.toNat
  let b : Int := v.toNat
  let borrow : Int := 1 - r.p.carryByte.toNat
  let low := a % 16 - b % 16 - borrow
  let high := a / 16 - b / 16
  let (low, high) := if low < 0 then (low - 6, high - 1) else (low, high)
  let high := if high < 0 then high - 6 else high
  let difference := a - b - borrow
  let result := r.a - v - (1 - r.p.carryByte)
  let p := r.p.put .carry (difference ≥ 0)
  let p := p.put .overflow (anyBit ((r.a ^^^ v) &&& (r.a ^^^ result)) 0x80)
  { r with a := (high % 16 * 16 + low % 16).toNat.toUInt8, p := p.result result }

/-- Subtracts `v` and the borrow in the mode the status asks for. A binary difference is the
sum with the complement. -/
def sub (r : Registers) (v : UInt8) : Registers :=
  if r.p.has .decimal then r.subDecimal v else r.addBinary (~~~v)

/-- Compares a register's value with `v` as a subtraction would. -/
def compare (r : Registers) (register v : UInt8) : Registers :=
  { r with p := (r.p.put .carry (register ≥ v)).result (register - v) }

/-- Tests the bits of `v` against the accumulator; its two high bits become flags. -/
def testBits (r : Registers) (v : UInt8) : Registers :=
  let p := r.p.put .zero (r.a &&& v == 0)
  let p := p.put .negative (anyBit v 0x80)
  { r with p := p.put .overflow (anyBit v 0x40) }

def orA (r : Registers) (v : UInt8) : Registers := r.withA (r.a ||| v)

def andA (r : Registers) (v : UInt8) : Registers := r.withA (r.a &&& v)

def xorA (r : Registers) (v : UInt8) : Registers := r.withA (r.a ^^^ v)

/-- And with the accumulator, then a rotation to the right whose flags, and in decimal mode
whose digits, are those of the adder. -/
def andRotate (r : Registers) (v : UInt8) : Registers :=
  let both := r.a &&& v
  let rotated := both >>> 1 ||| r.p.carryByte <<< 7
  if r.p.has .decimal then
    let p := r.p.put .negative (r.p.has .carry)
    let p := p.put .zero (rotated == 0)
    let p := p.put .overflow (anyBit (rotated ^^^ both) 0x40)
    let result : UInt8 :=
      if (both &&& 0x0F) + (both &&& 0x01) > 0x05 then
        rotated &&& 0xF0 ||| (rotated + 0x06) &&& 0x0F
      else rotated
    if (both &&& 0xF0).toNat + (both &&& 0x10).toNat > 0x50 then
      { r with a := result &&& 0x0F ||| (result + 0x60) &&& 0xF0, p := p.put .carry true }
    else { r with a := result, p := p.put .carry false }
  else
    let p := (r.p.result rotated).put .carry (anyBit rotated 0x40)
    { r with
      a := rotated
      p := p.put .overflow (anyBit (rotated ^^^ rotated <<< 1) 0x40) }

/-- And with the accumulator; the carry becomes the sign of the result. -/
def andCarry (r : Registers) (v : UInt8) : Registers :=
  let r := r.andA v
  r.withFlag .carry (anyBit r.a 0x80)

/-- Subtracts `v` without borrow from what accumulator and first index register share. -/
def subFromShared (r : Registers) (v : UInt8) : Registers :=
  let shared := r.a &&& r.x
  (r.withFlag .carry (shared ≥ v)).withX (shared - v)

end Registers

/-- A change of one byte that sets flags on the way. -/
abbrev Shift := Status → UInt8 → UInt8 × Status

namespace Shift

def left : Shift := fun p v =>
  let result := v <<< 1
  (result, (p.put .carry (anyBit v 0x80)).result result)

def right : Shift := fun p v =>
  let result := v >>> 1
  (result, (p.put .carry (anyBit v 0x01)).result result)

def rotateLeft : Shift := fun p v =>
  let result := v <<< 1 ||| p.carryByte
  (result, (p.put .carry (anyBit v 0x80)).result result)

def rotateRight : Shift := fun p v =>
  let result := v >>> 1 ||| p.carryByte <<< 7
  (result, (p.put .carry (anyBit v 0x01)).result result)

def increment : Shift := fun p v => (v + 1, p.result (v + 1))

def decrement : Shift := fun p v => (v - 1, p.result (v - 1))

/-- One more, with the flags left to a later operation. -/
def incrementOnly : Shift := fun p v => (v + 1, p)

/-- One less, with the flags left to a later operation. -/
def decrementOnly : Shift := fun p v => (v - 1, p)

end Shift

end C64.Cpu
