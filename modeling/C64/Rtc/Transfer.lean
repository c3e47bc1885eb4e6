/-!
# Transfers

The host talks to the clock over three lines, one bit at a time, least significant bit first.
A transfer begins with a command byte:

| Bit | Meaning                                      |
|-----|----------------------------------------------|
| 7   | one, or else the whole transfer is ignored   |
| 6   | one for the memory, zero for the registers   |
| 5-1 | the register, or 31 for one after another    |
| 0   | one to read, zero to write                   |
-/

namespace C64.Rtc

/-- What a transfer reads or writes. -/
structure Target where
  /-- The memory, not the registers. -/
  memory : Bool
  /-- One byte after another. -/
  burst : Bool
  index : Nat
deriving DecidableEq

/-- How far a transfer has come. -/
inductive Transfer where
  /-- The chip is not enabled. -/
  | idle
  /-- The low `count` bits of the command have come in. -/
  | command (bits : UInt8) (count : Nat)
  /-- The low `count` bits of a byte to write have come in. -/
  | receiving (target : Target) (bits : UInt8) (count : Nat)
  /-- Bit `bit` of a byte to read is on the line. -/
  | transmitting (target : Target) (bit : Nat)
  /-- Nothing more happens until the chip is enabled again. -/
  | ignoring
deriving DecidableEq

/-- What a command asks for. -/
inductive Command where
  | read (target : Target)
  | write (target : Target)
  | none
deriving DecidableEq

/-- The meaning of a command byte. -/
def Command.ofByte (b : UInt8) : Command :=
  if b &&& 0x80 = 0 then .none
  else
    let address := ((b >>> 1) &&& 0x1F).toNat
    let burst := address = 31
    let target : Target := ⟨b &&& 0x40 != 0, burst, if burst then 0 else address⟩
    if b &&& 0x01 = 0 then .write target else .read target

/-- The target in words, for a debugger. -/
def Target.describe (t : Target) : String :=
  s!"Target \x7b ram: {t.memory}, burst: {t.burst}, index: {t.index} \x7d"

/-- The state of a transfer in words, for a debugger. -/
def Transfer.describe : Transfer → String
  | idle => "Idle"
  | command bits count => s!"ReceivingCommand \x7b shift: {bits.toNat}, bits: {count} \x7d"
  | receiving target bits count =>
    s!"ReceivingData \x7b target: {target.describe}, shift: {bits.toNat}, bits: {count} \x7d"
  | transmitting target bit =>
    s!"TransmittingData \x7b target: {target.describe}, bit: {bit} \x7d"
  | ignoring => "Ignoring"

end C64.Rtc
