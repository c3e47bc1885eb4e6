import C64.Board

/-!
# The program's side of the real-time clock

How a program moves bytes through the port at `$DE00`: it writes the three lines as bits and
reads the data line back. Bits go least significant first.
-/

namespace C64.Board

/-- The address of the port. -/
def rtcPort : UInt16 := 0xDE00

/-- Sends a bit: data while the serial clock is low, then a pulse. -/
def sendRtcBit (b : Board) (bit : Bool) : Except Fault Board := do
  let b ← b.write rtcPort (rtcEnable ||| bitByte bit)
  b.write rtcPort (rtcEnable ||| rtcSerialClock ||| bitByte bit)

/-- Sends bytes. -/
def sendRtc (b : Board) (bytes : List UInt8) : Except Fault Board :=
  bytes.foldlM (fun b byte =>
    (List.range 8).foldlM (fun b i => b.sendRtcBit (bitAt byte i)) b) b

/-- Receives a bit: the data line before a pulse. -/
def receiveRtcBit (b : Board) : Except Fault (Bool × Board) := do
  let b ← b.write rtcPort rtcEnable
  let (value, b) := b.read rtcPort
  return (anyBit value rtcData, ← b.write rtcPort (rtcEnable ||| rtcSerialClock))

/-- Receives a byte. -/
def receiveRtcByte (b : Board) : Except Fault (UInt8 × Board) :=
  (List.range 8).foldlM (fun (byte, b) i => do
    let (bit, b) ← b.receiveRtcBit
    return (Rtc.addBit byte i bit, b)) (0, b)

/-- Receives `n` bytes. -/
def receiveRtc : Nat → Board → Except Fault (List UInt8 × Board)
  | 0, b => .ok ([], b)
  | n + 1, b => do
    let (byte, b) ← b.receiveRtcByte
    let (rest, b) ← receiveRtc n b
    return (byte :: rest, b)

/-- A whole transfer that sends a command and its data. -/
def writeRtc (b : Board) (bytes : List UInt8) : Except Fault Board := do
  let b ← (← b.write rtcPort rtcEnable).sendRtc bytes
  b.write rtcPort 0

/-- A whole transfer that sends a command and receives `n` bytes. -/
def readRtc (b : Board) (command : UInt8) (n : Nat) : Except Fault (List UInt8 × Board) := do
  let b ← (← b.write rtcPort rtcEnable).sendRtc [command]
  let (bytes, b) ← receiveRtc n b
  return (bytes, ← b.write rtcPort 0)

end C64.Board
