import C64.Rtc

/-!
# The host's side

How a host moves bytes over the three lines: a bit is put on the data line while the serial
clock is low and counts when the serial clock rises; a bit is read before the pulse that moves
on to the next.
-/

namespace C64.Rtc

/-- Sends one bit to a chip that is enabled. -/
def sendBit (r : Rtc) (bit : Bool) : Rtc :=
  (r.setLines true false bit).setLines true true bit

/-- Sends a byte, least significant bit first. -/
def sendByte (r : Rtc) (b : UInt8) : Rtc :=
  (List.range 8).foldl (fun r i => r.sendBit (bitAt b i)) r

/-- Sends bytes one after another. -/
def send (r : Rtc) (bytes : List UInt8) : Rtc := bytes.foldl sendByte r

/-- Receives one bit. -/
def receiveBit (r : Rtc) : Bool × Rtc :=
  let r := r.setLines true false false
  (r.dataLine, r.setLines true true false)

/-- Receives a byte, least significant bit first. -/
def receiveByte (r : Rtc) : UInt8 × Rtc :=
  (List.range 8).foldl (fun (b, r) i =>
    let (bit, r) := receiveBit r
    (addBit b i bit, r)) (0, r)

/-- Receives `n` bytes. -/
def receive (r : Rtc) : Nat → List UInt8 × Rtc
  | 0 => ([], r)
  | n + 1 =>
    let (b, r) := r.receiveByte
    let (rest, r) := r.receive n
    (b :: rest, r)

/-- All lines low, then the chip enabled. -/
def select (r : Rtc) : Rtc := (r.setLines false false false).setLines true false false

/-- All lines low. -/
def deselect (r : Rtc) : Rtc := r.setLines false false false

/-- A whole transfer that sends a command and its data. -/
def hostWrite (r : Rtc) (bytes : List UInt8) : Rtc := (r.select.send bytes).deselect

/-- A whole transfer that sends a command and receives `n` bytes. -/
def hostRead (r : Rtc) (command : UInt8) (n : Nat) : List UInt8 × Rtc :=
  let (bytes, r) := (r.select.sendByte command).receive n
  (bytes, r.deselect)

end C64.Rtc
