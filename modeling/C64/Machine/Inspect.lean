import C64.Inspect
import C64.Machine

/-!
# Inspecting the machine

The parts of a machine are asked for by a path. The first name in it picks a chip or the memory;
a path without such a name asks for a count of the machine or for a part of the processor.
-/

namespace C64.Machine

/-- What an adapter shows. -/
def ciaProbes (event : Cia.Event → Board.Event) : List (Probe (Cia × Clock Board.Event)) := [
  ⟨"timer_a", fun (c, clock) => .word (c.counter event clock .a)⟩,
  ⟨"timer_b", fun (c, clock) => .word (c.counter event clock .b)⟩,
  ⟨"icr_status", fun (c, _) => .byte c.sources⟩,
  ⟨"icr_mask", fun (c, _) => .byte c.mask⟩,
  ⟨"irq", fun (c, _) => .flag c.interrupting⟩,
  ⟨"tod", fun (c, _) => .text (c.tod.digits c.tod.hours)⟩]

/-- What the interface adapter shows. -/
def viaProbes : List (Probe (Via × Clock Board.Event)) := [
  ⟨"ifr", fun (v, _) => .byte v.flags⟩,
  ⟨"ier", fun (v, _) => .byte v.enabled⟩,
  ⟨"acr", fun (v, _) => .byte v.control⟩,
  ⟨"timer1", fun (v, clock) => .word (v.timer1 Board.Event.via clock)⟩,
  ⟨"timer2", fun (v, clock) => .word (v.timer2 Board.Event.via clock)⟩]

/-- What the real-time clock shows. -/
def rtcProbes : List (Probe Rtc) := [
  ⟨"year", fun r => .byte r.registers.time.year⟩,
  ⟨"month", fun r => .byte r.registers.time.month⟩,
  ⟨"date", fun r => .byte r.registers.time.date⟩,
  ⟨"day", fun r => .byte r.registers.time.day⟩,
  ⟨"hours", fun r => .byte r.registers.time.hours⟩,
  ⟨"minutes", fun r => .byte r.registers.time.minutes⟩,
  ⟨"seconds", fun r => .byte r.registers.time.seconds⟩,
  ⟨"halted", fun r => .flag r.registers.halted⟩,
  ⟨"write_protected", fun r => .flag r.registers.writeProtected⟩]

/-- What the machine counts. -/
def probes : List (Probe Machine) := [
  ⟨"cycles", fun m => .count m.cycles⟩,
  ⟨"frames", fun m => .count m.frames⟩,
  ⟨"rebases", fun m => .cycle m.board.clock.rebases⟩,
  ⟨"alarms", fun m => .count m.board.clock.pending⟩]

/-- The value of digits in a base, if there are any and all are digits. A plus may stand in
front. -/
def digits? (base : Nat) (text : List Char) : Option Nat :=
  let value? (c : Char) : Option Nat :=
    if c.isDigit then some (c.toNat - '0'.toNat)
    else if c.isAlpha then some (c.toLower.toNat - 'a'.toNat + 10)
    else none
  let digits :=
    match text with
    | '+' :: rest => rest
    | text => text
  if digits.isEmpty then none
  else do
    let values ← digits.mapM fun c => (value? c).filter (· < base)
    return values.foldl (· * base + ·) 0

/-- An address, decimal or behind a mark for hexadecimal. -/
def address? (text : String) : Option UInt16 :=
  let n :=
    match text.toList with
    | '0' :: 'x' :: digits | '0' :: 'X' :: digits | '$' :: digits => digits? 16 digits
    | digits => digits? 10 digits
  (n.filter (· < 0x10000)).map Nat.toUInt16

/-- The rest of a path behind the name it begins with. -/
def behind? (name path : String) : Option String :=
  if path.startsWith name then some (path.drop name.length).toString else none

/-- The reading that a path names. -/
def query (m : Machine) (path : String) : Option Reading :=
  let d := m.board.devices
  let clock := m.board.clock
  let chips : List (String × (String → Option Reading)) := [
    ("cpu.", Probe.query Cpu.probes m.cpu),
    ("vic.", Probe.query Vic.probes d.vic),
    ("cia1.", Probe.query (ciaProbes Board.Event.cia1) (d.cia1, clock)),
    ("cia2.", Probe.query (ciaProbes Board.Event.cia2) (d.cia2, clock)),
    ("via.", fun rest => d.via.bind fun v => Probe.query viaProbes (v, clock) rest),
    ("rtc.", fun rest => d.rtc.bind fun r => Probe.query rtcProbes r rest),
    ("memory.", fun rest => (address? rest).map fun a => .byte (m.board.peek a))]
  match chips.findSome? fun (name, ask) => (behind? name path).map ask with
  | some answer => answer
  | none => (Probe.query probes m path).or (Probe.query Cpu.probes m.cpu path)

/-- The paths that can be asked for, those of the chips in a short form. -/
def paths : List String :=
  ["cpu.<6502_paths>", "vic.<vic_paths>"] ++
    (ciaProbes Board.Event.cia1).map (fun p => s!"cia\x7b1,2\x7d.{p.path}") ++
    viaProbes.map (fun p => s!"via.{p.path}") ++ rtcProbes.map (fun p => s!"rtc.{p.path}") ++
    "memory.<address>" :: probes.map (·.path)

end C64.Machine
