import C64.Machine.Config
import C64.Toml.Document

/-!
# Configurations as text

A configuration is read from a TOML document and written to one. Keys that the document leaves
out keep their defaults, and keys that mean nothing are passed over. A record can also be given
as an array of its fields in order, as far as the array goes.
-/

namespace C64.Machine.Config

open Toml

/-- Why a text is no configuration. -/
inductive ReadError where
  /-- A line breaks the rules of the format. -/
  | format (line : Nat)
  /-- The value of a field is of the wrong kind or out of range. -/
  | field (name : String)
deriving DecidableEq

/-- What to tell the user. -/
def ReadError.message (e : ReadError) : String :=
  "invalid machine configuration: " ++
    match e with
    | .format line => s!"line {line} breaks the rules of TOML"
    | .field name => s!"{name} cannot have this value"

/-! ## Names of the choices -/

def standards : List (String × VideoStandard) := [("pal", .pal), ("ntsc", .ntsc)]

def variants : List (String × Cpu.Variant) := [("nmos6502", .nmos6502), ("mos6510", .mos6510)]

def priorities : List (String × Cpu.InterruptPriority) := [("nmi", .nmi), ("irq", .irq)]

def models : List (String × Rtc.Model) := [("ds1302", .ds1302), ("ds1202", .ds1202)]

/-- The name of a choice. -/
def nameOf {α : Type} [DecidableEq α] (names : List (String × α)) (a : α) : String :=
  ((names.find? (·.2 = a)).map (·.1)).getD ""

/-! ## Reading -/

/-- The fields of a record. -/
inductive Record where
  | named (es : Entries)
  | listed (items : List Value)

/-- The record that a value stands for. A date is one without any known field. -/
def Record.ofValue? : Value → Option Record
  | .table _ es => some (.named es)
  | .array items => some (.listed items)
  | .tables last earlier => some (.listed ((last :: earlier).reverse.map (.table .headed)))
  | .date => some (.named [])
  | _ => none

/-- The value of the field with a place and a name. -/
def Record.get? (r : Record) (place : Nat) (name : String) : Option Value :=
  match r with
  | .named es => es.get? name
  | .listed items => items[place]?

/-- Reads a field, which has a default. -/
def Record.read {α : Type} (r : Record) (place : Nat) (name : String)
    (ofValue : Value → Except ReadError α) (default : α) : Except ReadError α :=
  match r.get? place name with
  | some v => ofValue v
  | none => .ok default

/-- Reads a choice: its name, or a table whose only entry has the name and holds nothing. -/
def choice {α : Type} (name : String) (names : List (String × α)) (v : Value) :
    Except ReadError α :=
  let chosen :=
    match v with
    | .string s => some s
    | .table _ [(s, .table _ [])] | .table _ [(s, .array [])] => some s
    | _ => none
  match chosen.bind fun s => names.lookup s with
  | some a => .ok a
  | none => .error (.field name)

/-- Reads a number up to `greatest`. -/
def natural (name : String) (greatest : Nat) : Value → Except ReadError Nat
  | .integer n => if 0 ≤ n ∧ n ≤ greatest then .ok n.toNat else .error (.field name)
  | _ => .error (.field name)

/-- Reads a byte. -/
def byte (name : String) (v : Value) : Except ReadError UInt8 := do
  return (← natural name 0xFF v).toUInt8

/-- Reads a switch. -/
def switch (name : String) : Value → Except ReadError Bool
  | .boolean b => .ok b
  | _ => .error (.field name)

/-- Reads a record. -/
def record {α : Type} (name : String) (ofRecord : Record → Except ReadError α) (v : Value) :
    Except ReadError α :=
  match Record.ofValue? v with
  | some r => ofRecord r
  | none => .error (.field name)

/-- Reads the configuration of the processor. -/
def readCpu (r : Record) : Except ReadError Cpu.Config := do
  let d : Cpu.Config := {}
  return {
    variant := ← r.read 0 "variant" (choice "variant" variants) d.variant
    interruptPriority := ← r.read 1 "interrupt_priority" (choice "interrupt_priority" priorities)
      d.interruptPriority
    aneMagic := ← r.read 2 "ane_magic" (byte "ane_magic") d.aneMagic
    lxaMagic := ← r.read 3 "lxa_magic" (byte "lxa_magic") d.lxaMagic }

/-- Reads a time. -/
def readTime (r : Record) : Except ReadError Rtc.Time := do
  let d := Rtc.Time.initial
  let part (place : Nat) (name : String) (default : UInt8) : Except ReadError UInt8 :=
    r.read place name (byte name) default
  return {
    year := ← part 0 "year" d.year
    month := ← part 1 "month" d.month
    date := ← part 2 "date" d.date
    day := ← part 3 "day" d.day
    hours := ← part 4 "hours" d.hours
    minutes := ← part 5 "minutes" d.minutes
    seconds := ← part 6 "seconds" d.seconds }

/-- Reads the configuration of the real-time clock. -/
def readRtc (r : Record) : Except ReadError Rtc.Config := do
  let d : Rtc.Config := {}
  return {
    model := ← r.read 0 "model" (choice "model" models) d.model
    cyclesPerSecond := ← r.read 1 "cycles_per_second" (natural "cycles_per_second" Cycle.last)
      d.cyclesPerSecond
    start := ← r.read 2 "start" (record "start" readTime) d.start
    halted := ← r.read 3 "halted" (switch "halted") d.halted }

/-- Reads a configuration from the root table of a document. -/
def ofEntries (es : Entries) : Except ReadError Config := do
  let r := Record.named es
  let d : Config := {}
  return {
    standard := ← r.read 0 "standard" (choice "standard" standards) d.standard
    cpu := ← r.read 1 "cpu" (record "cpu" readCpu) d.cpu
    todHz := ← r.read 2 "tod_hz" (fun v => some <$> natural "tod_hz" Cycle.last v) d.todHz
    rtc := ← r.read 3 "rtc" (fun v => some <$> record "rtc" readRtc v) d.rtc
    via := ← r.read 4 "via" (switch "via") d.via }

/-- Reads a configuration. -/
def ofText (text : String) : Except ReadError Config :=
  match Toml.parse text with
  | .ok es => ofEntries es
  | .error line => .error (.format line)

/-! ## Writing -/

/-- A line that sets a key. -/
def setting (key value : String) : String := s!"{key} = {value}\n"

/-- A name in quotes. -/
def quoted (name : String) : String := s!"\"{name}\""

/-- The lines of the processor. -/
def cpuText (c : Cpu.Config) : String :=
  "\n[cpu]\n" ++ setting "variant" (quoted (nameOf variants c.variant)) ++
    setting "interrupt_priority" (quoted (nameOf priorities c.interruptPriority)) ++
    setting "ane_magic" (toString c.aneMagic) ++ setting "lxa_magic" (toString c.lxaMagic)

/-- The lines of the real-time clock. -/
def rtcText (c : Rtc.Config) : String :=
  let t := c.start
  "\n[rtc]\n" ++ setting "model" (quoted (nameOf models c.model)) ++
    setting "cycles_per_second" (toString c.cyclesPerSecond) ++
    setting "halted" (toString c.halted) ++ "\n[rtc.start]\n" ++
    setting "year" (toString t.year) ++ setting "month" (toString t.month) ++
    setting "date" (toString t.date) ++ setting "day" (toString t.day) ++
    setting "hours" (toString t.hours) ++ setting "minutes" (toString t.minutes) ++
    setting "seconds" (toString t.seconds)

/-- Writes a configuration, single values first. -/
def toText (c : Config) : String :=
  setting "standard" (quoted (nameOf standards c.standard)) ++
    ((c.todHz.map fun hz => setting "tod_hz" (toString hz)).getD "") ++
    setting "via" (toString c.via) ++ cpuText c.cpu ++ ((c.rtc.map rtcText).getD "")

end C64.Machine.Config
