import C64.Text.Hex

/-!
# Readings

A chip can be asked for a part of its state by name. The answer is a value with its width, and
a text in which a debugger shows it.
-/

namespace C64

/-- A value read off a chip. -/
inductive Reading where
  | flag (on : Bool)
  | byte (value : UInt8)
  | word (value : UInt16)
  /-- A cycle number or another number of thirty-two bits. -/
  | cycle (value : Nat)
  /-- A count that does not wrap. -/
  | count (value : Nat)
  | text (value : String)
deriving DecidableEq

namespace Reading

/-- Numbers of fixed width show all their digits in hexadecimal, counts are decimal. -/
def render : Reading → String
  | flag on => if on then "true" else "false"
  | byte value => Text.hexMarked 2 value.toNat
  | word value => Text.hexMarked 4 value.toNat
  | cycle value => Text.hexMarked 8 value
  | count value => toString value
  | text value => value

end Reading

/-- A part of a chip's state, by the name it is asked for. -/
structure Probe (α : Type) where
  path : String
  read : α → Reading

/-- The reading of the probe with the given name. -/
def Probe.query {α : Type} (probes : List (Probe α)) (a : α) (path : String) : Option Reading :=
  (probes.find? (·.path = path)).map (·.read a)

end C64
