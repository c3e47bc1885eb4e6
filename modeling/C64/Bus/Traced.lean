import C64.Bus
import C64.Text.Hex

/-!
# Traces

A bus that remembers what was done with it.
-/

namespace C64

/-- One use of a bus. -/
inductive Access where
  | read (address : UInt16) (value : UInt8)
  | write (address : UInt16) (value : UInt8)
  | tick (cycles : Nat)
deriving DecidableEq

/-- A use in short: a letter for its kind, the address and the byte. -/
def Access.render : Access → String
  | read address value => s!"r{place address}:{Text.byteHex value}"
  | write address value => s!"w{place address}:{Text.byteHex value}"
  | tick cycles => s!"t{cycles}"
where
  /-- An address in small digits. -/
  place (address : UInt16) : String := Text.zeroPad 4 (Text.hexLower address.toNat)

/-- A bus with the list of its uses, the latest first. -/
structure Traced (β : Type) where
  bus : β
  history : List Access

namespace Traced

/-- The uses in the order they happened. -/
def trace {β : Type} (t : Traced β) : List Access := t.history.reverse

instance {β : Type} [Bus β] : Bus (Traced β) where
  read t address :=
    let (b, bus) := Bus.read t.bus address
    (b, ⟨bus, .read address b :: t.history⟩)
  write t address b := return ⟨← Bus.write t.bus address b, .write address b :: t.history⟩
  tick t cycles := return ⟨← Bus.tick t.bus cycles, .tick cycles :: t.history⟩
  lines t := Bus.lines t.bus

end Traced

end C64
