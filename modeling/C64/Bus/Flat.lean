import C64.Bus
import C64.Bytes

/-!
# Flat memory

Sixty-four kilobytes of memory without any chip, with interrupt lines set from outside: enough
for a processor alone.
-/

namespace C64

/-- Memory at every address, a count of the cycles that passed and two interrupt lines. -/
structure FlatMemory where
  ram : Ram
  cycles : Nat
  lines : InterruptLines

namespace FlatMemory

/-- Memory of zeros, both lines low. -/
def zero : FlatMemory := ⟨Bytes.replicate 0x10000 0, 0, {}⟩

/-- The bytes of `data` from `address` on, going round behind the last address. -/
def load (m : FlatMemory) (address : UInt16) (data : List UInt8) : FlatMemory :=
  { m with ram := m.ram.load address.toNat data }

instance : Bus FlatMemory where
  read m address := (m.ram.read address, m)
  write m address b :=
    let ⟨ram, cycles, lines⟩ := m
    .ok ⟨ram.write address b, cycles, lines⟩
  tick m cycles := .ok { m with cycles := m.cycles + cycles }
  lines m := m.lines

end FlatMemory

/-- A bus on which no time passes and no interrupt comes. -/
structure Unclocked (β : Type) where
  bus : β

instance {β : Type} [Bus β] : Bus (Unclocked β) where
  read m address :=
    let (b, bus) := Bus.read m.bus address
    (b, ⟨bus⟩)
  write m address b := return ⟨← Bus.write m.bus address b⟩
  tick m _ := .ok m
  lines _ := {}

end C64
