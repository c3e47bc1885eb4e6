import C64.Byte
import C64.Fault
import C64.Rom
import C64.Vic.Sprite

/-!
# The machine's memory

Sixty-four kilobytes of memory lie under three ROMs and the interface chips. The port at the
processor's first two addresses decides what the processor sees:

| CHAREN | HIRAM | LORAM | $A000 to $BFFF | $D000 to $DFFF | $E000 to $FFFF |
|--------|-------|-------|----------------|----------------|----------------|
| 1      | 1     | 1     | BASIC          | chips          | Kernal         |
| 1      | 1     | 0     | memory         | chips          | Kernal         |
| 1      | 0     | 1     | memory         | chips          | memory         |
| 0      | 1     | 1     | BASIC          | characters     | Kernal         |
| 0      | 1     | 0     | memory         | characters     | Kernal         |
| 0      | 0     | 1     | memory         | characters     | memory         |
| any    | 0     | 0     | memory         | memory         | memory         |

Where a ROM is missing, the memory underneath shows. Writing goes to the memory, whatever lies
above it. The video chip sees a quarter of the memory, and the character ROM in two of the
quarters.
-/

namespace C64

/-- The port of the processor. -/
structure Port where
  /-- The lines that are outputs. -/
  direction : UInt8 := 0x2F
  data : UInt8 := 0x37
deriving DecidableEq

/-- What an address can show to the processor. -/
inductive Region where
  | memory | basic | character | kernal | chips
deriving DecidableEq

namespace Port

/-- Lines of the port that are high when nothing drives them. -/
def pullUps : UInt8 := 0x37

/-- The levels of the lines. -/
def lines (p : Port) : UInt8 := p.data &&& p.direction ||| pullUps &&& ~~~p.direction

def loram (p : Port) : Bool := anyBit p.lines 0x01

def hiram (p : Port) : Bool := anyBit p.lines 0x02

def charen (p : Port) : Bool := anyBit p.lines 0x04

/-- What the processor sees at an address. -/
def region (p : Port) (address : UInt16) : Region :=
  match (address >>> 12).toNat with
  | 0xA | 0xB => if p.hiram && p.loram then .basic else .memory
  | 0xD => if !p.hiram && !p.loram then .memory else if p.charen then .chips else .character
  | 0xE | 0xF => if p.hiram then .kernal else .memory
  | _ => .memory

/-- Whether the processor sees the chips. -/
def chipsVisible (p : Port) : Bool := p.region 0xD000 = .chips

end Port

/-- The machine's memory with its ROMs, the colours of the screen and the processor's port. -/
structure Memory where
  ram : Ram
  roms : Roms
  /-- A nybble for each character of the screen. -/
  colours : Bytes 0x400
  port : Port

namespace Memory

/-- Memory of zeros. -/
def new (roms : Roms) : Memory := ⟨.replicate _ 0, roms, .replicate _ 0, {}⟩

/-- The port as it is after power-on; the rest is kept. -/
def reset (m : Memory) : Memory := { m with port := {} }

/-- A byte of a ROM; the memory underneath if it is missing. -/
def romByte (m : Memory) {n : Nat} (rom : Option (Bytes n)) (address : UInt16) : UInt8 :=
  match rom with
  | some bytes => bytes.byteAt (address.toNat % n)
  | none => m.ram.read address

/-- What the processor reads where no chip answers. Every ROM starts at a multiple of its size,
so the low part of the address is the place in the ROM. -/
def read (m : Memory) (address : UInt16) : UInt8 :=
  if address = 0 then m.port.direction
  else if address = 1 then m.port.lines
  else
    match m.port.region address with
    | .basic => m.romByte m.roms.basic address
    | .character => m.romByte m.roms.character address
    | .kernal => m.romByte m.roms.kernal address
    | .memory | .chips => m.ram.read address

/-- Puts a byte into the memory itself, under whatever lies above it. -/
def poke (m : Memory) (address : UInt16) (b : UInt8) : Memory :=
  let ⟨ram, roms, colours, port⟩ := m
  ⟨ram.write address b, roms, colours, port⟩

/-- Puts bytes into the memory one after another, going round behind the last address. -/
def load (m : Memory) (address : UInt16) (bytes : List UInt8) : Memory :=
  let ⟨ram, roms, colours, port⟩ := m
  ⟨ram.load address.toNat bytes, roms, colours, port⟩

/-- What the processor writes where no chip answers. The port takes its two addresses. -/
def write (m : Memory) (address : UInt16) (b : UInt8) : Memory :=
  if address = 0 then { m with port.direction := b }
  else if address = 1 then { m with port.data := b }
  else m.poke address b

/-- The colour of a character. -/
def colour (m : Memory) (cell : Nat) : UInt8 := m.colours.byteAt (cell % 0x400) &&& 0x0F

/-- Writes the colour of a character. -/
def setColour (m : Memory) (cell : Nat) (b : UInt8) : Memory :=
  let ⟨ram, roms, colours, port⟩ := m
  ⟨ram, roms, colours.put (cell % 0x400) (b &&& 0x0F), port⟩

/-! ## The video chip's view -/

/-- A byte of the character ROM, where the video chip sees it: at `$1000` to `$1FFF` of the
banks with an even number. -/
def characterByte? (m : Memory) (bank address : Nat) : Option UInt8 :=
  if bank % 2 = 0 ∧ address / 0x1000 = 1 then
    m.roms.character.map fun bytes => bytes.byteAt (address % RomKind.character.size)
  else none

/-- A byte of a bank. There are four of them. -/
def videoByte (m : Memory) (bank : Fin 4) (address : Fin 0x4000) : UInt8 :=
  (m.characterByte? bank address).getD
    (m.ram.get ⟨bank * 0x4000 + address, by omega⟩)

/-- A byte of the bank with any number. Behind the fourth bank there is only the character
ROM. -/
def videoByteOf (m : Memory) (bank address : Nat) : Except Fault UInt8 :=
  let address := Fin.ofNat 0x4000 address
  if h : bank < 4 then .ok (m.videoByte ⟨bank, h⟩ address)
  else
    match m.characterByte? bank address with
    | some b => .ok b
    | none => .error .outOfBounds

/-- The memory as the video chip sees it through a bank. -/
def view (m : Memory) (bank : Fin 4) : Vic.VideoMemory :=
  ⟨fun address => m.videoByte bank (Fin.ofNat _ address), m.colour⟩

end Memory

end C64
