import C64.Cpu.Alu
import C64.Cpu.Opcode

/-!
# What operations do

An operation is one of a few shapes of bus traffic (read an operand, store, change a byte in
place, push, ...) together with pure functions for what happens to the registers. The shapes
alone decide which addresses are read and written; the functions alone decide the results.
-/

namespace C64.Cpu

/-- Which request wins when both interrupts wait at the same instruction boundary. -/
inductive InterruptPriority where
  | nmi | irq
deriving DecidableEq

/-- The kinds of the processor. Both have the same core. -/
inductive Variant where
  | nmos6502 | mos6510
deriving DecidableEq

/-- What differs from one processor to another. -/
structure Config where
  variant : Variant := .mos6510
  interruptPriority : InterruptPriority := .nmi
  /-- Bits that the accumulator seems to have in addition under `ane`. -/
  aneMagic : UInt8 := 0xEE
  /-- Bits that the accumulator seems to have in addition under `lxa`. -/
  lxaMagic : UInt8 := 0xEE
deriving DecidableEq

/-- The shape of an operation. -/
inductive Action where
  /-- Reads the operand. -/
  | read (apply : Config → Registers → UInt8 → Registers)
  /-- Writes a value to the operand's address. -/
  | store (value : Registers → UInt8)
  /-- Writes a value masked by the high byte of the operand's address plus one. -/
  | storeMasked (prepare : Registers → Registers) (value : Registers → UInt8)
  /-- Changes the operand in place, then works with the result. -/
  | modify (shift : Shift) (apply : Registers → UInt8 → Registers)
  /-- Works on registers and leaves the bus alone. -/
  | internal (apply : Registers → Registers)
  /-- Works on registers while the byte behind the opcode is read for nothing. -/
  | implied (apply : Registers → Registers)
  | push (value : Registers → UInt8)
  | pull (apply : Registers → UInt8 → Registers)
  | branch (taken : Status → Bool)
  | jump
  | callSubroutine
  | returnFromSubroutine
  | returnFromInterrupt
  | softwareInterrupt
  | halt

namespace Action

/-- Reads the operand, whichever the processor. -/
def load (apply : Registers → UInt8 → Registers) : Action := .read fun _ => apply

/-- Sets or clears one flag. -/
def flag (f : Flag) (on : Bool) : Action := .implied (·.withFlag f on)

/-- Changes the operand in place, and nothing else. -/
def change (shift : Shift) : Action := .modify shift fun r _ => r

/-- Branches when a flag is as wanted. -/
def branchOn (f : Flag) (on : Bool) : Action := .branch fun p => p.has f == on

end Action

/-- The action of an opcode. -/
def Opcode.action (op : Opcode) : Action :=
  match op.mnemonic with
  -- Loads and stores.
  | .lda => .load .withA
  | .ldx => .load .withX
  | .ldy => .load .withY
  | .sta => .store (·.a)
  | .stx => .store (·.x)
  | .sty => .store (·.y)
  -- Logic and arithmetic.
  | .and => .load .andA
  | .ora => .load .orA
  | .eor => .load .xorA
  | .adc => .load .add
  | .sbc => .load .sub
  | .cmp => .load fun r v => r.compare r.a v
  | .cpx => .load fun r v => r.compare r.x v
  | .cpy => .load fun r v => r.compare r.y v
  | .bit => .load .testBits
  -- Changes in place.
  | .asl => .change .left
  | .lsr => .change .right
  | .rol => .change .rotateLeft
  | .ror => .change .rotateRight
  | .inc => .change .increment
  | .dec => .change .decrement
  -- Between registers.
  | .tax => .internal fun r => r.withX r.a
  | .tay => .internal fun r => r.withY r.a
  | .txa => .internal fun r => r.withA r.x
  | .tya => .internal fun r => r.withA r.y
  | .tsx => .internal fun r => r.withX r.s
  | .txs => .implied fun r => { r with s := r.x }
  | .inx => .internal fun r => r.withX (r.x + 1)
  | .iny => .internal fun r => r.withY (r.y + 1)
  | .dex => .internal fun r => r.withX (r.x - 1)
  | .dey => .internal fun r => r.withY (r.y - 1)
  -- Flags.
  | .clc => .flag .carry false
  | .sec => .flag .carry true
  | .cli => .flag .interrupt false
  | .sei => .flag .interrupt true
  | .cld => .flag .decimal false
  | .sed => .flag .decimal true
  | .clv => .flag .overflow false
  -- The stack.
  | .pha => .push (·.a)
  | .php => .push (·.p.toPushed)
  | .pla => .pull .withA
  | .plp => .pull fun r v => { r with p := .ofByte v }
  -- The flow of control.
  | .jmp => .jump
  | .jsr => .callSubroutine
  | .rts => .returnFromSubroutine
  | .rti => .returnFromInterrupt
  | .brk => .softwareInterrupt
  | .bcc => .branchOn .carry false
  | .bcs => .branchOn .carry true
  | .bne => .branchOn .zero false
  | .beq => .branchOn .zero true
  | .bpl => .branchOn .negative false
  | .bmi => .branchOn .negative true
  | .bvc => .branchOn .overflow false
  | .bvs => .branchOn .overflow true
  | .nop => if op.mode = .implied then .implied id else .load fun r _ => r
  -- A change in place and an operation on the accumulator.
  | .slo => .modify .left .orA
  | .rla => .modify .rotateLeft .andA
  | .sre => .modify .right .xorA
  | .rra => .modify .rotateRight .add
  | .dcp => .modify .decrementOnly fun r v => r.compare r.a v
  | .isc => .modify .incrementOnly .sub
  -- Loads and stores of several registers.
  | .lax => .load fun r v => { r with a := v, x := v, p := r.p.result v }
  | .sax => .store fun r => r.a &&& r.x
  | .las => .load fun r v =>
      let shared := r.s &&& v
      { r with a := shared, x := shared, s := shared, p := r.p.result shared }
  | .sha => .storeMasked id fun r => r.a &&& r.x
  | .shx => .storeMasked id (·.x)
  | .shy => .storeMasked id (·.y)
  | .tas => .storeMasked (fun r => { r with s := r.a &&& r.x }) (·.s)
  -- Operations on an immediate operand.
  | .anc => .load .andCarry
  | .alr => .load fun r v =>
      let (result, p) := Shift.right r.p (r.a &&& v)
      { r with a := result, p }
  | .arr => .load .andRotate
  | .sbx => .load .subFromShared
  | .ane => .read fun config r v => r.withA ((r.a ||| config.aneMagic) &&& r.x &&& v)
  | .lxa => .read fun config r v =>
      let result := (r.a ||| config.lxaMagic) &&& v
      { r with a := result, x := result, p := r.p.result result }
  | .jam => .halt

end C64.Cpu
