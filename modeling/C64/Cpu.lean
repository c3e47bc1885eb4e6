import C64.Cpu.Execute
import C64.Inspect

/-!
# The processor

A 6502 that executes one whole instruction at a time. Between two instructions it polls the
interrupt lines. The interrupt request is a level, masked by a flag; the non-maskable interrupt
is an edge, kept until it is served. An instruction that changes the mask does so after the
poll, so the instruction behind it still sees the old mask.
-/

namespace C64

open Cpu

/-- The state of the processor. -/
structure Cpu where
  regs : Registers
  config : Config
  /-- The level of the non-maskable line at the last poll. -/
  nmiLine : Bool
  /-- Whether an edge of that line waits to be served. -/
  nmiPending : Bool
  /-- The interrupt mask from before an instruction that changed it, for one poll. -/
  delayedMask : Option Bool
  /-- Whether an opcode has stopped the processor. -/
  jammed : Bool
  lastOpcode : UInt8
  /-- Cycles since the processor was made. -/
  totalCycles : Nat

namespace Cpu

/-- An interrupt the processor can take. -/
inductive Interrupt where
  | nmi | irq
deriving DecidableEq

/-- The address an interrupt jumps through. -/
def Interrupt.vector : Interrupt → UInt16
  | nmi => 0xFFFA
  | irq => irqVector

/-- The address a reset jumps through. -/
def resetVector : UInt16 := 0xFFFC

/-- The cycles that an interrupt entry or a reset takes. -/
def interruptCycles : Nat := 7

/-- A processor as it is before its first reset. -/
def new (config : Config) : Cpu :=
  { regs := .reset
    config
    nmiLine := false
    nmiPending := false
    delayedMask := none
    jammed := false
    lastOpcode := 0
    totalCycles := 0 }

/-- The interrupt mask in force at the next poll. -/
def maskInForce (cpu : Cpu) : Bool := cpu.delayedMask.getD (cpu.regs.p.has .interrupt)

/-- Takes notice of the interrupt lines and chooses the interrupt to enter, if any. -/
def poll (cpu : Cpu) (lines : InterruptLines) : Option Interrupt × Cpu :=
  let nmi := cpu.nmiPending || (lines.nmi && !cpu.nmiLine)
  let irq := lines.irq && !cpu.maskInForce
  let chosen :=
    match nmi, irq with
    | true, true =>
      match cpu.config.interruptPriority with
      | .nmi => some .nmi
      | .irq => some .irq
    | true, false => some .nmi
    | false, true => some .irq
    | false, false => none
  (chosen, { cpu with nmiLine := lines.nmi, nmiPending := nmi, delayedMask := none })

variable {β : Type} [Bus β]

/-- Pushes program counter and status, masks interrupts and jumps through the vector. -/
@[specialize] def enter (cpu : Cpu) (bus : β) (interrupt : Interrupt) :
    Except Fault (Cpu × β) := do
  let core : Core β := ⟨cpu.regs, bus⟩
  -- The opcode is fetched twice and dropped.
  let core := (core.touch cpu.regs.pc).touch cpu.regs.pc
  let core ← core.pushWord cpu.regs.pc
  let core ← core.push cpu.regs.p.toInterrupted
  let (address, core) := core.readWord interrupt.vector
  let regs := { core.regs with p := core.regs.p.put .interrupt true, pc := address }
  return ({ cpu with regs, nmiPending := cpu.nmiPending && interrupt != .nmi }, core.bus)

/-- Fetches an opcode and executes it; answers the cycles it took. -/
@[specialize] def execute (cpu : Cpu) (bus : β) : Except Fault (Nat × Cpu × β) := do
  let (b, core) := Core.fetch ⟨cpu.regs, bus⟩
  let op := Opcode.decode b
  let mask := cpu.regs.p.has .interrupt
  let (extra, core) ← core.perform cpu.config op
  let cpu :=
    { cpu with
      regs := core.regs
      lastOpcode := b
      jammed := cpu.jammed || op.mnemonic = .jam
      delayedMask := if op.mnemonic.delaysMask then some mask else cpu.delayedMask }
  return (op.cycles + extra, cpu, core.bus)

/-- One instruction, or one interrupt entry, or a cycle of standing still, with the time it
takes; answers that time. -/
@[specialize] def step (cpu : Cpu) (bus : β) : Except Fault (Nat × Cpu × β) := do
  let (cycles, cpu, bus) ←
    if cpu.jammed then pure (1, cpu, bus)
    else
      match cpu.poll (Bus.lines bus) with
      | (some interrupt, cpu) => do
        let (cpu, bus) ← cpu.enter bus interrupt
        pure (interruptCycles, cpu, bus)
      | (none, cpu) => cpu.execute bus
  let bus ← Bus.tick bus cycles
  return (cycles, { cpu with totalCycles := cpu.totalCycles + cycles }, bus)

/-- `n` steps; answers the time they take together. -/
@[specialize] def steps : Nat → Cpu → β → Except Fault (Nat × Cpu × β) :=
  go 0
where
  /-- The steps behind those that took `sum` cycles. -/
  go (sum : Nat) : Nat → Cpu → β → Except Fault (Nat × Cpu × β)
    | 0, cpu, bus => .ok (sum, cpu, bus)
    | n + 1, cpu, bus => do
      let (cycles, cpu, bus) ← cpu.step bus
      go (sum + cycles) n cpu bus

/-- The reset sequence. -/
@[specialize] def reset (cpu : Cpu) (bus : β) : Except Fault (Cpu × β) := do
  let (address, core) := Core.readWord ⟨.reset, bus⟩ resetVector
  let bus ← Bus.tick core.bus interruptCycles
  return ({ cpu with
    regs := { Registers.reset with pc := address }
    nmiLine := false
    nmiPending := false
    delayedMask := none
    jammed := false
    totalCycles := cpu.totalCycles + interruptCycles }, bus)

/-- What can be asked of the processor. -/
def probes : List (Probe Cpu) := [
  ⟨"a", fun c => .byte c.regs.a⟩,
  ⟨"x", fun c => .byte c.regs.x⟩,
  ⟨"y", fun c => .byte c.regs.y⟩,
  ⟨"s", fun c => .byte c.regs.s⟩,
  ⟨"pc", fun c => .word c.regs.pc⟩,
  ⟨"p", fun c => .byte c.regs.p.bits⟩,
  ⟨"flags.n", fun c => .flag (c.regs.p.has .negative)⟩,
  ⟨"flags.v", fun c => .flag (c.regs.p.has .overflow)⟩,
  ⟨"flags.d", fun c => .flag (c.regs.p.has .decimal)⟩,
  ⟨"flags.i", fun c => .flag (c.regs.p.has .interrupt)⟩,
  ⟨"flags.z", fun c => .flag (c.regs.p.has .zero)⟩,
  ⟨"flags.c", fun c => .flag (c.regs.p.has .carry)⟩,
  ⟨"jammed", fun c => .flag c.jammed⟩,
  ⟨"nmi_pending", fun c => .flag c.nmiPending⟩,
  ⟨"cycles", fun c => .count c.totalCycles⟩]

end Cpu

end C64
