import C64.Cpu.Action
import C64.Cpu.Core

/-!
# Executing an operation

`Core.perform` carries out one decoded operation whose opcode has been fetched, and answers the
cycles it takes beyond those of the decode table.
-/

namespace C64.Cpu

/-- The address an interrupt or a software interrupt jumps through. -/
def irqVector : UInt16 := 0xFFFE

namespace Core

variable {β : Type} [Bus β]

/-- Changes the registers alone. -/
@[inline] def mapRegs (c : Core β) (f : Registers → Registers) : Core β :=
  { c with regs := f c.regs }

/-- Reads the operand of an operation that only reads it, with the extra cycle of a page
crossing. -/
@[specialize] def readOperand (c : Core β) (op : Opcode) :
    Except Fault (UInt8 × Nat × Core β) :=
  match op.mode with
  | .immediate =>
    let (v, c) := c.fetch
    .ok (v, 0, c)
  | .memory m =>
    let (e, c) := c.readAddress m
    let (v, c) := c.read e.address
    .ok (v, if e.pageCrossed && op.pagePenalty then 1 else 0, c)
  | mode => .error (.noAddress mode.name)

/-- Finds the address of an operand that is written. -/
@[specialize] def writeOperand (c : Core β) (mode : Mode) : Except Fault (Effective × Core β) :=
  match mode with
  | .memory m => .ok (c.writeAddress m)
  | mode => .error (.noAddress mode.name)

/-- Stores a value masked by the high byte of the base address plus one. When indexing crosses
a page, the byte stored also becomes the high byte of the address. -/
@[specialize] def storeMasked (c : Core β) (mode : Mode) (value : UInt8) :
    Except Fault (Core β) := do
  let (e, c) ← c.writeOperand mode
  let base := highByte (e.uncorrected.getD e.address)
  let stored := value &&& (base + 1)
  let address := if e.pageCrossed then wordOf stored (lowByte e.address) else e.address
  c.write address stored

/-- Changes the operand in place and answers its new value. In memory, the old value is written
back before the new one. -/
@[specialize] def modify (c : Core β) (mode : Mode) (shift : Shift) :
    Except Fault (UInt8 × Core β) := do
  match mode with
  | .accumulator =>
    let c := c.touch c.regs.pc
    let (result, p) := shift c.regs.p c.regs.a
    return (result, c.mapRegs fun r => { r with a := result, p })
  | mode =>
    let (e, c) ← c.writeOperand mode
    let (v, c) := c.read e.address
    let c ← c.write e.address v
    let (result, p) := shift c.regs.p v
    let c ← (c.mapRegs fun r => { r with p }).write e.address result
    return (result, c)

/-- Branches by the signed distance behind the opcode. A branch that is taken costs one cycle
more, and another one if it leaves the page. -/
@[specialize] def branch (c : Core β) (taken : Bool) : Nat × Core β :=
  let (distance, c) := c.fetch
  if taken then
    let source := c.regs.pc
    let target := source + distance.toInt8.toInt16.toUInt16
    (if highByte source = highByte target then 1 else 2, c.mapRegs fun r => { r with pc := target })
  else (0, c)

/-- Carries out an operation; answers the cycles beyond its own. -/
@[specialize] def perform (c : Core β) (config : Config) (op : Opcode) :
    Except Fault (Nat × Core β) := do
  match op.action with
  | .read apply =>
    let (v, extra, c) ← c.readOperand op
    return (extra, c.mapRegs (apply config · v))
  | .store value =>
    let (e, c) ← c.writeOperand op.mode
    return (0, ← c.write e.address (value c.regs))
  | .storeMasked prepare value =>
    let c := c.mapRegs prepare
    return (0, ← c.storeMasked op.mode (value c.regs))
  | .modify shift apply =>
    let (v, c) ← c.modify op.mode shift
    return (0, c.mapRegs (apply · v))
  | .internal apply => return (0, c.mapRegs apply)
  | .implied apply =>
    let c := c.touch c.regs.pc
    return (0, c.mapRegs apply)
  | .push value =>
    let c := c.touch c.regs.pc
    return (0, ← c.push (value c.regs))
  | .pull apply =>
    let (v, c) := (c.touch c.regs.pc).pull
    return (0, c.mapRegs (apply · v))
  | .branch taken => return c.branch (taken c.regs.p)
  | .jump =>
    let (e, c) ← match op.mode with
      | .memory m => Except.ok (c.effective m)
      | mode => .error (.noAddress mode.name)
    return (0, c.mapRegs fun r => { r with pc := e.address })
  | .callSubroutine =>
    let (target, c) := c.fetchWord
    let c ← c.pushWord (c.regs.pc - 1)
    return (0, c.mapRegs fun r => { r with pc := target })
  | .returnFromSubroutine =>
    let (address, c) := (c.touch c.regs.pc).pullWord
    return (0, c.mapRegs fun r => { r with pc := address + 1 })
  | .returnFromInterrupt =>
    let (p, c) := (c.touch c.regs.pc).pull
    let (address, c) := c.pullWord
    return (0, c.mapRegs fun r => { r with p := .ofByte p, pc := address })
  | .softwareInterrupt =>
    -- The byte behind the opcode is skipped.
    let (_, c) := c.fetch
    let c ← c.pushWord c.regs.pc
    let c ← c.push c.regs.p.toPushed
    let (address, c) := c.readWord irqVector
    return (0, c.mapRegs fun r => { r with p := r.p.put .interrupt true, pc := address })
  | .halt => return (0, c.mapRegs fun r => { r with pc := r.pc - 1 })

end Core

end C64.Cpu
