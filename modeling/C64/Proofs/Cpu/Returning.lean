import C64.Bus.Flat
import C64.Proofs.Cpu.Traffic

/-!
# There and back

An interrupt entry leaves a return address and the status on the stack, and so does a software
interrupt. A return from the interrupt takes both from there again, so that a handler which does
nothing else is not noticed (`ThereAndBack`). The stack goes round within its page and may lie over
the handler or the program; the three addresses that matter are apart from each other all the same.
-/

namespace C64

open Cpu

/-- Memory with a return address and a status on the stack. -/
def Ram.framed (ram : Ram) (r : Registers) (w : UInt16) (status : UInt8) : Ram :=
  ((ram.write r.stackTop (highByte w)).write (r.pushed 1).stackTop (lowByte w)).write
    (r.pushed 2).stackTop status

namespace Cpu

/-! ## The stack -/

theorem Registers.stackTop_pushed_ne (r : Registers) {m n : Nat}
    (apart : UInt8.ofNat m ≠ UInt8.ofNat n) : (r.pushed m).stackTop ≠ (r.pushed n).stackTop := by
  rw [Ne, stackTop_inj]
  exact fun same => apart ((UInt8.sub_right_inj r.s).mp same)

/-- The addresses of the three bytes that go on the stack next. -/
def Registers.topThree (r : Registers) : List UInt16 :=
  [r.stackTop, (r.pushed 1).stackTop, (r.pushed 2).stackTop]

variable (ram : Ram) (r : Registers) (w : UInt16) (status : UInt8)

theorem read_framed_status : (ram.framed r w status).read (r.pushed 2).stackTop = status := by
  simp [Ram.framed, Ram.read_write]

theorem read_framed_low : (ram.framed r w status).read (r.pushed 1).stackTop = lowByte w := by
  have apart : (r.pushed 2).stackTop ≠ (r.pushed 1).stackTop := r.stackTop_pushed_ne (by decide)
  simp [Ram.framed, Ram.read_write, apart]

theorem read_framed_high : (ram.framed r w status).read r.stackTop = highByte w := by
  have second : (r.pushed 1).stackTop ≠ (r.pushed 0).stackTop := r.stackTop_pushed_ne (by decide)
  have third : (r.pushed 2).stackTop ≠ (r.pushed 0).stackTop := r.stackTop_pushed_ne (by decide)
  rw [Registers.pushed_zero] at second third
  simp [Ram.framed, Ram.read_write, second, third]

theorem read_framed {address : UInt16} (apart : address ∉ r.topThree) :
    (ram.framed r w status).read address = ram.read address := by
  simp only [Registers.topThree, List.mem_cons, List.not_mem_nil, or_false, not_or] at apart
  obtain ⟨first, second, third⟩ := apart
  simp [Ram.framed, Ram.read_write, Ne.symm first, Ne.symm second, Ne.symm third]

/-- The registers behind a return from an interrupt. -/
def Registers.returned (r : Registers) (ram : Ram) : Registers :=
  { r.pulled 3 with
    p := .ofByte (ram.read (r.pulled 1).stackTop)
    pc := wordOf (ram.read (r.pulled 3).stackTop) (ram.read (r.pulled 2).stackTop) }

/-- A return finds what was left for it. -/
theorem returned_framed (p : Status) (pc : UInt16) :
    { r.pushed 3 with p, pc : Registers }.returned (ram.framed r w status) =
      { r with p := .ofByte status, pc := w } := by
  have first : ((r.pushed 3).pulled 1).stackTop = (r.pushed 2).stackTop :=
    congrArg Registers.stackTop (r.pulled_pushed 2 1)
  have second : ((r.pushed 3).pulled 2).stackTop = (r.pushed 1).stackTop :=
    congrArg Registers.stackTop (r.pulled_pushed 1 2)
  have third : (r.pushed 3).pulled 3 = r := (r.pulled_pushed 0 3).trans r.pushed_zero
  have bottom : r.s - 3 + 3 = r.s := UInt8.sub_add_cancel r.s 3
  have found : { r.pushed 3 with p, pc : Registers }.returned (ram.framed r w status) =
      { r with
        s := r.s - 3 + 3
        p := .ofByte ((ram.framed r w status).read ((r.pushed 3).pulled 1).stackTop)
        pc := wordOf ((ram.framed r w status).read ((r.pushed 3).pulled 3).stackTop)
          ((ram.framed r w status).read ((r.pushed 3).pulled 2).stackTop) } := rfl
  rw [found, first, second, third, bottom, read_framed_status, read_framed_low, read_framed_high,
    wordOf_bytes]

/-! ## Steps on flat memory -/

theorem enter_flat (cpu : Cpu) (m : FlatMemory) (i : Interrupt) :
    cpu.enter m i =
      let ram := m.ram.framed cpu.regs cpu.regs.pc cpu.regs.p.toInterrupted
      .ok ({ cpu with
          regs := { cpu.regs.pushed 3 with
            p := cpu.regs.p.put .interrupt true
            pc := wordOf (ram.read (i.vector + 1)) (ram.read i.vector) }
          nmiPending := cpu.nmiPending && i != .nmi }, { m with ram }) := by
  unfold Ram.framed
  rw [← Registers.pushed_pushed _ 2 1, ← Registers.pushed_pushed _ 1 1]
  rfl

theorem execute_brk (cpu : Cpu) (m : FlatMemory) (opcode : m.ram.read cpu.regs.pc = 0x00) :
    cpu.execute m =
      let ram := m.ram.framed cpu.regs (cpu.regs.pc + 2) cpu.regs.p.toPushed
      .ok (7, { cpu with
          regs := { cpu.regs.pushed 3 with
            p := cpu.regs.p.put .interrupt true
            pc := wordOf (ram.read (irqVector + 1)) (ram.read irqVector) }
          lastOpcode := 0x00 }, { m with ram }) := by
  have fetched : (Core.fetch ⟨cpu.regs, m⟩).1 = 0x00 := opcode
  have two : cpu.regs.pc + 1 + 1 = cpu.regs.pc + 2 := UInt16.add_assoc _ _ _
  unfold execute Ram.framed
  simp only [fetched]
  rw [← Registers.pushed_pushed _ 2 1, ← Registers.pushed_pushed _ 1 1, ← two]
  conv => rhs; rw [← Bool.or_false cpu.jammed]
  rfl

theorem execute_rti (cpu : Cpu) (m : FlatMemory) (opcode : m.ram.read cpu.regs.pc = 0x40) :
    cpu.execute m =
      .ok (6, { cpu with regs := cpu.regs.returned m.ram, lastOpcode := 0x40 }, m) := by
  have fetched : (Core.fetch ⟨cpu.regs, m⟩).1 = 0x40 := opcode
  unfold execute Registers.returned
  simp only [fetched]
  rw [← Registers.pulled_pulled _ 2 1, ← Registers.pulled_pulled _ 1 1]
  conv => rhs; rw [← Bool.or_false cpu.jammed]
  rfl

theorem step_of_enter {cpu cpu' : Cpu} {m m' : FlatMemory} {i : Interrupt}
    (running : cpu.jammed = false) (chosen : (cpu.poll m.lines).1 = some i)
    (enters : (cpu.poll m.lines).2.enter m i = .ok (cpu', m')) :
    cpu.step m = .ok (7, { cpu' with totalCycles := cpu'.totalCycles + 7 },
      { m' with cycles := m'.cycles + 7 }) := by
  have acts : cpu.act m = .ok (7, cpu', m') := by
    have choice : cpu.poll (Bus.lines m) = (some i, (cpu.poll m.lines).2) := Prod.ext chosen rfl
    simp only [act, running, Bool.false_eq_true, if_false, choice, enters]
    rfl
  rw [step_eq, acts]
  rfl

theorem step_of_execute {cpu cpu' : Cpu} {m m' : FlatMemory} {n : Nat}
    (running : cpu.jammed = false) (quiet : (cpu.poll m.lines).1 = none)
    (executes : (cpu.poll m.lines).2.execute m = .ok (n, cpu', m')) :
    cpu.step m = .ok (n, { cpu' with totalCycles := cpu'.totalCycles + n },
      { m' with cycles := m'.cycles + n }) := by
  have acts : cpu.act m = .ok (n, cpu', m') := by
    have choice : cpu.poll (Bus.lines m) = (none, (cpu.poll m.lines).2) := Prod.ext quiet rfl
    simp only [act, running, Bool.false_eq_true, if_false, choice, executes]
  rw [step_eq, acts]
  rfl

/-- With interrupts masked, the poll chooses nothing but a non-maskable one. -/
theorem poll_masked {cpu : Cpu} {lines : InterruptLines} (unnoticed : cpu.noticesNmi lines = false)
    (masked : cpu.maskInForce = true) : (cpu.poll lines).1 = none := by
  have unnoticed : (cpu.nmiPending || (lines.nmi && !cpu.nmiLine)) = false := unnoticed
  simp only [poll, unnoticed, masked, Bool.not_true, Bool.and_false]

/-! ## There and back -/

/-- Two steps that leave everything but the three bytes on top of the stack as it was: seven cycles
into a handler by a vector, and six back, to registers that are given. The second is made with
whichever lines there are then, if the handler begins with a return and the poll notices no
non-maskable interrupt. -/
def ThereAndBack (cpu : Cpu) (m : FlatMemory) (vector : UInt16) (status : UInt8)
    (regs : Registers) : Prop :=
  ∃ entered m₁, cpu.step m = .ok (7, entered, m₁) ∧
    entered.regs.pc = wordOf (m₁.ram.read (vector + 1)) (m₁.ram.read vector) ∧
    m₁.ram.read (cpu.regs.pushed 2).stackTop = status ∧
    (∀ address ∉ cpu.regs.topThree, m₁.ram.read address = m.ram.read address) ∧
    ∀ lines, m₁.ram.read entered.regs.pc = 0x40 → entered.noticesNmi lines = false →
      ∃ back m₂, entered.step { m₁ with lines } = .ok (6, back, m₂) ∧
        back.regs = regs ∧ m₂.ram = m₁.ram ∧ back.totalCycles = cpu.totalCycles + 13

variable {cpu entered : Cpu} {m m₁ : FlatMemory} {vector : UInt16} {w : UInt16} {status : UInt8}

/-- What an entry leaves is there for the way back, which interrupts do not disturb because the
entry has masked them. -/
theorem ThereAndBack.of_step (hstep : cpu.step m = .ok (7, entered, m₁))
    (ram : m₁.ram = m.ram.framed cpu.regs w status)
    (regs : entered.regs = { cpu.regs.pushed 3 with
      p := cpu.regs.p.put .interrupt true
      pc := wordOf (m₁.ram.read (vector + 1)) (m₁.ram.read vector) })
    (running : entered.jammed = false) (prompt : entered.delayedMask = none)
    (counted : entered.totalCycles = cpu.totalCycles + 7) :
    ThereAndBack cpu m vector status { cpu.regs with p := .ofByte status, pc := w } := by
  have masked : entered.maskInForce = true := by
    rw [maskInForce, prompt, regs]
    exact Status.has_put_self _ _ _
  refine ⟨entered, m₁, hstep, congrArg Registers.pc regs, ?_, ?_, ?_⟩
  · rw [ram, read_framed_status]
  · intro address apart
    rw [ram, read_framed _ _ _ _ apart]
  · intro lines opcode unnoticed
    refine ⟨_, _, step_of_execute running (poll_masked unnoticed masked)
      (execute_rti (entered.poll lines).2 { m₁ with lines } opcode), ?_, rfl, ?_⟩
    · show entered.regs.returned m₁.ram = _
      rw [ram, regs]
      exact returned_framed _ _ _ _ _ _
    · show entered.totalCycles + 6 = _
      rw [counted]

/-- A status in which unused is set and break is clear survives the stack, whichever byte of the
two it becomes there. -/
theorem status_survives {p : Status} (unused : p.has .unused = true) (brk : p.has .brk = false) :
    p.toInterrupted = p.bits ∧ p.toPushed = p.bits ||| 0x10 ∧
      .ofByte p.bits = p ∧ .ofByte (p.bits ||| 0x10) = p := by
  have every : ∀ b : UInt8, anyBit b 0x20 = true → anyBit b 0x10 = false →
      Status.toInterrupted ⟨b⟩ = b ∧ Status.toPushed ⟨b⟩ = b ||| 0x10 ∧
        Status.ofByte b = ⟨b⟩ ∧ Status.ofByte (b ||| 0x10) = ⟨b⟩ := by
    refine forall_byte ?_
    decide +kernel
  exact every p.bits unused brk

/-- On flat memory, an interrupt whose handler is nothing but a return goes by in thirteen cycles
and leaves no trace but the three bytes above the stack: all registers are as they were. So does a
software interrupt, except that the program goes on behind the byte after its opcode, and that the
status on the stack has break set. -/
theorem interrupt_returns (cpu : Cpu) (m : FlatMemory) (running : cpu.jammed = false)
    (unused : cpu.regs.p.has .unused = true) (brk : cpu.regs.p.has .brk = false) :
    (∀ i, (cpu.poll m.lines).1 = some i →
      ThereAndBack cpu m i.vector cpu.regs.p.bits cpu.regs) ∧
    ((cpu.poll m.lines).1 = none → m.ram.read cpu.regs.pc = 0x00 →
      ThereAndBack cpu m irqVector (cpu.regs.p.bits ||| 0x10)
        { cpu.regs with pc := cpu.regs.pc + 2 }) := by
  obtain ⟨interrupted, pushed, back, back'⟩ := status_survives unused brk
  constructor
  · intro i chosen
    have entry := step_of_enter running chosen (enter_flat (cpu.poll m.lines).2 m i)
    have there : ThereAndBack cpu m i.vector cpu.regs.p.toInterrupted
        { cpu.regs with p := .ofByte cpu.regs.p.toInterrupted, pc := cpu.regs.pc } :=
      .of_step entry rfl rfl running rfl rfl
    rw [interrupted, back] at there
    exact there
  · intro quiet opcode
    have entry := step_of_execute running quiet (execute_brk (cpu.poll m.lines).2 m opcode)
    have there : ThereAndBack cpu m irqVector cpu.regs.p.toPushed
        { cpu.regs with p := .ofByte cpu.regs.p.toPushed, pc := cpu.regs.pc + 2 } :=
      .of_step entry rfl rfl running rfl rfl
    rw [pushed, back'] at there
    exact there

/-- A processor fresh from its reset, on memory with a return at its start and a non-maskable
interrupt that comes in. -/
def struck : FlatMemory :=
  { ram := FlatMemory.zero.ram.write 0 0x40, cycles := 0, lines := { nmi := true } }

theorem interrupt_returns_struck :
    ∃ entered m₁ back m₂, (Cpu.new {}).step struck = .ok (7, entered, m₁) ∧
      entered.step { m₁ with lines := {} } = .ok (6, back, m₂) ∧
      back.regs = (Cpu.new {}).regs := by
  obtain ⟨entered, m₁, entry, handler, -, frame, returns⟩ :=
    (interrupt_returns (Cpu.new {}) struck rfl (by decide) (by decide)).1 .nmi rfl
  have kept : ∀ address, address ∉ (Cpu.new {}).regs.topThree →
      m₁.ram.read address = if 0 = address then 0x40 else 0 := by
    intro address apart
    rw [frame address apart, struck, Ram.read_write]
    exact congrArg (ite _ _) (Bytes.get_replicate _ _)
  have start : entered.regs.pc = 0 := by
    rw [handler, kept _ (by decide), kept _ (by decide)]
    rfl
  have served : entered.noticesNmi {} = false := by
    have pending := (step_nmi entry rfl).2
    simp only [noticesNmi, pending]
    rfl
  have opcode : m₁.ram.read entered.regs.pc = 0x40 := by
    rw [start, kept _ (by decide)]
    rfl
  obtain ⟨back, m₂, again, same, -⟩ := returns {} opcode served
  exact ⟨entered, m₁, back, m₂, entry, again, same⟩

end Cpu

end C64
