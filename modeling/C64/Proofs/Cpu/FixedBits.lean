import C64.Proofs.Cpu.Returning
import C64.Proofs.Cpu.Writes

/-!
# The two bits that are no flags

Break and unused have a place in the status byte and no flag behind it. The status register always
has the one clear and the other set (`Status.Steady`), whatever a program does: most operations set
single flags and none of them one of these two (`Status.steady_put`), and where a byte from the
stack becomes the status, the two bits are put right (`Status.steady_ofByte`). So it is after a
reset, after every step, and therefore in every processor that can come about (`Reached.steady`).

That is why the byte on the stack is the status but for break (`Reached.status_fixed`), and why the
status comes back from there as it was.
-/

namespace C64.Cpu

open Bus (Refuses)

/-! ## The status -/

namespace Status

/-- A status as the processor holds it: unused is set and break is clear. -/
structure Steady (p : Status) : Prop where
  unused : p.has .unused = true
  brk : p.has .brk = false

variable (p : Status)

theorem steady_iff : p.Steady ↔ p.has .unused = true ∧ p.has .brk = false :=
  ⟨fun h => ⟨h.unused, h.brk⟩, fun h => ⟨h.1, h.2⟩⟩

/-- A flag that is set or cleared has no part in it. -/
@[simp] theorem steady_put {f : Flag} (on : Bool) (unused : f ≠ .unused) (brk : f ≠ .brk) :
    (p.put f on).Steady ↔ p.Steady := by
  rw [steady_iff, steady_iff, has_put_ne p on unused, has_put_ne p on brk]

@[simp] theorem steady_result (b : UInt8) : (p.result b).Steady ↔ p.Steady := by
  simp [result]

/-- A byte from the stack has the two bits as it likes, the status that it becomes has not. -/
theorem steady_ofByte (b : UInt8) : (ofByte b).Steady := by
  have every : ∀ b, (ofByte b).has .unused = true ∧ (ofByte b).has .brk = false :=
    forall_byte (by decide +kernel)
  exact (steady_iff _).mpr (every b)

theorem steady_reset : reset.Steady := ⟨by decide, by decide⟩

variable {p}

/-- An interrupt pushes the status itself. -/
theorem Steady.toInterrupted (h : p.Steady) : p.toInterrupted = p.bits :=
  (status_survives h.unused h.brk).1

/-- A program pushes it with both bits set, and pulls from that what it was. -/
theorem Steady.ofByte_pushed (h : p.Steady) : ofByte (p.bits ||| 0x30) = p := by
  obtain ⟨-, pushed, -, back⟩ := status_survives h.unused h.brk
  rw [← toPushed_eq, pushed, back]

end Status

/-! ## Operations -/

namespace Registers

variable (r : Registers) (v : UInt8)

@[simp] theorem steady_withA : (r.withA v).p.Steady ↔ r.p.Steady := r.p.steady_result v

@[simp] theorem steady_withX : (r.withX v).p.Steady ↔ r.p.Steady := r.p.steady_result v

@[simp] theorem steady_withY : (r.withY v).p.Steady ↔ r.p.Steady := r.p.steady_result v

@[simp] theorem steady_addBinary : (r.addBinary v).p.Steady ↔ r.p.Steady := by
  simp [addBinary]

@[simp] theorem steady_add : (r.add v).p.Steady ↔ r.p.Steady := by
  unfold add
  split
  · simp [addDecimal]
  · exact r.steady_addBinary v

@[simp] theorem steady_sub : (r.sub v).p.Steady ↔ r.p.Steady := by
  unfold sub
  split
  · simp [subDecimal]
  · exact r.steady_addBinary _

@[simp] theorem steady_compare (register : UInt8) :
    (r.compare register v).p.Steady ↔ r.p.Steady := by
  simp [compare]

@[simp] theorem steady_testBits : (r.testBits v).p.Steady ↔ r.p.Steady := by
  simp [testBits]

@[simp] theorem steady_andRotate : (r.andRotate v).p.Steady ↔ r.p.Steady := by
  unfold andRotate
  simp only []
  split
  · split <;> simp
  · simp

end Registers

/-- What an action makes of registers with a steady status has a steady status. -/
def Action.KeepsSteady (a : Action) : Prop :=
  match a with
  | .read apply => ∀ config r v, r.p.Steady → (apply config r v).p.Steady
  | .storeMasked prepare _ => ∀ r, r.p.Steady → (prepare r).p.Steady
  | .modify shift apply =>
    (∀ p v, p.Steady → (shift p v).2.Steady) ∧ ∀ r v, r.p.Steady → (apply r v).p.Steady
  | .pull apply => ∀ r v, r.p.Steady → (apply r v).p.Steady
  | .internal apply | .implied apply => ∀ r, r.p.Steady → (apply r).p.Steady
  | _ => True

theorem action_keepsSteady (op : Opcode) : op.action.KeepsSteady := by
  obtain ⟨mnemonic, mode, cycles⟩ := op
  cases mnemonic
  case nop =>
    rcases action_of_nop ⟨.nop, mode, cycles⟩ rfl with same | same
    · rw [same]
      exact fun _ h => h
    · rw [same]
      exact fun _ _ _ h => h
  -- The one operation that takes the whole status from a byte.
  case plp => exact fun _ v _ => Status.steady_ofByte v
  all_goals
    simp [Opcode.action, Action.KeepsSteady, Action.load, Action.flag, Action.change,
      Action.branchOn, Shift.left, Shift.right, Shift.rotateLeft, Shift.rotateRight,
      Shift.increment, Shift.decrement, Shift.incrementOnly, Shift.decrementOnly,
      Registers.withFlag, Registers.orA, Registers.andA, Registers.xorA, Registers.andCarry,
      Registers.subFromShared]

variable {op : Opcode} {config : Config} {r r' : Registers} {own accesses : List Access}
  {extra n : Nat}

theorem Opcode.Results.steady (h : op.Results config r own r') (steady : r.p.Steady) :
    r'.p.Steady := by
  have keeps {a : Action} (action : op.action = a) : a.KeepsSteady := action ▸ action_keepsSteady op
  cases h with
  | read v action => exact keeps action _ _ v steady
  | store action => exact steady
  | storeMasked action => exact keeps action r steady
  | accumulator action mode => exact (keeps action).2 _ _ ((keeps action).1 _ _ steady)
  | modify v action mode => exact (keeps action).2 _ _ ((keeps action).1 _ v steady)
  | internal action => exact keeps action r steady
  | implied action => exact keeps action r steady
  | push action => exact steady
  | pull v action => exact keeps action _ v steady
  | branch distance action taken => exact steady
  | notTaken action taken => exact steady
  | jump action mode found => exact steady
  | callSubroutine low high action => exact steady
  | returnFromSubroutine low high action => exact steady
  | returnFromInterrupt p low high action => exact Status.steady_ofByte p
  | softwareInterrupt low high action => simpa using steady
  | halt action => exact steady

/-! ## Steps -/

variable {β : Type} [Bus β] {cpu cpu' : Cpu} {bus bus' : β} {lines : InterruptLines}

theorem Leaves.steady (h : Leaves cpu lines accesses r) (steady : cpu.regs.p.Steady) :
    r.p.Steady := by
  cases h with
  | jammed stopped => exact steady
  | enter before low high running chosen => simpa using steady
  | execute b running chosen results => exact results.steady steady

theorem step_steady (run : cpu.step bus = .ok (n, cpu', bus')) (steady : cpu.regs.p.Steady) :
    cpu'.regs.p.Steady := by
  have known := step_leads cpu bus
  rw [run] at known
  obtain ⟨-, accesses, -, leaves, -⟩ := known
  exact leaves.steady steady

theorem reset_steady (run : cpu.reset bus = .ok (cpu', bus')) : cpu'.regs.p.Steady := by
  unfold reset at run
  obtain ⟨after, -, run⟩ := bind_eq_ok.mp run
  cases run
  exact Status.steady_reset

/-- The processors that come about by steps from one that is new, or from any whatever that has
been reset. Every step may find another bus, and may find it changed. -/
inductive Reached : Cpu → Prop
  | new (config : Config) : Reached (.new config)
  | reset {β : Type} [Bus β] {cpu cpu' : Cpu} {bus bus' : β}
      (run : cpu.reset bus = .ok (cpu', bus')) : Reached cpu'
  | reconfigure {cpu : Cpu} (config : Config) (before : Reached cpu) :
      Reached { cpu with config }
  | step {β : Type} [Bus β] {cpu cpu' : Cpu} {bus bus' : β} {n : Nat} (before : Reached cpu)
      (run : cpu.step bus = .ok (n, cpu', bus')) : Reached cpu'

theorem Reached.steady (reached : Reached cpu) : cpu.regs.p.Steady := by
  induction reached with
  | new config => exact Status.steady_reset
  | reset run => exact reset_steady run
  | reconfigure config before ih => exact ih
  | step before run ih => exact step_steady run ih

/-! ## The stack -/

/-- A step with these accesses executes an operation. -/
def Executes (cpu : Cpu) (lines : InterruptLines) (accesses : List Access) (mnemonic : Mnemonic) :
    Prop :=
  cpu.jammed = false ∧ (cpu.poll lines).1 = none ∧
    ∃ b rest, accesses = .read cpu.regs.pc b :: rest ∧ (Opcode.decode b).mnemonic = mnemonic

/-- What a step with these accesses has to do with the status on the stack, by the processor before
it and the registers behind it. -/
structure StacksStatus (cpu : Cpu) (lines : InterruptLines) (accesses : List Access)
    (after : Registers) : Prop where
  /-- An interrupt entry pushes the status itself. -/
  entry : cpu.jammed = false → ∀ i, (cpu.poll lines).1 = some i →
    writesOf accesses =
      pushes cpu.regs.s [highByte cpu.regs.pc, lowByte cpu.regs.pc, cpu.regs.p.bits]
  /-- A program pushes it with both bits set. -/
  php : cpu.Executes lines accesses .php →
    writesOf accesses = pushes cpu.regs.s [cpu.regs.p.bits ||| 0x30]
  brk : cpu.Executes lines accesses .brk →
    writesOf accesses = pushes cpu.regs.s
      [highByte (cpu.regs.pc + 2), lowByte (cpu.regs.pc + 2), cpu.regs.p.bits ||| 0x30]
  /-- Whichever status was pushed like that, a pull of the byte restores it. -/
  plp : cpu.Executes lines accesses .plp → ∀ p : Status, p.Steady →
    accesses.getLast? = some (.read (cpu.regs.pulled 1).stackTop (p.bits ||| 0x30)) → after.p = p

theorem Acts.executed {mnemonic : Mnemonic} (h : Acts cpu lines accesses n)
    (executes : cpu.Executes lines accesses mnemonic) :
    ∃ b own extra, accesses = .read cpu.regs.pc b :: own ∧
      (Opcode.decode b).mnemonic = mnemonic ∧
      (Opcode.decode b).Performs (cpu.regs.past 1) own extra := by
  obtain ⟨running, quiet, b, rest, same, decodes⟩ := executes
  cases h with
  | jammed stopped => cases same
  | enter dropped dropped' low high running chosen => cases quiet.symm.trans chosen
  | execute b' running quiet performed =>
    cases same
    exact ⟨b, rest, _, rfl, decodes, performed⟩

theorem Leaves.executed {mnemonic : Mnemonic} (h : Leaves cpu lines accesses r)
    (executes : cpu.Executes lines accesses mnemonic) :
    ∃ b own, accesses = .read cpu.regs.pc b :: own ∧ (Opcode.decode b).mnemonic = mnemonic ∧
      (Opcode.decode b).Results cpu.config (cpu.regs.past 1) own r := by
  obtain ⟨running, quiet, b, rest, same, decodes⟩ := executes
  cases h with
  | jammed stopped => cases same
  | enter before low high running chosen => cases quiet.symm.trans chosen
  | execute b' running quiet results =>
    cases same
    exact ⟨b, rest, rfl, decodes, results⟩

/-- A push writes one byte. -/
theorem Opcode.Performs.writesOf_push {value : Registers → UInt8} (h : op.Performs r own extra)
    (action : op.action = .push value) : writesOf own = pushes r.s [value r] := by
  cases h with
  | push dropped action' =>
    cases action.symm.trans action'
    rfl
  | _ => simp_all

/-- A software interrupt writes the address behind its operand, and the status. -/
theorem Opcode.Performs.writesOf_interrupt (h : op.Performs r own extra)
    (action : op.action = .softwareInterrupt) :
    writesOf own = pushes r.s [highByte (r.pc + 1), lowByte (r.pc + 1), r.p.toPushed] := by
  cases h with
  | softwareInterrupt dropped low high action' => exact (pushes_three r _ _ _).symm
  | _ => simp_all

/-- A pull hands on the byte that it reads last. -/
theorem Opcode.Results.pulled {apply : Registers → UInt8 → Registers}
    (h : op.Results config r own r') (action : op.action = .pull apply) :
    ∃ first address v, own = [first, .read address v] ∧ r' = apply (r.pulled 1) v := by
  cases h with
  | pull v action' =>
    cases action.symm.trans action'
    exact ⟨_, _, v, rfl, rfl⟩
  | _ => simp_all

/-- With a steady status, a step puts on the stack what is said of it. -/
theorem Acts.stacksStatus (acts : Acts cpu lines accesses n) (leaves : Leaves cpu lines accesses r)
    (steady : cpu.regs.p.Steady) : StacksStatus cpu lines accesses r where
  entry running i chosen := by
    cases acts with
    | jammed stopped => cases running.symm.trans stopped
    | enter dropped dropped' low high running chosen =>
      rw [← steady.toInterrupted]
      exact (pushes_three cpu.regs _ _ _).symm
    | execute b running quiet performed => cases quiet.symm.trans chosen
  php executes := by
    obtain ⟨b, own, extra, rfl, php, performed⟩ := acts.executed executes
    rw [← toPushed_eq]
    exact performed.writesOf_push (action_of_mnemonic php (by decide))
  brk executes := by
    obtain ⟨b, own, extra, rfl, brk, performed⟩ := acts.executed executes
    have two : (cpu.regs.past 1).pc + 1 = cpu.regs.pc + 2 := UInt16.add_assoc _ 1 1
    rw [← toPushed_eq, ← two]
    exact performed.writesOf_interrupt (action_of_mnemonic brk (by decide))
  plp executes p was last := by
    obtain ⟨b, own, rfl, plp, results⟩ := leaves.executed executes
    obtain ⟨first, address, v, rfl, rfl⟩ :=
      results.pulled (action_of_mnemonic plp (by decide))
    cases last
    exact was.ofByte_pushed

/-! ## On flat memory -/

theorem execute_php (cpu : Cpu) (m : FlatMemory) (opcode : m.ram.read cpu.regs.pc = 0x08) :
    cpu.execute m =
      .ok (3, { cpu with regs := (cpu.regs.past 1).pushed 1, lastOpcode := 0x08 },
        { m with ram := m.ram.write cpu.regs.stackTop cpu.regs.p.toPushed }) := by
  have fetched : (Core.fetch ⟨cpu.regs, m⟩).1 = 0x08 := opcode
  unfold execute
  simp only [fetched]
  conv => rhs; rw [← Bool.or_false cpu.jammed]
  rfl

theorem execute_plp (cpu : Cpu) (m : FlatMemory) (opcode : m.ram.read cpu.regs.pc = 0x28) :
    cpu.execute m =
      .ok (4, { cpu with
          regs := { (cpu.regs.past 1).pulled 1 with
            p := .ofByte (m.ram.read (cpu.regs.pulled 1).stackTop) }
          lastOpcode := 0x28
          delayedMask := some (cpu.regs.p.has .interrupt) }, m) := by
  have fetched : (Core.fetch ⟨cpu.regs, m⟩).1 = 0x28 := opcode
  unfold execute
  simp only [fetched]
  conv => rhs; rw [← Bool.or_false cpu.jammed]
  rfl

/-- A step on flat memory executes the opcode `b`. -/
structure Runs (cpu : Cpu) (m : FlatMemory) (b : UInt8) : Prop where
  running : cpu.jammed = false
  quiet : (cpu.poll m.lines).1 = none
  opcode : m.ram.read cpu.regs.pc = b

/-- The processor behind a push of the status, before which it polled these lines. -/
def afterPush (cpu : Cpu) (lines : InterruptLines) : Cpu :=
  { (cpu.poll lines).2 with
    regs := (cpu.regs.past 1).pushed 1
    lastOpcode := 0x08
    totalCycles := cpu.totalCycles + 3 }

/-- The processor behind a pull of the status `p`, before which it polled these lines. -/
def afterPull (cpu : Cpu) (lines : InterruptLines) (p : Status) : Cpu :=
  { (cpu.poll lines).2 with
    regs := { (cpu.regs.past 1).pulled 1 with p }
    lastOpcode := 0x28
    delayedMask := some (cpu.regs.p.has .interrupt)
    totalCycles := cpu.totalCycles + 4 }

variable {m : FlatMemory}

theorem Runs.push (runs : cpu.Runs m 0x08) :
    cpu.step m = .ok (3, cpu.afterPush m.lines, { m with
      ram := m.ram.write cpu.regs.stackTop (cpu.regs.p.bits ||| 0x30)
      cycles := m.cycles + 3 }) := by
  rw [← toPushed_eq]
  exact step_of_execute runs.running runs.quiet
    (execute_php (cpu.poll m.lines).2 m runs.opcode)

theorem Runs.pull (runs : cpu.Runs m 0x28) {b : UInt8}
    (found : m.ram.read (cpu.regs.pulled 1).stackTop = b) :
    cpu.step m =
      .ok (4, cpu.afterPull m.lines (.ofByte b), { m with cycles := m.cycles + 4 }) := by
  subst found
  exact step_of_execute runs.running runs.quiet
    (execute_plp (cpu.poll m.lines).2 m runs.opcode)

/-- A push of the status leaves it on the stack with both bits set. Whatever happens then, if the
stack pointer is back and that byte is as it was, a pull restores the status. -/
def PushesAndPulls (cpu : Cpu) (m : FlatMemory) : Prop :=
  cpu.step m = .ok (3, cpu.afterPush m.lines, { m with
    ram := m.ram.write cpu.regs.stackTop (cpu.regs.p.bits ||| 0x30)
    cycles := m.cycles + 3 }) ∧
  ∀ (cpu' : Cpu) (m' : FlatMemory), cpu'.Runs m' 0x28 → cpu'.regs.s = cpu.regs.s - 1 →
    m'.ram.read cpu.regs.stackTop = cpu.regs.p.bits ||| 0x30 →
    cpu'.step m' =
      .ok (4, cpu'.afterPull m'.lines cpu.regs.p, { m' with cycles := m'.cycles + 4 })

theorem Runs.pushesAndPulls (runs : cpu.Runs m 0x08) (steady : cpu.regs.p.Steady) :
    cpu.PushesAndPulls m := by
  refine ⟨runs.push, fun cpu' m' runs' s kept => ?_⟩
  have s : cpu'.regs.s = (cpu.regs.pushed (0 + 1)).s := s
  have top : (cpu'.regs.pulled 1).stackTop = cpu.regs.stackTop :=
    (Registers.stackTop_pulled 0 1 s).trans (congrArg _ cpu.regs.pushed_zero)
  rw [runs'.pull ((congrArg _ top).trans kept), steady.ofByte_pushed]

/-- Whatever a processor has been through since it was made or reset, unused is set in its status
and break is clear. So an interrupt entry pushes the status as it is, a program pushes it with both
bits set, and a pull of such a byte, on every bus, makes it the status that was pushed. -/
theorem Reached.status_fixed (reached : Reached cpu) :
    (cpu.regs.p.has .unused = true ∧ cpu.regs.p.has .brk = false) ∧
    (∀ {β : Type} [Bus β] (t : Traced β),
      Yields (Refuses t.bus)
        (fun (n, cpu', t') => ∃ accesses, t'.trace = t.trace ++ accesses ++ [.tick n] ∧
          StacksStatus cpu (Bus.lines t.bus) accesses cpu'.regs)
        (cpu.step t)) ∧
    ∀ m : FlatMemory, cpu.Runs m 0x08 → cpu.PushesAndPulls m := by
  have steady := reached.steady
  refine ⟨(Status.steady_iff _).mp steady, ?_, fun m runs => runs.pushesAndPulls steady⟩
  intro β _ t
  refine ((step_leads cpu t).mono ?_).allowing fun _ => Refuses.traced
  rintro ⟨n, cpu', t'⟩ ⟨-, accesses, acts, leaves, leads⟩
  refine ⟨accesses, ?_, acts.stacksStatus leaves steady⟩
  rw [List.append_assoc]
  exact leads.traced.2

/-- Memory with `plp`, `php` and `plp` at its start, and on the stack a byte in which break is set
and unused is clear. -/
def tampered : FlatMemory :=
  { FlatMemory.zero with
    ram := (((FlatMemory.zero.ram.write 0 0x28).write 1 0x08).write 2 0x28).write 0x01FE 0xDF }

theorem read_tampered (address : UInt16) :
    tampered.ram.read address =
      if 0x01FE = address then 0xDF else if 2 = address then 0x28
      else if 1 = address then 0x08 else if 0 = address then 0x28 else 0 := by
  have zero : Ram.read (Bytes.replicate 0x10000 0) address = 0 := Bytes.get_replicate _ _
  simp only [tampered, FlatMemory.zero, Ram.read_write, zero]

/-- The processor that pulled this byte has a status all the same, and after a push gets it back. -/
theorem status_fixed_tampered :
    let pulled := (Cpu.new {}).afterPull {} ⟨0xEF⟩
    let pushed := pulled.afterPush {}
    ∃ m₁ m₂ m₃, (Cpu.new {}).step tampered = .ok (4, pulled, m₁) ∧
      m₁.ram.read 0x01FE = 0xDF ∧ pulled.regs.p.has .unused = true ∧
      pulled.regs.p.has .brk = false ∧ pulled.step m₁ = .ok (3, pushed, m₂) ∧
      m₂.ram.read 0x01FE = 0xFF ∧ pushed.step m₂ = .ok (4, pushed.afterPull {} ⟨0xEF⟩, m₃) := by
  intro pulled pushed
  have first : (Cpu.new {}).Runs tampered 0x28 := ⟨rfl, rfl, read_tampered 0⟩
  have step₁ : (Cpu.new {}).step tampered = .ok (4, pulled, { tampered with cycles := 4 }) :=
    first.pull (read_tampered 0x01FE)
  obtain ⟨⟨unused, brk⟩, -, restores⟩ := Reached.status_fixed (.step (.new {}) step₁)
  obtain ⟨step₂, restore⟩ :=
    restores { tampered with cycles := 4 } ⟨rfl, rfl, read_tampered 1⟩
  have stack : pulled.regs.stackTop = 0x01FE := by decide
  have top : ∀ b, (tampered.ram.write pulled.regs.stackTop b).read 0x01FE = b := fun b => by
    rw [Ram.read_write, if_pos stack]
  have opcode : ∀ b, (tampered.ram.write pulled.regs.stackTop b).read 2 = 0x28 := fun b => by
    rw [Ram.read_write, stack]
    exact read_tampered 2
  have kept : ∀ b, (tampered.ram.write pulled.regs.stackTop b).read pulled.regs.stackTop = b :=
    fun b => by rw [Ram.read_write, if_pos rfl]
  have full : pulled.regs.p.bits ||| 0x30 = 0xFF := by decide
  exact ⟨_, _, _, step₁, read_tampered 0x01FE, unused, brk, step₂, (top _).trans full,
    restore pushed _ ⟨rfl, rfl, opcode _⟩ rfl (kept _)⟩

end C64.Cpu
