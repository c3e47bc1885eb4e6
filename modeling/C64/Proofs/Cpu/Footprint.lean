import C64.Proofs.Cpu.Simulation

/-!
# What a step asks of the bus

Of every opcode it is known beforehand how many bytes it writes and how many cycles it can take
beyond those of the decode table (`Opcode.writes`, `Opcode.surcharge`). A bus on which writes
succeed therefore carries a step to its end, in one to eight cycles and with at most one write
for two of them (`act_spends`). What the bus keeps may count the writes: `Bus.Sustains` is about
a property with a number, which a read leaves as it is and a write raises by one.
-/

namespace C64

/-- Reads keep a property of the bus, writes succeed and take it from one number to the next. -/
structure Bus.Sustains {β : Type} [Bus β] (P : Nat → β → Prop) : Prop where
  read {k : Nat} {bus : β} : P k bus → ∀ address, P k (Bus.read bus address).2
  write {k : Nat} {bus : β} : P k bus → ∀ address value,
    Succeeds (P (k + 1)) (Bus.write bus address value)

namespace Cpu

open Bus (Sustains)

/-! ## What an opcode costs -/

/-- The bytes that an operation writes. -/
def Opcode.writes (op : Opcode) : Nat :=
  match op.action with
  | .store _ | .storeMasked _ _ | .push _ => 1
  | .modify _ _ => if op.mode = .accumulator then 0 else 2
  | .callSubroutine => 2
  | .softwareInterrupt => 3
  | _ => 0

/-- The most cycles that an operation takes beyond its own. -/
def Opcode.surcharge (op : Opcode) : Nat :=
  match op.action with
  | .read _ => if op.pagePenalty then 1 else 0
  | .branch _ => 2
  | _ => 0

theorem decode_costs (b : UInt8) :
    1 ≤ (Opcode.decode b).cycles ∧
      (Opcode.decode b).cycles + (Opcode.decode b).surcharge ≤ mostCycles ∧
      2 * (Opcode.decode b).writes ≤ (Opcode.decode b).cycles := by
  have every : ∀ op ∈ Opcode.table.toList,
      1 ≤ op.cycles ∧ op.cycles + op.surcharge ≤ mostCycles ∧ 2 * op.writes ≤ op.cycles := by
    decide +kernel
  exact Opcode.forall_decode every b

/-! ## The core -/

variable {β : Type} [Bus β] {P : Nat → β → Prop} {k : Nat}

namespace Core

/-- The bus of a core has a property, at some number. -/
def On (P : Nat → β → Prop) (k : Nat) (c : Core β) : Prop := P k c.bus

variable {c : Core β} (sustains : Sustains P)
include sustains

theorem On.read (h : c.On P k) (address : UInt16) : (c.read address).2.On P k :=
  sustains.read h address

theorem On.touch (h : c.On P k) (address : UInt16) : (c.touch address).On P k :=
  h.read sustains address

theorem On.write (h : c.On P k) (address : UInt16) (b : UInt8) :
    Succeeds (On P (k + 1)) (c.write address b) :=
  (sustains.write h address b).andThen fun _ h => h

theorem On.fetch (h : c.On P k) : c.fetch.2.On P k :=
  h.read sustains c.regs.pc

theorem On.fetchWord (h : c.On P k) : c.fetchWord.2.On P k :=
  (h.fetch sustains).fetch sustains

theorem On.readWord (h : c.On P k) (address : UInt16) : (c.readWord address).2.On P k :=
  (h.read sustains address).read sustains (address + 1)

theorem On.readWordInPage (h : c.On P k) (address : UInt16) :
    (c.readWordInPage address).2.On P k :=
  (h.read sustains address).read sustains _

theorem On.push (h : c.On P k) (b : UInt8) : Succeeds (On P (k + 1)) (c.push b) :=
  On.write (c := { c with regs.s := c.regs.s - 1 }) sustains h _ b

theorem On.pull (h : c.On P k) : c.pull.2.On P k :=
  On.read (c := { c with regs.s := c.regs.s + 1 }) sustains h _

theorem On.pushWord (h : c.On P k) (w : UInt16) : Succeeds (On P (k + 2)) (c.pushWord w) :=
  (h.push sustains (highByte w)).bind fun _ h => h.push sustains (lowByte w)

theorem On.pullWord (h : c.On P k) : c.pullWord.2.On P k :=
  (h.pull sustains).pull sustains

theorem On.effective (h : c.On P k) (mode : AddressMode) : (c.effective mode).2.On P k := by
  cases mode with
  | zeroPage => exact h.fetch sustains
  | zeroPageX => exact (h.fetch sustains).touch sustains _
  | zeroPageY => exact (h.fetch sustains).touch sustains _
  | absolute => exact h.fetchWord sustains
  | absoluteX => exact h.fetchWord sustains
  | absoluteY => exact h.fetchWord sustains
  | indirect => exact (h.fetchWord sustains).readWordInPage sustains _
  | indirectX => exact ((h.fetch sustains).touch sustains _).readWordInPage sustains _
  | indirectY => exact (h.fetch sustains).readWordInPage sustains _

theorem On.readAddress (h : c.On P k) (mode : AddressMode) : (c.readAddress mode).2.On P k := by
  have found := h.effective sustains mode
  unfold Core.readAddress
  simp only []
  split
  · split
    · exact found.touch sustains _
    · exact found
  · exact found

theorem On.writeAddress (h : c.On P k) (mode : AddressMode) : (c.writeAddress mode).2.On P k := by
  have found := h.effective sustains mode
  unfold Core.writeAddress
  simp only []
  split
  · exact found.touch sustains _
  · exact found

/-! ## Operations -/

omit sustains in
theorem penalty_le (crossed penalty : Bool) :
    (if crossed && penalty then 1 else 0) ≤ (if penalty then 1 else 0) := by
  cases crossed <;> cases penalty <;> decide

theorem On.readOperand (h : c.On P k) {op : Opcode}
    (fits : op.mode = .immediate ∨ ∃ m, op.mode = .memory m) :
    Succeeds (fun out => out.2.1 ≤ (if op.pagePenalty then 1 else 0) ∧ out.2.2.On P k)
      (c.readOperand op) := by
  unfold Core.readOperand
  rcases fits with fits | ⟨m, fits⟩
  · rw [fits]
    exact .ok ⟨Nat.zero_le _, h.fetch sustains⟩
  · rw [fits]
    exact .ok ⟨penalty_le _ _, (h.readAddress sustains m).read sustains _⟩

theorem On.writeOperand (h : c.On P k) {mode : Mode} (fits : ∃ m, mode = .memory m) :
    Succeeds (fun out => out.2.On P k) (c.writeOperand mode) := by
  obtain ⟨m, rfl⟩ := fits
  exact .ok (h.writeAddress sustains m)

theorem On.storeMasked (h : c.On P k) {mode : Mode} (fits : ∃ m, mode = .memory m)
    (value : UInt8) : Succeeds (On P (k + 1)) (c.storeMasked mode value) :=
  (h.writeOperand sustains fits).bind fun _ h => h.write sustains _ _

theorem On.modify (h : c.On P k) {mode : Mode}
    (fits : mode = .accumulator ∨ ∃ m, mode = .memory m) (shift : Shift) :
    Succeeds (fun out => out.2.On P (k + if mode = .accumulator then 0 else 2))
      (c.modify mode shift) := by
  rcases fits with rfl | ⟨m, rfl⟩
  · exact .ok (h.touch sustains c.regs.pc)
  · refine (h.writeOperand sustains ⟨m, rfl⟩).bind fun p h => ?_
    refine ((h.read sustains p.1.address).write sustains _ _).bind fun c h => ?_
    refine (On.write (c := c.mapRegs _) sustains h _ _).bind fun c h => .ok ?_
    exact h

theorem On.branch (h : c.On P k) (taken : Bool) :
    (c.branch taken).1 ≤ 2 ∧ (c.branch taken).2.On P k := by
  have fetched := h.fetch sustains
  unfold Core.branch
  simp only []
  cases taken with
  | true =>
    refine ⟨?_, fetched⟩
    show (if _ then 1 else 2) ≤ 2
    split <;> decide
  | false => exact ⟨Nat.zero_le _, fetched⟩

/-- What the table says of an operation holds. -/
theorem On.perform (h : c.On P k) (config : Config) {op : Opcode}
    (fits : op.action.accepts op.mode = true) :
    Succeeds (fun out => out.1 ≤ op.surcharge ∧ out.2.On P (k + op.writes))
      (c.perform config op) := by
  unfold Core.perform Opcode.surcharge Opcode.writes
  cases haction : op.action with
  | read apply =>
    simp only [haction, Action.accepts, Bool.or_eq_true, decide_eq_true_eq,
      Mode.isMemory_iff] at fits
    exact (h.readOperand sustains fits).bind fun _ h => .ok h
  | store value =>
    simp only [haction, Action.accepts, Mode.isMemory_iff] at fits
    refine (h.writeOperand sustains fits).bind fun p h => ?_
    exact (h.write sustains p.1.address _).bind fun _ h => .ok ⟨Nat.zero_le _, h⟩
  | storeMasked prepare value =>
    simp only [haction, Action.accepts, Mode.isMemory_iff] at fits
    exact (On.storeMasked (c := c.mapRegs prepare) sustains h fits _).bind fun _ h =>
      .ok ⟨Nat.zero_le _, h⟩
  | modify shift apply =>
    simp only [haction, Action.accepts, Bool.or_eq_true, decide_eq_true_eq,
      Mode.isMemory_iff] at fits
    exact (h.modify sustains fits shift).bind fun _ h => .ok ⟨Nat.zero_le _, h⟩
  | internal apply => exact .ok ⟨Nat.zero_le _, h⟩
  | implied apply => exact .ok ⟨Nat.zero_le _, h.touch sustains _⟩
  | push value =>
    exact ((h.touch sustains c.regs.pc).push sustains _).bind fun _ h => .ok ⟨Nat.zero_le _, h⟩
  | pull apply => exact .ok ⟨Nat.zero_le _, (h.touch sustains c.regs.pc).pull sustains⟩
  | branch taken => exact .ok (h.branch sustains _)
  | jump =>
    simp only [haction, Action.accepts, Mode.isMemory_iff] at fits
    obtain ⟨m, fits⟩ := fits
    simp only [fits]
    exact .ok ⟨Nat.zero_le _, h.effective sustains m⟩
  | callSubroutine =>
    exact ((h.fetchWord sustains).pushWord sustains _).bind fun _ h => .ok ⟨Nat.zero_le _, h⟩
  | returnFromSubroutine =>
    exact .ok ⟨Nat.zero_le _, (h.touch sustains c.regs.pc).pullWord sustains⟩
  | returnFromInterrupt =>
    exact .ok ⟨Nat.zero_le _, ((h.touch sustains c.regs.pc).pull sustains).pullWord sustains⟩
  | softwareInterrupt =>
    refine ((h.fetch sustains).pushWord sustains _).bind fun c h => ?_
    exact (h.push sustains _).bind fun _ h => .ok ⟨Nat.zero_le _, h.readWord sustains irqVector⟩
  | halt => exact .ok ⟨Nat.zero_le _, h⟩

end Core

/-! ## The processor -/

/-- A poll counts no cycle. -/
theorem poll_totalCycles (cpu : Cpu) (lines : InterruptLines) :
    (cpu.poll lines).2.totalCycles = cpu.totalCycles := rfl

variable {cpu : Cpu} {bus : β} (sustains : Sustains P)
include sustains

/-- The accesses of a step that takes `n` cycles are over: the bus has seen no more writes than
half of them, and the time of the step is not yet counted. -/
structure Spent (P : Nat → β → Prop) (k : Nat) (cpu : Cpu) (n : Nat) (cpu' : Cpu) (bus : β) :
    Prop where
  one_le : 1 ≤ n
  le_most : n ≤ mostCycles
  totalCycles : cpu'.totalCycles = cpu.totalCycles
  bus : ∃ writes, 2 * writes ≤ n ∧ P (k + writes) bus

theorem enter_spends (h : P k bus) (i : Interrupt) :
    Succeeds (fun out => out.1.totalCycles = cpu.totalCycles ∧ P (k + 3) out.2)
      (cpu.enter bus i) := by
  have core : Core.On P k ⟨cpu.regs, bus⟩ := h
  unfold enter
  refine (((core.touch sustains _).touch sustains _).pushWord sustains _).bind fun c h => ?_
  exact (h.push sustains _).bind fun c h => .ok ⟨rfl, h.readWord sustains i.vector⟩

theorem execute_spends (h : P k bus) :
    Succeeds (fun out => Spent P k cpu out.1 out.2.1 out.2.2) (cpu.execute bus) := by
  have core : Core.On P k ⟨cpu.regs, bus⟩ := h
  unfold execute
  generalize hb : (Core.fetch ⟨cpu.regs, bus⟩).1 = b
  have fetched := core.fetch sustains
  obtain ⟨one_le, le_most, writes⟩ := decode_costs b
  simp only [hb]
  refine (fetched.perform sustains cpu.config (decode_fits b).1).bind ?_
  rintro ⟨extra, c⟩ ⟨few, h⟩
  refine .ok ⟨Nat.le_add_right_of_le one_le, ?_, rfl, _, ?_, h⟩
  · exact Nat.le_trans (Nat.add_le_add_left few _) le_most
  · exact Nat.le_trans writes (Nat.le_add_right _ _)

/-- A step comes out well up to the passing of its time, and takes one to eight cycles. -/
theorem act_spends (h : P k bus) :
    Succeeds (fun out => Spent P k cpu out.1 out.2.1 out.2.2) (cpu.act bus) := by
  unfold act
  split
  · exact .ok ⟨Nat.le_refl 1, (by decide : 1 ≤ mostCycles), rfl, 0, Nat.zero_le _, h⟩
  · have same := cpu.poll_totalCycles (Bus.lines bus)
    rcases hpoll : cpu.poll (Bus.lines bus) with ⟨_ | i, polled⟩
    all_goals rw [hpoll] at same
    · exact (execute_spends sustains h).mono fun _ h => { h with
        totalCycles := h.totalCycles.trans same }
    · refine (enter_spends sustains h i).andThen fun out h => ?_
      exact ⟨(by decide : 1 ≤ interruptCycles), (by decide : interruptCycles ≤ mostCycles),
        h.1.trans same, 3, (by decide : 2 * 3 ≤ interruptCycles), h.2⟩

/-! ### With the passing of time -/

variable {Q : Nat → β → Prop}

/-- Where time can pass behind the accesses, a step comes out well, and its time is counted. -/
theorem step_spends (h : P k bus)
    (ticks : ∀ n writes bus, 1 ≤ n → n ≤ mostCycles → 2 * writes ≤ n → P (k + writes) bus →
      Succeeds (Q n) (Bus.tick bus n)) :
    Succeeds (fun out => 1 ≤ out.1 ∧ out.1 ≤ mostCycles ∧
      out.2.1.totalCycles = cpu.totalCycles + out.1 ∧ Q out.1 out.2.2) (cpu.step bus) := by
  rw [step_eq]
  refine (act_spends sustains h).bind ?_
  rintro ⟨n, acted, between⟩ ⟨one_le, le_most, same, writes, few, h⟩
  refine (ticks n writes between one_le le_most few h).andThen fun bus' hQ => ?_
  exact ⟨one_le, le_most, congrArg (· + n) same, hQ⟩

theorem reset_spends (h : P k bus)
    (ticks : ∀ bus, P k bus → Succeeds (Q interruptCycles) (Bus.tick bus interruptCycles)) :
    Succeeds (fun out => out.1.totalCycles = cpu.totalCycles + interruptCycles ∧
      Q interruptCycles out.2) (cpu.reset bus) := by
  have core : Core.On P k ⟨.reset, bus⟩ := h
  unfold reset
  exact (ticks _ (core.readWord sustains resetVector)).andThen fun _ hQ => ⟨rfl, hQ⟩

/-! ### Where time may not pass -/

variable {n : Nat} {cpu' : Cpu} {after : β}

/-- Behind a step that came out well there was a moment when its accesses were over and its time
had not passed. -/
theorem step_ran (h : P k bus) (hrun : cpu.step bus = .ok (n, cpu', after)) :
    1 ≤ n ∧ n ≤ mostCycles ∧ ∃ writes between, P (k + writes) between ∧
      Bus.tick between n = .ok after := by
  rw [step_eq] at hrun
  obtain ⟨⟨n', acted, between⟩, hact, hrun⟩ := bind_eq_ok.mp hrun
  obtain ⟨after', htick, hret⟩ := bind_eq_ok.mp hrun
  cases hret
  have spent := (act_spends sustains h).of_ok hact
  obtain ⟨writes, -, h⟩ := spent.bus
  exact ⟨spent.one_le, spent.le_most, writes, between, h, htick⟩

theorem reset_ran (h : P k bus) (hrun : cpu.reset bus = .ok (cpu', after)) :
    ∃ between, P k between ∧ Bus.tick between interruptCycles = .ok after := by
  have core : Core.On P k ⟨.reset, bus⟩ := h
  obtain ⟨after', htick, hret⟩ := bind_eq_ok.mp hrun
  cases hret
  exact ⟨_, core.readWord sustains resetVector, htick⟩

end Cpu

end C64
