import Mathlib.Logic.Function.Basic
import C64.Proofs.Cpu.Polling

/-!
# Two processors in step

A processor knows its bus by what it reads there and by the interrupt lines. A relation between
the states of two buses that reading, writing and the passing of time keep, and under which both
read the same (`Bus.Simulates`), therefore lets two processors that agree (`Cpu.Agree`) go in step
(`Agree.step`). Of a processor's state only its counts and the last opcode do not matter.

With a relation that says of one board that it is sound, and the other the same board, this is
also how an invariant of the bus passes through an instruction.
-/

namespace C64

/-- Two buses that no processor tells apart, as long as their states are related. -/
structure Bus.Simulates {β γ : Type} [Bus β] [Bus γ] (faults : Prop) (R : β → γ → Prop) : Prop where
  read {b : β} {b' : γ} : R b b' → ∀ address, Beside R (Bus.read b address) (Bus.read b' address)
  write {b : β} {b' : γ} : R b b' → ∀ address value,
    Together faults R (Bus.write b address value) (Bus.write b' address value)
  tick {b : β} {b' : γ} : R b b' → ∀ n ≤ Cycle.clockMax,
    Together faults R (Bus.tick b n) (Bus.tick b' n)
  lines {b : β} {b' : γ} : R b b' → Bus.lines b = Bus.lines b'

namespace Cpu

open Bus (Simulates)

/-! ## Operations that name an address -/

/-- Whether a mode names an address. -/
def Mode.isMemory : Mode → Bool
  | .memory _ => true
  | _ => false

theorem Mode.isMemory_iff {mode : Mode} : mode.isMemory = true ↔ ∃ m, mode = .memory m := by
  cases mode <;> simp [isMemory]

/-- Whether an action can find its operand by a mode. -/
def Action.accepts (a : Action) (mode : Mode) : Bool :=
  match a with
  | .read _ => mode = .immediate || mode.isMemory
  | .modify _ _ => mode = .accumulator || mode.isMemory
  | .store _ | .storeMasked _ _ | .jump => mode.isMemory
  | _ => true

/-- The most cycles that an operation takes, without those of its operand. -/
def mostCycles : Nat := 8

/-- The most cycles that an operand or a branch adds. -/
def mostExtra : Nat := 2

/-- What is true of all opcodes of the table is true of the opcode of every byte. -/
theorem Opcode.forall_decode {P : Opcode → Prop} (every : ∀ op ∈ table.toList, P op) (b : UInt8) :
    P (decode b) :=
  every _ (Vector.mem_toList_iff.mpr (Vector.getElem_mem _))

theorem decode_fits (b : UInt8) :
    (Opcode.decode b).action.accepts (Opcode.decode b).mode = true ∧
      (Opcode.decode b).cycles ≤ mostCycles := by
  have every : ∀ op ∈ Opcode.table.toList,
      op.action.accepts op.mode = true ∧ op.cycles ≤ mostCycles := by
    decide +kernel
  exact Opcode.forall_decode every b

/-! ## The core -/

variable {β γ : Type} {faults : Prop} {R : β → γ → Prop}

namespace Core

/-- Two cores have the same registers and related buses. -/
structure Same (R : β → γ → Prop) (c : Core β) (c' : Core γ) : Prop where
  regs : c.regs = c'.regs
  bus : R c.bus c'.bus

variable {c : Core β} {c' : Core γ}

theorem Same.pc (h : Same R c c') : c.regs.pc = c'.regs.pc := congrArg Registers.pc h.regs

theorem Same.mapRegs (h : Same R c c') (f : Registers → Registers) :
    Same R (c.mapRegs f) (c'.mapRegs f) :=
  ⟨congrArg f h.regs, h.bus⟩

variable [Bus β] [Bus γ] (sim : Simulates faults R)
include sim

theorem Same.read (h : Same R c c') {a a' : UInt16} (ha : a = a') :
    Beside (Same R) (c.read a) (c'.read a') := by
  subst ha
  obtain ⟨shown, bus⟩ := sim.read h.bus a
  exact ⟨shown, h.regs, bus⟩

theorem Same.touch (h : Same R c c') {a a' : UInt16} (ha : a = a') :
    Same R (c.touch a) (c'.touch a') :=
  (h.read sim ha).2

theorem Same.write (h : Same R c c') {a a' : UInt16} {b b' : UInt8} (ha : a = a') (hb : b = b') :
    Together faults (Same R) (c.write a b) (c'.write a' b') := by
  subst ha hb
  exact (sim.write h.bus a b).andThen fun _ _ bus => ⟨h.regs, bus⟩

theorem Same.fetch (h : Same R c c') : Beside (Same R) c.fetch c'.fetch := by
  obtain ⟨byte, after⟩ := h.read sim h.pc
  exact ⟨byte, after.mapRegs fun r => { r with pc := r.pc + 1 }⟩

theorem Same.fetchWord (h : Same R c c') : Beside (Same R) c.fetchWord c'.fetchWord := by
  obtain ⟨low, after⟩ := h.fetch sim
  obtain ⟨high, after⟩ := after.fetch sim
  exact ⟨congrArg₂ wordOf high low, after⟩

theorem Same.readWord (h : Same R c c') {a a' : UInt16} (ha : a = a') :
    Beside (Same R) (c.readWord a) (c'.readWord a') := by
  obtain ⟨low, after⟩ := h.read sim ha
  obtain ⟨high, after⟩ := after.read sim (congrArg (· + 1) ha)
  exact ⟨congrArg₂ wordOf high low, after⟩

theorem Same.readWordInPage (h : Same R c c') {a a' : UInt16} (ha : a = a') :
    Beside (Same R) (c.readWordInPage a) (c'.readWordInPage a') := by
  subst ha
  obtain ⟨low, after⟩ := h.read sim rfl
  obtain ⟨high, after⟩ := after.read sim rfl
  exact ⟨congrArg₂ wordOf high low, after⟩

theorem Same.push (h : Same R c c') {b b' : UInt8} (hb : b = b') :
    Together faults (Same R) (c.push b) (c'.push b') :=
  (h.mapRegs fun r => { r with s := r.s - 1 }).write sim (congrArg Registers.stackTop h.regs) hb

theorem Same.pull (h : Same R c c') : Beside (Same R) c.pull c'.pull := by
  have raised := h.mapRegs fun r => { r with s := r.s + 1 }
  exact raised.read sim (congrArg Registers.stackTop raised.regs)

theorem Same.pushWord (h : Same R c c') {w w' : UInt16} (hw : w = w') :
    Together faults (Same R) (c.pushWord w) (c'.pushWord w') :=
  (h.push sim (congrArg highByte hw)).bind fun _ _ h => h.push sim (congrArg lowByte hw)

theorem Same.pullWord (h : Same R c c') : Beside (Same R) c.pullWord c'.pullWord := by
  obtain ⟨low, after⟩ := h.pull sim
  obtain ⟨high, after⟩ := after.pull sim
  exact ⟨congrArg₂ wordOf high low, after⟩

/-! ## Addresses -/

theorem Same.effective (h : Same R c c') (mode : AddressMode) :
    Beside (Same R) (c.effective mode) (c'.effective mode) := by
  cases mode with
  | zeroPage =>
    obtain ⟨base, after⟩ := h.fetch sim
    exact ⟨congrArg (fun b : UInt8 => Effective.direct b.toUInt16) base, after⟩
  | zeroPageX =>
    obtain ⟨base, after⟩ := h.fetch sim
    exact ⟨congrArg₂ (fun b (r : Registers) => Effective.direct (b + r.x).toUInt16) base after.regs,
      after.touch sim (congrArg UInt8.toUInt16 base)⟩
  | zeroPageY =>
    obtain ⟨base, after⟩ := h.fetch sim
    exact ⟨congrArg₂ (fun b (r : Registers) => Effective.direct (b + r.y).toUInt16) base after.regs,
      after.touch sim (congrArg UInt8.toUInt16 base)⟩
  | absolute =>
    obtain ⟨address, after⟩ := h.fetchWord sim
    exact ⟨congrArg Effective.direct address, after⟩
  | absoluteX =>
    obtain ⟨base, after⟩ := h.fetchWord sim
    exact ⟨congrArg₂ (fun b (r : Registers) => Effective.indexed b r.x) base after.regs, after⟩
  | absoluteY =>
    obtain ⟨base, after⟩ := h.fetchWord sim
    exact ⟨congrArg₂ (fun b (r : Registers) => Effective.indexed b r.y) base after.regs, after⟩
  | indirect =>
    obtain ⟨pointer, after⟩ := h.fetchWord sim
    obtain ⟨address, after⟩ := after.readWordInPage sim pointer
    exact ⟨congrArg Effective.direct address, after⟩
  | indirectX =>
    obtain ⟨base, after⟩ := h.fetch sim
    have after := after.touch sim (congrArg UInt8.toUInt16 base)
    obtain ⟨address, after⟩ := after.readWordInPage sim
      (congrArg₂ (fun b (r : Registers) => (b + r.x).toUInt16) base after.regs)
    exact ⟨congrArg Effective.direct address, after⟩
  | indirectY =>
    obtain ⟨pointer, after⟩ := h.fetch sim
    obtain ⟨base, after⟩ := after.readWordInPage sim (congrArg UInt8.toUInt16 pointer)
    exact ⟨congrArg₂ (fun b (r : Registers) => Effective.indexed b r.y) base after.regs, after⟩

/-- What an indexed mode reads before the right address depends on the address alone. -/
theorem Same.touchUncorrected (h : Same R c c') {e e' : Effective} (he : e = e')
    (always : Bool) :
    Beside (Same R)
      (match e.uncorrected with
        | some u => (e, if always || u != e.address then c.touch u else c)
        | none => (e, c))
      (match e'.uncorrected with
        | some u => (e', if always || u != e'.address then c'.touch u else c')
        | none => (e', c')) := by
  subst he
  cases e.uncorrected with
  | none => exact ⟨rfl, h⟩
  | some u =>
    refine ⟨rfl, ?_⟩
    dsimp only
    split
    · exact h.touch sim rfl
    · exact h

theorem Same.readAddress (h : Same R c c') (mode : AddressMode) :
    Beside (Same R) (c.readAddress mode) (c'.readAddress mode) := by
  obtain ⟨address, after⟩ := h.effective sim mode
  exact after.touchUncorrected sim address false

theorem Same.writeAddress (h : Same R c c') (mode : AddressMode) :
    Beside (Same R) (c.writeAddress mode) (c'.writeAddress mode) := by
  obtain ⟨address, after⟩ := h.effective sim mode
  exact after.touchUncorrected sim address true

/-! ## Operations -/

/-- What an operation answers: the same few cycles, and cores that are the same. -/
def Took (R : β → γ → Prop) (p : Nat × Core β) (q : Nat × Core γ) : Prop :=
  Beside (Same R) p q ∧ p.1 ≤ mostExtra

omit [Bus β] [Bus γ] sim in
theorem Same.took (h : Same R c c') : Took R (0, c) (0, c') := ⟨⟨rfl, h⟩, Nat.zero_le _⟩

theorem Same.readOperand (h : Same R c c') {op : Opcode}
    (fits : op.mode = .immediate ∨ ∃ m, op.mode = .memory m) :
    Together faults (Beside (Took R)) (c.readOperand op) (c'.readOperand op) := by
  unfold Core.readOperand
  rcases fits with fits | ⟨m, fits⟩
  · rw [fits]
    obtain ⟨byte, after⟩ := h.fetch sim
    exact .ok ⟨byte, after.took⟩
  · rw [fits]
    obtain ⟨address, after⟩ := h.readAddress sim m
    obtain ⟨byte, after⟩ := after.read sim (congrArg Effective.address address)
    have penalty : ∀ b : Bool, (if b then 1 else 0) ≤ mostExtra := by decide
    exact .ok ⟨byte, ⟨congrArg
      (fun e : Effective => if e.pageCrossed && op.pagePenalty then 1 else 0) address, after⟩,
      penalty _⟩

theorem Same.writeOperand (h : Same R c c') {mode : Mode} (fits : ∃ m, mode = .memory m) :
    Together faults (Beside (Same R)) (c.writeOperand mode) (c'.writeOperand mode) := by
  obtain ⟨m, rfl⟩ := fits
  exact .ok (h.writeAddress sim m)

theorem Same.storeMasked (h : Same R c c') {mode : Mode} (fits : ∃ m, mode = .memory m)
    {value value' : UInt8} (hvalue : value = value') :
    Together faults (Same R) (c.storeMasked mode value) (c'.storeMasked mode value') := by
  subst hvalue
  refine (h.writeOperand sim fits).bind ?_
  rintro ⟨e, c⟩ ⟨_, c'⟩ ⟨rfl, h⟩
  exact h.write sim rfl rfl

theorem Same.modify (h : Same R c c') {mode : Mode}
    (fits : mode = .accumulator ∨ ∃ m, mode = .memory m) (shift : Shift) :
    Together faults (Beside (Same R)) (c.modify mode shift) (c'.modify mode shift) := by
  rcases fits with rfl | ⟨m, rfl⟩
  · have after := h.touch sim h.pc
    exact .ok ⟨congrArg (fun r : Registers => (shift r.p r.a).1) after.regs,
      after.mapRegs fun r => { r with a := (shift r.p r.a).1, p := (shift r.p r.a).2 }⟩
  · refine (h.writeOperand sim ⟨m, rfl⟩).bind ?_
    rintro ⟨e, c⟩ ⟨_, c'⟩ ⟨rfl, h⟩
    obtain ⟨v, c₁, c₁', hread, hread', h⟩ := (h.read sim (rfl : e.address = e.address)).parts
    simp only [hread, hread']
    refine (h.write sim rfl rfl).bind fun c₂ c₂' h => ?_
    have shifted := congrArg (fun r : Registers => shift r.p v) h.regs
    have flags := h.mapRegs fun r => { r with p := (shift r.p v).2 }
    exact (flags.write sim rfl (congrArg Prod.fst shifted)).bind fun _ _ h =>
      .ok ⟨congrArg Prod.fst shifted, h⟩

theorem Same.branch (h : Same R c c') (taken : Bool) :
    Took R (c.branch taken) (c'.branch taken) := by
  obtain ⟨distance, c₁, c₁', hfetch, hfetch', h⟩ := (h.fetch sim).parts
  have leaves : ∀ (p : Prop) [Decidable p], (if p then 1 else 2) ≤ mostExtra := by
    intro p _
    split <;> decide
  unfold Core.branch
  rw [hfetch, hfetch']
  cases taken with
  | true =>
    refine ⟨⟨?_, ?_⟩, leaves _⟩
    · simp only [if_true, h.pc]
    · simp only [if_true, h.pc]
      exact h.mapRegs _
  | false => exact h.took

theorem Same.perform (h : Same R c c') (config : Config) {op : Opcode}
    (fits : op.action.accepts op.mode = true) :
    Together faults (Took R) (c.perform config op) (c'.perform config op) := by
  unfold Core.perform
  cases haction : op.action with
  | read apply =>
    simp only [haction, Action.accepts, Bool.or_eq_true, decide_eq_true_eq,
      Mode.isMemory_iff] at fits
    refine (h.readOperand sim fits).bind ?_
    rintro ⟨v, extra, c⟩ ⟨_, _, c'⟩ ⟨rfl, ⟨rfl, h⟩, few⟩
    exact .ok ⟨⟨rfl, h.mapRegs (apply config · v)⟩, few⟩
  | store value =>
    simp only [haction, Action.accepts, Mode.isMemory_iff] at fits
    refine (h.writeOperand sim fits).bind ?_
    rintro ⟨e, c⟩ ⟨_, c'⟩ ⟨rfl, h⟩
    exact (h.write sim rfl (congrArg value h.regs)).andThen fun _ _ h => h.took
  | storeMasked prepare value =>
    simp only [haction, Action.accepts, Mode.isMemory_iff] at fits
    have h := h.mapRegs prepare
    exact (h.storeMasked sim fits (congrArg value h.regs)).andThen fun _ _ h => h.took
  | modify shift apply =>
    simp only [haction, Action.accepts, Bool.or_eq_true, decide_eq_true_eq,
      Mode.isMemory_iff] at fits
    refine (h.modify sim fits shift).bind ?_
    rintro ⟨v, c⟩ ⟨_, c'⟩ ⟨rfl, h⟩
    exact .ok (h.mapRegs _).took
  | internal apply => exact .ok (h.mapRegs apply).took
  | implied apply => exact .ok ((h.touch sim h.pc).mapRegs apply).took
  | push value =>
    have h := h.touch sim h.pc
    exact (h.push sim (congrArg value h.regs)).andThen fun _ _ h => h.took
  | pull apply =>
    obtain ⟨v, c₁, c₁', hpull, hpull', h⟩ := ((h.touch sim h.pc).pull sim).parts
    simp only [hpull, hpull']
    exact .ok (h.mapRegs _).took
  | branch taken =>
    dsimp only
    rw [h.regs]
    exact .ok (h.branch sim _)
  | jump =>
    simp only [haction, Action.accepts, Mode.isMemory_iff] at fits
    obtain ⟨m, fits⟩ := fits
    obtain ⟨e, c₁, c₁', he, he', h⟩ := (h.effective sim m).parts
    simp only [fits, he, he']
    exact .ok (h.mapRegs _).took
  | callSubroutine =>
    obtain ⟨target, c₁, c₁', hfetch, hfetch', h⟩ := (h.fetchWord sim).parts
    simp only [hfetch, hfetch']
    exact (h.pushWord sim (congrArg (· - 1) h.pc)).bind fun _ _ h => .ok (h.mapRegs _).took
  | returnFromSubroutine =>
    obtain ⟨address, c₁, c₁', hpull, hpull', h⟩ := ((h.touch sim h.pc).pullWord sim).parts
    simp only [hpull, hpull']
    exact .ok (h.mapRegs _).took
  | returnFromInterrupt =>
    obtain ⟨p, c₁, c₁', hpull, hpull', h⟩ := ((h.touch sim h.pc).pull sim).parts
    obtain ⟨address, c₂, c₂', hword, hword', h⟩ := (h.pullWord sim).parts
    simp only [hpull, hpull', hword, hword']
    exact .ok (h.mapRegs _).took
  | softwareInterrupt =>
    obtain ⟨-, h⟩ := h.fetch sim
    refine (h.pushWord sim h.pc).bind fun c₁ c₁' h => ?_
    refine (h.push sim (congrArg (fun r : Registers => r.p.toPushed) h.regs)).bind
      fun c₂ c₂' h => ?_
    obtain ⟨address, c₃, c₃', hread, hread', h⟩ := (h.readWord sim (rfl : irqVector = _)).parts
    simp only [hread, hread']
    exact .ok (h.mapRegs _).took
  | halt => exact .ok (h.mapRegs _).took

end Core

/-! ## The processor -/

/-- Two processors agree in everything but their counts and the last opcode. -/
structure Agree (cpu cpu' : Cpu) : Prop where
  regs : cpu.regs = cpu'.regs
  config : cpu.config = cpu'.config
  nmiLine : cpu.nmiLine = cpu'.nmiLine
  nmiPending : cpu.nmiPending = cpu'.nmiPending
  delayedMask : cpu.delayedMask = cpu'.delayedMask
  jammed : cpu.jammed = cpu'.jammed

theorem Agree.poll {cpu cpu' : Cpu} (h : Agree cpu cpu') (lines : InterruptLines) :
    Beside Agree (cpu.poll lines) (cpu'.poll lines) := by
  obtain ⟨regs, config, nmiLine, nmiPending, delayedMask, jammed, _, _⟩ := cpu
  obtain ⟨_, _, _, _, _, _, _, _⟩ := cpu'
  obtain ⟨rfl, rfl, rfl, rfl, rfl, rfl⟩ := h
  exact ⟨rfl, rfl, rfl, rfl, rfl, rfl, rfl⟩

/-- Processors that agree, and buses that are related. -/
def InStep (R : β → γ → Prop) (p : Cpu × β) (q : Cpu × γ) : Prop := Agree p.1 q.1 ∧ R p.2 q.2

variable [Bus β] [Bus γ] {cpu cpu' : Cpu} {bus : β} {bus' : γ} (sim : Simulates faults R)
include sim

theorem Agree.enter (h : Agree cpu cpu') (hbus : R bus bus') (i : Interrupt) :
    Together faults (InStep R) (cpu.enter bus i) (cpu'.enter bus' i) := by
  have pc := congrArg Registers.pc h.regs
  have core : Core.Same R ⟨cpu.regs, bus⟩ ⟨cpu'.regs, bus'⟩ := ⟨h.regs, hbus⟩
  unfold Cpu.enter
  refine (((core.touch sim pc).touch sim pc).pushWord sim pc).bind fun c c' core => ?_
  refine (core.push sim (congrArg (fun r : Registers => r.p.toInterrupted) h.regs)).bind
    fun c c' core => ?_
  obtain ⟨address, c, c', hread, hread', core⟩ := (core.readWord sim (rfl : i.vector = _)).parts
  simp only [hread, hread']
  refine .ok ⟨⟨?_, h.config, h.nmiLine, ?_, h.delayedMask, h.jammed⟩, core.bus⟩
  · exact congrArg (fun r : Registers => { r with p := r.p.put .interrupt true, pc := address })
      core.regs
  · exact congrArg (· && i != .nmi) h.nmiPending

theorem Agree.execute (h : Agree cpu cpu') (hbus : R bus bus') :
    Together faults (fun p q => Beside (InStep R) p q ∧ p.1 ≤ Cycle.clockMax) (cpu.execute bus)
      (cpu'.execute bus') := by
  have core : Core.Same R ⟨cpu.regs, bus⟩ ⟨cpu'.regs, bus'⟩ := ⟨h.regs, hbus⟩
  obtain ⟨b, c, c', hfetch, hfetch', core⟩ := (core.fetch sim).parts
  obtain ⟨fits, cycles⟩ := decode_fits b
  unfold Cpu.execute
  simp only [hfetch, hfetch', ← h.config]
  refine (core.perform sim cpu.config fits).bind ?_
  rintro ⟨extra, c⟩ ⟨_, c'⟩ ⟨⟨rfl, core⟩, few⟩
  refine .ok ⟨⟨rfl, ⟨core.regs, rfl, h.nmiLine, h.nmiPending, ?_, ?_⟩, core.bus⟩, ?_⟩
  · simp only [h.regs, h.delayedMask]
  · simp only [h.jammed]
  · exact Nat.le_trans (Nat.add_le_add cycles few) (by decide)

theorem Agree.act (h : Agree cpu cpu') (hbus : R bus bus') :
    Together faults (fun p q => Beside (InStep R) p q ∧ p.1 ≤ Cycle.clockMax) (cpu.act bus)
      (cpu'.act bus') := by
  unfold Cpu.act
  simp only [h.jammed]
  split
  · exact .ok ⟨⟨rfl, h, hbus⟩, (by decide : 1 ≤ Cycle.clockMax)⟩
  · obtain ⟨chosen, polled, polled', hpoll, hpoll', h⟩ := (h.poll (Bus.lines bus)).parts
    simp only [← sim.lines hbus, hpoll, hpoll']
    cases chosen with
    | none => exact h.execute sim hbus
    | some i =>
      exact (h.enter sim hbus i).andThen fun _ _ h =>
        ⟨⟨rfl, h⟩, (by decide : interruptCycles ≤ Cycle.clockMax)⟩

/-- Two processors that agree, on buses they cannot tell apart, go in step. -/
theorem Agree.step (h : Agree cpu cpu') (hbus : R bus bus') :
    Together faults (Beside (InStep R)) (cpu.step bus) (cpu'.step bus') := by
  rw [step_eq, step_eq]
  refine (h.act sim hbus).bind ?_
  rintro ⟨n, cpu, bus⟩ ⟨_, cpu', bus'⟩ ⟨⟨rfl, h, hbus⟩, cycles⟩
  exact (sim.tick hbus n cycles).andThen fun _ _ hbus =>
    ⟨rfl, ⟨h.regs, h.config, h.nmiLine, h.nmiPending, h.delayedMask, h.jammed⟩, hbus⟩

/-- A reset leaves processors of one kind in agreement, whatever they did before. -/
theorem reset_inStep (config : cpu.config = cpu'.config) (hbus : R bus bus') :
    Together faults (InStep R) (cpu.reset bus) (cpu'.reset bus') := by
  have core : Core.Same R ⟨.reset, bus⟩ ⟨.reset, bus'⟩ := ⟨rfl, hbus⟩
  obtain ⟨address, c, c', hread, hread', core⟩ := (core.readWord sim (rfl : resetVector = _)).parts
  unfold Cpu.reset
  simp only [hread, hread']
  exact (sim.tick core.bus interruptCycles (by decide)).andThen fun _ _ hbus =>
    ⟨⟨rfl, config, rfl, rfl, rfl, rfl⟩, hbus⟩

/-! ## One processor -/

section Keeps

variable {P : β → Prop} {after : β} {n : Nat}
  (keeps : Bus.Simulates True fun b b' : β => b = b' ∧ P b)

omit [Bus γ] sim
include keeps

/-- What no access and no passing of time breaks, a step does not break. -/
theorem step_keeps (h : P bus) (hrun : cpu.step bus = .ok (n, cpu', after)) : P after := by
  have along : Agree cpu cpu := ⟨rfl, rfl, rfl, rfl, rfl, rfl⟩
  obtain ⟨_, -, -, -, -, kept⟩ := (along.step keeps ⟨rfl, h⟩).of_ok hrun
  exact kept

theorem reset_keeps (h : P bus) (hrun : cpu.reset bus = .ok (cpu', after)) : P after := by
  have together : Together True _ (cpu.reset bus) (cpu.reset bus) :=
    reset_inStep keeps rfl ⟨rfl, h⟩
  obtain ⟨_, -, -, -, kept⟩ := together.of_ok hrun
  exact kept

end Keeps

end Cpu

end C64
