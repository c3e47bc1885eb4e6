import C64.Cpu
import C64.Proofs.Fault

/-!
# What a poll leaves behind

A step polls the interrupt lines, then makes its accesses, then lets its time pass. `act` is the
step without the passing of its time. Whatever the instruction does, the processor goes on with
the level of the non-maskable line that the poll saw, and with a request that the poll noticed
and the step did not enter.
-/

namespace C64.Cpu

variable {β : Type} [Bus β] {cpu cpu' : Cpu} {bus bus' : β} {n : Nat}

/-- A step up to the passing of its time. -/
def act (cpu : Cpu) (bus : β) : Except Fault (Nat × Cpu × β) :=
  if cpu.jammed then .ok (1, cpu, bus)
  else
    match cpu.poll (Bus.lines bus) with
    | (some interrupt, cpu) => do
      let (cpu, bus) ← cpu.enter bus interrupt
      return (interruptCycles, cpu, bus)
    | (none, cpu) => cpu.execute bus

/-- A step acts, and then its time passes. -/
theorem step_eq (cpu : Cpu) (bus : β) :
    cpu.step bus = do
      let (n, cpu, bus) ← cpu.act bus
      let bus ← Bus.tick bus n
      return (n, { cpu with totalCycles := cpu.totalCycles + n }, bus) := by
  unfold step act
  split
  · rfl
  · rcases cpu.poll (Bus.lines bus) with ⟨_ | interrupt, polled⟩
    · rfl
    · cases h : polled.enter bus interrupt <;> simp only [h] <;> rfl

theorem step_ok (h : cpu.step bus = .ok (n, cpu', bus')) :
    ∃ acted between, cpu.act bus = .ok (n, acted, between) ∧ Bus.tick between n = .ok bus' ∧
      cpu' = { acted with totalCycles := acted.totalCycles + n } := by
  rw [step_eq] at h
  obtain ⟨⟨n₁, acted, between⟩, hact, h⟩ := bind_eq_ok.mp h
  obtain ⟨after, htick, h⟩ := bind_eq_ok.mp h
  cases h
  exact ⟨acted, between, hact, htick, rfl⟩

/-- A step whose poll chose an interrupt enters it, and lets the time of an entry pass. -/
theorem step_of_poll {i : Interrupt} (h : cpu.step bus = .ok (n, cpu', bus'))
    (running : cpu.jammed = false) (chosen : (cpu.poll (Bus.lines bus)).1 = some i) :
    n = interruptCycles ∧ ∃ entered between,
      (cpu.poll (Bus.lines bus)).2.enter bus i = .ok (entered, between) ∧
      Bus.tick between n = .ok bus' ∧ cpu'.regs = entered.regs := by
  obtain ⟨acted, between, hact, htick, rfl⟩ := step_ok h
  simp only [act, running, Bool.false_eq_true, if_false] at hact
  rcases hpoll : cpu.poll (Bus.lines bus) with ⟨choice, p⟩
  obtain rfl : choice = some i := by simpa [hpoll] using chosen
  simp only [hpoll] at hact
  obtain ⟨⟨entered, after⟩, hent, hact⟩ := bind_eq_ok.mp hact
  cases hact
  exact ⟨rfl, entered, after, hent, htick, rfl⟩

/-- Whether the poll finds a non-maskable interrupt to serve: one that waits, or a line that has
risen since the last poll. -/
def noticesNmi (cpu : Cpu) (lines : InterruptLines) : Bool :=
  cpu.nmiPending || (lines.nmi && !cpu.nmiLine)

/-- Entering an interrupt serves it and nothing else. -/
theorem enter_ok {i : Interrupt} (h : cpu.enter bus i = .ok (cpu', bus')) :
    cpu' = { cpu with regs := cpu'.regs, nmiPending := cpu.nmiPending && i != .nmi } := by
  unfold enter at h
  obtain ⟨core, -, h⟩ := bind_eq_ok.mp h
  obtain ⟨core', -, h⟩ := bind_eq_ok.mp h
  cases h
  rfl

/-- An instruction has no part in the edge of the non-maskable line. -/
theorem execute_ok (h : cpu.execute bus = .ok (n, cpu', bus')) :
    cpu'.nmiLine = cpu.nmiLine ∧ cpu'.nmiPending = cpu.nmiPending := by
  unfold execute at h
  obtain ⟨⟨extra, core⟩, -, h⟩ := bind_eq_ok.mp h
  cases h
  exact ⟨rfl, rfl⟩

/-- No step changes the kind of the processor. -/
theorem step_config (h : cpu.step bus = .ok (n, cpu', bus')) : cpu'.config = cpu.config := by
  obtain ⟨acted, between, hact, -, rfl⟩ := step_ok h
  show acted.config = cpu.config
  unfold act at hact
  split at hact
  · cases hact; rfl
  · have polled : (cpu.poll (Bus.lines bus)).2.config = cpu.config := rfl
    rcases hpoll : cpu.poll (Bus.lines bus) with ⟨_ | interrupt, p⟩
    · rw [hpoll] at hact polled
      obtain ⟨⟨extra, core⟩, -, hret⟩ := bind_eq_ok.mp hact
      cases hret
      exact polled
    · rw [hpoll] at hact polled
      obtain ⟨⟨entered, after⟩, hent, hret⟩ := bind_eq_ok.mp hact
      cases hret
      rw [enter_ok hent]
      exact polled

/-- What a step of a running processor leaves for the next poll. -/
theorem step_nmi (h : cpu.step bus = .ok (n, cpu', bus')) (running : cpu.jammed = false) :
    cpu'.nmiLine = (Bus.lines bus).nmi ∧
    cpu'.nmiPending =
      (cpu.noticesNmi (Bus.lines bus) && (cpu.poll (Bus.lines bus)).1 != some .nmi) := by
  obtain ⟨acted, between, hact, -, rfl⟩ := step_ok h
  simp only [act, running, Bool.false_eq_true, if_false] at hact
  have polled : (cpu.poll (Bus.lines bus)).2.nmiLine = (Bus.lines bus).nmi ∧
      (cpu.poll (Bus.lines bus)).2.nmiPending = cpu.noticesNmi (Bus.lines bus) := ⟨rfl, rfl⟩
  rcases hpoll : cpu.poll (Bus.lines bus) with ⟨chosen, p⟩
  simp only [hpoll] at hact polled
  cases chosen with
  | some interrupt =>
    obtain ⟨⟨entered, after⟩, hent, hact⟩ := bind_eq_ok.mp hact
    cases hact
    rw [enter_ok hent]
    refine ⟨polled.1, ?_⟩
    rw [polled.2]
    cases interrupt <;> rfl
  | none =>
    obtain ⟨hline, hpending⟩ := execute_ok hact
    exact ⟨hline.trans polled.1, by simp [hpending, polled.2]⟩

/-- A request that the poll notices is entered, unless the other interrupt goes first. -/
theorem poll_of_noticesNmi {lines : InterruptLines} (h : cpu.noticesNmi lines = true) :
    (cpu.poll lines).1 = some .nmi ∨
      ((cpu.poll lines).1 = some .irq ∧ cpu.config.interruptPriority = .irq) := by
  have h : (cpu.nmiPending || (lines.nmi && !cpu.nmiLine)) = true := h
  simp only [poll, h]
  cases lines.irq && !cpu.maskInForce
  · exact .inl rfl
  · cases cpu.config.interruptPriority
    · exact .inl rfl
    · exact .inr ⟨rfl, rfl⟩

end C64.Cpu
