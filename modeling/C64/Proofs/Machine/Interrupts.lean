import C64.Machine
import C64.Proofs.Cpu.Polling

/-!
# Non-maskable interrupts of a running machine

The second adapter holds the non-maskable line. The processor sees the line once a step, before
its accesses and the passing of its time. A line that was low at one poll and is high at the next
is served: the request stays until an entry through `$FFFA` takes it (`nmi_kept`). What happens
to the line between two polls is not seen. A read of the adapter's interrupt register lets the
line fall, and when a timer raises it again while the time of that same instruction passes, the
next poll finds it as high as the one before (`acknowledged_rise_lost`).
-/

namespace C64.Machine

open Cpu

variable {m m₁ m₂ : Machine} {n : Nat} {log : List (Option Interrupt)}

/-- No reset was requested, and no opcode has stopped the processor. -/
structure Quiet (m : Machine) : Prop where
  resetRequested : m.resetRequested = false
  running : m.cpu.jammed = false

instance (m : Machine) : Decidable m.Quiet :=
  decidable_of_iff (m.resetRequested = false ∧ m.cpu.jammed = false)
    ⟨fun h => ⟨h.1, h.2⟩, fun h => ⟨h.1, h.2⟩⟩

/-- The interrupt that the next step enters, if any. -/
def enters (m : Machine) : Option Interrupt := (m.cpu.poll m.board.lines).1

/-- Steps one after another without a reset and with a processor that runs. The list holds what
each of them enters. -/
inductive Undisturbed : Machine → List (Option Interrupt) → Machine → Prop
  | nil (m : Machine) : Undisturbed m [] m
  | cons {m m₁ m₂ : Machine} {n : Nat} {log : List (Option Interrupt)} (quiet : m.Quiet)
      (step : m.step = .ok (n, m₁)) (rest : Undisturbed m₁ log m₂) :
      Undisturbed m (m.enters :: log) m₂

/-! ## Input has no part in it -/

/-- Input changes keys and sticks and nothing else. -/
theorem applyEvents_eq (events : List InputEvent) (d : Board.Devices) :
    ∃ keyboard joystick1 joystick2,
      events.foldl applyEvent d = { d with keyboard, joystick1, joystick2 } := by
  induction events generalizing d with
  | nil => exact ⟨_, _, _, rfl⟩
  | cons e events ih =>
    obtain ⟨keyboard, joystick1, joystick2, h⟩ := ih (applyEvent d e)
    refine ⟨keyboard, joystick1, joystick2, h.trans ?_⟩
    unfold applyEvent
    split <;> rfl

theorem applyInput_eq (m : Machine) : ∃ keyboard joystick1 joystick2,
    m.applyInput = { m with
      board.devices := { m.board.devices with keyboard, joystick1, joystick2 }
      input := {} } := by
  unfold applyInput
  split
  · next empty =>
    refine ⟨m.board.devices.keyboard, m.board.devices.joystick1, m.board.devices.joystick2, ?_⟩
    obtain ⟨cpu, board, config, errors, ⟨events⟩, stop, reset⟩ := m
    obtain rfl : events = [] := List.isEmpty_iff.mp empty
    rfl
  · obtain ⟨keyboard, joystick1, joystick2, h⟩ := applyEvents_eq m.input.events m.board.devices
    exact ⟨keyboard, joystick1, joystick2, by rw [h]⟩

@[simp] theorem applyInput_cpu (m : Machine) : m.applyInput.cpu = m.cpu := by
  obtain ⟨_, _, _, heq⟩ := m.applyInput_eq
  rw [heq]

@[simp] theorem applyInput_resetRequested (m : Machine) :
    m.applyInput.resetRequested = m.resetRequested := by
  obtain ⟨_, _, _, heq⟩ := m.applyInput_eq
  rw [heq]

@[simp] theorem applyInput_lines (m : Machine) : m.applyInput.board.lines = m.board.lines := by
  obtain ⟨keyboard, joystick1, joystick2, heq⟩ := m.applyInput_eq
  rw [heq]
  rfl

/-! ## One step -/

/-- The machine as the processor's step finds it: with the input taken, and after a reset if one
was requested. -/
def ready (m : Machine) : Except Fault Machine :=
  if m.resetRequested then m.applyInput.reset else .ok m.applyInput

/-- A step makes the machine ready, and then the processor steps. -/
theorem step_eq (m : Machine) :
    m.step = do
      let m ← m.ready
      let (n, cpu, board) ← m.cpu.step m.board
      return (n, { m with cpu, board }) := by
  unfold step ready
  simp only [applyInput_resetRequested]
  split <;> rfl

/-- A step without a reset is a step of the processor on the board that the input has reached. -/
theorem Quiet.step_ok (quiet : m.Quiet) (h : m.step = .ok (n, m₁)) :
    ∃ cpu board, m.cpu.step m.applyInput.board = .ok (n, cpu, board) ∧
      m₁ = { m.applyInput with cpu, board } := by
  have hready : m.ready = .ok m.applyInput := by simp [ready, quiet.resetRequested]
  rw [step_eq, hready, ok_bind] at h
  obtain ⟨⟨n, cpu, board⟩, hstep, h⟩ := bind_eq_ok.mp h
  cases h
  exact ⟨cpu, board, by simpa using hstep, rfl⟩

/-- The processor remembers the level of the line from before the step, and what it noticed then
and did not enter. -/
theorem Quiet.step_nmi (quiet : m.Quiet) (h : m.step = .ok (n, m₁)) :
    m₁.cpu.nmiLine = m.board.lines.nmi ∧
    m₁.cpu.nmiPending = (m.cpu.noticesNmi m.board.lines && m.enters != some .nmi) := by
  obtain ⟨cpu, board, hstep, rfl⟩ := quiet.step_ok h
  have := Cpu.step_nmi hstep quiet.running
  rwa [show Bus.lines m.applyInput.board = m.board.lines from m.applyInput_lines] at this

/-- What the poll behind a step notices: a request left over, or a line that is high now and was
not when the step began. -/
theorem Quiet.noticesNmi_step (quiet : m.Quiet) (h : m.step = .ok (n, m₁)) :
    m₁.cpu.noticesNmi m₁.board.lines =
      (m₁.cpu.nmiPending || (m₁.board.lines.nmi && !m.board.lines.nmi)) := by
  rw [noticesNmi, (quiet.step_nmi h).1]

/-- The accesses and the passing of time that a step without a reset is made of. -/
theorem Quiet.step_acts (quiet : m.Quiet) (h : m.step = .ok (n, m₁)) :
    ∃ acted between, m.cpu.act m.applyInput.board = .ok (n, acted, between) ∧
      between.tick n = .ok m₁.board := by
  obtain ⟨cpu, board, hstep, rfl⟩ := quiet.step_ok h
  obtain ⟨acted, between, hact, htick, rfl⟩ := Cpu.step_ok hstep
  exact ⟨acted, between, hact, htick⟩

/-- A step that enters an interrupt does nothing else, and goes on at the interrupt's vector. -/
theorem Quiet.step_of_enters {i : Interrupt} (quiet : m.Quiet) (h : m.step = .ok (n, m₁))
    (entry : m.enters = some i) :
    n = interruptCycles ∧ ∃ cpu between,
      (m.cpu.poll m.board.lines).2.enter m.applyInput.board i = .ok (cpu, between) ∧
      between.tick n = .ok m₁.board ∧ m₁.cpu.regs = cpu.regs := by
  obtain ⟨cpu, board, hstep, rfl⟩ := quiet.step_ok h
  have lines : Bus.lines m.applyInput.board = m.board.lines := m.applyInput_lines
  have entered := Cpu.step_of_poll hstep quiet.running (by rw [lines]; exact entry)
  rwa [lines] at entered

/-! ## Runs -/

/-- A request that a poll notices is entered by a later step of the run, or still waits. -/
theorem Undisturbed.serves (run : Undisturbed m log m₂)
    (h : m.cpu.noticesNmi m.board.lines = true) (later : log ≠ []) :
    some .nmi ∈ log ∨ m₂.cpu.nmiPending = true := by
  induction run with
  | nil m => exact absurd rfl later
  | @cons m m₁ m₂ n log quiet step rest ih =>
    by_cases entry : m.enters = some .nmi
    · exact .inl (entry ▸ List.mem_cons_self)
    · have waits : m₁.cpu.nmiPending = true := by simp [(quiet.step_nmi step).2, h, entry]
      cases rest with
      | nil => exact .inr waits
      | cons quiet' step' rest' =>
        refine (ih ?_ (List.cons_ne_nil _ _)).imp_left (List.mem_cons_of_mem _)
        simp [noticesNmi, waits]

/-- An interrupt of the second adapter is not lost when its line was low at the poll before the
step that raised it. -/
theorem nmi_kept (quiet : m.Quiet) (low : m.board.lines.nmi = false)
    (step : m.step = .ok (n, m₁)) (high : m₁.board.lines.nmi = true)
    (run : Undisturbed m₁ log m₂) (later : log ≠ []) :
    some .nmi ∈ log ∨ m₂.cpu.nmiPending = true := by
  refine run.serves ?_ later
  rw [quiet.noticesNmi_step step, high, low]
  simp

/-! ## A line that rises as fast as it falls -/

/-- A program that allows the interrupt of timer A of the second adapter and lets the timer
underflow in every cycle. -/
def everyCycle : List UInt8 :=
  [0xA9, 0x81, 0x8D, 0x0D, 0xDD, 0xA9, 0x00, 0x8D, 0x04, 0xDD, 0x8D, 0x05, 0xDD,
    0xA9, 0x01, 0x8D, 0x0E, 0xDD]

/-- A handler that reads the interrupt register of the second adapter. -/
def acknowledge : List UInt8 := [0xAD, 0x0D, 0xDD, 0xEA]

/-- A machine before the program, with the handler where every vector of its Kernal points. -/
def storm : Except Fault Machine := do
  let m ← new {} { kernal := some ⟨Array.replicate 0x2000 0x02⟩ }
  return ((m.load 0x0002 everyCycle).load 0x0202 acknowledge).jump 0x0002

/-- A run of that machine: the line is low until the program's last instruction and high behind
it, the next step serves that, the handler's read lets the line fall, its time lets the line rise,
and the step behind serves nothing. -/
def weathers : Except Fault Bool := do
  let m ← storm
  let (_, calm) ← m.steps 6
  let (_, risen) ← calm.step
  let (_, served) ← risen.step
  let (_, _, between) ← served.cpu.act served.applyInput.board
  let (_, again) ← served.step
  let (_, after) ← again.step
  return calm.Quiet && !calm.board.lines.nmi && risen.Quiet && risen.board.lines.nmi &&
    served.Quiet && !between.lines.nmi && again.Quiet && again.board.lines.nmi &&
    again.enters == none && !after.cpu.nmiPending

theorem weathers_eq : weathers.toOption = some true := by decide +kernel

theorem storm_runs :
    ∃ (m calm risen served again after : Machine) (cycles : List Nat) (n₁ n₂ n₃ n₄ : Nat)
      (acted : Cpu) (between : Board),
      storm = .ok m ∧ m.steps 6 = .ok (cycles, calm) ∧
      (calm.Quiet ∧ calm.board.lines.nmi = false ∧ calm.step = .ok (n₁, risen)) ∧
      (risen.Quiet ∧ risen.board.lines.nmi = true ∧ risen.step = .ok (n₂, served)) ∧
      (served.Quiet ∧ served.cpu.act served.applyInput.board = .ok (n₃, acted, between) ∧
        between.lines.nmi = false ∧ served.step = .ok (n₃, again)) ∧
      (again.Quiet ∧ again.board.lines.nmi = true ∧ again.enters = none ∧
        again.step = .ok (n₄, after) ∧ after.cpu.nmiPending = false) := by
  have run := eq_ok_of_toOption weathers_eq
  unfold weathers at run
  obtain ⟨m, hstorm, run⟩ := bind_eq_ok.mp run
  obtain ⟨⟨cycles, calm⟩, hsteps, run⟩ := bind_eq_ok.mp run
  obtain ⟨⟨n₁, risen⟩, hcalm, run⟩ := bind_eq_ok.mp run
  obtain ⟨⟨n₂, served⟩, hrisen, run⟩ := bind_eq_ok.mp run
  obtain ⟨⟨n', acted, between⟩, hact, run⟩ := bind_eq_ok.mp run
  obtain ⟨⟨n₃, again⟩, hserved, run⟩ := bind_eq_ok.mp run
  obtain ⟨⟨n₄, after⟩, hagain, run⟩ := bind_eq_ok.mp run
  simp only [pure, Except.pure, Except.ok.injEq, Bool.and_eq_true, Bool.not_eq_true',
    beq_iff_eq, decide_eq_true_eq] at run
  obtain ⟨⟨⟨⟨⟨⟨⟨⟨⟨q₁, low⟩, q₂⟩, high⟩, q₃⟩, fell⟩, q₄⟩, rose⟩, enters⟩, pending⟩ := run
  obtain ⟨acted', between', hact', -⟩ := q₃.step_acts hserved
  simp only [hact, Except.ok.injEq, Prod.mk.injEq] at hact'
  obtain ⟨rfl, rfl, rfl⟩ := hact'
  exact ⟨m, calm, risen, served, again, after, cycles, n₁, n₂, n', n₄, acted, between, hstorm,
    hsteps, ⟨q₁, low, hcalm⟩, ⟨q₂, high, hrisen⟩, ⟨q₃, hact, fell, hserved⟩,
    ⟨q₄, rose, enters, hagain, pending⟩⟩

/-- The first rise of that run is served. -/
theorem nmi_kept_storm :
    ∃ (m calm risen served : Machine) (cycles : List Nat) (n : Nat),
      storm = .ok m ∧ m.steps 6 = .ok (cycles, calm) ∧ calm.Quiet ∧
      calm.board.lines.nmi = false ∧ calm.step = .ok (n, risen) ∧
      risen.board.lines.nmi = true ∧ Undisturbed risen [risen.enters] served ∧
      (some .nmi ∈ [risen.enters] ∨ served.cpu.nmiPending = true) := by
  obtain ⟨m, calm, risen, served, _, _, cycles, n, _, _, _, _, _, hstorm, hsteps,
    ⟨q₁, low, hcalm⟩, ⟨q₂, high, hrisen⟩, -, -⟩ := storm_runs
  have run : Undisturbed risen [risen.enters] served := .cons q₂ hrisen (.nil _)
  exact ⟨m, calm, risen, served, cycles, n, hstorm, hsteps, q₁, low, hcalm, high, run,
    nmi_kept q₁ low hcalm high run (List.cons_ne_nil _ _)⟩

/-- The line falls and rises again in one step of that run, and the request is lost: the next
step does not enter the interrupt, nor does it leave one waiting. -/
theorem acknowledged_rise_lost :
    ∃ (m₀ calm m m₁ m₂ : Machine) (cycles : List Nat) (log : List (Option Interrupt))
      (n n₂ : Nat) (acted : Cpu) (between : Board),
      storm = .ok m₀ ∧ m₀.steps 6 = .ok (cycles, calm) ∧ Undisturbed calm log m ∧
      m.Quiet ∧ m.cpu.act m.applyInput.board = .ok (n, acted, between) ∧
      between.lines.nmi = false ∧ m.step = .ok (n, m₁) ∧ m₁.board.lines.nmi = true ∧
      m₁.Quiet ∧ m₁.step = .ok (n₂, m₂) ∧
      ¬(m₁.enters = some .nmi ∨ m₂.cpu.nmiPending = true) := by
  obtain ⟨m₀, calm, risen, m, m₁, m₂, cycles, _, _, n, n₂, acted, between, hstorm, hsteps,
    ⟨q, -, hcalm⟩, ⟨q', -, hrisen⟩, ⟨quiet, hact, fell, hm⟩,
    ⟨quiet₁, high, enters, hm₁, waits⟩⟩ := storm_runs
  have run : Undisturbed calm [calm.enters, risen.enters] m := .cons q hcalm (.cons q' hrisen (.nil _))
  exact ⟨m₀, calm, m, m₁, m₂, cycles, _, n, n₂, acted, between, hstorm, hsteps, run, quiet, hact,
    fell, hm, high, quiet₁, hm₁, by simp [enters, waits]⟩

end C64.Machine
