import C64.Proofs.Board.Likeness
import C64.Proofs.Machine.Reachable

/-!
# A reset forgets

What a machine did before a reset cannot be told behind it. Two machines that have the same memory,
the same input and the same chips fitted, and no real-time clock, answer a reset and everything
that comes after it alike (`reset_forgets`): from one step to the next they show the same
(`Sight`), whatever their chips, clocks and processors were in the middle of. What a reset carries
over is in `Resembles`; what the two are behind it is in `Alike`, and a step keeps that.
-/

namespace C64.Machine

/-! ## What can be done to a machine, and what it shows -/

/-- What the user does to a running machine. -/
inductive Stimulus where
  /-- An instruction is executed. -/
  | step
  /-- The input changes. -/
  | send (e : InputEvent)
  /-- A completed frame is taken notice of. -/
  | takeFrame

/-- What can be seen of a machine behind a step. -/
structure Sight where
  /-- The cycles that the step took. -/
  cycles : Nat
  regs : Cpu.Registers
  lines : InterruptLines
  frameComplete : Bool
  /-- What each register of a chip shows, and what a read by the processor answers. -/
  shown : UInt16 → UInt8
  read : UInt16 → UInt8
  /-- The pixels of each raster line that was rendered since the reset. -/
  drawn : Nat → Option (Bytes Vic.width)

/-- What is seen of a machine behind a step of so many cycles. -/
def sight (m : Machine) (cycles : Nat) : Sight where
  cycles
  regs := m.cpu.regs
  lines := m.board.lines
  frameComplete := m.board.devices.frameComplete
  shown := m.board.peekChip
  read address := (m.board.read address).1
  drawn := m.board.devices.vic.drawn?

/-- Does one thing after the other, and answers what is seen behind each step. -/
def watch : List Stimulus → Machine → Except Fault (List Sight × Machine)
  | [], m => .ok ([], m)
  | .send e :: rest, m => watch rest (m.send e)
  | .takeFrame :: rest, m => watch rest m.takeFrame
  | .step :: rest, m => do
    let (n, m) ← m.step
    let (sights, last) ← watch rest m
    return (m.sight n :: sights, last)

variable {m m' : Machine}

/-! ## Machines that cannot be told apart -/

/-- Nothing that a user can do tells the two apart. -/
structure Alike (m m' : Machine) : Prop where
  cpu : Cpu.Agree m.cpu m'.cpu
  board : m.board.Alike m'.board
  input : m.input = m'.input
  noReset : m.resetRequested = false ∧ m'.resetRequested = false

theorem Alike.sight (h : Alike m m') (cycles : Nat) : m.sight cycles = m'.sight cycles := by
  have frame : m.board.devices.frameComplete = m'.board.devices.frameComplete := by
    obtain ⟨d, vic, c, c', hb, hb', -⟩ := h.board.parts
    rw [hb, hb']
  have drawn : m.board.devices.vic.drawn? = m'.board.devices.vic.drawn? := by
    obtain ⟨d, vic, c, c', hb, hb', -, hvic, -⟩ := h.board.parts
    rw [hb, hb']
    exact funext hvic.drawn
  have shown : m.board.peekChip = m'.board.peekChip := funext h.board.peekChip
  have read : (fun address => (m.board.read address).1) =
      fun address => (m'.board.read address).1 := funext fun address => (h.board.read address).1
  unfold Machine.sight
  rw [h.cpu.regs, h.board.lines, frame, drawn, shown, read]

/-- Input does not see the video chip. -/
theorem applyEvents_withVic (events : List InputEvent) (d : Board.Devices) (vic : Vic) :
    events.foldl applyEvent { d with vic } = { events.foldl applyEvent d with vic } := by
  refine List.foldl_hom (fun d : Board.Devices => { d with vic }) fun d e => ?_
  unfold applyEvent
  split <;> rfl

theorem applyInput_devices (m : Machine) :
    m.applyInput.board.devices = m.input.events.foldl applyEvent m.board.devices := by
  unfold applyInput
  split
  · next empty =>
    have none : m.input.events = [] := List.isEmpty_iff.mp empty
    rw [none]
    rfl
  · rfl

/-- A machine that has taken its input has none that waits. -/
theorem applyInput_input (m : Machine) : m.applyInput.input = {} := by
  obtain ⟨_, _, _, heq⟩ := m.applyInput_eq
  rw [heq]

theorem applyInput_clock (m : Machine) : m.applyInput.board.clock = m.board.clock := by
  obtain ⟨_, _, _, heq⟩ := m.applyInput_eq
  rw [heq]

theorem Alike.applyInput (h : Alike m m') : Alike m.applyInput m'.applyInput := by
  refine ⟨?_, ⟨?_, ?_⟩, ?_, ?_⟩
  · simpa using h.cpu
  · rw [applyInput_devices, applyInput_devices, ← h.input]
    obtain ⟨d, vic, c, c', hb, hb', steady, hvic, -⟩ := h.board.parts
    obtain ⟨keyboard, joystick1, joystick2, taken⟩ := applyEvents_eq m.input.events d
    rw [hb, hb']
    show Board.Devices.Alike (m.input.events.foldl applyEvent d)
      (m.input.events.foldl applyEvent { d with vic })
    rw [applyEvents_withVic _ d vic, taken]
    exact .mk (steady.congr rfl rfl rfl) hvic
  · rw [applyInput_clock, applyInput_clock]
    exact h.board.clock
  · rw [applyInput_input, applyInput_input]
  · simpa using h.noReset

theorem Alike.takeFrame (h : Alike m m') : Alike m.takeFrame m'.takeFrame := by
  refine ⟨h.cpu, ⟨?_, h.board.clock⟩, h.input, h.noReset⟩
  obtain ⟨d, vic, c, c', hb, hb', steady, hvic, -⟩ := h.board.parts
  show Board.Devices.Alike { m.board.devices with frameComplete := false }
    { m'.board.devices with frameComplete := false }
  rw [hb, hb']
  exact .mk (steady.congr rfl rfl rfl) hvic

/-- A step of the processors, when both machines are ready. -/
theorem step_alike (ready : Together False Alike m.ready m'.ready) :
    Together False (Beside Alike) m.step m'.step := by
  rw [step_eq, step_eq]
  refine ready.bind fun m m' h => ?_
  refine (h.cpu.step Board.simulates h.board).bind ?_
  rintro ⟨n, cpu, board⟩ ⟨_, cpu', board'⟩ ⟨rfl, agree, alike⟩
  exact .ok ⟨rfl, agree, alike, h.input, h.noReset⟩

theorem Alike.step (h : Alike m m') : Together False (Beside Alike) m.step m'.step := by
  refine step_alike ?_
  unfold ready
  rw [h.noReset.1, h.noReset.2]
  exact .ok h.applyInput

/-- Both show the same and stay alike, and nothing fails. -/
theorem Alike.watch (h : Alike m m') (stimuli : List Stimulus) :
    Together False (Beside Alike) (m.watch stimuli) (m'.watch stimuli) := by
  induction stimuli generalizing m m' with
  | nil => exact .ok ⟨rfl, h⟩
  | cons stimulus rest ih =>
    cases stimulus with
    | send e => exact ih ⟨h.cpu, h.board, congrArg (·.push e) h.input, h.noReset⟩
    | takeFrame => exact ih h.takeFrame
    | step =>
      refine h.step.bind ?_
      rintro ⟨n, m⟩ ⟨_, m'⟩ ⟨rfl, h⟩
      refine (ih h).bind ?_
      rintro ⟨sights, last⟩ ⟨_, last'⟩ ⟨rfl, alike⟩
      exact .ok ⟨congrArg (· :: sights) (h.sight n), alike⟩

/-! ## Machines that a reset makes so -/

/-- What a reset leaves as it is, and two machines without a real-time clock have in common: the
configuration and the chips in place, the memory, the keys and joysticks when the input that waits
is taken, and the byte that was last on the bus. -/
structure Resembles (m m' : Machine) : Prop where
  config : m.config = m'.config
  via : m.board.devices.via.isSome = m'.board.devices.via.isSome
  noRtc : m.board.devices.rtc = none ∧ m'.board.devices.rtc = none
  ram : m.board.devices.memory.ram = m'.board.devices.memory.ram
  roms : m.board.devices.memory.roms = m'.board.devices.memory.roms
  colours : m.board.devices.memory.colours = m'.board.devices.memory.colours
  keyboard : m.applyInput.board.devices.keyboard = m'.applyInput.board.devices.keyboard
  joystick1 : m.applyInput.board.devices.joystick1 = m'.applyInput.board.devices.joystick1
  joystick2 : m.applyInput.board.devices.joystick2 = m'.applyInput.board.devices.joystick2
  lastValue : m.board.devices.lastValue = m'.board.devices.lastValue

theorem send_devices (m : Machine) (e : InputEvent) :
    (m.send e).applyInput.board.devices = applyEvent m.applyInput.board.devices e := by
  rw [applyInput_devices, applyInput_devices]
  show (m.input.events ++ [e]).foldl applyEvent m.board.devices = _
  rw [List.foldl_append]
  rfl

theorem Resembles.send (h : Resembles m m') (e : InputEvent) :
    Resembles (m.send e) (m'.send e) := by
  refine ⟨h.config, h.via, h.noRtc, h.ram, h.roms, h.colours, ?_, ?_, ?_, h.lastValue⟩
  all_goals
    rw [send_devices, send_devices]
    unfold applyEvent
    split <;> simp only [h.keyboard, h.joystick1, h.joystick2]

theorem Resembles.takeFrame (h : Resembles m m') : Resembles m.takeFrame m'.takeFrame := by
  have kept : ∀ m : Machine, m.takeFrame.applyInput.board.devices =
      { m.applyInput.board.devices with frameComplete := false } := by
    intro m
    rw [applyInput_devices, applyInput_devices]
    refine List.foldl_hom (fun d : Board.Devices => { d with frameComplete := false }) fun d e => ?_
    unfold applyEvent
    split <;> rfl
  refine ⟨h.config, h.via, h.noRtc, h.ram, h.roms, h.colours, ?_, ?_, ?_, h.lastValue⟩
  all_goals
    rw [kept, kept]
    simp only [h.keyboard, h.joystick1, h.joystick2]

theorem Resembles.board (h : Resembles m m') (sound : m.Sound) (sound' : m'.Sound) :
    m.applyInput.board.Resembles m'.applyInput.board := by
  have made := sound.board.made
  have made' := sound'.board.made
  rw [← h.config] at made'
  obtain ⟨keyboard, joystick1, joystick2, heq⟩ := m.applyInput_eq
  obtain ⟨keyboard', joystick1', joystick2', heq'⟩ := m'.applyInput_eq
  have keys := h.keyboard
  have stick1 := h.joystick1
  have stick2 := h.joystick2
  rw [heq, heq'] at keys stick1 stick2 ⊢
  exact ⟨h.ram, h.roms, h.colours, made.vic.trans made'.vic.symm, made.cia1.trans made'.cia1.symm,
    made.cia2.trans made'.cia2.symm, h.via, h.noRtc, keys, stick1, stick2, h.lastValue⟩

theorem Resembles.reset (h : Resembles m m') (sound : m.Sound) (sound' : m'.Sound) :
    Together False Alike m.applyInput.reset m'.applyInput.reset := by
  have fit := sound.applyInput.board
  have fit' := sound'.applyInput.board
  have reset : Together False Board.Alike m.applyInput.board.reset m'.applyInput.board.reset :=
    (h.board sound sound').reset fit.sound fit'.sound fit.scheduled fit'.scheduled
  have kind : m.applyInput.cpu.config = m'.applyInput.cpu.config := by
    rw [applyInput_cpu, applyInput_cpu, sound.cpu, sound'.cpu, h.config]
  refine reset.bind fun board board' alike => ?_
  refine (Cpu.reset_inStep Board.simulates kind alike).bind ?_
  rintro ⟨cpu, board⟩ ⟨cpu', board'⟩ ⟨agree, alike⟩
  refine .ok ⟨agree, alike, ?_, rfl, rfl⟩
  show m.applyInput.input = m'.applyInput.input
  rw [applyInput_input, applyInput_input]

/-- Two machines that a reset waits for show the same from the reset on. -/
theorem Resembles.watch (h : Resembles m m') (sound : m.Sound) (sound' : m'.Sound)
    (waits : m.resetRequested = true) (waits' : m'.resetRequested = true)
    (stimuli : List Stimulus) :
    Together False (fun p q => p.1 = q.1) (m.watch stimuli) (m'.watch stimuli) := by
  induction stimuli generalizing m m' with
  | nil => exact .ok rfl
  | cons stimulus rest ih =>
    cases stimulus with
    | send e => exact ih (h.send e) ⟨sound.board, sound.cpu⟩ ⟨sound'.board, sound'.cpu⟩ waits waits'
    | takeFrame => exact ih h.takeFrame sound.takeFrame sound'.takeFrame waits waits'
    | step =>
      have ready : Together False Alike m.ready m'.ready := by
        unfold Machine.ready
        rw [waits, waits']
        exact h.reset sound sound'
      refine (step_alike ready).bind ?_
      rintro ⟨n, m⟩ ⟨_, m'⟩ ⟨rfl, h⟩
      refine (h.watch rest).bind ?_
      rintro ⟨sights, last⟩ ⟨_, last'⟩ ⟨rfl, -⟩
      exact .ok (congrArg (· :: sights) (h.sight n))

/-- After a reset two machines that resemble each other show the same at every step, whatever
happened to them before and whatever happens to both of them then. -/
theorem reset_forgets (h : m.Reachable) (h' : m'.Reachable) (same : Resembles m m')
    (stimuli : List Stimulus) : ∃ sights last last',
      m.requestReset.watch stimuli = .ok (sights, last) ∧
      m'.requestReset.watch stimuli = .ok (sights, last') := by
  have reset : ∀ m : Machine, m.requestReset.applyInput.board.devices =
      m.applyInput.board.devices := by
    intro m
    rw [applyInput_devices, applyInput_devices]
    rfl
  have requested : Resembles m.requestReset m'.requestReset := by
    refine ⟨same.config, same.via, same.noRtc, same.ram, same.roms, same.colours, ?_, ?_, ?_,
      same.lastValue⟩
    all_goals rw [reset, reset]
    · exact same.keyboard
    · exact same.joystick1
    · exact same.joystick2
  obtain ⟨⟨sights, last⟩, ⟨_, last'⟩, hrun, hrun', rfl⟩ :=
    (requested.watch h.requestReset.sound h'.requestReset.sound rfl rfl stimuli).exists_ok
  exact ⟨sights, last, last', hrun, hrun'⟩

/-- A machine with a board that was worked on, a processor that an opcode has stopped and a
non-maskable interrupt that waits. -/
def stuck (m : Machine) (board : Board) : Machine :=
  { m with board, cpu.jammed := true, cpu.nmiPending := true }

/-- A machine just built, and the same machine stuck with a timer in the middle of its count. -/
theorem reset_forgets_timer : ∃ m started ran worked, new {} {} = .ok m ∧
    m.board.write 0xDC0E 0x01 = .ok started ∧ started.tick 100 = .ok ran ∧
    ran.write 0xDC06 m.board.devices.lastValue = .ok worked ∧
    m.board.peekChip 0xDC04 ≠ worked.peekChip 0xDC04 ∧
    m.Reachable ∧ (m.stuck worked).Reachable ∧ Resembles m (m.stuck worked) ∧
    ∃ sights last last',
      m.requestReset.watch [.step, .send (.key 1 2 true), .step] = .ok (sights, last) ∧
      (m.stuck worked).requestReset.watch [.step, .send (.key 1 2 true), .step] =
        .ok (sights, last') := by
  obtain ⟨m, started, ran, worked, hnew, h₁, h₂, h₃, shown, same⟩ :
      ∃ m started ran worked, new {} {} = .ok m ∧
        m.board.write 0xDC0E 0x01 = .ok started ∧ started.tick 100 = .ok ran ∧
        ran.write 0xDC06 m.board.devices.lastValue = .ok worked ∧
        m.board.peekChip 0xDC04 ≠ worked.peekChip 0xDC04 ∧ Resembles m (m.stuck worked) :=
    ⟨_, _, _, _, rfl, rfl, rfl, rfl, by decide +kernel,
      rfl, rfl, ⟨rfl, rfl⟩, rfl, rfl, rfl, rfl, rfl, rfl, rfl⟩
  have reachable : m.Reachable := .new hnew
  have first : Reachable { m with board := started } := .board (.write h₁) reachable
  have second : Reachable { m with board := ran } :=
    .board (m := { m with board := started }) (.tick h₂) first
  have third : Reachable { m with board := worked } :=
    .board (m := { m with board := ran }) (.write h₃) second
  have other : (m.stuck worked).Reachable := .cpu (m := { m with board := worked }) rfl third
  exact ⟨m, started, ran, worked, hnew, h₁, h₂, h₃, shown, reachable, other, same,
    reset_forgets reachable other same _⟩
end C64.Machine
