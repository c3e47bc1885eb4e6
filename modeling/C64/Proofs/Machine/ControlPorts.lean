import C64.Proofs.Board.Controls
import C64.Proofs.Cpu.Traffic
import C64.Proofs.Machine.Configured

/-!
# Input as the processor sees it

Keys and joysticks reach the machine as events, which wait until the next instruction takes them. Of
a key or a port only the last event counts, and places without a key or a port have none
(`Controls.Shows`). Whatever else is done with a machine, its board shows the events that came since
it was built (`Played.stands`), so that the two port registers of the first adapter are known from
these events and the registers of the adapter alone (`read_controlPorts`).

The lines of port B that are driven as outputs are the exception: a joystick or a key that pulls one
low is not seen there (`driven_line_stays_high`).
-/

namespace C64

open Board (Controls)

/-! ## Events -/

/-- What an event says of a key. -/
def InputEvent.ofKey (row column : Nat) : InputEvent → Option Bool
  | .key r c pressed => if r = row ∧ c = column then some pressed else none
  | .joystick _ _ => none

/-- What an event says of the joystick at a port. -/
def InputEvent.ofPort (port : Nat) : InputEvent → Option Joystick
  | .key _ _ _ => none
  | .joystick p state => if p = port then some state else none

/-- What the last of the events says that say anything, with a value for when none does. -/
def lastSaid {α : Type} (pick : InputEvent → Option α) (initial : α) (events : List InputEvent) : α :=
  (events.filterMap pick).getLast?.getD initial

theorem lastSaid_snoc {α : Type} (pick : InputEvent → Option α) (initial : α)
    (events : List InputEvent) (e : InputEvent) :
    lastSaid pick initial (events ++ [e]) = (pick e).getD (lastSaid pick initial events) := by
  unfold lastSaid
  rw [List.filterMap_append, List.getLast?_append]
  cases hpick : pick e with
  | some a => simp [hpick]
  | none => simp [hpick]

/-- Whether a key is held after events. -/
def held (events : List InputEvent) (row column : Nat) : Bool :=
  lastSaid (InputEvent.ofKey row column) false events

/-- The joystick at a port after events. -/
def joystickAt (events : List InputEvent) (port : Nat) : Joystick :=
  lastSaid (InputEvent.ofPort port) {} events

/-- Keys and joysticks are as the events left them. -/
structure Board.Controls.Shows (c : Controls) (events : List InputEvent) : Prop where
  keys : ∀ row < 8, ∀ column < 8, c.keyboard.isPressed row column = held events row column
  joystick1 : c.joystick1 = joystickAt events 1
  joystick2 : c.joystick2 = joystickAt events 2

namespace Machine

open Raster

variable {events taken : List InputEvent} {d : Board.Devices} {m m' : Machine}

theorem shows_applyEvent (h : d.controls.Shows events) (e : InputEvent) :
    (applyEvent d e).controls.Shows (events ++ [e]) := by
  have heldBehind : ∀ row column, held (events ++ [e]) row column =
      (e.ofKey row column).getD (held events row column) := fun _ _ => lastSaid_snoc ..
  have joystickBehind : ∀ port, joystickAt (events ++ [e]) port =
      (e.ofPort port).getD (joystickAt events port) := fun _ => lastSaid_snoc ..
  cases e with
  | key r c pressed =>
    refine ⟨?_, h.joystick1.trans (joystickBehind 1).symm, h.joystick2.trans (joystickBehind 2).symm⟩
    intro row hrow column hcolumn
    rw [heldBehind, ← h.keys row hrow column hcolumn]
    show (d.keyboard.set r c pressed).isPressed row column = _
    by_cases inside : r < 8 ∧ c < 8
    · rw [Keyboard.isPressed_set _ _ inside.1 inside.2, InputEvent.ofKey]
      by_cases same : r = row ∧ c = column
      · rw [if_pos same, if_pos ⟨same.1.symm, same.2.symm⟩]
        rfl
      · rw [if_neg same, if_neg fun h => same ⟨h.1.symm, h.2.symm⟩]
        rfl
    · have elsewhere : ¬(r = row ∧ c = column) := by
        rintro ⟨rfl, rfl⟩
        exact inside ⟨hrow, hcolumn⟩
      rw [InputEvent.ofKey, if_neg elsewhere, Keyboard.set, dif_neg inside]
      rfl
  | joystick port state =>
    have keys : ∀ row < 8, ∀ column < 8, d.keyboard.isPressed row column =
        held (events ++ [.joystick port state]) row column := fun row hrow column hcolumn =>
      (h.keys row hrow column hcolumn).trans (heldBehind row column).symm
    have first := joystickBehind 1
    have second := joystickBehind 2
    rcases port with _ | _ | _ | port
    · exact ⟨keys, h.joystick1.trans first.symm, h.joystick2.trans second.symm⟩
    · exact ⟨keys, first.symm, h.joystick2.trans second.symm⟩
    · exact ⟨keys, h.joystick1.trans first.symm, second.symm⟩
    · exact ⟨keys, h.joystick1.trans first.symm, h.joystick2.trans second.symm⟩

theorem shows_applyEvents (h : d.controls.Shows taken) (events : List InputEvent) :
    (events.foldl applyEvent d).controls.Shows (taken ++ events) := by
  induction events generalizing d taken with
  | nil => rwa [List.append_nil]
  | cons e events ih =>
    rw [List.append_cons]
    exact ih (shows_applyEvent h e)

/-! ## Machines under the events of a user -/

/-- The machines that can come about, with the events that came since the board was built. The host
may work the processor and the board in between, but leaves the user the keys and joysticks. -/
inductive Played : List InputEvent → Machine → Prop
  | new {config : Config} {images : RomImages} {m : Machine} :
      new config images = .ok m → Played [] m
  | send {events : List InputEvent} {m : Machine} (e : InputEvent) :
      Played events m → Played (events ++ [e]) (m.send e)
  | step {events : List InputEvent} {m m' : Machine} {n : Nat} :
      Played events m → m.step = .ok (n, m') → Played events m'
  | runFrame {events : List InputEvent} {m m' : Machine} {σ : Type} [FrameSink σ] {sink sink' : σ}
      {report : FrameReport} :
      Played events m → m.runFrame sink = .ok (report, m', sink') → Played events m'
  | takeFrame {events : List InputEvent} {m : Machine} :
      Played events m → Played events m.takeFrame
  | requestStop {events : List InputEvent} {m : Machine} :
      Played events m → Played events m.requestStop
  | requestReset {events : List InputEvent} {m : Machine} :
      Played events m → Played events m.requestReset
  | load {events : List InputEvent} {m : Machine} (address : UInt16) (bytes : List UInt8) :
      Played events m → Played events (m.load address bytes)
  | cpu {events : List InputEvent} {m : Machine} {cpu : Cpu} :
      cpu.config = m.cpu.config → Played events m → Played events { m with cpu }
  | board {events : List InputEvent} {m : Machine} {board : Board} :
      m.board.Worked board → board.devices.controls = m.board.devices.controls →
      Played events m → Played events { m with board }
  | reconfigure {events : List InputEvent} {m m' : Machine} {config : Config} :
      Played events m → ¬m.Rebuilds config → m.reconfigure config = .ok m' → Played events m'
  /-- On a new board nothing is held. What waits is still to come. -/
  | rebuild {events : List InputEvent} {m m' : Machine} {config : Config} :
      Played events m → m.Rebuilds config → m.reconfigure config = .ok m' →
      Played m.input.events m'

/-- The board shows the events that were taken; the others wait. -/
structure Stands (events : List InputEvent) (m : Machine) : Prop where
  sound : m.Sound
  shown : ∃ taken, events = taken ++ m.input.events ∧ m.board.devices.controls.Shows taken

theorem Stands.applyInput (h : m.Stands events) :
    m.applyInput.board.devices.controls.Shows events ∧ m.applyInput.input.events = [] := by
  obtain ⟨taken, rfl, shows⟩ := h.shown
  unfold Machine.applyInput
  split
  · next empty =>
    have none : m.input.events = [] := List.isEmpty_iff.mp empty
    refine ⟨?_, none⟩
    rw [none, List.append_nil]
    exact shows
  · exact ⟨shows_applyEvents shows _, rfl⟩

theorem Sound.resetCpu_controls (h : m.Sound) (hrun : m.resetCpu = .ok m') :
    m'.board.devices.controls = m.board.devices.controls ∧ m'.input = m.input := by
  obtain ⟨⟨cpu, board⟩, hreset, hret⟩ := bind_eq_ok.mp hrun
  cases hret
  exact ⟨(Cpu.reset_keeps (Board.controls_simulates _) ⟨h.board, rfl⟩ hreset).2, rfl⟩

/-- When the processor's step begins, the board shows all events. -/
theorem Stands.ready (h : m.Stands events) (hrun : m.ready = .ok m') :
    m'.Sound ∧ m'.board.devices.controls.Shows events ∧ m'.input.events = [] := by
  obtain ⟨shows, taken⟩ := h.applyInput
  have sound := h.sound.applyInput
  unfold Machine.ready at hrun
  split at hrun
  · obtain ⟨board, hreset, hcpu⟩ := bind_eq_ok.mp hrun
    have reset : Sound { m.applyInput with board, resetRequested := false } :=
      ⟨sound.board.reset hreset, sound.cpu⟩
    obtain ⟨same, input⟩ := reset.resetCpu_controls hcpu
    refine ⟨reset.resetCpu hcpu, ?_, by rw [input]; exact taken⟩
    rw [same]
    exact (Board.reset_controls hreset).symm ▸ shows
  · cases hrun
    exact ⟨sound, shows, taken⟩

theorem Stands.step (h : m.Stands events) {n : Nat} (hrun : m.step = .ok (n, m')) :
    m'.Stands events := by
  refine ⟨h.sound.step hrun, events, ?_, ?_⟩
  all_goals
    rw [step_eq] at hrun
    obtain ⟨m₁, hready, hrun⟩ := bind_eq_ok.mp hrun
    obtain ⟨⟨n', cpu, board⟩, hstep, hret⟩ := bind_eq_ok.mp hrun
    cases hret
    obtain ⟨sound, shows, taken⟩ := h.ready hready
  · exact (taken ▸ List.append_nil events).symm
  · exact (Cpu.step_keeps (Board.controls_simulates _) ⟨sound.board, rfl⟩ hstep).2.symm ▸ shows

theorem Stands.stepUntilFrame (h : m.Stands events) {budget : Nat} {complete : Bool}
    (hrun : m.stepUntilFrame budget = .ok (complete, m')) : m'.Stands events := by
  rcases stepUntilFrame_leads (fun stands hstep => stands.step hstep) (fun stands _ => stands) h hrun
    with ⟨-, m₁, stands, rfl⟩ | ⟨-, m₁, stands, -, rfl⟩
  · exact ⟨⟨stands.sound.board, stands.sound.cpu⟩, stands.shown⟩
  · exact ⟨stands.sound.takeFrame, stands.shown⟩

theorem Stands.runFrame (h : m.Stands events) {σ : Type} [FrameSink σ] {sink sink' : σ}
    {report : FrameReport} (hrun : m.runFrame sink = .ok (report, m', sink')) :
    m'.Stands events := by
  refine ⟨h.sound.runFrame hrun, ?_⟩
  obtain ⟨m₁, budget, hframe, delivered, -⟩ := runFrame_ok hrun
  have asked : (m.asked (FrameSink.takeRefresh sink).1).Stands events := by
    refine ⟨h.sound.asked _, ?_⟩
    unfold Machine.asked
    split <;> exact h.shown
  have ran := asked.stepUntilFrame hframe
  rcases delivered with rfl | rfl
  · exact ran.shown
  · exact ran.shown

theorem shows_nothing : Controls.Shows ⟨.released, {}, {}⟩ [] := by
  refine ⟨?_, rfl, rfl⟩
  intro row hrow column hcolumn
  have every : ∀ row < 8, ∀ column < 8, Keyboard.released.isPressed row column = false := by
    decide
  exact every row hrow column hcolumn

/-- On a board that was just built nothing is held. -/
theorem buildBoard_shows {memory : Memory} {config : Config} {board : Board}
    {errors : List ConfigError} (hrun : buildBoard memory config = .ok (board, errors)) :
    board.devices.controls.Shows [] := by
  have adapter : ∀ {b : Board}, b.devices.controls.Shows [] →
      (if config.via then b.attachVia else b).devices.controls.Shows [] := by
    intro b shows
    split
    · exact (b.fitVia_refitted true).1.controls.symm ▸ shows
    · exact shows
  unfold buildBoard at hrun
  simp only [] at hrun
  obtain ⟨b, hnew, hrun⟩ := bind_eq_ok.mp hrun
  have shows : b.devices.controls.Shows [] := by
    obtain ⟨⟨cia1, clock₁⟩, -, h⟩ := bind_eq_ok.mp hnew
    obtain ⟨⟨cia2, clock₂⟩, -, h⟩ := bind_eq_ok.mp h
    obtain ⟨⟨due, clock₃⟩, -, h⟩ := bind_eq_ok.mp h
    cases h
    exact shows_nothing
  split at hrun
  · obtain ⟨⟨error, b'⟩, hattach, hret⟩ := bind_eq_ok.mp hrun
    cases hret
    exact adapter ((Board.attachRtc_refitted hattach).1.controls.symm ▸ shows)
  · cases hrun
    exact adapter shows

theorem Stands.new {config : Config} {images : RomImages} (hrun : new config images = .ok m) :
    m.Stands [] := by
  refine ⟨.new hrun, [], ?_⟩
  unfold Machine.new at hrun
  obtain ⟨⟨board, errors⟩, hbuild, hcpu⟩ := bind_eq_ok.mp hrun
  have reset := fun sound => Sound.resetCpu_controls sound hcpu
  obtain ⟨same, input⟩ := reset ⟨buildBoard_fit hbuild, rfl⟩
  rw [same, input]
  exact ⟨rfl, buildBoard_shows hbuild⟩

theorem refit_controls {config : Config} {board : Board} {errors : List ConfigError}
    (hrun : m.refit config = .ok (board, errors)) :
    board.devices.controls = m.board.devices.controls := by
  have adapter : ∀ {b : Board}, b.devices.controls = m.board.devices.controls →
      (if config.via then b.attachVia else b.detachVia).devices.controls =
        m.board.devices.controls :=
    fun {b} same => (b.fitVia_refitted config.via).1.controls.trans same
  unfold Machine.refit at hrun
  simp only [] at hrun
  split at hrun
  · cases hrun
    exact adapter rfl
  · split at hrun
    · obtain ⟨⟨error, b⟩, hattach, hret⟩ := bind_eq_ok.mp hrun
      cases hret
      exact adapter (Board.attachRtc_refitted hattach).1.controls
    · cases hrun
      exact adapter m.board.detachRtc_refitted.1.controls

theorem Stands.reconfigure (h : m.Stands events) {config : Config} (inPlace : ¬m.Rebuilds config)
    (hrun : m.reconfigure config = .ok m') : m'.Stands events := by
  refine ⟨h.sound.reconfigure hrun, ?_⟩
  rw [reconfigure_in_place inPlace] at hrun
  obtain ⟨⟨board, errors⟩, hrefit, hret⟩ := bind_eq_ok.mp hrun
  cases hret
  obtain ⟨taken, waits, shows⟩ := h.shown
  exact ⟨taken, waits, (refit_controls hrefit).symm ▸ shows⟩

theorem Stands.rebuild (h : m.Stands events) {config : Config} (rebuilds : m.Rebuilds config)
    (hrun : m.reconfigure config = .ok m') : m'.Stands m.input.events := by
  refine ⟨h.sound.reconfigure hrun, [], ?_⟩
  rw [reconfigure_of_rebuilds rebuilds] at hrun
  obtain ⟨⟨board, errors⟩, hbuild, hcpu⟩ := bind_eq_ok.mp hrun
  have reset := fun sound => Sound.resetCpu_controls sound hcpu
  obtain ⟨same, input⟩ := reset ⟨buildBoard_fit hbuild, rfl⟩
  rw [same, input]
  exact ⟨rfl, buildBoard_shows hbuild⟩

/-- Every machine of a user shows what they did with it. -/
theorem Played.stands (h : m.Played events) : m.Stands events := by
  induction h with
  | new hrun => exact .new hrun
  | step _ hrun ih => exact ih.step hrun
  | runFrame _ hrun ih => exact ih.runFrame hrun
  | reconfigure _ inPlace hrun ih => exact ih.reconfigure inPlace hrun
  | rebuild _ rebuilds hrun ih => exact ih.rebuild rebuilds hrun
  | takeFrame _ ih => exact ⟨ih.sound.takeFrame, ih.shown⟩
  | requestStop _ ih => exact ⟨⟨ih.sound.board, ih.sound.cpu⟩, ih.shown⟩
  | requestReset _ ih => exact ⟨⟨ih.sound.board, ih.sound.cpu⟩, ih.shown⟩
  | load address bytes _ ih =>
    exact ⟨ih.sound.withDevices ih.sound.board.sound.devices.vic rfl rfl rfl rfl rfl, ih.shown⟩
  | cpu kind _ ih => exact ⟨⟨ih.sound.board, kind.trans ih.sound.cpu⟩, ih.shown⟩
  | board work same _ ih =>
    obtain ⟨taken, waits, shows⟩ := ih.shown
    exact ⟨ih.sound.worked work, taken, waits, same.symm ▸ shows⟩
  | send e _ ih =>
    obtain ⟨taken, rfl, shows⟩ := ih.shown
    exact ⟨⟨ih.sound.board, ih.sound.cpu⟩, taken, List.append_assoc .., shows⟩

/-! ## The port registers -/

/-- Accesses of a processor and the passing of time leave the user the keys and joysticks. -/
theorem controls_of_leads {standard : VideoStandard} {cia : Cia.Config} {b b' : Board}
    {accesses : List Access} (fit : b.Fit standard cia) (h : Bus.Leads b accesses b') :
    b'.Fit standard cia ∧ b'.devices.controls = b.devices.controls := by
  induction h with
  | refl => exact ⟨fit, rfl⟩
  | read _ address ih =>
    exact ⟨ih.1.read address, (Board.read_accessed _ address).controls.trans ih.2⟩
  | write _ hrun ih =>
    exact ⟨ih.1.write hrun, (Board.write_accessed hrun).controls.trans ih.2⟩
  | tick _ hrun ih =>
    exact ⟨ih.1.tick hrun, (ih.1.sound.tick_controls hrun).trans ih.2⟩

/-- Whenever an instruction reads a port register of the first adapter, behind whichever accesses,
the events that came until then and the registers of the adapter say what it reads. A row is low
where the adapter drives it low or the joystick at port 2 closes its line, and port A shows that. Of
port B an output shows how it is driven; an input is low where the joystick at port 1 closes its
line or a key that is held lies on a row that is low. -/
theorem read_controlPorts (played : m.Played events) (ready : m.ready = .ok m')
    {accesses : List Access} {b : Board} (leads : Bus.Leads m'.board accesses b)
    (visible : b.devices.memory.port.chipsVisible = true) :
    let cia := b.devices.cia1
    let low := fun row =>
      (bitAt cia.directionA row = true ∧ bitAt cia.portA row = false) ∨
        (joystickAt events 2).closes row = true
    (∀ row < 8, bitAt (Bus.read b 0xDC00).1 row = false ↔ low row) ∧
    ∀ column < 8, bitAt (Bus.read b 0xDC01).1 column = false ↔
      if bitAt cia.directionB column then bitAt cia.portB column = false
      else (joystickAt events 1).closes column = true ∨
        ∃ row < 8, held events row column = true ∧ low row := by
  obtain ⟨sound, shows, -⟩ := played.stands.ready ready
  rw [← (controls_of_leads sound.board leads).2] at shows
  have port1 : b.devices.joystick1 = joystickAt events 1 := shows.joystick1
  have port2 : b.devices.joystick2 = joystickAt events 2 := shows.joystick2
  constructor
  · intro row hrow
    rw [← port2]
    exact Board.bitAt_read_portA visible hrow
  · intro column hcolumn
    have keys : (∃ row < 8, b.devices.keyboard.isPressed row column = true ∧
        b.devices.rowLow row) ↔
        ∃ row < 8, held events row column = true ∧ b.devices.rowLow row :=
      exists_congr fun row => and_congr_right fun hrow => by
        rw [← shows.keys row hrow column hcolumn]
        rfl
    rw [← port1, ← port2]
    exact (Board.bitAt_read_portB visible hcolumn).trans (by rw [keys]; rfl)

/-- A machine whose user pulled row 4 low with the joystick at port 2 and holds a key of that row. -/
def rowPulled : Except Fault (Machine × Machine) := do
  let m ← new {} { kernal := some ⟨Array.replicate 0x2000 0xEA⟩ }
  let ready ← ((m.send (.joystick 2 { fire := true })).send (.key 4 3 true)).ready
  return (m, ready)

theorem rowPulled_shows :
    rowPulled.toOption.map (fun (_, m) => (m.board.devices.memory.port.chipsVisible,
      m.board.devices.cia1.directionB)) = some (true, 0) := by
  decide +kernel

theorem read_controlPorts_rowPulled :
    ∃ m m' : Machine, m.Played [.joystick 2 { fire := true }, .key 4 3 true] ∧
      m.ready = .ok m' ∧ bitAt (Bus.read m'.board 0xDC00).1 4 = false ∧
      bitAt (Bus.read m'.board 0xDC01).1 3 = false := by
  have shows := rowPulled_shows
  rcases h : rowPulled with e | ⟨m₀, m'⟩
  · simp [h, Except.toOption] at shows
  · obtain ⟨visible, inputs⟩ : m'.board.devices.memory.port.chipsVisible = true ∧
        m'.board.devices.cia1.directionB = 0 := by
      simpa [h, Except.toOption] using shows
    obtain ⟨m₁, made, h⟩ := bind_eq_ok.mp h
    obtain ⟨m₂, ready, h⟩ := bind_eq_ok.mp h
    cases h
    have played := ((Played.new made).send (.joystick 2 { fire := true })).send (.key 4 3 true)
    obtain ⟨portA, portB⟩ := read_controlPorts played ready .refl visible
    refine ⟨_, m', played, ready, (portA 4 (by decide)).mpr (.inr rfl), ?_⟩
    rw [portB 3 (by decide), inputs]
    exact .inr ⟨4, by decide, rfl, .inr rfl⟩

/-- The joystick at port 1 closes the line of its fire button, and the adapter drives all lines of
port B as high outputs. -/
def firePressedOnOutput : Except Fault (Machine × Board × Board × Machine) := do
  let m ← new {} { kernal := some ⟨Array.replicate 0x2000 0xEA⟩ }
  let outputs ← m.board.write 0xDC03 0xFF
  let driven ← outputs.write 0xDC01 0xFF
  let ready ← (({ m with board := driven } : Machine).send (.joystick 1 { fire := true })).ready
  return (m, outputs, driven, ready)

theorem firePressedOnOutput_shows :
    firePressedOnOutput.toOption.map (fun (_, _, _, m) =>
      (m.board.devices.memory.port.chipsVisible, bitAt (Bus.read m.board 0xDC01).1 4)) =
        some (true, true) := by
  decide +kernel

/-- A line of port B that is driven high is read as high though the joystick at port 1 closes it. -/
theorem driven_line_stays_high :
    ∃ m m' : Machine, m.Played [.joystick 1 { fire := true }] ∧ m.ready = .ok m' ∧
      m'.board.devices.memory.port.chipsVisible = true ∧
      (joystickAt [.joystick 1 { fire := true }] 1).closes 4 = true ∧
      ¬bitAt (Bus.read m'.board 0xDC01).1 4 = false := by
  have shows := firePressedOnOutput_shows
  rcases h : firePressedOnOutput with e | ⟨m₀, outputs, driven, m'⟩
  · simp [h, Except.toOption] at shows
  · obtain ⟨visible, high⟩ : m'.board.devices.memory.port.chipsVisible = true ∧
        bitAt (Bus.read m'.board 0xDC01).1 4 = true := by
      simpa [h, Except.toOption] using shows
    obtain ⟨m₁, made, h⟩ := bind_eq_ok.mp h
    obtain ⟨b₁, hdirection, h⟩ := bind_eq_ok.mp h
    obtain ⟨b₂, hport, h⟩ := bind_eq_ok.mp h
    obtain ⟨m₂, ready, h⟩ := bind_eq_ok.mp h
    cases h
    have set := (Played.new made).board (.write hdirection)
      (Board.write_accessed hdirection).controls
    have driven := set.board (.write hport) (Board.write_accessed hport).controls
    exact ⟨_, m', driven.send (.joystick 1 { fire := true }), ready, visible, rfl, by simp [high]⟩

end Machine

end C64
