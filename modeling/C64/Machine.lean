import C64.Board
import C64.Machine.Config
import C64.Program

/-!
# The machine

Processor and board together. A step takes the input that waits, then a reset if one was
requested, and then executes one instruction, after which the board lets its time pass. A frame
is complete with the alarm that closes its last raster line; `runFrame` steps until then and
hands the frame to a sink.
-/

namespace C64

open Machine Raster

/-- The machine. -/
structure Machine where
  cpu : Cpu
  board : Board
  config : Config
  /-- What was wrong with the configuration when it was last put into force. -/
  errors : List ConfigError
  input : InputQueue
  stopRequested : Bool
  resetRequested : Bool

/-- What a run of one frame did. -/
structure Machine.FrameReport where
  /-- Cycles that passed. -/
  cycles : Nat
  /-- Lines of the frame with changed pixels. -/
  dirtyLines : Nat
  /-- What became of the frame; none if a stop came before it was complete. -/
  status : Option FrameStatus
deriving DecidableEq

namespace Machine

/-! ## Building -/

/-- A board fitted out to a configuration, and what was wrong with that. -/
def buildBoard (memory : Memory) (config : Config) : Except Fault (Board × List ConfigError) := do
  let (cia, errors) := config.cia
  let board ← Board.new memory config.standard cia
  let (error, board) ←
    match config.rtc with
    | some rtc => board.attachRtc rtc
    | none => pure (none, board)
  let board := if config.via then board.attachVia else board
  return (board, errors ++ (error.map ConfigError.rtc).toList)

/-- Cycles since the board was built. -/
def cycles (m : Machine) : Nat := m.board.clock.elapsed

/-- Frames completed since the board was built. -/
def frames (m : Machine) : Nat := m.board.devices.vic.frame

/-- The reset sequence of the processor. -/
def resetCpu (m : Machine) : Except Fault Machine := do
  let ⟨cpu, board, config, errors, input, stopRequested, resetRequested⟩ := m
  let (cpu, board) ← cpu.reset board
  return ⟨cpu, board, config, errors, input, stopRequested, resetRequested⟩

/-- A machine after power-on. -/
def new (config : Config) (images : RomImages) : Except Fault Machine := do
  let (roms, romErrors) := Roms.ofImages images
  let (board, errors) ← buildBoard (.new roms) config
  resetCpu {
    cpu := .new config.cpu
    board, config
    errors := romErrors.map ConfigError.rom ++ errors
    input := {}
    stopRequested := false
    resetRequested := false }

/-! ## Changing the configuration -/

/-- Fits the chips that are optional to a configuration. The real-time clock is only touched
where the configuration of it changes. -/
def refit (m : Machine) (config : Config) : Except Fault (Board × List ConfigError) := do
  let (error, board) ←
    if config.rtc = m.config.rtc then pure (none, m.board)
    else
      match config.rtc with
      | some rtc => m.board.attachRtc rtc
      | none => pure (none, m.board.detachRtc)
  let board := if config.via then board.attachVia else board.detachVia
  return (board, (error.map ConfigError.rtc).toList)

/-- Puts a configuration into force. Another video standard or another rate of the time of day
needs a new board with a reset, which keeps the memory; everything else changes in place. -/
def reconfigure (m : Machine) (config : Config) : Except Fault Machine := do
  let rebuild := config.standard ≠ m.config.standard ∨ config.todHz ≠ m.config.todHz
  let (board, errors) ←
    if rebuild then buildBoard m.board.devices.memory.reset config else m.refit config
  let m := { m with cpu := { m.cpu with config := config.cpu }, board, config, errors }
  if rebuild then m.resetCpu else return m

/-! ## Running -/

/-- What a change of the input does to the board. There are two ports for joysticks. -/
def applyEvent (d : Board.Devices) : InputEvent → Board.Devices
  | .key row column pressed => { d with keyboard := d.keyboard.set row column pressed }
  | .joystick 1 state => { d with joystick1 := state }
  | .joystick 2 state => { d with joystick2 := state }
  | .joystick _ _ => d

/-- Takes all input that waits. -/
def applyInput (m : Machine) : Machine :=
  if m.input.isEmpty then m
  else
    { m with
      board.devices := m.input.events.foldl applyEvent m.board.devices
      input := {} }

/-- Resets every chip and the processor. -/
def reset (m : Machine) : Except Fault Machine := do
  resetCpu { m with board := ← m.board.reset, resetRequested := false }

/-- Executes one instruction and answers the cycles it took. -/
def step (m : Machine) : Except Fault (Nat × Machine) := do
  let m := m.applyInput
  let ⟨cpu, board, config, errors, input, stopRequested, resetRequested⟩ ←
    if m.resetRequested then m.reset else pure m
  let (cycles, cpu, board) ← cpu.step board
  return (cycles, ⟨cpu, board, config, errors, input, stopRequested, resetRequested⟩)

/-- Executes `n` instructions and answers the cycles that each of them took. -/
def steps : Nat → Machine → Except Fault (List Nat × Machine) :=
  go []
where
  /-- The instructions behind those that took the cycles in `done`, the latest first. -/
  go (done : List Nat) : Nat → Machine → Except Fault (List Nat × Machine)
    | 0, m => .ok (done.reverse, m)
    | n + 1, m => do
      let (cycles, m) ← m.step
      go (cycles :: done) n m

/-- Steps until the processor comes to an address, at most `n` times; answers how often. -/
def stepUntil (address : UInt16) (n : Nat) (m : Machine) : Except Fault (Nat × Machine) :=
  go 0 n m
where
  /-- The steps behind the first `count`. -/
  go (count : Nat) : Nat → Machine → Except Fault (Nat × Machine)
    | 0, m => .ok (count, m)
    | n + 1, m =>
      if m.cpu.regs.pc = address then .ok (count, m)
      else do
        let (_, m) ← m.step
        go (count + 1) n m

/-- Forgets that a frame was completed. -/
def takeFrame (m : Machine) : Machine := { m with board.devices.frameComplete := false }

/-- Steps until a frame is complete or a stop was requested, at most `n` times; answers whether
a frame is complete. The request and the completed frame are forgotten. -/
def stepUntilFrame : Nat → Machine → Except Fault (Bool × Machine)
  | 0, _ => .error .noFrame
  | n + 1, m =>
    if m.stopRequested then .ok (false, { m with stopRequested := false })
    else do
      let (_, m) ← m.step
      if m.board.devices.frameComplete then return (true, m.takeFrame) else stepUntilFrame n m

/-- Runs until a frame is complete and hands it to a sink. A request to stop ends the run
between two instructions; the frame is not presented then. Every instruction takes a cycle at
least, so a frame is complete within as many instructions as two frames have cycles. -/
@[specialize] def runFrame {σ : Type} [FrameSink σ] (m : Machine) (sink : σ) :
    Except Fault (FrameReport × Machine × σ) := do
  let (wanted, sink) := FrameSink.takeRefresh sink
  let m := if wanted then { m with board.devices.vic := m.board.devices.vic.invalidate } else m
  let start := m.cycles
  let (complete, m) ← stepUntilFrame (2 * m.board.devices.vic.standard.cyclesPerFrame) m
  let dirtyLines ← m.board.devices.vic.cache.dirtyCount
  if complete then
    let (status, vic, sink) ← m.board.devices.vic.present sink
    let m := { m with board.devices.vic := vic }
    return (⟨m.cycles - start, dirtyLines, some status⟩, m, sink)
  else return (⟨m.cycles - start, dirtyLines, none⟩, m, sink)

/-! ## The host's hands -/

/-- Queues a change of the input. -/
def send (m : Machine) (e : InputEvent) : Machine := { m with input := m.input.push e }

/-- Ends a run of a frame before the next instruction. -/
def requestStop (m : Machine) : Machine := { m with stopRequested := true }

/-- Resets the machine before the next instruction. -/
def requestReset (m : Machine) : Machine := { m with resetRequested := true }

/-- Puts bytes into the memory, under ROMs and chips. -/
def load (m : Machine) (address : UInt16) (bytes : List UInt8) : Machine :=
  { m with board.devices.memory := m.board.devices.memory.load address bytes }

/-- Puts a program into the memory. -/
def install (m : Machine) (p : Program) : Machine :=
  { m with board.devices.memory := p.install m.board.devices.memory }

/-- Lets the processor go on at an address. -/
def jump (m : Machine) (address : UInt16) : Machine := { m with cpu.regs.pc := address }

end Machine

end C64
