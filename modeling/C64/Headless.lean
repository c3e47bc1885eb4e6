import C64.Capture
import C64.Machine.ConfigText

/-!
# The headless runner

Runs a machine for a number of frames without showing them, and tells how much of them had to
be drawn anew. Every frame can be saved as a picture, or the last one.
-/

namespace C64.Headless

open Raster

/-! ## The command line -/

/-- What to run. -/
structure Options where
  config : Option String := none
  program : Option String := none
  kernal : Option String := none
  basic : Option String := none
  character : Option String := none
  frames : Nat := 200
  screenshot : Option String := none
  record : Option String := none
deriving DecidableEq

/-- What the command line asks for. -/
inductive Command where
  | run (o : Options)
  | help
  | unknown (argument : String)
deriving DecidableEq

/-- The number of frames; the usual one if the text is no number of thirty-two bits. -/
def frameCount (text : String) : Nat :=
  let digits :=
    match text.toList with
    | '+' :: rest => rest
    | digits => digits
  let n := digits.foldl (fun n c => n * 10 + (c.toNat - '0'.toNat)) 0
  if !digits.isEmpty && digits.all Char.isDigit && n < 0x100000000 then n else 200

/-- Reads the arguments one after another. The last use of an option counts, and an option
whose value is missing counts as not given; the number of frames stays as it was. -/
def Command.ofArguments (o : Options) : List String → Command
  | [] => .run o
  | name :: rest =>
    let value := rest.head?
    let next (o : Options) : Command :=
      match rest with
      | _ :: rest => ofArguments o rest
      | [] => .run o
    match name with
    | "--config" => next { o with config := value }
    | "--prg" => next { o with program := value }
    | "--kernal" => next { o with kernal := value }
    | "--basic" => next { o with basic := value }
    | "--chargen" => next { o with character := value }
    | "--frames" => next { o with frames := (value.map frameCount).getD o.frames }
    | "--screenshot" => next { o with screenshot := value }
    | "--record" => next { o with record := value }
    | "--help" | "-h" => .help
    | other => .unknown other

/-- How to use the runner. -/
def usage : String := "Usage: c64-headless [OPTIONS]

Options:
  --config <file>      Machine configuration (TOML)
  --prg <file>         Load a PRG file into memory
" ++ s!"  --kernal <file>      Kernal ROM ({RomKind.kernal.size} bytes)
  --basic <file>       BASIC ROM ({RomKind.basic.size} bytes)
  --chargen <file>     Character ROM ({RomKind.character.size} bytes)
" ++ "  --frames <n>         Number of frames to run [default: 200]
  --screenshot <file>  Save a PNG of the last frame
  --record <dir>       Save every frame as a PNG
"

/-! ## What can go wrong -/

/-- Why a run ended early. -/
inductive RunError where
  | config (path : String) (e : SystemError)
  /-- The configuration is no text. -/
  | configBytes (path : String)
  | configText (path : String) (e : Machine.Config.ReadError)
  | rom (kind : RomKind) (path : String) (e : SystemError)
  | program (path : String) (e : SystemError)
  | programBytes (path : String) (e : LoadError)
  | record (folder : String) (e : CaptureError)
  | screenshot (path : String) (e : CaptureError)
  | fault (e : Fault)
deriving DecidableEq

/-- What to tell the user: what was tried, and what came of it. -/
def RunError.message : RunError → String
  | config path e => s!"cannot read {path}: {e.message}"
  | configBytes path => s!"cannot read {path}: stream did not contain valid UTF-8"
  | configText path e => s!"in {path}: {e.message}"
  | rom kind path e => s!"cannot read {kind.name} ROM at {path}: {e.message}"
  | program path e => s!"cannot read PRG file {path}: {e.message}"
  | programBytes path e => s!"cannot load {path}: {e.message}"
  | record folder e => s!"cannot record to {folder}: {e.message}"
  | screenshot path e => s!"cannot save {path}: {e.message}"
  | fault e => "the machine stopped: " ++ e.message?.getD "a number left its range"

/-! ## Running -/

variable {m : Type → Type} [Monad m] [Host m]

/-- An answer of the system as a step of a run. -/
def attempt {ε α : Type} (name : ε → RunError) (answer : m (Except ε α)) : ExceptT RunError m α :=
  ExceptT.mk ((Except.mapError name ·) <$> answer)

/-- Reads the configuration. -/
def readConfig : Option String → ExceptT RunError m Machine.Config
  | none => return {}
  | some path => do
    let bytes ← attempt (.config path) (Host.read path)
    match String.fromUTF8? bytes with
    | none => throw (.configBytes path)
    | some text =>
      match Machine.Config.ofText text with
      | .ok config => return config
      | .error e => throw (.configText path e)

/-- Reads the image of a ROM. -/
def readRom (kind : RomKind) : Option String → ExceptT RunError m (Option ByteArray)
  | none => return none
  | some path => some <$> attempt (.rom kind path) (Host.read path)

/-- Loads a program. Without a Kernal nothing would start it, so the processor goes there. -/
def loadProgram (machine : Machine) (path : String) : ExceptT RunError m Machine := do
  let bytes ← attempt (.program path) (Host.read path)
  match Program.ofBytes bytes.toList with
  | .error e => throw (.programBytes path e)
  | .ok program =>
    ExceptT.lift (Host.notify s!"Loaded PRG at ${Text.word program.address}: {path}\n")
    let machine := machine.install program
    return if machine.board.devices.memory.roms.kernal.isSome then machine
      else machine.jump program.address

/-- Builds the machine. -/
def build (o : Options) : ExceptT RunError m Machine := do
  let config ← readConfig o.config
  let kernal ← readRom .kernal o.kernal
  let basic ← readRom .basic o.basic
  let character ← readRom .character o.character
  match Machine.new config { kernal, basic, character } with
  | .error e => throw (.fault e)
  | .ok machine =>
    match o.program with
    | some path => loadProgram machine path
    | none => return machine

/-- What a run of frames adds up to. -/
structure Totals where
  cycles : Nat := 0
  dirtyLines : Nat := 0
  /-- Frames in which nothing changed. -/
  clean : Nat := 0
  dropped : Nat := 0
deriving DecidableEq

/-- Adds a frame. -/
def Totals.add (t : Totals) (r : Machine.FrameReport) : Totals :=
  { cycles := t.cycles + r.cycles
    dirtyLines := t.dirtyLines + r.dirtyLines
    clean := if r.dirtyLines = 0 then t.clean + 1 else t.clean
    dropped := if r.status = some .dropped then t.dropped + 1 else t.dropped }

/-- Runs `n` frames. -/
def runFrames : Nat → Machine → FullFrame → Totals → Except Fault (Machine × FullFrame × Totals)
  | 0, machine, screen, totals => .ok (machine, screen, totals)
  | n + 1, machine, screen, totals => do
    let (report, machine, screen) ← machine.runFrame screen
    runFrames n machine screen (totals.add report)

/-- What is told about a run of `frames` frames of some height. -/
def Totals.report (t : Totals) (frames height : Nat) : String :=
  s!"frames:      {frames}\n" ++
  s!"cycles:      {t.cycles}\n" ++
  s!"dirty lines: {t.dirtyLines} ({t.dirtyLines / max frames 1} per frame of {height})\n" ++
  s!"clean:       {t.clean} frames\n" ++
  s!"dropped:     {t.dropped} frames\n"

/-- Runs the frames and tells about them. -/
def measure (o : Options) (machine : Machine) : ExceptT RunError m Unit := do
  match runFrames o.frames machine (.new Vic.palette) {} with
  | .error e => throw (.fault e)
  | .ok (machine, screen, totals) =>
    ExceptT.lift (Host.print (totals.report o.frames machine.board.devices.vic.cache.height))
    if let some path := o.screenshot then
      attempt (.screenshot path) (Capture.save screen path)
      ExceptT.lift (Host.notify s!"Screenshot saved to {path}\n")

/-- Runs what the options ask for. -/
def run (o : Options) : ExceptT RunError m Unit := do
  let machine ← build o
  match o.record with
  | none => measure o machine
  | some folder =>
    let (_, answer) ← attempt .fault (Capture.record machine folder o.frames)
    match answer with
    | .ok () => return
    | .error e => throw (.record folder e)

/-- Obeys a command line; answers the exit status. -/
def obey (arguments : List String) : m Nat := do
  match Command.ofArguments {} arguments with
  | .help =>
    Host.notify usage
    return 0
  | .unknown argument =>
    Host.notify s!"Unknown argument: {argument}\n"
    return 1
  | .run o =>
    match ← (run o).run with
    | .ok () => return 0
    | .error e =>
      Host.notify s!"Error: {e.message}\n"
      return 1

end C64.Headless
