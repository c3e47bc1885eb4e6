import C64.Host
import C64.Machine
import C64.Vic.Colour

/-!
# Capturing pictures

A screen can be saved as a picture, and a machine can be run with every frame saved.
-/

namespace C64

open Raster

/-- Why a picture cannot be captured. -/
inductive CaptureError where
  | noFrame
  | system (e : SystemError)
deriving DecidableEq

/-- What to tell the user. -/
def CaptureError.message : CaptureError → String
  | noFrame => "no frame has been presented yet"
  | system e => e.message

namespace Capture

variable {m : Type → Type} [Monad m] [Host m]

/-- Saves the screen under a path. -/
def save (s : FullFrame) (path : String) : m (Except CaptureError Unit) := do
  match s.picture? with
  | none => return .error .noFrame
  | some picture => return (← Host.save path picture).mapError .system

/-- The path of a name in a folder. -/
def join (folder name : String) : String :=
  if folder.isEmpty || folder.endsWith "/" then folder ++ name else s!"{folder}/{name}"

/-- Runs the frames with the given numbers and saves each of them in a folder. What keeps a
picture from being saved ends the run. -/
def frames (folder : String) :
    List Nat → Machine → FullFrame → m (Except Fault (Machine × Except CaptureError Unit))
  | [], machine, _ => return .ok (machine, .ok ())
  | i :: rest, machine, screen =>
    match machine.runFrame screen with
    | .error fault => return .error fault
    | .ok (_, machine, screen) => do
      match ← save screen (join folder (Text.zeroPad 6 (toString i) ++ ".png")) with
      | .error e => return .ok (machine, .error e)
      | .ok () => frames folder rest machine screen

/-- Runs `n` frames and saves each of them in a folder, which is made if need be. -/
def record (machine : Machine) (folder : String) (n : Nat) :
    m (Except Fault (Machine × Except CaptureError Unit)) := do
  match ← Host.makeFolders folder with
  | .error e => return .ok (machine, .error (.system e))
  | .ok () =>
    let answer ← frames folder (List.range' 1 n) machine (.new Vic.palette)
    if let .ok (_, .ok ()) := answer then
      Host.notify s!"Captured {n} frames to {folder}\n"
    return answer

end Capture

end C64
