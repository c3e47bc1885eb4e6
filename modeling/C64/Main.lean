import C64.Headless
import C64.Picture.Png

/-!
# The command line

The headless runner on the system itself.
-/

namespace C64

/-- The reason in an error of the system. Some of its numbers come with their sign turned. -/
def SystemError.ofFailure (e : IO.Error) : SystemError :=
  let ofCode (code : UInt32) (text : String) : SystemError :=
    let code := (min code (0 - code)).toNat
    (ofCode? code).getD (.other text code)
  match e with
  | .noFileOrDirectory .. => .notFound
  | .alreadyExists .. => .exists
  | .inappropriateType _ code text | .invalidArgument _ code text => ofCode code text
  | .permissionDenied _ code _ => ofCode code "Permission denied"
  | e => .other (toString e) 0

/-- An action with its refusal as an answer. -/
def answered {α : Type} (action : IO α) : IO (Except SystemError α) := do
  match ← action.toBaseIO with
  | .ok a => return .ok a
  | .error e => return .error (.ofFailure e)

instance : Host IO where
  read path := answered (IO.FS.readBinFile path)
  makeFolder path := do
    match ← answered (IO.FS.createDir path) with
    -- What exists is a folder, or this is refused as well.
    | .error .exists => answered (IO.FS.createDirAll path)
    | answer => return answer
  save path p := answered (IO.FS.writeBinFile path p.toPng)
  print text := IO.print text
  notify text := IO.eprint text

end C64

def main (arguments : List String) : IO UInt32 := do
  return (← C64.Headless.obey arguments).toUInt32
