import C64.Picture

/-!
# The host

What a program around the machine needs of the system it runs on: files to read, folders to
make, a place for pictures and two places for text. What the system refuses is an ordinary
answer.
-/

namespace C64

/-- Why the system refuses. -/
inductive SystemError where
  /-- A file or a folder on the way to it does not exist. -/
  | notFound
  /-- There is something of that name already. -/
  | exists
  /-- Something on the way is no folder. -/
  | notFolder
  /-- A folder stands where a file is wanted. -/
  | isFolder
  /-- A name or a path has too many bytes. -/
  | nameTooLong
  /-- Any other reason, with the number of the system and its text. -/
  | other (text : String) (code : Nat)
deriving DecidableEq

namespace SystemError

/-- The text of the reason. -/
def text : SystemError → String
  | notFound => "No such file or directory"
  | .exists => "File exists"
  | notFolder => "Not a directory"
  | isFolder => "Is a directory"
  | nameTooLong => "File name too long"
  | other text _ => text

/-- The number of the reason. -/
def code : SystemError → Nat
  | notFound => 2
  | .exists => 17
  | notFolder => 20
  | isFolder => 21
  | nameTooLong => 36
  | other _ code => code

/-- The reason with a number of the system, if it is one of those that are told apart. -/
def ofCode? (code : Nat) : Option SystemError :=
  [notFound, .exists, notFolder, isFolder, nameTooLong].find? (·.code = code)

/-- What to tell the user. -/
def message (e : SystemError) : String := s!"{e.text} (os error {e.code})"

end SystemError

/-- What a program asks of the system. -/
class Host (m : Type → Type) where
  /-- Reads a file. -/
  read : String → m (Except SystemError ByteArray)
  /-- Makes a folder in one that exists. One that is there already is as good. -/
  makeFolder : String → m (Except SystemError Unit)
  /-- Saves a picture as a file. -/
  save : String → Picture → m (Except SystemError Unit)
  /-- Writes to where results go. -/
  print : String → m Unit
  /-- Writes to where messages go. -/
  notify : String → m Unit

/-! ## Folders on the way -/

namespace Path

/-- Whether a name on a path stays where it is. -/
def stays (name : String) : Bool := name = "" || name = "."

/-- The ways to a folder and to those above it, each as its names with the last in front. Of
two ways that differ only in names that stay, the shorter one is taken. -/
def ways : List String → List (List String)
  | [] => []
  | name :: above => if stays name then ways above else (name :: above) :: ways above

/-- The ways along a path as it is written and to the folders above it, the nearest first. -/
def folders (path : String) : List (List String) :=
  let names := (path.splitOn "/").reverse
  names :: (ways names).drop 1

/-- The path of a way. -/
def ofWay (way : List String) : String := "/".intercalate way.reverse

/-- Whether a path says nothing, or nothing but where all paths begin. Nothing has to be made for
it. -/
def isBare (path : String) : Bool :=
  path.isEmpty || (path.startsWith "/" && (path.splitOn "/").all stays)

end Path

namespace Host

variable {m : Type → Type} [Monad m] [Host m]

/-- Makes a folder given with those above it, each by the way to it. The ones above are made where
they are missing, and stay even if the folder is refused in the end. -/
def makeBelow : List (List String) → m (Except SystemError Unit)
  | [] => return .ok ()
  | way :: above => do
    let path := Path.ofWay way
    match ← makeFolder path with
    | .error .notFound =>
      match ← makeBelow above with
      | .ok () => makeFolder path
      | refused => return refused
    | answer => return answer

/-- Makes a folder with those that are missing on the way to it. -/
def makeFolders (path : String) : m (Except SystemError Unit) :=
  if Path.isBare path then pure (.ok ()) else makeBelow (Path.folders path)

end Host

end C64
