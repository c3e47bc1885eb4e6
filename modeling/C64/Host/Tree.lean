import C64.Host

/-!
# A tree of folders

Files and folders in memory, and the paths that lead to them. A path is followed name by name
from where it starts: every name on the way must be that of a folder that exists, also where a
later name leads back out of it.
-/

namespace C64

/-- Something in a folder, or a folder. -/
inductive Node where
  | file (bytes : ByteArray)
  | picture (p : Picture)
  /-- A file that stays empty, whatever is written to it. -/
  | sink
  | folder (entries : List (String × Node))

/-- A place in a tree: the names on the way to it from the root. -/
abbrev Place := List String

namespace Node

/-- The entries of a folder with one of them set. -/
def setEntry (name : String) (node : Node) (entries : List (String × Node)) :
    List (String × Node) :=
  (name, node) :: entries.filter (·.1 ≠ name)

/-- What stands at a place. -/
def find? : Place → Node → Option Node
  | [], node => some node
  | name :: place, folder entries => (entries.lookup name).bind (find? place)
  | _ :: _, _ => none

/-- The tree with something put at a place. Folders on the way that are missing are made. -/
def put (new : Node) : Place → Node → Node
  | [], _ => new
  | name :: place, folder entries =>
    folder (setEntry name (put new place ((entries.lookup name).getD (folder []))) entries)
  | _ :: _, node => node

/-- The tree without what stands at a place. -/
def erase : Place → Node → Node
  | [name], folder entries => folder (entries.filter (·.1 ≠ name))
  | name :: place, folder entries =>
    match entries.lookup name with
    | some node => folder (setEntry name (erase place node) entries)
    | none => folder entries
  | _, node => node

/-! ## Following paths -/

/-- The longest name an entry can have, in bytes. -/
def longestName : Nat := 255

/-- The longest path, in bytes. -/
def longestPath : Nat := 4095

/-- The entries of a folder. -/
def entries : Node → Except SystemError (List (String × Node))
  | folder entries => .ok entries
  | _ => .error .notFolder

/-- What a folder has under a name. -/
def entry? (entries : List (String × Node)) (name : String) :
    Except SystemError (Option Node) :=
  if name.utf8ByteSize ≤ longestName then .ok (entries.lookup name) else .error .nameTooLong

/-- A way gone from the root of a tree: what stands there, and the names passed with what stands
under each, the latest in front. -/
structure Trail where
  root : Node
  steps : List (String × Node) := []

namespace Trail

/-- Where the trail has come to. -/
def place (t : Trail) : Place := (t.steps.map (·.1)).reverse

/-- What stands where the trail has come to. -/
def node (t : Trail) : Node :=
  match t.steps with
  | (_, node) :: _ => node
  | [] => t.root

/-- Enters what a folder has under a name. -/
def enter (t : Trail) (name : String) : Except SystemError Trail := do
  match ← entry? (← t.node.entries) name with
  | some node => return { t with steps := (name, node) :: t.steps }
  | none => throw .notFound

/-- Goes along one name. What the name is followed from must be a folder. Above the root there
is the root. -/
def follow (t : Trail) (name : String) : Except SystemError Trail := do
  let _ ← t.node.entries
  if Path.stays name then return t
  else if name = ".." then return { t with steps := t.steps.tail }
  else t.enter name

end Trail

/-- What a path says: where it starts, and the names along it. -/
structure Route where
  start : Place
  names : List String

/-- The route of a path. One that does not begin at the root starts at `home`. -/
def Route.ofPath (home : Place) (path : String) : Except SystemError Route :=
  if path.isEmpty then .error .notFound
  else if longestPath < path.utf8ByteSize then .error .nameTooLong
  else .ok ⟨if path.startsWith "/" then [] else home, path.splitOn "/"⟩

/-- The trail of a route. -/
def walk (root : Node) (r : Route) : Except SystemError Trail := do
  r.names.foldlM Trail.follow (← r.start.foldlM Trail.enter ⟨root, []⟩)

/-- Whether a route leads to a folder. -/
def isFolder (root : Node) (r : Route) : Bool :=
  (root.walk r >>= fun t => t.node.entries).isOk

/-- What a route leads to. -/
def get (root : Node) (r : Route) : Except SystemError Node := do
  return (← root.walk r).node

/-- What the last name of a route says about something new. -/
inductive Target where
  /-- The name is that of a folder by its form, and the folder exists. -/
  | standing
  /-- The name in a folder that exists, with the entries of the folder; whether a slash behind
  the name asks for a folder. -/
  | entry (place : Place) (entries : List (String × Node)) (name : String) (slash : Bool)

/-- Where a route would put something new. All but its last name is followed. -/
def target (root : Node) (r : Route) : Except SystemError Target := do
  let reversed := r.names.reverse.dropWhile (· = "")
  match reversed with
  | [] => return .standing
  | name :: before =>
    let trail ← root.walk { r with names := before.reverse }
    let entries ← trail.node.entries
    if name = "." ∨ name = ".." then return .standing
    else return .entry trail.place entries name (reversed.length ≠ r.names.length)

/-! ## Changes -/

/-- Writes a file, in place of any other. -/
def write (root : Node) (r : Route) (new : Node) : Except SystemError Node := do
  match ← root.target r with
  | .standing | .entry _ _ _ true => throw .isFolder
  | .entry place entries name false =>
    match ← entry? entries name with
    | some (.folder _) => throw .isFolder
    | some .sink => return root
    | _ => return put new (place ++ [name]) root

/-- Makes one folder. -/
def makeFolder (root : Node) (r : Route) : Except SystemError Node := do
  match ← root.target r with
  | .standing => throw .exists
  | .entry place entries name _ =>
    match ← entry? entries name with
    | some _ => throw .exists
    | none => return put (.folder []) (place ++ [name]) root

/-- Makes one folder, unless there is one already. -/
def ensureFolder (root : Node) (r : Route) : Except SystemError Node :=
  match root.makeFolder r with
  | .error e => if root.isFolder r then .ok root else .error e
  | made => made

end Node

end C64
