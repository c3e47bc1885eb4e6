import C64.Host.Tree

/-!
# A host in memory

A system with one folder of its own for a program to run in, and the texts that were written.
Programs run here without touching a real one.
-/

namespace C64

/-- The place of the folder that a program runs in. Its own name holds a slash, so no path has
it among its names: the folder is left upwards and never entered from above. -/
def Desk.home : Place := ["tmp", "/"]

/-- A system whose folder is empty. Around it stands what every system has. -/
def Desk.bare : Node :=
  Node.put .sink ["dev", "null"] (Node.put (.folder []) home (.folder []))

/-- A system in memory and what was written on it. -/
structure Desk where
  root : Node := Desk.bare
  printed : String := ""
  notes : String := ""

namespace Desk

/-- The folder that programs run in. -/
def folder (desk : Desk) : Node := (desk.root.find? home).getD (.folder [])

/-- Changes the tree along a path, unless that is refused. -/
def change (path : String) (f : Node → Node.Route → Except SystemError Node) :
    StateM Desk (Except SystemError Unit) := fun desk =>
  match Node.Route.ofPath home path >>= f desk.root with
  | .ok root => (.ok (), { desk with root })
  | .error e => (.error e, desk)

/-- The bytes that a path leads to. -/
def bytes (desk : Desk) (path : String) : Except SystemError ByteArray := do
  match ← desk.root.get (← Node.Route.ofPath home path) with
  | .file bytes => return bytes
  | .picture p => return p.rgba
  | .sink => return .empty
  | .folder _ => throw .isFolder

instance : Host (StateM Desk) where
  read path := fun desk => (desk.bytes path, desk)
  makeFolder path := change path Node.ensureFolder
  save path p := change path fun root route => root.write route (.picture p)
  print text := modify fun desk => { desk with printed := desk.printed ++ text }
  notify text := modify fun desk => { desk with notes := desk.notes ++ text }

/-- Puts a file on the desk, in folders that are made if need be. -/
def putFile (path : String) (bytes : ByteArray) : StateM Desk (Except SystemError Unit) := do
  match ← Host.makeBelow (Path.folders path).tail with
  | .ok () => change path fun root route => root.write route (.file bytes)
  | refused => return refused

/-- A desk with some files in its folder, each of them named by its path. -/
def ofFiles (files : List (String × ByteArray)) : Except SystemError Desk :=
  files.foldlM (fun desk (path, bytes) =>
    let (answer, desk) := putFile path bytes desk
    answer.map fun _ => desk) {}

/-- The desk without the file that a path leads to. -/
def remove (desk : Desk) (path : String) : Desk :=
  match Node.Route.ofPath home path >>= desk.root.walk with
  | .ok trail => { desk with root := desk.root.erase trail.place }
  | .error _ => desk

end Desk

end C64
