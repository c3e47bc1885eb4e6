import C64.Toml.Scalar

/-!
# TOML documents

`Toml.parse` reads a document into the entries of its root table. Where it cannot, it answers
the number of the line.
-/

namespace C64.Toml

/-- How deep values and dotted keys may nest. -/
def maxDepth : Nat := 80

/-! ## Keys -/

/-- A character of a key without quotes. -/
def isBare (c : Char) : Bool := c.isAlphanum || c = '-' || c = '_'

/-- A part of a key with the blanks around it. -/
def keyPart (cs : List Char) : Option (String × List Char) :=
  let cs := skipBlanks cs
  let part :=
    match cs.span isBare with
    | ([], cs) => keyString cs
    | (name, rest) => some (String.ofList name, rest)
  part.map fun (key, rest) => (key, skipBlanks rest)

/-- A key: the parts before the last, and the last. -/
def key (cs : List Char) : Option ((List String × String) × List Char) := do
  let (first, rest) ← keyPart cs
  let (more, rest) := many (fun cs => expect '.' cs >>= keyPart) rest
  let parts := first :: more
  if parts.length < maxDepth then return ((parts.dropLast, parts.getLast (by simp [parts])), rest)
  else none

/-! ## Values -/

/-- The rest of an array behind its bracket and the items of `before`, the latest of which comes
first. Never more items than `bound` is long. -/
def itemsFrom (value : Reader Value) :
    (bound : List Char) → (before : List Value) → (cs : List Char) →
      Option (List Value × List Char)
  | [], _, _ => none
  | _ :: bound, before, cs =>
    match skipLines cs with
    | ']' :: rest => some (before.reverse, rest)
    | start => do
      let (v, rest) ← value start
      match skipLines rest with
      | ']' :: rest => return ((v :: before).reverse, rest)
      | ',' :: rest => itemsFrom value bound (v :: before) rest
      | _ => none

/-- The rest of an array behind its bracket. Each item takes a character at least. -/
def items (value : Reader Value) (cs : List Char) : Option (List Value × List Char) :=
  itemsFrom value cs [] cs

/-- A key and its value, added to a table. -/
def entry (value : Reader Value)
    (add : List String → String → Value → Option Entries) : Reader Entries := fun cs => do
  let ((path, name), rest) ← key cs
  let (v, rest) ← value (skipBlanks (← expect '=' rest))
  return (← add path name v, rest)

/-- The rest of a table in braces, behind its first brace or a comma. Never more pairs than
`bound` is long. -/
def pairsFrom (value : Reader Value) :
    (bound : List Char) → Entries → List Char → Option (Entries × List Char)
  | [], _, _ => none
  | _ :: bound, es, cs => do
    let (es, rest) ← entry value (fun path name v => es.putEntry name v path true) cs
    match skipBlanks rest with
    | '\x7d' :: rest => return (es, rest)
    | ',' :: rest => pairsFrom value bound es rest
    | _ => none

/-- The rest of a table in braces, behind its first brace. Each pair takes a character at
least. -/
def pairs (value : Reader Value) (cs : List Char) : Option (Entries × List Char) :=
  pairsFrom value cs [] cs

/-- A value, at a depth above which `depth` levels are left. -/
def value : Nat → List Char → Option (Value × List Char)
  | 0, _ => none
  | depth + 1, cs =>
    match cs with
    | '[' :: rest =>
      if depth = 0 then none
      else (items (value depth) rest).map fun (vs, rest) => (.array vs, rest)
    | '\x7b' :: rest =>
      if depth = 0 then none
      else
        match skipBlanks rest with
        | '\x7d' :: rest => some (.table .inline [], rest)
        | _ => (pairs (value depth) rest).map fun (es, rest) => (.table .inline es, rest)
    | '"' :: _ | '\'' :: _ => (string cs).map fun (s, rest) => (.string s, rest)
    | 't' :: 'r' :: 'u' :: 'e' :: rest => some (.boolean true, rest)
    | 'f' :: 'a' :: 'l' :: 's' :: 'e' :: rest => some (.boolean false, rest)
    | _ => numberOrDate cs

/-! ## Lines -/

/-- What was read so far: the root table, and the path of the header in force. -/
structure Builder where
  root : Entries := []
  header : List String := []

/-- The rest of a header behind its opening brackets. -/
def header (b : Builder) (isElement : Bool) (cs : List Char) : Option (Builder × List Char) := do
  let ((path, name), rest) ← key cs
  let rest ← expect ']' rest
  let rest ← if isElement then expect ']' rest else some rest
  let root ← b.root.within (if isElement then (·.addTable name) else (·.openTable name)) path
  return (⟨root, path ++ [name]⟩, ← endLine rest)

/-- A line that is not blank. -/
def line (b : Builder) (cs : List Char) : Option (Builder × List Char) :=
  match cs with
  | '[' :: '[' :: rest => header b true rest
  | '[' :: rest => header b false rest
  | _ => do
    let (root, rest) ← entry (value maxDepth)
      (fun path name v => b.root.within (·.putEntry name v path true) b.header) cs
    return (⟨root, b.header⟩, ← endLine rest)

/-- The lines of a document, in order, and never more of them than `bound` is long. Where one
cannot be read, answers the text that is left. -/
def linesFrom (b : Builder) (bound cs : List Char) : Except (List Char) Entries :=
  match skipLines cs with
  | [] => .ok b.root
  | start =>
    match skipComment start with
    | [] => .ok b.root
    | _ =>
      match bound, line b start with
      | _ :: bound, some (b, rest) => linesFrom b bound rest
      | _, _ => .error start

/-- The lines of a document. Each takes a character at least. -/
def lines (cs : List Char) : Except (List Char) Entries := linesFrom {} cs cs

/-- Reads a document, which may begin with a mark of its byte order. -/
def parse (text : String) : Except Nat Entries :=
  let cs := text.toList
  let start := if cs.head? = some '\ufeff' then cs.drop 1 else cs
  (lines start).mapError fun rest =>
    ((cs.take (cs.length - rest.length)).filter (· = '\n')).length + 1

end C64.Toml
