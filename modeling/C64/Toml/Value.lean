/-!
# TOML values

What a TOML document holds, and how its tables grow. A table takes new entries until it is
closed: `putEntry` adds an entry under a dotted key, `openTable` and `addTable` follow headers.
Each answers nothing where the document would define something twice.
-/

namespace C64.Toml

/-- How a table came about, which decides what can be added to it later. -/
inductive TableKind where
  /-- Written in braces. It is complete. -/
  | inline
  /-- Opened by its own header. -/
  | headed
  /-- Passed on the way of a header to another table. Its own header may still come. -/
  | implied
  /-- Passed on the way of a dotted key. -/
  | dotted
deriving DecidableEq

/-- A value. Of floats and dates only the fact is kept. -/
inductive Value where
  | string (text : String)
  | integer (n : Int)
  | float
  | boolean (b : Bool)
  | date
  | array (items : List Value)
  | table (kind : TableKind) (entries : List (String × Value))
  /-- Tables under one header: the one that is open, and those before it, the latest first. -/
  | tables (last : List (String × Value)) (earlier : List (List (String × Value)))
deriving Inhabited

/-- The entries of a table, by their keys. -/
abbrev Entries := List (String × Value)

namespace Entries

/-- The value under a key. -/
def get? (es : Entries) (key : String) : Option Value := es.lookup key

/-- Changes what is under a key, or refuses to. -/
def alter (key : String) (change : Option Value → Option Value) (es : Entries) : Option Entries :=
  match es.get? key with
  | none => (change none).map fun v => es ++ [(key, v)]
  | some v => (change (some v)).map fun v =>
    es.map fun e => if e.1 = key then (key, v) else e

/-- Changes the table that the path of a header leads to. Tables on the way come into being. -/
def within (change : Entries → Option Entries) : List String → Entries → Option Entries
  | [], es => change es
  | key :: path, es =>
    es.alter key fun
      | none => (within change path []).map (.table .implied)
      | some (.table .inline _) => none
      | some (.table kind inner) => (within change path inner).map (.table kind)
      | some (.tables last earlier) => (within change path last).map (.tables · earlier)
      | some _ => none

/-- Opens the table of a header whose last key is `key`. -/
def openTable (key : String) (es : Entries) : Option Entries :=
  es.alter key fun
    | none => some (.table .headed [])
    | some (.table .implied inner) => some (.table .headed inner)
    | some _ => none

/-- Opens one more table under a header whose last key is `key`. -/
def addTable (key : String) (es : Entries) : Option Entries :=
  es.alter key fun
    | none => some (.tables [] [])
    | some (.tables last earlier) => some (.tables [] (last :: earlier))
    | some _ => none

/-- Adds a value under a dotted key, the path of tables before its last part `key`. The table at
the end of the path must have come about through dotted keys; `isOpen` says so. -/
def putEntry (key : String) (v : Value) : List String → Bool → Entries → Option Entries
  | [], isOpen, es =>
    if isOpen then
      es.alter key fun
        | none => some v
        | some _ => none
    else none
  | first :: path, _, es =>
    es.alter first fun
      | none => (putEntry key v path true []).map (.table .dotted)
      | some (.table .dotted inner) => (putEntry key v path true inner).map (.table .dotted)
      | some (.table .implied inner) => (putEntry key v path false inner).map (.table .implied)
      | some (.tables last earlier) => (putEntry key v path false last).map (.tables · earlier)
      | some _ => none

end Entries

end C64.Toml
