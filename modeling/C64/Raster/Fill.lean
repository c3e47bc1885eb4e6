import C64.Bytes
import C64.Raster.Span

/-!
# Filling a line

A fill brings a range of columns to new values and answers what changed. Checked, it compares
every column and reports the span from the first difference to the last. Unchecked, it reports
the whole range: for a line whose old contents no longer count.
-/

namespace C64.Raster

variable {n : Nat}

/-- A run of bytes to fill columns from. -/
structure Run where
  length : Nat
  byte : Nat → UInt8

namespace Run

/-- The bytes of a memory from index `start` on. -/
def ofBytes (m : Bytes n) (start : Nat) : Run := ⟨n - start, fun i => m.byteAt (start + i)⟩

/-- The bytes of a list. -/
def ofList (bytes : List UInt8) : Run :=
  let array := bytes.toArray
  ⟨array.size, fun i => array[i]?.getD 0⟩

end Run

/-- Which byte of a source a column takes: column `i` of a range takes the byte at
`base + i * stride`, cut to the bits of `mask`. -/
structure Indexing where
  base : Nat
  stride : Nat
  mask : Nat
deriving DecidableEq

namespace Indexing

/-- Bytes one after another from `base`, going round at the mask. -/
def linear (base mask : Nat) : Indexing := ⟨base, 1, mask⟩

/-- The index of the byte for column `i` of a range. -/
def index (x : Indexing) (i : Nat) : Nat := (x.base + i * x.stride) &&& x.mask

end Indexing

/-- Brings one column to a value; a difference is covered by the damage. -/
@[inline] def putColumn (x : Nat) (v : UInt8) (state : Bytes n × Damage) : Bytes n × Damage :=
  let (line, damage) := state
  if h : x < n then
    if line.get ⟨x, h⟩ = v then (line, damage)
    else (line.set ⟨x, h⟩ v, damage.coverColumn x)
  else (line, damage)

/-- Column `start + i` takes `value i`, for every column before `stop`. -/
@[inline] def fillColumns (line : Bytes n) (start stop : Nat) (value : Nat → UInt8) :
    Bytes n × Damage :=
  Nat.fold (stop - start) (fun i _ state => putColumn (start + i) (value i) state) (line, none)

/-- The fill that all others come down to. An empty range is left alone before it is looked at;
any other must lie in the line. -/
@[inline] def fillWith (line : Bytes n) (start stop : Nat) (unchecked : Bool)
    (value : Nat → UInt8) : Except Fault (Bytes n × Damage) :=
  if stop ≤ start then .ok (line, none)
  else if n < stop then .error .outOfBounds
  else
    let (line, damage) := fillColumns line start stop value
    .ok (line, if unchecked then .whole start stop else damage)

/-- Every column of the range takes the same value. -/
def fillConst (line : Bytes n) (start stop : Nat) (unchecked : Bool) (v : UInt8) :
    Except Fault (Bytes n × Damage) :=
  fillWith line start stop unchecked fun _ => v

/-- Column `start + i` takes byte `i` of a run, which must be long enough. -/
def fillFrom (line : Bytes n) (start stop : Nat) (unchecked : Bool) (run : Run) :
    Except Fault (Bytes n × Damage) :=
  if run.length < stop - start then .error .shortRun
  else fillWith line start stop unchecked run.byte

/-- Column `start + i` takes the byte of `source` that the indexing names. The mask must stay
inside the source. -/
def fillIndexed (line : Bytes n) (start stop : Nat) (unchecked : Bool) {m : Nat}
    (source : Bytes m) (x : Indexing) : Except Fault (Bytes n × Damage) :=
  if m ≤ x.mask then .error (.maskTooWide x.mask m)
  else if start < stop ∧ stop ≤ n ∧ wordLimit ≤ x.base + (stop - start - 1) * x.stride then
    .error .overflow
  else fillWith line start stop unchecked fun i => source.byteAt (x.index i)

end C64.Raster
