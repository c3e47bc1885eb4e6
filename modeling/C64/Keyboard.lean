import C64.Byte

/-!
# The keyboard

A matrix of eight rows and eight columns. The machine pulls rows low and reads which columns
follow.
-/

namespace C64

/-- The keys that are held: a bit for each column in a byte for each row. -/
structure Keyboard where
  rows : Vector UInt8 8
deriving DecidableEq

namespace Keyboard

/-- No key is held. -/
def released : Keyboard := ⟨.replicate 8 0⟩

/-- The bit of a column. -/
def columnBit (column : Nat) : UInt8 := 1 <<< column.toUInt8

/-- Presses or releases a key. Places outside the matrix have no key. -/
def set (k : Keyboard) (row column : Nat) (pressed : Bool) : Keyboard :=
  if h : row < 8 ∧ column < 8 then
    ⟨k.rows.set row (withBits k.rows[row] (columnBit column) pressed) h.1⟩
  else k

/-- Whether a key is held. -/
def isPressed (k : Keyboard) (row column : Nat) : Bool :=
  if h : row < 8 ∧ column < 8 then anyBit k.rows[row] (columnBit column) else false

/-- The levels of the columns, for levels of the rows: a column is low when a key in it is held
whose row is low. -/
def columns (k : Keyboard) (rowLevels : UInt8) : UInt8 :=
  ~~~((List.finRange 8).foldl (fun held (row : Fin 8) =>
    if bitAt rowLevels row.val then held else held ||| k.rows[row]) 0)

theorem isPressed_set (k : Keyboard) {row column : Nat} (pressed : Bool) (hr : row < 8)
    (hc : column < 8) (r c : Nat) :
    (k.set row column pressed).isPressed r c =
      if r = row ∧ c = column then pressed else k.isPressed r c := by
  have nonzero : ∀ i < 8, columnBit i ≠ 0 := by decide
  have apart : ∀ i < 8, ∀ j < 8, j ≠ i → columnBit i &&& columnBit j = 0 := by decide
  simp only [set, isPressed, hr, hc, and_self, dite_true]
  by_cases inside : r < 8 ∧ c < 8
  · simp only [inside, and_self, dite_true, Vector.getElem_set]
    by_cases hrow : row = r
    · subst hrow
      by_cases hcol : c = column
      · simp [hcol, anyBit_withBits_self _ _ (nonzero column hc)]
      · simp [hcol, anyBit_withBits_of_disjoint _ _ (apart column hc c inside.2 hcol)]
    · simp [hrow, Ne.symm hrow]
  · have : ¬(r = row ∧ c = column) := fun h => inside (h.1 ▸ h.2 ▸ ⟨hr, hc⟩)
    simp [inside, this]

theorem columns_released (levels : UInt8) : released.columns levels = 0xFF := by
  simp [columns, released]
  decide

end Keyboard

end C64
