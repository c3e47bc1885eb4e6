import C64.Proofs.Board.Fixtures

/-!
# Keys and joysticks on the ports of the first adapter

The eight lines of port A select the rows of the keyboard and lead to the joystick at port 2, those
of port B are its columns and lead to the joystick at port 1. The processor reads port A as the
lines are (`bitAt_read_portA`). Of port B it reads the lines that are inputs as they are, but every
output as it is driven, whatever pulls the line low (`bitAt_read_portB`).
-/

namespace C64

/-! ## Bits -/

section Bits

variable (a b : UInt8) {i : Nat}

theorem bitAt_and : bitAt (a &&& b) i = (bitAt a i && bitAt b i) := by
  simp [bitAt, Nat.testBit_and]

theorem bitAt_or : bitAt (a ||| b) i = (bitAt a i || bitAt b i) := by
  simp [bitAt, Nat.testBit_or]

theorem bitAt_not (inside : i < 8) : bitAt (~~~b) i = !bitAt b i := by
  have flips := BitVec.getLsbD_not (x := b.toBitVec) (i := i)
  rw [decide_eq_true inside, Bool.true_and] at flips
  exact flips

end Bits

/-- Whether a joystick closes the switch on a line of its port. -/
def Joystick.closes (j : Joystick) (line : Nat) : Bool :=
  match line with
  | 0 => j.up
  | 1 => j.down
  | 2 => j.left
  | 3 => j.right
  | 4 => j.fire
  | _ => false

theorem Joystick.bitAt_lines (j : Joystick) {line : Nat} (inside : line < 8) :
    bitAt j.lines line = !j.closes line := by
  have every : ∀ up down left right fire : Bool, ∀ line < 8,
      bitAt (lines ⟨up, down, left, right, fire⟩) line =
        !closes ⟨up, down, left, right, fire⟩ line := by
    decide
  exact every _ _ _ _ _ line inside

namespace Keyboard

theorem anyBit_columnBit (b : UInt8) {column : Nat} (inside : column < 8) :
    anyBit b (columnBit column) = bitAt b column := by
  have every : ∀ b : UInt8, ∀ column < 8, anyBit b (columnBit column) = bitAt b column := by
    refine forall_byte ?_
    decide +kernel
  exact every b column inside

theorem isPressed_eq (k : Keyboard) (row : Fin 8) {column : Nat} (inside : column < 8) :
    k.isPressed row column = bitAt k.rows[row] column := by
  rw [← anyBit_columnBit _ inside]
  exact dif_pos ⟨row.isLt, inside⟩

/-- A column is low where a key in it is held whose row is low. -/
theorem bitAt_columns (k : Keyboard) (rowLevels : UInt8) {column : Nat} (inside : column < 8) :
    bitAt (k.columns rowLevels) column = false ↔
      ∃ row < 8, k.isPressed row column = true ∧ bitAt rowLevels row = false := by
  -- The fold joins the keys of the rows that are low, whichever rows it goes through.
  have joins : ∀ (rows : List (Fin 8)) (held : UInt8),
      bitAt (rows.foldl (fun held (row : Fin 8) =>
          if bitAt rowLevels row.val then held else held ||| k.rows[row]) held) column =
        (bitAt held column ||
          rows.any fun row => k.isPressed row column && !bitAt rowLevels row) := by
    intro rows
    induction rows with
    | nil => intro held; simp
    | cons row rows ih =>
      intro held
      rw [List.foldl_cons, ih, List.any_cons, k.isPressed_eq row inside]
      cases bitAt rowLevels row with
      | true => simp
      | false => simp [bitAt_or, Bool.or_assoc]
  unfold columns
  rw [bitAt_not _ inside, joins]
  have none : bitAt 0 column = false := by simp [bitAt]
  simp only [none, Bool.false_or, Bool.not_eq_false', List.any_eq_true, Bool.and_eq_true,
    Bool.not_eq_true']
  constructor
  · rintro ⟨row, -, pressed, low⟩
    exact ⟨row, row.isLt, pressed, low⟩
  · rintro ⟨row, small, pressed, low⟩
    exact ⟨⟨row, small⟩, List.mem_finRange _, pressed, low⟩

end Keyboard

namespace Board

variable {b : Board} {i : Nat}

/-- The level of a row of the keyboard is low: the adapter drives it, or the joystick at port 2
pulls it down. -/
def Devices.rowLow (d : Devices) (row : Nat) : Prop :=
  (bitAt d.cia1.directionA row = true ∧ bitAt d.cia1.portA row = false) ∨
    d.joystick2.closes row = true

/-- The levels of the rows, as a read finds them. -/
def Devices.rowLevels (d : Devices) : UInt8 := d.scanInput.cia1.pinsA &&& d.joystick2.lines

theorem bitAt_rowLevels (d : Devices) (inside : i < 8) :
    bitAt d.rowLevels i = false ↔ d.rowLow i := by
  have level : bitAt d.rowLevels i =
      ((bitAt d.cia1.portA i && bitAt d.cia1.directionA i ||
        bitAt d.joystick2.lines i && bitAt (~~~d.cia1.directionA) i) &&
          bitAt d.joystick2.lines i) := by
    rw [← bitAt_and, ← bitAt_and, ← bitAt_or, ← bitAt_and]
    rfl
  rw [level, bitAt_not _ inside, Joystick.bitAt_lines _ inside, Devices.rowLow]
  cases bitAt d.cia1.directionA i <;> cases bitAt d.cia1.portA i <;>
    cases d.joystick2.closes i <;> decide

/-- Port A shows the levels of the rows. -/
theorem bitAt_read_portA (visible : b.devices.memory.port.chipsVisible = true) (inside : i < 8) :
    bitAt (b.read 0xDC00).1 i = false ↔ b.devices.rowLow i := by
  have chip : b.reachesChip 0xDC00 = true := visible
  have shown : (b.read 0xDC00).1 = b.devices.rowLevels := by
    unfold read
    rw [if_pos chip]
    rfl
  rw [shown, bitAt_rowLevels _ inside]

/-- Port B shows an output as it is driven. An input is low where the joystick at port 1 pulls it
down, or a key that is held joins it to a row that is low. -/
theorem bitAt_read_portB (visible : b.devices.memory.port.chipsVisible = true) (inside : i < 8) :
    bitAt (b.read 0xDC01).1 i = false ↔
      if bitAt b.devices.cia1.directionB i then bitAt b.devices.cia1.portB i = false
      else b.devices.joystick1.closes i = true ∨
        ∃ row < 8, b.devices.keyboard.isPressed row i = true ∧ b.devices.rowLow row := by
  have chip : b.reachesChip 0xDC01 = true := visible
  have shown : (b.read 0xDC01).1 = b.devices.scanInput.cia1.pinsB := by
    unfold read
    rw [if_pos chip]
    rfl
  have level : bitAt b.devices.scanInput.cia1.pinsB i =
      (bitAt b.devices.cia1.portB i && bitAt b.devices.cia1.directionB i ||
        (bitAt (b.devices.keyboard.columns b.devices.rowLevels) i &&
          bitAt b.devices.joystick1.lines i) && bitAt (~~~b.devices.cia1.directionB) i) := by
    rw [← bitAt_and, ← bitAt_and, ← bitAt_and, ← bitAt_or]
    rfl
  have joined : bitAt (b.devices.keyboard.columns b.devices.rowLevels) i = false ↔
      ∃ row < 8, b.devices.keyboard.isPressed row i = true ∧ b.devices.rowLow row := by
    rw [Keyboard.bitAt_columns _ _ inside]
    exact exists_congr fun row => and_congr_right fun small =>
      and_congr_right fun _ => bitAt_rowLevels _ small
  rw [shown, level, bitAt_not _ inside, Joystick.bitAt_lines _ inside, ← joined]
  cases bitAt b.devices.cia1.directionB i with
  | true => simp
  | false =>
    cases bitAt (b.devices.keyboard.columns b.devices.rowLevels) i <;>
      cases b.devices.joystick1.closes i <;> simp

end Board

end C64
