import C64.Byte

/-!
# Input of the user

Keys and joystick switches change while the machine runs. The changes wait in a queue until the
machine takes them between two instructions, in the order they came.
-/

namespace C64

/-- The switches of a joystick that are closed. -/
structure Joystick where
  up : Bool := false
  down : Bool := false
  left : Bool := false
  right : Bool := false
  fire : Bool := false
deriving DecidableEq

namespace Joystick

/-- The levels of the lines of its port. A closed switch pulls its line low. -/
def lines (j : Joystick) : UInt8 :=
  ~~~(bitByte j.up ||| bitByte j.down <<< 1 ||| bitByte j.left <<< 2 ||| bitByte j.right <<< 3 |||
    bitByte j.fire <<< 4)

/-- The joystick whose closed switches are the low bits of a byte. -/
def ofBits (b : UInt8) : Joystick := ⟨bitAt b 0, bitAt b 1, bitAt b 2, bitAt b 3, bitAt b 4⟩

end Joystick

/-- A change of the input. -/
inductive InputEvent where
  /-- A key is pressed or released. -/
  | key (row column : Nat) (pressed : Bool)
  /-- The switches of the joystick at a port, of which there are two. -/
  | joystick (port : Nat) (state : Joystick)
deriving DecidableEq

/-- Changes that wait, the first to come in front. -/
structure InputQueue where
  events : List InputEvent := []
deriving DecidableEq

namespace InputQueue

/-- Puts a change at the end. -/
def push (q : InputQueue) (e : InputEvent) : InputQueue := ⟨q.events ++ [e]⟩

/-- Takes the change that came first. -/
def pop (q : InputQueue) : Option InputEvent × InputQueue := (q.events.head?, ⟨q.events.tail⟩)

/-- Whether no change waits. -/
def isEmpty (q : InputQueue) : Bool := q.events.isEmpty

@[simp] theorem events_push (q : InputQueue) (e : InputEvent) :
    (q.push e).events = q.events ++ [e] :=
  rfl

end InputQueue

end C64
