import C64.Text.Hex

/-!
# Faults

A fault ends a run of the machine: a count left its word, an access left its buffer, or a
caller broke a promise. Chips and clock report it as a value of one type, so that a caller
can say which of them happened and `Fault.message` can put it into words.
-/

namespace C64

/-- Why an operation could not go on. -/
inductive Fault where
  /-- A count left the word that holds it. -/
  | overflow
  /-- An index or a range left its buffer. -/
  | outOfBounds
  /-- A clock was to start above the highest counter value allowed between advances. -/
  | clockAboveMax (now : Nat)
  /-- An alarm `delay` cycles after `now` would lie past the last cycle number. -/
  | triggerOverflow (event : String) (now delay : Nat)
  /-- The clock cannot make room for `cycles` more cycles. -/
  | clockStuck (cycles now : Nat)
  /-- More alarms fell due in one advance than the caller allowed to be handled. -/
  | tooManyAlarms
  /-- A span's first column lies behind its last. -/
  | invertedSpan (first last : Nat)
  /-- An index mask reaches past the end of the buffer it is used on. -/
  | maskTooWide (mask length : Nat)
  /-- A run of fresh bytes is shorter than the columns it is to fill. -/
  | shortRun
  /-- An instruction was to use memory in a mode that names no address. -/
  | noAddress (mode : String)
  /-- No frame was completed in the time of two frames. -/
  | noFrame
deriving DecidableEq

namespace Fault

/-- The sentence that describes the fault, where there is more to say than its name. -/
def message? : Fault → Option String
  | overflow | outOfBounds => none
  | clockAboveMax now =>
    some s!"cycle counter {Text.hexMarked 1 now} above CLOCK_MAX"
  | triggerOverflow event now delay =>
    some s!"alarm {event}: trigger overflow ({Text.hexMarked 1 now} + {Text.hexMarked 1 delay})"
  | clockStuck cycles now =>
    some (s!"cannot advance {cycles} cycles: " ++
      s!"counter stuck at {Text.hexMarked 1 now} by a stale alarm")
  | tooManyAlarms => some "too many alarms fell due in one advance"
  | invertedSpan first last => some s!"dirty span {first}..={last} is inverted"
  | maskTooWide mask length =>
    some s!"source mask {Text.hexMarked 1 mask} exceeds a {length}-byte buffer"
  | shortRun => some "fresh run shorter than range"
  | noAddress mode => some s!"{mode} has no effective address"
  | noFrame => some "no frame was completed in the time of two"

end Fault

end C64
