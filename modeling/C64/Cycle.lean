import C64.Fault

/-!
# Cycle counts

Cycle numbers are natural numbers that fit in thirty-two bits. Sums and products of them are
checked: one that does not fit is a fault, never a wrapped number.
-/

namespace C64.Cycle

/-- The last cycle number an alarm can be set for. -/
def last : Nat := 0xFFFFFFFF

/-- The highest value of the cycle counter between advances. Alarms may lie above it. -/
def clockMax : Nat := 0xFF000000

/-- The sum of two cycle counts, if it is a cycle number. -/
def add (a b : Nat) : Except Fault Nat :=
  if a + b ≤ last then .ok (a + b) else .error .overflow

/-- The product of two cycle counts, if it is a cycle number. -/
def mul (a b : Nat) : Except Fault Nat :=
  if a * b ≤ last then .ok (a * b) else .error .overflow

end C64.Cycle
