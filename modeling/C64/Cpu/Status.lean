import C64.Byte

/-!
# The processor status

Eight flags in one byte. Two of them are not flags of the processor: *break* exists only in a
byte that was pushed, and *unused* reads as set.
-/

namespace C64.Cpu

/-- A bit of the status byte. -/
inductive Flag where
  | carry | zero | interrupt | decimal | brk | unused | overflow | negative
deriving DecidableEq, Inhabited

namespace Flag

/-- The bit of the flag in the status byte. -/
def mask : Flag → UInt8
  | carry => 0x01
  | zero => 0x02
  | interrupt => 0x04
  | decimal => 0x08
  | brk => 0x10
  | unused => 0x20
  | overflow => 0x40
  | negative => 0x80

end Flag

/-- The status register. -/
structure Status where
  bits : UInt8
deriving DecidableEq, Inhabited

namespace Status

/-- The status held by a byte from the stack: break is dropped, unused is set. -/
def ofByte (b : UInt8) : Status := ⟨(b ||| Flag.unused.mask) &&& ~~~Flag.brk.mask⟩

/-- The byte a program pushes: break and unused are set. -/
def toPushed (p : Status) : UInt8 := p.bits ||| Flag.unused.mask ||| Flag.brk.mask

/-- The byte an interrupt pushes: break is clear, unused is set. -/
def toInterrupted (p : Status) : UInt8 := (p.bits ||| Flag.unused.mask) &&& ~~~Flag.brk.mask

/-- Whether a flag is set. -/
def has (p : Status) (f : Flag) : Bool := anyBit p.bits f.mask

/-- The status with a flag set or cleared. -/
def put (p : Status) (f : Flag) (on : Bool) : Status := ⟨withBits p.bits f.mask on⟩

/-- Sets the negative and the zero flag from a result. -/
def result (p : Status) (b : UInt8) : Status :=
  (p.put .negative (anyBit b 0x80)).put .zero (b == 0)

/-- The carry as a number to add. -/
def carryByte (p : Status) : UInt8 := bitByte (p.has .carry)

/-- The only flags after a reset: unused and interrupt disable. -/
def reset : Status := ⟨Flag.unused.mask ||| Flag.interrupt.mask⟩

@[simp] theorem has_put_self (p : Status) (f : Flag) (on : Bool) : (p.put f on).has f = on :=
  anyBit_withBits_self _ _ (by cases f <;> decide)

theorem has_put_ne (p : Status) {f g : Flag} (on : Bool) (h : f ≠ g) :
    (p.put f on).has g = p.has g :=
  anyBit_withBits_of_disjoint _ _ (by revert h; cases f <;> cases g <;> decide)

theorem has_put (p : Status) (f g : Flag) (on : Bool) :
    (p.put f on).has g = if f = g then on else p.has g := by
  split
  · next same => exact same ▸ has_put_self p f on
  · next differs => exact has_put_ne p on differs

theorem put_put_self (p : Status) (f : Flag) (on on' : Bool) :
    (p.put f on).put f on' = p.put f on' :=
  congrArg mk (withBits_withBits_self _ _ _ _)

theorem put_comm (p : Status) {f g : Flag} (on on' : Bool) (h : f ≠ g) :
    (p.put f on).put g on' = (p.put g on').put f on :=
  congrArg mk (withBits_comm _ _ _ (by revert h; cases f <;> cases g <;> decide))

theorem has_result (p : Status) (b : UInt8) {f : Flag} (negative : f ≠ .negative)
    (zero : f ≠ .zero) : (p.result b).has f = p.has f := by
  rw [result, has_put_ne _ _ zero.symm, has_put_ne _ _ negative.symm]

theorem result_put (p : Status) (b : UInt8) {f : Flag} (on : Bool) (negative : f ≠ .negative)
    (zero : f ≠ .zero) : (p.result b).put f on = (p.put f on).result b := by
  rw [result, result, put_comm _ _ _ zero.symm, put_comm p _ _ negative.symm]

theorem result_result (p : Status) (b b' : UInt8) : (p.result b).result b' = p.result b' := by
  have apart : Flag.zero ≠ .negative := by decide
  rw [result, result, put_comm _ _ _ apart, put_put_self, put_put_self]
  rfl

/-- A status that was pulled before comes back from a push and a pull as it was. -/
theorem ofByte_toPushed (b : UInt8) : ofByte (ofByte b).toPushed = ofByte b := by
  simp only [ofByte, toPushed]
  rw [mk.injEq, ← UInt8.toBitVec_inj]
  ext i
  simp
  grind

end Status

end C64.Cpu
