/-!
# Bytes and words

The processor's addresses are words of two bytes. This file cuts words into bytes, joins
bytes to words and looks at single bits.
-/

namespace C64

/-- The word with the given high and low byte. -/
def wordOf (high low : UInt8) : UInt16 := high.toUInt16 <<< 8 ||| low.toUInt16

/-- The low byte of a word. -/
def lowByte (w : UInt16) : UInt8 := w.toUInt8

/-- The high byte of a word. -/
def highByte (w : UInt16) : UInt8 := (w >>> 8).toUInt8

/-- Whether a byte and a mask share a bit. -/
def anyBit (b mask : UInt8) : Bool := b &&& mask != 0

/-- Bit `i` of a byte, counted from the least significant. -/
def bitAt (b : UInt8) (i : Nat) : Bool := b.toNat.testBit i

/-- The bits of `mask` in `b` set or cleared. -/
def withBits (b mask : UInt8) (on : Bool) : UInt8 :=
  if on then b ||| mask else b &&& ~~~mask

/-- A byte that is one or zero. -/
def bitByte (on : Bool) : UInt8 := if on then 1 else 0

/-- What is true of the first 256 numbers as bytes is true of every byte. -/
theorem forall_byte {P : UInt8 → Prop} (h : ∀ n < 256, P (.ofNat n)) (b : UInt8) : P b := by
  have := h b.toNat b.toNat_lt
  rwa [UInt8.ofNat_toNat] at this

/-! ## Words and their bytes -/

theorem toNat_wordOf (high low : UInt8) :
    (wordOf high low).toNat = high.toNat * 0x100 + low.toNat := by
  have hh := high.toNat_lt
  have hl := low.toNat_lt
  have := Nat.shiftLeft_add_eq_or_of_lt (i := 8) hl high.toNat
  have small : high.toNat * 0x100 % 0x10000 = high.toNat * 0x100 := Nat.mod_eq_of_lt (by omega)
  simp [wordOf, Nat.shiftLeft_eq] at this ⊢
  rw [small, this]

theorem toNat_lowByte (w : UInt16) : (lowByte w).toNat = w.toNat % 0x100 := by simp [lowByte]

theorem toNat_highByte (w : UInt16) : (highByte w).toNat = w.toNat / 0x100 := by
  have := w.toNat_lt
  simp [highByte, Nat.shiftRight_eq_div_pow]
  omega

@[simp] theorem lowByte_wordOf (high low : UInt8) : lowByte (wordOf high low) = low := by
  have := low.toNat_lt
  rw [← UInt8.toNat_inj, toNat_lowByte, toNat_wordOf]
  omega

@[simp] theorem highByte_wordOf (high low : UInt8) : highByte (wordOf high low) = high := by
  have := low.toNat_lt
  rw [← UInt8.toNat_inj, toNat_highByte, toNat_wordOf]
  omega

@[simp] theorem wordOf_bytes (w : UInt16) : wordOf (highByte w) (lowByte w) = w := by
  rw [← UInt16.toNat_inj, toNat_wordOf, toNat_highByte, toNat_lowByte]
  omega

/-! ## Bits that were set -/

theorem or_mask_and_mask (b mask : UInt8) : (b ||| mask) &&& mask = mask := by
  rw [← UInt8.toBitVec_inj]
  ext i
  simp +contextual

theorem and_not_mask_and_mask (b mask : UInt8) : b &&& ~~~mask &&& mask = 0 := by
  rw [← UInt8.toBitVec_inj]
  ext i
  simp

theorem anyBit_withBits_self (b : UInt8) {mask : UInt8} (on : Bool) (h : mask ≠ 0) :
    anyBit (withBits b mask on) mask = on := by
  cases on <;> simp [anyBit, withBits, or_mask_and_mask, and_not_mask_and_mask, h]

/-- Bits outside the mask stay as they are. -/
theorem anyBit_withBits_of_disjoint (b : UInt8) {mask other : UInt8} (on : Bool)
    (h : mask &&& other = 0) : anyBit (withBits b mask on) other = anyBit b other := by
  have : withBits b mask on &&& other = b &&& other := by
    rw [← UInt8.toBitVec_inj] at h ⊢
    ext i hi
    have := congrArg (·[i]) h
    cases on <;> simp [withBits] at this ⊢ <;> cases h : other.toBitVec[i] <;> simp_all
  simp only [anyBit, this]

/-- What was set or cleared last counts. -/
theorem withBits_withBits_self (b mask : UInt8) (on on' : Bool) :
    withBits (withBits b mask on) mask on' = withBits b mask on' := by
  rw [← UInt8.toBitVec_inj]
  ext i hi
  cases on <;> cases on' <;> simp [withBits] <;> cases b.toBitVec[i] <;> simp

/-- Apart from each other, bits may be set or cleared in any order. -/
theorem withBits_comm (b : UInt8) {mask other : UInt8} (on on' : Bool) (h : mask &&& other = 0) :
    withBits (withBits b mask on) other on' = withBits (withBits b other on') mask on := by
  rw [← UInt8.toBitVec_inj] at h ⊢
  ext i hi
  have := congrArg (·[i]) h
  cases on <;> cases on' <;> simp [withBits] at this ⊢ <;> grind

end C64
