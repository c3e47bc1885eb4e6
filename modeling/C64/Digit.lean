import C64.Byte

/-!
# Pairs of decimal digits

Clocks keep their numbers as two decimal digits in the two nybbles of a byte.
-/

namespace C64

/-- A number below a hundred as two digits. -/
def toDigits (n : UInt8) : UInt8 := (n / 10) <<< 4 ||| n % 10

/-- The number that two digits stand for. Nybbles above nine count as they are. -/
def ofDigits (b : UInt8) : UInt8 := (b >>> 4) * 10 + (b &&& 0x0F)

/-- The number of one more, with the low digit carried. Zero follows where the number reaches
`limit`. -/
def nextDigits (b limit : UInt8) : UInt8 :=
  let next := b + 1
  let next := if next &&& 0x0F > 9 then (next &&& 0xF0) + 0x10 else next
  if next ≥ limit then 0 else next

theorem toNat_ofDigits (b : UInt8) : (ofDigits b).toNat = b.toNat / 16 * 10 + b.toNat % 16 := by
  revert b
  refine forall_byte ?_
  decide +kernel

theorem ofDigits_toDigits {n : UInt8} (h : n < 100) : ofDigits (toDigits n) = n := by
  have all : ∀ k : Fin 100, ofDigits (toDigits (.ofNat k)) = .ofNat k := by decide
  simpa using all ⟨n.toNat, h⟩

end C64
