import C64.Proofs.Cia.Scheduling

/-!
# What the time of day can show

A program may write digits that no clock shows, but only the bits of each part that a write can set
(`TimeOfDay.Dialled`). The clock counts on from there, and neither the addition of a tenth nor the
carry into a high digit leaves its byte (`TimeOfDay.Dialled.inBytes`).
-/

namespace C64

/-- Digits that count on stay below their limit. -/
theorem nextDigits_lt (b : UInt8) {limit : UInt8} (pos : 0 < limit) :
    nextDigits b limit < limit := by
  have below : ∀ next : UInt8, (if next ≥ limit then 0 else next) < limit := by
    intro next
    split
    · exact pos
    · next small => exact UInt8.not_le.mp small
  exact below _

namespace Cia

/-- No part of a time has a bit that a write cannot set. The highest bit of the hours is none of
their digits. -/
structure TimeOfDay.Dialled (t : TimeOfDay) : Prop where
  tenths : t.tenths ≤ 0x0F
  seconds : t.seconds ≤ 0x7F
  minutes : t.minutes ≤ 0x7F

/-- The sums that count a time on stay bytes: a tenth more, and a carry into the high digit of each
of the other parts. -/
structure TimeOfDay.InBytes (t : TimeOfDay) : Prop where
  tenths : t.tenths.toNat + 1 < 0x100
  seconds : (t.seconds + 1 &&& 0xF0).toNat + 0x10 < 0x100
  minutes : (t.minutes + 1 &&& 0xF0).toNat + 0x10 < 0x100
  hours : ((t.hours &&& 0x1F) + 1 &&& 0xF0).toNat + 0x10 < 0x100

namespace TimeOfDay

/-- A low number of two digits has room for a carry. -/
theorem carry_lt {b : UInt8} (h : b ≤ 0x7F) : (b + 1 &&& 0xF0).toNat + 0x10 < 0x100 := by
  have small : b.toNat ≤ 0x7F := UInt8.le_iff_toNat_le.mp h
  have next : (b + 1).toNat ≤ 0x80 := by
    rw [UInt8.toNat_add]
    exact Nat.le_trans (Nat.mod_le ..) (Nat.succ_le_succ small)
  have high : (b + 1 &&& 0xF0).toNat ≤ (b + 1).toNat :=
    UInt8.le_iff_toNat_le.mp UInt8.and_le_left
  omega

theorem Dialled.inBytes {t : TimeOfDay} (h : t.Dialled) : t.InBytes where
  tenths := by
    have : t.tenths.toNat ≤ 0x0F := UInt8.le_iff_toNat_le.mp h.tenths
    omega
  seconds := carry_lt h.seconds
  minutes := carry_lt h.minutes
  hours := carry_lt (UInt8.le_trans UInt8.and_le_right (by decide))

theorem Dialled.set {t : TimeOfDay} (h : t.Dialled) (part : TimePart) (b : UInt8) :
    (t.set part (b &&& part.writable)).Dialled := by
  cases part with
  | tenths => exact { h with tenths := UInt8.and_le_right }
  | seconds => exact { h with seconds := UInt8.and_le_right }
  | minutes => exact { h with minutes := UInt8.and_le_right }
  | hours => exact ⟨h.tenths, h.seconds, h.minutes⟩

theorem Dialled.next {t : TimeOfDay} (h : t.Dialled) : t.next.Dialled := by
  have tenths : (t.tenths + 1) % 10 ≤ 0x0F :=
    UInt8.le_trans (UInt8.le_of_lt (UInt8.mod_lt _ (by decide))) (by decide)
  have digits : ∀ b, nextDigits b 0x60 ≤ 0x7F := fun b =>
    UInt8.le_trans (UInt8.le_of_lt (nextDigits_lt b (by decide))) (by decide)
  unfold TimeOfDay.next
  simp only []
  split
  · exact { h with tenths }
  · split
    · exact ⟨tenths, digits _, h.minutes⟩
    · split <;> exact ⟨tenths, digits _, digits _⟩

end TimeOfDay

/-! ## The chip -/

theorem dialled_expire {c : Cia} (h : c.tod.Dialled) (e : Event) : (c.expire e).tod.Dialled := by
  cases e with
  | timer which =>
    cases which with
    | a =>
      simp only [expire]
      split
      · unfold countUnderflow; split <;> exact h
      · exact h
    | b => exact h
  | tod =>
    simp only [expire]
    split
    · exact h
    · unfold advanceTod
      simp only []
      split <;> exact h.next

theorem dialled_writeTod {c : Cia} (h : c.tod.Dialled) (part : TimePart) (b : UInt8) :
    (c.writeTod part b).tod.Dialled := by
  unfold writeTod
  simp only []
  split
  · exact h
  · exact h.set part b

section Operations

variable {ε : Type} [DecidableEq ε] (event : Event → ε)

theorem read_tod (c : Cia) (clock : Clock ε) (register : UInt8) :
    (c.read event clock register).2.tod = c.tod := by
  unfold read
  simp only []
  split <;> rfl

variable [ToString ε] {c c' : Cia} {clock clock' : Clock ε} {b : UInt8}

theorem writeControl_tod {which : TimerId}
    (h : c.writeControl event clock which b = .ok (c', clock')) : c'.tod = c.tod := by
  rw [writeControl_parts] at h
  obtain ⟨clock₁, -, h⟩ := bind_eq_ok.mp h
  obtain ⟨clock₂, -, hret⟩ := bind_eq_ok.mp h
  cases hret
  cases which <;> rfl

/-- A write keeps to the bits of the time that a write can set. -/
theorem dialled_write (h : c.tod.Dialled) {register : UInt8}
    (hrun : c.write event clock register b = .ok (c', clock')) : c'.tod.Dialled := by
  unfold write at hrun
  split at hrun
  case h_9 | h_10 | h_11 | h_12 => cases hrun; exact dialled_writeTod h _ b
  case h_13 => cases hrun; simp only []; split <;> exact h
  case h_15 => rw [writeControl_tod event hrun]; exact h
  case h_16 => rw [writeControl_tod event hrun]; exact h
  all_goals (cases hrun; exact h)

theorem dialled_new {config : Config} (hrun : new event config clock = .ok (c, clock')) :
    c.tod.Dialled := by
  obtain ⟨clock₁, -, hret⟩ := bind_eq_ok.mp hrun
  cases hret
  have first : TimeOfDay.Dialled ⟨0, 0, 0, 0x01⟩ := ⟨by decide, by decide, by decide⟩
  exact first

theorem dialled_reset (hrun : c.reset event clock = .ok (c', clock')) : c'.tod.Dialled :=
  dialled_new event hrun

end Operations

end Cia

end C64
