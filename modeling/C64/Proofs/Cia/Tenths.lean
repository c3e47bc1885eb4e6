import Mathlib.Logic.Function.Iterate
import C64.Cia.TimeOfDay

/-!
# The time of day as a number of tenths

A time with sensible digits (`TimeOfDay.Valid`) is one of the tenths of a second since midnight
(`TimeOfDay.instant`), and each of these has one such time (`TimeOfDay.ofTenths`). The registers
count them one by one, carry by carry (`TimeOfDay.next_ofTenths`), and begin a new day behind the
last of the 864000.
-/

namespace C64.Cia.TimeOfDay

/-- The number of tenths of a second in a day. -/
def day : Nat := 864000

/-! ## Digits that make sense -/

/-- A part that counts to sixty. -/
def SixtyDigits (b : UInt8) : Prop := b &&& 0x0F < 10 ∧ b < 0x60

instance (b : UInt8) : Decidable (SixtyDigits b) := inferInstanceAs (Decidable (_ ∧ _))

/-- An hour from one to twelve, in one half of the day. -/
def HourDigits (b : UInt8) : Prop := b &&& 0x0F < 10 ∧ 0x01 ≤ b &&& 0x7F ∧ b &&& 0x7F ≤ 0x12

instance (b : UInt8) : Decidable (HourDigits b) := inferInstanceAs (Decidable (_ ∧ _ ∧ _))

/-- The digits of a time on a clock of twelve hours. -/
structure Valid (t : TimeOfDay) : Prop where
  tenths : t.tenths < 10
  seconds : SixtyDigits t.seconds
  minutes : SixtyDigits t.minutes
  hours : HourDigits t.hours

/-- The hours since midnight. Twelve is the first hour of both halves of the day. -/
def hoursPast (hours : UInt8) : Nat :=
  (ofDigits (hours &&& 0x7F)).toNat % 12 + (if anyBit hours 0x80 then 12 else 0)

/-- The tenths of a second since midnight. -/
def instant (t : TimeOfDay) : Nat :=
  ((hoursPast t.hours * 60 + (ofDigits t.minutes).toNat) * 60 + (ofDigits t.seconds).toNat) * 10 +
    t.tenths.toNat

/-! ## Every tenth of the day -/

/-- How the hours since midnight are shown. -/
def hourByte (past : Nat) : UInt8 :=
  toDigits (.ofNat (if past % 12 = 0 then 12 else past % 12)) ||| (if past < 12 then 0 else 0x80)

/-- The time so many tenths of a second behind a midnight. -/
def ofTenths (n : Nat) : TimeOfDay where
  tenths := .ofNat (n % 10)
  seconds := toDigits (.ofNat (n / 10 % 60))
  minutes := toDigits (.ofNat (n / 600 % 60))
  hours := hourByte (n / 36000 % 24)

theorem SixtyDigits.cases {b : UInt8} (h : SixtyDigits b) :
    (ofDigits b).toNat < 60 ∧ toDigits (.ofNat (ofDigits b).toNat) = b := by
  have all : ∀ b, SixtyDigits b →
      (ofDigits b).toNat < 60 ∧ toDigits (.ofNat (ofDigits b).toNat) = b := by
    refine forall_byte ?_
    decide +kernel
  exact all b h

theorem HourDigits.cases {b : UInt8} (h : HourDigits b) :
    hoursPast b < 24 ∧ hourByte (hoursPast b) = b := by
  have all : ∀ b, HourDigits b → hoursPast b < 24 ∧ hourByte (hoursPast b) = b := by
    refine forall_byte ?_
    decide +kernel
  exact all b h

/-! The parts of a time, each on its own. -/

theorem toNat_tenths : ∀ n < 10, (UInt8.ofNat n).toNat = n := by decide

theorem toNat_sixty : ∀ n < 60, (ofDigits (toDigits (.ofNat n))).toNat = n := by decide +kernel

theorem hoursPast_hourByte : ∀ n < 24, hoursPast (hourByte n) = n := by decide +kernel

theorem ofNat_lt_ten : ∀ n < 10, UInt8.ofNat n < 10 := by decide

theorem sixtyDigits_toDigits : ∀ n < 60, SixtyDigits (toDigits (.ofNat n)) := by decide +kernel

theorem hourDigits_hourByte : ∀ n < 24, HourDigits (hourByte n) := by decide +kernel

theorem ofNat_ten_eq_zero : ∀ n < 10, UInt8.ofNat n = 0 ↔ n = 0 := by decide

theorem toDigits_sixty_eq_zero : ∀ n < 60, toDigits (.ofNat n) = 0 ↔ n = 0 := by decide +kernel

theorem nextTenth : ∀ n < 10, (UInt8.ofNat n + 1) % 10 = .ofNat ((n + 1) % 10) := by decide

theorem nextDigits_sixty :
    ∀ n < 60, nextDigits (toDigits (.ofNat n)) 0x60 = toDigits (.ofNat ((n + 1) % 60)) := by
  decide +kernel

theorem nextHour_hourByte : ∀ n < 24, nextHour (hourByte n) = hourByte ((n + 1) % 24) := by
  decide +kernel

/-! ## Valid times -/

/-- A valid time is that of its tenth. -/
theorem Valid.eq_ofTenths {t : TimeOfDay} (h : t.Valid) :
    t.instant < day ∧ t = ofTenths t.instant := by
  have tenths : t.tenths.toNat < 10 := UInt8.lt_iff_toNat_lt.mp h.tenths
  obtain ⟨seconds, secondsEq⟩ := h.seconds.cases
  obtain ⟨minutes, minutesEq⟩ := h.minutes.cases
  obtain ⟨hours, hoursEq⟩ := h.hours.cases
  have split : t.instant % 10 = t.tenths.toNat ∧ t.instant / 10 % 60 = (ofDigits t.seconds).toNat ∧
      t.instant / 600 % 60 = (ofDigits t.minutes).toNat ∧
      t.instant / 36000 % 24 = hoursPast t.hours ∧ t.instant < day := by
    unfold instant day
    omega
  obtain ⟨tenths', seconds', minutes', hours', within⟩ := split
  refine ⟨within, ?_⟩
  unfold ofTenths
  rw [tenths', seconds', minutes', hours', UInt8.ofNat_toNat, secondsEq, minutesEq, hoursEq]

theorem valid_ofTenths (n : Nat) : (ofTenths n).Valid where
  tenths := ofNat_lt_ten _ (Nat.mod_lt _ (by decide))
  seconds := sixtyDigits_toDigits _ (Nat.mod_lt _ (by decide))
  minutes := sixtyDigits_toDigits _ (Nat.mod_lt _ (by decide))
  hours := hourDigits_hourByte _ (Nat.mod_lt _ (by decide))

/-- Days are alike. -/
theorem instant_ofTenths (n : Nat) : (ofTenths n).instant = n % day := by
  have tenths := toNat_tenths (n % 10) (Nat.mod_lt _ (by decide))
  have seconds := toNat_sixty (n / 10 % 60) (Nat.mod_lt _ (by decide))
  have minutes := toNat_sixty (n / 600 % 60) (Nat.mod_lt _ (by decide))
  have hours := hoursPast_hourByte (n / 36000 % 24) (Nat.mod_lt _ (by decide))
  simp only [instant, ofTenths, tenths, seconds, minutes, hours, day]
  omega

/-- Valid times of the same tenth are the same. -/
theorem Valid.eq_iff {t t' : TimeOfDay} (h : t.Valid) (h' : t'.Valid) :
    t = t' ↔ t.instant = t'.instant := by
  refine ⟨congrArg instant, fun same => ?_⟩
  rw [h.eq_ofTenths.2, h'.eq_ofTenths.2, same]

/-! ## A tenth later -/

/-- The registers count the tenths of the day. -/
theorem next_ofTenths (n : Nat) : (ofTenths n).next = ofTenths (n + 1) := by
  have tenths := nextTenth (n % 10) (Nat.mod_lt _ (by decide))
  have seconds := nextDigits_sixty (n / 10 % 60) (Nat.mod_lt _ (by decide))
  have minutes := nextDigits_sixty (n / 600 % 60) (Nat.mod_lt _ (by decide))
  have hours := nextHour_hourByte (n / 36000 % 24) (Nat.mod_lt _ (by decide))
  have noTenth := ofNat_ten_eq_zero ((n + 1) % 10) (Nat.mod_lt _ (by decide))
  have noSecond := toDigits_sixty_eq_zero ((n / 10 % 60 + 1) % 60) (Nat.mod_lt _ (by decide))
  have noMinute := toDigits_sixty_eq_zero ((n / 600 % 60 + 1) % 60) (Nat.mod_lt _ (by decide))
  have tenth : (n % 10 + 1) % 10 = (n + 1) % 10 := by omega
  unfold next
  simp only [ofTenths, tenths, seconds, minutes, hours, tenth, ne_eq, noTenth, noSecond, noMinute]
  by_cases carry : (n + 1) % 10 = 0
  · rw [if_neg (not_not.mpr carry)]
    have second : (n / 10 % 60 + 1) % 60 = (n + 1) / 10 % 60 := by omega
    rw [second]
    by_cases carry' : (n + 1) / 10 % 60 = 0
    · rw [if_neg (not_not.mpr carry')]
      have minute : (n / 600 % 60 + 1) % 60 = (n + 1) / 600 % 60 := by omega
      rw [minute]
      by_cases carry'' : (n + 1) / 600 % 60 = 0
      · rw [if_neg (not_not.mpr carry'')]
        have hour : (n / 36000 % 24 + 1) % 24 = (n + 1) / 36000 % 24 := by omega
        rw [hour]
      · rw [if_pos carry'']
        have hour : n / 36000 % 24 = (n + 1) / 36000 % 24 := by omega
        rw [hour]
    · rw [if_pos carry']
      have minute : n / 600 % 60 = (n + 1) / 600 % 60 := by omega
      have hour : n / 36000 % 24 = (n + 1) / 36000 % 24 := by omega
      rw [minute, hour]
  · rw [if_pos carry]
    have second : n / 10 % 60 = (n + 1) / 10 % 60 := by omega
    have minute : n / 600 % 60 = (n + 1) / 600 % 60 := by omega
    have hour : n / 36000 % 24 = (n + 1) / 36000 % 24 := by omega
    rw [second, minute, hour]

theorem iterate_next_ofTenths (n k : Nat) : next^[k] (ofTenths n) = ofTenths (n + k) := by
  induction k with
  | zero => rfl
  | succ k ih => rw [Function.iterate_succ_apply', ih, next_ofTenths, Nat.add_assoc]

/-- Noon follows the last tenth of the morning. -/
example : (⟨9, 0x59, 0x59, 0x11⟩ : TimeOfDay).next = ⟨0, 0, 0, 0x92⟩ := by decide

/-- One follows twelve in the same half of the day. -/
example : (⟨9, 0x59, 0x59, 0x92⟩ : TimeOfDay).next = ⟨0, 0, 0, 0x81⟩ := by decide

/-- A valid time stays valid, and counts the tenths of the day. -/
theorem Valid.iterate_next {t : TimeOfDay} (h : t.Valid) (k : Nat) :
    (next^[k] t).Valid ∧ (next^[k] t).instant = (t.instant + k) % day := by
  rw [h.eq_ofTenths.2, iterate_next_ofTenths]
  refine ⟨valid_ofTenths _, ?_⟩
  rw [instant_ofTenths, ← h.eq_ofTenths.2]

end C64.Cia.TimeOfDay
