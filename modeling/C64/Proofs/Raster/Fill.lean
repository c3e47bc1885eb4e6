import C64.Proofs.Fault
import C64.Raster.Fill

/-!
# What a fill leaves behind

Every fill leaves the line with new values in its range and the old ones outside (`filled`),
whether it is checked or not, and one that reports no damage has changed nothing
(`FillsTo.eq_of_none`). A renderer that leaves out work where nothing was damaged relies on the
second.
-/

namespace C64.Raster

variable {n : Nat}

/-- The line with new values in the columns from `start` to before `stop`. -/
def filled (line : Bytes n) (start stop : Nat) (value : Nat → UInt8) : Bytes n :=
  .ofFn fun x => if start ≤ x.val ∧ x.val < stop then value (x.val - start) else line.get x

theorem get_filled (line : Bytes n) (start stop : Nat) (value : Nat → UInt8) (x : Fin n) :
    (filled line start stop value).get x =
      if start ≤ x.val ∧ x.val < stop then value (x.val - start) else line.get x :=
  Bytes.get_ofFn _ x

theorem filled_empty {start stop : Nat} (h : stop ≤ start) (line : Bytes n)
    (value : Nat → UInt8) : filled line start stop value = line := by
  ext x : 1
  rw [get_filled, if_neg (by omega)]

theorem filled_congr {line : Bytes n} {start stop : Nat} {value value' : Nat → UInt8}
    (h : ∀ i, start + i < stop → value i = value' i) :
    filled line start stop value = filled line start stop value' := by
  ext x : 1
  rw [get_filled, get_filled]
  split
  · next hx => exact h _ (by omega)
  · rfl

/-- A fill succeeds, leaves the range filled, and reports no damage only where there is none. -/
structure FillsTo (result : Except Fault (Bytes n × Damage)) (line : Bytes n) (start stop : Nat)
    (value : Nat → UInt8) (damage : Damage) : Prop where
  eq_ok : result = .ok (filled line start stop value, damage)
  eq_of_none : damage = none → filled line start stop value = line

theorem FillsTo.congr {result : Except Fault (Bytes n × Damage)} {line : Bytes n} {start stop : Nat}
    {value value' : Nat → UInt8} {damage : Damage} (h : FillsTo result line start stop value damage)
    (hvalue : ∀ i, start + i < stop → value i = value' i) :
    FillsTo result line start stop value' damage := by
  have same : filled line start stop value = filled line start stop value' := filled_congr hvalue
  exact ⟨same ▸ h.eq_ok, same ▸ h.eq_of_none⟩

/-- A fill of the whole line leaves nothing of the old one. -/
theorem FillsTo.whole {result : Except Fault (Bytes n × Damage)} {line : Bytes n}
    {value : Nat → UInt8} {damage : Damage} (h : FillsTo result line 0 n value damage)
    (target : Bytes n) (htarget : ∀ i : Fin n, target.get i = value i.val) :
    result = .ok (target, damage) ∧ (damage = none → target = line) := by
  have same : filled line 0 n value = target := by
    ext x
    rw [get_filled, if_pos ⟨Nat.zero_le _, x.isLt⟩, htarget x]
    rfl
  exact ⟨same ▸ h.eq_ok, same ▸ h.eq_of_none⟩

theorem Damage.coverColumn_ne_none (d : Damage) (x : Nat) : d.coverColumn x ≠ none := by
  cases d <;> simp [Damage.coverColumn, Damage.cover]

theorem filled_succ (line : Bytes n) (start k : Nat) (value : Nat → UInt8) (h : start + k < n) :
    filled line start (start + (k + 1)) value =
      (filled line start (start + k) value).set ⟨start + k, h⟩ (value k) := by
  ext x : 1
  rw [Bytes.get_set, get_filled, get_filled]
  by_cases hx : (⟨start + k, h⟩ : Fin n) = x
  · subst hx
    rw [if_pos rfl, if_pos (by simp only []; omega)]
    simp
  · have hne : start + k ≠ x.val := fun he => hx (Fin.ext he)
    rw [if_neg hx]
    by_cases hin : start ≤ x.val ∧ x.val < start + k
    · rw [if_pos hin, if_pos (by omega)]
    · rw [if_neg hin, if_neg (by omega)]

/-- The columns are brought to their values one after another, by induction on how many. -/
theorem fold_putColumn (line : Bytes n) (start k : Nat) (value : Nat → UInt8)
    (h : start + k ≤ n) :
    ∃ damage, Nat.fold k (fun i _ state => putColumn (start + i) (value i) state) (line, none) =
        (filled line start (start + k) value, damage) ∧
      (damage = none → filled line start (start + k) value = line) := by
  induction k with
  | zero =>
    have same := filled_empty (Nat.le_refl start) line value
    exact ⟨none, by rw [Nat.add_zero, same]; rfl, fun _ => same⟩
  | succ k ih =>
    obtain ⟨damage, hfold, hnone⟩ := ih (by omega)
    have hk : start + k < n := by omega
    rw [Nat.fold_succ, hfold]
    unfold putColumn
    simp only [dif_pos hk]
    by_cases heq : (filled line start (start + k) value).get ⟨start + k, hk⟩ = value k
    · have same : filled line start (start + (k + 1)) value =
          filled line start (start + k) value := by
        rw [filled_succ line start k value hk]
        ext x
        rw [Bytes.get_set]
        split
        · next hx => rw [← hx, heq]
        · rfl
      rw [if_pos heq, same]
      exact ⟨damage, rfl, hnone⟩
    · rw [if_neg heq, filled_succ line start k value hk]
      exact ⟨_, rfl, fun hd => absurd hd (damage.coverColumn_ne_none _)⟩

theorem fillWith_fills (line : Bytes n) {start stop : Nat} (unchecked : Bool)
    (value : Nat → UInt8) (h : stop ≤ n) :
    ∃ damage, FillsTo (fillWith line start stop unchecked value) line start stop value damage := by
  unfold fillWith
  by_cases hempty : stop ≤ start
  · have same := filled_empty hempty line value
    exact ⟨none, by rw [if_pos hempty, same], fun _ => same⟩
  · obtain ⟨damage, hfold, hnone⟩ := fold_putColumn line start (stop - start) value (by omega)
    rw [Nat.add_sub_cancel' (by omega)] at hfold hnone
    rw [if_neg hempty, if_neg (by omega)]
    unfold fillColumns
    rw [hfold]
    cases unchecked with
    | true =>
      refine ⟨.whole start stop, rfl, fun hd => ?_⟩
      unfold Damage.whole at hd
      rw [dif_pos (by omega)] at hd
      exact absurd hd (by simp)
    | false => exact ⟨damage, rfl, hnone⟩

theorem fillConst_fills (line : Bytes n) (start stop : Nat) (unchecked : Bool) (v : UInt8)
    (h : stop ≤ n) :
    ∃ damage, FillsTo (fillConst line start stop unchecked v) line start stop (fun _ => v)
      damage :=
  fillWith_fills line unchecked _ h

theorem fillFrom_fills (line : Bytes n) (start stop : Nat) (unchecked : Bool) (run : Run)
    (hrun : stop - start ≤ run.length) (h : stop ≤ n) :
    ∃ damage, FillsTo (fillFrom line start stop unchecked run) line start stop run.byte
      damage := by
  unfold fillFrom
  rw [if_neg (by omega)]
  exact fillWith_fills line unchecked _ h

theorem fillIndexed_fills (line : Bytes n) (start stop : Nat) {m : Nat} (unchecked : Bool)
    (source : Bytes m) (x : Indexing) (hmask : x.mask < m) (h : stop ≤ n)
    (hindex : x.base + (stop - start - 1) * x.stride < wordLimit) :
    ∃ damage, FillsTo (fillIndexed line start stop unchecked source x) line start stop
      (fun i => source.byteAt (x.index i)) damage := by
  unfold fillIndexed
  rw [if_neg (by omega), if_neg (by omega)]
  exact fillWith_fills line unchecked _ h

/-- Two fills side by side are one. -/
theorem filled_filled (line : Bytes n) {a b c : Nat} (hab : a ≤ b) (hbc : b ≤ c)
    (value : Nat → UInt8) :
    filled (filled line a b value) b c (fun i => value (b - a + i)) = filled line a c value := by
  ext x : 1
  simp only [get_filled]
  by_cases h₁ : b ≤ x.val ∧ x.val < c
  · rw [if_pos h₁, if_pos (by omega)]
    have place : b - a + (x.val - b) = x.val - a := by omega
    rw [place]
  · rw [if_neg h₁]
    by_cases h₂ : a ≤ x.val ∧ x.val < b
    · rw [if_pos h₂, if_pos (by omega)]
    · rw [if_neg h₂, if_neg (by omega)]

end C64.Raster
