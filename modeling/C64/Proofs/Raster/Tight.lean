import C64.Proofs.Raster.Damage

/-!
# The smallest span

A checked fill reports no column too many: its damage is the smallest span that covers every column
it changed (`Damage.IsHull`). So do fills one behind the other, from left to right, as each of them
meets a part of the line that is still the old one (`Swept.fillWith`). Unchecked they report all
columns so far.
-/

namespace C64.Raster

variable {n : Nat} {P Q : Nat → Prop} {d e : Damage}

/-- The damage is the smallest span that covers some columns, and none if there are none. -/
def Damage.IsHull (d : Damage) (P : Nat → Prop) : Prop :=
  match d with
  | none => ∀ x, ¬P x
  | some s => P s.first ∧ P s.last ∧ ∀ x, P x → s.contains x = true

/-- A column in which two lines differ. -/
def Differs (old line : Bytes n) (x : Nat) : Prop := line.byteAt x ≠ old.byteAt x

theorem Damage.IsHull.congr (h : d.IsHull P) (same : ∀ x, P x ↔ Q x) : d.IsHull Q := by
  obtain rfl : P = Q := funext fun x => propext (same x)
  exact h

theorem Damage.IsHull.eq_none (h : d.IsHull P) (nowhere : ∀ x, ¬P x) : d = none := by
  cases d with
  | none => rfl
  | some s => exact absurd h.1 (nowhere s.first)

theorem Damage.IsHull.covers (h : d.IsHull P) {x : Nat} (here : P x) : d.Covers x := by
  cases d with
  | none => exact absurd here (h x)
  | some s => exact ⟨s, rfl, h.2.2 x here⟩

/-- The ends of a union are ends of one of the two. -/
theorem Damage.IsHull.merge (h : d.IsHull P) (h' : e.IsHull Q) :
    (d.merge e).IsHull fun x => P x ∨ Q x := by
  cases e with
  | none => exact h.congr fun x => (or_iff_left (h' x)).symm
  | some t =>
    cases d with
    | none => exact h'.congr fun x => (or_iff_right (h x)).symm
    | some s =>
      obtain ⟨first, last, all⟩ := h
      obtain ⟨first', last', all'⟩ := h'
      refine ⟨?_, ?_, fun x => ?_⟩
      · show P (min s.first t.first) ∨ Q (min s.first t.first)
        rcases Nat.le_total s.first t.first with le | le
        · rw [Nat.min_eq_left le]
          exact .inl first
        · rw [Nat.min_eq_right le]
          exact .inr first'
      · show P (max s.last t.last) ∨ Q (max s.last t.last)
        rcases Nat.le_total s.last t.last with le | le
        · rw [Nat.max_eq_right le]
          exact .inr last'
        · rw [Nat.max_eq_left le]
          exact .inl last
      · rintro (here | here)
        · exact s.contains_union_left t (all x here)
        · exact s.contains_union_right (all' x here)

theorem Damage.whole_merge {a b c : Nat} (hab : a ≤ b) (hbc : b ≤ c) :
    (Damage.whole a b).merge (.whole b c) = .whole a c := by
  unfold Damage.whole
  by_cases first : a < b
  · by_cases second : b < c
    · rw [dif_pos first, dif_pos second, dif_pos (by omega)]
      simp only [merge, cover, Span.union, Option.some.injEq, Span.mk.injEq]
      omega
    · obtain rfl : b = c := by omega
      rw [dif_neg second]
      rfl
  · obtain rfl : a = b := by omega
    rw [dif_neg first]
    exact none_merge _

/-! ## One fill -/

theorem byteAt_filled (line : Bytes n) (start stop : Nat) (value : Nat → UInt8) {x : Nat}
    (outside : x < start ∨ stop ≤ x) : (filled line start stop value).byteAt x = line.byteAt x := by
  unfold Bytes.byteAt
  split
  · rw [get_filled, if_neg (by simp only []; omega)]
  · rfl

/-- A column that was the old one is covered if it takes another value. -/
theorem putColumn_hull {old : Bytes n} {state : Bytes n × Damage}
    (h : state.2.IsHull (Differs old state.1)) {x : Nat} (v : UInt8)
    (same : state.1.byteAt x = old.byteAt x) :
    (putColumn x v state).2.IsHull (Differs old (putColumn x v state).1) := by
  obtain ⟨line, damage⟩ := state
  unfold putColumn
  simp only []
  split
  · next hx =>
    split
    · exact h
    · next change =>
      have only : Damage.IsHull (some ⟨x, x, Nat.le_refl x⟩) (· = x) :=
        ⟨rfl, rfl, fun y here => by simp [here]⟩
      refine (h.merge only).congr fun y => ?_
      have put : (line.set ⟨x, hx⟩ v).byteAt y = if y = x then v else line.byteAt y := by
        unfold Bytes.byteAt
        split
        · rw [Bytes.get_set]
          simp only [Fin.mk.injEq, eq_comm]
        · next beyond => rw [if_neg (by omega)]
      unfold Differs
      simp only [put]
      by_cases here : y = x
      · subst here
        have own : line.byteAt y ≠ v := by rwa [line.byteAt_of_lt hx]
        rw [if_pos rfl, ← same]
        exact iff_of_true (.inr rfl) own.symm
      · rw [if_neg here]
        exact or_iff_left here
  · exact h

/-- By induction on how many columns were brought to their values. -/
theorem fold_putColumn_hull (line : Bytes n) (start k : Nat) (value : Nat → UInt8)
    (room : start + k ≤ n) :
    let out := Nat.fold k (fun i _ state => putColumn (start + i) (value i) state) (line, none)
    out.2.IsHull (Differs line out.1) := by
  induction k with
  | zero => exact fun x => not_not_intro rfl
  | succ k ih =>
    obtain ⟨damage, state, -⟩ := fold_putColumn line start k value (by omega)
    have before := ih (by omega)
    simp only [Nat.fold_succ, state] at before ⊢
    exact putColumn_hull before _ (byteAt_filled line start _ value (.inr (Nat.le_refl _)))

/-- What a fill does that succeeds. -/
theorem fillWith_ok {line line' : Bytes n} {start stop : Nat} {unchecked : Bool}
    {value : Nat → UInt8} (h : fillWith line start stop unchecked value = .ok (line', d))
    (order : start ≤ stop) :
    line' = filled line start stop value ∧
      if unchecked then d = .whole start stop else d.IsHull (Differs line line') := by
  unfold fillWith at h
  split at h
  · next none =>
    obtain rfl : start = stop := by omega
    cases h
    refine ⟨(filled_empty (Nat.le_refl _) line value).symm, ?_⟩
    cases unchecked with
    | true =>
      rw [if_pos rfl, Damage.whole, dif_neg (Nat.lt_irrefl _)]
    | false => exact fun x => not_not_intro rfl
  · split at h
    · exact absurd h (by simp)
    · obtain ⟨found, state, -⟩ := fold_putColumn line start (stop - start) value (by omega)
      have hull := fold_putColumn_hull line start (stop - start) value (by omega)
      unfold fillColumns at h
      simp only [state] at h hull
      rw [Nat.add_sub_cancel' order] at h hull
      cases h
      refine ⟨rfl, ?_⟩
      cases unchecked with
      | true => rfl
      | false => exact hull

/-! ## Fills from left to right -/

/-- The columns of a line before `k` have been filled, and the damage tells what that changed. -/
structure Swept (unchecked : Bool) (old : Bytes n) (k : Nat) (line : Bytes n) (d : Damage) :
    Prop where
  ahead : ∀ x, k ≤ x → line.byteAt x = old.byteAt x
  damage : if unchecked then d = .whole 0 k else d.IsHull (Differs old line)

variable {unchecked : Bool} {old line line' : Bytes n} {k stop : Nat}

theorem Swept.start (unchecked : Bool) (line : Bytes n) : Swept unchecked line 0 line none := by
  refine ⟨fun _ _ => rfl, ?_⟩
  cases unchecked with
  | true => rfl
  | false => exact fun x => not_not_intro rfl

/-- Columns may be left as they are where the others are compared. -/
theorem Swept.skip (h : Swept false old k line d) (order : k ≤ stop) :
    Swept false old stop line d :=
  ⟨fun x behind => h.ahead x (Nat.le_trans order behind), h.damage⟩

theorem Swept.fillWith {value : Nat → UInt8} (h : Swept unchecked old k line d) (order : k ≤ stop)
    (run : fillWith line k stop unchecked value = .ok (line', e)) :
    Swept unchecked old stop line' (d.merge e) := by
  obtain ⟨rfl, damage⟩ := fillWith_ok run order
  refine ⟨fun x behind => ?_, ?_⟩
  · rw [byteAt_filled _ _ _ _ (.inr behind), h.ahead x (Nat.le_trans order behind)]
  · have before := h.damage
    cases unchecked with
    | true =>
      simp only [if_true] at before damage ⊢
      rw [before, damage, Damage.whole_merge (Nat.zero_le k) order]
    | false =>
      simp only [Bool.false_eq_true, if_false] at before damage ⊢
      refine (before.merge damage).congr fun x => ?_
      unfold Differs
      -- A column was changed by the fills so far or by this one, never by both.
      rcases Nat.lt_or_ge x k with left | right
      · rw [byteAt_filled _ _ _ _ (.inl left)]
        exact or_iff_left (not_not_intro rfl)
      · rw [h.ahead x right]
        exact or_iff_right (not_not_intro rfl)

theorem Swept.fillFrom {run : Run} (h : Swept unchecked old k line d) (order : k ≤ stop)
    (fill : fillFrom line k stop unchecked run = .ok (line', e)) :
    Swept unchecked old stop line' (d.merge e) := by
  unfold Raster.fillFrom at fill
  split at fill
  · exact absurd fill (by simp)
  · exact h.fillWith order fill

theorem Swept.covers (h : Swept unchecked old k line d) {x : Nat} (change : Differs old line x) :
    d.Covers x := by
  have before : x < k := Nat.lt_of_not_le fun behind => change (h.ahead x behind)
  have damage := h.damage
  cases unchecked with
  | true =>
    refine ⟨⟨0, k - 1, Nat.zero_le _⟩, ?_, ?_⟩
    · rw [if_pos rfl] at damage
      rw [damage, Damage.whole, dif_pos (by omega)]
    · rw [Span.contains_iff]
      exact ⟨Nat.zero_le x, by simp only []; omega⟩
  | false => exact Damage.IsHull.covers damage change

end C64.Raster
