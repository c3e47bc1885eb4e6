import C64.Vic.Sprite

/-!
# Sprites over a line

Two facts about laying sprites over a line that the renderer relies on: what is drawn stays in
the columns it was allowed (`SpriteRow.drawn_bounds`), and a row without sprites draws nothing and
touches nothing (`SpriteRow.overlay_of_isEmpty`).
-/

namespace C64.Vic.SpriteRow

variable {n : Nat}

/-! ## The columns drawn in -/

/-- Where sprites were drawn in the columns before `k`, if they were, lies between two others. -/
def Within (left right k : Nat) (laid : Overlay) : Prop :=
  ∀ first stop, laid.drawn = some (first, stop) →
    left ≤ first ∧ first < stop ∧ stop ≤ right ∧ stop ≤ k

theorem Within.mono {left right k : Nat} {laid : Overlay} (h : Within left right k laid) :
    Within left right (k + 1) laid := by
  intro first stop hd
  have := h first stop hd
  omega

theorem Within.draw {left right x : Nat} {laid : Overlay} (h : Within left right x laid)
    (inside : left ≤ x ∧ x < right) : Within left right (x + 1) (laid.draw x) := by
  intro first stop hd
  obtain ⟨hfirst, rfl⟩ := Prod.mk.inj (Option.some.inj hd)
  cases hdrawn : laid.drawn with
  | none => simp only [hdrawn] at hfirst; omega
  | some d =>
    have := h d.1 d.2 hdrawn
    simp only [hdrawn] at hfirst
    omega

theorem Within.overlayColumn {left right x : Nat} {state : Overlay × Bytes n}
    (h : Within left right x state.1) (columns : Vector Column n) (foreground : Nat → Bool) :
    Within left right (x + 1) (overlayColumn columns left right foreground x state).1 := by
  unfold SpriteRow.overlayColumn
  simp only []
  split
  · split
    · exact h.mono
    · split
      · split
        · next inside => exact Within.draw h ⟨inside.1, inside.2.1⟩
        · exact h.mono
      · exact h.mono
  · exact h.mono

theorem fold_within (columns : Vector Column n) {left right : Nat} (foreground : Nat → Bool)
    (pixels : Bytes n) (k : Nat) :
    Within left right k (Nat.fold k (fun x _ state =>
      overlayColumn columns left right foreground x state) (⟨none, 0, 0⟩, pixels)).1 := by
  induction k with
  | zero => intro first stop hd; exact absurd hd (by simp)
  | succ k ih =>
    rw [Nat.fold_succ]
    exact ih.overlayColumn columns foreground

theorem drawn_bounds {r : SpriteRow} {pixels : Bytes n} {left right : Nat}
    {foreground : Nat → Bool} {first stop : Nat}
    (h : (r.overlay pixels left right foreground).1.drawn = some (first, stop)) :
    left ≤ first ∧ first < stop ∧ stop ≤ right := by
  simp only [overlay] at h
  obtain ⟨hleft, hlt, hright, _⟩ := fold_within (r.columns n) foreground pixels n first stop h
  exact ⟨hleft, hlt, hright⟩

/-! ## A row without sprites -/

theorem getElem?_join_of_isEmpty {r : SpriteRow} (h : r.isEmpty = true) (i : Nat) :
    r.sprites[i]?.join = none := by
  unfold isEmpty at h
  rw [Vector.all_eq_true] at h
  by_cases hi : i < spriteCount
  · have := h i hi
    rw [Vector.getElem?_eq_getElem hi]
    simpa using this
  · rw [Vector.getElem?_eq_none (by omega)]
    rfl

theorem fold_eq_start {α : Type} {f : (i : Nat) → i < n → α → α}
    (h : ∀ i hi a, f i hi a = a) (start : α) : Nat.fold n f start = start := by
  induction n with
  | zero => rfl
  | succ n ih =>
    rw [Nat.fold_succ, h]
    exact ih fun i hi => h i (Nat.lt_succ_of_lt hi)

theorem columns_of_isEmpty {r : SpriteRow} (h : r.isEmpty = true) (n : Nat) :
    r.columns n = .replicate n ⟨0, none⟩ := by
  unfold columns
  refine fold_eq_start (fun i hi columns => ?_) _
  simp only [paintNext, getElem?_join_of_isEmpty h]

theorem overlay_of_isEmpty {r : SpriteRow} (h : r.isEmpty = true) (pixels : Bytes n)
    (left right : Nat) (foreground : Nat → Bool) :
    r.overlay pixels left right foreground = (⟨none, 0, 0⟩, pixels) := by
  unfold overlay
  rw [columns_of_isEmpty h]
  refine fold_eq_start (fun x hx state => ?_) _
  unfold overlayColumn
  simp

/-- With every sprite switched off there is none. -/
theorem isEmpty_fetch {registers : Bytes 64} (h : registers.byteAt 0x15 = 0) (line screenBase : Nat)
    (memory : VideoMemory) : (fetch registers line screenBase memory).isEmpty = true := by
  unfold isEmpty
  rw [Vector.all_eq_true]
  intro i hi
  have hoff : ¬(bitAt (registers.byteAt 0x15) i = true) := by
    rw [h]
    simp [bitAt]
  unfold fetch
  rw [Vector.getElem_ofFn]
  unfold fetchSprite
  rw [if_neg (fun hon => hoff hon.1)]
  rfl

end C64.Vic.SpriteRow
