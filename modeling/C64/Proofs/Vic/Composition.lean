import C64.Proofs.Vic.Overlay
import Mathlib.Data.Finset.Max
import Mathlib.Data.Finset.Union
import Mathlib.Data.Fintype.Basic

/-!
# The sprites of a line, column by column

Every column of a line is decided on its own: by the sprites that have a pixel there
(`SpriteRow.opaqueAt`), the topmost of them and the foreground (`SpriteRow.overlay_composed`).
`SpriteRow.overlay` paints sprite after sprite and then goes through the columns;
`SpriteRow.columns_shows` says what the first pass leaves at a column, `SpriteRow.Composed` what
the second has done up to one.
-/

namespace C64.Vic

/-! ## One sprite -/

namespace Sprite

variable {s : Sprite} {shared1 shared2 : UInt8} {x : Nat}

/-- Bit `i` of the sprite's three bytes, counted from the left. -/
def dot (s : Sprite) (i : Nat) : Bool :=
  bitAt (if i < 8 then s.data0 else if i < 16 then s.data1 else s.data2) (7 - i % 8)

/-- The colour of the sprite in column `x` of the picture, none where it is transparent and where
it is not. -/
def shows (s : Sprite) (shared1 shared2 : UInt8) (x : Nat) : Option UInt8 :=
  let start := s.x.toNat + 24
  let place := if s.expanded then (x - start) / 2 else x - start
  if x < start ∨ 24 ≤ place then none
  else if s.multicolour then
    match s.dot (place / 2 * 2), s.dot (place / 2 * 2 + 1) with
    | false, false => none
    | false, true => some shared1
    | true, false => some s.colour
    | true, true => some shared2
  else if s.dot place then some s.colour
  else none

theorem testBit_bits (s : Sprite) {i : Nat} (inside : i < 24) :
    s.bits.testBit (23 - i) = s.dot i := by
  have h1 := s.data1.toNat_lt
  have h2 := s.data2.toNat_lt
  have apart : s.bits = 2 ^ 16 * s.data0.toNat + (2 ^ 8 * s.data1.toNat + s.data2.toNat) := by
    unfold bits
    omega
  rw [apart, Nat.testBit_two_pow_mul_add _ (by omega), Nat.testBit_two_pow_mul_add _ h2]
  unfold dot bitAt
  by_cases first : i < 8
  · rw [if_neg (by omega), if_pos first]
    congr 1
    omega
  · rw [if_pos (by omega), if_neg first]
    by_cases second : i < 16
    · rw [if_neg (by omega), if_pos second]
      congr 1
      omega
    · rw [if_pos (by omega), if_neg second]
      congr 1
      omega

/-- Two bits of a number, from the one at `k` on. -/
theorem shiftRight_mod_four (n k : Nat) :
    n >>> k % 4 = 2 * (n.testBit (k + 1)).toNat + (n.testBit k).toNat := by
  rw [Nat.toNat_testBit, Nat.toNat_testBit, Nat.shiftRight_eq_div_pow, Nat.pow_succ,
    ← Nat.div_div_eq_div_mul]
  omega

/-- The chip's pixels are those of the sprite moved to its position. -/
theorem shows_eq (s : Sprite) (shared1 shared2 : UInt8) (x : Nat) :
    s.shows shared1 shared2 x =
      if s.x.toNat + spriteOffset ≤ x ∧ x - (s.x.toNat + spriteOffset) < s.length then
        s.pixel? shared1 shared2 (x - (s.x.toNat + spriteOffset))
      else none := by
  unfold shows pixel? length spriteOffset
  generalize s.x.toNat + 24 = start
  simp only []
  generalize hplace : (if s.expanded then (x - start) / 2 else x - start) = place
  have within : (start ≤ x ∧ x - start < if s.expanded then 48 else 24) ↔
      start ≤ x ∧ place < 24 := by
    subst hplace
    split <;> omega
  by_cases out : x < start ∨ 24 ≤ place
  · rw [if_pos out, if_neg (within.not.mpr (by omega))]
  · rw [if_neg out, if_pos (within.mpr (by omega))]
    have pair : s.bits >>> (22 - place / 2 * 2) % 4 =
        2 * (s.dot (place / 2 * 2)).toNat + (s.dot (place / 2 * 2 + 1)).toNat := by
      have left : 22 - place / 2 * 2 + 1 = 23 - place / 2 * 2 := by omega
      have right : 22 - place / 2 * 2 = 23 - (place / 2 * 2 + 1) := by omega
      rw [shiftRight_mod_four, left, right, s.testBit_bits (by omega), s.testBit_bits (by omega)]
    rw [pair, s.testBit_bits (by omega)]
    cases s.dot (place / 2 * 2) <;> cases s.dot (place / 2 * 2 + 1) <;> rfl

end Sprite

/-! ## Sets of sprites -/

/-- The sprites whose bits are set. -/
def members (b : UInt8) : Finset (Fin spriteCount) := {i | bitAt b i}

@[simp] theorem mem_members {b : UInt8} {i : Fin spriteCount} :
    i ∈ members b ↔ bitAt b i = true := by
  simp [members]

theorem members_or (a b : UInt8) : members (a ||| b) = members a ∪ members b := by
  ext i
  simp [bitAt, Nat.testBit_or]

theorem members_single (i : Fin spriteCount) : members (1 <<< i.val.toUInt8) = {i} := by
  decide +revert

theorem members_eq_empty (b : UInt8) : members b = ∅ ↔ b = 0 := by
  refine forall_byte (P := fun b => members b = ∅ ↔ b = 0) ?_ b
  decide +kernel

theorem isCrowd_iff (b : UInt8) : Overlay.isCrowd b = true ↔ 2 ≤ (members b).card := by
  refine forall_byte (P := fun b => Overlay.isCrowd b = true ↔ 2 ≤ (members b).card) ?_ b
  decide +kernel

/-! ## The sprites at a column -/

namespace SpriteRow

variable {n : Nat} (r : SpriteRow)

/-- The colour of sprite `i` in column `x`, and whether the foreground covers it. -/
def seen (x : Nat) (i : Fin spriteCount) : Option (UInt8 × Bool) :=
  (r.sprites.get i).bind fun s => (s.shows r.shared1 r.shared2 x).map (·, s.behind)

/-- The sprites with a pixel in column `x`. -/
def opaqueAt (x : Nat) : Finset (Fin spriteCount) := {i | (r.seen x i).isSome}

theorem mem_opaqueAt {x : Nat} {i : Fin spriteCount} :
    i ∈ r.opaqueAt x ↔ (r.seen x i).isSome = true := by
  simp [opaqueAt]

/-- Those of them that have the number `m` or a higher one. -/
def opaqueFrom (x m : Nat) : Finset (Fin spriteCount) := {i ∈ r.opaqueAt x | m ≤ i.val}

theorem mem_opaqueFrom {x m : Nat} {i : Fin spriteCount} :
    i ∈ r.opaqueFrom x m ↔ i ∈ r.opaqueAt x ∧ m ≤ i.val :=
  Finset.mem_filter

theorem opaqueFrom_zero (x : Nat) : r.opaqueFrom x 0 = r.opaqueAt x :=
  Finset.filter_true_of_mem fun _ _ => Nat.zero_le _

theorem opaqueFrom_of_mem {x : Nat} {i : Fin spriteCount} (there : i ∈ r.opaqueAt x) :
    r.opaqueFrom x i.val = insert i (r.opaqueFrom x (i.val + 1)) := by
  ext j
  simp only [Finset.mem_insert, mem_opaqueFrom]
  constructor
  · rintro ⟨hj, above⟩
    by_cases same : j = i
    · exact .inl same
    · have := Fin.val_ne_of_ne same
      exact .inr ⟨hj, by omega⟩
  · rintro (rfl | ⟨hj, above⟩)
    · exact ⟨there, Nat.le_refl _⟩
    · exact ⟨hj, by omega⟩

theorem opaqueFrom_of_notMem {x : Nat} {i : Fin spriteCount} (clear : i ∉ r.opaqueAt x) :
    r.opaqueFrom x i.val = r.opaqueFrom x (i.val + 1) := by
  refine Finset.filter_congr fun j hj => ?_
  have other : j ≠ i := fun same => clear (same ▸ hj)
  have := Fin.val_ne_of_ne other
  omega

/-- What is known of a column once the sprites from number `m` on are painted. -/
structure Shows (x m : Nat) (c : Column) : Prop where
  present : members c.present = r.opaqueFrom x m
  top : ∀ i, IsLeast {i | i ∈ r.opaqueFrom x m} i → c.top = r.seen x i

variable {r} {x : Nat} {c : Column}

/-- The column with sprite `i` put on top, if it has a pixel there. -/
def putOn (i : Nat) (c : Column) : Option (UInt8 × Bool) → Column
  | some top => ⟨c.present ||| 1 <<< i.toUInt8, some top⟩
  | none => c

/-- Painting one sprite more keeps what is known of a column: it has the lowest number so far. -/
theorem Shows.putOn {i : Fin spriteCount} (h : r.Shows x (i.val + 1) c) :
    r.Shows x i.val (putOn i.val c (r.seen x i)) := by
  cases pixel : r.seen x i with
  | none =>
    have clear : i ∉ r.opaqueAt x := by simp [mem_opaqueAt, pixel]
    have same := r.opaqueFrom_of_notMem clear
    exact ⟨h.present.trans same.symm, fun j least => h.top j (same ▸ least)⟩
  | some top =>
    have there : i ∈ r.opaqueAt x := by simp [mem_opaqueAt, pixel]
    constructor
    · show members (c.present ||| 1 <<< i.val.toUInt8) = _
      rw [members_or, members_single, h.present, r.opaqueFrom_of_mem there, Finset.insert_eq,
        Finset.union_comm]
    · intro j least
      have own : IsLeast {j | j ∈ r.opaqueFrom x i.val} i :=
        ⟨r.mem_opaqueFrom.mpr ⟨there, Nat.le_refl _⟩, fun j hj => (r.mem_opaqueFrom.mp hj).2⟩
      rw [least.unique own, pixel]
      rfl

theorem getElem_paintPixel (r : SpriteRow) (i : Nat) (s : Sprite) (k : Nat)
    (columns : Vector Column n) (hx : x < n) :
    (r.paintPixel i s k columns)[x] =
      if s.x.toNat + spriteOffset + k = x then
        putOn i columns[x] ((s.pixel? r.shared1 r.shared2 k).map (·, s.behind))
      else columns[x] := by
  unfold paintPixel
  simp only []
  cases s.pixel? r.shared1 r.shared2 k with
  | none => simp [SpriteRow.putOn]
  | some colour =>
    simp only [Option.map_some]
    split
    · rw [Vector.getElem_set]
      split
      · next here =>
        subst here
        rfl
      · rfl
    · next beyond => rw [if_neg (by omega)]

/-- A sprite is painted into every column on its own. -/
theorem getElem_paint (r : SpriteRow) (columns : Vector Column n) (i : Nat) (s : Sprite)
    (hx : x < n) :
    (r.paint columns i s)[x] =
      putOn i columns[x] ((s.shows r.shared1 r.shared2 x).map (·, s.behind)) := by
  have upTo : ∀ k, (Nat.fold k (fun k _ columns => r.paintPixel i s k columns) columns)[x] =
      putOn i columns[x]
        ((if s.x.toNat + spriteOffset ≤ x ∧ x - (s.x.toNat + spriteOffset) < k then
          s.pixel? r.shared1 r.shared2 (x - (s.x.toNat + spriteOffset))
        else none).map (·, s.behind)) := by
    intro k
    induction k with
    | zero => simp [SpriteRow.putOn]
    | succ k ih =>
      rw [Nat.fold_succ, getElem_paintPixel, ih]
      by_cases here : s.x.toNat + spriteOffset + k = x
      · rw [if_pos here, if_neg (by omega), if_pos (by omega)]
        rw [show x - (s.x.toNat + spriteOffset) = k by omega]
        rfl
      · rw [if_neg here]
        have same : (s.x.toNat + spriteOffset ≤ x ∧ x - (s.x.toNat + spriteOffset) < k + 1) ↔
            s.x.toNat + spriteOffset ≤ x ∧ x - (s.x.toNat + spriteOffset) < k := by omega
        simp only [same]
  rw [s.shows_eq]
  exact upTo s.length

/-- Sprite by sprite from the last on, every column gets what it has to show. -/
theorem getElem_paintNext (r : SpriteRow) (i : Fin spriteCount) (columns : Vector Column n)
    (hx : x < n) :
    (r.paintNext (spriteCount - 1 - i.val) columns)[x] =
      putOn i.val columns[x] (r.seen x i) := by
  have turn : spriteCount - 1 - (spriteCount - 1 - i.val) = i.val := by omega
  have slot : r.sprites[i.val]?.join = r.sprites.get i := by
    rw [Vector.getElem?_eq_getElem i.isLt]
    rfl
  unfold paintNext seen
  cases there : r.sprites.get i with
  | none => simp only [turn, slot, there, Option.bind_none, SpriteRow.putOn]
  | some s => simp only [turn, slot, there, Option.bind_some, r.getElem_paint columns i.val s hx]

theorem columns_shows (r : SpriteRow) (hx : x < n) : r.Shows x 0 (r.columns n)[x] := by
  -- The last `k` sprites are painted: those from number `spriteCount - k` on.
  have upTo : ∀ k ≤ spriteCount, r.Shows x (spriteCount - k)
      (Nat.fold k (fun k _ columns => r.paintNext k columns) (.replicate n ⟨0, none⟩))[x] := by
    intro k small
    induction k with
    | zero =>
      rw [Nat.fold_zero, Vector.getElem_replicate]
      constructor
      · rw [(members_eq_empty 0).mpr rfl]
        exact (Finset.filter_eq_empty_iff.mpr fun i _ => Nat.not_le.mpr i.isLt).symm
      · intro i least
        exact absurd (r.mem_opaqueFrom.mp least.1).2 (Nat.not_le.mpr i.isLt)
    | succ k ih =>
      have next : spriteCount - 1 - (spriteCount - (k + 1)) = k := by omega
      have before : spriteCount - (k + 1) + 1 = spriteCount - k := by omega
      have painted := r.getElem_paintNext ⟨spriteCount - (k + 1), by omega⟩
        (Nat.fold k (fun k _ columns => r.paintNext k columns) (.replicate n ⟨0, none⟩)) hx
      simp only [next] at painted
      rw [Nat.fold_succ, painted]
      refine Shows.putOn (i := ⟨spriteCount - (k + 1), by omega⟩) ?_
      simp only [before]
      exact ih (by omega)
  have all := upTo spriteCount (Nat.le_refl _)
  rwa [Nat.sub_self] at all

theorem Shows.members_present (h : r.Shows x 0 c) : members c.present = r.opaqueAt x :=
  h.present.trans (r.opaqueFrom_zero x)

theorem Shows.top_eq (h : r.Shows x 0 c) {i : Fin spriteCount}
    (least : IsLeast {i | i ∈ r.opaqueAt x} i) : c.top = r.seen x i := by
  rw [← r.opaqueFrom_zero x] at least
  exact h.top i least

end SpriteRow

/-! ## What is recorded of a column -/

namespace Overlay

variable (laid : Overlay) (present : UInt8) (inFront : Bool)

theorem touch_zero : laid.touch 0 inFront = laid := by
  simp [touch, isCrowd]

theorem members_spriteCollision_touch :
    members (laid.touch present inFront).spriteCollision =
      members laid.spriteCollision ∪ if 2 ≤ (members present).card then members present else ∅ := by
  unfold touch
  simp only [isCrowd_iff]
  split
  · exact members_or _ _
  · exact (Finset.union_empty _).symm

theorem members_backgroundCollision_touch :
    members (laid.touch present inFront).backgroundCollision =
      members laid.backgroundCollision ∪ if inFront then members present else ∅ := by
  unfold touch
  simp only []
  split
  · exact members_or _ _
  · exact (Finset.union_empty _).symm

/-- Where columns were drawn in: from the first of some columns to behind the last, or nowhere if
there are none. -/
def Spans (drawn : Option (Nat × Nat)) (columns : Set Nat) : Prop :=
  match drawn with
  | none => columns = ∅
  | some (first, stop) => IsLeast columns first ∧ ∃ last, IsGreatest columns last ∧ stop = last + 1

variable {laid} {columns : Set Nat} {x : Nat}

theorem Spans.draw (h : Spans laid.drawn columns) (below : ∀ y ∈ columns, y < x) :
    Spans (laid.draw x).drawn (insert x columns) := by
  have last : IsGreatest (insert x columns) x := by
    refine ⟨Set.mem_insert x columns, fun y hy => ?_⟩
    rcases hy with rfl | hy
    · exact Nat.le_refl _
    · exact Nat.le_of_lt (below y hy)
  refine ⟨?_, x, last, rfl⟩
  unfold Spans at h
  cases drawn : laid.drawn with
  | none =>
    simp only [drawn] at h ⊢
    rw [h]
    simp
  | some d =>
    simp only [drawn] at h ⊢
    refine ⟨Set.mem_insert_of_mem x h.1.1, fun y hy => ?_⟩
    rcases hy with rfl | hy
    · exact Nat.le_of_lt (below _ h.1.1)
    · exact h.1.2 hy

end Overlay

/-! ## The line -/

namespace SpriteRow

variable {n : Nat} {r : SpriteRow} {x k : Nat} {left right : Nat} {foreground : Nat → Bool}
  {columns : Vector Column n} {pixels : Bytes n}

/-- Column `x` is replaced by a colour: it is in the window, and the topmost of the sprites there
has the colour and is not behind the foreground. -/
def Replaces (r : SpriteRow) (left right : Nat) (foreground : Nat → Bool) (x : Nat)
    (colour : UInt8) : Prop :=
  left ≤ x ∧ x < right ∧ ∃ i behind, IsLeast {i | i ∈ r.opaqueAt x} i ∧
    r.seen x i = some (colour, behind) ∧ ¬(foreground x = true ∧ behind = true)

/-- The columns before `k` that are replaced. -/
def replaced (r : SpriteRow) (left right : Nat) (foreground : Nat → Bool) (k : Nat) : Set Nat :=
  {x | x < k ∧ ∃ colour, r.Replaces left right foreground x colour}

theorem overlayColumn_of_replaces (laid : Overlay) (line : Bytes n) (hx : x < n)
    (h : r.Shows x 0 columns[x]) {colour : UInt8}
    (replaces : r.Replaces left right foreground x colour) :
    overlayColumn columns left right foreground x (laid, line) =
      ((laid.touch columns[x].present (foreground x)).draw x, line.set ⟨x, hx⟩ colour) := by
  obtain ⟨hleft, hright, i, behind, least, pixel, front⟩ := replaces
  have some_sprite : columns[x].present ≠ 0 := by
    rw [Ne, ← members_eq_empty, h.members_present, ← Ne, ← Finset.nonempty_iff_ne_empty]
    exact ⟨i, least.1⟩
  have top : columns[x].top = some (colour, behind) := (h.top_eq least).trans pixel
  have inside : left ≤ x ∧ x < right ∧ (!(behind && foreground x)) = true := by
    refine ⟨hleft, hright, ?_⟩
    simpa [and_comm, imp_iff_not_or] using front
  unfold overlayColumn
  simp only [dif_pos hx, if_neg some_sprite, top, if_pos inside]

theorem overlayColumn_of_not_replaces (laid : Overlay) (line : Bytes n) (hx : x < n)
    (h : r.Shows x 0 columns[x])
    (stays : ∀ colour, ¬r.Replaces left right foreground x colour) :
    overlayColumn columns left right foreground x (laid, line) =
      (laid.touch columns[x].present (foreground x), line) := by
  unfold overlayColumn
  simp only [dif_pos hx]
  by_cases clear : columns[x].present = 0
  · rw [if_pos clear, clear, Overlay.touch_zero]
  · rw [if_neg clear]
    have here : (r.opaqueAt x).Nonempty := by
      rwa [Finset.nonempty_iff_ne_empty, ← h.members_present, Ne, members_eq_empty]
    have least : IsLeast {i | i ∈ r.opaqueAt x} ((r.opaqueAt x).min' here) :=
      (r.opaqueAt x).isLeast_min' here
    obtain ⟨⟨colour, behind⟩, pixel⟩ := Option.isSome_iff_exists.mp (r.mem_opaqueAt.mp least.1)
    have top : columns[x].top = some (colour, behind) := (h.top_eq least).trans pixel
    have outside : ¬(left ≤ x ∧ x < right ∧ (!(behind && foreground x)) = true) := by
      rintro ⟨hleft, hright, front⟩
      refine stays colour ⟨hleft, hright, _, behind, least, pixel, ?_⟩
      simpa [and_comm, imp_iff_not_or] using front
    simp only [top, if_neg outside]

/-- What laying the sprites over the columns before `k` comes to. -/
structure Composed (r : SpriteRow) (pixels : Bytes n) (left right : Nat)
    (foreground : Nat → Bool) (k : Nat) (state : Overlay × Bytes n) : Prop where
  /-- A column that is replaced has the colour of its topmost sprite. -/
  changed : ∀ x : Fin n, x.val < k → ∀ colour, r.Replaces left right foreground x.val colour →
    state.2.get x = colour
  /-- Every other column is as it was. -/
  kept : ∀ x : Fin n, x.val ∉ r.replaced left right foreground k →
    state.2.get x = pixels.get x
  /-- The columns drawn in are those from the first that was replaced to the last. -/
  drawn : Overlay.Spans state.1.drawn (r.replaced left right foreground k)
  /-- Sprites touch where there are two, in the window or not. -/
  sprites : members state.1.spriteCollision =
    {x ∈ Finset.range k | 2 ≤ (r.opaqueAt x).card}.biUnion r.opaqueAt
  /-- They touch the foreground where there is some, in the window or not. -/
  background : members state.1.backgroundCollision =
    {x ∈ Finset.range k | foreground x}.biUnion r.opaqueAt

theorem replaced_succ_of_replaces {colour : UInt8}
    (replaces : r.Replaces left right foreground k colour) :
    r.replaced left right foreground (k + 1) = insert k (r.replaced left right foreground k) := by
  ext x
  constructor
  · rintro ⟨hx, there⟩
    by_cases here : x = k
    · exact .inl here
    · exact .inr ⟨by omega, there⟩
  · rintro (rfl | ⟨hx, there⟩)
    · exact ⟨Nat.lt_succ_self _, colour, replaces⟩
    · exact ⟨by omega, there⟩

theorem replaced_succ_of_not_replaces
    (stays : ∀ colour, ¬r.Replaces left right foreground k colour) :
    r.replaced left right foreground (k + 1) = r.replaced left right foreground k := by
  ext x
  constructor
  · rintro ⟨hx, colour, there⟩
    have : x ≠ k := fun here => stays colour (here ▸ there)
    exact ⟨by omega, colour, there⟩
  · rintro ⟨hx, there⟩
    exact ⟨by omega, there⟩

/-- A union over the columns before the next. -/
theorem biUnion_range_succ (p : Nat → Prop) [DecidablePred p] :
    {x ∈ Finset.range (k + 1) | p x}.biUnion r.opaqueAt =
      {x ∈ Finset.range k | p x}.biUnion r.opaqueAt ∪ if p k then r.opaqueAt k else ∅ := by
  rw [Finset.range_add_one, Finset.filter_insert]
  split
  · rw [Finset.biUnion_insert, Finset.union_comm]
  · exact (Finset.union_empty _).symm

/-- One column more. -/
theorem Composed.overlayColumn (hk : k < n) (h : r.Shows k 0 columns[k])
    {state : Overlay × Bytes n} (before : r.Composed pixels left right foreground k state) :
    r.Composed pixels left right foreground (k + 1)
      (overlayColumn columns left right foreground k state) := by
  obtain ⟨laid, line⟩ := state
  have sprites := laid.members_spriteCollision_touch columns[k].present (foreground k)
  have background := laid.members_backgroundCollision_touch columns[k].present (foreground k)
  rw [h.members_present, before.sprites, ← biUnion_range_succ] at sprites
  rw [h.members_present, before.background, ← biUnion_range_succ] at background
  by_cases replaces : ∃ colour, r.Replaces left right foreground k colour
  · obtain ⟨colour, replaces⟩ := replaces
    have step := overlayColumn_of_replaces laid line hk h replaces
    have grown := replaced_succ_of_replaces replaces
    rw [step]
    refine ⟨fun x hx colour' other => ?_, fun x hx => ?_, ?_, sprites, background⟩
    · by_cases here : x.val = k
      · subst here
        rw [← step, overlayColumn_of_replaces laid line hk h other]
        exact line.get_set_self x colour'
      · have elsewhere : (⟨k, hk⟩ : Fin n) ≠ x := fun same => here (congrArg Fin.val same).symm
        show (line.set ⟨k, hk⟩ colour).get x = colour'
        rw [Bytes.get_set_ne _ _ elsewhere]
        exact before.changed x (by omega) colour' other
    · rw [grown, Set.mem_insert_iff, not_or] at hx
      have elsewhere : (⟨k, hk⟩ : Fin n) ≠ x := fun same => hx.1 (congrArg Fin.val same).symm
      show (line.set ⟨k, hk⟩ colour).get x = pixels.get x
      rw [Bytes.get_set_ne _ _ elsewhere]
      exact before.kept x hx.2
    · rw [grown]
      exact Overlay.Spans.draw before.drawn fun y hy => hy.1
  · have stays : ∀ colour, ¬r.Replaces left right foreground k colour := not_exists.mp replaces
    have same := replaced_succ_of_not_replaces stays
    rw [overlayColumn_of_not_replaces laid line hk h stays]
    refine ⟨fun x hx colour' other => ?_, fun x hx => ?_, ?_, sprites, background⟩
    · have : x.val ≠ k := fun here => stays colour' (here ▸ other)
      exact before.changed x (by omega) colour' other
    · exact before.kept x (same ▸ hx)
    · rw [same]
      exact before.drawn

theorem Composed.start (r : SpriteRow) (pixels : Bytes n) (left right : Nat)
    (foreground : Nat → Bool) :
    r.Composed pixels left right foreground 0 (⟨none, 0, 0⟩, pixels) where
  changed x hx := absurd hx (Nat.not_lt_zero _)
  kept _ _ := rfl
  drawn := by simp [Overlay.Spans, replaced]
  sprites := (members_eq_empty 0).mpr rfl
  background := (members_eq_empty 0).mpr rfl

/-- The sprites of a line, laid over any pixels in any window: each column alone decides whether it
is replaced, and by what, and which sprites touch there. `foreground` tells the columns whose flag
is set, wherever the flags begin. -/
theorem overlay_composed (r : SpriteRow) (pixels : Bytes n) (left right : Nat)
    (foreground : Nat → Bool) :
    r.Composed pixels left right foreground n (r.overlay pixels left right foreground) := by
  have upTo : ∀ k ≤ n, r.Composed pixels left right foreground k
      (Nat.fold k (fun x _ state => overlayColumn (r.columns n) left right foreground x state)
        (⟨none, 0, 0⟩, pixels)) := by
    intro k small
    induction k with
    | zero => exact .start r pixels left right foreground
    | succ k ih =>
      rw [Nat.fold_succ]
      exact (ih (by omega)).overlayColumn small (r.columns_shows small)
  exact upTo n (Nat.le_refl n)

end SpriteRow

end C64.Vic
