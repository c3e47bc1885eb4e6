import C64.Proofs.Vic.Damage
import C64.Proofs.Vic.Lines

/-!
# Lines that are rendered as a whole

A line that was never rendered, or whose rendering was asked for anew, is damaged from the first
column to the last when it is rendered (`renderAs_covers`). Its window need not be filled column by
column for that: the borders at both sides are, and damage is one span. The end of a raster line
renders that line and leaves every other as it is (`Sound.endOfLine_lines`).
-/

namespace C64.Raster

variable {n : Nat}

/-- Damage has no holes. -/
theorem Damage.Covers.between {d : Damage} {a b x : Nat} (ha : d.Covers a) (hb : d.Covers b)
    (hax : a ≤ x) (hxb : x ≤ b) : d.Covers x := by
  obtain ⟨s, rfl, hsa⟩ := ha
  obtain ⟨t, ht, hsb⟩ := hb
  obtain rfl := Option.some.inj ht
  rw [Span.contains_iff] at hsa hsb
  exact ⟨s, rfl, (s.contains_iff x).mpr (by omega)⟩

theorem fillConst_covers {line line' : Bytes n} {start stop : Nat} {v : UInt8} {damage : Damage}
    (h : fillConst line start stop true v = .ok (line', damage)) {x : Nat} (hstart : start ≤ x)
    (hstop : x < stop) : damage.Covers x := by
  unfold fillConst fillWith at h
  rw [if_neg (by omega)] at h
  split at h
  · exact absurd h (by simp)
  · obtain ⟨-, rfl⟩ := Prod.mk.inj (Except.ok.inj h)
    unfold Damage.whole
    simp only [if_true]
    rw [dif_pos (by omega)]
    refine ⟨_, rfl, ?_⟩
    rw [Span.contains_iff]
    simp only []
    omega

end C64.Raster

namespace C64.Vic

open Raster

variable {v v' : Vic} {memory : VideoMemory} {s : LineSetting} {l l' : Line} {r : Rendered}

/-! ## One line -/

theorem isStale_of_neverRendered (h : l.neverRendered = true) (s : LineSetting) :
    isStale l s = true := by
  simp [isStale, h]

theorem LineSetting.borders (s : LineSetting) : 0 < s.left ∧ s.right < width := by
  unfold left right
  split <;> decide

/-- Both borders of a window are damaged, so all columns are. -/
theorem finishWindow_covers (cells : Line) {window : Bytes width}
    {leftDamage windowDamage : Damage} {laid : Option Overlay} (first : leftDamage.Covers 0)
    (h : (do
      let (pixels, rightDamage) ← fillConst window s.right width true s.border
      return ⟨{ cells with pixels }, (leftDamage.merge windowDamage).merge rightDamage, laid⟩) =
        Except.ok r) {x : Nat} (hx : x < width) : r.damage.Covers x := by
  have last : s.right ≤ width - 1 := by
    have := s.borders
    omega
  obtain ⟨⟨pixels, rightDamage⟩, hright, h⟩ := bind_eq_ok.mp h
  cases h
  have far := fillConst_covers hright last (by decide)
  exact ((first.merge_left windowDamage).merge_left rightDamage).between (far.merge_right _)
    (Nat.zero_le x) (by omega)

theorem renderWindow_covers {sprites : SpriteRow}
    (h : renderWindow v memory s sprites true l = .ok r) {x : Nat} (hx : x < width) :
    r.damage.Covers x := by
  unfold renderWindow at h
  obtain ⟨⟨left, leftDamage⟩, hleft, h⟩ := bind_eq_ok.mp h
  obtain ⟨⟨spriteBytes, spriteDamage⟩, -, h⟩ := bind_eq_ok.mp h
  have first := fillConst_covers hleft (Nat.le_refl 0) s.borders.1
  simp only [] at h
  split at h
  · obtain ⟨⟨changed, cells⟩, -, h⟩ := bind_eq_ok.mp h
    simp only [pure, Except.pure, ok_bind] at h
    split at h
    · exact finishWindow_covers cells first h hx
    · obtain ⟨⟨laid, window, windowDamage⟩, -, h⟩ := bind_eq_ok.mp h
      exact finishWindow_covers cells first h hx
  · simp only [pure, Except.pure, ok_bind] at h
    obtain ⟨⟨laid, window, windowDamage⟩, -, h⟩ := bind_eq_ok.mp h
    exact finishWindow_covers { l with sprites := spriteBytes } first h hx

/-- A line that is to be rendered as a whole is damaged all over. -/
theorem renderAs_covers {line : Nat} (h : v.renderAs memory line l = .ok r)
    (never : l.neverRendered = true) {x : Nat} (hx : x < width) : r.damage.Covers x := by
  unfold renderAs at h
  simp only [isStale_of_neverRendered never] at h
  split at h
  · exact renderWindow_covers h hx
  · obtain ⟨⟨pixels, damage⟩, hfill, hret⟩ := bind_eq_ok.mp h
    cases hret
    exact fillConst_covers hfill (Nat.zero_le x) hx

/-! ## The end of a line -/

/-- A line behind its rendering: the damage covers all that changed, and everything if the line was
to be rendered as a whole. -/
structure Rerendered (l l' : Line) : Prop where
  never : l'.neverRendered = false
  damage : ∃ d, l'.damage = l.damage.merge d ∧ d.Records l.pixels.byteAt l'.pixels ∧
    (l.neverRendered = true → ∀ x < width, d.Covers x)

theorem Rerendered.noteSetting {line : Nat} (h : v.renderAs memory line l = .ok r)
    (s : LineSetting) : Rerendered l (noteSetting s r) := by
  have records := renderAs_records h
  refine ⟨rfl, r.damage, ?_, records.pixels, fun never x hx => renderAs_covers h never hx⟩
  exact congrArg (Damage.merge · r.damage) records.damage

/-- The end of a raster line renders that line, if it is kept, and no other. -/
theorem Sound.endOfLine_lines (h : Sound v) {ended : Bool}
    (hrun : v.endOfLine memory = .ok (ended, v')) {y : Nat} (hl : v'.cache.lines[y]? = some l') :
    ∃ l, v.cache.lines[y]? = some l ∧
      (v.standard.row? v.rasterLine = some y ∧ Rerendered l l' ∨
        v.standard.row? v.rasterLine ≠ some y ∧ l' = l) := by
  obtain ⟨⟨damage, rendered⟩, hrender, hret⟩ := bind_eq_ok.mp hrun
  obtain rfl : rendered.advanceRow.advanceLine.2 = v' := congrArg Prod.snd (Except.ok.inj hret)
  obtain ⟨-, -, cacheRow⟩ := rendered.advanceRow_frame
  -- Only the rendering touches the lines, and it stores into the row of the line that has ended.
  rw [rendered.advanceRow.advanceLine_frame.2, cacheRow] at hl
  obtain ⟨standard, cache⟩ := v.beginLine_frame memory
  cases hindex : v.standard.row? v.rasterLine with
  | none =>
    rw [renderLine_unkept memory (standard ▸ hindex)] at hrender
    obtain ⟨-, rfl⟩ := Prod.mk.inj (Except.ok.inj hrender)
    rw [(latchCollisions_frame _ _).2, cache] at hl
    exact ⟨l', hl, .inr ⟨by simp, rfl⟩⟩
  | some index =>
    have kept := h.place_lt hindex
    have hget : (v.beginLine memory).cache.lines[index]? = some v.cache.lines[index] := by
      rw [cache]
      exact Array.getElem?_eq_getElem kept
    obtain ⟨r, hr, -, -, stored⟩ := renderLine_stores (standard ▸ hindex) hget hrender
    rw [stored, cache, Array.getElem?_setIfInBounds] at hl
    by_cases here : index = y
    · subst here
      rw [if_pos rfl, if_pos kept] at hl
      obtain rfl := Option.some.inj hl
      exact ⟨_, Array.getElem?_eq_getElem kept, .inl ⟨rfl, .noteSetting hr _⟩⟩
    · rw [if_neg here] at hl
      exact ⟨l', hl, .inr ⟨fun same => here (Option.some.inj same), rfl⟩⟩

end C64.Vic
