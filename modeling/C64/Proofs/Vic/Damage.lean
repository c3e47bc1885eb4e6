import C64.Proofs.Raster.Screen
import C64.Proofs.Vic.Cache

/-!
# Rendering and damage

Every pixel the renderer writes is covered by the damage that is kept with its line: of a fill
(`Rendered.Records`), of a line (`renderLine_stores`) and so of whatever may happen to a chip
(`Trailed.take`). A view that trails the chip's cache goes on trailing it, until a frame is
presented.
-/

namespace C64.Vic

open Raster

/-! ## Rendering records what it changes -/

/-- What was rendered records the way from the old pixels, and adds to the damage of the line. -/
structure Rendered.Records (r : Rendered) (l : Line) : Prop where
  pixels : r.damage.Records l.pixels.byteAt r.line.pixels
  damage : r.line.damage = l.damage

theorem refreshCells_frame {v : Vic} {memory : VideoMemory} {mode : DisplayMode}
    {stale changed : Bool} {l l' : Line}
    (h : refreshCells v memory mode stale l = .ok (changed, l')) :
    l'.pixels = l.pixels ∧ l'.damage = l.damage := by
  unfold refreshCells at h
  obtain ⟨⟨screen, d1⟩, -, h⟩ := bind_eq_ok.mp h
  obtain ⟨⟨colour, d2⟩, -, h⟩ := bind_eq_ok.mp h
  simp only [] at h
  split at h <;>
  · obtain ⟨⟨pattern, d3⟩, -, h⟩ := bind_eq_ok.mp h
    cases h
    exact ⟨rfl, rfl⟩

theorem fillWindow_records {s : LineSetting} {sprites : SpriteRow} {stale : Bool}
    {run : Nat → UInt8} {foreground : Nat → Bool} {pixels pixels' : Bytes width} {laid : Overlay}
    {damage : Damage}
    (h : fillWindow s sprites stale run foreground pixels = .ok (laid, pixels', damage)) :
    damage.Records pixels.byteAt pixels' := by
  unfold fillWindow at h
  simp only [] at h
  generalize sprites.overlay (placeRun run) s.left s.right (placeForeground foreground) = drawn at h
  split at h
  · obtain ⟨⟨p1, d1⟩, h1, h⟩ := bind_eq_ok.mp h
    obtain ⟨⟨p2, d2⟩, h2, h⟩ := bind_eq_ok.mp h
    obtain ⟨⟨p3, d3⟩, h3, h⟩ := bind_eq_ok.mp h
    obtain ⟨-, hrest⟩ := Prod.mk.inj (Except.ok.inj h)
    obtain ⟨rfl, rfl⟩ := Prod.mk.inj hrest
    exact ((fillFrom_records h1).trans (fillFrom_records h2)).trans (fillFrom_records h3)
  · obtain ⟨⟨p1, d1⟩, h1, h⟩ := bind_eq_ok.mp h
    obtain ⟨-, hrest⟩ := Prod.mk.inj (Except.ok.inj h)
    obtain ⟨rfl, rfl⟩ := Prod.mk.inj hrest
    exact fillFrom_records h1

theorem renderBorder_records {s : LineSetting} {stale : Bool} {l : Line} {r : Rendered}
    (h : renderBorder s stale l = .ok r) : r.Records l := by
  obtain ⟨⟨pixels, damage⟩, hfill, h⟩ := bind_eq_ok.mp h
  cases h
  exact ⟨fillWith_records hfill, rfl⟩

/-- The border to the right of a window completes the record. -/
theorem finishWindow_records (cells : Line) {l : Line} {s : LineSetting} {stale : Bool}
    {left window : Bytes width} {leftDamage windowDamage : Damage} {laid : Option Overlay}
    {r : Rendered} (hcells : cells.damage = l.damage)
    (hleft : leftDamage.Records l.pixels.byteAt left)
    (hwindow : windowDamage.Records left.byteAt window)
    (h : (do
      let (pixels, rightDamage) ← fillConst window s.right width stale s.border
      return ⟨{ cells with pixels }, (leftDamage.merge windowDamage).merge rightDamage, laid⟩) =
        Except.ok r) :
    r.Records l := by
  obtain ⟨⟨pixels, rightDamage⟩, hright, h⟩ := bind_eq_ok.mp h
  cases h
  exact ⟨(hleft.trans hwindow).trans (fillWith_records hright), hcells⟩

theorem renderWindow_records {v : Vic} {memory : VideoMemory} {s : LineSetting}
    {sprites : SpriteRow} {stale : Bool} {l : Line} {r : Rendered}
    (h : renderWindow v memory s sprites stale l = .ok r) : r.Records l := by
  unfold renderWindow at h
  obtain ⟨⟨left, leftDamage⟩, hleft, h⟩ := bind_eq_ok.mp h
  obtain ⟨⟨spriteBytes, spriteDamage⟩, -, h⟩ := bind_eq_ok.mp h
  have hleft := fillWith_records hleft
  simp only [] at h
  split at h
  · next hgraphics =>
    obtain ⟨⟨changed, cells⟩, hcells, h⟩ := bind_eq_ok.mp h
    obtain ⟨-, hdamage⟩ := refreshCells_frame hcells
    simp only [pure, Except.pure, ok_bind] at h
    split at h
    · exact finishWindow_records cells hdamage hleft (.refl left) h
    · obtain ⟨⟨laid, window, windowDamage⟩, hwindow, h⟩ := bind_eq_ok.mp h
      exact finishWindow_records cells hdamage hleft (fillWindow_records hwindow) h
  · simp only [pure, Except.pure, ok_bind] at h
    obtain ⟨⟨laid, window, windowDamage⟩, hwindow, h⟩ := bind_eq_ok.mp h
    exact finishWindow_records { l with sprites := spriteBytes } rfl hleft
      (fillWindow_records hwindow) h

theorem noteSetting_records {s : LineSetting} {l : Line} {r : Rendered} (h : r.Records l)
    {old : Nat → UInt8} (hl : l.damage.Records old l.pixels) :
    (noteSetting s r).damage.Records old (noteSetting s r).pixels := by
  show (r.line.damage.merge r.damage).Records old r.line.pixels
  rw [h.damage]
  exact hl.trans h.pixels

/-! ### The line in the cache -/

theorem latchUnseen_frame (v : Vic) (sprites : SpriteRow) :
    (v.latchUnseen sprites).standard = v.standard ∧ (v.latchUnseen sprites).cache = v.cache := by
  unfold latchUnseen
  split
  · exact ⟨rfl, rfl⟩
  · exact v.latchCollisions_frame _

/-- A line is rendered with its window or as nothing but border. -/
def renderAs (v : Vic) (memory : VideoMemory) (line : Nat) (l : Line) : Except Fault Rendered :=
  let s := v.lineSetting line
  if s.inWindow then
    renderWindow (v.prepared memory s) memory s (v.spritesOn memory line) (isStale l s) l
  else renderBorder s (isStale l s) l

theorem renderAs_records {v : Vic} {memory : VideoMemory} {line : Nat} {l : Line} {r : Rendered}
    (h : v.renderAs memory line l = .ok r) : r.Records l := by
  unfold renderAs at h
  simp only [] at h
  split at h
  · exact renderWindow_records h
  · exact renderBorder_records h

/-- A line that is rendered is kept with the damage that rendering it did. -/
theorem renderLine_stores {v v' : Vic} {memory : VideoMemory} {line index : Nat} {l : Line}
    {damage : Damage} (hindex : v.standard.row? line = some index)
    (hget : v.cache.lines[index]? = some l)
    (h : v.renderLine memory line = .ok (damage, v')) :
    ∃ r : Rendered, v.renderAs memory line l = .ok r ∧ damage = r.damage ∧
      v'.standard = v.standard ∧
      v'.cache = ⟨v.cache.lines.setIfInBounds index (noteSetting (v.lineSetting line) r)⟩ := by
  unfold renderLine at h
  simp only [hindex, hget] at h
  rw [← spritesOn, ← prepared] at h
  simp only [prepared_put] at h
  unfold renderAs
  simp only []
  -- Whether the line has a window or not, it is kept before collisions are latched, and latching
  -- leaves the cache alone.
  split at h
  all_goals
    next window =>
    obtain ⟨r, hr, h⟩ := bind_eq_ok.mp h
    obtain ⟨rfl, rfl⟩ := Prod.mk.inj (Except.ok.inj h)
    refine ⟨r, by simpa only [window, if_true, Bool.false_eq_true, if_false] using hr, rfl, ?_⟩
    cases r.laid with
    | some laid => exact latchCollisions_frame _ laid
    | none => exact latchUnseen_frame _ _

/-! ## A view that trails a chip -/

/-- A sound chip of a video standard, and a view that its cache is ahead of. -/
structure Trailed (standard : VideoStandard) (view : View) (v : Vic) : Prop where
  sound : Sound v
  standard_eq : v.standard = standard
  trails : view.Trails v.cache

section Steps

variable {standard : VideoStandard} {view : View} {v : Vic}

theorem Trailed.height (h : Trailed standard view v) :
    v.cache.height = standard.visibleLines :=
  h.standard_eq ▸ h.sound.cache.size

theorem Trailed.new (standard : VideoStandard) : Trailed standard .dark (new standard) :=
  ⟨.new standard, rfl, .blank _⟩

theorem Trailed.reset (h : Trailed standard view v) : Trailed standard view v.reset :=
  ⟨h.sound.reset, h.standard_eq, h.trails.invalidate⟩

theorem Trailed.invalidate (h : Trailed standard view v) : Trailed standard view v.invalidate :=
  ⟨h.sound.invalidate, h.standard_eq, h.trails.invalidate⟩

theorem Trailed.read (h : Trailed standard view v) (r : UInt8) :
    Trailed standard view (v.read r).2 := by
  refine ⟨h.sound.read r, ?_, ?_⟩ <;>
  · unfold Vic.read
    simp only []
    split <;> first | exact h.standard_eq | exact h.trails

theorem Trailed.write (h : Trailed standard view v) (r b : UInt8) :
    Trailed standard view (v.write r b) := by
  refine ⟨h.sound.write r b, ?_, ?_⟩ <;>
  · unfold Vic.write
    simp only []
    split <;> first | exact h.standard_eq | exact h.trails

theorem Trailed.of_renderLine (h : Trailed standard view v) {memory : VideoMemory} {line : Nat}
    {damage : Damage} {v' : Vic} (hrender : v.renderLine memory line = .ok (damage, v')) :
    v'.standard = standard ∧ view.Trails v'.cache := by
  cases hindex : v.standard.row? line with
  | none =>
    rw [renderLine_unkept memory hindex] at hrender
    obtain ⟨-, rfl⟩ := Prod.mk.inj (Except.ok.inj hrender)
    obtain ⟨hstandard, hcache⟩ := v.latchCollisions_frame (v.touching memory line)
    rw [hcache, hstandard]
    exact ⟨h.standard_eq, h.trails⟩
  | some index =>
    have hlt := h.sound.place_lt hindex
    have hget : v.cache.lines[index]? = some v.cache.lines[index] := Array.getElem?_eq_getElem hlt
    obtain ⟨r, hr, -, hstandard, hstored⟩ := renderLine_stores hindex hget hrender
    rw [hstored, hstandard]
    exact ⟨h.standard_eq,
      h.trails.set (noteSetting_records (renderAs_records hr) (h.trails index _ hget))⟩

theorem Trailed.renderLine (h : Trailed standard view v) (memory : VideoMemory) (line : Nat) :
    ∃ damage v', v.renderLine memory line = .ok (damage, v') ∧ Trailed standard view v' := by
  obtain ⟨damage, bitmap, cache, hrender, hcache, -⟩ := h.sound.renderLine memory line
  obtain ⟨hstandard, htrails⟩ := h.of_renderLine hrender
  exact ⟨damage, _, hrender, h.sound.rendered hcache bitmap _, hstandard, htrails⟩

theorem Trailed.beginLine (h : Trailed standard view v) (memory : VideoMemory) :
    Trailed standard view (v.beginLine memory) := by
  obtain ⟨hstandard, hcache⟩ := v.beginLine_frame memory
  exact ⟨h.sound.beginLine memory, hstandard.trans h.standard_eq, hcache ▸ h.trails⟩

theorem Trailed.endOfLine (h : Trailed standard view v) (memory : VideoMemory) :
    ∃ ended v', v.endOfLine memory = .ok (ended, v') ∧ Trailed standard view v' := by
  obtain ⟨damage, v₁, hrender, h₁⟩ := (h.beginLine memory).renderLine memory v.rasterLine
  obtain ⟨hstandard, -, hcache⟩ := v₁.advanceRow_frame
  obtain ⟨hstandard', hcache'⟩ := v₁.advanceRow.advanceLine_frame
  refine ⟨v₁.advanceRow.advanceLine.1, v₁.advanceRow.advanceLine.2, ?_, h₁.sound.advance, ?_, ?_⟩
  · unfold Vic.endOfLine
    rw [hrender, ok_bind]
    rfl
  · rw [hstandard', hstandard]
    exact h₁.standard_eq
  · rw [hcache', hcache]
    exact h₁.trails

end Steps

/-- What can happen to a chip between two frames that are presented. -/
inductive Turn where
  | act (action : Action)
  | reset
  /-- Every line is to be rendered as a whole. -/
  | invalidate

def take (v : Vic) : Turn → Except Fault Vic
  | .act action => return (← v.act action).2
  | .reset => .ok v.reset
  | .invalidate => .ok v.invalidate

/-- A turn succeeds, and a view trails the chip behind it as it did before. -/
theorem Trailed.take {standard : VideoStandard} {view : View} {v : Vic}
    (h : Trailed standard view v) (turn : Turn) :
    ∃ v', v.take turn = .ok v' ∧ Trailed standard view v' := by
  cases turn with
  | act action =>
    cases action with
    | read r => exact ⟨_, rfl, h.read r⟩
    | write r b => exact ⟨_, rfl, h.write r b⟩
    | endOfLine memory =>
      obtain ⟨ended, v', hend, h'⟩ := h.endOfLine memory
      refine ⟨v', ?_, h'⟩
      simp only [Vic.take, Vic.act]
      rw [hend]
      rfl
    | renderLine memory line =>
      obtain ⟨damage, v', hrender, h'⟩ := h.renderLine memory line
      refine ⟨v', ?_, h'⟩
      simp only [Vic.take, Vic.act]
      rw [hrender]
      rfl
  | reset => exact ⟨_, rfl, h.reset⟩
  | invalidate => exact ⟨_, rfl, h.invalidate⟩

/-- Behind a frame that was taken, what the cache holds needs no damage. -/
theorem Trailed.clearDamage {standard : VideoStandard} {view : View} {v : Vic}
    (h : Trailed standard view v) :
    Trailed standard v.cache.view { v with cache := v.cache.clearDamage } :=
  ⟨⟨h.sound.cache.clearDamage, h.sound.rasterLine, h.sound.row, h.sound.rc⟩, h.standard_eq,
    v.cache.view_trails_clearDamage⟩

end C64.Vic
