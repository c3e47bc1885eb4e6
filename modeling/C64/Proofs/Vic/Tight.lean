import C64.Proofs.Raster.Tight
import C64.Proofs.Vic.Redrawing

/-!
# Spans that are tight

However many runs a line is filled in, they follow one another from the left border to the right
one (`renderAs_swept`). A line is checked if it was rendered under the same setting before
(`LastSetting.tells`), and then its span is the smallest that covers what changed
(`renderLine_tight`).
-/

namespace C64.Vic

open Raster

variable {v v' : Vic} {memory : VideoMemory} {line : Nat} {s : LineSetting} {stale : Bool}
  {l l' : Line} {r : Rendered}

/-! ## The fills of a line -/

theorem fillWindow_swept {sprites : SpriteRow} {run : Nat → UInt8} {foreground : Nat → Bool}
    {old pixels pixels' : Bytes width} {laid : Overlay} {d e : Damage}
    (h : Swept stale old s.left pixels d)
    (fill : fillWindow s sprites stale run foreground pixels = .ok (laid, pixels', e)) :
    Swept stale old s.right pixels' (d.merge e) := by
  unfold fillWindow at fill
  simp only [] at fill
  generalize overlaid :
    sprites.overlay (placeRun run) s.left s.right (placeForeground foreground) = out at fill
  split at fill
  · next first stop drawn =>
    rw [← overlaid] at drawn
    obtain ⟨left, order, right⟩ := SpriteRow.drawn_bounds drawn
    obtain ⟨⟨p1, d1⟩, fill1, fill⟩ := bind_eq_ok.mp fill
    obtain ⟨⟨p2, d2⟩, fill2, fill⟩ := bind_eq_ok.mp fill
    obtain ⟨⟨p3, d3⟩, fill3, fill⟩ := bind_eq_ok.mp fill
    obtain ⟨-, rest⟩ := Prod.mk.inj (Except.ok.inj fill)
    obtain ⟨rfl, rfl⟩ := Prod.mk.inj rest
    rw [← Damage.merge_assoc, ← Damage.merge_assoc]
    exact ((h.fillFrom left fill1).fillFrom (Nat.le_of_lt order) fill2).fillFrom right fill3
  · obtain ⟨⟨p1, d1⟩, fill1, fill⟩ := bind_eq_ok.mp fill
    obtain ⟨-, rest⟩ := Prod.mk.inj (Except.ok.inj fill)
    obtain ⟨rfl, rfl⟩ := Prod.mk.inj rest
    exact h.fillFrom s.left_le_right fill1

/-- The border to the right of the window completes the line. -/
theorem finishWindow_swept (cells : Line) {old window : Bytes width} {d : Damage}
    {laid : Option Overlay} (h : Swept stale old s.right window d)
    (run : (do
      let (pixels, rightDamage) ← fillConst window s.right width stale s.border
      return ⟨{ cells with pixels }, d.merge rightDamage, laid⟩) = Except.ok r) :
    Swept stale old width r.line.pixels r.damage := by
  obtain ⟨⟨pixels, rightDamage⟩, fill, hret⟩ := bind_eq_ok.mp run
  cases hret
  exact h.fillWith s.right_le_width fill

theorem renderWindow_swept {sprites : SpriteRow}
    (h : renderWindow v memory s sprites stale l = .ok r) :
    Swept stale l.pixels width r.line.pixels r.damage := by
  unfold renderWindow at h
  obtain ⟨⟨left, leftDamage⟩, fill, h⟩ := bind_eq_ok.mp h
  obtain ⟨⟨spriteBytes, spriteDamage⟩, -, h⟩ := bind_eq_ok.mp h
  have border := (Swept.start stale l.pixels).fillWith (Nat.zero_le s.left) fill
  rw [Damage.none_merge] at border
  simp only [] at h
  split at h
  · obtain ⟨⟨changed, cells⟩, -, h⟩ := bind_eq_ok.mp h
    simp only [pure, Except.pure, ok_bind] at h
    split at h
    · next kept =>
      -- The window is left alone only if it is compared.
      obtain rfl : stale = false := by
        simp only [Bool.not_eq_true', Bool.or_eq_false_iff] at kept
        exact kept.2
      exact finishWindow_swept cells (border.skip s.left_le_right) h
    · obtain ⟨⟨laid, window, windowDamage⟩, fill, h⟩ := bind_eq_ok.mp h
      exact finishWindow_swept cells (fillWindow_swept border fill) h
  · simp only [pure, Except.pure, ok_bind] at h
    obtain ⟨⟨laid, window, windowDamage⟩, fill, h⟩ := bind_eq_ok.mp h
    exact finishWindow_swept { l with sprites := spriteBytes } (fillWindow_swept border fill) h

theorem renderAs_swept (h : v.renderAs memory line l = .ok r) :
    Swept (isStale l (v.lineSetting line)) l.pixels width r.line.pixels r.damage := by
  unfold renderAs at h
  simp only [] at h
  split at h
  · exact renderWindow_swept h
  · obtain ⟨⟨pixels, damage⟩, fill, hret⟩ := bind_eq_ok.mp h
    cases hret
    have whole := (Swept.start _ l.pixels).fillWith (Nat.zero_le width) fill
    rwa [Damage.none_merge] at whole

/-! ## What a line was rendered under last -/

/-- The setting that a raster line was rendered under last, none if it was not rendered since
power-on or since every line was asked for anew. -/
inductive LastSetting (line : Nat) : Vic → Option LineSetting → Prop where
  | new (standard : VideoStandard) : LastSetting line (new standard) none
  | reset {v : Vic} {last : Option LineSetting} : LastSetting line v last →
    LastSetting line v.reset none
  | invalidate {v : Vic} {last : Option LineSetting} : LastSetting line v last →
    LastSetting line v.invalidate none
  | read {v : Vic} {last : Option LineSetting} (r : UInt8) : LastSetting line v last →
    LastSetting line (v.read r).2 last
  | write {v : Vic} {last : Option LineSetting} (r b : UInt8) : LastSetting line v last →
    LastSetting line (v.write r b) last
  | renderLine {v v' : Vic} {last : Option LineSetting} {memory : VideoMemory} {rendered : Nat}
    {damage : Damage} : LastSetting line v last → v.renderLine memory rendered = .ok (damage, v') →
    LastSetting line v' (if rendered = line then some (v.lineSetting line) else last)
  | endOfLine {v v' : Vic} {last : Option LineSetting} {memory : VideoMemory} {ended : Bool} :
    LastSetting line v last → v.endOfLine memory = .ok (ended, v') →
    LastSetting line v'
      (if v.rasterLine = line then some ((v.beginLine memory).lineSetting line) else last)
  | present {v v' : Vic} {last : Option LineSetting} {σ : Type} [FrameSink σ] {sink sink' : σ}
    {status : FrameStatus} : LastSetting line v last → v.present sink = .ok (status, v', sink') →
    LastSetting line v' last

variable {last : Option LineSetting}

theorem LastSetting.reachable (h : LastSetting line v last) : Reachable v := by
  induction h with
  | new standard => exact .new standard
  | reset _ ih => exact .reset ih
  | invalidate _ ih => exact .invalidate ih
  | read r _ ih => exact .read r ih
  | write r b _ ih => exact .write r b ih
  | renderLine _ run ih => exact .renderLine ih run
  | endOfLine _ run ih => exact .endOfLine ih run
  | present _ run ih => exact .present ih run

theorem Reachable.lastSetting (h : Reachable v) (line : Nat) : ∃ last, LastSetting line v last := by
  induction h with
  | new standard => exact ⟨_, .new standard⟩
  | reset _ ih => exact ih.elim fun _ before => ⟨_, .reset before⟩
  | invalidate _ ih => exact ih.elim fun _ before => ⟨_, .invalidate before⟩
  | read r _ ih => exact ih.elim fun _ before => ⟨_, .read r before⟩
  | write r b _ ih => exact ih.elim fun _ before => ⟨_, .write r b before⟩
  | renderLine _ run ih => exact ih.elim fun _ before => ⟨_, .renderLine before run⟩
  | endOfLine _ run ih => exact ih.elim fun _ before => ⟨_, .endOfLine before run⟩
  | present _ run ih => exact ih.elim fun _ before => ⟨_, .present before run⟩

/-- What is kept with a line tells that it was rendered, and under which setting. -/
structure Notes (l : Line) (s : LineSetting) : Prop where
  never : l.neverRendered = false
  mode : l.mode = s.modeByte
  xScroll : l.xScroll = s.xScroll
  border : l.border = s.border
  background : l.background = s.background
  displayed : l.displayed = s.graphics

theorem Notes.noteSetting (s : LineSetting) (r : Rendered) : Notes (noteSetting s r) s :=
  ⟨rfl, rfl, rfl, rfl, rfl, rfl⟩

/-- A line is stale under every other setting. -/
theorem Notes.isStale_iff (h : Notes l s) (s' : LineSetting) : isStale l s' = true ↔ s ≠ s' := by
  have fresh : isStale l s' = false ↔ s = s' := by
    unfold isStale
    simp only [Bool.or_eq_false_iff, bne_eq_false_iff_eq, h.never, h.mode, h.xScroll, h.border,
      h.background, h.displayed, true_and]
    constructor
    · rintro ⟨⟨⟨⟨mode, xScroll⟩, border⟩, background⟩, graphics⟩
      obtain ⟨mode, wide, inWindow⟩ := modeByte_injective mode
      cases s
      cases s'
      simp only [LineSetting.mk.injEq]
      exact ⟨mode, xScroll, border, background, inWindow, wide, graphics⟩
    · rintro rfl
      exact ⟨⟨⟨⟨rfl, rfl⟩, rfl⟩, rfl⟩, rfl⟩
  rw [← Bool.not_eq_false]
  exact not_congr fresh

/-- What is kept with a line tells what it was rendered under last. -/
def Tells (l : Line) : Option LineSetting → Prop
  | none => l.neverRendered = true
  | some s => Notes l s

theorem Tells.isStale_iff (h : Tells l last) (s : LineSetting) :
    isStale l s = true ↔ last ≠ some s := by
  cases last with
  | none => exact iff_of_true (isStale_of_neverRendered h s) nofun
  | some kept => exact (Notes.isStale_iff h s).trans (by simp)

theorem Notes.withDamage (h : Notes l s) (damage : Damage) : Notes { l with damage } s :=
  ⟨h.never, h.mode, h.xScroll, h.border, h.background, h.displayed⟩

theorem Tells.withDamage (h : Tells l last) (damage : Damage) : Tells { l with damage } last := by
  cases last with
  | none => exact h
  | some s => exact Notes.withDamage h damage

theorem line?_map (f : Line → Line) {w : Vic} (standard : w.standard = v.standard)
    (cache : w.cache = ⟨v.cache.lines.map f⟩) (line : Nat) :
    w.line? line = (v.line? line).map f := by
  unfold line?
  rw [standard, cache]
  cases v.standard.row? line with
  | none => rfl
  | some index => exact Array.getElem?_map

theorem present_eq {σ : Type} [FrameSink σ] {sink sink' : σ} {status : FrameStatus}
    (h : v.present sink = .ok (status, v', sink')) :
    v' = { v with cache := if status = .presented then v.cache.clearDamage else v.cache } := by
  obtain ⟨_, -, hret⟩ := bind_eq_ok.mp h
  cases hret
  split <;> rfl

/-- A frame that was taken leaves the lines without damage, and one that was dropped as they are. -/
theorem line?_present {σ : Type} [FrameSink σ] {sink sink' : σ} {status : FrameStatus}
    (h : v.present sink = .ok (status, v', sink')) (line : Nat) :
    v'.line? line = (v.line? line).map fun l =>
      { l with damage := if status = .presented then none else l.damage } := by
  rw [present_eq h]
  by_cases taken : status = .presented
  · simp only [taken, if_true]
    exact line?_map (v := v) (w := { v with cache := v.cache.clearDamage })
      (fun l => { l with damage := none }) rfl rfl line
  · simp only [taken, if_false]
    exact Option.map_id'.symm

theorem Sound.renderLine_notes (h : Sound v) {damage : Damage}
    (hrun : v.renderLine memory line = .ok (damage, v')) :
    ∀ l ∈ v'.line? line, Notes l (v.lineSetting line) := by
  cases hindex : v.standard.row? line with
  | none =>
    rw [renderLine_unkept memory hindex] at hrun
    cases hrun
    obtain ⟨standard, cache⟩ := v.latchCollisions_frame (v.touching memory line)
    rw [line?_congr standard cache]
    simp [line?, hindex]
  | some index =>
    have hlt := h.place_lt hindex
    obtain ⟨r, -, -, standard, stored⟩ :=
      renderLine_stores hindex (Array.getElem?_eq_getElem hlt) hrun
    unfold line?
    rw [standard, stored, hindex, Option.bind_some, Array.getElem?_setIfInBounds_self_of_lt hlt]
    rintro _ ⟨⟩
    exact .noteSetting _ r

theorem Sound.endOfLine_notes (h : Sound v) {ended : Bool}
    (hrun : v.endOfLine memory = .ok (ended, v')) :
    ∀ l ∈ v'.line? v.rasterLine, Notes l ((v.beginLine memory).lineSetting v.rasterLine) := by
  obtain ⟨⟨damage, rendered⟩, hrender, hret⟩ := bind_eq_ok.mp hrun
  obtain rfl : rendered.advanceRow.advanceLine.2 = v' := congrArg Prod.snd (Except.ok.inj hret)
  obtain ⟨standardRow, -, cacheRow⟩ := rendered.advanceRow_frame
  obtain ⟨standardLine, cacheLine⟩ := rendered.advanceRow.advanceLine_frame
  rw [line?_congr (standardLine.trans standardRow) (cacheLine.trans cacheRow)]
  exact (h.beginLine memory).renderLine_notes hrender

theorem LastSetting.tells (h : LastSetting line v last) : ∀ l ∈ v.line? line, Tells l last := by
  induction h with
  | new standard =>
    intro l hl
    obtain ⟨index, -, hget⟩ := Option.bind_eq_some_iff.mp hl
    obtain ⟨_, rfl⟩ := Array.getElem?_eq_some_iff.mp hget
    simp [Vic.new, Cache.blank, CacheLine.blank, Tells]
  | @reset v _ _ ih =>
    intro l hl
    rw [line?_map (v := v) (w := v.reset) (fun l => { l with neverRendered := true }) rfl rfl] at hl
    obtain ⟨_, -, rfl⟩ := Option.map_eq_some_iff.mp hl
    rfl
  | @invalidate v _ _ ih =>
    intro l hl
    rw [line?_map (v := v) (w := v.invalidate) (fun l => { l with neverRendered := true }) rfl rfl]
      at hl
    obtain ⟨_, -, rfl⟩ := Option.map_eq_some_iff.mp hl
    rfl
  | @read v _ r _ ih =>
    have kept : (v.read r).2.line? line = v.line? line := by
      refine line?_congr ?_ ?_ line <;> (unfold Vic.read; simp only []; split <;> rfl)
    rwa [kept]
  | @write v _ r b _ ih =>
    have kept : (v.write r b).line? line = v.line? line := by
      refine line?_congr ?_ ?_ line <;> (unfold Vic.write; simp only []; split <;> rfl)
    rwa [kept]
  | @renderLine v _ _ _ rendered _ before run ih =>
    by_cases own : rendered = line
    · subst own
      rw [if_pos rfl]
      exact before.reachable.sound.renderLine_notes run
    · rw [if_neg own, (before.reachable.sound.renderLine_line? run).1 line (Ne.symm own)]
      exact ih
  | @endOfLine v _ _ _ _ before run ih =>
    by_cases own : v.rasterLine = line
    · subst own
      rw [if_pos rfl]
      exact before.reachable.sound.endOfLine_notes run
    · rw [if_neg own, (before.reachable.sound.endOfLine_line? run).1 line (Ne.symm own)]
      exact ih
  | present _ run ih =>
    intro l hl
    rw [line?_present run] at hl
    obtain ⟨old, hold, rfl⟩ := Option.map_eq_some_iff.mp hl
    exact (ih old hold).withDamage _

/-! ## The span of a line -/

theorem Sound.isSome_line? (h : Sound v) (line : Nat) :
    (v.line? line).isSome = (v.standard.row? line).isSome := by
  rw [← h.isSome_pixels?, pixels?_eq, Option.isSome_map]

/-- Rendering a line that is kept answers the columns it changed and adds them to the damage. -/
theorem Sound.renderLine_swept (h : Sound v) {span : Damage}
    (hrun : v.renderLine memory line = .ok (span, v')) :
    ∀ l' ∈ v'.line? line, ∃ l ∈ v.line? line, l'.damage = l.damage.merge span ∧
      Swept (isStale l (v.lineSetting line)) l.pixels width l'.pixels span := by
  cases hindex : v.standard.row? line with
  | none =>
    rw [renderLine_unkept memory hindex] at hrun
    obtain ⟨-, rfl⟩ := Prod.mk.inj (Except.ok.inj hrun)
    obtain ⟨standard, cache⟩ := v.latchCollisions_frame (v.touching memory line)
    rw [line?_congr standard cache]
    simp [line?, hindex]
  | some index =>
    have hlt := h.place_lt hindex
    have hget : v.cache.lines[index]? = some v.cache.lines[index] := Array.getElem?_eq_getElem hlt
    obtain ⟨r, hr, rfl, standard, stored⟩ := renderLine_stores hindex hget hrun
    unfold line?
    rw [standard, stored, hindex, Option.bind_some, Option.bind_some, hget,
      Array.getElem?_setIfInBounds_self_of_lt hlt]
    rintro _ ⟨⟩
    exact ⟨_, rfl, congrArg (Damage.merge · r.damage) (renderAs_records hr).damage,
      renderAs_swept hr⟩

theorem Sound.endOfLine_swept (h : Sound v) {ended : Bool}
    (hrun : v.endOfLine memory = .ok (ended, v')) :
    ∀ l' ∈ v'.line? v.rasterLine, ∃ l ∈ v.line? v.rasterLine, ∃ span,
      l'.damage = l.damage.merge span ∧
        Swept (isStale l ((v.beginLine memory).lineSetting v.rasterLine)) l.pixels width l'.pixels
          span := by
  obtain ⟨⟨span, rendered⟩, hrender, hret⟩ := bind_eq_ok.mp hrun
  obtain rfl : rendered.advanceRow.advanceLine.2 = v' := congrArg Prod.snd (Except.ok.inj hret)
  obtain ⟨standardRow, -, cacheRow⟩ := rendered.advanceRow_frame
  obtain ⟨standardLine, cacheLine⟩ := rendered.advanceRow.advanceLine_frame
  obtain ⟨standard, cache⟩ := v.beginLine_frame memory
  rw [line?_congr (standardLine.trans standardRow) (cacheLine.trans cacheRow),
    ← line?_congr standard cache]
  intro l' hl'
  obtain ⟨l, hl, swept⟩ := (h.beginLine memory).renderLine_swept hrender l' hl'
  exact ⟨l, hl, span, swept⟩

/-- Rendering a line changes nothing of how this line and others are to be shown. -/
theorem Sound.renderLine_shows (h : Sound v) {damage : Damage}
    (hrun : v.renderLine memory line = .ok (damage, v')) (memory' : VideoMemory) (other : Nat) :
    v'.standard = v.standard ∧ v'.lineSetting other = v.lineSetting other ∧
      v'.picture memory' other = v.picture memory' other := by
  obtain ⟨_, bitmap, cache, run, -⟩ := h.renderLine memory line
  obtain ⟨_, _, _, latched⟩ := { v with bitmap, cache }.latchCollisions_eq (v.touching memory line)
  rw [run, latched] at hrun
  obtain ⟨-, rfl⟩ := Prod.mk.inj (Except.ok.inj hrun)
  exact ⟨rfl, rfl, rfl⟩

/-- Rendering a visible line changes no pixel outside the span it answers, and of no other line.
Under another setting than last, or for the first time, the span is the whole line; else it goes
from the first column that changed to the last. It is joined to what the line had. -/
theorem renderLine_tight (h : Reachable v) (memory : VideoMemory)
    (visible : (v.standard.row? line).isSome = true) :
    (∃ last, LastSetting line v last) ∧
      ∃ l l' span v', v.line? line = some l ∧ v.renderLine memory line = .ok (span, v') ∧
        v'.line? line = some l' ∧ (∀ other, other ≠ line → v'.line? other = v.line? other) ∧
        (∀ x, l'.pixels.byteAt x ≠ l.pixels.byteAt x → ∃ s ∈ span, s.contains x = true) ∧
        (∀ last, LastSetting line v last →
          if last = some (v.lineSetting line) then
            span.IsHull fun x => l'.pixels.byteAt x ≠ l.pixels.byteAt x
          else span = some ⟨0, 415, by decide⟩) ∧
        l'.damage = l.damage.merge span := by
  obtain ⟨span, bitmap, cache, run, -⟩ := h.sound.renderLine memory line
  have kept := (Reachable.renderLine h run).sound.isSome_line? line
  rw [(h.sound.renderLine_shows run memory line).1, visible] at kept
  obtain ⟨l', hl'⟩ := Option.isSome_iff_exists.mp kept
  obtain ⟨l, hl, damage, swept⟩ := h.sound.renderLine_swept run l' hl'
  refine ⟨h.lastSetting line, l, l', span, _, hl, run, hl', (h.sound.renderLine_line? run).1,
    fun x change => swept.covers change, fun last told => ?_, damage⟩
  have stale := (told.tells l hl).isStale_iff (v.lineSetting line)
  have records := swept.damage
  split
  · next same => rwa [if_neg fun yes => stale.mp yes same] at records
  · next other =>
    rw [if_pos (stale.mpr other)] at records
    exact records

/-- A line of border is damaged as a whole at first, and not at all when it is rendered again. -/
theorem renderLine_tight_again : ((new .pal).standard.row? 51).isSome = true ∧
    ∃ v₁ v₂, (new .pal).renderLine darkMemory 51 = .ok (some ⟨0, 415, by decide⟩, v₁) ∧
      v₁.renderLine darkMemory 51 = .ok (none, v₂) := by
  have visible : ((new .pal).standard.row? 51).isSome = true := by decide
  obtain ⟨-, l, l₁, span, v₁, -, run, hl₁, -, -, first, -⟩ :=
    renderLine_tight (.new .pal) darkMemory visible
  obtain ⟨standard, setting, picture⟩ := (Sound.new .pal).renderLine_shows run darkMemory 51
  have visible₁ : (v₁.standard.row? 51).isSome = true := standard ▸ visible
  have told := LastSetting.renderLine (.new .pal : LastSetting 51 _ _) run
  rw [if_pos rfl] at told
  have whole := first _ (.new .pal)
  rw [if_neg nofun] at whole
  subst whole
  obtain ⟨-, l', l₂, span, v₂, hl', run₂, hl₂, -, -, second, -⟩ :=
    renderLine_tight told.reachable darkMemory visible₁
  obtain rfl : l' = l₁ := Option.some.inj (hl'.symm.trans hl₁)
  have pixels := ((Sound.new .pal).renderLine_line? run).2 l' hl₁
  have pixels₂ := (told.reachable.sound.renderLine_line? run₂).2 l₂ hl₂
  have same : l₂.pixels = l'.pixels := pixels₂.1.trans (picture.trans pixels.1.symm)
  have hull := second _ told
  rw [if_pos (congrArg some setting.symm), same] at hull
  obtain rfl : none = span := (hull.eq_none fun x change => change rfl).symm
  exact ⟨visible, v₁, v₂, run, run₂⟩

end C64.Vic
