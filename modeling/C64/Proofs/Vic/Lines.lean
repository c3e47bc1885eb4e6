import C64.Proofs.Vic.Cache

/-!
# Line by line

The end of a raster line renders that line and no other: what is kept of any other line stays
(`Sound.endOfLine_line?`). So the pixels of a line are the picture at the time it was rendered
last, and whether a line was rendered since the cache was last given up is seen in its mark.
-/

namespace C64.Vic

open Raster

/-- What is kept of a raster line, if it is kept. -/
def line? (v : Vic) (line : Nat) : Option Line :=
  (v.standard.row? line).bind fun index => v.cache.lines[index]?

theorem pixels?_eq (v : Vic) (line : Nat) : v.pixels? line = (v.line? line).map (·.pixels) := by
  unfold pixels? line?
  cases v.standard.row? line <;> rfl

/-- Two raster lines are not kept in one place. -/
theorem row?_inj {standard : VideoStandard} {line other index : Nat}
    (h : standard.row? line = some index) (h' : standard.row? other = some index) :
    line = other := by
  unfold VideoStandard.row? at h h'
  split at h <;> split at h' <;> simp at h h'
  omega

/-- Only the place of the lines and the cache decide what is kept. -/
theorem line?_congr {v w : Vic} (standard : v.standard = w.standard) (cache : v.cache = w.cache)
    (line : Nat) : v.line? line = w.line? line := by
  unfold line?
  rw [standard, cache]

variable {v v' : Vic} {memory : VideoMemory} {line : Nat} {damage : Damage} {ended : Bool}

/-- Rendering a line marks it, leaves its picture and touches no other line. -/
theorem Sound.renderLine_line? (h : Sound v)
    (hrun : v.renderLine memory line = .ok (damage, v')) :
    (∀ other, other ≠ line → v'.line? other = v.line? other) ∧
      ∀ l ∈ v'.line? line, l.pixels = v.picture memory line ∧ l.neverRendered = false := by
  cases hindex : v.standard.row? line with
  | none =>
    rw [renderLine_unkept memory hindex] at hrun
    cases hrun
    obtain ⟨standard, cache⟩ := v.latchCollisions_frame (v.touching memory line)
    refine ⟨fun other _ => line?_congr standard cache other, ?_⟩
    rw [line?_congr standard cache]
    simp [line?, hindex]
  | some index =>
    have hlt := h.place_lt hindex
    have hget : v.cache.lines[index]? = some v.cache.lines[index] := Array.getElem?_eq_getElem hlt
    obtain ⟨_, bitmap, l, hrender, hpixels, -, hmark⟩ :=
      renderLine_kept memory hindex hget (h.cache.coherent index _ hget) h.row_lt h.rc
    rw [hrender] at hrun
    cases hrun
    obtain ⟨standard, cache⟩ :=
      (v.withLine index bitmap l).latchCollisions_frame (v.touching memory line)
    refine ⟨fun other hother => ?_, ?_⟩
    · rw [line?_congr standard cache]
      show (v.standard.row? other).bind (fun i => (v.cache.lines.setIfInBounds index l)[i]?) = _
      cases hrow : v.standard.row? other with
      | none => simp [line?, hrow]
      | some i =>
        have apart : index ≠ i := by
          rintro rfl
          exact hother (row?_inj hrow hindex)
        simp [line?, hrow, Array.getElem?_setIfInBounds_ne apart]
    · rw [line?_congr standard cache]
      show ∀ l' ∈ (v.standard.row? line).bind
        (fun i => (v.cache.lines.setIfInBounds index l)[i]?), _
      rw [hindex, Option.bind_some, Array.getElem?_setIfInBounds_self_of_lt hlt]
      rintro _ ⟨⟩
      exact ⟨hpixels, hmark⟩

/-- The end of a line renders the line as it has begun, and no other. -/
theorem Sound.endOfLine_line? (h : Sound v) (hrun : v.endOfLine memory = .ok (ended, v')) :
    (∀ other, other ≠ v.rasterLine → v'.line? other = v.line? other) ∧
      ∀ l ∈ v'.line? v.rasterLine,
        l.pixels = (v.beginLine memory).picture memory v.rasterLine ∧ l.neverRendered = false := by
  obtain ⟨⟨damage, rendered⟩, hrender, hret⟩ := bind_eq_ok.mp hrun
  obtain rfl : rendered.advanceRow.advanceLine.2 = v' := congrArg Prod.snd (Except.ok.inj hret)
  obtain ⟨others, own⟩ := (h.beginLine memory).renderLine_line? hrender
  obtain ⟨standardRow, -, cacheRow⟩ := rendered.advanceRow_frame
  obtain ⟨standardLine, cacheLine⟩ := rendered.advanceRow.advanceLine_frame
  have kept : ∀ line, rendered.advanceRow.advanceLine.2.line? line = rendered.line? line :=
    line?_congr (standardLine.trans standardRow) (cacheLine.trans cacheRow)
  obtain ⟨standard, cache⟩ := v.beginLine_frame memory
  refine ⟨fun other hother => ?_, ?_⟩
  · rw [kept, others other hother, line?_congr standard cache]
  · rw [kept]
    exact own

theorem Sound.endOfLine_standard (h : Sound v) (hrun : v.endOfLine memory = .ok (ended, v')) :
    v'.standard = v.standard := by
  obtain ⟨⟨damage, rendered⟩, hrender, hret⟩ := bind_eq_ok.mp hrun
  obtain rfl : rendered.advanceRow.advanceLine.2 = v' := congrArg Prod.snd (Except.ok.inj hret)
  obtain ⟨_, _, _, hkept, -⟩ := (h.beginLine memory).renderLine memory v.rasterLine
  rw [hkept] at hrender
  cases hrender
  rw [(advanceLine_frame _).1, (advanceRow_frame _).1, (latchCollisions_frame _ _).1]
  exact (v.beginLine_frame memory).1

/-- Where the next line lies, and in which frame. -/
theorem advanceLine_moves (v : Vic) :
    let ended := decide (v.standard.linesPerFrame ≤ v.rasterLine + 1)
    v.advanceLine.1 = ended ∧
      v.advanceLine.2.rasterLine = (if ended then 0 else v.rasterLine + 1) ∧
      v.advanceLine.2.frame = (if ended then v.frame + 1 else v.frame) := by
  unfold advanceLine
  simp only []
  by_cases hended : v.standard.linesPerFrame ≤ v.rasterLine + 1
  · simp only [hended, decide_true, if_true]
    split <;> exact ⟨trivial, rfl, rfl⟩
  · simp only [hended, decide_false, if_false, Bool.false_eq_true]
    split <;> exact ⟨trivial, rfl, rfl⟩

/-- The end of a line leads to the next, and behind the last one to the next frame. -/
theorem Sound.endOfLine_moves (h : Sound v) (hrun : v.endOfLine memory = .ok (ended, v')) :
    ended = decide (v.standard.linesPerFrame ≤ v.rasterLine + 1) ∧
      v'.rasterLine = (if ended then 0 else v.rasterLine + 1) ∧
      v'.frame = (if ended then v.frame + 1 else v.frame) := by
  obtain ⟨⟨damage, rendered⟩, hrender, hret⟩ := bind_eq_ok.mp hrun
  obtain ⟨rfl, rfl⟩ := Prod.mk.inj (Except.ok.inj hret)
  obtain ⟨_, _, _, hkept, -⟩ := (h.beginLine memory).renderLine memory v.rasterLine
  rw [hkept] at hrender
  have begun : (v.beginLine memory).standard = v.standard ∧
      (v.beginLine memory).rasterLine = v.rasterLine ∧ (v.beginLine memory).frame = v.frame := by
    unfold Vic.beginLine
    simp only []
    split <;> split <;> exact ⟨rfl, rfl, rfl⟩
  -- Rendering latches collisions and the row moves on; neither moves the line.
  have still : rendered.advanceRow.standard = v.standard ∧
      rendered.advanceRow.rasterLine = v.rasterLine ∧ rendered.advanceRow.frame = v.frame := by
    obtain ⟨_, rfl⟩ := Prod.mk.inj (Except.ok.inj hrender)
    obtain ⟨_, _, _, latched⟩ := latchCollisions_eq _ _
    obtain ⟨_, _, _, moved⟩ := advanceRow_eq _
    rw [moved, latched]
    exact begun
  obtain ⟨standard, rasterLine, frame⟩ := still
  have moves := advanceLine_moves rendered.advanceRow
  rw [standard, rasterLine, frame] at moves
  obtain ⟨hended, hline, hframe⟩ := moves
  rw [← hended] at hline hframe
  exact ⟨hended, hline, hframe⟩

/-! ## Chips that draw alike -/

/-- The pixels of a raster line, if it was rendered since the cache was given up. -/
def drawn? (v : Vic) (line : Nat) : Option (Bytes width) :=
  (v.line? line).bind fun l => if l.neverRendered then none else some l.pixels

theorem drawn?_congr {w : Vic} (h : v.line? line = w.line? line) : v.drawn? line = w.drawn? line := by
  unfold drawn?
  rw [h]

theorem drawn?_eq_pixels? (h : ∀ l ∈ v.line? line, l.neverRendered = false) :
    v.drawn? line = v.pixels? line := by
  rw [pixels?_eq, drawn?]
  cases hline : v.line? line with
  | none => rfl
  | some l => simp [h l hline]

/-- Two chips agree on what a program can see, and on every line that both have drawn. -/
structure Alike (v w : Vic) : Prop where
  agree : Agree v w
  left : Sound v
  right : Sound w
  drawn (line : Nat) : v.drawn? line = w.drawn? line

section Alike

variable {w : Vic}

/-- A reset leaves nothing drawn, and nothing that a program could tell chips apart by. -/
theorem reset_alike (hv : Sound v) (hw : Sound w) (standard : v.standard = w.standard) :
    Alike v.reset w.reset := by
  have blank : ∀ (v : Vic) line, v.reset.drawn? line = none := by
    intro v line
    unfold drawn? line?
    show ((v.standard.row? line).bind fun index => v.cache.invalidate.lines[index]?).bind _ = none
    cases v.standard.row? line with
    | none => rfl
    | some index =>
      rw [Option.bind_some, Cache.invalidate, Array.getElem?_map]
      cases v.cache.lines[index]? <;> simp
  refine ⟨?_, hv.reset, hw.reset, fun line => (blank v line).trans (blank w line).symm⟩
  exact ⟨standard, rfl, rfl, rfl, rfl, rfl, rfl, rfl, rfl, rfl, rfl, rfl, by simp [reset],
    by simp [reset]⟩

theorem Alike.read (h : Alike v w) (r : UInt8) : Beside Alike (v.read r) (w.read r) := by
  have kept : ∀ (v : Vic) line, (v.read r).2.drawn? line = v.drawn? line := by
    intro v line
    refine drawn?_congr (line?_congr ?_ ?_ line) <;> (unfold Vic.read; simp only []; split <;> rfl)
  refine ⟨?_, (spares_read r).agree h.agree, h.left.read r, h.right.read r, fun line => ?_⟩
  · rw [h.agree.eq_withBuffers]
    unfold Vic.read
    simp only []
    split <;> rfl
  · rw [kept, kept, h.drawn]

theorem Alike.write (h : Alike v w) (r b : UInt8) : Alike (v.write r b) (w.write r b) := by
  have kept : ∀ (v : Vic) line, (v.write r b).drawn? line = v.drawn? line := by
    intro v line
    refine drawn?_congr (line?_congr ?_ ?_ line) <;> (unfold Vic.write; simp only []; split <;> rfl)
  refine ⟨(spares_write r b).agree h.agree, h.left.write r b, h.right.write r b, fun line => ?_⟩
  rw [kept, kept, h.drawn]

theorem Alike.peek (h : Alike v w) (r : UInt8) : v.peek r = w.peek r := by
  rw [h.agree.eq_withBuffers]
  rfl

theorem Alike.interrupting (h : Alike v w) : v.interrupting = w.interrupting := by
  rw [h.agree.eq_withBuffers]
  rfl

/-- Both close a line alike. -/
theorem Alike.endOfLine (h : Alike v w) (memory : VideoMemory) :
    Together False (Beside Alike) (v.endOfLine memory) (w.endOfLine memory) := by
  obtain ⟨ended, v', w', hend, hend', agree, left, right, own⟩ :=
    h.agree.endOfLine h.left h.right memory
  obtain ⟨others, mark⟩ := h.left.endOfLine_line? hend
  obtain ⟨others', mark'⟩ := h.right.endOfLine_line? hend'
  rw [← h.agree.rasterLine] at others' mark'
  rw [hend, hend']
  refine .ok ⟨rfl, agree, left, right, fun line => ?_⟩
  by_cases hline : line = v.rasterLine
  · subst hline
    rw [drawn?_eq_pixels? fun l hl => (mark l hl).2, drawn?_eq_pixels? fun l hl => (mark' l hl).2,
      own]
  · rw [drawn?_congr (others line hline), drawn?_congr (others' line hline), h.drawn]

end Alike

end C64.Vic
