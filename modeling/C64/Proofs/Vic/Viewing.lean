import C64.Proofs.Vic.Damage

/-!
# Frames that lose no damage

A consumer holds a buffer for each line and patches it with the changed parts of the frames it
takes. Frames it does not take leave their damage to the next. Whatever happens to the chip in
between, the buffers differ from the cache only inside the damage that is still to be delivered,
and behind each frame that was taken they do not differ (`watch_new`).
-/

namespace C64.Vic

open Raster

/-- A consumer with a buffer for each line. It takes a frame or not, as it is told. -/
structure Viewer where
  lines : Array ByteArray
  answer : FrameStatus

instance : FrameSink Viewer where
  present s f :=
    match s.answer with
    | .presented =>
      return (.presented, { s with lines := (← f.cache.dirtyLines).foldl patchLine s.lines })
    | .dropped => .ok (.dropped, s)

/-- What can happen to a chip with a consumer. -/
inductive Showing where
  | turn (turn : Turn)
  /-- A frame is presented, and the consumer gives this answer. -/
  | present (answer : FrameStatus)

def watch (v : Vic) (lines : Array ByteArray) : List Showing → Except Fault (Vic × Array ByteArray)
  | [] => .ok (v, lines)
  | .turn turn :: rest => do watch (← v.take turn) lines rest
  | .present answer :: rest => do
    let (_, v, viewer) ← v.present (⟨lines, answer⟩ : Viewer)
    watch v viewer.lines rest

/-- The pixels of the lines of a cache, a buffer for each. -/
def buffers (v : Vic) : Array ByteArray := v.cache.lines.map (·.pixels.data)

/-- The buffers show a view that trails the chip. -/
def Watched (standard : VideoStandard) (v : Vic) (lines : Array ByteArray) : Prop :=
  ∃ view, Trailed standard view v ∧ LinesShow width standard.visibleLines view lines

/-- A frame that is taken brings the buffers up to the cache, and its damage is done with. -/
theorem Watched.presented {standard : VideoStandard} {v : Vic} {lines : Array ByteArray}
    (h : Watched standard v lines) :
    ∃ v' lines', v.present (⟨lines, .presented⟩ : Viewer) =
        .ok (.presented, v', ⟨lines', .presented⟩) ∧
      Watched standard v' lines' ∧ lines' = v'.buffers := by
  obtain ⟨view, ht, hs⟩ := h
  have hs : LinesShow shape.width v.cache.height view lines := ht.height.symm ▸ hs
  obtain ⟨dirty, hdirty, hs'⟩ := hs.patched ht.trails
  have heq := hs'.eq_lines
  refine ⟨{ v with cache := v.cache.clearDamage }, dirty.foldl patchLine lines, ?_,
    ⟨v.cache.view, ht.clearDamage, ht.height ▸ hs'⟩, ?_⟩
  · unfold Vic.present
    simp only [FrameSink.present]
    rw [hdirty]
    rfl
  · rw [heq]
    simp only [buffers, Cache.clearDamage, Array.map_map]
    rfl

theorem Watched.watch {standard : VideoStandard} {v : Vic} {lines : Array ByteArray}
    (h : Watched standard v lines) (events : List Showing) :
    ∃ v' lines', v.watch lines events = .ok (v', lines') ∧ Watched standard v' lines' := by
  induction events generalizing v lines with
  | nil => exact ⟨v, lines, rfl, h⟩
  | cons event rest ih =>
    cases event with
    | turn turn =>
      obtain ⟨view, ht, hs⟩ := h
      obtain ⟨v₁, hrun, ht₁⟩ := ht.take turn
      obtain ⟨v', lines', hrest, h'⟩ := ih ⟨view, ht₁, hs⟩
      refine ⟨v', lines', ?_, h'⟩
      unfold Vic.watch
      rw [hrun, ok_bind]
      exact hrest
    | present answer =>
      cases answer with
      | presented =>
        obtain ⟨v₁, lines₁, hrun, h₁, -⟩ := h.presented
        obtain ⟨v', lines', hrest, h'⟩ := ih h₁
        refine ⟨v', lines', ?_, h'⟩
        unfold Vic.watch
        rw [hrun, ok_bind]
        exact hrest
      -- A frame that is dropped leaves its damage where it was.
      | dropped => exact ih h

theorem Watched.new (standard : VideoStandard) :
    Watched standard (new standard) (new standard).buffers := by
  have ht := Trailed.new standard
  have hs := LinesShow.lines (Vic.new standard).cache
  have dark : (Vic.new standard).cache.view = .dark := Cache.view_blank _
  rw [ht.height, dark] at hs
  exact ⟨.dark, ht, hs⟩

theorem Watched.differs {standard : VideoStandard} {v : Vic} {lines : Array ByteArray}
    (h : Watched standard v lines) {y x : Nat} {buffer : ByteArray} {l : Line}
    (hb : lines[y]? = some buffer) (hl : v.cache.lines[y]? = some l)
    (hne : buffer.data[x]? ≠ l.pixels.data.data[x]?) :
    ∃ span, l.damage = some span ∧ span.contains x := by
  obtain ⟨view, ht, hs⟩ := h
  by_cases hx : x < width
  · rw [hs.shows y buffer x hb hx, l.pixels.getElem?_data hx, l.pixels.byteAt_of_lt hx] at hne
    exact (ht.trails y l hl).covers ⟨x, hx⟩ fun heq => hne (congrArg some heq.symm)
  · -- Behind the last column there is nothing in either.
    have hbuffer : buffer.data.size = width := hs.width y buffer hb
    have hline : l.pixels.data.data.size = width := l.pixels.size_data
    rw [Array.getElem?_eq_none (by omega), Array.getElem?_eq_none (by omega)] at hne
    exact absurd rfl hne

theorem watch_append (v : Vic) (lines : Array ByteArray) (events more : List Showing) :
    v.watch lines (events ++ more) =
      v.watch lines events >>= fun (v, lines) => v.watch lines more := by
  induction events generalizing v lines with
  | nil => rfl
  | cons event rest ih =>
    cases event with
    | turn turn =>
      simp only [List.cons_append, watch, ih, bind_assoc]
    | present answer =>
      simp only [List.cons_append, watch, ih, bind_assoc]

/-- No damage is lost. Whatever happens to a new chip, its consumer's buffers differ from the
cache only inside the damage of their lines; and behind every frame that the consumer took they
hold what the cache holds. -/
theorem watch_new (standard : VideoStandard) (events : List Showing) :
    ∃ v lines,
      (new standard).watch (new standard).buffers events = .ok (v, lines) ∧
      lines.size = v.cache.height ∧
      (∀ (y x : Nat) (buffer : ByteArray) (l : Line), lines[y]? = some buffer →
        v.cache.lines[y]? = some l → buffer.data[x]? ≠ l.pixels.data.data[x]? →
          ∃ span, l.damage = some span ∧ span.contains x) ∧
      ∃ v' lines',
        (new standard).watch (new standard).buffers (events ++ [.present .presented]) =
          .ok (v', lines') ∧
        lines' = v'.buffers := by
  obtain ⟨v, lines, hrun, h⟩ := (Watched.new standard).watch events
  obtain ⟨v', lines', hpresent, -, heq⟩ := h.presented
  refine ⟨v, lines, hrun, ?_, fun y x buffer l => h.differs, v', lines', ?_, heq⟩
  · obtain ⟨view, ht, hs⟩ := h
    rw [hs.height, ht.height]
  · rw [watch_append, hrun, ok_bind]
    simp only [watch]
    rw [hpresent]
    rfl

end C64.Vic
