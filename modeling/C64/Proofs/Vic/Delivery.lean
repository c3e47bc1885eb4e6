import Mathlib.Data.List.Forall2
import C64.Proofs.Vic.Damage

/-!
# Frames that reach a host

A chip presents its frames to a channel; a host takes snapshots out at its other end and applies
them to its screen, one after another, in its own time. Each snapshot brings a screen from the
last frame that was presented to its own frame, for a frame that was dropped left its damage to
the next. So the host's screen is always that of the last frame it has applied, whatever the order
in which chip and host take their turns (`deliver_new`).
-/

namespace C64.Vic

open Raster

/-! ## The chip and the host -/

/-- A chip, a channel, and a host at its other end. What was presented and taken so far is kept
beside what they hold. -/
structure Link where
  chip : Vic
  channel : FrameChannel
  /-- The snapshots that the host has taken and not yet applied, the oldest first. -/
  inbox : List Snapshot
  /-- The host's colour numbers, line after line. -/
  screen : ByteArray
  /-- The frames that the channel took. -/
  shown : List (Frame shape)
  /-- How many it did not take. -/
  refused : Nat
  /-- The snapshots that the host took. -/
  taken : List Snapshot
  /-- How many of them it has applied. -/
  applied : Nat

/-- What the chip or the host can do next. -/
inductive Move where
  | turn (turn : Turn)
  | present
  | receive
  | apply
  /-- The host goes away from the channel. -/
  | disconnect

namespace Link

def new (standard : VideoStandard) : Link where
  chip := .new standard
  channel := .new
  inbox := []
  screen := zeros (standard.visibleLines * width)
  shown := []
  refused := 0
  taken := []
  applied := 0

def move (k : Link) : Move → Except Fault Link
  | .turn turn => return { k with chip := ← k.chip.take turn }
  | .present => do
    let (status, chip, channel) ← k.chip.present k.channel
    match status with
    | .presented =>
      return { k with chip, channel, shown := k.shown ++ [⟨k.chip.frame, k.chip.cache⟩] }
    | .dropped => return { k with chip, channel, refused := k.refused + 1 }
  | .receive =>
    let (snapshot?, channel) := k.channel.receive
    .ok { k with
      channel
      inbox := k.inbox ++ snapshot?.toList
      taken := k.taken ++ snapshot?.toList }
  | .apply =>
    match k.inbox with
    | [] => .ok k
    | s :: rest =>
      .ok { k with inbox := rest, screen := s.apply k.screen, applied := k.applied + 1 }
  | .disconnect => .ok { k with channel := k.channel.disconnect }

def run (k : Link) (moves : List Move) : Except Fault Link := moves.foldlM move k

/-- The cache as it was when the last of some frames was presented, or that of a new chip. -/
def lastCache (standard : VideoStandard) (frames : List (Frame shape)) : Cache shape :=
  (frames.getLast?.map (·.cache)).getD (.blank shape standard.visibleLines)

theorem lastCache_snoc (standard : VideoStandard) (frames : List (Frame shape))
    (f : Frame shape) : lastCache standard (frames ++ [f]) = f.cache := by
  unfold lastCache
  rw [List.getLast?_concat]
  rfl

/-! ## What every move keeps -/

/-- The snapshots are those of the frames, one for each. -/
abbrev Captured : List (Frame shape) → List Snapshot → Prop :=
  List.Forall₂ fun f s => Snapshot.ofFrame f = .ok s

/-- What holds of a link, with the snapshots that were sent and not received. -/
structure Delivers (standard : VideoStandard) (k : Link) (flight : List Snapshot) : Prop where
  /-- What was shown last trails the chip. -/
  chip : Trailed standard (lastCache standard k.shown).view k.chip
  /-- What was shown before a frame trails it. -/
  chain : ∀ i f, k.shown[i]? = some f →
    (lastCache standard (k.shown.take i)).view.Trails f.cache ∧
      f.cache.height = standard.visibleLines
  captured : Captured k.shown (k.taken ++ flight)
  flight_le : flight.length ≤ 1
  waiting : k.channel.connected = true → flight = k.channel.waiting.toList
  gone : k.channel.connected = false → k.channel.waiting = none
  dropped : k.channel.dropped = k.refused
  inbox : k.inbox = k.taken.drop k.applied
  applied_le : k.applied ≤ k.taken.length
  screen : FlatShows width standard.visibleLines
    (lastCache standard (k.shown.take k.applied)).view k.screen

variable {standard : VideoStandard} {k : Link} {flight : List Snapshot}

theorem Delivers.new (standard : VideoStandard) : Delivers standard (new standard) [] where
  chip := by
    have dark : (lastCache standard []).view = .dark := Cache.view_blank _
    exact dark ▸ Trailed.new standard
  chain i f hi := absurd hi (by simp [Link.new])
  captured := .nil
  flight_le := Nat.zero_le 1
  waiting _ := rfl
  gone h := absurd h (by simp [Link.new, FrameChannel.new])
  dropped := rfl
  inbox := rfl
  applied_le := Nat.le_refl 0
  screen := by
    have dark : (lastCache standard []).view = .dark := Cache.view_blank _
    exact dark ▸ FlatShows.zeros width standard.visibleLines

theorem Delivers.applied_le_shown (h : Delivers standard k flight) :
    k.applied ≤ k.shown.length := by
  have := h.captured.length_eq
  rw [List.length_append] at this
  have := h.applied_le
  omega

theorem Delivers.turn (h : Delivers standard k flight) (turn : Turn) :
    ∃ k', k.move (.turn turn) = .ok k' ∧ Delivers standard k' flight := by
  obtain ⟨chip, hrun, hchip⟩ := h.chip.take turn
  refine ⟨{ k with chip }, ?_, { h with chip := hchip }⟩
  unfold move
  simp only []
  rw [hrun]
  rfl

theorem Captured.snoc {frames : List (Frame shape)} {snapshots : List Snapshot}
    (h : Captured frames snapshots) {f : Frame shape} {s : Snapshot}
    (hs : Snapshot.ofFrame f = .ok s) : Captured (frames ++ [f]) (snapshots ++ [s]) :=
  List.rel_append h (.cons hs .nil)

theorem Captured.getElem? {frames : List (Frame shape)} {snapshots : List Snapshot}
    (h : Captured frames snapshots) {i : Nat} {s : Snapshot} (hs : snapshots[i]? = some s) :
    ∃ f, frames[i]? = some f ∧ Snapshot.ofFrame f = .ok s := by
  obtain ⟨hlt, rfl⟩ := List.getElem?_eq_some_iff.mp hs
  have hlt' : i < frames.length := h.length_eq ▸ hlt
  exact ⟨frames[i], List.getElem?_eq_getElem hlt', h.get hlt' hlt⟩

/-- A frame that the channel takes is the next in the chain, and it is the one in flight. -/
theorem Delivers.shown (h : Delivers standard k flight) {s : Snapshot}
    (hs : Snapshot.ofFrame ⟨k.chip.frame, k.chip.cache⟩ = .ok s)
    (hconnected : k.channel.connected = true) (hempty : k.channel.waiting = none) :
    Delivers standard
      { k with
        chip := { k.chip with cache := k.chip.cache.clearDamage }
        channel := { k.channel with waiting := some s }
        shown := k.shown ++ [⟨k.chip.frame, k.chip.cache⟩] } [s] := by
  -- The channel had room, so every frame that was shown before has been taken.
  have hflight : flight = [] := by rw [h.waiting hconnected, hempty]; rfl
  have hcaptured := h.captured
  rw [hflight, List.append_nil] at hcaptured
  constructor
  · rw [lastCache_snoc]
    exact h.chip.clearDamage
  · intro i f hi
    rcases Nat.lt_or_ge i k.shown.length with hlt | hge
    · rw [List.getElem?_append_left hlt] at hi
      rw [List.take_append_of_le_length (Nat.le_of_lt hlt)]
      exact h.chain i f hi
    · rw [List.getElem?_append_right hge, List.getElem?_singleton] at hi
      split at hi
      · obtain rfl := Option.some.inj hi
        rw [show i = k.shown.length by omega, List.take_left]
        exact ⟨h.chip.trails, h.chip.height⟩
      · exact absurd hi (by simp)
  · exact hcaptured.snoc hs
  · exact Nat.le_refl 1
  · exact fun _ => rfl
  · exact fun hc => absurd (hconnected.symm.trans hc) (by simp)
  · exact h.dropped
  · exact h.inbox
  · exact h.applied_le
  · rw [List.take_append_of_le_length h.applied_le_shown]
    exact h.screen

theorem Delivers.present (h : Delivers standard k flight) :
    ∃ k' flight', k.move .present = .ok k' ∧ Delivers standard k' flight' := by
  obtain ⟨dirty, hdirty, -, -⟩ := h.chip.trails.patched
  have hs := ofFrame_eq (f := ⟨k.chip.frame, k.chip.cache⟩) hdirty
  unfold move Vic.present
  simp only [FrameSink.present, FrameChannel.present]
  rw [hs, ok_bind]
  by_cases hroom : k.channel.connected = true ∧ k.channel.waiting.isNone = true
  · rw [if_pos hroom]
    exact ⟨_, _, rfl, h.shown hs hroom.1 (Option.isNone_iff_eq_none.mp hroom.2)⟩
  · rw [if_neg hroom]
    exact ⟨_, flight, rfl, { h with dropped := congrArg (· + 1) h.dropped }⟩

theorem move_receive_none (hw : k.channel.waiting = none) : k.move .receive = .ok k := by
  obtain ⟨chip, ⟨waiting, connected, dropped⟩, inbox, screen, shown, refused, taken, applied⟩ := k
  obtain rfl : waiting = none := hw
  simp [Link.move, FrameChannel.receive]

theorem move_receive_some {s : Snapshot} (hw : k.channel.waiting = some s) :
    k.move .receive = .ok { k with
      channel := { k.channel with waiting := none }
      inbox := k.inbox ++ [s]
      taken := k.taken ++ [s] } := by
  simp [Link.move, FrameChannel.receive, hw]

theorem Delivers.receive (h : Delivers standard k flight) :
    ∃ k' flight', k.move .receive = .ok k' ∧ Delivers standard k' flight' := by
  cases hw : k.channel.waiting with
  | none => exact ⟨k, flight, move_receive_none hw, h⟩
  | some s =>
    -- A host that has gone left nothing waiting, so this one is still there.
    have hconnected : k.channel.connected = true :=
      Bool.not_eq_false _ ▸ fun hc => absurd (h.gone hc) (by simp [hw])
    have hflight : flight = [s] := by rw [h.waiting hconnected, hw]; rfl
    have hcaptured := h.captured
    rw [hflight, ← List.append_nil (k.taken ++ [s])] at hcaptured
    exact ⟨_, [], move_receive_some hw, { h with
      waiting := fun _ => rfl
      gone := fun _ => rfl
      flight_le := Nat.zero_le 1
      captured := hcaptured
      inbox := by rw [List.drop_append_of_le_length h.applied_le, h.inbox]
      applied_le := by
        rw [List.length_append]
        exact Nat.le_add_right_of_le h.applied_le }⟩

theorem Delivers.apply (h : Delivers standard k flight) :
    ∃ k', k.move .apply = .ok k' ∧ Delivers standard k' flight := by
  unfold move
  cases hi : k.inbox with
  | nil => exact ⟨k, rfl, h⟩
  | cons s rest =>
    -- The head of the inbox is the first snapshot not applied, and so that of the next frame.
    have hdrop := h.inbox
    rw [hi] at hdrop
    have hs : k.taken[k.applied]? = some s := by
      rw [← List.head?_drop, ← hdrop]
      rfl
    have hlt := (List.getElem?_eq_some_iff.mp hs).1
    obtain ⟨f, hf, hof⟩ := h.captured.getElem? (i := k.applied) (s := s)
      (by rw [List.getElem?_append_left hlt]; exact hs)
    obtain ⟨htrails, hheight⟩ := h.chain k.applied f hf
    refine ⟨_, rfl, { h with inbox := ?_, applied_le := hlt, screen := ?_ }⟩
    · simp only []
      rw [← List.tail_drop, ← hdrop]
      rfl
    · simp only []
      rw [List.take_add_one, hf, Option.toList_some, lastCache_snoc, ← hheight]
      exact FlatShows.apply htrails (hheight.symm ▸ h.screen) hof

theorem Delivers.disconnect (h : Delivers standard k flight) :
    ∃ k', k.move .disconnect = .ok k' ∧ Delivers standard k' flight :=
  ⟨_, rfl, { h with
    waiting := fun hc => absurd hc (by simp [FrameChannel.disconnect])
    gone := fun _ => rfl
    dropped := h.dropped }⟩

theorem Delivers.move (h : Delivers standard k flight) (m : Move) :
    ∃ k' flight', k.move m = .ok k' ∧ Delivers standard k' flight' := by
  cases m with
  | turn turn =>
    obtain ⟨k', hrun, h'⟩ := h.turn turn
    exact ⟨k', flight, hrun, h'⟩
  | present => exact h.present
  | receive => exact h.receive
  | apply =>
    obtain ⟨k', hrun, h'⟩ := h.apply
    exact ⟨k', flight, hrun, h'⟩
  | disconnect =>
    obtain ⟨k', hrun, h'⟩ := h.disconnect
    exact ⟨k', flight, hrun, h'⟩

theorem Delivers.run (h : Delivers standard k flight) (moves : List Move) :
    ∃ k' flight', k.run moves = .ok k' ∧ Delivers standard k' flight' := by
  induction moves generalizing k flight with
  | nil => exact ⟨k, flight, rfl, h⟩
  | cons m rest ih =>
    obtain ⟨k₁, flight₁, hmove, h₁⟩ := h.move m
    obtain ⟨k', flight', hrun, h'⟩ := ih h₁
    refine ⟨k', flight', ?_, h'⟩
    unfold Link.run
    rw [List.foldlM_cons, hmove, ok_bind]
    exact hrun

theorem Delivers.height_lastCache (h : Delivers standard k flight) (n : Nat) :
    (lastCache standard (k.shown.take n)).height = standard.visibleLines := by
  unfold lastCache
  cases hlast : (k.shown.take n).getLast? with
  | none => exact Array.size_ofFn
  | some f =>
    obtain ⟨i, hi⟩ := List.mem_iff_getElem?.mp
      (List.mem_of_mem_take (List.mem_of_getLast? hlast))
    exact (h.chain i f hi).2

/-- Whatever chip and host do, in whatever order: the snapshots that the host has taken are those
of the frames that were presented, in order, but for at most one, which waits in the channel or
went with the host; every other frame is counted as dropped; and the host's screen holds the
pixels of the last frame it has applied, as they were when that frame was presented. -/
theorem deliver_new (standard : VideoStandard) (moves : List Move) :
    ∃ k flight, (new standard).run moves = .ok k ∧
      List.Forall₂ (fun f s => Snapshot.ofFrame f = .ok s) k.shown (k.taken ++ flight) ∧
      flight.length ≤ 1 ∧
      (k.channel.connected = true → flight = k.channel.waiting.toList) ∧
      k.channel.dropped = k.refused ∧
      k.inbox = k.taken.drop k.applied ∧ k.applied ≤ k.taken.length ∧
      k.screen.data.toList = (lastCache standard (k.shown.take k.applied)).bytes := by
  obtain ⟨k, flight, hrun, h⟩ := (Delivers.new standard).run moves
  refine ⟨k, flight, hrun, h.captured, h.flight_le, h.waiting, h.dropped, h.inbox, h.applied_le, ?_⟩
  exact FlatShows.eq_bytes ((h.height_lastCache k.applied).symm ▸ h.screen)

end Link

end C64.Vic
