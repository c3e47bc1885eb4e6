import Mathlib.Logic.Function.Basic
import C64.Proofs.Vic.Overlay

/-!
# The bytes of a row of sprites

With a line of the picture the cache keeps sixty-six bytes of the sprites on it, and only where
these have changed are the sprites taken for others. So the bytes must leave out nothing that
`SpriteRow.overlay` looks at. They leave out nothing at all: a sprite can be read off its eight
bytes, a row off those of its eight places and the two behind them (`SpriteRow.state_injective`).
-/

namespace C64.Vic

/-! ## One sprite -/

namespace Sprite

/-- Three flags in a byte can be read off it one by one. -/
theorem bitAt_flags (first second third : Bool) :
    let b := bitByte first ||| bitByte second <<< 1 ||| bitByte third <<< 2
    bitAt b 0 = first ∧ bitAt b 1 = second ∧ bitAt b 2 = third := by
  cases first <;> cases second <;> cases third <;> decide

theorem state_injective : Function.Injective state := by
  intro s s' h
  simp only [state, List.cons.injEq, and_true, true_and] at h
  obtain ⟨low, high, data0, data1, data2, colour, flags⟩ := h
  have x : s.x = s'.x := by rw [← wordOf_bytes s.x, low, high, wordOf_bytes]
  obtain ⟨multicolour, expanded, behind⟩ := bitAt_flags s.multicolour s.expanded s.behind
  obtain ⟨multicolour', expanded', behind'⟩ := bitAt_flags s'.multicolour s'.expanded s'.behind
  rw [flags] at multicolour expanded behind
  cases s
  cases s'
  rw [mk.injEq]
  exact ⟨x, data0, data1, data2, colour, multicolour.symm.trans multicolour',
    expanded.symm.trans expanded', behind.symm.trans behind'⟩

end Sprite

/-! ## A row of them -/

namespace SpriteRow

/-- The eight bytes of one place in the row. -/
def slot : Option Sprite → List UInt8
  | some s => s.state
  | none => List.replicate 8 0

theorem length_slot (s : Option Sprite) : (slot s).length = 8 := by
  cases s <;> rfl

theorem slot_injective : Function.Injective slot := by
  intro s s' h
  -- The first byte of a place tells whether there is a sprite.
  cases s with
  | none =>
    cases s' with
    | none => rfl
    | some s' => exact absurd (List.cons.inj h).1 (by decide)
  | some s =>
    cases s' with
    | none => exact absurd (List.cons.inj h).1 (by decide)
    | some s' => exact congrArg some (Sprite.state_injective h)

/-- The bytes of the eight places, without the two colours behind them. -/
def slots (r : SpriteRow) : List UInt8 := r.state.take (spriteCount * 8)

theorem length_flatMap_slot (l : List (Option Sprite)) :
    (l.flatMap slot).length = l.length * 8 := by
  induction l with
  | nil => rfl
  | cons s rest ih =>
    rw [List.flatMap_cons, List.length_append, length_slot, ih, List.length_cons]
    omega

theorem state_eq (r : SpriteRow) :
    r.state = r.sprites.toList.flatMap slot ++ [r.shared1, r.shared2] := by
  unfold state
  congr 2

theorem slots_eq (r : SpriteRow) : r.slots = r.sprites.toList.flatMap slot := by
  have length : (r.sprites.toList.flatMap slot).length = spriteCount * 8 := by
    rw [length_flatMap_slot, Vector.length_toList]
  rw [slots, state_eq, ← length, List.take_left]

theorem length_state (r : SpriteRow) : r.state.length = spriteStateLength := by
  rw [state_eq, List.length_append, length_flatMap_slot, Vector.length_toList]
  rfl

/-- All places have the same number of bytes, so none can be taken for a part of another. -/
theorem flatMap_slot_injective {l l' : List (Option Sprite)} (hlen : l.length = l'.length)
    (h : l.flatMap slot = l'.flatMap slot) : l = l' := by
  induction l generalizing l' with
  | nil => exact (List.eq_nil_of_length_eq_zero hlen.symm).symm
  | cons s rest ih =>
    cases l' with
    | nil => exact absurd hlen (by simp)
    | cons s' rest' =>
      rw [List.flatMap_cons, List.flatMap_cons] at h
      obtain ⟨hs, hrest⟩ := List.append_inj h ((length_slot s).trans (length_slot s').symm)
      rw [slot_injective hs, ih (Nat.succ.inj hlen) hrest]

theorem sprites_of_slots {r r' : SpriteRow} (h : r.slots = r'.slots) : r.sprites = r'.sprites := by
  rw [slots_eq, slots_eq] at h
  exact Vector.toList_inj.mp (flatMap_slot_injective (by simp) h)

theorem state_injective : Function.Injective state := by
  intro r r' h
  have sprites : r.sprites = r'.sprites :=
    sprites_of_slots (congrArg (List.take (spriteCount * 8)) h)
  rw [state_eq, state_eq, sprites, List.append_cancel_left_eq] at h
  obtain ⟨sprites₀, shared1, shared2⟩ := r
  cases r'
  cases sprites
  cases h
  rfl

/-- The places of a row have zeros only where there is no sprite at all. -/
theorem slots_eq_zeros (r : SpriteRow) :
    r.slots = List.replicate (spriteCount * 8) 0 ↔ r.isEmpty = true := by
  have clear : (⟨.replicate spriteCount none, 0, 0⟩ : SpriteRow).slots =
      List.replicate (spriteCount * 8) 0 := rfl
  rw [← clear]
  constructor
  · intro h
    simp [isEmpty, sprites_of_slots h]
  · intro h
    have none : r.sprites = .replicate spriteCount none := by
      ext1 i hi
      rw [Vector.getElem_replicate]
      simpa [Vector.getElem?_eq_getElem hi] using getElem?_join_of_isEmpty h i
    rw [slots_eq, slots_eq, none]

/-! ## Rows that were fetched -/

/-- Rows are told apart by their bytes, whatever registers, line, screen and memory each of them
was fetched from: with the same bytes they are the same row, so that over any line, in any window
and before any foreground they leave the same pixels, are drawn in the same columns and touch in
the same way. A row without sprites has nothing but zeros in its places, and no row with a sprite
has the same bytes there. -/
theorem fetch_told_by_state (registers registers' : Bytes 64) (line line' : Nat)
    (screenBase screenBase' : Nat) (memory memory' : VideoMemory) :
    let r := fetch registers line screenBase memory
    let r' := fetch registers' line' screenBase' memory'
    (r.state = r'.state → r = r' ∧
      ∀ (n : Nat) (pixels : Bytes n) (left right : Nat) (foreground : Nat → Bool),
        r.overlay pixels left right foreground = r'.overlay pixels left right foreground) ∧
    (r.isEmpty = true → r.slots = List.replicate (spriteCount * 8) 0 ∧
      (r'.isEmpty = false → r.slots ≠ r'.slots)) := by
  intro r r'
  constructor
  · intro same
    have row : r = r' := state_injective same
    exact ⟨row, fun n pixels left right foreground => by rw [row]⟩
  · intro clear
    have zeros := r.slots_eq_zeros.mpr clear
    refine ⟨zeros, fun there same => ?_⟩
    rw [r'.slots_eq_zeros.mp (same.symm.trans zeros)] at there
    exact Bool.noConfusion there

/-- Registers with the first sprite switched on, from a line on. -/
def oneSprite (line : UInt8) : Bytes 64 :=
  (((Bytes.replicate 64 0).put 0x00 24).put 0x01 line).put 0x15 0x01

/-- Memory in which every bit is set. -/
def solid : VideoMemory := ⟨fun _ => 0xFF, fun _ => 0⟩

/-- Memory with the first three bytes of one block of a sprite, and a screen that names it. -/
def oneBlock : VideoMemory where
  read address :=
    if address = 0x07F8 then 13 else if 0x0340 ≤ address ∧ address < 0x0343 then 0xFF else 0
  colour _ := 0

/-- The same line of a sprite from another block, on another line and beside another screen, next
to a row without sprites. -/
theorem fetch_told_by_state_moved :
    let r := fetch (oneSprite 0x40) 0x40 0 solid
    let r' := fetch (oneSprite 0x41) 0x41 0x0400 oneBlock
    let clear := fetch (oneSprite 0x41) 0x40 0 solid
    r.state = r'.state ∧ r = r' ∧ clear.isEmpty = true ∧ r.isEmpty = false ∧
      clear.slots ≠ r.slots := by
  have same : (fetch (oneSprite 0x40) 0x40 0 solid).state =
      (fetch (oneSprite 0x41) 0x41 0x0400 oneBlock).state := by decide +kernel
  have clear : (fetch (oneSprite 0x41) 0x40 0 solid).isEmpty = true := by decide +kernel
  have there : (fetch (oneSprite 0x40) 0x40 0 solid).isEmpty = false := by decide +kernel
  exact ⟨same, ((fetch_told_by_state _ _ _ _ _ _ _ _).1 same).1, clear, there,
    ((fetch_told_by_state _ _ _ _ _ _ _ _).2 clear).2 there⟩

end SpriteRow

end C64.Vic
