import C64.Proofs.Board.Raster
import C64.Proofs.Clock.Words

/-!
# Boards whose counts fit

Most counts of the chips are bounded by what they are made of: a sum of two bytes, say, or a place
in a buffer that a mask was laid over. What is left depends on the state, and `InWords` says that it
fits: the counter and the alarms, the sums that the video chip makes on its line, the digits of the
two clocks, and the counts that only grow.

A board is `Watched` if it keeps, beside its state, whether all of that fitted behind every write,
around every alarm and at both ends of a tick. No processor tells it from the board
(`watched_simulates`). On a live board it fits as long as the growing counts do (`Live.inWords`,
`Live.tick_watched`).
-/

namespace C64

/-! ## The video chip -/

/-- What the video chip reckons with on its line fits, and what it looks up is there. -/
structure Vic.InWords (v : Vic) : Prop where
  rasterLine : v.rasterLine + 1 < 0x10000
  /-- The cells up to the end of the row. -/
  row : (v.row + 1) * textColumns < 0x10000
  rc : v.rc + 1 < 0x100
  /-- The last byte of the screen matrix, behind the pointers of the sprites. -/
  matrix : v.screenBase + 0x3FF < 0x10000
  /-- The pixel row of the last character. -/
  font : v.charBase + 0xFF * 8 + v.rc < 0x10000
  bitmap : v.bitmapBase + 0x1FFF < 0x10000
  /-- A line that is to be kept has a place. -/
  place : ∀ index ∈ v.standard.row? v.rasterLine, index < v.cache.lines.size
  /-- What changed on a line lies in the line. -/
  damage : ∀ (y : Nat) (l : Line), v.cache.lines[y]? = some l → ∀ span ∈ l.damage, span.last < width

theorem Vic.Trailed.inWords {standard : VideoStandard} {view : Raster.View} {v : Vic}
    (h : Trailed standard view v) : v.InWords := by
  have line := h.sound.rasterLine
  have lines := linesPerFrame_le v.standard
  have row := h.sound.row
  have rc := h.sound.rc
  have screen : (v.register 0x18 >>> 4).toNat < 16 := by
    rw [UInt8.toNat_shiftRight]
    have := (v.register 0x18).toNat_lt
    simp [Nat.shiftRight_eq_div_pow]
    omega
  have char : (v.register 0x18 >>> 1 &&& 0x07).toNat < 8 := by
    rw [UInt8.toNat_and]
    exact Nat.lt_of_le_of_lt Nat.and_le_right (by decide : (0x07 : UInt8).toNat < 8)
  refine ⟨by omega, ?_, by omega, ?_, ?_, ?_, fun index hindex => h.sound.place_lt hindex, ?_⟩
  · unfold textColumns
    omega
  · unfold screenBase
    omega
  · unfold charBase
    omega
  · unfold bitmapBase
    split <;> decide
  · intro y l hl span hspan
    exact (h.trails y l hl).inside span hspan

namespace Board

open Clock

variable {standard : VideoStandard} {cia : Cia.Config} {d d' : Devices} {b b' : Board}
  {clock : Clock Event}

/-! ## The board -/

/-- Everything that a board counts with, and that its state alone bounds, fits. -/
structure InWords (b : Board) : Prop where
  clock : b.clock.InWords
  vic : b.devices.vic.InWords
  frame : b.devices.vic.frame < 0x10000000000000000
  cia1 : b.devices.cia1.tod.InBytes
  cia2 : b.devices.cia2.tod.InBytes

/-- The counts that only grow fit. -/
structure CountsFit (b : Board) : Prop where
  clock : b.clock.CountsFit
  frame : b.devices.vic.frame < 0x10000000000000000

/-- What every alarm keeps of the devices, whatever else is due. -/
structure Devices.Orderly (standard : VideoStandard) (d : Devices) : Prop where
  sound : d.Sound
  dialled : d.Dialled
  trailed : ∃ view, Vic.Trailed standard view d.vic

theorem Devices.Orderly.inWords (h : d.Orderly standard) (reach : clock.Reachable)
    (counts : clock.CountsFit) (frame : d.vic.frame < 0x10000000000000000) : InWords ⟨d, clock⟩ := by
  obtain ⟨-, dialled, view, trailed⟩ := h
  exact ⟨reach.wellFormed.inWords counts, trailed.inWords, frame, dialled.cia1.inBytes,
    dialled.cia2.inBytes⟩

theorem Live.orderly (h : b.Live standard cia) : b.devices.Orderly standard :=
  ⟨h.fit.sound.devices, h.dialled, h.trailed⟩

theorem Live.inWords (h : b.Live standard cia) (counts : b.CountsFit) : b.InWords :=
  h.orderly.inWords h.fit.sound.clock counts.clock counts.frame

theorem fire_keeps_orderly (bank : Fin 4) : Handler.Lawful (fire bank) (Devices.Orderly standard) := by
  rintro alarm c d c' d' hc ⟨sound, dialled, trailed⟩ h
  obtain ⟨reach, sound', dialled'⟩ := fire_keeps_dialled bank alarm c d c' d' hc ⟨sound, dialled⟩ h
  exact ⟨reach, sound', dialled', (fire_keeps_trailed bank alarm c d c' d' hc trailed h).2⟩

/-- No alarm takes a frame back. -/
theorem Devices.Sound.frame_le_expire (h : d.Sound) (bank : Fin 4) (e : Event) :
    d.vic.frame ≤ (d.expire bank e).vic.frame := by
  by_cases line : e = .rasterLine
  · subst line
    have next := congrArg Beam.frame (h.beam_closeLine bank 0).2
    exact Nat.le_trans ((d.beam 0).frame_le_next d.vic.standard) (Nat.le_of_eq next.symm)
  · exact Nat.le_of_eq (congrArg Beam.frame (d.beam_expire bank line 0).2).symm

/-- Around every alarm everything fits, if the growing counts do in the end. -/
theorem fire_seen (bank : Fin 4) : (fire bank).Seen (fun clock d => InWords ⟨d, clock⟩)
    (Devices.Orderly standard) fun d => d.vic.frame < 0x10000000000000000 where
  lawful := fire_keeps_orderly bank
  sees reach orderly counts frame := orderly.inWords reach counts frame
  grows := by
    intro alarm c c' d d' orderly h counts frame
    obtain ⟨hset, rfl⟩ := fire_ok h
    exact ⟨counts.of_setAgain hset,
      Nat.lt_of_le_of_lt (orderly.sound.frame_le_expire bank alarm.event) frame⟩

/-! ## Watching a board -/

/-- A board, and whether everything has fitted so far. -/
structure Watched where
  board : Board
  fits : Prop

/-- A board that is watched from now on. -/
def watch (b : Board) : Watched := ⟨b, b.InWords⟩

namespace Watched

def read (w : Watched) (address : UInt16) : UInt8 × Watched :=
  let (value, board) := w.board.read address
  (value, { w with board })

/-- A write, behind which everything is to fit. -/
def write (w : Watched) (address : UInt16) (value : UInt8) : Except Fault Watched := do
  let board ← w.board.write address value
  return ⟨board, w.fits ∧ board.InWords⟩

/-- The passing of time, at whose ends and around whose alarms everything is to fit. -/
def tick (w : Watched) (cycles : Nat) : Except Fault Watched := do
  let ⟨⟨d, clock⟩, fits⟩ := w
  let (clock', d', seen) ← clock.advance ((fire d.bank).watched fun clock d => InWords ⟨d, clock⟩)
    cycles (d, fits ∧ InWords ⟨d, clock⟩)
  return ⟨⟨d', clock'⟩, seen ∧ InWords ⟨d', clock'⟩⟩

instance : Bus Watched where
  read := read
  write := write
  tick := tick
  lines w := w.board.lines

end Watched

/-- Watching a board changes nothing. -/
theorem watched_simulates : Bus.Simulates True fun (w : Watched) (b : Board) => w.board = b where
  read := by
    rintro ⟨b, fits⟩ _ rfl address
    exact ⟨rfl, rfl⟩
  write := by
    rintro ⟨b, fits⟩ _ rfl address value
    show Together True _ (Watched.write ⟨b, fits⟩ address value) (b.write address value)
    unfold Watched.write
    cases b.write address value with
    | error e => exact .error trivial
    | ok b' => exact .ok rfl
  tick := by
    rintro ⟨⟨d, clock⟩, fits⟩ _ rfl n -
    refine (advanceWithin_watched _ n _).bind ?_
    rintro ⟨clock', d', seen⟩ ⟨_, _⟩ ⟨rfl, rfl⟩
    exact .ok rfl
  lines := by
    rintro ⟨b, fits⟩ _ rfl
    rfl

/-- Where the growing counts fit in the end, everything fits all the time. -/
theorem Live.tick_watched (h : b.Live standard cia) {n : Nat} (hrun : b.tick n = .ok b')
    (counts : b'.CountsFit) {fits : Prop} (hfits : fits) :
    Succeeds (fun w : Watched => w.fits) (Bus.tick (⟨b, fits⟩ : Watched) n) := by
  have orderly := h.orderly
  have reach := h.fit.sound.clock
  obtain ⟨d, clock⟩ := b
  obtain ⟨⟨clock', d'⟩, hadvance, hret⟩ := bind_eq_ok.mp hrun
  cases hret
  obtain ⟨⟨counts₀, frame₀⟩, watch⟩ :=
    (fire_seen d.bank).advanceWithin reach orderly hadvance counts.clock counts.frame
  obtain ⟨reach', orderly'⟩ := reach.advanceWithin (fire_keeps_orderly d.bank) orderly hadvance
  obtain ⟨seen, hseen, hwatch⟩ := watch (fits ∧ InWords ⟨d, clock⟩)
    ⟨hfits, orderly.inWords reach counts₀ frame₀⟩
  refine ⟨⟨⟨d', clock'⟩, seen ∧ InWords ⟨d', clock'⟩⟩, ?_, hseen,
    orderly'.inWords reach' counts.clock counts.frame⟩
  show (advanceWithin _ _ _ _ _ >>= _) = _
  rw [hwatch]
  rfl

/-- A watched board within a step that began on `b₀`, behind so many writes. It goes on, and
everything has fitted if there was room for the alarms that the writes could set. -/
structure Accessed (standard : VideoStandard) (cia : Cia.Config) (b₀ : Board) (writes : Nat)
    (w : Watched) : Prop where
  live : w.board.Live standard cia
  stand : w.board.stand = b₀.stand
  numbered : w.board.clock.nextOrder ≤ b₀.clock.nextOrder + 2 * writes
  fits : b₀.clock.nextOrder + 2 * writes < 0x10000000000000000 → w.fits

theorem Live.accessed (h : b.Live standard cia) (counts : b.CountsFit) :
    Accessed standard cia b 0 b.watch :=
  ⟨h, rfl, Nat.le_refl _, fun _ => h.inWords counts⟩

theorem accessed_sustains {b₀ : Board} (counts : b₀.CountsFit) :
    Bus.Sustains (Accessed standard cia b₀) where
  read := by
    rintro writes ⟨b, fits⟩ ⟨live, stands, numbered, known⟩ address
    obtain ⟨live', stands', numbered'⟩ :=
      (live_sustains b₀).read ⟨live, stands, numbered⟩ address
    exact ⟨live', stands', numbered', known⟩
  write := by
    rintro writes ⟨b, fits⟩ ⟨live, stands, numbered, known⟩ address value
    refine ((live_sustains b₀).write ⟨live, stands, numbered⟩ address value).bind ?_
    rintro b' ⟨live', stands', numbered'⟩
    refine .ok ⟨live', stands', numbered', fun room => ⟨known (by omega), live'.inWords ?_⟩⟩
    simp only [Board.stand, Stand.mk.injEq] at stands'
    obtain ⟨now, base, rebases, -, -, -, frame, -⟩ := stands'
    refine ⟨⟨?_, Nat.lt_of_le_of_lt numbered' room, rebases ▸ counts.clock.rebases⟩,
      frame ▸ counts.frame⟩
    unfold Clock.elapsed
    rw [now, base]
    exact counts.clock.elapsed

end Board

end C64
