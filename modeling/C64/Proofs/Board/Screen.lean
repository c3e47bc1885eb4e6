import C64.Proofs.Board.Fixtures
import C64.Proofs.Raster.FullFrame
import C64.Proofs.Vic.Redrawing

/-!
# Lines that are still to come

A sink that keeps the whole screen goes by the line cache and by where the raster stands in it
(`Screen`). Of all that a processor does with a board, only the end of a raster line moves the
screen (`screen_simulates`), and it does so in one way (`Screen.Next`).

The screen serves a sink if every line that the sink does not track is to be rendered as a whole.
That alone does not bring the line into the frame that goes on, for the raster may have passed it.
Where the frame is to be whole, such a line has to be still to come (`Screen.Serves`). A line that
was passed without damage has none when the frame ends (`Screen.Leaves`).
-/

namespace C64.Board

open Raster Clock

/-- The line cache, and where the raster stands. -/
structure Screen where
  standard : VideoStandard
  cache : Cache Vic.shape
  rasterLine : Nat
  frame : Nat
  frameComplete : Bool

def Devices.screen (d : Devices) : Screen :=
  ⟨d.vic.standard, d.vic.cache, d.vic.rasterLine, d.vic.frame, d.frameComplete⟩

/-! ## What moves the screen -/

namespace Screen

/-- The end of the current raster line is the end of the frame. -/
def ended (v : Screen) : Bool := v.standard.linesPerFrame ≤ v.rasterLine + 1

/-- The end of a raster line: the line is rendered, if it is visible, and the raster moves on. -/
structure Next (v v' : Screen) : Prop where
  size : v.cache.height = v.standard.visibleLines
  standard : v'.standard = v.standard
  rasterLine : v'.rasterLine = if v.ended then 0 else v.rasterLine + 1
  frame : v'.frame = if v.ended then v.frame + 1 else v.frame
  frameComplete : v'.frameComplete = (v.frameComplete || v.ended)
  lines : ∀ (y : Nat) (l' : Vic.Line), v'.cache.lines[y]? = some l' →
    ∃ l, v.cache.lines[y]? = some l ∧
      (v.standard.row? v.rasterLine = some y ∧ Vic.Rerendered l l' ∨
        v.standard.row? v.rasterLine ≠ some y ∧ l' = l)

/-- What the end of a raster line does not break. -/
def Stable (P : Screen → Prop) : Prop := ∀ v v', Next v v' → P v → P v'

end Screen

variable {standard : VideoStandard} {cia : Cia.Config} {b b' : Board} {d : Devices}
  {P : Screen → Prop}

theorem Devices.Sound.screen_closeLine (h : d.Sound) (bank : Fin 4) :
    d.screen.Next (d.closeLine bank).screen := by
  obtain ⟨ended, vic, hend, -, heq⟩ := h.closeLine_eq bank
  obtain ⟨rfl, line, frame⟩ := h.vic.endOfLine_moves hend
  rw [heq]
  exact ⟨h.vic.cache.size, h.vic.endOfLine_standard hend, line, frame, rfl,
    fun _ _ hl => h.vic.endOfLine_lines hend hl⟩

theorem Devices.screen_expire (d : Devices) (bank : Fin 4) {e : Event} (h : e ≠ .rasterLine) :
    (d.expire bank e).screen = d.screen := by
  cases e with
  | rasterLine => exact absurd rfl h
  | rtc e => cases e; rfl
  | cia1 e => rfl
  | cia2 e => rfl
  | via e => rfl

theorem Sound.tick_screen (h : b.Sound) (stable : Screen.Stable P) (start : P b.devices.screen)
    {cycles : Nat} (hrun : b.tick cycles = .ok b') : P b'.devices.screen := by
  obtain ⟨d, clock⟩ := b
  obtain ⟨⟨clock', d'⟩, hadvance, hret⟩ := bind_eq_ok.mp hrun
  cases hret
  have lawful : Handler.Lawful (fire d.bank) fun d' => d'.Sound ∧ P d'.screen := by
    intro alarm c d₁ c' d₂ reach ⟨sound, holds⟩ hfire
    obtain ⟨reach', sound'⟩ := fire_lawful d.bank alarm c d₁ c' d₂ reach sound hfire
    obtain ⟨-, rfl⟩ := fire_ok hfire
    refine ⟨reach', sound', ?_⟩
    by_cases line : alarm.event = .rasterLine
    · rw [line]
      exact stable _ _ (sound.screen_closeLine d.bank) holds
    · rw [d₁.screen_expire d.bank line]
      exact holds
  exact (h.clock.advanceWithin lawful ⟨h.devices, start⟩ hadvance).2.2

theorem Devices.Accessed.screen {d d' : Devices} (h : d.Accessed d') : d'.screen = d.screen := by
  simp only [Devices.screen, h.standard, h.cache, h.rasterLine, h.frame, h.frameComplete]

/-- Whatever a processor does with a board keeps what the end of a raster line does not break. -/
theorem screen_simulates (stable : Screen.Stable P) :
    Bus.Simulates True fun b b' : Board => b = b' ∧ b.Fit standard cia ∧ P b.devices.screen :=
  access_simulates (P := fun d => P d.screen) (fun accessed holds => accessed.screen ▸ holds)
    fun sound holds hrun => sound.tick_screen stable holds hrun

theorem Fit.cpu_step_screen (h : b.Fit standard cia) (stable : Screen.Stable P)
    (start : P b.devices.screen) {cpu cpu' : Cpu} {n : Nat}
    (hrun : cpu.step b = .ok (n, cpu', b')) : P b'.devices.screen :=
  (Cpu.step_keeps (screen_simulates stable) ⟨h, start⟩ hrun).2

theorem Fit.cpu_reset_screen (h : b.Fit standard cia) (stable : Screen.Stable P)
    (start : P b.devices.screen) {cpu cpu' : Cpu} (hrun : cpu.reset b = .ok (cpu', b')) :
    P b'.devices.screen :=
  (Cpu.reset_keeps (screen_simulates stable) ⟨h, start⟩ hrun).2

namespace Screen

variable {v v' : Screen} {s s' : FullFrame} {whole whole' : Prop}

/-! ## Lines that a sink is owed -/

/-- The raster has not passed a line in the frame that goes on. -/
def Ahead (v : Screen) (y : Nat) : Prop :=
  v.frameComplete = false ∧ v.rasterLine ≤ v.standard.firstVisibleLine + y

/-- Every line that the sink does not track is to be rendered as a whole, and is still to come if
the frame is to be whole. -/
def Serves (whole : Prop) (s : FullFrame) (v : Screen) : Prop :=
  ∀ (y : Nat) (l : Vic.Line), v.cache.lines[y]? = some l →
    s.Tracks y l ∨ l.neverRendered = true ∧ (whole → v.Ahead y)

theorem Serves.mono (h : Serves whole s v) (less : whole' → whole) : Serves whole' s v :=
  fun y l hl => (h y l hl).imp_right fun ⟨never, ahead⟩ => ⟨never, ahead ∘ less⟩

/-- Where no line was passed, what is to be rendered is still to come. -/
theorem Serves.ofTop (h : Serves whole s v) (top : v.Ahead 0) : Serves whole' s v :=
  fun y l hl => (h y l hl).imp_right fun ⟨never, _⟩ =>
    ⟨never, fun _ => ⟨top.1, Nat.le_trans top.2 (Nat.le_add_right _ y)⟩⟩

/-- A request for every line serves any sink, but not in the frame that goes on. -/
theorem serves_invalidate (s : FullFrame) (v : Screen) :
    Serves False s { v with cache := v.cache.invalidate } := by
  intro y l hl
  obtain ⟨old, -, rfl⟩ := Option.map_eq_some_iff.mp (Array.getElem?_map ▸ hl)
  exact .inr ⟨rfl, False.elim⟩

theorem Serves.invalidate (h : Serves whole s v) :
    Serves whole s { v with cache := v.cache.invalidate } := by
  intro y l hl
  obtain ⟨old, hold, rfl⟩ := Option.map_eq_some_iff.mp (Array.getElem?_map ▸ hl)
  exact (h y old hold).imp_right fun ⟨_, ahead⟩ => ⟨rfl, ahead⟩

theorem Serves.takeFrame (h : Serves whole s v) :
    Serves whole s { v with frameComplete := false } :=
  fun y l hl => (h y l hl).imp_right fun ⟨never, ahead⟩ =>
    ⟨never, fun frame => ⟨rfl, (ahead frame).2⟩⟩

/-- At the end of a frame that is whole no line is still to come, so all are tracked. -/
theorem Serves.tracks (h : Serves whole s v) (frame : whole) (complete : v.frameComplete = true)
    {y : Nat} {l : Vic.Line} (hl : v.cache.lines[y]? = some l) : s.Tracks y l := by
  rcases h y l hl with tracks | ⟨-, ahead⟩
  · exact tracks
  · exact absurd (complete.symm.trans (ahead frame).1) (by simp)

/-- A sink that was shown what it tracked needs no damage. -/
theorem Serves.present (h : Serves whole s v)
    (shows : ∀ (y : Nat) (l : Vic.Line), v.cache.lines[y]? = some l → s.Tracks y l → s'.Shows y l) :
    Serves whole s' { v with cache := v.cache.clearDamage } := by
  intro y l hl
  obtain ⟨old, hold, rfl⟩ := Option.map_eq_some_iff.mp (Array.getElem?_map ▸ hl)
  rcases h y old hold with tracks | waits
  · exact .inl ((shows y old hold tracks).tracks rfl)
  · exact .inr waits

/-- All visible lines are lines of the frame. -/
theorem lastVisible_lt (standard : VideoStandard) :
    standard.firstVisibleLine + standard.visibleLines ≤ standard.linesPerFrame := by
  cases standard <;> decide

theorem row?_eq_some {standard : VideoStandard} {line y : Nat} :
    standard.row? line = some y ↔
      line = standard.firstVisibleLine + y ∧ y < standard.visibleLines := by
  unfold VideoStandard.row?
  split
  · simp only [Option.some.injEq]
    omega
  · simp only [reduceCtorEq, false_iff]
    omega

/-- The end of a raster line renders it, so that a sink tracks it, and passes no other. -/
theorem serves_stable (whole : Prop) (s : FullFrame) : Stable (Serves whole s) := by
  intro v v' next serves y l' hl'
  obtain ⟨l, hl, ⟨-, drawn⟩ | ⟨apart, rfl⟩⟩ := next.lines y l' hl'
  · obtain ⟨damage, merged, records, covers⟩ := drawn.damage
    refine .inl ?_
    rcases serves y l hl with tracks | ⟨never, -⟩
    · exact tracks.records records merged
    · refine s.tracks_of_covers y fun x hx => ?_
      rw [merged]
      exact (covers never x hx).merge_right l.damage
  · refine (serves y l' hl).imp_right fun ⟨never, ahead⟩ => ⟨never, fun frame => ?_⟩
    obtain ⟨down, behind⟩ := ahead frame
    have visible : y < v.standard.visibleLines := next.size ▸ (Array.getElem?_eq_some_iff.mp hl).1
    have inFrame := lastVisible_lt v.standard
    have other : v.rasterLine ≠ v.standard.firstVisibleLine + y :=
      fun same => apart (row?_eq_some.mpr ⟨same, visible⟩)
    -- A visible line lies below the one that has ended, so that one is not the last of the frame.
    have more : v.ended = false := decide_eq_false (by omega)
    refine ⟨by rw [next.frameComplete, down, more]; rfl, ?_⟩
    rw [next.rasterLine, next.standard, more, if_neg (by simp)]
    omega

/-! ## Lines that were passed -/

/-- A line has no damage. -/
def Undamaged (v : Screen) (y : Nat) : Prop :=
  ∀ l : Vic.Line, v.cache.lines[y]? = some l → l.damage = none

/-- While the frame that was counted last goes on, the raster is behind an undamaged line; in the
next one the line has no damage until the raster comes by. -/
def Leaves (y frame : Nat) (v : Screen) : Prop :=
  v.frame = frame ∧ v.standard.firstVisibleLine + y < v.rasterLine ∧ v.Undamaged y ∨
    v.frame = frame + 1 ∧ (v.rasterLine ≤ v.standard.firstVisibleLine + y → v.Undamaged y) ∨
    frame + 2 ≤ v.frame

theorem Next.undamaged (next : v.Next v') {y : Nat} (undamaged : v.Undamaged y)
    (other : v.rasterLine ≠ v.standard.firstVisibleLine + y) : v'.Undamaged y := by
  intro l' hl'
  obtain ⟨l, hl, ⟨here, -⟩ | ⟨-, rfl⟩⟩ := next.lines y l' hl'
  · exact absurd (row?_eq_some.mp here).1 other
  · exact undamaged l' hl

theorem leaves_stable (y frame : Nat) : Stable (Leaves y frame) := by
  intro v v' next leaves
  have line := next.rasterLine
  have count := next.frame
  have standard := next.standard
  unfold Leaves at leaves ⊢
  rw [standard]
  rcases leaves with ⟨here, passed, undamaged⟩ | ⟨later, undamaged⟩ | beyond
  -- Behind the line the raster goes on to the end of the frame, and then to the top of the next.
  · have kept := next.undamaged undamaged (by omega)
    cases ended : v.ended with
    | true => exact .inr (.inl ⟨by simp [count, ended, here], fun _ => kept⟩)
    | false =>
      simp only [ended, Bool.false_eq_true, if_false] at line count
      exact .inl ⟨by omega, by omega, kept⟩
  · cases ended : v.ended with
    | true =>
      simp only [ended, if_true] at count
      exact .inr (.inr (by omega))
    | false =>
      simp only [ended, Bool.false_eq_true, if_false] at line count
      refine .inr (.inl ⟨by omega, fun before => ?_⟩)
      exact next.undamaged (undamaged (by omega)) (by omega)
  · refine .inr (.inr ?_)
    rw [count]
    split <;> omega

end Screen

/-- A reset starts a frame anew and asks for every line of it. -/
theorem reset_serves (hrun : b.reset = .ok b') (whole : Prop) (s : FullFrame) :
    b'.devices.screen.Serves whole s := by
  obtain ⟨cia1, cia2, clock₁, clock₂, due, clock₃, -, -, -, rfl⟩ := reset_ok hrun
  exact (Screen.serves_invalidate s
    ⟨b.devices.vic.standard, b.devices.vic.cache, 0, b.devices.vic.frame, false⟩).ofTop
      ⟨rfl, Nat.zero_le _⟩

end C64.Board
