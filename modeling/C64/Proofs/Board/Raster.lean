import Mathlib.Logic.Function.Iterate
import Mathlib.Tactic.Ring
import C64.Proofs.Board.Running
import C64.Proofs.Board.Ticks
import C64.Proofs.Clock.Counting
import C64.Proofs.Clock.Outcome

/-!
# The raster in time

The alarm that ends a raster line comes again a line behind the cycle it was set for, not behind
the cycle it was handled at. So what fires in a tick moves the raster by whole lines
(`fires_beam`), and the cycles left of the frame (`Stand.FrameEndsIn`) go down by just the cycles
that pass, whatever else fires and whether or not the clock is rebased on the way (`Live.tick`).
-/

namespace C64

/-- A frame is a line and the lines behind it. -/
theorem VideoStandard.cyclesPerFrame_eq (s : VideoStandard) :
    s.cyclesPerFrame = s.cyclesPerLine + (s.linesPerFrame - 1) * s.cyclesPerLine := by
  cases s <;> decide

namespace Board

open Clock

variable {standard : VideoStandard} {cia : Cia.Config} {d d' : Devices} {b b' : Board}

/-! ## Lines -/

/-- Where the raster stands in absolute time. -/
structure Beam where
  /-- The cycle at which the line ends. -/
  due : Nat
  line : Nat
  frame : Nat
  complete : Bool

/-- The end of a line. -/
def Beam.next (s : VideoStandard) (beam : Beam) : Beam :=
  let ended := decide (s.linesPerFrame ≤ beam.line + 1)
  { due := beam.due + s.cyclesPerLine
    line := if ended then 0 else beam.line + 1
    frame := if ended then beam.frame + 1 else beam.frame
    complete := beam.complete || ended }

theorem Beam.frame_le_next (s : VideoStandard) (beam : Beam) : beam.frame ≤ (beam.next s).frame := by
  unfold next
  simp only []
  split
  · exact Nat.le_succ _
  · exact Nat.le_refl _

theorem Beam.due_iterate (s : VideoStandard) (lines : Nat) (beam : Beam) :
    ((Beam.next s)^[lines] beam).due = beam.due + lines * s.cyclesPerLine := by
  induction lines generalizing beam with
  | zero => simp
  | succ lines ih =>
    rw [Function.iterate_succ_apply, ih, Nat.succ_mul]
    simp only [next]
    omega

/-- The raster of the devices, when the line ends at a cycle. -/
def Devices.beam (d : Devices) (due : Nat) : Beam :=
  ⟨due, d.vic.rasterLine, d.vic.frame, d.frameComplete⟩

theorem Devices.Sound.beam_closeLine (h : d.Sound) (bank : Fin 4) (due : Nat) :
    (d.closeLine bank).vic.standard = d.vic.standard ∧
      (d.closeLine bank).beam (due + d.vic.standard.cyclesPerLine) =
        (d.beam due).next d.vic.standard := by
  obtain ⟨ended, vic, hend, -, heq⟩ := h.closeLine_eq bank
  obtain ⟨rfl, hline, hframe⟩ := h.vic.endOfLine_moves hend
  rw [heq]
  refine ⟨h.vic.endOfLine_standard hend, ?_⟩
  simp only [beam, Beam.next, hline, hframe]
  rfl

/-- An alarm of another chip leaves the raster where it is. -/
theorem Devices.beam_expire (d : Devices) (bank : Fin 4) {e : Event} (h : e ≠ .rasterLine)
    (due : Nat) : (d.expire bank e).vic.standard = d.vic.standard ∧
      (d.expire bank e).beam due = d.beam due := by
  cases e with
  | rasterLine => exact absurd rfl h
  | rtc e => cases e; exact ⟨rfl, rfl⟩
  | cia1 e => exact ⟨rfl, rfl⟩
  | cia2 e => exact ⟨rfl, rfl⟩
  | via e => exact ⟨rfl, rfl⟩

/-- What fires up to a cycle moves the raster by whole lines, none of which ends behind it. -/
theorem fires_beam {bank : Fin 4} {limit n due : Nat} {q q' : Agenda Event}
    (h : Fires (responder bank) limit n q d q' d') (sound : d.Sound)
    (hdue : q.due? .rasterLine = some due) :
    d'.vic.standard = d.vic.standard ∧ ∃ lines due', q'.due? .rasterLine = some due' ∧
      d'.beam due' = (Beam.next d.vic.standard)^[lines] (d.beam due) ∧
      (lines = 0 ∨ due + (lines - 1) * d.vic.standard.cyclesPerLine ≤ limit) := by
  induction h generalizing due with
  | done _ => exact ⟨rfl, 0, due, hdue, rfl, .inl rfl⟩
  | @fire at' n event q q' d d' hle _ ih =>
    have next : ((responder bank) at' event d).2.Sound := sound.expire bank event
    by_cases line : event = .rasterLine
    · subst line
      obtain rfl : at' = due := by simpa using hdue
      obtain ⟨standard, moved⟩ := sound.beam_closeLine bank at'
      obtain ⟨kept, lines, due', hdue', hbeam, last⟩ :=
        ih next (Agenda.due?_set_self q (at' + d.vic.standard.cyclesPerLine) .rasterLine)
      have closed : ((responder bank) at' .rasterLine d).2 = d.closeLine bank := rfl
      rw [closed, standard] at kept hbeam last
      refine ⟨kept, lines + 1, due', hdue', ?_, .inr ?_⟩
      · rw [hbeam, moved, Function.iterate_succ_apply]
      · rcases last with rfl | last
        · simpa using hle
        · cases lines with
          | zero => simpa using hle
          | succ lines =>
            rw [Nat.add_sub_cancel] at last ⊢
            rw [Nat.succ_mul]
            omega
    · rw [Agenda.due?_cons_ne line] at hdue
      obtain ⟨standard, moved⟩ := d.beam_expire bank line due
      have waits : (((responder bank) at' event d).1.foldl (Request.apply at') q).due?
          .rasterLine = some due := by
        unfold responder recurring
        cases d.again? event with
        | none => exact hdue
        | some delay => exact (Agenda.due?_set_ne q (at' + delay) line).trans hdue
      obtain ⟨kept, lines, due', hdue', hbeam, last⟩ := ih next waits
      have expired : ((responder bank) at' event d).2 = d.expire bank event := rfl
      rw [expired, standard] at kept hbeam last
      rw [moved] at hbeam
      exact ⟨kept, lines, due', hdue', hbeam, last⟩

/-! ## Frames -/

/-- The frame ends `t` cycles from now: the rest of the line, and the lines behind it. -/
structure Beam.EndsIn (s : VideoStandard) (beam : Beam) (now t : Nat) : Prop where
  line_lt : beam.line < s.linesPerFrame
  ahead : now < beam.due
  near : beam.due ≤ now + s.cyclesPerLine
  left : beam.due + (s.linesPerFrame - 1 - beam.line) * s.cyclesPerLine = now + t

/-- Of frames that end at multiples of their length, the cycles gone by tell the line. -/
theorem Beam.EndsIn.line_eq {s : VideoStandard} {beam : Beam} {now t frames : Nat}
    (h : beam.EndsIn s now t) (whole : now + t = (frames + 1) * s.cyclesPerFrame) :
    beam.line = now / s.cyclesPerLine % s.linesPerFrame := by
  obtain ⟨rest, lines⟩ := Nat.exists_eq_add_of_lt h.line_lt
  have due : beam.due = (frames * s.linesPerFrame + beam.line + 1) * s.cyclesPerLine := by
    have left := h.left
    rw [show s.linesPerFrame - 1 - beam.line = rest by omega, whole] at left
    refine Nat.add_right_cancel (left.trans ?_)
    unfold VideoStandard.cyclesPerFrame
    rw [lines]
    ring
  have before : now / s.cyclesPerLine = frames * s.linesPerFrame + beam.line := by
    refine Nat.div_eq_of_lt_le ?_ (due ▸ h.ahead)
    have near := h.near
    rw [due, Nat.succ_mul] at near
    exact Nat.le_of_add_le_add_right near
  rw [before, Nat.mul_add_mod_self_right, Nat.mod_eq_of_lt h.line_lt]

/-- Within the line, time takes from the line. -/
theorem Beam.EndsIn.sameLine {s : VideoStandard} {beam : Beam} {now t n : Nat}
    (h : beam.EndsIn s now t) (ahead : now + n < beam.due) :
    n < t ∧ beam.EndsIn s (now + n) (t - n) := by
  have left := h.left
  have near := h.near
  exact ⟨by omega, h.line_lt, ahead, by omega, by omega⟩

/-- Behind a line that was not the last one, time has taken from the lines that are left. -/
theorem Beam.EndsIn.nextLine {s : VideoStandard} {due line frame now t n : Nat} {complete : Bool}
    (h : (⟨due, line, frame, complete⟩ : Beam).EndsIn s now t) (past : due ≤ now + n)
    (more : line + 1 < s.linesPerFrame)
    (ahead : now + n < due + s.cyclesPerLine) :
    n < t ∧ (⟨due + s.cyclesPerLine, line + 1, frame, complete⟩ : Beam).EndsIn s (now + n)
      (t - n) := by
  obtain ⟨-, before, near, left⟩ := h
  have fewer : (s.linesPerFrame - 1 - line) * s.cyclesPerLine =
      (s.linesPerFrame - 1 - (line + 1)) * s.cyclesPerLine + s.cyclesPerLine := by
    rw [← Nat.succ_mul]
    congr 1
    omega
  dsimp only at before near left
  exact ⟨by omega, more, ahead, by dsimp only; omega, by dsimp only; omega⟩

/-- Behind the last line the next frame has all its lines left. -/
theorem Beam.EndsIn.nextFrame {s : VideoStandard} {due line frame now t n : Nat} {complete : Bool}
    (h : (⟨due, line, frame, complete⟩ : Beam).EndsIn s now t) (past : due ≤ now + n)
    (final : s.linesPerFrame ≤ line + 1)
    (ahead : now + n < due + s.cyclesPerLine) :
    t ≤ n ∧ (⟨due + s.cyclesPerLine, 0, frame + 1, true⟩ : Beam).EndsIn s (now + n)
      (t + s.cyclesPerFrame - n) := by
  obtain ⟨-, before, near, left⟩ := h
  have none : s.linesPerFrame - 1 - line = 0 := by omega
  have whole := s.cyclesPerFrame_eq
  have lines : 0 < s.linesPerFrame := by cases s <;> decide
  simp only [none, Nat.zero_mul, Nat.add_zero] at before near left
  exact ⟨by omega, lines, ahead, by dsimp only; omega, by simp only [Nat.sub_zero]; omega⟩

/-- Whole lines that end within the time of one line are one at most. -/
theorem Beam.EndsIn.pass {s : VideoStandard} {beam : Beam} {now t n lines : Nat}
    (h : beam.EndsIn s now t) (short : n ≤ s.cyclesPerLine)
    (last : lines = 0 ∨ beam.due + (lines - 1) * s.cyclesPerLine ≤ now + n)
    (ahead : now + n < ((Beam.next s)^[lines] beam).due) :
    ((n < t ∧ ((Beam.next s)^[lines] beam).EndsIn s (now + n) (t - n)) ∧
        ((Beam.next s)^[lines] beam).frame = beam.frame ∧
        ((Beam.next s)^[lines] beam).complete = beam.complete) ∨
      ((t ≤ n ∧ ((Beam.next s)^[lines] beam).EndsIn s (now + n) (t + s.cyclesPerFrame - n)) ∧
        ((Beam.next s)^[lines] beam).frame = beam.frame + 1 ∧
        ((Beam.next s)^[lines] beam).complete = true) := by
  obtain ⟨due, line, frame, complete⟩ := beam
  match lines, last with
  | 0, _ => exact .inl ⟨h.sameLine ahead, rfl, rfl⟩
  | 1, last =>
    have past : due ≤ now + n := by simpa using last
    rw [Beam.due_iterate, Nat.one_mul] at ahead
    by_cases final : s.linesPerFrame ≤ line + 1
    · have next : (Beam.next s)^[1] ⟨due, line, frame, complete⟩ =
          ⟨due + s.cyclesPerLine, 0, frame + 1, true⟩ := by simp [Beam.next, final]
      rw [next]
      exact .inr ⟨h.nextFrame past final ahead, rfl, rfl⟩
    · have next : (Beam.next s)^[1] ⟨due, line, frame, complete⟩ =
          ⟨due + s.cyclesPerLine, line + 1, frame, complete⟩ := by simp [Beam.next, final]
      rw [next]
      exact .inl ⟨h.nextLine past (Nat.lt_of_not_le final) ahead, rfl, rfl⟩
  | lines + 2, last =>
    have past : due + (lines + 1) * s.cyclesPerLine ≤ now + n := by simpa using last
    have before : now < due := h.ahead
    rw [Nat.succ_mul] at past
    omega

/-- The frame of a board ends so many cycles from now. -/
def FrameEndsIn (b : Board) (t : Nat) : Prop :=
  ∃ due, b.clock.agenda.due? .rasterLine = some due ∧
    (b.devices.beam due).EndsIn b.devices.vic.standard b.clock.elapsed t

/-- So many cycles later, when the frame was to end in `t` cycles. -/
inductive Passes (b : Board) (t n : Nat) (b' : Board) : Prop
  /-- The frame goes on. -/
  | within : n < t → b'.FrameEndsIn (t - n) → b'.devices.vic.frame = b.devices.vic.frame →
      b'.devices.frameComplete = b.devices.frameComplete → Passes b t n b'
  /-- The frame has ended, and the next one has begun. -/
  | ended : t ≤ n → b'.FrameEndsIn (t + b.devices.vic.standard.cyclesPerFrame - n) →
      b'.devices.vic.frame = b.devices.vic.frame + 1 → b'.devices.frameComplete = true →
      Passes b t n b'

theorem FrameEndsIn.pos {t : Nat} (h : b.FrameEndsIn t) : 0 < t := by
  obtain ⟨due, -, -, ahead, -, left⟩ := h
  omega

/-- No frame is longer than a frame. -/
theorem FrameEndsIn.le {t : Nat} (h : b.FrameEndsIn t) :
    t ≤ b.devices.vic.standard.cyclesPerFrame := by
  obtain ⟨due, -, -, -, near, left⟩ := h
  have fewer : (b.devices.vic.standard.linesPerFrame - 1 - (b.devices.beam due).line) *
      b.devices.vic.standard.cyclesPerLine ≤
        (b.devices.vic.standard.linesPerFrame - 1) * b.devices.vic.standard.cyclesPerLine :=
    Nat.mul_le_mul_right _ (Nat.sub_le _ _)
  have whole := b.devices.vic.standard.cyclesPerFrame_eq
  omega

/-- At the start of the first line the whole frame is left. -/
theorem frameEndsIn_firstLine (line : b.devices.vic.rasterLine = 0)
    (waits : b.clock.due? .rasterLine =
      some (b.clock.now + b.devices.vic.standard.cyclesPerLine)) :
    b.FrameEndsIn b.devices.vic.standard.cyclesPerFrame := by
  have pos : 0 < b.devices.vic.standard.linesPerFrame ∧
      0 < b.devices.vic.standard.cyclesPerLine := by
    cases b.devices.vic.standard <;> decide
  have whole := b.devices.vic.standard.cyclesPerFrame_eq
  have age : b.clock.elapsed = b.clock.base + b.clock.now := rfl
  refine ⟨b.clock.base + (b.clock.now + b.devices.vic.standard.cyclesPerLine), ?_, ?_, ?_, ?_, ?_⟩
  · rw [due?_agenda, waits]
    rfl
  all_goals simp only [Devices.beam, line, Nat.sub_zero]
  all_goals omega

/-- Where nothing but the chips' other affairs has moved, the frame ends as it was to. -/
theorem FrameEndsIn.of_stand {t : Nat} (h : b.FrameEndsIn t) (same : b'.stand = b.stand) :
    b'.FrameEndsIn t := by
  obtain ⟨due, hdue, ends⟩ := h
  simp only [stand, Stand.mk.injEq] at same
  obtain ⟨now, base, -, raster, standard, line, frame, complete⟩ := same
  refine ⟨due, ?_, ?_⟩
  · rw [due?_agenda, raster, base, ← due?_agenda]
    exact hdue
  · have age : b'.clock.elapsed = b.clock.elapsed := by
      unfold Clock.elapsed
      rw [now, base]
    have beam : b'.devices.beam due = b.devices.beam due := by
      simp only [Devices.beam, line, frame, complete]
    rw [standard, age, beam]
    exact ends

theorem Devices.Dialled.expire (h : d.Dialled) (sound : d.Sound) (bank : Fin 4) (e : Event) :
    (d.expire bank e).Dialled := by
  cases e with
  | cia1 e => exact { h with cia1 := Cia.dialled_expire h.cia1 e }
  | cia2 e => exact { h with cia2 := Cia.dialled_expire h.cia2 e }
  | via e => exact ⟨h.cia1, h.cia2⟩
  | rtc e => cases e; exact ⟨h.cia1, h.cia2⟩
  | rasterLine =>
    obtain ⟨ended, vic, -, -, heq⟩ := sound.closeLine_eq bank
    show (d.closeLine bank).Dialled
    rw [heq]
    exact ⟨h.cia1, h.cia2⟩

theorem fire_keeps_dialled (bank : Fin 4) :
    Handler.Lawful (fire bank) fun d => d.Sound ∧ d.Dialled := by
  intro alarm c d c' d' hc ⟨sound, dialled⟩ h
  obtain ⟨reach, sound'⟩ := fire_lawful bank alarm c d c' d' hc sound h
  obtain ⟨-, rfl⟩ := fire_ok h
  exact ⟨reach, sound', dialled.expire sound bank alarm.event⟩

theorem fire_keeps_trailed (bank : Fin 4) :
    Handler.Lawful (fire bank) fun d => ∃ view, Vic.Trailed standard view d.vic := by
  rintro alarm c d c' d' hc ⟨view, trailed⟩ h
  obtain ⟨hset, rfl⟩ := fire_ok h
  refine ⟨hc.setAgain hset, view, ?_⟩
  cases alarm.event with
  | rasterLine =>
    obtain ⟨ended, vic, hend, trailed'⟩ := trailed.endOfLine (d.memory.view bank)
    show Vic.Trailed standard view (d.closeLine bank).vic
    unfold Devices.closeLine
    rw [hend]
    exact trailed'
  | rtc e => cases e; exact trailed
  | cia1 e => exact trailed
  | cia2 e => exact trailed
  | via e => exact trailed

theorem fire_recurs (bank : Fin 4) :
    Handler.Recurs (fire bank) fun d => d.Sound ∧ d.Paced := by
  rintro alarm c d c' d' ⟨sound, paced⟩ h
  obtain ⟨hset, rfl⟩ := fire_ok h
  exact ⟨⟨sound.expire bank alarm.event, sound.paced_expire paced bank alarm.event⟩, _,
    fun delay hdelay => (sound.again?_ahead paced hdelay).1, hset⟩

theorem fire_recurring (bank : Fin 4) :
    Handler.Recurring (fire bank) Devices.again? (Devices.expire bank) :=
  fun _ _ _ _ _ h => fire_ok h

/-- A tick succeeds on a live board and leaves it live. -/
theorem Live.tick_live (h : b.Live standard cia) {n : Nat} (hn : n ≤ Cycle.clockMax) :
    Succeeds (fun b' => b'.Live standard cia ∧ b'.clock.elapsed = b.clock.elapsed + n ∧
      Counted Event.all.length n b.clock b'.clock ∧
      ∃ fired, (responder b.devices.bank).Leads (Devices.Ready b.devices.bank) fired b.clock
        b.devices b'.clock b'.devices) (b.tick n) := by
  have sound := h.fit.sound
  have ready : b.devices.Ready b.devices.bank := ⟨sound.devices, h.paced, rfl⟩
  obtain ⟨fired, b', htick, age, leads⟩ := sound.tick_leads ready hn
  have fit := h.fit.tick htick
  obtain ⟨d, clock⟩ := b
  obtain ⟨⟨clock', d'⟩, hadvance, hret⟩ := bind_eq_ok.mp htick
  cases hret
  have dialled := (sound.clock.advanceWithin (fire_keeps_dialled d.bank)
    ⟨sound.devices, h.dialled⟩ hadvance).2.2
  have trailed := (sound.clock.advanceWithin (fire_keeps_trailed d.bank) h.trailed hadvance).2
  have counted := (fire_recurs d.bank).advanceWithin sound.clock.wellFormed h.fit.scheduled.ahead
    Event.mem_all ⟨sound.devices, h.paced⟩ hn hadvance
  exact ⟨_, htick, ⟨fit, leads.good.paced, dialled, trailed⟩, age, counted, fired, leads⟩

/-- No alarm of a board between two operations is due. -/
theorem Scheduled.lt_due (h : b.Scheduled) {e : Event} {due : Nat}
    (hdue : b.clock.agenda.due? e = some due) : b.clock.elapsed < due := by
  rw [due?_agenda] at hdue
  obtain ⟨at', hat, rfl⟩ := Option.map_eq_some_iff.mp hdue
  exact Nat.add_lt_add_left (h.ahead.lt_due hat) b.clock.base

/-- Time brings the end of the frame nearer by just the cycles that pass. -/
theorem Live.tick (h : b.Live standard cia) {t n : Nat} (ends : b.FrameEndsIn t)
    (short : n ≤ standard.cyclesPerLine) :
    Succeeds (fun b' => b'.Live standard cia ∧ b'.clock.elapsed = b.clock.elapsed + n ∧
      Counted Event.all.length n b.clock b'.clock ∧ Passes b t n b') (b.tick n) := by
  have made := h.fit.made.vic
  have hn : n ≤ Cycle.clockMax := by
    have : standard.cyclesPerLine ≤ Cycle.clockMax := by cases standard <;> decide
    omega
  refine (h.tick_live hn).mono ?_
  rintro b' ⟨live, age, counted, fired, leads⟩
  refine ⟨live, age, counted, ?_⟩
  obtain ⟨due, hdue, ends⟩ := ends
  obtain ⟨kept, lines, due', hdue', hbeam, last⟩ :=
    fires_beam leads.fires h.fit.sound.devices hdue
  have ahead : b'.clock.elapsed < (b'.devices.beam due').due := live.fit.scheduled.lt_due hdue'
  rw [age] at last
  rw [hbeam, age] at ahead
  have passed := ends.pass (made.symm ▸ short) last ahead
  rw [← hbeam, ← age] at passed
  rcases passed with ⟨⟨soon, ends'⟩, same, still⟩ | ⟨⟨past, ends'⟩, next, done⟩
  · exact .within soon ⟨due', hdue', kept.symm ▸ ends'⟩ same still
  · exact .ended past ⟨due', hdue', kept.symm ▸ ends'⟩ next done

end Board

end C64
