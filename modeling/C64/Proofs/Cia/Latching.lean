import C64.Proofs.Cia.Watching

/-!
# Reading a time that goes on

A program reads the time of day one part after another, and the time goes on meanwhile. A read of
the hours holds it still for the reads that follow, and a read of the tenths lets it go. What is
shown in between is the time at the first read of the hours (`Watched.time_held`), whatever alarms
come and whatever is written: nothing but a read of the tenths and a reset ends it. The time itself
goes on as if nobody read it (`AsUnread`).
-/

namespace C64.Cia

open Clock

/-- The part of the time that a register shows. -/
def timePart? (register : UInt8) : Option TimePart :=
  match (register &&& 0x0F).toNat with
  | 0x8 => some .tenths
  | 0x9 => some .seconds
  | 0xA => some .minutes
  | 0xB => some .hours
  | _ => none

/-- The chips differ in nothing but what a read can change: the time that is held, and the flags of
the interrupt sources. -/
def AsUnread (c c' : Cia) : Prop := ∃ held flags, c' = { c with todHeld := held, sources := flags }

variable {c c' : Cia}

namespace AsUnread

theorem refl (c : Cia) : AsUnread c c := ⟨_, _, rfl⟩

theorem trans {c'' : Cia} (h : AsUnread c c') (h' : AsUnread c' c'') : AsUnread c c'' := by
  obtain ⟨held, flags, rfl⟩ := h
  obtain ⟨held', flags', rfl⟩ := h'
  exact ⟨held', flags', rfl⟩

theorem tod (h : AsUnread c c') : c'.tod = c.tod := by
  obtain ⟨held, flags, rfl⟩ := h
  rfl

theorem again? (h : AsUnread c c') (e : Event) : c'.again? e = c.again? e := by
  obtain ⟨held, flags, rfl⟩ := h
  cases e with
  | timer which => cases which <;> rfl
  | tod =>
    unfold Cia.again?
    rw [tenth_expire, tenth_expire]
    rfl

theorem expire (h : AsUnread c c') (e : Event) : AsUnread (c.expire e) (c'.expire e) := by
  obtain ⟨held, flags, rfl⟩ := h
  unfold Cia.expire
  rcases e with (_ | _) | _
  · let c₁ := (c.raise (Source.timer .a)).withTimer .a c.timerA.underflow
    show AsUnread (if c.chained then c₁.countUnderflow else c₁) (if c.chained then _ else _)
    split
    · unfold countUnderflow
      show AsUnread (if c.timerB.counter = 0 then _ else _) (if c.timerB.counter = 0 then _ else _)
      split <;> exact ⟨_, _, rfl⟩
    · exact ⟨_, _, rfl⟩
  · exact ⟨_, _, rfl⟩
  · show AsUnread (if c.todStopped then _ else _) (if c.todStopped then _ else _)
    split
    · exact ⟨_, _, rfl⟩
    · unfold advanceTod
      show AsUnread (if c.tod.next = c.todAlarm then _ else _)
        (if c.tod.next = c.todAlarm then _ else _)
      split <;> exact ⟨_, _, rfl⟩

variable {ε : Type} [DecidableEq ε] {event : Event → ε}

theorem onAlarm (h : AsUnread c c') (clock : Clock ε) (e : Event) (due : Nat) :
    Together True (fun p q => AsUnread p.1 q.1 ∧ p.2 = q.2) (c.onAlarm event clock e due)
      (c'.onAlarm event clock e due) := by
  refine .both ?_ ?_
  · rintro ⟨c₁, clock₁⟩ handled
    obtain ⟨again, rfl⟩ := onAlarm_ok event handled
    rw [← h.again? e] at again
    exact ⟨_, onAlarm_of_setAgain event again, h.expire e, rfl⟩
  · rintro ⟨c₁, clock₁⟩ handled
    obtain ⟨again, rfl⟩ := onAlarm_ok event handled
    rw [h.again? e] at again
    exact ⟨_, onAlarm_of_setAgain event again⟩

theorem read (c : Cia) (clock : Clock ε) (register : UInt8) :
    AsUnread (c.read event clock register).2 c := by
  unfold Cia.read
  simp only []
  split <;> exact ⟨_, _, rfl⟩

theorem writeTod (h : AsUnread c c') (part : TimePart) (b : UInt8) :
    AsUnread (c.writeTod part b) (c'.writeTod part b) := by
  obtain ⟨held, flags, rfl⟩ := h
  unfold Cia.writeTod
  simp only []
  split <;> exact ⟨_, _, rfl⟩

variable [ToString ε]

theorem writeControl (h : AsUnread c c') (clock : Clock ε) (which : TimerId) (b : UInt8) :
    Together True (fun p q => AsUnread p.1 q.1 ∧ p.2 = q.2) (c.writeControl event clock which b)
      (c'.writeControl event clock which b) := by
  obtain ⟨held, flags, rfl⟩ := h
  rw [writeControl_parts, writeControl_parts]
  -- The chips start the same timer and set the same alarms.
  have same {α : Type} (x : Except Fault α) : Together True Eq x x := .self fun _ _ => rfl
  cases which <;>
  · refine (same (startTimer event _ (clock.cancel _) _)).bind ?_
    rintro started _ rfl
    refine (same (ite _ (scheduleTod event _ started) (.ok started))).bind ?_
    rintro clock' _ rfl
    exact .ok ⟨⟨_, _, rfl⟩, rfl⟩

theorem write (h : AsUnread c c') (clock : Clock ε) (register b : UInt8) :
    Together True (fun p q => AsUnread p.1 q.1 ∧ p.2 = q.2) (c.write event clock register b)
      (c'.write event clock register b) := by
  unfold Cia.write
  split
  case h_9 | h_10 | h_11 | h_12 => exact .ok ⟨h.writeTod _ b, rfl⟩
  case h_13 =>
    obtain ⟨held, flags, rfl⟩ := h
    refine .ok ⟨?_, rfl⟩
    show AsUnread (if anyBit c.timerA.control Control.serialOut then _ else _)
      (if anyBit c.timerA.control Control.serialOut then _ else _)
    split <;> exact ⟨_, _, rfl⟩
  case h_15 => exact h.writeControl clock .a b
  case h_16 => exact h.writeControl clock .b b
  all_goals
    obtain ⟨held, flags, rfl⟩ := h
    exact .ok ⟨⟨_, _, rfl⟩, rfl⟩

end AsUnread

/-! ## The time that is held -/

section Held

variable {ε : Type} [DecidableEq ε] {event : Event → ε}

/-- A register of the time of day shows its part of the time that is held, or of the time. -/
theorem read_time {register : UInt8} {part : TimePart} (shows : timePart? register = some part)
    (c : Cia) (clock : Clock ε) : (c.read event clock register).1 = c.todShown.get part := by
  unfold timePart? at shows
  unfold read peek
  split at shows
  case h_5 => exact absurd shows (by simp)
  all_goals next at' =>
    cases shows
    rw [at']
    rfl

/-- A read of the tenths lets the time go, and a read of the hours holds what is shown. -/
theorem todHeld_read (c : Cia) (clock : Clock ε) (register : UInt8) :
    (c.read event clock register).2.todHeld =
      match timePart? register with
      | some .tenths => none
      | some .hours => some c.todShown
      | _ => c.todHeld := by
  unfold read timePart?
  simp only []
  generalize (register &&& 0x0F).toNat = n
  split
  · rfl
  · rfl
  · rfl
  · -- No other register shows the tenths or the hours.
    split <;> first
      | rfl
      | next part => split at part <;> contradiction

end Held

namespace Watched

variable {ε σ : Type}

namespace Turn

/-- The turn reads a part of the time. -/
def Reads (part : TimePart) : Turn ε σ → Prop
  | .read register => timePart? register = some part
  | _ => False

def isRead : Turn ε σ → Bool
  | .read _ => true
  | _ => false

end Turn

variable [DecidableEq ε] [ToString ε] {event : Event → ε} {others : Handler ε σ} {budget : Nat}
  {x y : Clock ε × Watched σ} {turn : Turn ε σ} {turns : List (Turn ε σ)}

/-- What is held changes with reads of the hours and the tenths and with a reset. -/
theorem act_todHeld (acted : act event others budget x turn = .ok y) :
    y.2.cia.todHeld =
      match turn with
      | .read register => (x.2.cia.read event x.1 register).2.todHeld
      | .reset => none
      | _ => x.2.cia.todHeld := by
  cases turn with
  | advance cycles =>
    refine advance_keeps (P := fun s => s.cia.todHeld = x.2.cia.todHeld) ?_ rfl acted
    rintro s _ same (e | rest)
    · obtain ⟨timerA, timerB, tod, behind⟩ := s.cia.expire_changes e
      rw [behind]
      exact same
    · exact same
  | write register b =>
    obtain ⟨⟨cia, clock⟩, written, hret⟩ := bind_eq_ok.mp acted
    cases hret
    exact (write_frame written).2
  | reset =>
    obtain ⟨⟨cia, clock⟩, started, hret⟩ := bind_eq_ok.mp acted
    obtain ⟨clock', -, fresh⟩ := bind_eq_ok.mp started
    cases fresh
    cases hret
    rfl
  | read _ | drive _ _ | flagEdge | others _ =>
    cases acted
    rfl

/-- A time that is held stays until the tenths are read or the chip is reset. -/
theorem run_held {t : TimeOfDay} (quiet : ∀ turn ∈ turns, ¬turn.Reads .tenths ∧ turn ≠ .reset)
    (before : x.2.cia.todHeld = some t) (ran : run event others budget turns x = .ok y) :
    y.2.cia.todHeld = some t := by
  refine run_keeps (P := fun z => z.2.cia.todHeld = some t) (fun turn mem x y held acted => ?_)
    before ran
  obtain ⟨keeps, noReset⟩ := quiet turn mem
  rw [act_todHeld acted]
  cases turn with
  | read register =>
    simp only [todHeld_read]
    split
    · next lets => exact absurd lets keeps
    · unfold todShown
      rw [held]
      rfl
    · exact held
  | reset => exact absurd rfl noReset
  | _ => exact held

/-- None is held until the hours are read. -/
theorem run_free (quiet : ∀ turn ∈ turns, ¬turn.Reads .hours) (before : x.2.cia.todHeld = none)
    (ran : run event others budget turns x = .ok y) : y.2.cia.todHeld = none := by
  refine run_keeps (P := fun z => z.2.cia.todHeld = none) (fun turn mem x y free acted => ?_)
    before ran
  have keeps := quiet turn mem
  rw [act_todHeld acted]
  cases turn with
  | read register =>
    simp only [todHeld_read]
    split
    · rfl
    · next holds => exact absurd holds keeps
    · exact free
  | reset => rfl
  | _ => exact free

/-! ## The time itself -/

/-- As if nobody read the chip. -/
def Unnoticed (s t : Watched σ) : Prop := AsUnread s.cia t.cia ∧ s.rest = t.rest

omit [ToString ε] in
theorem serve_abreast : Abreast Unnoticed (serve event others) (serve event others) := by
  rintro alarm clock s t ⟨chips, rest⟩
  unfold serve
  cases owner? event alarm.event with
  | some e =>
    refine (chips.onAlarm clock e alarm.due).bind ?_
    rintro ⟨c, clock₁⟩ ⟨c', _⟩ ⟨chips', rfl⟩
    exact .ok ⟨rfl, chips', rest⟩
  | none =>
    rw [← rest]
    simp only []
    cases others alarm clock s.rest with
    | error e => exact .error trivial
    | ok out => exact .ok ⟨rfl, chips, rfl⟩

/-- A turn that is no read does the same to a chip that was not read. -/
theorem act_unnoticed (unread : turn.isRead = false) (h : Beside Unnoticed x y) :
    Together True (Beside Unnoticed) (act event others budget x turn)
      (act event others budget y turn) := by
  obtain ⟨clock, s, t, rfl, rfl, chips, rest⟩ := h.parts
  cases turn with
  | advance cycles => exact advanceWithin_together serve_abreast budget cycles clock ⟨chips, rest⟩
  | read register => exact absurd unread (by simp [Turn.isRead])
  | write register b =>
    refine (chips.write clock register b).bind ?_
    rintro ⟨c, clock₁⟩ ⟨c', _⟩ ⟨chips', rfl⟩
    exact .ok ⟨rfl, chips', rest⟩
  | drive a b =>
    obtain ⟨held, flags, same⟩ := chips
    exact .ok ⟨rfl, ⟨held, flags, by rw [same]⟩, rest⟩
  | flagEdge =>
    obtain ⟨held, flags, same⟩ := chips
    exact .ok ⟨rfl, ⟨held, _, by rw [same]; rfl⟩, rest⟩
  | reset =>
    obtain ⟨held, flags, same⟩ := chips
    have reset : t.cia.reset event clock = s.cia.reset event clock := by rw [same]; rfl
    unfold act
    simp only [reset]
    cases s.cia.reset event clock with
    | error e => exact .error trivial
    | ok out => exact .ok ⟨rfl, .refl _, rest⟩
  | others change =>
    unfold act
    rw [rest]
    exact .ok ⟨rfl, chips, rfl⟩

/-- Reads change nothing for anything else. -/
theorem run_unnoticed (turns : List (Turn ε σ)) (h : Beside Unnoticed x y) :
    Together True (Beside Unnoticed) (run event others budget turns x)
      (run event others budget (turns.filter fun turn => !turn.isRead) y) := by
  induction turns generalizing x y with
  | nil => exact .ok h
  | cons turn rest ih =>
    unfold run at ih ⊢
    cases reads : turn.isRead with
    | false =>
      rw [List.filter_cons_of_pos (by simp [reads]), List.foldlM_cons, List.foldlM_cons]
      exact (act_unnoticed reads h).bind fun _ _ h => ih h
    | true =>
      rw [List.filter_cons_of_neg (by simp [reads]), List.foldlM_cons]
      cases turn with
      | read register =>
        obtain ⟨clock, chips, rest⟩ := h
        exact ih ⟨clock, (AsUnread.read x.2.cia x.1 register).trans chips, rest⟩
      | _ => exact absurd reads (by simp [Turn.isRead])

/-- On a chip that holds no time, a read of the hours shows the hours and holds the time. Whatever
happens then but a read of the tenths or a reset, each part of the time that is read is that of the
time at the read of the hours, and so is that of the tenths which ends it. From there on, until the
hours are read again, each part is that of the time as it is. And the time itself, with all else on
the clock, goes on as if there had been no reads. -/
theorem time_held (free : x.2.cia.todHeld = none) {hours : UInt8}
    (readsHours : timePart? hours = some .hours) {between : List (Turn ε σ)}
    (quiet : ∀ turn ∈ between, ¬turn.Reads .tenths ∧ turn ≠ .reset)
    (ran : run event others budget (.read hours :: between) x = .ok y) :
    (x.2.cia.read event x.1 hours).1 = x.2.cia.tod.hours ∧
      (∀ register part, timePart? register = some part →
        (y.2.cia.read event y.1 register).1 = x.2.cia.tod.get part) ∧
      (∀ tenths, timePart? tenths = some .tenths → ∀ later : List (Turn ε σ),
        (∀ turn ∈ later, ¬turn.Reads .hours) → ∀ z,
        run event others budget (.read tenths :: later) y = .ok z → z.2.cia.todHeld = none ∧
          ∀ register part, timePart? register = some part →
            (z.2.cia.read event z.1 register).1 = z.2.cia.tod.get part) ∧
      ∀ turns : List (Turn ε σ), Together True
        (fun z z' => z'.1 = z.1 ∧ z'.2.cia.tod = z.2.cia.tod ∧ AsUnread z.2.cia z'.2.cia ∧
          z'.2.rest = z.2.rest)
        (run event others budget turns x)
        (run event others budget (turns.filter fun turn => !turn.isRead) x) := by
  have shown : x.2.cia.todShown = x.2.cia.tod := by
    unfold todShown
    rw [free]
    rfl
  refine ⟨?_, fun register part shows => ?_, fun tenths readsTenths later live z ranLater => ?_,
    fun turns => ?_⟩
  · rw [read_time readsHours, shown]
    rfl
  · unfold run at ran
    rw [List.foldlM_cons] at ran
    obtain ⟨held, first, ran⟩ := bind_eq_ok.mp ran
    have holds : held.2.cia.todHeld = some x.2.cia.tod := by
      rw [act_todHeld first]
      simp only [todHeld_read, readsHours, shown]
    rw [read_time shows]
    unfold todShown
    rw [run_held quiet holds ran]
    rfl
  · unfold run at ranLater
    rw [List.foldlM_cons] at ranLater
    obtain ⟨gone, first, ranLater⟩ := bind_eq_ok.mp ranLater
    have lets : gone.2.cia.todHeld = none := by
      rw [act_todHeld first]
      simp only [todHeld_read, readsTenths]
    have none := run_free live lets ranLater
    refine ⟨none, fun register part shows => ?_⟩
    rw [read_time shows]
    unfold todShown
    rw [none]
    rfl
  · refine (run_unnoticed turns ⟨rfl, .refl _, rfl⟩).mono ?_
    rintro z z' ⟨clock, chips, rest⟩
    exact ⟨clock.symm, chips.tod, chips, rest.symm⟩

/-- A chip whose tenths come every sixty cycles, at the last tenth of the morning. -/
def noon : Clock Event × Watched Unit :=
  (Clock.zero.setAlarm 60 .tod,
    ⟨{ powerOn ⟨10, 1⟩ with tod := ⟨9, 0x59, 0x59, 0x11⟩ }, [], ()⟩)

/-- Noon comes behind the read of the hours, and the seconds are written. The minutes and the tenths
that are read are still those of the morning, and behind them the minutes and the tenths are those
past noon. -/
theorem time_held_noon :
    noon.2.cia.todHeld = none ∧ timePart? 0xB = some .hours ∧ timePart? 0x8 = some .tenths ∧
      ∃ y z, run id alone 2 [.read 0xB, .advance 60, .write 0x9 0x30, .read 0xB] noon = .ok y ∧
        run id alone 2 [.read 0x8, .advance 60] y = .ok z ∧
        (noon.2.cia.read id noon.1 0xB).1 = 0x11 ∧ y.2.cia.tod = ⟨0, 0x30, 0, 0x92⟩ ∧
        (y.2.cia.read id y.1 0xA).1 = 0x59 ∧ (y.2.cia.read id y.1 0x8).1 = 9 ∧
        (z.2.cia.read id z.1 0xA).1 = 0 ∧ (z.2.cia.read id z.1 0x8).1 = 1 := by
  have outcome : (run id alone 2 [.read 0xB, .advance 60, .write 0x9 0x30, .read 0xB] noon >>=
      fun y => run id alone 2 [.read 0x8, .advance 60] y >>=
        fun z => .ok (y.2.cia.tod, z.2.cia.tod)) =
          .ok (⟨0, 0x30, 0, 0x92⟩, ⟨1, 0x30, 0, 0x92⟩) := rfl
  obtain ⟨y, ran, outcome⟩ := bind_eq_ok.mp outcome
  obtain ⟨z, ranLater, outcome⟩ := bind_eq_ok.mp outcome
  obtain ⟨past, later⟩ := Prod.mk.inj (Except.ok.inj outcome)
  have free : noon.2.cia.todHeld = none := rfl
  have readsHours : timePart? 0xB = some .hours := rfl
  have readsTenths : timePart? 0x8 = some .tenths := rfl
  obtain ⟨hours, parts, live, -⟩ :=
    time_held free readsHours (by simp [Turn.Reads, timePart?]) ran
  obtain ⟨-, parts'⟩ := live 0x8 readsTenths [.advance 60] (by simp [Turn.Reads]) z ranLater
  refine ⟨free, readsHours, readsTenths, y, z, ran, ranLater, hours, past, parts 0xA .minutes rfl,
    parts 0x8 .tenths rfl, ?_, ?_⟩
  · rw [parts' 0xA .minutes rfl, later]
    rfl
  · rw [parts' 0x8 .tenths rfl, later]
    rfl

end Watched

end C64.Cia
