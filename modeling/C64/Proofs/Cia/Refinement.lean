import C64.Proofs.Cia.Advance

/-!
# The adapter refines one that counts every cycle

Whatever is done to a chip with its alarms on a clock, it shows the bytes and the registers that
a chip shows which counts every cycle (`trace_eq_stepped`). Between two actions the alarms on the
clock are those the chip is owed, and none is due (`OnClock`). Most registers leave the alarms
alone; a control register sets the alarm of its timer anew for the counter it has reached
(`Retimed`).
-/

namespace C64.Cia

open Clock

variable {c : Cia}

/-! ## A chip on its clock -/

/-- The chip as it shows itself on its clock. -/
def steppedOn (c : Cia) (clock : Clock Event) : Stepped :=
  steppedAt clock.agenda clock.elapsed c

/-- A chip and its clock between two actions. -/
structure OnClock (c : Cia) (clock : Clock Event) : Prop where
  wellFormed : clock.WellFormed
  paced : c.config.Paced
  tracks : Tracks clock.agenda clock.elapsed c
  quiet : Quiet clock.agenda clock.elapsed

variable {clock : Clock Event}

theorem counter_eq (c : Cia) (clock : Clock Event) (which : TimerId) :
    (timerAt clock.agenda clock.elapsed c which).counter = c.counter id clock which := by
  unfold timerAt counter cyclesUntil? elapsed
  rw [due?_agenda, id]
  cases clock.due? (.timer which) with
  | none => rfl
  | some due => simp only [Option.map_some, Nat.add_sub_add_left]

theorem live_eq (c : Cia) (clock : Clock Event) : (steppedOn c clock).chip = c.live clock := by
  have ht : ∀ which, timerAt clock.agenda clock.elapsed c which =
      { c.timer which with counter := c.counter id clock which } := by
    intro which
    rw [← counter_eq]
    unfold timerAt
    split <;> rfl
  unfold steppedOn steppedAt live
  rw [ht, ht]
  rfl

/-- Registers that do not belong to a timer's control may change. -/
theorem OnClock.frame (h : OnClock c clock) {c' : Cia} (hconfig : c'.config = c.config)
    (hcontrol : ∀ which, (c'.timer which).control = (c.timer which).control) :
    OnClock c' clock where
  wellFormed := h.wellFormed
  paced := hconfig ▸ h.paced
  tracks :=
    { h.tracks with
      counting := fun which hc => h.tracks.counting which (hcontrol which ▸ hc)
      idle := fun which hc => h.tracks.idle which (hcontrol which ▸ hc) }
  quiet := h.quiet

theorem peek_steppedOn (c : Cia) (clock : Clock Event) (register : UInt8) :
    (steppedOn c clock).peek register = c.peek id clock register := by
  unfold Stepped.peek Cia.peek
  simp only [← counter_eq, steppedOn, steppedAt, timerAt_control]
  rfl

theorem OnClock.read (h : OnClock c clock) (register : UInt8) :
    OnClock (c.read id clock register).2 clock ∧
      (steppedOn c clock).read register =
        ((c.read id clock register).1, steppedOn (c.read id clock register).2 clock) := by
  unfold Stepped.read Cia.read
  rw [peek_steppedOn]
  generalize (register &&& 0x0F).toNat = r
  match r with
  | 0x8 => exact ⟨h.frame rfl fun which => by cases which <;> rfl, rfl⟩
  | 0xB => exact ⟨h.frame rfl fun which => by cases which <;> rfl, rfl⟩
  | 0xD => exact ⟨h.frame rfl fun which => by cases which <;> rfl, rfl⟩
  | 0x0 | 0x1 | 0x2 | 0x3 | 0x4 | 0x5 | 0x6 | 0x7 | 0x9 | 0xA | 0xC => exact ⟨h, rfl⟩
  | n + 0xE => exact ⟨h, rfl⟩

/-! ## Writing -/

theorem timer_withTimer (c : Cia) (which : TimerId) (x : Timer) :
    (c.withTimer which x).timer which = x := by
  cases which <;> rfl

theorem timer_steppedAt (q : Agenda Event) (t : Nat) (c : Cia) (which : TimerId) :
    (steppedAt q t c).chip.timer which = timerAt q t c which := by
  cases which <;> rfl

theorem steppedAt_withTimer (q : Agenda Event) (t : Nat) (c : Cia) (which : TimerId) (x : Timer) :
    steppedAt q t (c.withTimer which x) =
      ⟨(steppedAt q t c).chip.withTimer which (timerAt q t (c.withTimer which x) which),
        (steppedAt q t c).untilTenth⟩ := by
  cases which <;> rfl

/-- A timer's latch and counter may be written, not its control. -/
theorem OnClock.withTimer (h : OnClock c clock) {which : TimerId} {x : Timer}
    (hx : x.control = (c.timer which).control) : OnClock (c.withTimer which x) clock := by
  refine h.frame (by cases which <;> rfl) fun other => ?_
  cases which <;> cases other <;> first | exact hx | rfl

theorem OnClock.writeLow (h : OnClock c clock) (which : TimerId) (b : UInt8) :
    OnClock (c.withTimer which ((c.timer which).writeLow b)) clock ∧
      (steppedOn c clock).writeLatch which false b =
        steppedOn (c.withTimer which ((c.timer which).writeLow b)) clock := by
  refine ⟨h.withTimer rfl, ?_⟩
  unfold Stepped.writeLatch steppedOn
  rw [timer_steppedAt, steppedAt_withTimer]
  unfold timerAt
  rw [timer_withTimer]
  cases clock.agenda.due? (.timer which) <;> rfl

theorem OnClock.writeHigh (h : OnClock c clock) (which : TimerId) (b : UInt8) :
    OnClock (c.withTimer which ((c.timer which).writeHigh b)) clock ∧
      (steppedOn c clock).writeLatch which true b =
        steppedOn (c.withTimer which ((c.timer which).writeHigh b)) clock := by
  have hcontrol : ((c.timer which).writeHigh b).control = (c.timer which).control := by
    unfold Timer.writeHigh
    simp only []
    split <;> rfl
  refine ⟨h.withTimer hcontrol, ?_⟩
  unfold Stepped.writeLatch steppedOn
  rw [timer_steppedAt, steppedAt_withTimer]
  cases hd : clock.agenda.due? (.timer which) with
  | some due =>
    -- A timer with an alarm runs, so its counter is left alone.
    have hstart : anyBit (c.timer which).control Control.start = true :=
      (Bool.and_eq_true_iff.mp (h.tracks.countsCycles hd)).1
    have hwrite : (c.timer which).writeHigh b =
        { c.timer which with latch := wordOf b (lowByte (c.timer which).latch) } := by
      unfold Timer.writeHigh Timer.started
      rw [if_pos hstart]
    unfold timerAt
    rw [timer_withTimer, hwrite, hd]
    simp [hstart]
  | none =>
    unfold timerAt
    rw [timer_withTimer, hd]
    unfold Timer.writeHigh Timer.started
    cases hstart : anyBit (c.timer which).control Control.start <;> simp [hstart]

theorem OnClock.writeTod (h : OnClock c clock) (part : TimePart) (b : UInt8) :
    OnClock (c.writeTod part b) clock ∧
      (⟨(steppedOn c clock).chip.writeTod part b, (steppedOn c clock).untilTenth⟩ : Stepped) =
        steppedOn (c.writeTod part b) clock := by
  have hcontrol : (steppedOn c clock).chip.timerB.control = c.timerB.control :=
    timerAt_control clock.agenda clock.elapsed c .b
  unfold Cia.writeTod
  rw [hcontrol]
  simp only []
  split
  · exact ⟨h.frame rfl fun which => by cases which <;> rfl, rfl⟩
  · exact ⟨h.frame rfl fun which => by cases which <;> rfl, rfl⟩

/-- A clock on which the alarm of one event was set, moved or taken away. -/
structure Moved (clock clock' : Clock Event) (e : Event) (due : Option Nat) : Prop where
  wellFormed : clock'.WellFormed
  now_eq : clock'.now = clock.now
  elapsed_eq : clock'.elapsed = clock.elapsed
  self : clock'.agenda.due? e = due
  others : ∀ e', e' ≠ e → clock'.agenda.due? e' = clock.agenda.due? e'

theorem Moved.cancel (hc : clock.WellFormed) (e : Event) :
    Moved clock (clock.cancel e) e none where
  wellFormed := hc.cancel e
  now_eq := rfl
  elapsed_eq := rfl
  self := by rw [agenda_cancel, Agenda.due?_cancel_self]
  others e' he := by rw [agenda_cancel, Agenda.due?_cancel_ne _ (Ne.symm he)]

theorem Moved.set (hc : clock.WellFormed) {delay : Nat} (hd : delay ≤ Cycle.headroom) (e : Event) :
    Moved clock (clock.setAlarm (clock.now + delay) e) e (some (clock.elapsed + delay)) where
  wellFormed := hc.setAlarm (add_le_last hc.now_le hd) e
  now_eq := rfl
  elapsed_eq := rfl
  self := by rw [agenda_setAlarm, Agenda.due?_set_self]; unfold elapsed; rw [Nat.add_assoc]
  others e' he := by rw [agenda_setAlarm, Agenda.due?_set_ne _ _ (Ne.symm he)]

theorem Moved.trans {clock₂ clock₃ : Clock Event} {e : Event} {due due' : Option Nat}
    (h : Moved clock clock₂ e due) (h' : Moved clock₂ clock₃ e due') :
    Moved clock clock₃ e due' where
  wellFormed := h'.wellFormed
  now_eq := h'.now_eq.trans h.now_eq
  elapsed_eq := h'.elapsed_eq.trans h.elapsed_eq
  self := h'.self
  others e' he := (h'.others e' he).trans (h.others e' he)

/-- The chip with a control register written, before it is told of the tenths of a second. -/
def controlled (c : Cia) (clock : Clock Event) (which : TimerId) (b : UInt8) : Cia :=
  let t := c.timer which
  c.withTimer which
    ⟨if anyBit b Control.forceLoad then t.latch else c.counter id clock which, t.latch, b⟩

/-- The clock with the alarm of a timer set anew for a counter. -/
def restarted (clock : Clock Event) (which : TimerId) (counts : Bool) (counter : UInt16) :
    Clock Event :=
  let clock := clock.cancel (.timer which)
  if counts then clock.setAlarm (clock.now + (counter.toNat + 1)) (.timer which) else clock

theorem Moved.restarted (hc : clock.WellFormed) (which : TimerId) (counts : Bool)
    (counter : UInt16) :
    Moved clock (restarted clock which counts counter) (.timer which)
      (if counts then some (clock.elapsed + (counter.toNat + 1)) else none) := by
  have hcancel := Moved.cancel hc (.timer which)
  unfold Cia.restarted
  cases counts with
  | false => exact hcancel
  | true => exact hcancel.trans (Moved.set hcancel.wellFormed (count_le_headroom counter) _)

theorem writeControl_eq (h : OnClock c clock) (which : TimerId) (b : UInt8) :
    c.writeControl id clock which b =
      let c' := c.controlled clock which b
      let clock := restarted clock which (Control.countsCycles which b) (c'.timer which).counter
      .ok (c', if which = .a ∧ anyBit (c.timerA.control ^^^ b) Control.fiftyHertz then
        clock.setAlarm (clock.now + c'.tenth) .tod else clock) := by
  have hconfig : (c.controlled clock which b).config = c.config := by cases which <;> rfl
  have hmoved := Moved.restarted h.wellFormed which (Control.countsCycles which b)
    ((c.controlled clock which b).timer which).counter
  have htod := scheduleTod_eq id hmoved.wellFormed (tenth_le (hconfig.symm ▸ h.paced))
  rw [id] at htod
  have hin := (h.wellFormed.cancel (.timer which)).setAlarmIn_eq
    (count_le_headroom ((c.controlled clock which b).timer which).counter) (Event.timer which)
  simp only []
  have hdo : c.writeControl id clock which b = do
      let clock₁ ←
        if Control.countsCycles which b then do
          pure (← (clock.cancel (.timer which)).setAlarmIn
            (((c.controlled clock which b).timer which).counter.toNat + 1) (Event.timer which)).2
        else pure (clock.cancel (.timer which))
      let clock₂ ←
        if which = .a ∧ anyBit (c.timerA.control ^^^ b) Control.fiftyHertz then
          (c.controlled clock which b).scheduleTod id clock₁
        else pure clock₁
      return (c.controlled clock which b, clock₂) := by
    unfold writeControl controlled
    cases which <;> cases anyBit b Control.forceLoad <;> rfl
  rw [hdo]
  unfold restarted at htod ⊢
  cases hc : Control.countsCycles which b with
  | false =>
    simp only [hc, Bool.false_eq_true, if_false] at htod ⊢
    split
    · simp only [htod, bind, Except.bind, pure, Except.pure]
    · rfl
  | true =>
    simp only [hc, if_true] at htod ⊢
    rw [hin]
    split
    · simp only [bind, Except.bind, pure, Except.pure]
      rw [htod]
    · rfl

/-- One timer with its alarm set for what it holds, the other one as it was. -/
structure Retimed (c : Cia) (clock : Clock Event) (which : TimerId) (c' : Cia)
    (clock' : Clock Event) : Prop where
  wellFormed : clock'.WellFormed
  elapsed_eq : clock'.elapsed = clock.elapsed
  config_eq : c'.config = c.config
  self : clock'.agenda.due? (.timer which) =
    if Control.countsCycles which (c'.timer which).control then
      some (clock.elapsed + ((c'.timer which).counter.toNat + 1))
    else none
  other : ∀ w, w ≠ which →
    c'.timer w = c.timer w ∧ clock'.agenda.due? (.timer w) = clock.agenda.due? (.timer w)
  tod : ∃ due, clock'.agenda.due? .tod = some due ∧ clock.elapsed < due

variable {c' : Cia} {clock' : Clock Event} {which : TimerId}

theorem Retimed.quiet (hr : Retimed c clock which c' clock') (h : OnClock c clock) :
    Quiet clock'.agenda clock'.elapsed := by
  intro e due hd
  rw [hr.elapsed_eq]
  cases e with
  | tod =>
    obtain ⟨due', hd', hlt⟩ := hr.tod
    rw [hd] at hd'
    cases hd'
    exact hlt
  | timer w =>
    by_cases hw : w = which
    · subst hw
      rw [hr.self] at hd
      split at hd
      · obtain rfl := Option.some.inj hd
        omega
      · exact absurd hd (by simp)
    · exact h.quiet _ _ ((hr.other w hw).2 ▸ hd)

theorem Retimed.onClock (hr : Retimed c clock which c' clock') (h : OnClock c clock) :
    OnClock c' clock' := by
  have quiet := hr.quiet h
  refine ⟨hr.wellFormed, hr.config_eq ▸ h.paced, ?_, quiet⟩
  constructor
  · exact hr.wellFormed.agenda_sorted
  · exact hr.wellFormed.agenda_distinct
  · exact fun e due hd => Nat.le_of_lt (quiet e due hd)
  · intro w hc
    rw [hr.elapsed_eq]
    by_cases hw : w = which
    · subst hw
      have := (c'.timer w).counter.toNat_lt
      exact ⟨_, by rw [hr.self, if_pos hc], by omega⟩
    · obtain ⟨ht, hd⟩ := hr.other w hw
      rw [hd]
      exact h.tracks.counting w (ht ▸ hc)
  · intro w hc
    by_cases hw : w = which
    · subst hw
      rw [hr.self, hc]
      rfl
    · obtain ⟨ht, hd⟩ := hr.other w hw
      rw [hd]
      exact h.tracks.idle w (ht ▸ hc)
  · obtain ⟨due, hd, _⟩ := hr.tod
    exact ⟨due, hd⟩

theorem Retimed.timerAt_self (hr : Retimed c clock which c' clock') :
    timerAt clock'.agenda clock'.elapsed c' which = c'.timer which := by
  unfold timerAt
  rw [hr.self, hr.elapsed_eq]
  have hlt := (c'.timer which).counter.toNat_lt
  have full : Timer.counterBefore
      (clock.elapsed + ((c'.timer which).counter.toNat + 1) - clock.elapsed) =
        (c'.timer which).counter := by
    rw [← UInt16.toNat_inj, counterBefore_toNat (by omega)]
    omega
  cases Control.countsCycles which (c'.timer which).control with
  | false => rfl
  | true => simp only [if_true, full]

theorem Retimed.timerAt_other (hr : Retimed c clock which c' clock') {w : TimerId}
    (hw : w ≠ which) :
    timerAt clock'.agenda clock'.elapsed c' w = timerAt clock.agenda clock.elapsed c w := by
  obtain ⟨ht, hd⟩ := hr.other w hw
  rw [hr.elapsed_eq]
  exact timerAt_congr hd ht

/-- What the counting chip makes of a control register, apart from the tenths of a second. -/
theorem Retimed.chip_controlled {b : UInt8}
    (hr : Retimed c clock which (c.controlled clock which b) clock') :
    (steppedOn c clock).chip.withTimer which
        { (steppedOn c clock).chip.timer which with
          control := b
          counter := if anyBit b Control.forceLoad then ((steppedOn c clock).chip.timer which).latch
            else ((steppedOn c clock).chip.timer which).counter } =
      (steppedOn (c.controlled clock which b) clock').chip := by
  unfold steppedOn
  rw [timer_steppedAt]
  simp only [timerAt_latch, counter_eq]
  have hself := hr.timerAt_self
  unfold steppedAt
  cases which with
  | a =>
    rw [hself, hr.timerAt_other (w := .b) (by simp)]
    rfl
  | b =>
    rw [hself, hr.timerAt_other (w := .a) (by simp)]
    rfl

theorem OnClock.writeControl (h : OnClock c clock) (which : TimerId) (b : UInt8) :
    ∃ c' clock', c.writeControl id clock which b = .ok (c', clock') ∧ OnClock c' clock' ∧
      (steppedOn c clock).writeControl which b = steppedOn c' clock' := by
  have hmoved := Moved.restarted h.wellFormed which (Control.countsCycles which b)
    ((c.controlled clock which b).timer which).counter
  have hself : ((c.controlled clock which b).timer which).control = b := by cases which <;> rfl
  have hother : ∀ w, w ≠ which → (c.controlled clock which b).timer w = c.timer w := by
    intro w hw
    cases which <;> cases w <;> first | rfl | exact absurd rfl hw
  have hconfig : (c.controlled clock which b).config = c.config := by cases which <;> rfl
  have hcontrol : (steppedOn c clock).chip.timerA.control = c.timerA.control :=
    timerAt_control clock.agenda clock.elapsed c .a
  have heq := writeControl_eq h which b
  simp only [] at heq
  generalize restarted clock which (Control.countsCycles which b)
    ((c.controlled clock which b).timer which).counter = clock₁ at hmoved heq
  unfold Stepped.writeControl
  rw [hcontrol]
  -- Another mains frequency sets the alarm for the next tenth anew; otherwise it stays where it is.
  by_cases hrate : which = .a ∧ anyBit (c.timerA.control ^^^ b) Control.fiftyHertz = true
  · rw [if_pos hrate] at heq
    have hset := Moved.set hmoved.wellFormed (tenth_le (hconfig.symm ▸ h.paced)) Event.tod
    have hr : Retimed c clock which (c.controlled clock which b) _ :=
      { wellFormed := hset.wellFormed
        elapsed_eq := hset.elapsed_eq.trans hmoved.elapsed_eq
        config_eq := hconfig
        self := by rw [hset.others _ (by simp), hmoved.self, hself]
        other := fun w hw =>
          ⟨hother w hw, (hset.others _ (by simp)).trans (hmoved.others _ (by simpa using hw))⟩
        tod := ⟨_, hset.self, by
          have := one_le_tenth (c.controlled clock which b)
          rw [hmoved.elapsed_eq]
          omega⟩ }
    refine ⟨_, _, heq, hr.onClock h, ?_⟩
    simp only [if_pos hrate, hr.chip_controlled]
    refine congrArg (Stepped.mk _) ?_
    unfold steppedOn
    rw [tenth_steppedAt]
    simp only [hset.self, hset.elapsed_eq, Option.map_some, Option.getD_some]
    rw [Nat.add_sub_cancel_left]
  · rw [if_neg hrate] at heq
    have htod := hmoved.others .tod (by simp)
    have hr : Retimed c clock which (c.controlled clock which b) clock₁ :=
      { wellFormed := hmoved.wellFormed
        elapsed_eq := hmoved.elapsed_eq
        config_eq := hconfig
        self := by rw [hmoved.self, hself]
        other := fun w hw => ⟨hother w hw, hmoved.others _ (by simpa using hw)⟩
        tod := by
          obtain ⟨due, hd⟩ := h.tracks.tod
          exact ⟨due, htod.trans hd, h.quiet _ _ hd⟩ }
    refine ⟨_, _, heq, hr.onClock h, ?_⟩
    simp only [if_neg hrate, hr.chip_controlled]
    refine congrArg (Stepped.mk _) ?_
    unfold steppedOn steppedAt
    rw [htod, hmoved.elapsed_eq]

theorem OnClock.write (h : OnClock c clock) (register b : UInt8) :
    ∃ c' clock', c.write id clock register b = .ok (c', clock') ∧ OnClock c' clock' ∧
      (steppedOn c clock).write register b = steppedOn c' clock' := by
  unfold Cia.write Stepped.write
  generalize (register &&& 0x0F).toNat = r
  match r with
  | 0x0 => exact ⟨_, _, rfl, h.frame rfl fun which => by cases which <;> rfl, rfl⟩
  | 0x1 => exact ⟨_, _, rfl, h.frame rfl fun which => by cases which <;> rfl, rfl⟩
  | 0x2 => exact ⟨_, _, rfl, h.frame rfl fun which => by cases which <;> rfl, rfl⟩
  | 0x3 => exact ⟨_, _, rfl, h.frame rfl fun which => by cases which <;> rfl, rfl⟩
  | 0x4 => exact ⟨_, _, rfl, h.writeLow .a b⟩
  | 0x5 => exact ⟨_, _, rfl, h.writeHigh .a b⟩
  | 0x6 => exact ⟨_, _, rfl, h.writeLow .b b⟩
  | 0x7 => exact ⟨_, _, rfl, h.writeHigh .b b⟩
  | 0x8 => exact ⟨_, _, rfl, h.writeTod .tenths b⟩
  | 0x9 => exact ⟨_, _, rfl, h.writeTod .seconds b⟩
  | 0xA => exact ⟨_, _, rfl, h.writeTod .minutes b⟩
  | 0xB => exact ⟨_, _, rfl, h.writeTod .hours b⟩
  | 0xC =>
    refine ⟨_, _, rfl, ?_⟩
    have hsend : (steppedOn c clock).chip.timerA.control = c.timerA.control :=
      timerAt_control clock.agenda clock.elapsed c .a
    simp only [hsend]
    split
    · exact ⟨h.frame rfl fun which => by cases which <;> rfl, rfl⟩
    · refine ⟨h.frame rfl fun which => by cases which <;> rfl, ?_⟩
      rw [UInt8.or_zero]
      rfl
  | 0xD => exact ⟨_, _, rfl, h.frame rfl fun which => by cases which <;> rfl, rfl⟩
  | 0xE => exact h.writeControl .a b
  | n + 0xF => exact h.writeControl .b b

/-! ## Power-on, and the chip as a whole -/

/-- A chip fresh from power-on, on a clock without its alarms. -/
theorem onClock_powerOn {config : Config} (hp : config.Paced) (hc : clock.WellFormed)
    (hnone : ∀ e, clock.agenda.due? e = none) :
    ∃ clock', Cia.new id config clock = .ok (powerOn config, clock') ∧
      OnClock (powerOn config) clock' ∧ steppedOn (powerOn config) clock' = .powerOn config := by
  have hset := Moved.set hc (tenth_le (c := powerOn config) hp) Event.tod
  have idle : ∀ which, Control.countsCycles which ((powerOn config).timer which).control = false := by
    intro which
    cases which with
    | a => exact (by decide : Control.countsCycles .a 0 = false)
    | b => exact (by decide : Control.countsCycles .b 0 = false)
  have still : ∀ which, (clock.setAlarm (clock.now + (powerOn config).tenth) Event.tod).agenda.due?
      (.timer which) = none := fun which => (hset.others _ (by simp)).trans (hnone _)
  have only : ∀ e due, (clock.setAlarm (clock.now + (powerOn config).tenth) Event.tod).agenda.due? e =
      some due → due = clock.elapsed + (powerOn config).tenth := by
    intro e due hd
    cases e with
    | tod => rw [hset.self] at hd; exact (Option.some.inj hd).symm
    | timer which => rw [still] at hd; exact absurd hd (by simp)
  have hlt := one_le_tenth (powerOn config)
  have quiet : Quiet (clock.setAlarm (clock.now + (powerOn config).tenth) Event.tod).agenda
      (clock.setAlarm (clock.now + (powerOn config).tenth) Event.tod).elapsed := by
    intro e due hd
    rw [only e due hd, hset.elapsed_eq]
    omega
  refine ⟨_, ?_, ⟨hset.wellFormed, hp, ?_, quiet⟩, ?_⟩
  · simp only [Cia.new]
    rw [scheduleTod_eq id hc (tenth_le (c := powerOn config) hp)]
    rfl
  · exact
      { sorted := hset.wellFormed.agenda_sorted
        distinct := hset.wellFormed.agenda_distinct
        ahead := fun e due hd => Nat.le_of_lt (quiet e due hd)
        counting := fun which hcount => absurd hcount (by rw [idle]; simp)
        idle := fun which _ => still which
        tod := ⟨_, hset.self⟩ }
  · unfold steppedOn steppedAt Stepped.powerOn timerAt
    rw [still, still, hset.self, hset.elapsed_eq]
    simp only [Option.map_some, Option.getD_some, Nat.add_sub_cancel_left]
    rfl

theorem OnClock.reset (h : OnClock c clock) :
    ∃ c' clock', c.reset id clock = .ok (c', clock') ∧ OnClock c' clock' ∧
      Stepped.powerOn (steppedOn c clock).chip.config = steppedOn c' clock' := by
  have hc := h.wellFormed
  have hA := Moved.cancel hc (.timer .a)
  have hB := Moved.cancel hA.wellFormed (.timer .b)
  have hT := Moved.cancel hB.wellFormed .tod
  obtain ⟨clock', hnew, hon, hview⟩ := onClock_powerOn h.paced hT.wellFormed fun e => by
    cases e with
    | tod => exact hT.self
    | timer which =>
      rw [hT.others _ (by simp)]
      cases which with
      | b => exact hB.self
      | a => rw [hB.others _ (by simp)]; exact hA.self
  exact ⟨_, clock', hnew, hon, hview.symm⟩

theorem mem_events (e : Event) : e ∈ [Event.timer .a, .timer .b, .tod] := by
  cases e with
  | tod => simp
  | timer which => cases which <;> simp

theorem OnClock.advance (h : OnClock c clock) {cycles : Nat} (hcycles : cycles ≤ Cycle.clockMax) :
    ∃ c' clock', clock.advance handler cycles c = .ok (clock', c') ∧ OnClock c' clock' ∧
      (steppedOn c clock).cycles cycles = steppedOn c' clock' := by
  obtain ⟨_, clock', c', helapsed, hleads, hrun⟩ := Responder.advance responder_steady
    (recurring_single _ _) mem_events (by decide) handler_describes h.wellFormed h.paced hcycles
  obtain ⟨_, q', c'', hfires, htracks, hquiet, hview⟩ :=
    h.tracks.advance h.quiet h.paced cycles
  -- The advance and the single cycles fire the same alarms, so they end in the same chip.
  obtain ⟨-, rfl, rfl⟩ := hleads.fires.unique (helapsed ▸ hfires)
  rw [← helapsed] at htracks hquiet hview
  exact ⟨c', clock', hrun, ⟨hleads.wellFormed, hleads.good, htracks, hquiet⟩, hview.symm⟩

/-- Whatever is done to the chip, the chip that counts every cycle follows. -/
theorem OnClock.act (h : OnClock c clock) {action : Action}
    (haction : ∀ cycles, action = .advance cycles → cycles ≤ Cycle.clockMax) :
    ∃ b c' clock', c.act clock action = .ok (b, c', clock') ∧ OnClock c' clock' ∧
      (steppedOn c clock).act action = (b, steppedOn c' clock') := by
  cases action with
  | write register b =>
    obtain ⟨c', clock', hdo, hon, hview⟩ := h.write register b
    refine ⟨none, c', clock', ?_, hon, congrArg (Prod.mk none) hview⟩
    simp only [Cia.act, hdo]
    rfl
  | read register =>
    obtain ⟨hon, hview⟩ := h.read register
    refine ⟨_, _, clock, rfl, hon, ?_⟩
    exact congrArg (fun x => (some x.1, x.2)) hview
  | driveA levels => exact ⟨_, _, _, rfl, h.frame rfl fun which => by cases which <;> rfl, rfl⟩
  | driveB levels => exact ⟨_, _, _, rfl, h.frame rfl fun which => by cases which <;> rfl, rfl⟩
  | flag => exact ⟨_, _, _, rfl, h.frame rfl fun which => by cases which <;> rfl, rfl⟩
  | reset =>
    obtain ⟨c', clock', hdo, hon, hview⟩ := h.reset
    refine ⟨none, c', clock', ?_, hon, congrArg (Prod.mk none) hview⟩
    simp only [Cia.act, hdo]
    rfl
  | advance cycles =>
    obtain ⟨c', clock', hdo, hon, hview⟩ := h.advance (haction cycles rfl)
    refine ⟨none, c', clock', ?_, hon, congrArg (Prod.mk none) hview⟩
    simp only [Cia.act, hdo]
    rfl

theorem OnClock.trace (h : OnClock c clock) {actions : List Action}
    (hactions : ∀ cycles, .advance cycles ∈ actions → cycles ≤ Cycle.clockMax) :
    c.trace clock actions = .ok ((steppedOn c clock).trace actions) := by
  induction actions generalizing c clock with
  | nil => rfl
  | cons action rest ih =>
    obtain ⟨b, c', clock', hdo, hon, hview⟩ :=
      h.act fun cycles he => hactions cycles (he ▸ .head rest)
    have hrest := ih hon fun cycles hm => hactions cycles (.tail _ hm)
    unfold Cia.trace Stepped.trace
    rw [hdo, hview]
    simp only [bind, Except.bind, hrest, live_eq]
    rfl

/-- A chip on a clock of its own, from power-on, whatever the clock's counter: all that is seen
of it in the course of any actions, the counters and latches of both timers, their control
registers and the interrupt flags among it, is what is seen of a chip that counts every cycle. -/
theorem trace_eq_stepped {config : Config} (hp : config.Paced) {now : Nat}
    (hnow : now ≤ Cycle.clockMax) {actions : List Action}
    (hactions : ∀ cycles, .advance cycles ∈ actions → cycles ≤ Cycle.clockMax) :
    (do
      let clock ← Clock.start now
      let (c, clock) ← Cia.new id config clock
      c.trace clock actions) = .ok ((Stepped.powerOn config).trace actions) := by
  obtain ⟨clock, hnew, hon, hview⟩ :=
    onClock_powerOn hp (wellFormed_empty hnow) fun _ => rfl
  have hstart : Clock.start now = .ok (⟨now, 0, 0, 0, []⟩ : Clock Event) := if_pos hnow
  rw [hstart]
  simp only [bind, Except.bind, hnew, hon.trace hactions, hview]

/-- Timer B counts the underflows of timer A while the clock is rebased. -/
theorem trace_eq_stepped_chained :
    (do
      let clock ← Clock.start Cycle.clockMax
      let (c, clock) ← Cia.new id {} clock
      c.trace clock [.write 0x4 3, .write 0x5 0, .write 0x6 2, .write 0x7 0, .write 0xF 0x41,
        .write 0xE 0x01, .advance 100, .read 0xD, .advance Cycle.clockMax]) =
      .ok ((Stepped.powerOn {}).trace [.write 0x4 3, .write 0x5 0, .write 0x6 2, .write 0x7 0,
        .write 0xF 0x41, .write 0xE 0x01, .advance 100, .read 0xD, .advance Cycle.clockMax]) :=
  trace_eq_stepped (by decide) (Nat.le_refl _) fun cycles h => by
    simp only [List.mem_cons, Action.advance.injEq, reduceCtorEq, List.not_mem_nil, false_or,
      or_false] at h
    rcases h with rfl | rfl <;> decide

end C64.Cia
