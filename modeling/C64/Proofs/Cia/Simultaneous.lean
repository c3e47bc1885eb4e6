import C64.Proofs.Cia.Scheduling

/-!
# Two alarms of one adapter

A timer's alarm moves the timers and adds interrupt sources (`expire_timer_frame`); the time of day
moves the time and adds one (`expire_tod_frame`). Only timer A looks at the other timer, to let it
count the underflow, and a timer that counts underflows has no alarm of its own. So two alarms that
wait can change places: they leave the same chip (`Scheduled.expire_comm`), and each comes again
when it would have without the other (`Scheduled.again?_expire`).
-/

namespace C64.Cia

/-- A timer's alarm does not look at the time of day, nor at the interrupt sources. -/
theorem expire_timer_frame (c : Cia) (which : TimerId) : ∃ timerA timerB source, ∀ tod sources,
    { c with tod, sources }.expire (.timer which) =
      { c with timerA, timerB, tod, sources := sources ||| source } := by
  cases which with
  | a =>
    by_cases chained : c.chained = true
    · by_cases last : c.timerB.counter = 0
      · refine ⟨c.timerA.underflow, c.timerB.underflow,
          Source.timer .a ||| Source.timer .b, fun tod sources => ?_⟩
        rw [← UInt8.or_assoc]
        show (if c.chained then (if c.timerB.counter = 0 then _ else _) else _) = _
        rw [if_pos chained, if_pos last]
        rfl
      · refine ⟨c.timerA.underflow, { c.timerB with counter := c.timerB.counter - 1 },
          Source.timer .a, fun tod sources => ?_⟩
        show (if c.chained then (if c.timerB.counter = 0 then _ else _) else _) = _
        rw [if_pos chained, if_neg last]
        rfl
    · refine ⟨c.timerA.underflow, c.timerB, Source.timer .a, fun tod sources => ?_⟩
      show (if c.chained then _ else _) = _
      rw [if_neg chained]
      rfl
  | b => exact ⟨c.timerA, c.timerB.underflow, Source.timer .b, fun _ _ => rfl⟩

/-- The time of day does not look at the timers, nor at the interrupt sources. -/
theorem expire_tod_frame (c : Cia) : ∃ tod source, ∀ timerA timerB sources,
    { c with timerA, timerB, sources }.expire .tod =
      { c with timerA, timerB, tod, sources := sources ||| source } := by
  by_cases stopped : c.todStopped = true
  · refine ⟨c.tod, 0, fun timerA timerB sources => ?_⟩
    show (if c.todStopped then _ else _) = _
    rw [if_pos stopped, UInt8.or_zero]
  · by_cases rings : c.tod.next = c.todAlarm
    · refine ⟨c.tod.next, Source.timeOfDay, fun timerA timerB sources => ?_⟩
      show (if c.todStopped then _ else (if c.tod.next = c.todAlarm then _ else _)) = _
      rw [if_neg stopped, if_pos rings]
      rfl
    · refine ⟨c.tod.next, 0, fun timerA timerB sources => ?_⟩
      show (if c.todStopped then _ else (if c.tod.next = c.todAlarm then _ else _)) = _
      rw [if_neg stopped, if_neg rings, UInt8.or_zero]

theorem expire_tod_comm (c : Cia) (which : TimerId) :
    (c.expire (.timer which)).expire .tod = (c.expire .tod).expire (.timer which) := by
  obtain ⟨timerA, timerB, source, timers⟩ := c.expire_timer_frame which
  obtain ⟨tod, rings, time⟩ := c.expire_tod_frame
  have first : c.expire (.timer which) = _ := timers c.tod c.sources
  have second : c.expire .tod = _ := time c.timerA c.timerB c.sources
  have both : c.sources ||| source ||| rings = c.sources ||| rings ||| source := by
    ac_rfl
  rw [first, second]
  refine (time timerA timerB (c.sources ||| source)).trans ?_
  rw [both]
  exact (timers tod (c.sources ||| rings)).symm

/-! ## The timers -/

section Timers

variable {c : Cia} (counts : Control.countsCycles .b c.timerB.control = true)
include counts

theorem unchained_of_countsCycles : c.chained = false := by
  rw [← Bool.not_eq_true]
  intro chained
  exact absurd counts (by simp [countsCycles_of_chained chained])

/-- Behind its own alarm timer B counts cycles or nothing. -/
theorem unchained_expire_timerB : (c.expire (.timer .b)).chained = false := by
  have before := unchained_of_countsCycles counts
  unfold chained Timer.started at before ⊢
  show (anyBit c.timerB.underflow.control Control.start &&
    c.timerB.underflow.control &&& Control.inputMode = Control.countUnderflows) = false
  rw [Timer.underflow_control]
  split
  · simp [anyBit, and_not_mask_and_mask]
  · exact before

/-- With timer B on its own, timer A is on its own as well. -/
theorem expire_timerA_eq : c.expire (.timer .a) =
    { c with timerA := c.timerA.underflow, sources := c.sources ||| Source.timer .a } := by
  show (if c.chained then _ else _) = _
  rw [unchained_of_countsCycles counts]
  rfl

theorem expire_timers_comm :
    (c.expire (.timer .a)).expire (.timer .b) = (c.expire (.timer .b)).expire (.timer .a) := by
  have both : c.sources ||| Source.timer .a ||| Source.timer .b =
      c.sources ||| Source.timer .b ||| Source.timer .a := by ac_rfl
  have second : (c.expire (.timer .b)).expire (.timer .a) =
      { c.expire (.timer .b) with
        timerA := c.timerA.underflow
        sources := c.sources ||| Source.timer .b ||| Source.timer .a } := by
    show (if (c.expire (.timer .b)).chained then _ else _) = _
    rw [unchained_expire_timerB counts]
    rfl
  rw [expire_timerA_eq counts, second, ← both]
  rfl

/-- The timers have latches and control registers of their own. -/
theorem timer_expire_other {which other : TimerId} (ne : which ≠ other) :
    (c.expire (.timer which)).timer other = c.timer other := by
  cases which with
  | a =>
    rw [expire_timerA_eq counts]
    cases other with
    | a => exact absurd rfl ne
    | b => rfl
  | b =>
    cases other with
    | a => rfl
    | b => exact absurd rfl ne

end Timers

theorem again?_timer_congr {c c' : Cia} {which : TimerId} (h : c'.timer which = c.timer which) :
    c'.again? (.timer which) = c.again? (.timer which) := by
  simp only [again?, h]

theorem timer_expire_tod (c : Cia) (which : TimerId) :
    (c.expire .tod).timer which = c.timer which := by
  obtain ⟨tod, rings, time⟩ := c.expire_tod_frame
  have moved : c.expire .tod = _ := time c.timerA c.timerB c.sources
  rw [moved]
  cases which <;> rfl

/-- A timer that stops keeps the rate of the time of day. -/
theorem Timer.fiftyHertz_underflow (t : Timer) :
    anyBit t.underflow.control Control.fiftyHertz = anyBit t.control Control.fiftyHertz := by
  rw [Timer.underflow_control]
  split
  · unfold anyBit
    rw [UInt8.and_assoc]
    rfl
  · rfl

theorem again?_tod_expire (c : Cia) (which : TimerId) :
    (c.expire (.timer which)).again? .tod = c.again? .tod := by
  have rate : anyBit (c.expire (.timer which)).timerA.control Control.fiftyHertz =
      anyBit c.timerA.control Control.fiftyHertz := by
    cases which with
    | a => rw [show (c.expire (.timer .a)).timerA = c.timerA.underflow from
        c.timer_expire_self .a, Timer.fiftyHertz_underflow]
    | b => rfl
  have tenths : ∀ c : Cia, c.again? .tod = some c.tenth := by
    intro c
    simp only [again?, tenth, expire_config,
      show (c.expire .tod).timerA = c.timerA from c.timer_expire_tod .a]
  rw [tenths, tenths]
  simp only [tenth, expire_config, rate]

/-! ## Alarms that wait -/

section Scheduled

variable {c : Cia} {pending : Event → Bool} (h : c.Scheduled pending) {e e' : Event}
  (he : pending e = true) (he' : pending e' = true) (ne : e ≠ e')
include h he he' ne

/-- Of two timers that have alarms, timer B counts cycles. -/
theorem Scheduled.countsCycles_timerB {which which' : TimerId} (first : e = .timer which)
    (second : e' = .timer which') : Control.countsCycles .b c.timerB.control = true := by
  subst first second
  cases which with
  | a =>
    cases which' with
    | a => exact absurd rfl ne
    | b => exact (h.timer .b).symm.trans he'
  | b => exact (h.timer .b).symm.trans he

theorem Scheduled.expire_comm : (c.expire e).expire e' = (c.expire e').expire e := by
  cases e with
  | tod =>
    cases e' with
    | tod => exact absurd rfl ne
    | timer which => exact (c.expire_tod_comm which).symm
  | timer which =>
    cases e' with
    | tod => exact c.expire_tod_comm which
    | timer which' =>
      have counts := h.countsCycles_timerB he he' ne rfl rfl
      cases which <;> cases which'
      · exact absurd rfl ne
      · exact expire_timers_comm counts
      · exact (expire_timers_comm counts).symm
      · exact absurd rfl ne

theorem Scheduled.again?_expire : (c.expire e).again? e' = c.again? e' := by
  cases e' with
  | tod =>
    cases e with
    | tod => exact absurd rfl ne
    | timer which => exact c.again?_tod_expire which
  | timer which' =>
    cases e with
    | tod => exact again?_timer_congr (c.timer_expire_tod which')
    | timer which =>
      have counts := h.countsCycles_timerB he he' ne rfl rfl
      exact again?_timer_congr (timer_expire_other counts fun same => ne (congrArg _ same))

end Scheduled

end C64.Cia
