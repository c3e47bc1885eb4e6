import C64.Proofs.Cia.Stepped

/-!
# Alarms in place of cycles

A chip with its alarms on an agenda shows, at any time, the registers of one that counts every
cycle (`steppedAt`): a timer that counts has an alarm and its counter follows from it, any other
counter is kept as it is (`Tracks`).

Two things happen in a cycle. Time passes, and counters run down; then what is due fires. On the
other side `Stepped.cycle` does both for one part of the chip after another. The parts do not mind
the order (`Stepped.expireAll_expire`), so the alarms may fire in any.
-/

namespace C64.Cia

open Clock

/-! ## Control registers behind an underflow -/

theorem and_not_start (b : UInt8) {mask : UInt8} (h : ~~~Control.start &&& mask = mask) :
    b &&& ~~~Control.start &&& mask = b &&& mask := by
  rw [UInt8.and_assoc, h]

theorem underflow_control (t : Timer) {mask : UInt8} (h : ~~~Control.start &&& mask = mask) :
    t.underflow.control &&& mask = t.control &&& mask := by
  unfold Timer.underflow
  simp only []
  split
  · exact and_not_start _ h
  · rfl

theorem countsCycles_underflow (which : TimerId) (t : Timer) :
    Control.countsCycles which t.underflow.control =
      (Control.countsCycles which t.control && !t.oneShot) := by
  cases hs : t.oneShot with
  | true =>
    have stopped : t.underflow.control &&& Control.start = 0 := by
      unfold Timer.underflow
      simp only [hs, if_true]
      exact and_not_mask_and_mask _ _
    unfold Control.countsCycles anyBit
    rw [stopped]
    simp
  | false =>
    have same : t.underflow.control = t.control := by
      unfold Timer.underflow
      simp [hs]
    rw [same, Bool.not_false, Bool.and_true]

/-- A timer that counts underflows does not count cycles. -/
theorem chained_eq_false {c : Cia} (h : Control.countsCycles .b c.timerB.control = true) :
    c.chained = false := by
  unfold Control.countsCycles anyBit at h
  simp only [Bool.and_eq_true, Bool.not_eq_true', bne_eq_false_iff_eq] at h
  unfold chained
  rw [h.2]
  simp [Control.countUnderflows]

/-! ## What a chip with alarms shows -/

/-- A timer with its counter at time `t`. -/
def timerAt (q : Agenda Event) (t : Nat) (c : Cia) (which : TimerId) : Timer :=
  match q.due? (.timer which) with
  | some due => { c.timer which with counter := Timer.counterBefore (due - t) }
  | none => c.timer which

/-- The chip as it shows itself at time `t`. -/
def steppedAt (q : Agenda Event) (t : Nat) (c : Cia) : Stepped where
  chip := { c with timerA := timerAt q t c .a, timerB := timerAt q t c .b }
  untilTenth := ((q.due? .tod).map (· - t)).getD 0

/-- The alarms that wait are those of the timers that count and that of the time of day. -/
structure Tracks (q : Agenda Event) (t : Nat) (c : Cia) : Prop where
  sorted : q.Sorted
  distinct : q.Distinct
  ahead : ∀ e due, q.due? e = some due → t ≤ due
  counting : ∀ which, Control.countsCycles which (c.timer which).control = true →
    ∃ due, q.due? (.timer which) = some due ∧ due ≤ t + 0x10000
  idle : ∀ which, Control.countsCycles which (c.timer which).control = false →
    q.due? (.timer which) = none
  tod : ∃ due, q.due? .tod = some due

variable {q : Agenda Event} {t : Nat} {c : Cia}

/-- Nothing is due at time `t`. -/
def Quiet (q : Agenda Event) (t : Nat) : Prop := ∀ e due, q.due? e = some due → t < due

theorem Tracks.countsCycles (h : Tracks q t c) {which : TimerId} {due : Nat}
    (hd : q.due? (.timer which) = some due) :
    Control.countsCycles which (c.timer which).control = true := by
  cases hc : Control.countsCycles which (c.timer which).control with
  | true => rfl
  | false => rw [h.idle which hc] at hd; exact absurd hd (by simp)

theorem Tracks.due_le (h : Tracks q t c) {which : TimerId} {due : Nat}
    (hd : q.due? (.timer which) = some due) : due ≤ t + 0x10000 := by
  obtain ⟨due', hd', hle⟩ := h.counting which (h.countsCycles hd)
  rw [hd] at hd'
  cases hd'
  exact hle

/-- Time passes as long as nothing is due. -/
theorem Tracks.pass (h : Tracks q t c) (hq : Quiet q t) : Tracks q (t + 1) c :=
  { h with
    ahead := hq
    counting := by
      intro which hc
      obtain ⟨due, hd, hle⟩ := h.counting which hc
      exact ⟨due, hd, by omega⟩ }

@[simp] theorem timerAt_latch (q : Agenda Event) (t : Nat) (c : Cia) (which : TimerId) :
    (timerAt q t c which).latch = (c.timer which).latch := by
  unfold timerAt
  split <;> rfl

@[simp] theorem timerAt_control (q : Agenda Event) (t : Nat) (c : Cia) (which : TimerId) :
    (timerAt q t c which).control = (c.timer which).control := by
  unfold timerAt
  split <;> rfl

theorem counterBefore_toNat {remaining : Nat} (h : remaining ≤ 0x10000) :
    (Timer.counterBefore remaining).toNat = remaining - 1 := by
  unfold Timer.counterBefore
  simp only [Nat.toUInt16_eq, UInt16.toNat_ofNat']
  omega

/-- A timer counts once while a cycle passes: it underflows if its alarm is due then. -/
theorem Tracks.countIf (h : Tracks q t c) (hq : Quiet q t) (which : TimerId) :
    Stepped.countIf (Control.countsCycles which (c.timer which).control) (timerAt q t c which) =
      if q.due? (.timer which) = some (t + 1) then (true, (timerAt q (t + 1) c which).underflow)
      else (false, timerAt q (t + 1) c which) := by
  cases hd : q.due? (.timer which) with
  | none =>
    have idle : Control.countsCycles which (c.timer which).control = false := by
      cases hc : Control.countsCycles which (c.timer which).control with
      | false => rfl
      | true =>
        obtain ⟨due, hd', _⟩ := h.counting which hc
        rw [hd] at hd'
        exact absurd hd' (by simp)
    simp only [Stepped.countIf, idle, timerAt, hd, reduceCtorEq, if_false, Bool.false_eq_true]
  | some due =>
    have hlt := hq _ _ hd
    have hle := h.due_le hd
    have now : (Timer.counterBefore (due - t)).toNat = due - t - 1 :=
      counterBefore_toNat (by omega)
    have next : (Timer.counterBefore (due - (t + 1))).toNat = due - (t + 1) - 1 :=
      counterBefore_toNat (by omega)
    simp only [Stepped.countIf, h.countsCycles hd, if_true, Stepped.count, timerAt, hd,
      Option.some.injEq]
    by_cases hdue : due = t + 1
    · have zero : Timer.counterBefore (due - t) = 0 := by
        rw [← UInt16.toNat_inj, now, UInt16.toNat_zero]
        omega
      rw [if_pos zero, if_pos hdue]
      rfl
    · have nonzero : Timer.counterBefore (due - t) ≠ 0 := by
        rw [ne_eq, ← UInt16.toNat_inj, now, UInt16.toNat_zero]
        omega
      have down : Timer.counterBefore (due - t) - 1 = Timer.counterBefore (due - (t + 1)) := by
        rw [← UInt16.toNat_inj, UInt16.toNat_sub_of_le, now, next]
        · simp only [UInt16.toNat_one]
          omega
        · rw [UInt16.le_iff_toNat_le, now, UInt16.toNat_one]
          omega
      rw [if_neg nonzero, if_neg hdue, down]

/-! ## A cycle as what fires in it -/

namespace Stepped

/-- One part of the chip reaches its end. -/
def expire (e : Event) (s : Stepped) : Stepped where
  chip := s.chip.expire e
  untilTenth := if e = .tod then (s.chip.expire .tod).tenth else s.untilTenth

/-- The parts that are due reach their ends one after another. -/
def expireAll (due : Event → Bool) (s : Stepped) : Stepped :=
  let s := if due (.timer .a) then s.expire (.timer .a) else s
  let s := if due (.timer .b) then s.expire (.timer .b) else s
  if due .tod then s.expire .tod else s

end Stepped

theorem chained_congr {c c' : Cia} (h : c'.timerB.control = c.timerB.control) :
    c'.chained = c.chained := by
  unfold chained Timer.started
  rw [h]

/-- Timer B counts once in a cycle at most: it cannot count cycles and underflows both. -/
theorem Tracks.countIf_b (h : Tracks q t c) (hq : Quiet q t) (underflow : Bool) :
    Stepped.countIf (Control.countsCycles .b (c.timer .b).control || underflow && c.chained)
        (timerAt q t c .b) =
      if q.due? (.timer .b) = some (t + 1) then (true, (timerAt q (t + 1) c .b).underflow)
      else if underflow && c.chained then Stepped.count (timerAt q (t + 1) c .b)
      else (false, timerAt q (t + 1) c .b) := by
  cases hc : Control.countsCycles .b (c.timer .b).control with
  | true =>
    have := h.countIf hq .b
    rw [hc] at this
    rw [chained_eq_false hc, Bool.and_false, Bool.or_false]
    exact this
  | false =>
    have none := h.idle .b hc
    have same : timerAt q t c .b = timerAt q (t + 1) c .b := by simp only [timerAt, none]
    rw [none, same]
    rfl

/-- What the timers do in a cycle, from the state they reach while the cycle passes. -/
def expireTimers (dueA dueB : Bool) (c : Cia) : Cia :=
  let c := if dueA then c.expire (.timer .a) else c
  if dueB then c.expire (.timer .b) else c

theorem Tracks.countTimers (h : Tracks q t c) (hq : Quiet q t) :
    Stepped.countTimers (steppedAt q t c).chip =
      expireTimers (q.due? (.timer .a) = some (t + 1)) (q.due? (.timer .b) = some (t + 1))
        (steppedAt q (t + 1) c).chip := by
  have hA := h.countIf hq .a
  have hch : (steppedAt q t c).chip.chained = c.chained := chained_congr (timerAt_control ..)
  have hch' : ∀ c' : Cia, c'.timerB = timerAt q (t + 1) c .b → c'.chained = c.chained :=
    fun c' hc => chained_congr (by rw [hc]; exact timerAt_control ..)
  unfold Stepped.countTimers expireTimers
  rw [hch]
  simp only [steppedAt, timerAt_control]
  rw [hA]
  by_cases hdA : q.due? (.timer .a) = some (t + 1)
  · have hB := h.countIf_b hq true
    rw [Bool.true_and] at hB
    simp only [hB, Bool.true_and, hdA, decide_true, if_true]
    by_cases hdB : q.due? (.timer .b) = some (t + 1)
    -- Both timers are due: timer B counts cycles then, not underflows.
    · have hno := chained_eq_false (h.countsCycles hdB)
      simp only [hdB, if_true, decide_true, expire, raise, withTimer, hch', hno,
        Bool.false_eq_true, if_false]
    · simp only [hdB, if_false, decide_false, Bool.false_eq_true, expire, raise, withTimer, hch']
      cases c.chained with
      | false => simp
      | true =>
        simp only [if_true, Stepped.count, countUnderflow]
        split <;> simp [raise, Timer.underflow]
  · have hB := h.countIf_b hq false
    rw [Bool.false_and] at hB
    simp only [hB, Bool.false_and, hdA, decide_false, Bool.false_eq_true, if_false]
    by_cases hdB : q.due? (.timer .b) = some (t + 1)
    · simp [hdB, expire, raise, withTimer]
    · simp [hdB]

theorem Tracks.cycle (h : Tracks q t c) (hq : Quiet q t) :
    (steppedAt q t c).cycle =
      (steppedAt q (t + 1) c).expireAll fun e => q.due? e = some (t + 1) := by
  obtain ⟨tenth, hTenth⟩ := h.tod
  have hlt := hq _ _ hTenth
  have before : (steppedAt q t c).untilTenth = tenth - t := by simp [steppedAt, hTenth]
  have after : (steppedAt q (t + 1) c).untilTenth = tenth - t - 1 := by
    simp [steppedAt, hTenth, Nat.sub_sub]
  have timers : ∀ dueA dueB : Bool, ∀ s : Stepped,
      (if dueB then Stepped.expire (.timer .b) (if dueA then s.expire (.timer .a) else s)
        else if dueA then s.expire (.timer .a) else s) =
        ⟨expireTimers dueA dueB s.chip, s.untilTenth⟩ := by
    intro dueA dueB s
    cases dueA <;> cases dueB <;> rfl
  unfold Stepped.cycle Stepped.expireAll
  simp only [timers, h.countTimers hq, before, after, hTenth, Option.some.injEq]
  by_cases hdue : tenth = t + 1
  · rw [if_pos (show tenth - t ≤ 1 by omega), if_pos (decide_eq_true hdue)]
    rfl
  · rw [if_neg (show ¬ tenth - t ≤ 1 by omega), if_neg (by simpa using hdue)]

/-! ## The parts do not mind the order -/

theorem tenth_expire (e : Event) (c : Cia) : (c.expire e).tenth = c.tenth := by
  have rate : (c.expire e).timerA.control &&& Control.fiftyHertz =
      c.timerA.control &&& Control.fiftyHertz := by
    cases e with
    | timer which =>
      cases which with
      | a =>
        have := underflow_control c.timerA (show ~~~Control.start &&& Control.fiftyHertz = _ by rfl)
        simp only [expire]
        split
        · unfold countUnderflow
          split <;> exact this
        · exact this
      | b => rfl
    | tod =>
      simp only [expire]
      split
      · rfl
      · unfold advanceTod
        simp only []
        split <;> rfl
  unfold tenth anyBit
  rw [rate, expire_config]

/-- A tenth of a second touches the time and the interrupt sources only. -/
theorem expire_tod (c : Cia) :
    ∃ tod raised, ∀ timerA timerB sources,
      expire .tod { c with timerA, timerB, sources } =
        { c with timerA, timerB, tod, sources := sources ||| raised } := by
  cases c.todStopped with
  | true => exact ⟨c.tod, 0, fun _ _ _ => by simp [expire]⟩
  | false =>
    by_cases ha : c.tod.next = c.todAlarm
    · exact ⟨c.tod.next, Source.timeOfDay, fun _ _ _ => by simp [expire, advanceTod, ha, raise]⟩
    · exact ⟨c.tod.next, 0, fun _ _ _ => by simp [expire, advanceTod, ha]⟩

/-- Without a chain, an underflow of timer A is its own affair. -/
theorem expire_a_free {c : Cia} (h : c.chained = false) :
    c.expire (.timer .a) =
      { c with timerA := c.timerA.underflow, sources := c.sources ||| Source.timer .a } := by
  have : ((c.raise (Source.timer .a)).withTimer .a c.timerA.underflow).chained = false :=
    (chained_congr rfl).trans h
  simp only [expire, this, Bool.false_eq_true, if_false]
  rfl

/-- With one, timer B counts it. -/
theorem expire_a_chained {c : Cia} (h : c.chained = true) :
    c.expire (.timer .a) =
      { c with
        timerA := c.timerA.underflow
        timerB := (Stepped.count c.timerB).2
        sources := c.sources ||| Source.timer .a |||
          (if (Stepped.count c.timerB).1 then Source.timer .b else 0) } := by
  have : ((c.raise (Source.timer .a)).withTimer .a c.timerA.underflow).chained = true :=
    (chained_congr rfl).trans h
  simp only [expire, this, if_true]
  by_cases h0 : c.timerB.counter = 0
  · simp only [countUnderflow, raise, withTimer, Stepped.count, h0, if_true]
    rfl
  · simp [countUnderflow, raise, withTimer, Stepped.count, h0]

/-- An underflow touches the timers and the interrupt sources only. -/
theorem expire_timer (which : TimerId) (c : Cia) :
    ∃ timerA timerB raised, ∀ tod sources,
      expire (.timer which) { c with tod, sources } =
        { c with timerA, timerB, tod, sources := sources ||| raised } := by
  cases which with
  | a =>
    cases hch : c.chained with
    | false =>
      exact ⟨c.timerA.underflow, c.timerB, Source.timer .a,
        fun _ _ => expire_a_free ((chained_congr rfl).trans hch)⟩
    | true =>
      refine ⟨c.timerA.underflow, (Stepped.count c.timerB).2, Source.timer .a |||
        (if (Stepped.count c.timerB).1 then Source.timer .b else 0), fun tod sources => ?_⟩
      have hch' : chained { c with tod, sources } = true := (chained_congr rfl).trans hch
      rw [expire_a_chained hch', UInt8.or_assoc]
  | b =>
    exact ⟨c.timerA, c.timerB.underflow, Source.timer .b, fun _ _ => rfl⟩

theorem expire_tod_timer (which : TimerId) (c : Cia) :
    (c.expire .tod).expire (.timer which) = (c.expire (.timer which)).expire .tod := by
  obtain ⟨tod, raised, htod⟩ := expire_tod c
  obtain ⟨timerA, timerB, raised', htimer⟩ := expire_timer which c
  have h₁ : c.expire .tod = _ := htod c.timerA c.timerB c.sources
  have h₂ : c.expire (.timer which) = _ := htimer c.tod c.sources
  rw [h₁, h₂]
  refine (htimer tod (c.sources ||| raised)).trans ?_
  refine Eq.trans ?_ (htod timerA timerB (c.sources ||| raised')).symm
  rw [UInt8.or_assoc, UInt8.or_assoc, UInt8.or_comm raised]

/-- A timer that counts cycles does not hear of the other's underflow. -/
theorem expire_b_a {c : Cia} (h : Control.countsCycles .b c.timerB.control = true) :
    (c.expire (.timer .b)).expire (.timer .a) = (c.expire (.timer .a)).expire (.timer .b) := by
  have mode : c.timerB.control &&& Control.inputMode = 0 := by
    unfold Control.countsCycles anyBit at h
    simp only [Bool.and_eq_true, Bool.not_eq_true', bne_eq_false_iff_eq] at h
    exact h.2
  have free : ∀ c' : Cia, c'.timerB.control &&& Control.inputMode = 0 → c'.chained = false := by
    intro c' hc
    unfold chained
    rw [hc]
    simp [Control.countUnderflows]
  have mode' : (c.expire (.timer .b)).timerB.control &&& Control.inputMode = 0 :=
    (underflow_control c.timerB (by rfl)).trans mode
  rw [expire_a_free (free _ mode'), expire_a_free (free c mode)]
  simp only [expire, withTimer, raise]
  rw [UInt8.or_assoc, UInt8.or_assoc, UInt8.or_comm (Source.timer .b)]

theorem Stepped.expire_tod_timer (which : TimerId) (s : Stepped) :
    (s.expire .tod).expire (.timer which) = (s.expire (.timer which)).expire .tod := by
  unfold Stepped.expire
  simp only [reduceCtorEq, if_false, if_true, Stepped.mk.injEq]
  refine ⟨Cia.expire_tod_timer which s.chip, ?_⟩
  rw [tenth_expire, tenth_expire, tenth_expire]

theorem Stepped.expire_b_a {s : Stepped}
    (h : Control.countsCycles .b s.chip.timerB.control = true) :
    (s.expire (.timer .b)).expire (.timer .a) = (s.expire (.timer .a)).expire (.timer .b) := by
  unfold Stepped.expire
  simp only [reduceCtorEq, if_false, Stepped.mk.injEq, and_true]
  exact Cia.expire_b_a h

/-- Whichever of the due parts comes first, the rest of them end the same. -/
theorem Stepped.expireAll_expire {due : Event → Bool} {s : Stepped}
    (h : due (.timer .b) = true → Control.countsCycles .b s.chip.timerB.control = true)
    {e : Event} (he : due e = true) :
    (s.expire e).expireAll (fun e' => due e' && decide (e' ≠ e)) = s.expireAll due := by
  unfold Stepped.expireAll
  cases e with
  | timer which =>
    cases which with
    | a => simp [he]
    | b =>
      cases ha : due (.timer .a) with
      | false => simp [he, ha]
      | true => simp [he, ha, Stepped.expire_b_a (h he)]
  | tod =>
    cases ha : due (.timer .a) <;> cases hb : due (.timer .b) <;>
      simp [he, ha, hb, Stepped.expire_tod_timer]

end C64.Cia
