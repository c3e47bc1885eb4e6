import C64.Proofs.Board.Alarms
import C64.Proofs.Clock.Counting

/-!
# Seconds that fit the clock

The alarm of the real-time clock comes back after as many cycles as a second has, and a second may
have as many as the configuration says: only zero is refused. The clock leaves the headroom above
`Cycle.clockMax` to the alarms. A second that fits into it can be counted from every cycle on, on a
clock with any other alarms, for as long as the clock advances (`Timed.advance_succeeds`). A longer
one can be too long for the first alarm, and if it is not, two advances lead to an alarm that cannot
be set again (`Lone.overflows`).
-/

namespace C64.Rtc

open Clock

variable {ε σ : Type} (event : Event → ε)

/-! ## A chip beside others -/

section

variable [DecidableEq ε] (others : Responder ε σ)

/-- Hands the tick to the chip, and every other alarm to whoever waits for it. -/
def serve : Handler ε (Rtc × σ) := fun alarm clock s =>
  if alarm.event = event .tick then do
    let (rtc, clock) ← s.1.onAlarm event clock alarm.due
    return (clock, (rtc, s.2))
  else do
    let (clock, rest) ← others.handler alarm clock s.2
    return (clock, (s.1, rest))

/-- What `serve` asks of the clock. -/
def beside : Responder ε (Rtc × σ) := fun due e s =>
  if e = event .tick then ([.set s.1.cyclesPerSecond (event .tick)], (s.1.expire, s.2))
  else ((others due e s.2).1, (s.1, (others due e s.2).2))

theorem serve_eq : serve event others = (beside event others).handler := by
  funext alarm clock s
  unfold serve beside Responder.handler
  by_cases mine : alarm.event = event .tick
  · simp only [if_pos mine, onAlarm_eq, setAgain, List.foldlM_cons, List.foldlM_nil,
      Request.perform]
    cases Cycle.add alarm.due s.1.cyclesPerSecond <;> rfl
  · simp only [if_neg mine]
    cases (others (clock.base + alarm.due) alarm.event s.2).1.foldlM
      (Request.perform alarm.due) clock <;> rfl

/-- The second of the chip can be counted, and the others are in a good state. -/
structure Countable (Good : σ → Prop) (s : Rtc × σ) : Prop where
  one_le : 1 ≤ s.1.cyclesPerSecond
  le_headroom : s.1.cyclesPerSecond ≤ Cycle.headroom
  others : Good s.2

theorem beside_steady {Good : σ → Prop} (steady : others.Steady Good) :
    (beside event others).Steady (Countable Good) where
  ahead due e s hs := by
    unfold beside
    split
    · intro x hx
      obtain rfl := List.mem_singleton.mp hx
      exact ⟨hs.one_le, hs.le_headroom⟩
    · exact steady.ahead due e s.2 hs.others
  keeps due e s hs := by
    unfold beside
    split
    · exact ⟨by simpa using hs.one_le, by simpa using hs.le_headroom, hs.others⟩
    · exact ⟨hs.one_le, hs.le_headroom, steady.keeps due e s.2 hs.others⟩

end

/-! ## Building -/

section

variable [DecidableEq ε] [ToString ε]

/-- A chip can be built just where its first alarm has a cycle number. -/
theorem new_succeeds_iff {config : Config} (valid : config.error? = none)
    (clock : Clock ε) :
    (∃ rtc clock', new event config clock = .ok (.ok (rtc, clock'))) ↔
      clock.now + config.cyclesPerSecond ≤ Cycle.last := by
  unfold new
  rw [valid]
  unfold setAlarmIn
  by_cases room : clock.now + config.cyclesPerSecond ≤ Cycle.last
  · simp [room, bind, Except.bind, pure, Except.pure]
  · simp [room, bind, Except.bind]

/-- A chip that was built counts the second of its configuration, and its first alarm is one second
ahead. -/
theorem new_eq {config : Config} {clock clock' : Clock ε} {rtc : Rtc}
    (h : new event config clock = .ok (.ok (rtc, clock'))) :
    rtc = powerOn config ∧
      clock' = clock.setAlarm (clock.now + config.cyclesPerSecond) (event .tick) := by
  unfold new at h
  split at h
  · exact absurd h (by simp)
  · obtain ⟨⟨due, c⟩, hset, hret⟩ := bind_eq_ok.mp h
    cases hret
    exact ⟨rfl, setAlarmIn_ok hset⟩

end

/-! ## Seconds within the headroom -/

section

variable [DecidableEq ε] [ToString ε] (others : Responder ε σ)

/-- A clock from the building of a chip on it, through advances, and between them through what
others do with alarms of their own and the host with the lines of the chip. -/
inductive Timed (config : Config) (Good : σ → Prop) : Clock ε → Rtc × σ → Prop
  | new {clock clock' : Clock ε} {rtc : Rtc} {rest : σ} : clock.Reachable → Good rest →
      new event config clock = .ok (.ok (rtc, clock')) → Timed config Good clock' (rtc, rest)
  | advance {clock clock' : Clock ε} {s s' : Rtc × σ} {budget cycles : Nat} :
      Timed config Good clock s → cycles ≤ Cycle.clockMax →
      advanceWithin budget (serve event others) cycles clock s = .ok (clock', s') →
      Timed config Good clock' s'
  | setAlarm {clock : Clock ε} {s : Rtc × σ} {due : Nat} (e : ε) : Timed config Good clock s →
      due ≤ Cycle.last → Timed config Good (clock.setAlarm due e) s
  | cancel {clock : Clock ε} {s : Rtc × σ} (e : ε) : Timed config Good clock s →
      Timed config Good (clock.cancel e) s
  | setLines {clock : Clock ε} {s : Rtc × σ} (enable serialClock data : Bool) :
      Timed config Good clock s →
      Timed config Good clock (s.1.setLines enable serialClock data, s.2)

variable {config : Config} {Good : σ → Prop} {clock : Clock ε} {s : Rtc × σ}

theorem Timed.countable (steady : others.Steady Good)
    (slow : config.cyclesPerSecond ≤ Cycle.headroom) (h : Timed event others config Good clock s) :
    clock.Reachable ∧ Countable Good s := by
  induction h with
  | new reach rest hnew =>
    obtain ⟨reach', one_le⟩ := new_ok event reach hnew
    obtain ⟨rfl, -⟩ := new_eq event hnew
    exact ⟨reach', one_le, slow, rest⟩
  | advance _ _ hrun ih =>
    rw [serve_eq] at hrun
    exact ih.1.advanceWithin (Responder.handler_lawful (beside_steady event others steady)) ih.2 hrun
  | setAlarm e _ hdue ih => exact ⟨ih.1.setAlarm e hdue, ih.2⟩
  | cancel e _ ih => exact ⟨ih.1.cancel e, ih.2⟩
  | @setLines clock s enable serialClock data _ ih =>
    have rate := s.1.setLines_cyclesPerSecond enable serialClock data
    exact ⟨ih.1, rate ▸ ih.2.one_le, rate ▸ ih.2.le_headroom, ih.2.others⟩

/-- A second within the headroom lets the clock advance at any time, by as much as a clock can. -/
theorem Timed.advance_succeeds (steady : others.Steady Good)
    (slow : config.cyclesPerSecond ≤ Cycle.headroom) (h : Timed event others config Good clock s)
    {cycles : Nat} (hcycles : cycles ≤ Cycle.clockMax) :
    ∃ enough clock' s', clock'.elapsed = clock.elapsed + cycles ∧ ∀ budget, enough ≤ budget →
      advanceWithin budget (serve event others) cycles clock s = .ok (clock', s') := by
  obtain ⟨reach, countable⟩ := h.countable event others steady slow
  obtain ⟨n, clock', s', age, -, hrun⟩ := Responder.advanceWithin (beside_steady event others steady)
    reach.wellFormed countable hcycles
  rw [← serve_eq] at hrun
  exact ⟨n, clock', s', age, hrun⟩

end

/-! ## Seconds above the headroom -/

/-- The only alarm of the clock is the tick, in so many cycles. -/
def Lone (left : Nat) (clock : Clock ε) : Prop :=
  ∃ order, clock.queue = [⟨clock.now + left, order, event .tick⟩]

variable {event} {clock clock' : Clock ε} {left cycles budget : Nat}

theorem Lone.ahead (h : Lone event left clock) (pos : 0 < left) : clock.Ahead := by
  obtain ⟨order, queue⟩ := h
  intro e he
  rw [queue] at he
  obtain rfl := List.mem_singleton.mp he
  exact Nat.lt_add_of_pos_right pos

/-- A rebase does not bring the tick nearer. -/
theorem Lone.rebase (h : Lone event left clock) : Lone event left clock.rebase := by
  obtain ⟨order, queue⟩ := h
  have offset := clock.rebaseOffset_le_now
  unfold Clock.rebase
  simp only []
  split
  · exact ⟨order, queue⟩
  · refine ⟨order, ?_⟩
    simp only [queue, List.map_cons, List.map_nil]
    congr 2
    omega

/-- Nothing is due, and there is room behind a rebase if there was none. -/
theorem Lone.makeRoom (budget : Nat) (h : Lone event left clock) (pos : 0 < left)
    (now_le : clock.now ≤ Cycle.clockMax) (hcycles : cycles ≤ Cycle.clockMax) (handle : Handler ε σ)
    (s : σ) :
    ∃ clock', Clock.makeRoom handle budget cycles clock s = .ok (clock', s) ∧
      Lone event left clock' ∧ clock'.now + cycles ≤ Cycle.clockMax := by
  unfold Clock.makeRoom
  by_cases room : cycles ≤ Cycle.clockMax - clock.now
  · exact ⟨clock, if_pos room, h, by omega⟩
  · have none : fireDue handle budget clock s = .ok (clock, s) := by
      cases budget <;> simp [fireDue, (h.ahead pos).popDue]
    have zero : clock.rebase.now = 0 := rebase_now (h.ahead pos)
    rw [if_neg room, none, ok_bind]
    simp only []
    rw [zero, if_pos (by omega)]
    exact ⟨clock.rebase, rfl, h.rebase, by omega⟩

/-- An advance that stays before the tick fires nothing. -/
theorem Lone.advance_before (budget : Nat) (h : Lone event left clock) (before : cycles < left)
    (now_le : clock.now ≤ Cycle.clockMax) (hcycles : cycles ≤ Cycle.clockMax) (handle : Handler ε σ)
    (s : σ) :
    ∃ clock', advanceWithin budget handle cycles clock s = .ok (clock', s) ∧
      Lone event (left - cycles) clock' ∧ clock'.now ≤ Cycle.clockMax := by
  obtain ⟨clock₁, hroom, ⟨order, queue⟩, room⟩ :=
    h.makeRoom budget (by omega) now_le hcycles handle s
  have moved : Lone event (left - cycles) { clock₁ with now := clock₁.now + cycles } := by
    refine ⟨order, queue.trans ?_⟩
    congr 2
    simp only []
    omega
  refine ⟨_, ?_, moved, room⟩
  unfold Clock.advanceWithin
  rw [hroom, ok_bind]
  cases budget <;> simp [fireDue, (moved.ahead (by omega)).popDue]

variable [DecidableEq ε]

theorem Lone.new [ToString ε] {config : Config} {rtc : Rtc} (empty : clock.queue = [])
    (h : Rtc.new event config clock = .ok (.ok (rtc, clock'))) :
    Lone event config.cyclesPerSecond clock' := by
  obtain ⟨-, rfl⟩ := new_eq event h
  refine ⟨clock.nextOrder, ?_⟩
  simp only [Clock.setAlarm, Clock.cancel, empty, List.filter_nil]
  rfl

variable (others : Responder ε σ) {s : Rtc × σ}

/-- The tick fires again and again up to the highest counter, and cannot be set again there. -/
theorem serve_overflows {due order seconds : Nat} (fast : Cycle.headroom < s.1.cyclesPerSecond)
    (queue : clock.queue = [⟨due, order, event .tick⟩]) (now_eq : clock.now = Cycle.clockMax)
    (last : due + seconds * s.1.cyclesPerSecond = Cycle.clockMax) (enough : seconds < budget) :
    fireDue (serve event others) budget clock s = .error .overflow := by
  -- On the seconds that the clock has room for behind the alarm.
  induction seconds generalizing clock s due order budget with
  | zero =>
    obtain ⟨budget, rfl⟩ := Nat.exists_eq_succ_of_ne_zero (Nat.ne_of_gt enough)
    have beyond : ¬due + s.1.cyclesPerSecond ≤ Cycle.last := by
      unfold Cycle.headroom at fast
      omega
    have hdue : due ≤ clock.now := by omega
    simp [fireDue, popDue, queue, hdue, serve, onAlarm_eq, setAgain, Cycle.add, beyond, bind,
      Except.bind]
  | succ seconds ih =>
    obtain ⟨budget, rfl⟩ := Nat.exists_eq_succ_of_ne_zero (Nat.ne_of_gt (Nat.zero_lt_of_lt enough))
    rw [Nat.succ_mul] at last
    have room : due + s.1.cyclesPerSecond ≤ Cycle.last := by
      have : Cycle.clockMax ≤ Cycle.last := by decide
      omega
    have hdue : due ≤ clock.now := by omega
    simp only [fireDue, popDue, queue, if_pos hdue, serve, onAlarm_eq, setAgain, Cycle.add,
      if_pos room, if_true, pure_bind, ok_bind]
    have again : (({ clock with queue := [] } : Clock ε).setAlarm (due + s.1.cyclesPerSecond)
        (event .tick)).queue = [⟨due + s.1.cyclesPerSecond, clock.nextOrder, event .tick⟩] := rfl
    refine ih (by simpa using fast) again now_eq ?_ (Nat.lt_of_succ_lt_succ enough)
    simp only [expire_cyclesPerSecond]
    omega

/-- A second above the headroom is too long sooner or later: an advance that makes the alarms fall
on the highest counter, and then one as far as the clock goes. -/
theorem Lone.overflows (fast : Cycle.headroom < s.1.cyclesPerSecond)
    (short : s.1.cyclesPerSecond ≤ Cycle.last) (h : Lone event s.1.cyclesPerSecond clock)
    (now_le : clock.now ≤ Cycle.clockMax) :
    ∃ first ≤ Cycle.clockMax, ∃ clock',
      advance (serve event others) first clock s = .ok (clock', s) ∧
      advance (serve event others) Cycle.clockMax clock' s = .error .overflow := by
  have top : 0 < Cycle.clockMax := by decide
  -- The alarm is to fall on a cycle that whole seconds take to the highest counter.
  obtain ⟨due, hdue⟩ : ∃ due, due = (Cycle.clockMax - 1) % s.1.cyclesPerSecond + 1 := ⟨_, rfl⟩
  have whole : due + (Cycle.clockMax - 1) / s.1.cyclesPerSecond * s.1.cyclesPerSecond =
      Cycle.clockMax := by
    have := Nat.mod_add_div' (Cycle.clockMax - 1) s.1.cyclesPerSecond
    omega
  have due_le : due ≤ s.1.cyclesPerSecond := by
    have := Nat.mod_lt (Cycle.clockMax - 1) (Nat.zero_lt_of_lt fast)
    omega
  have first : s.1.cyclesPerSecond - due ≤ Cycle.clockMax := by
    by_cases long : s.1.cyclesPerSecond ≤ Cycle.clockMax
    · omega
    · have : (Cycle.clockMax - 1) % s.1.cyclesPerSecond = Cycle.clockMax - 1 :=
        Nat.mod_eq_of_lt (by omega)
      have : Cycle.last ≤ 2 * Cycle.clockMax := by decide
      omega
  have before : s.1.cyclesPerSecond - due < s.1.cyclesPerSecond := by omega
  obtain ⟨clock₁, hfirst, lone, now_le₁⟩ :=
    h.advance_before alarmBudget before now_le first (serve event others) s
  rw [Nat.sub_sub_self due_le] at lone
  obtain ⟨clock₂, hroom, ⟨order, queue⟩, room⟩ := lone.makeRoom alarmBudget (by omega)
    now_le₁ (Nat.le_refl _) (serve event others) s
  have zero : clock₂.now = 0 := by omega
  rw [zero, Nat.zero_add] at queue
  refine ⟨_, first, clock₁, hfirst, ?_⟩
  unfold Clock.advance Clock.advanceWithin
  rw [hroom, ok_bind]
  refine serve_overflows others fast queue (by simp [zero]) whole ?_
  exact Nat.lt_of_le_of_lt (Nat.div_le_self _ _) (by decide)

/-! ## Every configuration -/

variable (event)

/-- A configuration that is refused leaves the clock as it is. Any other is built just where its
first alarm has a cycle number. With a second within the headroom that is on every clock, and the
clock advances on, whatever others do with alarms of their own. A longer second is too long for a
clock on which it was built, sooner or later. -/
theorem keeps_time [ToString ε] (config : Config) :
    (∀ e, config.error? = some e →
      (∀ clock : Clock ε, new event config clock = .ok (.error e)) ∧
      ∀ b : Board, b.attachRtc config = .ok (some e, b.detachRtc)) ∧
    (config.error? = none →
      (∀ clock : Clock ε, (∃ rtc clock', new event config clock = .ok (.ok (rtc, clock'))) ↔
        clock.now + config.cyclesPerSecond ≤ Cycle.last) ∧
      (config.cyclesPerSecond ≤ Cycle.headroom →
        (∀ clock : Clock ε, clock.Reachable →
          ∃ rtc clock', new event config clock = .ok (.ok (rtc, clock'))) ∧
        ∀ (σ : Type) (others : Responder ε σ) (Good : σ → Prop), others.Steady Good →
          ∀ clock s, Timed event others config Good clock s → ∀ cycles ≤ Cycle.clockMax,
            ∃ enough clock' s', clock'.elapsed = clock.elapsed + cycles ∧
              ∀ budget, enough ≤ budget →
                advanceWithin budget (serve event others) cycles clock s = .ok (clock', s')) ∧
      (Cycle.headroom < config.cyclesPerSecond →
        ∀ (σ : Type) (others : Responder ε σ) (rest : σ) (clock clock' : Clock ε) (rtc : Rtc),
          clock.queue = [] → clock.now ≤ Cycle.clockMax →
          new event config clock = .ok (.ok (rtc, clock')) →
          ∃ first ≤ Cycle.clockMax, ∃ clock'',
            advance (serve event others) first clock' (rtc, rest) = .ok (clock'', rtc, rest) ∧
            advance (serve event others) Cycle.clockMax clock'' (rtc, rest) =
              .error .overflow)) := by
  refine ⟨fun e he => ?_, fun valid => ⟨new_succeeds_iff event valid, ?_, ?_⟩⟩
  · have refused : ∀ {ε : Type} [DecidableEq ε] [ToString ε] (event : Event → ε) (clock : Clock ε),
        new event config clock = .ok (.error e) := by
      intro ε _ _ event clock
      unfold new
      rw [he]
    refine ⟨refused event, fun b => ?_⟩
    unfold Board.attachRtc
    simp only [refused]
    rfl
  · intro slow
    refine ⟨fun clock reach => (new_succeeds_iff event valid clock).mpr ?_, ?_⟩
    · exact add_le_last reach.wellFormed.now_le slow
    · intro σ others Good steady clock s timed cycles hcycles
      exact timed.advance_succeeds event others steady slow hcycles
  · intro fast σ others rest clock clock' rtc empty now_le hnew
    have room := (new_succeeds_iff event valid clock).mp ⟨rtc, clock', hnew⟩
    have lone := Lone.new empty hnew
    obtain ⟨rfl, rfl⟩ := new_eq event hnew
    exact Lone.overflows others (s := (powerOn config, rest)) fast
      (Nat.le_trans (Nat.le_add_left _ _) room) lone now_le

/-- A chip is built with its clock at the top and another alarm overdue, and the clock advances by
as much as a clock can. -/
theorem keeps_time_brim :
    let event : Event → Option Event := some
    let clock : Clock (Option Event) := (⟨Cycle.clockMax, 0, 0, 0, []⟩ : Clock _).setAlarm 5 none
    let nobody : Responder (Option Event) Unit := fun _ _ s => ([], s)
    ({} : Config).error? = none ∧ ({} : Config).cyclesPerSecond ≤ Cycle.headroom ∧
      nobody.Steady (fun _ => True) ∧
      ∃ rtc clock', @new _ _ event ⟨fun _ => ""⟩ {} clock = .ok (.ok (rtc, clock')) ∧
        ∃ enough clock'' s', clock''.elapsed = clock'.elapsed + Cycle.clockMax ∧
          ∀ budget, enough ≤ budget →
            advanceWithin budget (serve event nobody) Cycle.clockMax clock' (rtc, ()) =
              .ok (clock'', s') := by
  intro event clock nobody
  let _ : ToString (Option Event) := ⟨fun _ => ""⟩
  have steady : nobody.Steady fun _ => True :=
    ⟨fun _ _ _ _ x hx => absurd hx (by simp [nobody]), fun _ _ _ _ => trivial⟩
  have reach : clock.Reachable :=
    .setAlarm none (.start (show start Cycle.clockMax = .ok _ from rfl)) (by decide)
  obtain ⟨builds, advances⟩ :=
    ((keeps_time event {}).2 (by decide)).2.1 (by decide)
  obtain ⟨rtc, clock', hnew⟩ := builds clock reach
  refine ⟨by decide, by decide, steady, rtc, clock', hnew, ?_⟩
  exact advances Unit nobody _ steady clock' (rtc, ()) (.new reach trivial hnew) Cycle.clockMax
    (Nat.le_refl _)

/-- A second of every cycle number there is passes as a configuration, and the chip cannot be built
one cycle after the start of the clock. -/
theorem longest_second_faults :
    let config : Config := { cyclesPerSecond := Cycle.last }
    let clock : Clock Event := ⟨1, 0, 0, 0, []⟩
    Clock.start 1 = .ok clock ∧ clock.now ≤ Cycle.clockMax ∧ config.error? = none ∧
      new id config clock = .error (.triggerOverflow "Tick" 1 0xFFFFFFFF) ∧
      ¬∃ out, new id config clock = .ok out := by
  intro config clock
  have faults : new id config clock = .error (.triggerOverflow "Tick" 1 0xFFFFFFFF) := by
    have beyond : ¬1 + Cycle.last ≤ Cycle.last := by decide
    have valid : config.error? = none := by decide
    unfold new setAlarmIn
    simp only [valid, config, clock, if_neg beyond]
    rfl
  refine ⟨rfl, by decide, by decide, faults, ?_⟩
  rintro ⟨out, hout⟩
  exact absurd (faults.symm.trans hout) (by simp)

end C64.Rtc
