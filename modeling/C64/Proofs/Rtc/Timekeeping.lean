import C64.Proofs.Rtc.Century
import C64.Proofs.Rtc.Pacing
import C64.Rtc.Host
import Mathlib.Logic.Relation

/-!
# The calendar by the clock

The alarm of the chip waits for a whole number of seconds behind its making, the first that is still
to come (`Beats`), whatever else the clock has to do. So the seconds that the calendar counts are
the whole seconds that passed on the clock, however the clock was advanced there. Where the
registers held a time of the calendar, they hold that many seconds later the time that many seconds
behind it (`calendar_follows_clock`).
-/

namespace C64.Rtc

open Clock Relation

variable {ε σ : Type} [DecidableEq ε]

/-! ## Others that leave the alarm alone -/

/-- The request is about another event. -/
def Spares (event : ε) : Request ε → Prop
  | .set _ e => e ≠ event
  | .cancel e => e ≠ event

theorem Spares.due?_apply {event : ε} {x : Request ε} (h : Spares event x) (due : Nat)
    (q : Agenda ε) : (x.apply due q).due? event = q.due? event := by
  cases x with
  | set delay e => exact Agenda.due?_set_ne q _ h
  | cancel e => exact Agenda.due?_cancel_ne q h

theorem Spares.due?_foldl {event : ε} {requests : List (Request ε)}
    (h : ∀ x ∈ requests, Spares event x) (due : Nat) (q : Agenda ε) :
    (requests.foldl (Request.apply due) q).due? event = q.due? event := by
  induction requests generalizing q with
  | nil => rfl
  | cons x rest ih =>
    rw [List.foldl_cons, ih fun y hy => h y (.tail x hy)]
    exact (h x (.head rest)).due?_apply due q

variable (event : Event → ε) (others : Responder ε σ)

/-- No other alarm touches that of the chip. -/
def Apart : Prop := ∀ due e s, e ≠ event .tick → ∀ x ∈ (others due e s).1, Spares (event .tick) x

/-! ## The seconds of an advance -/

/-- If the first alarm is still to come, so is every other. -/
theorem lt_due?_of_head {limit due : Nat} {e : ε} {q : Agenda ε} (sorted : q.Sorted)
    (h : ∀ x ∈ q.head?, limit < x.1) (hdue : q.due? e = some due) : limit < due := by
  cases q with
  | nil => exact absurd hdue (by simp [Agenda.due?])
  | cons x rest =>
    have first : limit < x.1 := h x rfl
    obtain ⟨y, found, rfl⟩ := Option.map_eq_some_iff.mp hdue
    obtain rfl | later := List.mem_cons.mp (List.mem_of_find?_eq_some found)
    · exact first
    · exact Nat.lt_of_lt_of_le first ((List.pairwise_cons.mp sorted).1 y later)

/-- The seconds that fire up to a cycle. The alarm comes every second, and nothing else changes the
chip. -/
theorem seconds_fire {event : Event → ε} {others : Responder ε σ} (apart : Apart event others)
    {limit n rate : Nat} {q q' : Agenda ε} {s s' : Rtc × σ} (sorted : q.Sorted)
    (hrate : s.1.cyclesPerSecond = rate) (h : Fires (beside event others) limit n q s q' s')
    {due : Nat} (hdue : q.due? (event .tick) = some due) :
    ∃ k, s'.1 = expire^[k] s.1 ∧ q'.due? (event .tick) = some (due + k * rate) ∧
      limit < due + k * rate ∧ (0 < k → due + (k - 1) * rate ≤ limit) := by
  induction h generalizing due with
  | @done q s none =>
    have behind := lt_due?_of_head sorted none hdue
    exact ⟨0, rfl, by rwa [Nat.zero_mul], by rwa [Nat.zero_mul], fun pos => absurd pos (by decide)⟩
  | @fire at' n e rest q' s s' reached more ih =>
    obtain ⟨-, sortedRest⟩ := List.pairwise_cons.mp sorted
    have sorted' : ((beside event others at' e s).1.foldl (Request.apply at') rest).Sorted :=
      Request.sorted_foldl _ sortedRest
    obtain rfl | other := eq_or_ne e (event .tick)
    · -- The alarm of the chip, set again a second later.
      obtain rfl : at' = due := by simpa [Agenda.due?] using hdue
      have mine : beside event others at' (event .tick) s =
          ([.set s.1.cyclesPerSecond (event .tick)], (s.1.expire, s.2)) := if_pos rfl
      rw [mine] at ih sorted'
      obtain ⟨k, chip, again, beyond, last⟩ :=
        ih sorted' (by simpa using hrate) (Agenda.due?_set_self rest _ (event .tick))
      rw [hrate] at again beyond last
      have step : at' + (k + 1) * rate = at' + rate + k * rate := by
        rw [Nat.succ_mul]
        omega
      refine ⟨k + 1, chip, by rwa [step], by rwa [step], fun _ => ?_⟩
      cases k with
      | zero => rwa [Nat.zero_add, Nat.sub_self, Nat.zero_mul]
      | succ k =>
        have := last (Nat.succ_pos k)
        rw [Nat.add_sub_cancel] at this ⊢
        rw [Nat.succ_mul]
        omega
    · have theirs : beside event others at' e s =
          ((others at' e s.2).1, (s.1, (others at' e s.2).2)) := if_neg other
      rw [theirs] at ih sorted'
      refine ih sorted' hrate ?_
      rw [Spares.due?_foldl (apart at' e s.2 other), ← hdue]
      exact (Agenda.due?_cons_ne other rest).symm

/-! ## What can happen around the chip -/

/-- What happens on a clock with a chip and others. In a quiet turn the host leaves the registers
to the seconds, whatever it does with the lines. -/
inductive Turn (Good : σ → Prop) (quiet : Bool) : Clock ε × Rtc × σ → Clock ε × Rtc × σ → Prop
  | advance {clock clock' : Clock ε} {s s' : Rtc × σ} {budget cycles : Nat} :
      advanceWithin budget (serve event others) cycles clock s = .ok (clock', s') →
      Turn Good quiet (clock, s) (clock', s')
  | rebase (clock : Clock ε) (s : Rtc × σ) : Turn Good quiet (clock, s) (clock.rebase, s)
  | setAlarm (clock : Clock ε) (s : Rtc × σ) {e : ε} {due : Nat} : e ≠ event .tick →
      due ≤ Cycle.last → Turn Good quiet (clock, s) (clock.setAlarm due e, s)
  | cancel (clock : Clock ε) (s : Rtc × σ) {e : ε} : e ≠ event .tick →
      Turn Good quiet (clock, s) (clock.cancel e, s)
  | others (clock : Clock ε) (rtc : Rtc) {rest rest' : σ} : Good rest' →
      Turn Good quiet (clock, rtc, rest) (clock, rtc, rest')
  | setLines (clock : Clock ε) (rtc : Rtc) (rest : σ) (enable serialClock data : Bool) :
      (quiet → (rtc.setLines enable serialClock data).registers = rtc.registers) →
      Turn Good quiet (clock, rtc, rest) (clock, rtc.setLines enable serialClock data, rest)
  | resetLines (clock : Clock ε) (rtc : Rtc) (rest : σ) :
      Turn Good quiet (clock, rtc, rest) (clock, rtc.resetLines, rest)

/-- The whole seconds on a clock since a cycle. -/
def secondsSince (built rate : Nat) (clock : Clock ε) : Nat := (clock.elapsed - built) / rate

/-- The alarm of the chip waits for the first whole second behind `built` that is to come. -/
structure Beats (Good : σ → Prop) (built rate : Nat) (x : Clock ε × Rtc × σ) : Prop where
  reachable : x.1.Reachable
  countable : Countable Good x.2
  rate_eq : x.2.1.cyclesPerSecond = rate
  built_le : built ≤ x.1.elapsed
  due : x.1.agenda.due? (event .tick) = some (built + (secondsSince built rate x.1 + 1) * rate)

theorem iterate_expire_registers (r : Rtc) (k : Nat) :
    (expire^[k] r).registers = second^[k] r.registers := by
  induction k generalizing r with
  | zero => rfl
  | succ k ih => rw [Function.iterate_succ_apply, ih, expire_eq, Function.iterate_succ_apply]

theorem iterate_expire_cyclesPerSecond (r : Rtc) (k : Nat) :
    (expire^[k] r).cyclesPerSecond = r.cyclesPerSecond := by
  induction k generalizing r with
  | zero => rfl
  | succ k ih => rw [Function.iterate_succ_apply, ih, expire_cyclesPerSecond]

/-- A running clock goes on, a second at a time. -/
theorem iterate_second {r : Registers} (running : r.halted = false) (k : Nat) :
    second^[k] r = Registers.tick^[k] r := by
  induction k generalizing r with
  | zero => rfl
  | succ k ih =>
    have once : second r = r.tick := by simp [second, running]
    rw [Function.iterate_succ_apply, once, ih (r.tick_halted.trans running),
      Function.iterate_succ_apply]

variable {event others} {Good : σ → Prop} {built rate : Nat} {x y : Clock ε × Rtc × σ}
  {quiet : Bool}

/-- An advance counts the seconds that the clock passes. -/
theorem Beats.advance (apart : Apart event others) (steady : others.Steady Good)
    (h : Beats event Good built rate x) {budget cycles : Nat}
    (run : advanceWithin budget (serve event others) cycles x.1 x.2 = .ok y) :
    Beats event Good built rate y ∧ x.1.elapsed ≤ y.1.elapsed ∧
      y.2.1.registers =
        second^[secondsSince built rate y.1 - secondsSince built rate x.1] x.2.1.registers := by
  obtain ⟨clock, s⟩ := x
  obtain ⟨clock', s'⟩ := y
  have steady' := beside_steady event others steady
  have pos : 0 < rate := h.rate_eq ▸ h.countable.one_le
  rw [serve_eq] at run
  obtain ⟨reachable, countable⟩ :=
    h.reachable.advanceWithin (Responder.handler_lawful steady') h.countable run
  obtain ⟨n, age, leads⟩ :=
    Responder.leads_of_advance steady' h.reachable.wellFormed h.countable run
  obtain ⟨k, chip, due, beyond, last⟩ :=
    seconds_fire apart h.reachable.wellFormed.agenda_sorted h.rate_eq leads.fires h.due
  have built_le := h.built_le
  simp only [] at age built_le
  have counted : secondsSince built rate clock' = secondsSince built rate clock + k := by
    have before : secondsSince built rate clock * rate ≤ clock.elapsed - built :=
      Nat.div_mul_le_self _ rate
    generalize secondsSince built rate clock = seconds at before beyond last ⊢
    refine Nat.div_eq_of_lt_le ?_ ?_
    · cases k with
      | zero =>
        rw [Nat.add_zero]
        omega
      | succ k =>
        have := last (Nat.succ_pos k)
        simp only [Nat.add_sub_cancel, Nat.add_mul] at this ⊢
        omega
    · simp only [Nat.add_mul] at beyond ⊢
      omega
  refine ⟨⟨reachable, countable, ?_, ?_, ?_⟩, ?_, ?_⟩
  · rw [chip, iterate_expire_cyclesPerSecond, h.rate_eq]
  · show built ≤ clock'.elapsed
    omega
  · rw [due, counted]
    simp only [Nat.add_mul]
    congr 1
    omega
  · show clock.elapsed ≤ clock'.elapsed
    omega
  · rw [counted, Nat.add_sub_cancel_left, chip, iterate_expire_registers]

/-- A turn keeps the alarm on its beat, and a quiet one counts the seconds that pass. -/
theorem Beats.turn (apart : Apart event others) (steady : others.Steady Good)
    (h : Beats event Good built rate x) (turn : Turn event others Good quiet x y) :
    Beats event Good built rate y ∧ x.1.elapsed ≤ y.1.elapsed ∧ (quiet → y.2.1.registers =
      second^[secondsSince built rate y.1 - secondsSince built rate x.1] x.2.1.registers) := by
  -- All turns but an advance take no time, so that no second passes.
  have still : ∀ {clock' : Clock ε} {s' : Rtc × σ}, clock'.Reachable → Countable Good s' →
      s'.1.cyclesPerSecond = rate → clock'.elapsed = x.1.elapsed →
      clock'.agenda.due? (event .tick) = x.1.agenda.due? (event .tick) →
      (quiet → s'.1.registers = x.2.1.registers) →
      Beats event Good built rate (clock', s') ∧ x.1.elapsed ≤ clock'.elapsed ∧
        (quiet → s'.1.registers = second^[secondsSince built rate clock' -
          secondsSince built rate x.1] x.2.1.registers) := by
    intro clock' s' reachable countable rate_eq age due registers
    have same : secondsSince built rate clock' = secondsSince built rate x.1 :=
      congrArg (fun e => (e - built) / rate) age
    refine ⟨⟨reachable, countable, rate_eq, ?_, ?_⟩, Nat.le_of_eq age.symm, fun hq => ?_⟩
    · exact age ▸ h.built_le
    · rw [due, same, h.due]
    · rw [same, Nat.sub_self]
      exact registers hq
  cases turn with
  | advance run =>
    obtain ⟨beats, later, registers⟩ := h.advance apart steady run
    exact ⟨beats, later, fun _ => registers⟩
  | rebase clock s =>
    exact still h.reachable.rebase h.countable h.rate_eq (elapsed_rebase clock)
      (by rw [h.reachable.wellFormed.agenda_rebase]) fun _ => rfl
  | setAlarm clock s other hdue =>
    exact still (h.reachable.setAlarm _ hdue) h.countable h.rate_eq rfl
      (by rw [agenda_setAlarm, Agenda.due?_set_ne _ _ other]) fun _ => rfl
  | cancel clock s other =>
    exact still (h.reachable.cancel _) h.countable h.rate_eq rfl
      (by rw [agenda_cancel, Agenda.due?_cancel_ne _ other]) fun _ => rfl
  | others clock rtc good =>
    exact still h.reachable ⟨h.countable.one_le, h.countable.le_headroom, good⟩ h.rate_eq rfl rfl
      fun _ => rfl
  | setLines clock rtc rest enable serialClock data kept =>
    have rate_eq := rtc.setLines_cyclesPerSecond enable serialClock data
    exact still h.reachable ⟨rate_eq ▸ h.countable.one_le, rate_eq ▸ h.countable.le_headroom,
      h.countable.others⟩ (rate_eq.trans h.rate_eq) rfl rfl kept
  | resetLines clock rtc rest =>
    exact still h.reachable ⟨h.countable.one_le, h.countable.le_headroom, h.countable.others⟩
      h.rate_eq rfl rfl fun _ => rfl

/-- What holds behind one turn holds behind any number. -/
theorem Beats.turns (apart : Apart event others) (steady : others.Steady Good)
    (h : Beats event Good built rate x) (turns : ReflTransGen (Turn event others Good quiet) x y) :
    Beats event Good built rate y ∧ x.1.elapsed ≤ y.1.elapsed ∧ (quiet → y.2.1.registers =
      second^[secondsSince built rate y.1 - secondsSince built rate x.1] x.2.1.registers) := by
  induction turns with
  | refl => exact ⟨h, Nat.le_refl _, fun _ => by rw [Nat.sub_self]; rfl⟩
  | @tail y z _ turn ih =>
    obtain ⟨beats, later, registers⟩ := ih
    obtain ⟨beats', later', registers'⟩ := beats.turn apart steady turn
    refine ⟨beats', Nat.le_trans later later', fun hq => ?_⟩
    have first : secondsSince built rate x.1 ≤ secondsSince built rate y.1 :=
      Nat.div_le_div_right (Nat.sub_le_sub_right later built)
    have next : secondsSince built rate y.1 ≤ secondsSince built rate z.1 :=
      Nat.div_le_div_right (Nat.sub_le_sub_right later' built)
    rw [registers' hq, registers hq, ← Function.iterate_add_apply]
    congr 1
    omega

/-! ## From the making on -/

theorem Beats.new [ToString ε] {config : Config} (slow : config.cyclesPerSecond ≤ Cycle.headroom)
    {first clock : Clock ε} {rtc : Rtc} {rest : σ} (reach : first.Reachable) (good : Good rest)
    (h : Rtc.new event config first = .ok (.ok (rtc, clock))) :
    Beats event Good clock.elapsed config.cyclesPerSecond (clock, rtc, rest) := by
  obtain ⟨reach', one_le⟩ := new_ok event reach h
  obtain ⟨rfl, rfl⟩ := new_eq event h
  refine ⟨reach', ⟨one_le, slow, good⟩, rfl, Nat.le_refl _, ?_⟩
  rw [agenda_setAlarm, Agenda.due?_set_self, secondsSince, Nat.sub_self, Nat.zero_div, Nat.zero_add,
    Nat.one_mul]
  exact congrArg some (Nat.add_assoc ..).symm

/-- Where the registers have come to hold a time, in either form of the hours and with the clock
running, they go on to hold the time that is as many seconds later as whole seconds of the chip end,
counted from its making, as long as nobody writes them. The form, the control register and that for
charging stay. A clock that came there can always advance on. -/
theorem calendar_follows_clock [ToString ε] (apart : Apart event others)
    (steady : others.Steady Good) {config : Config}
    (slow : config.cyclesPerSecond ≤ Cycle.headroom) {first clock : Clock ε} {rtc : Rtc} {rest : σ}
    (reach : first.Reachable) (good : Good rest)
    (made : Rtc.new event config first = .ok (.ok (rtc, clock)))
    (lived : ReflTransGen (Turn event others Good false) (clock, rtc, rest) x)
    (unwritten : ReflTransGen (Turn event others Good true) x y) {t : Time}
    (valid : t.error? = none) {twelve : Bool} {control trickle : UInt8}
    (held : x.2.1.registers = .holding twelve t control trickle) :
    let seconds := secondsSince clock.elapsed config.cyclesPerSecond
    let n := seconds y.1 - seconds x.1
    y.2.1.registers = Registers.tick^[n] x.2.1.registers ∧
      (∃ t', t.Later n t' ∧ (∀ u, t.Later n u → u = t') ∧ y.2.1.registers.time = t' ∧
        y.2.1.registers = .holding twelve t' control trickle) ∧
      ∀ cycles ≤ Cycle.clockMax, ∃ enough z, z.1.elapsed = y.1.elapsed + cycles ∧
        ∀ budget, enough ≤ budget →
          advanceWithin budget (serve event others) cycles y.1 y.2 = .ok z := by
  intro seconds n
  obtain ⟨beatsX, -, -⟩ := (Beats.new slow reach good made).turns apart steady lived
  obtain ⟨beats, later, registers⟩ := beatsX.turns apart steady unwritten
  have running := Registers.halted_holding twelve control trickle (Time.error?_eq_none_iff.mp valid)
  have ticks : y.2.1.registers = Registers.tick^[n] x.2.1.registers := by
    rw [registers rfl, held, iterate_second running]
  refine ⟨ticks, ?_, ?_⟩
  · obtain ⟨t', later, held'⟩ :=
      Registers.iterate_tick_holding twelve control trickle (Time.error?_eq_none_iff.mp valid) n
    rw [held, held'] at ticks
    refine ⟨t', later, fun u hu => hu.unique later, ?_, ticks⟩
    rw [ticks, Registers.time_holding _ _ _ (Time.error?_eq_none_iff.mp later.valid)]
  · intro cycles short
    obtain ⟨enough, clock', s', age, -, hrun⟩ := Responder.advanceWithin
      (beside_steady event others steady) beats.reachable.wellFormed beats.countable short
    rw [← serve_eq] at hrun
    exact ⟨enough, (clock', s'), age, hrun⟩

/-- What a host sends takes no time. -/
theorem turns_hostWrite (clock : Clock ε) (rtc : Rtc) (rest : σ) (bytes : List UInt8) :
    ReflTransGen (Turn event others Good false) (clock, rtc, rest)
      (clock, rtc.hostWrite bytes, rest) := by
  let Turns (r r' : Rtc) :=
    ReflTransGen (Turn event others Good false) (clock, r, rest) (clock, r', rest)
  have lines (r : Rtc) (enable serialClock data : Bool) :
      Turns r (r.setLines enable serialClock data) :=
    .single (.setLines clock r rest enable serialClock data nofun)
  have fold {α : Type} {f : Rtc → α → Rtc} (each : ∀ r a, Turns r (f r a)) (l : List α) (r : Rtc) :
      Turns r (l.foldl f r) := by
    induction l generalizing r with
    | nil => exact .refl
    | cons a l ih => exact (each r a).trans (ih (f r a))
  have sent (r : Rtc) (b : UInt8) : Turns r (r.sendByte b) :=
    fold (fun r i => (lines r true false _).trans (lines _ true true _)) (List.range 8) r
  have selected : Turns rtc rtc.select :=
    (lines rtc false false false).trans (lines _ true false false)
  exact (selected.trans (fold sent bytes _)).trans (lines _ false false false)

/-- A chip begins two seconds before the end of the century, on a clock at the top of its counter,
beside an alarm that comes every three hundred cycles. The host has the hours from one to twelve.
In the third second it is the new year, at twelve in the morning. -/
theorem calendar_follows_clock_century :
    let event : Event → Option Event := some
    let others : Responder (Option Event) Nat := fun _ _ n => ([.set 300 none], n + 1)
    let config : Config := { cyclesPerSecond := 1000, start := ⟨99, 12, 31, 5, 23, 59, 58⟩ }
    let first : Clock (Option Event) := ⟨Cycle.clockMax, 0, 0, 0, []⟩
    Apart event others ∧ others.Steady (fun _ => True) ∧ config.cyclesPerSecond ≤ Cycle.headroom ∧
      first.Reachable ∧ ∃ rtc clock,
        @Rtc.new _ _ event ⟨fun _ => ""⟩ config first = .ok (.ok (rtc, clock)) ∧
        let clock' := clock.setAlarm (clock.now + 300) none
        let rtc' := rtc.hostWrite [0x84, 0xB1]
        rtc'.registers = .holding true config.start 0 0 ∧ config.start.error? = none ∧
          ∃ budget y, advanceWithin budget (serve event others) 2500 clock' (rtc', 0) = .ok y ∧
            y.2.1.registers = .holding true ⟨0, 1, 1, 6, 0, 0, 0⟩ 0 0 := by
  intro event others config first
  let _ : ToString (Option Event) := ⟨fun _ => ""⟩
  have apart : Apart event others := by
    intro due e n _ x hx
    obtain rfl := List.mem_singleton.mp hx
    exact Option.some_ne_none _ |>.symm
  have steady : others.Steady fun _ => True := by
    refine ⟨fun due e n _ x hx => ?_, fun _ _ _ _ => trivial⟩
    obtain rfl := List.mem_singleton.mp hx
    exact ⟨by decide, by decide⟩
  have reach : first.Reachable := .start (show start Cycle.clockMax = .ok first from rfl)
  have slow : config.cyclesPerSecond ≤ Cycle.headroom := by decide
  obtain ⟨rtc, clock, made⟩ := (new_succeeds_iff event (by decide : config.error? = none) first).mpr
    (show Cycle.clockMax + 1000 ≤ Cycle.last by decide)
  obtain ⟨rfl, rfl⟩ := new_eq event made
  have written : ((powerOn config).hostWrite [0x84, 0xB1]).registers =
      .holding true config.start 0 0 := by
    decide +kernel
  refine ⟨apart, steady, slow, reach, _, _, made, written, by decide, ?_⟩
  let clock := first.setAlarm (first.now + 1000) (event .tick)
  have lived : ReflTransGen (Turn event others (fun _ => True) false) (clock, powerOn config, 0)
      (clock.setAlarm (first.now + 300) none, (powerOn config).hostWrite [0x84, 0xB1], 0) :=
    (turns_hostWrite clock (powerOn config) 0 [0x84, 0xB1]).tail
      (.setAlarm _ _ (show none ≠ event .tick from nofun)
        (show Cycle.clockMax + 300 ≤ Cycle.last by decide))
  obtain ⟨beats, -, -⟩ := (Beats.new slow reach trivial made).turns apart steady lived
  obtain ⟨budget, clock', s', age, -, hrun⟩ := Responder.advanceWithin
    (beside_steady event others steady) beats.reachable.wellFormed beats.countable
    (by decide : 2500 ≤ Cycle.clockMax)
  rw [← serve_eq] at hrun
  have run := hrun budget (Nat.le_refl _)
  obtain ⟨-, ⟨t', later, unique, -, held⟩, -⟩ :=
    calendar_follows_clock apart steady slow reach trivial made lived (.single (.advance run))
      (by decide) written
  refine ⟨budget, (clock', s'), run, ?_⟩
  -- Nothing before the advance took time, so it ends two whole seconds behind the making.
  have behind : ∀ base : Nat, (base + 2500 - base) / 1000 - (base - base) / 1000 = 2 := by omega
  simp only [secondsSince, age] at later unique
  rw [show ∀ c : Clock (Option Event), elapsed (c.setAlarm (first.now + 300) none) = c.elapsed from
    fun _ => rfl, behind] at later unique
  rw [held, ← unique ⟨0, 1, 1, 6, 0, 0, 0⟩ ⟨by decide, by decide +kernel, by decide +kernel⟩]

end C64.Rtc
