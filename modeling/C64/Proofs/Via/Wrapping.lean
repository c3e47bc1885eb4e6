import C64.Proofs.Via.Timer2

/-!
# Where timer 2 passes through zero

Cycles time out when they leave zero, and a pulse when it reaches it. So the turn in which the count
first goes from zero to `$FFFF` finds the flag raised where cycles took it through, and where a
pulse did but another one had brought the count down to zero. A pulse that finds a zero the timer
was loaded with, or that cycles have left, passes it in silence (`Via.timer2_wraps_raised_iff`): the
first of all pulses does if the timer was loaded with zero (`Via.pulse_wraps_in_silence`).
-/

namespace C64.Via

open Clock Function

variable {ε σ : Type}

namespace Tally

theorem counted_append (t : Tally) (turns later : List (Turn ε σ)) :
    counted t.control (turns ++ later) =
      counted t.control turns + counted (turns.foldl turn t).control later := by
  induction turns generalizing t with
  | nil => exact (Nat.zero_add _).symm
  | cons x rest ih =>
    have rest := ih (t.turn x)
    rw [List.cons_append, counted, counted, List.foldl_cons, Nat.add_assoc]
    exact congrArg (x.counts t.control + ·) rest

/-- The interrupt is spent just where there was a time-out. -/
theorem armed_foldl (t : Tally) (turns : List (Turn ε σ)) :
    (turns.foldl turn t).armed = false ↔ t.armed = false ∨
      ∃ past x later, turns = past ++ x :: later ∧ (past.foldl turn t).timesOut x = true := by
  induction turns generalizing t with
  | nil => simp
  | cons x rest ih =>
    rw [List.foldl_cons, ih]
    have now : (t.turn x).armed = false ↔ t.armed = false ∨ t.timesOut x = true := by
      simp only [turn, Bool.and_eq_false_iff, Bool.not_eq_false']
    rw [now, or_assoc]
    refine or_congr_right ⟨?_, ?_⟩
    · rintro (first | ⟨past, y, later, rfl, out⟩)
      · exact ⟨[], x, rest, rfl, first⟩
      · exact ⟨x :: past, y, later, rfl, out⟩
    · rintro ⟨past, y, later, cut, out⟩
      cases past with
      | nil =>
        obtain ⟨rfl, rfl⟩ := List.cons.inj cut
        exact .inl out
      | cons z past =>
        obtain ⟨rfl, rfl⟩ := List.cons.inj cut
        exact .inr ⟨past, y, later, rfl, out⟩

variable {t : Tally} {past later : List (Turn ε σ)} {x : Turn ε σ}

/-- Up to zero nothing wraps. -/
theorem toNat_left_foldl (within : counted t.control past ≤ t.left.toNat) :
    (past.foldl turn t).left.toNat = t.left.toNat - counted t.control past := by
  have small := t.left.toNat_lt
  rw [left_foldl, toNat_sub_ofNat 0 (by omega) (by omega)]
  omega

theorem counted_concat (t : Tally) (past : List (Turn ε σ)) (x : Turn ε σ) :
    counted t.control (past ++ [x]) =
      counted t.control past + x.counts (past.foldl turn t).control :=
  t.counted_append past [x]

theorem last_iff {left : UInt16} : left - 1 = 0 ↔ left.toNat = 1 := by
  have small := left.toNat_lt
  have one : (1 : UInt16).toNat = 1 := rfl
  rw [← UInt16.toNat_inj, UInt16.toNat_sub, one, UInt16.toNat_zero]
  omega

/-- Before the count has passed through zero, only a pulse that brings it there is a time-out. -/
theorem timesOut_within (within : counted t.control (past ++ [x]) ≤ t.left.toNat) :
    (past.foldl turn t).timesOut x = true ↔ x = .pulse ∧
      counted t.control past < t.left.toNat ∧ counted t.control (past ++ [x]) = t.left.toNat := by
  rw [counted_concat] at within ⊢
  have left := toNat_left_foldl (show counted t.control past ≤ t.left.toNat by omega)
  generalize past.foldl turn t = now at *
  cases x with
  | advance cycles =>
    refine ⟨fun out => ?_, fun h => by cases h.1⟩
    simp only [timesOut, Bool.and_eq_true, Bool.not_eq_true', decide_eq_true_eq] at out
    have counts : (.advance cycles : Turn ε σ).counts now.control = cycles :=
      if_neg (Bool.eq_false_iff.mp out.1)
    omega
  | pulse =>
    simp only [timesOut, Bool.and_eq_true, beq_iff_eq, last_iff, true_and]
    by_cases mode : now.pulses = true
    · have counts : (.pulse : Turn ε σ).counts now.control = 1 := if_pos mode
      simp only [mode, true_and]
      omega
    · have counts : (.pulse : Turn ε σ).counts now.control = 0 := if_neg mode
      refine iff_of_false (fun out => mode out.1) fun down => ?_
      omega
  | _ => exact iff_of_false Bool.false_ne_true fun h => by cases h.1

/-- What takes the count through zero is a time-out if it is no pulse. -/
theorem timesOut_through (within : counted t.control past ≤ t.left.toNat)
    (through : t.left.toNat < counted t.control (past ++ [x])) :
    (past.foldl turn t).timesOut x = true ↔ x ≠ .pulse := by
  rw [counted_concat] at through
  have left := toNat_left_foldl within
  generalize past.foldl turn t = now at *
  cases x with
  | advance cycles =>
    refine iff_of_true ?_ nofun
    have mode : now.pulses = false := by
      refine Bool.eq_false_iff.mpr fun pulses => ?_
      have counts : (.advance cycles : Turn ε σ).counts now.control = 0 := if_pos pulses
      omega
    have counts : (.advance cycles : Turn ε σ).counts now.control = cycles :=
      if_neg (Bool.eq_false_iff.mp mode)
    simp only [timesOut, mode, Bool.not_false, Bool.true_and, decide_eq_true_eq]
    omega
  | pulse =>
    refine iff_of_false (fun out => ?_) (fun other => other rfl)
    simp only [timesOut, Bool.and_eq_true, beq_iff_eq] at out
    have counts : (.pulse : Turn ε σ).counts now.control = 1 := if_pos out.1
    have one := last_iff.mp out.2
    omega
  | _ => exact absurd through (Nat.not_lt.mpr within)

/-- Where the count has just passed through zero, the interrupt is spent unless a pulse took it
through and no other had brought it there. -/
theorem armed_through (armed : t.armed = true)
    (within : counted t.control past ≤ t.left.toNat)
    (through : t.left.toNat < counted t.control (past ++ [x])) :
    ((past ++ [x]).foldl turn t).armed = false ↔ x ≠ .pulse ∨
      ∃ before after, past = before ++ .pulse :: after ∧
        counted t.control before < t.left.toNat ∧
        counted t.control (before ++ [.pulse]) = t.left.toNat := by
  have last : ((past ++ [x]).foldl turn t).armed = false ↔
      (past.foldl turn t).armed = false ∨ (past.foldl turn t).timesOut x = true := by
    rw [List.foldl_append]
    simp only [List.foldl_cons, List.foldl_nil, turn, Bool.and_eq_false_iff, Bool.not_eq_false']
  rw [last, timesOut_through within through, armed_foldl, armed]
  simp only [Bool.true_eq_false, false_or]
  rw [or_comm]
  refine or_congr_right ⟨?_, ?_⟩
  · rintro ⟨before, y, after, rfl, out⟩
    have inside : counted t.control (before ++ [y]) ≤ t.left.toNat := by
      rw [List.append_cons, counted_append] at within
      omega
    obtain ⟨rfl, some, down⟩ := (timesOut_within inside).mp out
    exact ⟨before, after, rfl, some, down⟩
  · rintro ⟨before, after, rfl, some, down⟩
    exact ⟨before, .pulse, after, rfl, (timesOut_within down.le).mpr ⟨rfl, some, down⟩⟩

end Tally

variable [DecidableEq ε] {event : Event → ε} {others : Responder ε σ} {Good : σ → Prop}

/-- Timer 2 was started on a chip in use, and since then not again. In the turn in which its count
first passes through zero the flag has risen, once, if cycles took it through, or if a pulse had
brought it to zero before. If a pulse takes it through a zero that it was loaded with or that cycles
have left, the flag has not risen. -/
theorem timer2_wraps_raised_iff [ToString ε] (inj : Injective event) (steady : others.Steady Good)
    (apart : Apart event others) {clock : Clock ε} {s : Among σ}
    (used : InUse event others Good (clock, s)) {register : UInt8}
    (starts : register &&& 0x0F = 0x9) (high : UInt8) :
    ∃ v clock', s.via.write event clock register high = .ok (v, clock') ∧
      ∀ (past : List (Turn ε σ)) (turn : Turn ε σ),
        (∀ turn' ∈ past ++ [turn], turn'.Fair event Good ∧ turn'.Leaves .timer2) →
        let loaded := (wordOf high s.via.latch2).toNat
        let count := counted (ε := ε) (σ := σ) s.via.control
        count past ≤ loaded → loaded < count (past ++ [turn]) →
        ∃ enough, ∀ budget, enough ≤ budget →
          (∃ now s', run event others budget (past ++ [turn]) (clock', { s with via := v }) =
            .ok (now, s')) ∧
          (rises event others .timer2 budget (past ++ [turn]) (clock', { s with via := v }) = 1 ↔
            turn ≠ .pulse ∨ ∃ before after, past = before ++ .pulse :: after ∧
              count before < loaded ∧ count (before ++ [.pulse]) = loaded) := by
  obtain ⟨clock', written, sits, shows'⟩ := used.start2 steady inj apart starts high
  refine ⟨_, clock', written, ?_⟩
  intro past turn allowed loaded count within through
  obtain ⟨enough, ⟨now, s'⟩, hrun⟩ := run_total steady sits fun turn mem => (allowed turn mem).1
  refine ⟨enough, fun budget more => ⟨⟨now, s', hrun budget more⟩, ?_⟩⟩
  have tallied := shows'.run inj apart steady allowed sits (hrun budget more)
  have risen := rises_add_armed steady allowed sits nofun
    (fun _ => anyBit_withBits_self s.via.flags false (by decide)) (hrun budget more)
  have fresh : (s.via.loaded2 high).armed .timer2 = true := rfl
  have spent : s'.via.armed .timer2 =
    ((past ++ [turn]).foldl Tally.turn (s.via.started2 high)).armed := tallied.armed
  rw [fresh, spent] at risen
  refine Iff.trans ?_ (Tally.armed_through (t := s.via.started2 high) rfl within through)
  cases still : ((past ++ [turn]).foldl Tally.turn (s.via.started2 high)).armed with
  | true =>
    rw [still, Bool.toNat_true] at risen
    exact iff_of_false (fun once => by omega) nofun
  | false =>
    rw [still, Bool.toNat_true, Bool.toNat_false] at risen
    exact iff_of_true risen rfl

/-- A count of two that cycles bring to zero, at the top of a clock. The pulse behind them takes it
to `$FFFF`, and the flag has not risen. -/
theorem timer2_wraps_raised_iff_switched :
    let clock : Clock (Option Event) := ⟨Cycle.clockMax, 0, 0, 0, []⟩
    let v : Via := { initial with latch2 := 2 }
    let past : List (Turn (Option Event) Nat) := [.advance 2, .write 0xB 0x20]
    Injective (some : Event → Option Event) ∧ beeper.Steady (fun _ => True) ∧
      Apart some beeper ∧ InUse some beeper (fun _ => True) (clock, ⟨v, [], 0⟩) ∧
      (∀ turn ∈ past ++ [.pulse], turn.Fair some (fun _ => True) ∧ turn.Leaves .timer2) ∧
      ∃ v' clock', v.write some clock 0x9 0 = .ok (v', clock') ∧ ∃ enough,
        ∀ budget, enough ≤ budget →
          rises some beeper .timer2 budget (past ++ [.pulse]) (clock', ⟨v', [], 0⟩) ≠ 1 := by
  intro clock v past
  have inj : Injective (some : Event → Option Event) := fun _ _ => Option.some.inj
  have fair : Turn.Fair some (fun _ => True) (.write 0x8 2 : Turn (Option Event) Nat) := trivial
  have made : act some beeper 0 (clock, ⟨initial, [], 0⟩) (.write 0x8 2) =
      .ok (clock, ⟨v, [], 0⟩) := rfl
  have used : InUse some beeper (fun _ => True) (clock, ⟨v, [], 0⟩) :=
    .turn (.new (.start (show start Cycle.clockMax = .ok clock from rfl)) (fun _ => rfl) trivial)
      fair made
  have allowed : ∀ turn ∈ past ++ [.pulse],
      turn.Fair some (fun _ => True) ∧ turn.Leaves .timer2 := by
    intro turn mem
    simp only [past, List.cons_append, List.nil_append, List.mem_cons, List.not_mem_nil,
      or_false] at mem
    obtain rfl | rfl | rfl := mem
    · exact ⟨show 2 ≤ Cycle.clockMax by decide, trivial⟩
    · exact ⟨trivial, by decide, nofun⟩
    · exact ⟨trivial, trivial⟩
  refine ⟨inj, beeper_steady, beeper_apart, used, allowed, ?_⟩
  obtain ⟨v', clock', written, ran⟩ := timer2_wraps_raised_iff inj beeper_steady beeper_apart used
    (by decide : (9 : UInt8) &&& 15 = 9) 0
  obtain ⟨enough, risen⟩ := ran past .pulse allowed (by decide) (by decide)
  refine ⟨v', clock', written, enough, fun budget more once => ?_⟩
  obtain pulse | ⟨before, after, cut, -⟩ := (risen budget more).2.mp once
  · exact pulse rfl
  · have counted : (.pulse : Turn (Option Event) Nat) ∈ past :=
      cut ▸ List.mem_append_right before (.head after)
    simp [past] at counted

/-- Timer 2 is loaded with zero while it counts pulses. The first pulse takes the counter from zero
to `$FFFF`, and the flag stays down. -/
theorem pulse_wraps_in_silence :
    let clock : Clock (Option Event) := ⟨0, 0, 0, 0, []⟩
    let turns : List (Turn (Option Event) Nat) :=
      [.write 0xB 0x20, .write 0x8 0, .write 0x9 0]
    ∃ zero full : Clock (Option Event) × Among Nat,
      run some beeper 0 turns (clock, ⟨initial, [], 0⟩) = .ok zero ∧
      zero.2.via.timer2 some zero.1 = 0 ∧
      run some beeper 0 (turns ++ [.pulse]) (clock, ⟨initial, [], 0⟩) = .ok full ∧
      full.2.via.timer2 some full.1 = 0xFFFF ∧
      rises some beeper .timer2 0 (turns ++ [.pulse]) (clock, ⟨initial, [], 0⟩) = 0 :=
  ⟨_, _, rfl, rfl, rfl, rfl, rfl⟩

end C64.Via
