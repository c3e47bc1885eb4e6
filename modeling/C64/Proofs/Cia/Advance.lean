import C64.Proofs.Cia.Cycles

/-!
# Alarms that fire in an advance

An advance of the clock fires the alarms of the chip cycle by cycle. What one alarm does to the
chip, it does to the chip that counts (`Tracks.steppedAt_expire`), and the chip keeps track of its
alarms (`Tracks.expire`). All alarms for one cycle make a `Stepped.cycle` (`Tracks.fires`), and
from there on it is an induction on the cycles (`Tracks.advance`).
-/

namespace C64.Cia

open Clock

variable {q : Agenda Event} {t : Nat} {c : Cia}

/-! ## One alarm -/

/-- The agenda behind an alarm for cycle `t`. -/
def agendaAgain (q : Agenda Event) (t : Nat) (e : Event) : Option Nat → Agenda Event
  | none => q
  | some delay => q.set (t + delay) e

theorem foldl_responder (q : Agenda Event) (t : Nat) (e : Event) (c : Cia) :
    (responder t e c).1.foldl (Request.apply t) q = agendaAgain q t e (c.again? e) := by
  unfold responder recurring
  cases c.again? e <;> rfl

/-- What is known of the agenda behind an alarm. -/
structure Rearmed (q : Agenda Event) (t : Nat) (e : Event) (again : Option Nat)
    (q' : Agenda Event) : Prop where
  sorted : q'.Sorted
  distinct : q'.Distinct
  self : q'.due? e = again.map (t + ·)
  others : ∀ e', e' ≠ e → q'.due? e' = q.due? e'

theorem rearmed {rest : Agenda Event} {e : Event} (hs : Agenda.Sorted ((t, e) :: rest))
    (hd : Agenda.Distinct ((t, e) :: rest)) (again : Option Nat) :
    Rearmed ((t, e) :: rest) t e again (agendaAgain rest t e again) := by
  have hs' : rest.Sorted := (List.pairwise_cons.mp hs).2
  obtain ⟨he, hd'⟩ : e ∉ rest.map (·.2) ∧ rest.Distinct := List.nodup_cons.mp hd
  have gone : rest.due? e = none :=
    Agenda.due?_eq_none fun due h => he (List.mem_map.mpr ⟨_, h, rfl⟩)
  have old : ∀ e', e' ≠ e → rest.due? e' = Agenda.due? ((t, e) :: rest) e' :=
    fun e' h => (Agenda.due?_cons_ne (Ne.symm h) rest).symm
  cases again with
  | none => exact ⟨hs', hd', gone, old⟩
  | some delay =>
    exact ⟨hs'.set _ _, hd'.set _ _, Agenda.due?_set_self ..,
      fun e' h => (Agenda.due?_set_ne rest _ (Ne.symm h)).trans (old e' h)⟩

theorem timerAt_congr {q' : Agenda Event} {c' : Cia} {which : TimerId}
    (hq : q'.due? (.timer which) = q.due? (.timer which)) (hc : c'.timer which = c.timer which) :
    timerAt q' t c' which = timerAt q t c which := by
  unfold timerAt
  rw [hq, hc]

/-- A timer behind its underflow: either it counts from its latch again, or it stands there. -/
theorem timerAt_underflow {q' : Agenda Event} {c' : Cia} {which : TimerId}
    (hq : q'.due? (.timer which) = (c.again? (.timer which)).map (t + ·))
    (hc : c'.timer which = (c.timer which).underflow) :
    timerAt q' t c' which = (timerAt q t c which).underflow := by
  have same : (timerAt q t c which).underflow = (c.timer which).underflow := by
    unfold timerAt
    split <;> rfl
  rw [same]
  unfold timerAt
  rw [hq, hc]
  cases hs : (c.timer which).oneShot with
  | true => rw [again?_of_oneShot hs]; rfl
  | false =>
    have hlt := (c.timer which).latch.toNat_lt
    have full : Timer.counterBefore (t + ((c.timer which).latch.toNat + 1) - t) =
        (c.timer which).latch := by
      rw [← UInt16.toNat_inj, counterBefore_toNat (by omega)]
      omega
    rw [again?_of_continuous hs]
    simp only [Option.map_some, full]
    rfl

theorem expire_timer_self (which : TimerId) (c : Cia) :
    (c.expire (.timer which)).timer which = (c.timer which).underflow := by
  cases which with
  | a =>
    simp only [expire]
    split
    · unfold countUnderflow
      split <;> rfl
    · rfl
  | b => rfl

/-- An alarm of one part leaves a timer counting that is another part, and standing if it
stands. -/
theorem countsCycles_expire_ne {e : Event} {which : TimerId} (h : e ≠ .timer which) (c : Cia) :
    Control.countsCycles which ((c.expire e).timer which).control =
      Control.countsCycles which (c.timer which).control := by
  cases e with
  | tod =>
    obtain ⟨tod, raised, hx⟩ := expire_tod c
    rw [show c.expire .tod = _ from hx c.timerA c.timerB c.sources]
    cases which <;> rfl
  | timer other =>
    cases other with
    | b =>
      cases which with
      | a => rfl
      | b => exact absurd rfl h
    | a =>
      cases which with
      | a => exact absurd rfl h
      | b =>
        cases hch : c.chained with
        | false => rw [expire_a_free hch]; rfl
        | true =>
          -- What counts underflows did not count cycles before, nor does it once it stops.
          have idle : Control.countsCycles .b c.timerB.control = false := by
            cases hc : Control.countsCycles .b c.timerB.control with
            | false => rfl
            | true => rw [chained_eq_false hc] at hch; exact absurd hch (by simp)
          have stays : Control.countsCycles .b (Stepped.count c.timerB).2.control = false := by
            unfold Stepped.count
            split
            · exact (countsCycles_underflow .b c.timerB).trans (by rw [idle, Bool.false_and])
            · exact idle
          rw [expire_a_chained hch]
          exact stays.trans idle.symm

theorem tenth_steppedAt (q : Agenda Event) (t : Nat) (c : Cia) :
    (steppedAt q t c).chip.tenth = c.tenth := by
  unfold tenth
  simp only [steppedAt, timerAt_control]
  rfl

/-- What the alarm does to the chip it does to the chip that counts. -/
theorem Tracks.steppedAt_expire (h : Tracks q t c) {e : Event} (hdue : q.due? e = some t)
    {q' : Agenda Event} (hq : Rearmed q t e (c.again? e) q') :
    steppedAt q' t (c.expire e) = (steppedAt q t c).expire e := by
  cases e with
  | tod =>
    obtain ⟨tod, raised, hx⟩ := expire_tod c
    have hc : c.expire .tod = _ := hx c.timerA c.timerB c.sources
    have ht : ∀ which, timerAt q' t (c.expire .tod) which = timerAt q t c which := by
      intro which
      refine timerAt_congr (hq.others _ (by simp)) ?_
      rw [hc]
      cases which <;> rfl
    have hself := hq.self
    unfold Stepped.expire
    rw [tenth_expire, tenth_steppedAt]
    unfold steppedAt
    rw [ht, ht, hself]
    simp only [again?, tenth_expire, Option.map_some, Option.getD_some, if_true,
      Stepped.mk.injEq]
    refine ⟨?_, by omega⟩
    rw [hc]
    exact (hx ..).symm
  | timer which =>
    have hself : timerAt q' t (c.expire (.timer which)) which = (timerAt q t c which).underflow :=
      timerAt_underflow hq.self (expire_timer_self which c)
    have htod : q'.due? .tod = q.due? .tod := hq.others _ (by simp)
    unfold Stepped.expire
    cases which with
    | b =>
      have hA : timerAt q' t (c.expire (.timer .b)) .a = timerAt q t c .a :=
        timerAt_congr (hq.others _ (by simp)) rfl
      simp only [steppedAt, hA, hself, htod, reduceCtorEq, if_false]
      rfl
    | a =>
      have hB : q'.due? (.timer .b) = q.due? (.timer .b) := hq.others _ (by simp)
      have hview : (steppedAt q t c).chip.chained = c.chained := chained_congr (timerAt_control ..)
      cases hch : c.chained with
      | false =>
        have hfree := expire_a_free hch
        have hB' : timerAt q' t (c.expire (.timer .a)) .b = timerAt q t c .b :=
          timerAt_congr hB (by rw [hfree]; rfl)
        rw [expire_a_free (hview.trans hch)]
        simp only [steppedAt, hself, hB', htod, reduceCtorEq, if_false]
        rw [hfree]
      | true =>
        -- A timer that counts underflows counts no cycles, so it waits for no alarm.
        have none : q.due? (.timer .b) = none := by
          refine h.idle .b ?_
          cases hc : Control.countsCycles .b (c.timer .b).control with
          | false => rfl
          | true => rw [chained_eq_false hc] at hch; exact absurd hch (by simp)
        have raw : timerAt q t c .b = c.timerB := by simp only [timerAt, none]; rfl
        have raw' : timerAt q' t (c.expire (.timer .a)) .b = (c.expire (.timer .a)).timerB := by
          simp only [timerAt, hB, none]; rfl
        rw [expire_a_chained (hview.trans hch)]
        simp only [steppedAt, hself, raw, raw', htod, reduceCtorEq, if_false]
        rw [expire_a_chained hch]

theorem Tracks.expire (h : Tracks q t c) {e : Event} (hdue : q.due? e = some t)
    {q' : Agenda Event} (hq : Rearmed q t e (c.again? e) q') : Tracks q' t (c.expire e) where
  sorted := hq.sorted
  distinct := hq.distinct
  ahead e' due hd := by
    by_cases he : e' = e
    · subst he
      rw [hq.self, Option.map_eq_some_iff] at hd
      obtain ⟨delay, _, rfl⟩ := hd
      exact Nat.le_add_right t delay
    · exact h.ahead e' due (hq.others e' he ▸ hd)
  counting which hc := by
    by_cases he : e = .timer which
    · subst he
      rw [expire_timer_self, countsCycles_underflow] at hc
      have hs : (c.timer which).oneShot = false := by
        simpa using (Bool.and_eq_true_iff.mp hc).2
      have hlt := (c.timer which).latch.toNat_lt
      refine ⟨t + ((c.timer which).latch.toNat + 1), ?_, by omega⟩
      rw [hq.self, again?_of_continuous hs]
      rfl
    · rw [hq.others _ (Ne.symm he)]
      exact h.counting which (countsCycles_expire_ne he c ▸ hc)
  idle which hc := by
    by_cases he : e = .timer which
    · subst he
      rw [expire_timer_self, countsCycles_underflow, h.countsCycles hdue, Bool.true_and] at hc
      rw [hq.self, again?_of_oneShot (by simpa using hc)]
      rfl
    · rw [hq.others _ (Ne.symm he)]
      exact h.idle which (countsCycles_expire_ne he c ▸ hc)
  tod := by
    by_cases he : e = .tod
    · subst he
      exact ⟨_, hq.self⟩
    · rw [hq.others _ (Ne.symm he)]
      exact h.tod

/-! ## All alarms of a cycle, and all cycles of an advance -/

/-- The earliest alarm speaks for all of them. -/
theorem Tracks.quiet_of_head (h : Tracks q t c) (hnone : ∀ x ∈ q.head?, t < x.1) : Quiet q t := by
  intro e due hd
  have hm := (Agenda.due?_eq_some_iff h.distinct).mp hd
  cases q with
  | nil => exact absurd hm (by simp)
  | cons x rest =>
    have hx := hnone x rfl
    rcases List.mem_cons.mp hm with rfl | hm
    · exact hx
    · exact Nat.lt_of_lt_of_le hx ((List.pairwise_cons.mp h.sorted).1 _ hm)

/-- Firing what is due at time `t`. -/
theorem Tracks.fires (h : Tracks q t c) {n : Nat} {q' : Agenda Event} {c' : Cia}
    (hf : Fires responder t n q c q' c') :
    Tracks q' t c' ∧ Quiet q' t ∧
      steppedAt q' t c' = (steppedAt q t c).expireAll fun e => q.due? e = some t := by
  -- Induction on the alarms that fire; each is taken off the set of those due in this cycle, and the
  -- order they fire in does not matter to `expireAll`.
  induction hf with
  | @done q c hnone =>
    have quiet := h.quiet_of_head hnone
    have none : ∀ e, ¬ q.due? e = some t := fun e he => Nat.lt_irrefl t (quiet e t he)
    refine ⟨h, quiet, ?_⟩
    simp [Stepped.expireAll, none]
  | @fire due n e rest q' c c' hle hrest ih =>
    have hdue : Agenda.due? ((due, e) :: rest) e = some due := Agenda.due?_cons_self ..
    obtain rfl : due = t := Nat.le_antisymm hle (h.ahead e due hdue)
    rw [foldl_responder] at ih
    have hq := rearmed h.sorted h.distinct (c.again? e)
    obtain ⟨htracks, hquiet, hview⟩ := ih (h.expire hdue hq)
    refine ⟨htracks, hquiet, ?_⟩
    rw [hview]
    show (steppedAt _ due (c.expire e)).expireAll _ = _
    rw [h.steppedAt_expire hdue hq]
    -- Timer B may be due beside timer A, and then counts cycles, so the underflow does not reach it.
    have counts : Agenda.due? ((due, e) :: rest) (.timer .b) = some due →
        Control.countsCycles .b (steppedAt ((due, e) :: rest) due c).chip.timerB.control = true :=
      fun hb => by
        show Control.countsCycles .b (timerAt _ due c .b).control = true
        rw [timerAt_control]
        exact h.countsCycles hb
    rw [← Stepped.expireAll_expire (fun hb => counts (of_decide_eq_true hb))
      (decide_eq_true hdue)]
    congr 1
    funext e'
    by_cases he : e' = e
    · subst he
      have : (c.again? e').map (due + ·) ≠ some due := by
        intro hd
        obtain ⟨delay, hd, hsum⟩ := Option.map_eq_some_iff.mp hd
        have := again?_pos hd
        omega
      simp [hq.self, this]
    · simp [hq.others e' he, he]

theorem Tracks.advance (h : Tracks q t c) (hq : Quiet q t) (hp : c.config.Paced) (k : Nat) :
    ∃ n q' c', Fires responder (t + k) n q c q' c' ∧ Tracks q' (t + k) c' ∧ Quiet q' (t + k) ∧
      steppedAt q' (t + k) c' = (steppedAt q t c).cycles k := by
  -- Cycle by cycle: what fires in the first is fired, and the rest of the time starts from there.
  induction k generalizing q t c with
  | zero =>
    refine ⟨0, q, c, .done fun x hx => ?_, h, hq, rfl⟩
    have hx := List.mem_of_mem_head? hx
    exact hq x.2 x.1 ((Agenda.due?_eq_some_iff h.distinct).mpr hx)
  | succ k ih =>
    obtain ⟨m, q₁, c₁, hf₁⟩ := Responder.exists_fires responder_steady (t + 1) h.sorted hp
    obtain ⟨h₁, hq₁, hview⟩ := (h.pass hq).fires hf₁
    have hp₁ : c₁.config.Paced := hf₁.good responder_steady hp
    obtain ⟨n, q', c', hf', h', hq', hview'⟩ := ih h₁ hq₁ hp₁
    rw [Nat.add_right_comm] at hf' h' hq' hview'
    refine ⟨m + n, q', c', hf₁.trans (by omega) hf', h', hq', ?_⟩
    refine hview'.trans ?_
    rw [hview, ← h.cycle hq]
    rfl

end C64.Cia
