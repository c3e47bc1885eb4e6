import C64.Proofs.Clock.Firing

/-!
# An advance in parts

A clock may be advanced in one go or in parts, with rebases between them, and a handler that
answers relative to its alarms cannot tell (`advance_splits`). The argument runs in absolute
time: the parts of a plan fire up to their ends one after another, which is firing up to the last
of them (`Fires.trans`), and what that leads to is settled by the agenda at the start
(`Fires.unique`). Alarms that are overdue at the start fire in the first advance, whichever part
that is; the rebases before it pass them on (`Responder.Carries`).
-/

namespace C64.Clock

variable {ε σ : Type}

/-! ## Plans -/

/-- A part of a plan. -/
inductive Stage where
  | advance (cycles : Nat)
  | rebase

/-- The cycles a plan takes. -/
def planCycles : List Stage → Nat
  | [] => 0
  | .advance cycles :: rest => cycles + planCycles rest
  | .rebase :: rest => planCycles rest

/-- Runs the parts of a plan one after another. -/
def runPlan (budget : Nat) (handle : Handler ε σ) :
    List Stage → Clock ε → σ → Except Fault (Clock ε × σ)
  | [], c, s => .ok (c, s)
  | .advance cycles :: rest, c, s => do
    let (c, s) ← advanceWithin budget handle cycles c s
    runPlan budget handle rest c s
  | .rebase :: rest, c, s => runPlan budget handle rest c.rebase s

/-- No alarm is due. -/
def Settled (c : Clock ε) : Prop := ∀ x ∈ c.agenda.head?, c.elapsed < x.1

theorem Settled.rebase {c : Clock ε} (hc : c.WellFormed) (h : c.Settled) : c.rebase.Settled := by
  unfold Settled
  rw [hc.agenda_rebase, elapsed_rebase]
  exact h

/-! ## Handlers that never look at the time -/

/-- A handler that knows event and state only, with a log of what fired and when. -/
def logged (respond : ε → σ → List (Request ε) × σ) : Responder ε (σ × List (ε × Nat)) :=
  fun due event s => ((respond event s.1).1, (respond event s.1).2, s.2 ++ [(event, due)])

theorem logged_steady {respond : ε → σ → List (Request ε) × σ}
    (h : ∀ event s, ∀ x ∈ (respond event s).1, x.Ahead) : (logged respond).Steady fun _ => True :=
  ⟨fun _ event s _ => h event s.1, fun _ _ _ _ => trivial⟩

/-! ## Running a plan -/

variable [DecidableEq ε]

/-- What fires later from `c'` and `s'` fires from `c` and `s` behind `n` other alarms. -/
structure Responder.Carries (r : Responder ε σ) (Good : σ → Prop) (n : Nat) (c : Clock ε) (s : σ)
    (c' : Clock ε) (s' : σ) : Prop where
  later {limit m : Nat} {q : Agenda ε} {t : σ} : c'.elapsed ≤ limit →
    Fires r limit m c'.agenda s' q t → Fires r limit (n + m) c.agenda s q t
  wellFormed : c'.WellFormed
  good : Good s'
  numbered : n + c'.queue.length + c.nextOrder ≤ c.queue.length + c'.nextOrder

section Carries

variable {r : Responder ε σ} {Good : σ → Prop}

theorem Responder.Leads.carries {n : Nat} {c c' : Clock ε} {s s' : σ}
    (h : r.Leads Good n c s c' s') : r.Carries Good n c s c' s' :=
  ⟨fun hle hf => h.fires.trans hle hf, h.wellFormed, h.good, h.numbered⟩

theorem Responder.Carries.leads {n : Nat} {c c' : Clock ε} {s s' : σ}
    (h : r.Carries Good n c s c' s') (hs : c'.Settled) : r.Leads Good n c s c' s' :=
  ⟨h.later (Nat.le_refl _) (.done hs), h.wellFormed, h.good, h.numbered⟩

theorem Responder.Carries.refl {c : Clock ε} (hc : c.WellFormed) {s : σ} (hs : Good s) :
    r.Carries Good 0 c s c s :=
  ⟨fun _ hf => (Nat.zero_add _).symm ▸ hf, hc, hs, by omega⟩

theorem Responder.Carries.trans {m n : Nat} {c₁ c₂ c₃ : Clock ε} {s₁ s₂ s₃ : σ}
    (h₂ : r.Carries Good m c₁ s₁ c₂ s₂) (h₃ : r.Carries Good n c₂ s₂ c₃ s₃)
    (hle : c₂.elapsed ≤ c₃.elapsed) : r.Carries Good (m + n) c₁ s₁ c₃ s₃ where
  later {limit k q t} hlim hf := by
    rw [Nat.add_assoc]
    exact h₂.later (Nat.le_trans hle hlim) (h₃.later hlim hf)
  wellFormed := h₃.wellFormed
  good := h₃.good
  numbered := by
    have := h₂.numbered
    have := h₃.numbered
    omega

theorem Responder.Carries.rebase {c : Clock ε} (hc : c.WellFormed) {s : σ} (hs : Good s) :
    r.Carries Good 0 c s c.rebase s where
  later {limit m q t} _ hf := by
    rw [hc.agenda_rebase] at hf
    rw [Nat.zero_add]
    exact hf
  wellFormed := hc.rebase
  good := hs
  numbered := by
    rw [length_rebase, nextOrder_rebase]
    omega

/-- A plan runs to its end, and once it has advanced the clock nothing is overdue. -/
theorem Responder.runPlan (hr : r.Steady Good) (plan : List Stage) {c : Clock ε}
    (hc : c.WellFormed) {s : σ} (hs : Good s) (hplan : planCycles plan ≤ Cycle.clockMax) :
    ∃ n c' s', c'.elapsed = c.elapsed + planCycles plan ∧ r.Carries Good n c s c' s' ∧
      (c.Settled ∨ (∃ cycles, .advance cycles ∈ plan) → c'.Settled) ∧
      ∀ budget, n ≤ budget → runPlan budget r.handler plan c s = .ok (c', s') := by
  induction plan generalizing c s with
  | nil =>
    refine ⟨0, c, s, rfl, .refl hc hs, fun h => ?_, fun budget _ => rfl⟩
    rcases h with h | ⟨cycles, h⟩
    · exact h
    · exact absurd h (by simp)
  | cons stage rest ih =>
    cases stage with
    | advance cycles =>
      unfold planCycles at hplan
      obtain ⟨m, c₁, s₁, he₁, hl₁, hrun₁⟩ :=
        Responder.advanceWithin hr hc hs (show cycles ≤ Cycle.clockMax by omega)
      obtain ⟨n, c₂, s₂, he₂, hl₂, hset₂, hrun₂⟩ := ih hl₁.wellFormed hl₁.good (by omega)
      refine ⟨m + n, c₂, s₂, ?_, hl₁.carries.trans hl₂ (by omega),
        fun _ => hset₂ (.inl hl₁.fires.none_due), fun budget hb => ?_⟩
      · unfold planCycles
        omega
      · unfold Clock.runPlan
        rw [hrun₁ budget (by omega)]
        exact hrun₂ budget (by omega)
    | rebase =>
      unfold planCycles at hplan
      obtain ⟨n, c₂, s₂, he₂, hl₂, hset₂, hrun₂⟩ := ih hc.rebase hs hplan
      rw [elapsed_rebase] at he₂
      -- A rebase fires nothing and moves nothing in absolute time.
      have hcar := (Responder.Carries.rebase hc hs).trans hl₂
        (by rw [elapsed_rebase]; omega)
      rw [Nat.zero_add] at hcar
      refine ⟨n, c₂, s₂, he₂, hcar, fun h => hset₂ ?_, hrun₂⟩
      rcases h with h | ⟨cycles, h⟩
      · exact .inl (h.rebase hc)
      · exact .inr ⟨cycles, by simpa using h⟩

end Carries

/-! ## One advance and its parts -/

/-- However an advance is split, and wherever the clock is rebased in between: the same alarms
fire at the same absolute cycles, the handler ends in the same state, and the alarms that wait
stand in the same order and at the same distances. The budgets have to allow for no more alarms
than numbers were handed out. -/
theorem advance_splits {respond : ε → σ → List (Request ε) × σ}
    (hr : ∀ event s, ∀ x ∈ (respond event s).1, x.Ahead) {c : Clock ε} (hc : c.Reachable)
    (s : σ) (plan : List Stage) (hadvance : ∃ cycles, .advance cycles ∈ plan)
    (hplan : planCycles plan ≤ Cycle.clockMax) :
    ∃ fine coarse out,
      (∀ budget, fine.nextOrder ≤ budget →
        runPlan budget (logged respond).handler plan c (s, []) = .ok (fine, out)) ∧
      (∀ budget, coarse.nextOrder ≤ budget →
        advanceWithin budget (logged respond).handler (planCycles plan) c (s, []) =
          .ok (coarse, out)) ∧
      fine.elapsed = coarse.elapsed ∧ fine.distances = coarse.distances := by
  have hw := hc.wellFormed
  have hst := logged_steady hr
  obtain ⟨m, fine, out, hef, hcar, hset, hrunf⟩ :=
    Responder.runPlan hst plan hw (s := (s, [])) trivial hplan
  have hlf := hcar.leads (hset (.inr hadvance))
  obtain ⟨n, coarse, out', hec, hlc, hrunc⟩ :=
    Responder.advanceWithin hst hw (s := (s, [])) trivial hplan
  have hage : fine.elapsed = coarse.elapsed := by rw [hef, hec]
  obtain ⟨-, hagenda, rfl⟩ := hlf.fires.unique (hage ▸ hlc.fires)
  refine ⟨fine, coarse, out, fun budget hb => hrunf budget ?_, fun budget hb => hrunc budget ?_,
    hage, distances_eq_of_agenda hage hagenda⟩
  · exact Nat.le_trans (hlf.le_nextOrder hw).1 hb
  · exact Nat.le_trans (hlc.le_nextOrder hw).1 hb

/-- A clock at the highest counter, with an alarm overdue and one in the headroom. -/
def brimClock : Clock Bool :=
  ((⟨Cycle.clockMax, 0, 0, 0, []⟩ : Clock Bool).setAlarm (Cycle.clockMax - 5) true).setAlarm
    (Cycle.clockMax + 4) false

theorem brimClock_reachable : brimClock.Reachable :=
  .setAlarm false (.setAlarm true (.start (show start Cycle.clockMax = .ok _ from rfl))
    (by decide)) (by decide)

/-- Counts its alarms. One of them comes back every three cycles, the other stops it. -/
def pulse : Bool → Nat → List (Request Bool) × Nat
  | true, n => ([.set 3 true], n + 1)
  | false, n => ([.cancel true], n + 1)

theorem pulse_ahead : ∀ event n, ∀ x ∈ (pulse event n).1, x.Ahead := by
  intro event n x hx
  cases event <;> simp only [pulse, List.mem_singleton] at hx <;> subst hx
  · trivial
  · exact ⟨by decide, by decide⟩

theorem advance_splits_brim :
    ∃ fine coarse out,
      (∀ budget, fine.nextOrder ≤ budget →
        runPlan budget (logged pulse).handler [.rebase, .advance 2, .rebase, .advance 7]
          brimClock (0, []) = .ok (fine, out)) ∧
      (∀ budget, coarse.nextOrder ≤ budget →
        advanceWithin budget (logged pulse).handler 9 brimClock (0, []) = .ok (coarse, out)) ∧
      fine.elapsed = coarse.elapsed ∧ fine.distances = coarse.distances :=
  advance_splits pulse_ahead brimClock_reachable 0 [.rebase, .advance 2, .rebase, .advance 7]
    ⟨2, by simp⟩ (by decide)

end C64.Clock
