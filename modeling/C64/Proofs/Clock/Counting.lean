import C64.Proofs.Clock.Pending

/-!
# What an advance counts

An advance hands out numbers to alarms that set themselves again, and may rebase the counter. Both
are bounded by the cycles that pass (`Counted`). For the numbers there is a potential, `worth`: an
alarm that fires gives up more of it than it takes when it is set again behind itself. As for the
counter, where no alarm is due a rebase takes it down to zero, and there is one only when the
counter has come near its top.
-/

namespace C64.Clock

variable {ε σ : Type} {c c' : Clock ε}

/-! ## Where no alarm is due -/

theorem Ahead.agenda (h : c.Ahead) : ∀ x ∈ c.agenda, c.elapsed < x.1 := by
  intro x hx
  obtain ⟨e, he, rfl⟩ := mem_agenda.mp hx
  exact Nat.add_lt_add_left (h e he) c.base

theorem Ahead.popDue (h : c.Ahead) : c.popDue = none :=
  popDue_eq_none fun x hx => h.agenda x (List.mem_of_mem_head? hx)

/-- A rebase takes the counter to zero. -/
theorem Ahead.rebase_eq (h : c.Ahead) (pos : 0 < c.now) :
    c.rebase.base = c.base + c.now ∧ c.rebase.rebases = c.rebases + 1 := by
  have whole : c.rebaseOffset = c.now := by
    unfold rebaseOffset nextDue?
    cases hq : c.queue with
    | nil => rfl
    | cons e rest => exact Nat.min_eq_right (Nat.le_of_lt (h e (hq ▸ .head rest)))
  unfold Clock.rebase
  simp only [whole, if_neg (Nat.pos_iff_ne_zero.mp pos), and_self]

/-! ## What the alarms are worth -/

/-- The next number, and for every alarm that is due the cycles up to now that it could still fire
in. -/
def worth (c : Clock ε) : Nat := c.nextOrder + c.agenda.slack c.elapsed

/-- Alarms have fired, at no cost of time and for no more than they were worth. -/
structure Settles (c c' : Clock ε) : Prop where
  now_eq : c'.now = c.now
  base_eq : c'.base = c.base
  rebases_eq : c'.rebases = c.rebases
  worth_le : c'.worth ≤ c.worth

theorem Settles.refl (c : Clock ε) : Settles c c := ⟨rfl, rfl, rfl, Nat.le_refl _⟩

theorem Settles.trans {c₁ c₂ c₃ : Clock ε} (h : Settles c₁ c₂) (h' : Settles c₂ c₃) :
    Settles c₁ c₃ :=
  ⟨h'.now_eq.trans h.now_eq, h'.base_eq.trans h.base_eq, h'.rebases_eq.trans h.rebases_eq,
    Nat.le_trans h'.worth_le h.worth_le⟩

/-- When the counter moves on, every alarm comes to be worth as many cycles at most. -/
theorem WellFormed.worth_pass (hc : c.WellFormed) (ahead : ∀ x ∈ c.agenda, c.elapsed < x.1)
    {events : List ε} (hall : ∀ e, e ∈ events) (n : Nat) :
    worth { c with now := c.now + n } ≤ c.nextOrder + events.length * n := by
  have each : Agenda.slack (c.elapsed + n) c.agenda ≤ c.agenda.length * n :=
    Agenda.slack_le fun x hx => by
      have := ahead x hx
      omega
  have few : c.agenda.length * n ≤ events.length * n :=
    Nat.mul_le_mul_right n (hc.length_agenda_le hall)
  have age : elapsed { c with now := c.now + n } = c.elapsed + n := (Nat.add_assoc ..).symm
  unfold worth
  rw [age]
  exact Nat.add_le_add_left (Nat.le_trans each few) c.nextOrder

variable [DecidableEq ε]

/-- The alarm that is set again is worth less than the one that fired. -/
theorem settles_again {c₁ c₂ : Clock ε} {alarm : Alarm ε} {delay? : Option Nat}
    (hpop : c.popDue = some (alarm, c₁)) (later : ∀ delay ∈ delay?, 1 ≤ delay)
    (hset : c₁.setAgain alarm.event alarm.due delay? = .ok c₂) : Settles c c₂ := by
  obtain ⟨e, rest, hq, hdue, rfl, rfl⟩ := popDue_eq_some hpop
  have fired : c.worth = c.nextOrder + ((c.elapsed + 1 - (c.base + e.due)) +
      Agenda.slack c.elapsed (Clock.agenda { c with queue := rest })) := by
    unfold worth Clock.agenda
    rw [hq]
    rfl
  rw [setAgain_ok hset]
  refine ⟨?_, ?_, ?_, ?_⟩
  case refine_4 =>
    rw [fired]
    cases delay? with
    | none =>
      show c.nextOrder + Agenda.slack c.elapsed (Clock.agenda { c with queue := rest }) ≤ _
      omega
    | some delay =>
      have behind := later delay rfl
      have cancelled :=
        Agenda.slack_cancel c.elapsed e.event (Clock.agenda { c with queue := rest })
      have age : c.elapsed = c.base + c.now := rfl
      rw [worth, agenda_setAlarm, Agenda.set, Agenda.slack_insert]
      show c.nextOrder + 1 + ((c.elapsed + 1 - (c.base + (e.due + delay))) +
        (Agenda.cancel (Clock.agenda { c with queue := rest }) e.event).slack c.elapsed) ≤ _
      omega
  all_goals cases delay? <;> rfl

/-! ## Handlers -/

/-- An alarm that fires does something of its own, and comes again later or not at all. -/
def Handler.Recurs (handle : Handler ε σ) (Good : σ → Prop) : Prop :=
  ∀ alarm c s c' s', Good s → handle alarm c s = .ok (c', s') → Good s' ∧
    ∃ delay? : Option Nat, (∀ delay ∈ delay?, 1 ≤ delay) ∧
      c.setAgain alarm.event alarm.due delay? = .ok c'

variable {handle : Handler ε σ} {Good : σ → Prop} {s s' : σ} {budget : Nat}

theorem Handler.Recurs.fireDue (recurs : handle.Recurs Good) (hs : Good s)
    (run : Clock.fireDue handle budget c s = .ok (c', s')) : Settles c c' := by
  induction budget generalizing c s with
  | zero =>
    unfold Clock.fireDue at run
    split at run
    · cases run; exact .refl _
    · exact absurd run (by simp)
  | succ budget ih =>
    unfold Clock.fireDue at run
    split at run
    · cases run; exact .refl _
    · next alarm c₁ hpop =>
      obtain ⟨⟨c₂, s₂⟩, hstep, hrest⟩ := bind_eq_ok.mp run
      obtain ⟨hs₂, delay?, later, hset⟩ := recurs alarm c₁ s c₂ s₂ hs hstep
      exact (settles_again hpop later hset).trans (ih hs₂ hrest)

/-- What an advance by `n` cycles does to the counts of a clock that has so many events. -/
structure Counted (events n : Nat) (c c' : Clock ε) : Prop where
  numbered : c'.nextOrder ≤ c.nextOrder + events * n
  /-- The counter was rebased once, near its top, or not at all. -/
  rebased : (c'.base = c.base ∧ c'.rebases = c.rebases) ∨
    (c'.base = c.base + c.now ∧ c'.rebases = c.rebases + 1 ∧ Cycle.clockMax < c.now + n)

theorem Handler.Recurs.advanceWithin (recurs : handle.Recurs Good) (hc : c.WellFormed)
    (ahead : c.Ahead) {events : List ε} (hall : ∀ e, e ∈ events) (hs : Good s) {n : Nat}
    (short : n ≤ Cycle.clockMax) (run : Clock.advanceWithin budget handle n c s = .ok (c', s')) :
    Counted events.length n c c' := by
  obtain ⟨⟨c₁, s₁⟩, hroom, hfire⟩ := bind_eq_ok.mp run
  -- What fires in the end is worth no more than the counter has moved.
  have settled : ∀ {c₁ : Clock ε} {s₁ : σ}, c₁.WellFormed → c₁.nextOrder = c.nextOrder →
      (∀ x ∈ c₁.agenda, c₁.elapsed < x.1) → Good s₁ →
      Clock.fireDue handle budget { c₁ with now := c₁.now + n } s₁ = .ok (c', s') →
      c'.nextOrder ≤ c.nextOrder + events.length * n ∧ c'.base = c₁.base ∧
        c'.rebases = c₁.rebases := by
    intro c₁ s₁ hc₁ order ahead hs₁ hfire
    have settles := recurs.fireDue hs₁ hfire
    have paid := Nat.le_trans settles.worth_le (hc₁.worth_pass ahead hall n)
    rw [order] at paid
    exact ⟨Nat.le_trans (Nat.le_add_right _ _) paid, settles.base_eq, settles.rebases_eq⟩
  unfold Clock.makeRoom at hroom
  split at hroom
  · cases hroom
    obtain ⟨numbered, base, rebases⟩ := settled hc rfl ahead.agenda hs hfire
    exact ⟨numbered, .inl ⟨base, rebases⟩⟩
  · next full =>
    -- Nothing is due yet, so the counter alone decides how far it is moved.
    have quiet : Clock.fireDue handle budget c s = .ok (c, s) := by
      cases budget <;> simp [Clock.fireDue, ahead.popDue]
    rw [quiet, ok_bind] at hroom
    simp only [] at hroom
    split at hroom
    · cases hroom
      have still : ∀ x ∈ c.rebase.agenda, c.rebase.elapsed < x.1 := by
        rw [hc.agenda_rebase, elapsed_rebase]
        exact ahead.agenda
      obtain ⟨numbered, base, rebases⟩ := settled hc.rebase (nextOrder_rebase c) still hs hfire
      obtain ⟨moved, once⟩ := ahead.rebase_eq (by omega : 0 < c.now)
      exact ⟨numbered, .inr ⟨base.trans moved, rebases.trans once, by omega⟩⟩
    · exact absurd hroom (by simp)

end C64.Clock
