import Mathlib.Logic.Function.Basic
import C64.Proofs.Clock.Serving
import C64.Proofs.Clock.Responding

/-!
# Which alarms wait

Every operation of the clock sets or clears single events of `Clock.isPending`, and leaves no alarm
in the past that was not there (`Clock.Ahead`). `Tends` collects what is said of a chip's
operation: it moves alarms of its own and no others. `Reachable.advanceWithin_keeps` carries a
relation between what waits and the state through an advance, at whose end nothing is due.
-/

namespace C64.Clock

open Function

variable {ε σ : Type}

/-- No alarm is due: each of them lies behind the counter. -/
def Ahead (c : Clock ε) : Prop := ∀ e ∈ c.queue, c.now < e.due

variable [DecidableEq ε]

theorem isPending_iff {c : Clock ε} {event : ε} :
    c.isPending event = true ↔ ∃ e ∈ c.queue, e.event = event := by
  simp [isPending, due?]

/-- What waits is settled by which events there are entries for. -/
theorem isPending_congr {c c' : Clock ε} {event : ε}
    (h : (∃ e ∈ c.queue, e.event = event) ↔ ∃ e ∈ c'.queue, e.event = event) :
    c.isPending event = c'.isPending event :=
  Bool.eq_iff_iff.mpr (isPending_iff.trans (h.trans isPending_iff.symm))

theorem isSome_agenda (c : Clock ε) (event : ε) :
    (c.agenda.due? event).isSome = c.isPending event := by
  rw [due?_agenda, Option.isSome_map]
  rfl

/-! ## One event at a time -/

theorem isPending_cancel (c : Clock ε) (event : ε) :
    (c.cancel event).isPending = update c.isPending event false := by
  funext x
  by_cases hx : event = x
  · subst hx
    simp [isPending]
  · rw [update_of_ne (Ne.symm hx), isPending, c.due?_cancel_ne hx, isPending]

theorem isPending_setAlarm (c : Clock ε) (due : Nat) (event : ε) :
    (c.setAlarm due event).isPending = update c.isPending event true := by
  funext x
  by_cases hx : event = x
  · subst hx
    simp [isPending]
  · rw [update_of_ne (Ne.symm hx), isPending, c.due?_setAlarm_ne due hx, isPending]

@[simp] theorem isPending_rebase (c : Clock ε) : c.rebase.isPending = c.isPending := by
  funext x
  have := congrArg Option.isSome (c.cyclesUntil?_rebase x)
  simpa [cyclesUntil?, isPending] using this

/-- The alarm that is handed out no longer waits. -/
theorem WellFormed.isPending_popDue {c c' : Clock ε} (hc : c.WellFormed) {alarm : Alarm ε}
    (h : c.popDue = some (alarm, c')) :
    c.isPending alarm.event = true ∧ c'.isPending = update c.isPending alarm.event false := by
  obtain ⟨e, rest, hq, -, rfl, -⟩ := popDue_eq_some h
  refine ⟨isPending_iff.mpr ⟨e, hq ▸ .head rest, rfl⟩, ?_⟩
  rw [← isPending_cancel]
  funext x
  refine isPending_congr (exists_congr fun y => and_congr_left fun _ => ?_)
  rw [hc.mem_queue_popDue h, mem_queue_cancel]

theorem setAlarmIn_ok [ToString ε] {c c' : Clock ε} {delay due : Nat} {event : ε}
    (h : c.setAlarmIn delay event = .ok (due, c')) : c' = c.setAlarm (c.now + delay) event := by
  unfold setAlarmIn at h
  simp only [] at h
  split at h
  · cases h; rfl
  · exact absurd h (by simp)

/-- An alarm that is set takes one number. -/
theorem setAlarmIn_nextOrder [ToString ε] {c c' : Clock ε} {delay due : Nat} {event : ε}
    (h : c.setAlarmIn delay event = .ok (due, c')) : c'.nextOrder = c.nextOrder + 1 := by
  rw [setAlarmIn_ok h]
  rfl

theorem setAgain_ok {c c' : Clock ε} {event : ε} {due : Nat} {delay? : Option Nat}
    (h : c.setAgain event due delay? = .ok c') :
    c' = match delay? with
      | none => c
      | some delay => c.setAlarm (due + delay) event := by
  cases delay? with
  | none => cases h; rfl
  | some delay =>
    unfold setAgain Cycle.add at h
    simp only [] at h
    split at h
    · cases h; rfl
    · exact absurd h (by simp [bind, Except.bind])

/-- An alarm that was handed out waits again if it was set again. -/
theorem WellFormed.isPending_setAgain {c c₁ c₂ : Clock ε} (hc : c.WellFormed) {alarm : Alarm ε}
    {delay? : Option Nat} (hpop : c.popDue = some (alarm, c₁))
    (hset : c₁.setAgain alarm.event alarm.due delay? = .ok c₂) :
    c₂.isPending = update c.isPending alarm.event delay?.isSome := by
  have popped := (hc.isPending_popDue hpop).2
  rw [setAgain_ok hset]
  cases delay? with
  | none => exact popped
  | some delay =>
    rw [isPending_setAlarm, popped, update_idem]
    rfl

/-! ## Alarms ahead of the counter -/

theorem Ahead.cancel {c : Clock ε} (h : c.Ahead) (event : ε) : (c.cancel event).Ahead :=
  fun e he => h e (mem_queue_cancel.mp he).1

theorem Ahead.setAlarm {c : Clock ε} (h : c.Ahead) {due : Nat} (hdue : c.now < due) (event : ε) :
    (c.setAlarm due event).Ahead := by
  intro e he
  rcases mem_queue_setAlarm.mp he with rfl | ⟨he, -⟩
  · exact hdue
  · exact h e he

theorem Ahead.lt_due {c : Clock ε} (h : c.Ahead) {event : ε} {due : Nat}
    (hdue : c.due? event = some due) : c.now < due := by
  obtain ⟨e, found, rfl⟩ := Option.map_eq_some_iff.mp hdue
  exact h e (List.mem_of_find?_eq_some found)

/-! ## Operations of a chip -/

/-- An operation takes no time, moves alarms of its own and no others, and none into the past. -/
structure Tends (own : ε → Prop) (c c' : Clock ε) : Prop where
  now_eq : c'.now = c.now
  base_eq : c'.base = c.base
  rebases_eq : c'.rebases = c.rebases
  dues : ∀ event, ¬own event → c'.due? event = c.due? event
  ahead : c.Ahead → c'.Ahead

namespace Tends

variable {own : ε → Prop} {c c₁ c₂ : Clock ε}

theorem others (h : Tends own c c₁) (event : ε) (he : ¬own event) :
    c₁.isPending event = c.isPending event :=
  congrArg Option.isSome (h.dues event he)

theorem refl (c : Clock ε) : Tends own c c := ⟨rfl, rfl, rfl, fun _ _ => rfl, id⟩

theorem trans (h₁ : Tends own c c₁) (h₂ : Tends own c₁ c₂) : Tends own c c₂ :=
  ⟨h₂.now_eq.trans h₁.now_eq, h₂.base_eq.trans h₁.base_eq, h₂.rebases_eq.trans h₁.rebases_eq,
    fun e he => (h₂.dues e he).trans (h₁.dues e he), fun h => h₂.ahead (h₁.ahead h)⟩

theorem cancel (c : Clock ε) {event : ε} (h : own event) : Tends own c (c.cancel event) where
  now_eq := rfl
  base_eq := rfl
  rebases_eq := rfl
  dues x hx := c.due?_cancel_ne (by rintro rfl; exact hx h)
  ahead hc := hc.cancel event

theorem setAlarmIn [ToString ε] {delay due : Nat} {event : ε} (h : own event) (pos : 0 < delay)
    (hset : c.setAlarmIn delay event = .ok (due, c₁)) : Tends own c c₁ := by
  rw [setAlarmIn_ok hset]
  exact ⟨rfl, rfl, rfl, fun x hx => c.due?_setAlarm_ne _ (by rintro rfl; exact hx h),
    fun hc => hc.setAlarm (by omega) event⟩

end Tends

/-! ## Advances -/

section Advances

/-- A handler keeps a relation between what waits and its state. -/
def Handler.Keeps (handle : Handler ε σ) (P : (ε → Bool) → σ → Prop) : Prop :=
  ∀ (alarm : Alarm ε) (c c₁ c₂ : Clock ε) (s s₂ : σ), c.Reachable → P c.isPending s →
    c.popDue = some (alarm, c₁) → handle alarm c₁ s = .ok (c₂, s₂) → P c₂.isPending s₂

variable {handle : Handler ε σ} {P : (ε → Bool) → σ → Prop}

/-- What firing one alarm keeps, firing all that are due keeps, and then none is due. -/
theorem Reachable.fireDue_keeps (lawful : handle.Lawful fun _ => True) (keeps : handle.Keeps P)
    {budget : Nat} {c c' : Clock ε} {s s' : σ} (hc : c.Reachable) (h : P c.isPending s)
    (run : Clock.fireDue handle budget c s = .ok (c', s')) :
    P c'.isPending s' ∧ c'.popDue = none := by
  induction budget generalizing c s with
  | zero =>
    unfold Clock.fireDue at run
    split at run
    · next hnone => cases run; exact ⟨h, Option.isNone_iff_eq_none.mp hnone⟩
    · exact absurd run (by simp)
  | succ budget ih =>
    unfold Clock.fireDue at run
    split at run
    · next hnone => cases run; exact ⟨h, hnone⟩
    · next alarm c₁ hpop =>
      obtain ⟨⟨c₂, s₂⟩, hstep, hrest⟩ := bind_eq_ok.mp run
      have reached := (lawful alarm c₁ s c₂ s₂ (hc.popDue hpop) trivial hstep).1
      exact ih reached (keeps _ _ _ _ _ _ hc h hpop hstep) hrest

/-- Behind an advance what waits still fits the state, and nothing is due. -/
theorem Reachable.advanceWithin_keeps (lawful : handle.Lawful fun _ => True)
    (keeps : handle.Keeps P) {budget cycles : Nat} {c c' : Clock ε} {s s' : σ}
    (hc : c.Reachable) (h : P c.isPending s)
    (run : Clock.advanceWithin budget handle cycles c s = .ok (c', s')) :
    c'.Reachable ∧ P c'.isPending s' ∧ c'.Ahead := by
  have reached := (hc.advanceWithin lawful trivial run).1
  obtain ⟨⟨c₁, s₁⟩, hroom, hfire⟩ := bind_eq_ok.mp run
  have ready : P c₁.isPending s₁ := by
    unfold Clock.makeRoom at hroom
    split at hroom
    · cases hroom; exact h
    · obtain ⟨⟨c₂, s₂⟩, hdue, hrest⟩ := bind_eq_ok.mp hroom
      have fired := (hc.fireDue_keeps lawful keeps h hdue).1
      simp only [] at hrest
      split at hrest
      · cases hrest; rwa [isPending_rebase]
      · exact absurd hrest (by simp)
  have room := hc.makeRoom lawful trivial hroom
  obtain ⟨kept, hnone⟩ := (room.1.pass room.2.2).fireDue_keeps lawful keeps ready hfire
  exact ⟨reached, kept, reached.wellFormed.none_due hnone⟩

end Advances

end C64.Clock
