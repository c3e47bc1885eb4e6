import C64.Proofs.Clock.Order

/-!
# Waiting alarms in absolute time

A rebase moves the counter and every alarm, and nobody is to notice. What nobody notices is what
can be said in absolute time: `Clock.agenda` lists the waiting alarms in firing order, each with
its cycle counted from the making of the clock. A rebase leaves the agenda as it is
(`agenda_rebase`), and each operation of the queue is one on the agenda.

A `Responder` is a handler that works in absolute time: what it does follows from the event, the
absolute cycle of its alarm and its own state, and it sets alarms only so many cycles after the
one it handles. `Fires` says, without clock or budget, what such a handler makes of an agenda up
to some cycle. `Responder.fireDue` is the bridge from the clock to it.
-/

namespace C64.Clock

variable {ε σ : Type}

/-- Waiting alarms in firing order, each with its cycle in absolute time. -/
abbrev Agenda (ε : Type) := List (Nat × ε)

/-- The waiting alarms of a clock in absolute time. -/
def agenda (c : Clock ε) : Agenda ε := c.queue.map fun e => (c.base + e.due, e.event)

/-- How far each waiting alarm lies ahead of the counter, in firing order. -/
def distances (c : Clock ε) : List (ε × Int) :=
  c.queue.map fun e => (e.event, (e.due : Int) - c.now)

/-- Two clocks of the same age agree on what is to come if their agendas agree. -/
theorem distances_eq_of_agenda {c c' : Clock ε} (ht : c.elapsed = c'.elapsed)
    (hq : c.agenda = c'.agenda) : c.distances = c'.distances := by
  have key : ∀ d : Clock ε, d.distances =
      d.agenda.map fun x => (x.2, (x.1 : Int) - d.elapsed) := by
    intro d
    simp only [distances, agenda, elapsed, List.map_map]
    refine List.map_congr_left fun e _ => ?_
    simp only [Function.comp_apply, Prod.mk.injEq, true_and]
    omega
  rw [key, key, ht, hq]

theorem mem_agenda {c : Clock ε} {x : Nat × ε} :
    x ∈ c.agenda ↔ ∃ e ∈ c.queue, (c.base + e.due, e.event) = x := by
  simp [agenda]

/-! ## Operations of the agenda -/

namespace Agenda

/-- Puts an alarm behind all that fire no later than it. -/
def insert (x : Nat × ε) : Agenda ε → Agenda ε
  | [] => [x]
  | y :: rest => if y.1 ≤ x.1 then y :: insert x rest else x :: y :: rest

theorem mem_insert {x y : Nat × ε} {q : Agenda ε} : y ∈ insert x q ↔ y = x ∨ y ∈ q := by
  induction q with
  | nil => simp [insert]
  | cons z rest ih =>
    simp only [insert]
    split <;> simp [ih, or_left_comm]

/-- The alarms come in the order of their cycles. -/
def Sorted (q : Agenda ε) : Prop := q.Pairwise (·.1 ≤ ·.1)

theorem Sorted.insert {q : Agenda ε} (hq : q.Sorted) (x : Nat × ε) : (insert x q).Sorted := by
  induction q with
  | nil => simp [Agenda.insert, Sorted]
  | cons y rest ih =>
    obtain ⟨hy, hrest⟩ := List.pairwise_cons.mp hq
    simp only [Agenda.insert]
    split
    · next hle =>
      refine List.pairwise_cons.mpr ⟨fun z hz => ?_, ih hrest⟩
      rcases mem_insert.mp hz with rfl | hz
      · exact hle
      · exact hy z hz
    · next hgt =>
      refine List.pairwise_cons.mpr ⟨fun z hz => ?_, hq⟩
      rcases List.mem_cons.mp hz with rfl | hz
      · omega
      · have := hy z hz
        omega

theorem insert_perm (x : Nat × ε) (q : Agenda ε) : (insert x q).Perm (x :: q) := by
  induction q with
  | nil => exact List.Perm.refl _
  | cons y rest ih =>
    simp only [insert]
    split
    · exact (ih.cons y).trans (List.Perm.swap x y rest)
    · exact List.Perm.refl _

variable [DecidableEq ε]

/-- Leaves out the alarm of an event. -/
def cancel (q : Agenda ε) (event : ε) : Agenda ε := q.filter (·.2 ≠ event)

/-- Sets the alarm of an event. -/
def set (q : Agenda ε) (due : Nat) (event : ε) : Agenda ε := insert (due, event) (q.cancel event)

theorem Sorted.cancel {q : Agenda ε} (hq : q.Sorted) (event : ε) : (q.cancel event).Sorted :=
  hq.sublist List.filter_sublist

theorem Sorted.set {q : Agenda ε} (hq : q.Sorted) (due : Nat) (event : ε) :
    (q.set due event).Sorted :=
  (hq.cancel event).insert _

/-- The cycle an event waits for. -/
def due? (q : Agenda ε) (event : ε) : Option Nat := (q.find? (·.2 = event)).map (·.1)

/-! ## The agenda by event -/

/-- No event waits twice. -/
def Distinct (q : Agenda ε) : Prop := (q.map (·.2)).Nodup

theorem Distinct.cancel {q : Agenda ε} (hq : q.Distinct) (event : ε) :
    (q.cancel event).Distinct :=
  hq.sublist (List.filter_sublist.map _)

theorem Distinct.set {q : Agenda ε} (hq : q.Distinct) (due : Nat) (event : ε) :
    (q.set due event).Distinct := by
  have fresh : event ∉ (q.cancel event).map (·.2) := by simp [Agenda.cancel]
  have old : ((q.cancel event).map (·.2)).Nodup := hq.cancel event
  exact ((insert_perm (due, event) (q.cancel event)).map (·.2)).nodup_iff.mpr
    (List.nodup_cons.mpr ⟨fresh, old⟩)

@[simp] theorem due?_cons_self (due : Nat) (event : ε) (rest : Agenda ε) :
    due? ((due, event) :: rest) event = some due := by
  simp [due?]

theorem due?_cons_ne {x : Nat × ε} {event : ε} (h : x.2 ≠ event) (rest : Agenda ε) :
    due? (x :: rest) event = due? rest event := by
  simp [due?, h]

theorem due?_eq_some_iff {q : Agenda ε} (hq : q.Distinct) {due : Nat} {event : ε} :
    q.due? event = some due ↔ (due, event) ∈ q := by
  induction q with
  | nil => simp [due?]
  | cons x rest ih =>
    obtain ⟨hx, hrest⟩ := List.nodup_cons.mp hq
    by_cases h : x.2 = event
    · subst h
      have : ∀ d, (d, x.2) ∉ rest := fun d hd => hx (List.mem_map.mpr ⟨_, hd, rfl⟩)
      rw [show x = (x.1, x.2) from rfl, due?_cons_self]
      simp only [Option.some.injEq, List.mem_cons, Prod.mk.injEq, and_true, this, or_false]
      exact eq_comm
    · rw [due?_cons_ne h, ih hrest]
      simp only [List.mem_cons]
      refine ⟨.inr, fun hm => hm.resolve_left fun he => h ?_⟩
      rw [← he]

theorem due?_eq_none {q : Agenda ε} {event : ε} (h : ∀ due, (due, event) ∉ q) :
    q.due? event = none := by
  simp only [due?, Option.map_eq_none_iff, List.find?_eq_none, decide_eq_true_eq]
  rintro x hx rfl
  exact h x.1 hx

theorem mem_cancel {q : Agenda ε} {event : ε} {x : Nat × ε} :
    x ∈ q.cancel event ↔ x ∈ q ∧ x.2 ≠ event := by
  simp [cancel]

@[simp] theorem due?_cancel_self (q : Agenda ε) (event : ε) :
    (q.cancel event).due? event = none :=
  due?_eq_none fun _ h => (mem_cancel.mp h).2 rfl

theorem due?_cancel_ne (q : Agenda ε) {event other : ε} (h : event ≠ other) :
    (q.cancel event).due? other = q.due? other := by
  simp only [due?, cancel, List.find?_filter]
  congr 2
  funext x
  by_cases hx : x.2 = other <;> simp [hx, Ne.symm h]

theorem due?_insert_ne {x : Nat × ε} {event : ε} (h : x.2 ≠ event) (q : Agenda ε) :
    (insert x q).due? event = q.due? event := by
  induction q with
  | nil => exact due?_cons_ne h []
  | cons y rest ih =>
    simp only [insert]
    split
    · by_cases hy : y.2 = event
      · subst hy
        rw [show y = (y.1, y.2) from rfl, due?_cons_self, due?_cons_self]
      · rw [due?_cons_ne hy, due?_cons_ne hy, ih]
    · exact due?_cons_ne h _

@[simp] theorem due?_set_self (q : Agenda ε) (due : Nat) (event : ε) :
    (q.set due event).due? event = some due := by
  unfold set
  have fresh : ∀ d, (d, event) ∉ q.cancel event := fun d h => (mem_cancel.mp h).2 rfl
  revert fresh
  induction q.cancel event with
  | nil => intro _; exact due?_cons_self due event []
  | cons y rest ih =>
    intro fresh
    have hy : y.2 ≠ event := by
      rintro rfl
      exact fresh y.1 (.head rest)
    simp only [insert]
    split
    · rw [due?_cons_ne hy]
      exact ih fun d hd => fresh d (.tail y hd)
    · exact due?_cons_self ..

theorem due?_set_ne (q : Agenda ε) (due : Nat) {event other : ε} (h : event ≠ other) :
    (q.set due event).due? other = q.due? other := by
  rw [set, due?_insert_ne (x := (due, event)) h, due?_cancel_ne q h]

end Agenda

theorem WellFormed.agenda_distinct {c : Clock ε} (hc : c.WellFormed) : c.agenda.Distinct := by
  have := hc.nodup
  unfold Agenda.Distinct agenda
  rwa [List.map_map]

theorem WellFormed.agenda_sorted {c : Clock ε} (hc : c.WellFormed) : c.agenda.Sorted :=
  List.pairwise_map.mpr (hc.sorted.imp fun h => Nat.add_le_add_left h.due_le c.base)

theorem map_insertEntry (base : Nat) (e : Entry ε) (queue : List (Entry ε)) :
    (insertEntry e queue).map (fun e => (base + e.due, e.event)) =
      Agenda.insert (base + e.due, e.event)
        (queue.map fun e => (base + e.due, e.event)) := by
  induction queue with
  | nil => rfl
  | cons x rest ih =>
    simp only [insertEntry, List.map_cons, Agenda.insert, Nat.add_le_add_iff_left]
    split
    · rw [List.map_cons, ih]
    · rfl

/-- Rebasing changes nothing that can be said in absolute time. -/
theorem WellFormed.agenda_rebase {c : Clock ε} (hc : c.WellFormed) :
    c.rebase.agenda = c.agenda := by
  unfold Clock.rebase
  simp only []
  split
  · rfl
  · simp only [agenda, List.map_map]
    refine List.map_congr_left fun e he => ?_
    have := hc.rebaseOffset_le_due he
    simp only [Function.comp_apply, Prod.mk.injEq, and_true]
    omega

theorem popDue_of_agenda {c : Clock ε} {due : Nat} {event : ε} {q : Agenda ε}
    (h : c.agenda = (due, event) :: q) (hdue : due ≤ c.elapsed) :
    ∃ at' c', c.popDue = some (⟨at', event⟩, c') ∧ c.base + at' = due ∧ c'.agenda = q ∧
      c'.now = c.now ∧ c'.base = c.base ∧ c'.nextOrder = c.nextOrder ∧
      c'.queue.length + 1 = c.queue.length := by
  unfold agenda at h
  cases hq : c.queue with
  | nil => rw [hq] at h; exact absurd h (by simp)
  | cons e rest =>
    rw [hq] at h
    simp only [List.map_cons, List.cons.injEq, Prod.mk.injEq] at h
    obtain ⟨⟨rfl, rfl⟩, hrest⟩ := h
    unfold elapsed at hdue
    refine ⟨e.due, { c with queue := rest }, ?_, rfl, hrest, rfl, rfl, rfl, rfl⟩
    unfold popDue
    rw [hq]
    simp only []
    rw [if_pos (by omega)]

theorem popDue_eq_none {c : Clock ε} (h : ∀ x ∈ c.agenda.head?, c.elapsed < x.1) :
    c.popDue = none := by
  unfold popDue
  cases hq : c.queue with
  | nil => rfl
  | cons e rest =>
    have := h (c.base + e.due, e.event) (by simp [agenda, hq])
    unfold elapsed at this
    simp only []
    rw [if_neg (by omega)]

section Events

variable [DecidableEq ε]

theorem agenda_cancel (c : Clock ε) (event : ε) :
    (c.cancel event).agenda = c.agenda.cancel event := by
  unfold agenda Agenda.cancel cancel
  rw [List.filter_map]
  rfl

theorem agenda_setAlarm (c : Clock ε) (due : Nat) (event : ε) :
    (c.setAlarm due event).agenda = c.agenda.set (c.base + due) event := by
  unfold Agenda.set
  rw [← agenda_cancel]
  exact map_insertEntry c.base ⟨due, c.nextOrder, event⟩ (c.cancel event).queue

theorem due?_agenda (c : Clock ε) (event : ε) :
    c.agenda.due? event = (c.due? event).map (c.base + ·) := by
  simp only [Agenda.due?, agenda, due?, List.find?_map, Option.map_map]
  rfl

/-- How far away an alarm is, by its cycle in absolute time. -/
theorem cyclesUntil?_of_agenda {c : Clock ε} {event : ε} {due : Nat}
    (h : c.agenda.due? event = some due) : c.cyclesUntil? event = some (due - c.elapsed) := by
  rw [due?_agenda] at h
  obtain ⟨at', found, rfl⟩ := Option.map_eq_some_iff.mp h
  unfold cyclesUntil? elapsed
  rw [found, Option.map_some, Nat.add_sub_add_left]

end Events

/-! ## Handlers in absolute time -/

/-- What a handler asks of the clock, in cycles behind the alarm that it handles. -/
inductive Request (ε : Type) where
  | set (delay : Nat) (event : ε)
  | cancel (event : ε)

/-- A handler that knows the absolute cycle of its alarm, the event and its own state. -/
abbrev Responder (ε σ : Type) := Nat → ε → σ → List (Request ε) × σ

variable [DecidableEq ε]

/-- Does what was asked behind an alarm for cycle `due`. -/
def Request.perform (due : Nat) (c : Clock ε) : Request ε → Except Fault (Clock ε)
  | .set delay event => return c.setAlarm (← Cycle.add due delay) event
  | .cancel event => return c.cancel event

/-- Does the same in absolute time. -/
def Request.apply (due : Nat) (q : Agenda ε) : Request ε → Agenda ε
  | .set delay event => q.set (due + delay) event
  | .cancel event => q.cancel event

/-- The responder as a handler of the clock. -/
def Responder.handler (r : Responder ε σ) : Handler ε σ := fun alarm c s => do
  let (requests, s) := r (c.base + alarm.due) alarm.event s
  return (← requests.foldlM (Request.perform alarm.due) c, s)

/-- Whether a request is for a cycle behind the alarm, and not so far that it could leave the
cycle numbers. -/
def Request.Ahead : Request ε → Prop
  | .set delay _ => 1 ≤ delay ∧ delay ≤ Cycle.headroom
  | .cancel _ => True

/-- A responder whose requests are for cycles to come, as long as its state is a good one. -/
structure Responder.Steady (r : Responder ε σ) (Good : σ → Prop) : Prop where
  ahead : ∀ due event s, Good s → ∀ x ∈ (r due event s).1, x.Ahead
  keeps : ∀ due event s, Good s → Good (r due event s).2

/-- `Fires r limit n q s q' s'`: firing all alarms of agenda `q` up to cycle `limit`, `n` of
them, leaves agenda `q'`, and `r` goes from state `s` to `s'`. -/
inductive Fires (r : Responder ε σ) (limit : Nat) :
    Nat → Agenda ε → σ → Agenda ε → σ → Prop where
  | done {q : Agenda ε} {s : σ} : (∀ x ∈ q.head?, limit < x.1) → Fires r limit 0 q s q s
  | fire {due n : Nat} {event : ε} {q q' : Agenda ε} {s s' : σ} : due ≤ limit →
      Fires r limit n ((r due event s).1.foldl (Request.apply due) q) (r due event s).2 q' s' →
        Fires r limit (n + 1) ((due, event) :: q) s q' s'

/-- Firing up to a cycle and then up to a later one is firing up to the later one. -/
theorem Fires.trans {r : Responder ε σ} {limit limit' m n : Nat} {q₁ q₂ q₃ : Agenda ε}
    {s₁ s₂ s₃ : σ} (hle : limit ≤ limit') (h : Fires r limit m q₁ s₁ q₂ s₂)
    (h' : Fires r limit' n q₂ s₂ q₃ s₃) : Fires r limit' (m + n) q₁ s₁ q₃ s₃ := by
  induction h with
  | done _ => rw [Nat.zero_add]; exact h'
  | fire hdue _ ih =>
    rw [Nat.add_right_comm]
    exact .fire (Nat.le_trans hdue hle) (ih h')

/-- What every alarm on the way keeps, firing keeps. -/
theorem Fires.keeps {r : Responder ε σ} {limit n : Nat} {P : Agenda ε → σ → Prop}
    (alarm : ∀ {due event q s}, due ≤ limit → P ((due, event) :: q) s →
      P ((r due event s).1.foldl (Request.apply due) q) (r due event s).2)
    {q q' : Agenda ε} {s s' : σ} (h : Fires r limit n q s q' s') (before : P q s) : P q' s' := by
  induction h with
  | done _ => exact before
  | fire reached _ ih => exact ih (alarm reached before)

/-- What firing leads to is settled by agenda, state and limit. -/
theorem Fires.unique {r : Responder ε σ} {limit m n : Nat} {q q₁ q₂ : Agenda ε} {s s₁ s₂ : σ}
    (h₁ : Fires r limit m q s q₁ s₁) (h₂ : Fires r limit n q s q₂ s₂) :
    m = n ∧ q₁ = q₂ ∧ s₁ = s₂ := by
  induction h₁ generalizing n with
  | done hnone =>
    cases h₂ with
    | done _ => exact ⟨rfl, rfl, rfl⟩
    | fire hdue _ => exact absurd (hnone _ rfl) (Nat.not_lt.mpr hdue)
  | fire hdue _ ih =>
    cases h₂ with
    | done hnone => exact absurd (hnone _ rfl) (Nat.not_lt.mpr hdue)
    | fire _ h =>
      obtain ⟨hn, hq, hs⟩ := ih h
      exact ⟨congrArg (· + 1) hn, hq, hs⟩

/-- Nothing is due behind a firing. -/
theorem Fires.none_due {r : Responder ε σ} {limit n : Nat} {q q' : Agenda ε} {s s' : σ}
    (h : Fires r limit n q s q' s') : ∀ x ∈ q'.head?, limit < x.1 := by
  induction h with
  | done hnone => exact hnone
  | fire _ _ ih => exact ih

theorem Fires.good {r : Responder ε σ} {Good : σ → Prop} (hr : r.Steady Good) {limit n : Nat}
    {q q' : Agenda ε} {s s' : σ} (h : Fires r limit n q s q' s') (hs : Good s) : Good s' := by
  induction h with
  | done _ => exact hs
  | fire _ _ ih => exact ih (hr.keeps _ _ _ hs)

end C64.Clock
