import C64.Proofs.Clock.History
import C64.Proofs.Clock.Splitting

/-!
# Every alarm once and in order

Handlers that do nothing to the clock but set and cancel alarms, and set none before the one they
handle (`advance_serves`): an advance calls them once for each registration that came due and was
not withdrawn, and for nothing else, ordered by cycle and, within a cycle, by registration.
They may read the clock as they like.

An advance fires in up to two goes with a rebase between them. What makes one sequence of both is
an invariant of the trace (`InOrder`): what fired since the advance began comes before all that
still waits. The head of the queue keeps it when it fires, and what a handler sets keeps it
because it is not before the alarm that fired last.
-/

namespace C64.Clock

variable {ε σ : Type}

/-! ## Handlers that set and cancel alarms -/

/-- What a handler does to the clock: alarms to set, at cycles of the counter, or to cancel. -/
inductive Change (ε : Type) where
  | set (due : Nat) (event : ε)
  | cancel (event : ε)

/-- No alarm is set for a cycle before `due`, nor for one that is no cycle number. -/
def Change.NotBefore (due : Nat) : Change ε → Prop
  | .set due' _ => due ≤ due' ∧ due' ≤ Cycle.last
  | .cancel _ => True

/-- The change in the trace of a clock with this base. -/
def Change.note (base : Nat) : Change ε → Note ε
  | .set due event => .set (base + due) event
  | .cancel event => .cancel event

/-- What a handler makes of an alarm, with the clock and its own state before it. -/
abbrev Rule (ε σ : Type) := Alarm ε → Clock ε → σ → Except Fault (List (Change ε) × σ)

/-- No change lies before the alarm that is handled. -/
def Rule.Forward (rule : Rule ε σ) : Prop :=
  ∀ alarm c s changes s', rule alarm c s = .ok (changes, s') →
    ∀ x ∈ changes, x.NotBefore alarm.due

/-! ## The order of a trace -/

/-- An alarm comes before another: its cycle does or, for the same cycle, its place. -/
def Earlier (due i due' i' : Nat) : Prop := due < due' ∨ due = due' ∧ i < i'

/-- What fired from place `start` on, fired in order, and before all that waits. -/
structure InOrder (start : Nat) (t : Trace ε) : Prop where
  served {j k i i' due due' : Nat} : start ≤ j → j < k → Serves t j i due → Serves t k i' due' →
    Earlier due i due' i'
  waiting {j i i' due due' : Nat} {event : ε} : start ≤ j → Serves t j i due →
    Waits t i' due' event → Earlier due i due' i'

/-- What fired from place `start` on was for cycles up to `due`. -/
def ServedTo (start due : Nat) (t : Trace ε) : Prop :=
  ∀ j i due', start ≤ j → Serves t j i due' → due' ≤ due

theorem Serves.lt_length {t : Trace ε} {j i due : Nat} (h : Serves t j i due) : j < t.length := by
  obtain ⟨now, event, hj, -⟩ := h
  exact (List.getElem?_eq_some_iff.mp hj).1

theorem InOrder.refl (t : Trace ε) : InOrder t.length t :=
  ⟨fun hj _ h => absurd h.lt_length (Nat.not_lt.mpr hj),
    fun hj h => absurd h.lt_length (Nat.not_lt.mpr hj)⟩

theorem serves_snoc_quiet {t : Trace ε} {x : Note ε} (hx : x.isFire = false) {j i due : Nat} :
    Serves (t ++ [x]) j i due ↔ Serves t j i due := by
  rw [serves_snoc, or_iff_left]
  rintro ⟨-, now, event, rfl, -⟩
  exact absurd hx (by simp [Note.isFire])

theorem ServedTo.snoc_quiet {start due : Nat} {t : Trace ε} (h : ServedTo start due t)
    {x : Note ε} (hx : x.isFire = false) : ServedTo start due (t ++ [x]) :=
  fun j i due' hj hs => h j i due' hj ((serves_snoc_quiet hx).mp hs)

/-- A note that fires nothing keeps the order, if what it registers is not before what fired. -/
theorem InOrder.snoc_quiet {start : Nat} {t : Trace ε} (h : InOrder start t) {x : Note ε}
    (hx : x.isFire = false) (hset : ∀ due event, x = .set due event → ServedTo start due t) :
    InOrder start (t ++ [x]) where
  served hj hjk h₁ h₂ :=
    h.served hj hjk ((serves_snoc_quiet hx).mp h₁) ((serves_snoc_quiet hx).mp h₂)
  waiting {j i i' due due' event} hj hs hw := by
    have hs := (serves_snoc_quiet hx).mp hs
    rcases waits_snoc.mp hw with ⟨rfl, hnew⟩ | ⟨hw, -⟩
    -- The place of a new registration is behind that of every other.
    · have hdue := hset due' event hnew j i due hj hs
      obtain ⟨now, e, hend⟩ := hs
      have hlt := Nat.lt_trans hend.2.lt_of_take (List.getElem?_eq_some_iff.mp hend.1).1
      unfold Earlier
      omega
    · exact h.waiting hj hs hw

/-- The alarm of the earliest registration keeps the order when it fires. -/
theorem InOrder.snoc_fire {start : Nat} {t : Trace ε} (h : InOrder start t) {i due now : Nat}
    {event : ε} (hi : Waits t i due event)
    (hfirst : ∀ i' due' event', event' ≠ event → Waits t i' due' event' → Earlier due i due' i') :
    InOrder start (t ++ [.fire due now event]) ∧
      ServedTo start due (t ++ [.fire due now event]) := by
  -- What is served now is this registration; all that was served before came before it.
  have new : ∀ j i' due', Serves (t ++ [.fire due now event]) j i' due' →
      Serves t j i' due' ∨ j = t.length ∧ i' = i ∧ due' = due := by
    intro j i' due' hs
    rcases serves_snoc.mp hs with hs | ⟨hj, now', event', hx, hw⟩
    · exact .inl hs
    · obtain ⟨rfl, -, rfl⟩ := Note.fire.inj hx
      obtain ⟨rfl, -⟩ := hw.unique hi
      exact .inr ⟨hj, rfl, rfl⟩
  refine ⟨⟨?_, ?_⟩, ?_⟩
  · intro j k i₁ i₂ due₁ due₂ hj hjk h₁ h₂
    rcases new j i₁ due₁ h₁ with old₁ | ⟨rfl, -, -⟩
    · rcases new k i₂ due₂ h₂ with old₂ | ⟨-, rfl, rfl⟩
      · exact h.served hj hjk old₁ old₂
      · exact h.waiting hj old₁ hi
    · have := h₂.lt_length
      rw [List.length_append, List.length_singleton] at this
      omega
  · intro j i₁ i₂ due₁ due₂ event' hj h₁ hw
    rcases waits_snoc.mp hw with ⟨-, hx⟩ | ⟨oldw, hne⟩
    · exact absurd hx (by simp)
    · rcases new j i₁ due₁ h₁ with old₁ | ⟨-, rfl, rfl⟩
      · exact h.waiting hj old₁ oldw
      · exact hfirst i₂ due₂ event' (Ne.symm hne) oldw
  · intro j i₁ due₁ hj h₁
    rcases new j i₁ due₁ h₁ with old₁ | ⟨-, -, rfl⟩
    · have := h.waiting hj old₁ hi
      unfold Earlier at this
      omega
    · exact Nat.le_refl _

theorem Waits.served_later {t t' : Trace ε} (hle : t <+: t') {i j due due' : Nat} {event : ε}
    (hw : Waits t i due event) (hs : Serves t' j i due') : t.length ≤ j := by
  obtain ⟨now, event', hend⟩ := hs
  obtain ⟨rest, rfl⟩ := hle
  refine Nat.le_of_not_lt fun hlt => ?_
  have hset := hend.set
  rw [List.getElem?_append_left hw.lt_length] at hset
  obtain ⟨-, same⟩ := Note.set.inj (Option.some.inj (hw.1.symm.trans hset))
  refine hw.2 j _ hend.2.lt_of_take ?_ same.symm
  rw [← List.getElem?_append_left hlt]
  exact hend.1

/-! ## One alarm -/

variable [DecidableEq ε]

def Change.perform (c : Clock ε) : Change ε → Clock ε
  | .set due event => c.setAlarm due event
  | .cancel event => c.cancel event

/-- The handler that changes what the rule says. -/
def Rule.handler (rule : Rule ε σ) : Handler ε σ := fun alarm c s => do
  let (changes, s) ← rule alarm c s
  return (changes.foldl Change.perform c, s)

/-- The same handler with a trace of its calls and of what they change. -/
def Rule.traced (rule : Rule ε σ) : Handler ε (σ × Trace ε) := fun alarm c (s, t) => do
  let (changes, s) ← rule alarm c s
  let call := Note.fire (c.base + alarm.due) c.elapsed alarm.event
  return (changes.foldl Change.perform c, s, t ++ call :: changes.map (Change.note c.base))

theorem Change.perform_history {c : Clock ε} {t : Trace ε} (hc : History c t) {x : Change ε}
    {due : Nat} (hx : x.NotBefore due) : History (x.perform c) (t ++ [x.note c.base]) := by
  cases x with
  | set due' event => exact hc.setAlarm event hx.2
  | cancel event => exact hc.cancel event

/-- What a call changes keeps the order, and takes no time. -/
theorem Change.foldl_perform {start due : Nat} {changes : List (Change ε)}
    (hx : ∀ x ∈ changes, x.NotBefore due) {c : Clock ε} {t : Trace ε} (hc : History c t)
    (ho : InOrder start t) (hs : ServedTo start (c.base + due) t) :
    History (changes.foldl Change.perform c) (t ++ changes.map (Change.note c.base)) ∧
      InOrder start (t ++ changes.map (Change.note c.base)) ∧
      (changes.foldl Change.perform c).elapsed = c.elapsed := by
  induction changes generalizing c t with
  | nil => exact ⟨(List.append_nil t).symm ▸ hc, (List.append_nil t).symm ▸ ho, rfl⟩
  | cons x rest ih =>
    have hx₀ := hx x (.head rest)
    have quiet : (x.note c.base).isFire = false := by cases x <;> rfl
    have base : (x.perform c).base = c.base := by cases x <;> rfl
    have now : (x.perform c).now = c.now := by cases x <;> rfl
    have ho' : InOrder start (t ++ [x.note c.base]) := by
      refine ho.snoc_quiet quiet fun due' event hset j i due₁ hj h₁ => ?_
      cases x with
      | set due' event =>
        obtain ⟨rfl, -⟩ := Note.set.inj hset
        exact Nat.le_trans (hs j i due₁ hj h₁) (Nat.add_le_add_left hx₀.1 _)
      | cancel event => exact absurd hset (by simp [Change.note])
    have := ih (fun y hy => hx y (.tail x hy)) (Change.perform_history hc hx₀) ho'
      (base ▸ hs.snoc_quiet quiet)
    rw [base, List.append_assoc] at this
    obtain ⟨h, ho, he⟩ := this
    refine ⟨h, ho, he.trans ?_⟩
    unfold elapsed
    rw [base, now]

/-- The alarm that fires is that of the earliest registration. -/
theorem InOrder.popDue {start : Nat} {c c' : Clock ε} {t : Trace ε} {alarm : Alarm ε}
    (hc : History c t) (ho : InOrder start t) (h : c.popDue = some (alarm, c')) :
    InOrder start (t ++ [.fire (c.base + alarm.due) c.elapsed alarm.event]) ∧
      ServedTo start (c.base + alarm.due)
        (t ++ [.fire (c.base + alarm.due) c.elapsed alarm.event]) := by
  obtain ⟨e, rest, hq, -, rfl, -⟩ := popDue_eq_some h
  obtain ⟨i, hi, hcount⟩ := (hc.mem_queue e).mp (hq ▸ .head rest)
  refine ho.snoc_fire hi fun i' due' event' hne hw => ?_
  obtain ⟨x, hx, rfl, rfl, horder⟩ := hc.entry_of_waits hw
  have hsorted := hc.wellFormed.sorted
  rw [hq] at hsorted hx
  rcases List.mem_cons.mp hx with rfl | hx
  · exact absurd rfl hne
  · rcases (List.pairwise_cons.mp hsorted).1 x hx with hlt | ⟨heq, hlt⟩
    · exact .inl (Nat.add_lt_add_left hlt _)
    · -- Of two registrations the one with fewer before it has the lower place.
      refine .inr ⟨by rw [heq], Nat.lt_of_not_le fun hle => ?_⟩
      have := (List.take_sublist_take_left (l := t) hle).countP_le (p := Note.isSet)
      omega

/-- Trace `t'` tells how clock `c'` came about. It goes on from `t`, in order. -/
structure Continues (start : Nat) (t : Trace ε) (c' : Clock ε) (t' : Trace ε) : Prop where
  history : History c' t'
  inOrder : InOrder start t'
  longer : t <+: t'

theorem Continues.trans {start : Nat} {t₁ t₂ t₃ : Trace ε} {c₂ c₃ : Clock ε}
    (h₂ : Continues start t₁ c₂ t₂) (h₃ : Continues start t₂ c₃ t₃) :
    Continues start t₁ c₃ t₃ :=
  ⟨h₃.history, h₃.inOrder, h₂.longer.trans h₃.longer⟩

theorem Rule.call {rule : Rule ε σ} (hd : rule.Forward) {start : Nat}
    {c c₁ c₂ : Clock ε} {t : Trace ε} {s s₂ : σ} {alarm : Alarm ε} (hc : History c t)
    (ho : InOrder start t) (hpop : c.popDue = some (alarm, c₁))
    (h : rule.handler alarm c₁ s = .ok (c₂, s₂)) :
    ∃ t₂, rule.traced alarm c₁ (s, t) = .ok (c₂, s₂, t₂) ∧ Continues start t c₂ t₂ ∧
      c₂.elapsed = c.elapsed := by
  obtain ⟨⟨changes, s'⟩, hdecide, hret⟩ := bind_eq_ok.mp h
  cases hret
  have base : c₁.base = c.base ∧ c₁.elapsed = c.elapsed := by
    obtain ⟨e, rest, -, -, -, rfl⟩ := popDue_eq_some hpop
    exact ⟨rfl, rfl⟩
  obtain ⟨ho₁, hs₁⟩ := ho.popDue hc hpop
  obtain ⟨h₂, ho₂, he₂⟩ := Change.foldl_perform (hd alarm c₁ s changes s₂ hdecide)
    (hc.popDue hpop) ho₁ (base.1.symm ▸ hs₁)
  rw [List.append_assoc] at h₂ ho₂
  refine ⟨_, ?_, ⟨h₂, ho₂, List.prefix_append ..⟩, he₂.trans base.2⟩
  unfold Rule.traced
  simp only []
  rw [hdecide, base.1, base.2]
  rfl

/-! ## A whole advance -/

omit [DecidableEq ε] in
theorem WellFormed.none_due {c : Clock ε} (hc : c.WellFormed) (h : c.popDue = none) :
    ∀ e ∈ c.queue, c.now < e.due := by
  have hs := hc.sorted
  unfold Clock.popDue at h
  intro e he
  split at h
  · next hq => exact absurd he (by simp [hq])
  · next x rest hq =>
    split at h
    · exact absurd h (by simp)
    · next hlt =>
      rw [hq] at he hs
      rcases List.mem_cons.mp he with rfl | he
      · exact Nat.lt_of_not_le hlt
      · exact Nat.lt_of_lt_of_le (Nat.lt_of_not_le hlt) ((List.pairwise_cons.mp hs).1 e he).due_le

theorem Rule.fireDue {rule : Rule ε σ} (hd : rule.Forward) {start budget : Nat}
    {c c' : Clock ε} {t : Trace ε} {s s' : σ} (hc : History c t) (ho : InOrder start t)
    (h : fireDue rule.handler budget c s = .ok (c', s')) :
    ∃ t', Clock.fireDue rule.traced budget c (s, t) = .ok (c', s', t') ∧
      Continues start t c' t' ∧ c'.elapsed = c.elapsed ∧ ∀ e ∈ c'.queue, c'.now < e.due := by
  induction budget generalizing c s t with
  | zero =>
    unfold Clock.fireDue at h ⊢
    split at h
    · next hnone =>
      cases h
      exact ⟨t, if_pos hnone, ⟨hc, ho, List.prefix_rfl⟩, rfl,
        hc.wellFormed.none_due (Option.isNone_iff_eq_none.mp hnone)⟩
    · exact absurd h (by simp)
  | succ budget ih =>
    unfold Clock.fireDue at h ⊢
    split at h
    · next hnone =>
      cases h
      exact ⟨t, rfl, ⟨hc, ho, List.prefix_rfl⟩, rfl, hc.wellFormed.none_due hnone⟩
    · next alarm c₁ hpop =>
      obtain ⟨⟨c₂, s₂⟩, hcall, hrest⟩ := bind_eq_ok.mp h
      obtain ⟨t₂, hcall₂, h₂, he₂⟩ := Rule.call hd hc ho hpop hcall
      obtain ⟨t', hrun, h', he', hnone⟩ := ih h₂.history h₂.inOrder hrest
      refine ⟨t', ?_, h₂.trans h', he'.trans he₂, hnone⟩
      simp only []
      rw [hcall₂]
      exact hrun

theorem Rule.makeRoom {rule : Rule ε σ} (hd : rule.Forward)
    {start budget cycles : Nat} {c c' : Clock ε} {t : Trace ε} {s s' : σ} (hc : History c t)
    (ho : InOrder start t) (h : makeRoom rule.handler budget cycles c s = .ok (c', s')) :
    ∃ t', Clock.makeRoom rule.traced budget cycles c (s, t) = .ok (c', s', t') ∧
      Continues start t c' t' ∧ c'.elapsed = c.elapsed ∧
      c'.now + cycles ≤ Cycle.clockMax := by
  unfold Clock.makeRoom at h ⊢
  split at h
  · next hroom =>
    cases h
    have := hc.wellFormed.now_le
    rw [if_pos hroom]
    exact ⟨t, rfl, ⟨hc, ho, List.prefix_rfl⟩, rfl, by omega⟩
  · next hfull =>
    obtain ⟨⟨c₁, s₁⟩, hfire, hrest⟩ := bind_eq_ok.mp h
    obtain ⟨t₁, hrun, h₁, he₁, -⟩ := Rule.fireDue hd hc ho hfire
    simp only [] at hrest
    split at hrest
    · next hroom =>
      cases hrest
      have := h₁.history.wellFormed.rebase.now_le
      refine ⟨t₁, ?_, ⟨h₁.history.rebase, h₁.inOrder, h₁.longer⟩, ?_, by omega⟩
      · rw [if_neg hfull, hrun, ok_bind]
        exact if_pos hroom
      · rw [elapsed_rebase, he₁]
    · exact absurd hrest (by simp)

/-- An advance calls its handler once for each registration that came due and was not withdrawn
before, and for nothing else: no later than the counter, earlier cycles first and, for the same
cycle, earlier registrations first. Nothing is due behind it. -/
theorem advance_serves {rule : Rule ε σ} (hd : rule.Forward) {c : Clock ε} {t : Trace ε}
    (hc : History c t) {budget cycles : Nat} {s s' : σ} {c' : Clock ε}
    (h : advanceWithin budget rule.handler cycles c s = .ok (c', s')) :
    ∃ t', advanceWithin budget rule.traced cycles c (s, t) = .ok (c', s', t') ∧ t <+: t' ∧
      History c' t' ∧ c'.elapsed = c.elapsed + cycles ∧
      (∀ i due event, t'[i]? = some (.set due event) →
        (due ≤ c.elapsed + cycles ∧ ¬ Withdrawn t' i → ∃! j, Serves t' j i due) ∧
        ((∃ j, Serves t' j i due) → due ≤ c.elapsed + cycles ∧ ¬ Withdrawn t' i)) ∧
      (∀ j due now event, t'[j]? = some (.fire due now event) →
        due ≤ now ∧ ∃ i, Serves t' j i due) ∧
      (∀ i due event, Waits t i due event → ∀ j, Serves t' j i due → t.length ≤ j) ∧
      (∀ j k i i' due due', t.length ≤ j → j < k → Serves t' j i due → Serves t' k i' due' →
        due < due' ∨ due = due' ∧ i < i') ∧
      ∀ e ∈ c'.queue, c'.now < e.due := by
  obtain ⟨⟨c₁, s₁⟩, hroom, hfire⟩ := bind_eq_ok.mp h
  obtain ⟨t₁, hrun₁, h₁, he₁, hle⟩ := Rule.makeRoom hd hc (.refl t) hroom
  obtain ⟨t', hrun, h', he', hnone⟩ :=
    Rule.fireDue hd (h₁.history.pass hle) h₁.inOrder hfire
  have elapsed_eq : c'.elapsed = c.elapsed + cycles := by
    rw [he', ← he₁]
    exact (Nat.add_assoc ..).symm
  have longer : t <+: t' := (h₁.trans h').longer
  refine ⟨t', ?_, longer, h'.history, elapsed_eq, fun i due event hi => ?_, h'.history.fair,
    fun i due event hw j => hw.served_later longer, fun j k i i' due due' => h'.inOrder.served,
    hnone⟩
  · unfold Clock.advanceWithin
    rw [hrun₁]
    exact hrun
  · rw [← elapsed_eq]
    exact h'.history.served hnone hi

/-- Counts its calls. One event comes back every three cycles, the other one stops it. -/
def beat : Rule Bool Nat := fun alarm _ n =>
  match alarm.event with
  | true => do return ([.set (← Cycle.add alarm.due 3) true], n + 1)
  | false => .ok ([.cancel true], n + 1)

theorem beat_forward : beat.Forward := by
  intro alarm c n changes n' h x hx
  unfold beat Cycle.add at h
  split at h
  · split at h
    · next hle =>
      cases h
      obtain rfl := List.mem_singleton.mp hx
      exact ⟨Nat.le_add_right .., hle⟩
    · exact absurd h (by simp [bind, Except.bind])
  · cases h
    obtain rfl := List.mem_singleton.mp hx
    trivial

def brimTrace : Trace Bool := [.set (Cycle.clockMax - 5) true, .set (Cycle.clockMax + 4) false]

theorem brimClock_history : History brimClock brimTrace :=
  .setAlarm false (.setAlarm true (.start (show start Cycle.clockMax = .ok _ from rfl))
    (by decide)) (by decide)

theorem advance_serves_brim :
    ∃ t', advanceWithin 8 beat.traced 9 brimClock (0, brimTrace) =
        .ok (⟨9, Cycle.clockMax, 1, 5, []⟩, 4, t') ∧ brimTrace <+: t' ∧
      History ⟨9, Cycle.clockMax, 1, 5, []⟩ t' ∧
      elapsed (⟨9, Cycle.clockMax, 1, 5, []⟩ : Clock Bool) = brimClock.elapsed + 9 ∧
      (∀ i due event, t'[i]? = some (.set due event) →
        (due ≤ brimClock.elapsed + 9 ∧ ¬ Withdrawn t' i → ∃! j, Serves t' j i due) ∧
        ((∃ j, Serves t' j i due) → due ≤ brimClock.elapsed + 9 ∧ ¬ Withdrawn t' i)) ∧
      (∀ j due now event, t'[j]? = some (.fire due now event) →
        due ≤ now ∧ ∃ i, Serves t' j i due) ∧
      (∀ i due event, Waits brimTrace i due event → ∀ j, Serves t' j i due →
        brimTrace.length ≤ j) ∧
      (∀ j k i i' due due', brimTrace.length ≤ j → j < k → Serves t' j i due →
        Serves t' k i' due' → due < due' ∨ due = due' ∧ i < i') ∧
      ∀ e ∈ (⟨9, Cycle.clockMax, 1, 5, []⟩ : Clock Bool).queue, 9 < e.due :=
  advance_serves beat_forward brimClock_history rfl

end C64.Clock
