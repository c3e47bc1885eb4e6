import Mathlib.Data.List.Induction
import C64.Proofs.Clock.Order

/-!
# What happened to a clock

The trace of a clock notes the alarms that were set, cancelled and handed out since the clock was
made, the oldest first and all at absolute cycles, so that a rebase leaves it as it is. The place
of a note `set` stands for the registration it made: two registrations of one event are two
places. A registration waits until a later note is about its event (`Waits`), and what that note
is decides its fate (`fate`): it was served by an alarm that fired, or withdrawn.

`History` lets the trace grow with the clock. The queue holds the registrations that wait
(`History.mem_queue`), and every alarm that was handed out is one that waited and was due
(`History.fair`).
-/

namespace C64.Clock

variable {ε : Type}

/-! ## Traces -/

/-- One thing that happened to a clock. -/
inductive Note (ε : Type) where
  | set (due : Nat) (event : ε)
  | cancel (event : ε)
  /-- The alarm for cycle `due` was handed out at cycle `now`. -/
  | fire (due now : Nat) (event : ε)

def Note.event : Note ε → ε
  | .set _ event | .cancel event | .fire _ _ event => event

def Note.isSet : Note ε → Bool
  | .set .. => true
  | .cancel _ | .fire .. => false

def Note.isFire : Note ε → Bool
  | .fire .. => true
  | .set .. | .cancel _ => false

abbrev Trace (ε : Type) := List (Note ε)

/-- The registration at place `i` waits for cycle `due`: nothing behind it is about its event. -/
def Waits (t : Trace ε) (i due : Nat) (event : ε) : Prop :=
  t[i]? = some (.set due event) ∧ ∀ k x, i < k → t[k]? = some x → x.event ≠ event

/-- The note at place `j` ended the waiting of the registration at place `i`. -/
def Ends (t : Trace ε) (j : Nat) (x : Note ε) (i due : Nat) : Prop :=
  t[j]? = some x ∧ Waits (t.take j) i due x.event

/-- The alarm fired at place `j` is the one that was registered at place `i`. -/
def Serves (t : Trace ε) (j i due : Nat) : Prop :=
  ∃ now event, Ends t j (.fire due now event) i due

/-- The registration at place `i` was cancelled or replaced while it waited. -/
def Withdrawn (t : Trace ε) (i : Nat) : Prop :=
  ∃ j x due, x.isFire = false ∧ Ends t j x i due

/-- Every alarm that fired was due and waited until then. -/
def Fair (t : Trace ε) : Prop :=
  ∀ j due now event, t[j]? = some (.fire due now event) → due ≤ now ∧ ∃ i, Serves t j i due

theorem Waits.lt_length {t : Trace ε} {i due : Nat} {event : ε} (h : Waits t i due event) :
    i < t.length :=
  (List.getElem?_eq_some_iff.mp h.1).1

theorem Waits.lt_of_take {t : Trace ε} {i j due : Nat} {event : ε}
    (h : Waits (t.take j) i due event) : i < j :=
  Nat.lt_of_lt_of_le h.lt_length (List.length_take_le j t)

/-- At most one registration of an event waits. -/
theorem Waits.unique {t : Trace ε} {i i' due due' : Nat} {event : ε}
    (h : Waits t i due event) (h' : Waits t i' due' event) : i = i' ∧ due = due' := by
  rcases Nat.lt_trichotomy i i' with hlt | rfl | hgt
  · exact absurd rfl (h.2 i' _ hlt h'.1)
  · have := h.1.symm.trans h'.1
    simp only [Option.some.injEq, Note.set.injEq] at this
    exact ⟨rfl, this.1⟩
  · exact absurd rfl (h'.2 i _ hgt h.1)

theorem Ends.set {t : Trace ε} {x : Note ε} {j i due : Nat} (h : Ends t j x i due) :
    t[i]? = some (.set due x.event) := by
  have := h.2.1
  rwa [List.getElem?_take_of_lt h.2.lt_of_take] at this

theorem Ends.not_later {t : Trace ε} {x : Note ε} {i j k due due' : Nat} (h : Ends t j x i due)
    (hjk : j < k) : ¬ Waits (t.take k) i due' x.event := by
  intro hk
  refine hk.2 j x h.2.lt_of_take ?_ rfl
  rw [List.getElem?_take_of_lt hjk]
  exact h.1

/-- The waiting of a registration ends once. -/
theorem Ends.unique {t : Trace ε} {x y : Note ε} {i j k due due' : Nat}
    (hx : Ends t j x i due) (hy : Ends t k y i due') : j = k ∧ x = y := by
  have same : x.event = y.event :=
    (Note.set.inj (Option.some.inj (hx.set.symm.trans hy.set))).2
  rcases Nat.lt_trichotomy j k with hlt | rfl | hgt
  · exact absurd (same ▸ hy.2) (hx.not_later hlt)
  · exact ⟨rfl, Option.some.inj (hx.1.symm.trans hy.1)⟩
  · exact absurd (same ▸ hx.2) (hy.not_later hgt)

theorem Serves.unique {t : Trace ε} {i j k due due' : Nat} (hj : Serves t j i due)
    (hk : Serves t k i due') : j = k := by
  obtain ⟨now, event, hj⟩ := hj
  obtain ⟨now', event', hk⟩ := hk
  exact (hj.unique hk).1

theorem Serves.not_withdrawn {t : Trace ε} {i j due : Nat} (hj : Serves t j i due) :
    ¬ Withdrawn t i := by
  obtain ⟨now, event, hj⟩ := hj
  rintro ⟨k, y, due', hquiet, hk⟩
  obtain ⟨-, rfl⟩ := hj.unique hk
  exact absurd hquiet (by simp [Note.isFire])

/-! ## A trace and one more note -/

theorem getElem?_snoc {t : Trace ε} {x y : Note ε} {j : Nat} :
    (t ++ [x])[j]? = some y ↔ t[j]? = some y ∨ j = t.length ∧ x = y := by
  rcases Nat.lt_trichotomy j t.length with hlt | rfl | hgt
  · rw [List.getElem?_append_left hlt]
    simp [Nat.ne_of_lt hlt]
  · simp
  · have outside : t[j]? = none := List.getElem?_eq_none (Nat.le_of_lt hgt)
    have outside' : (t ++ [x])[j]? = none :=
      List.getElem?_eq_none (by simpa using Nat.succ_le_of_lt hgt)
    simp [outside, outside', Nat.ne_of_gt hgt]

theorem waits_snoc {t : Trace ε} {x : Note ε} {i due : Nat} {event : ε} :
    Waits (t ++ [x]) i due event ↔
      i = t.length ∧ x = .set due event ∨ Waits t i due event ∧ x.event ≠ event := by
  unfold Waits
  constructor
  · rintro ⟨hi, hlater⟩
    rcases getElem?_snoc.mp hi with hi | hnew
    · have hlt := (List.getElem?_eq_some_iff.mp hi).1
      exact .inr ⟨⟨hi, fun k y hk hy => hlater k y hk (getElem?_snoc.mpr (.inl hy))⟩,
        hlater t.length x hlt (getElem?_snoc.mpr (.inr ⟨rfl, rfl⟩))⟩
    · exact .inl hnew
  · rintro (⟨rfl, rfl⟩ | ⟨⟨hi, hlater⟩, hx⟩)
    · refine ⟨getElem?_snoc.mpr (.inr ⟨rfl, rfl⟩), fun k y hk hy => ?_⟩
      have := (List.getElem?_eq_some_iff.mp hy).1
      rw [List.length_append, List.length_singleton] at this
      omega
    · refine ⟨getElem?_snoc.mpr (.inl hi), fun k y hk hy => ?_⟩
      rcases getElem?_snoc.mp hy with hy | ⟨-, rfl⟩
      · exact hlater k y hk hy
      · exact hx

theorem ends_snoc {t : Trace ε} {x y : Note ε} {j i due : Nat} :
    Ends (t ++ [x]) j y i due ↔
      Ends t j y i due ∨ j = t.length ∧ x = y ∧ Waits t i due y.event := by
  unfold Ends
  rw [getElem?_snoc]
  constructor
  · rintro ⟨hy | ⟨rfl, hxy⟩, hw⟩
    · have hj : j ≤ t.length := Nat.le_of_lt (List.getElem?_eq_some_iff.mp hy).1
      rw [List.take_append_of_le_length hj] at hw
      exact .inl ⟨hy, hw⟩
    · rw [List.take_left] at hw
      exact .inr ⟨rfl, hxy, hw⟩
  · rintro (⟨hy, hw⟩ | ⟨rfl, hxy, hw⟩)
    · have hj : j ≤ t.length := Nat.le_of_lt (List.getElem?_eq_some_iff.mp hy).1
      rw [List.take_append_of_le_length hj]
      exact ⟨.inl hy, hw⟩
    · rw [List.take_left]
      exact ⟨.inr ⟨rfl, hxy⟩, hw⟩

theorem serves_snoc {t : Trace ε} {x : Note ε} {j i due : Nat} :
    Serves (t ++ [x]) j i due ↔ Serves t j i due ∨
      j = t.length ∧ ∃ now event, x = .fire due now event ∧ Waits t i due event := by
  unfold Serves
  simp only [ends_snoc, exists_or]
  refine or_congr_right ⟨?_, ?_⟩
  · rintro ⟨now, event, hj, hx, hw⟩
    exact ⟨hj, now, event, hx, hw⟩
  · rintro ⟨hj, now, event, hx, hw⟩
    exact ⟨now, event, hj, hx, hw⟩

theorem Fair.snoc {t : Trace ε} (h : Fair t) {x : Note ε}
    (hx : ∀ due now event, x = .fire due now event → due ≤ now ∧ ∃ i, Waits t i due event) :
    Fair (t ++ [x]) := by
  intro j due now event hj
  rcases getElem?_snoc.mp hj with hj | ⟨rfl, rfl⟩
  · obtain ⟨hle, i, hi⟩ := h j due now event hj
    exact ⟨hle, i, serves_snoc.mpr (.inl hi)⟩
  · obtain ⟨hle, i, hi⟩ := hx due now event rfl
    exact ⟨hle, i, serves_snoc.mpr (.inr ⟨rfl, now, event, rfl, hi⟩)⟩

/-! ## What becomes of a registration -/

/-- A registration waits, or some note ended its waiting. -/
theorem fate {t : Trace ε} {i due : Nat} {event : ε} (h : t[i]? = some (.set due event)) :
    Waits t i due event ∨ ∃ j x, Ends t j x i due := by
  -- Only the newest note can end the waiting that the notes before it left.
  induction t using List.reverseRecOn with
  | nil => exact absurd h (by simp)
  | append_singleton t x ih =>
    rcases getElem?_snoc.mp h with hi | hnew
    · rcases ih hi with hw | ⟨j, y, hy⟩
      · by_cases hx : x.event = event
        · exact .inr ⟨t.length, x, ends_snoc.mpr (.inr ⟨rfl, rfl, hx ▸ hw⟩)⟩
        · exact .inl (waits_snoc.mpr (.inr ⟨hw, hx⟩))
      · exact .inr ⟨j, y, ends_snoc.mpr (.inl hy)⟩
    · exact .inl (waits_snoc.mpr (.inl hnew))

/-- In a fair trace a registration that neither waits nor was withdrawn has been served. -/
theorem Fair.served {t : Trace ε} (hfair : Fair t) {i due : Nat} {event : ε}
    (h : t[i]? = some (.set due event)) (hw : ¬ Waits t i due event) (hgone : ¬ Withdrawn t i) :
    ∃ j, Serves t j i due := by
  rcases fate h with h | ⟨j, x, hx⟩
  · exact absurd h hw
  · cases x with
    | fire d now e =>
      -- What fired is the alarm of the one registration that waited for the event.
      obtain ⟨-, i', now', e', hx'⟩ := hfair j d now e hx.1
      cases Option.some.inj (hx.1.symm.trans hx'.1)
      obtain ⟨rfl, rfl⟩ := hx.2.unique hx'.2
      exact ⟨j, now, e, hx⟩
    | set d e => exact absurd ⟨j, _, due, rfl, hx⟩ hgone
    | cancel e => exact absurd ⟨j, _, due, rfl, hx⟩ hgone

/-- The registration at a place that waits for cycle `due` has the number `order`. -/
def Pends (t : Trace ε) (due order : Nat) (event : ε) : Prop :=
  ∃ i, Waits t i due event ∧ (t.take i).countP Note.isSet = order

theorem pends_snoc {t : Trace ε} {x : Note ε} {due order : Nat} {event : ε} :
    Pends (t ++ [x]) due order event ↔ x = .set due event ∧ t.countP Note.isSet = order ∨
      Pends t due order event ∧ x.event ≠ event := by
  unfold Pends
  simp only [waits_snoc]
  constructor
  · rintro ⟨i, ⟨rfl, hx⟩ | ⟨hw, hx⟩, hcount⟩
    · rw [List.take_left] at hcount
      exact .inl ⟨hx, hcount⟩
    · rw [List.take_append_of_le_length (Nat.le_of_lt hw.lt_length)] at hcount
      exact .inr ⟨⟨i, hw, hcount⟩, hx⟩
  · rintro (⟨hx, hcount⟩ | ⟨⟨i, hw, hcount⟩, hx⟩)
    · refine ⟨t.length, .inl ⟨rfl, hx⟩, ?_⟩
      rw [List.take_left]
      exact hcount
    · refine ⟨i, .inr ⟨hw, hx⟩, ?_⟩
      rw [List.take_append_of_le_length (Nat.le_of_lt hw.lt_length)]
      exact hcount

theorem pends_snoc_quiet {t : Trace ε} {x : Note ε} (hx : x.isSet = false) {due order : Nat}
    {event : ε} :
    Pends (t ++ [x]) due order event ↔ Pends t due order event ∧ x.event ≠ event := by
  rw [pends_snoc, or_iff_right]
  rintro ⟨rfl, -⟩
  exact absurd hx (by simp [Note.isSet])

/-! ## The history of a clock -/

/-- The first entry of the queue, when it is due, is what `popDue` hands out. -/
theorem popDue_eq_some {c c' : Clock ε} {alarm : Alarm ε} (h : c.popDue = some (alarm, c')) :
    ∃ e rest, c.queue = e :: rest ∧ e.due ≤ c.now ∧ alarm = ⟨e.due, e.event⟩ ∧
      c' = { c with queue := rest } := by
  unfold Clock.popDue at h
  split at h
  · exact absurd h (by simp)
  · next e rest hq =>
    split at h
    · next hdue =>
      cases h
      exact ⟨e, rest, hq, hdue, rfl, rfl⟩
    · exact absurd h (by simp)

variable [DecidableEq ε]

/-- The clocks that the operations lead to from a fresh one, each with its trace. -/
inductive History : Clock ε → Trace ε → Prop where
  | start {now : Nat} {c : Clock ε} : start now = .ok c → History c []
  | setAlarm {c : Clock ε} {t : Trace ε} {due : Nat} (event : ε) :
      History c t → due ≤ Cycle.last →
        History (c.setAlarm due event) (t ++ [.set (c.base + due) event])
  | cancel {c : Clock ε} {t : Trace ε} (event : ε) :
      History c t → History (c.cancel event) (t ++ [.cancel event])
  | popDue {c c' : Clock ε} {t : Trace ε} {alarm : Alarm ε} :
      History c t → c.popDue = some (alarm, c') →
        History c' (t ++ [.fire (c.base + alarm.due) c.elapsed alarm.event])
  | rebase {c : Clock ε} {t : Trace ε} : History c t → History c.rebase t
  | pass {c : Clock ε} {t : Trace ε} {cycles : Nat} :
      History c t → c.now + cycles ≤ Cycle.clockMax →
        History { c with now := c.now + cycles } t

theorem History.reachable {c : Clock ε} {t : Trace ε} (h : History c t) : c.Reachable := by
  induction h with
  | start h => exact .start h
  | setAlarm event _ hdue ih => exact .setAlarm event ih hdue
  | cancel event _ ih => exact .cancel event ih
  | popDue _ hpop ih => exact .popDue ih hpop
  | rebase _ ih => exact .rebase ih
  | pass _ hroom ih => exact .pass ih hroom

/-- Every clock that can be reached has a history. -/
theorem Reachable.exists_history {c : Clock ε} (h : c.Reachable) : ∃ t, History c t := by
  induction h with
  | start h => exact ⟨[], .start h⟩
  | setAlarm event _ hdue ih => exact ih.imp' _ fun t ht => ht.setAlarm event hdue
  | cancel event _ ih => exact ih.imp' _ fun t ht => ht.cancel event
  | popDue _ hpop ih => exact ih.imp' _ fun t ht => ht.popDue hpop
  | rebase _ ih => exact ih.imp fun t ht => ht.rebase
  | pass _ hroom ih => exact ih.imp fun t ht => ht.pass hroom

theorem History.wellFormed {c : Clock ε} {t : Trace ε} (h : History c t) : c.WellFormed :=
  h.reachable.wellFormed

/-! ## The queue is what waits -/

theorem History.nextOrder_eq {c : Clock ε} {t : Trace ε} (h : History c t) :
    c.nextOrder = t.countP Note.isSet := by
  induction h with
  | start h =>
    unfold Clock.start at h
    split at h
    · cases h; rfl
    · exact absurd h (by simp)
  | @setAlarm c t due event _ _ ih =>
    rw [List.countP_append, ← ih]
    rfl
  | @cancel c t event _ ih =>
    rw [List.countP_append, ← ih]
    rfl
  | @popDue c c' t alarm _ hpop ih =>
    obtain ⟨e, rest, -, -, -, rfl⟩ := popDue_eq_some hpop
    rw [List.countP_append, ← ih]
    rfl
  | rebase _ ih => rw [nextOrder_rebase, ih]
  | pass _ _ ih => exact ih

theorem mem_queue_setAlarm {c : Clock ε} {due : Nat} {event : ε} {e : Entry ε} :
    e ∈ (c.setAlarm due event).queue ↔
      e = ⟨due, c.nextOrder, event⟩ ∨ e ∈ c.queue ∧ event ≠ e.event := by
  show e ∈ insertEntry _ (c.queue.filter _) ↔ _
  rw [mem_insertEntry, List.mem_filter, decide_eq_true_iff, ne_comm]
  rfl

theorem mem_queue_cancel {c : Clock ε} {event : ε} {e : Entry ε} :
    e ∈ (c.cancel event).queue ↔ e ∈ c.queue ∧ event ≠ e.event := by
  show e ∈ c.queue.filter _ ↔ _
  rw [List.mem_filter, decide_eq_true_iff, ne_comm]

omit [DecidableEq ε] in
theorem WellFormed.mem_queue_popDue {c c' : Clock ε} (hc : c.WellFormed) {alarm : Alarm ε}
    (h : c.popDue = some (alarm, c')) {e : Entry ε} :
    e ∈ c'.queue ↔ e ∈ c.queue ∧ alarm.event ≠ e.event := by
  obtain ⟨x, rest, hq, -, rfl, rfl⟩ := popDue_eq_some h
  have hnodup := hc.nodup
  rw [hq] at hnodup ⊢
  obtain ⟨hx, -⟩ := List.nodup_cons.mp hnodup
  constructor
  · exact fun he => ⟨.tail x he, fun heq => hx (List.mem_map.mpr ⟨e, he, heq.symm⟩)⟩
  · rintro ⟨he, hne⟩
    rcases List.mem_cons.mp he with rfl | he
    · exact absurd rfl hne
    · exact he

omit [DecidableEq ε] in
theorem base_rebase (c : Clock ε) : c.rebase.base = c.base + c.rebaseOffset := by
  unfold Clock.rebase
  simp only []
  split
  · next h => rw [h, Nat.add_zero]
  · rfl

omit [DecidableEq ε] in
/-- A rebase moves every alarm down by what it adds to the base. -/
theorem WellFormed.mem_queue_rebase {c : Clock ε} (hc : c.WellFormed) {e : Entry ε} :
    e ∈ c.rebase.queue ↔ ⟨e.due + c.rebaseOffset, e.order, e.event⟩ ∈ c.queue := by
  unfold Clock.rebase
  simp only []
  split
  · next h => rw [h]; rfl
  · rw [List.mem_map]
    constructor
    · rintro ⟨x, hx, rfl⟩
      have := hc.rebaseOffset_le_due hx
      rwa [Nat.sub_add_cancel this]
    · intro he
      exact ⟨_, he, by simp⟩

/-- The queue holds the registrations that wait, each numbered by those before it. -/
theorem History.mem_queue {c : Clock ε} {t : Trace ε} (h : History c t) (e : Entry ε) :
    e ∈ c.queue ↔ Pends t (c.base + e.due) e.order e.event := by
  induction h generalizing e with
  | start h =>
    unfold Clock.start at h
    split at h
    · cases h
      simp [Pends, Waits]
    · exact absurd h (by simp)
  | @setAlarm c t due event hc _ ih =>
    have new : e = ⟨due, c.nextOrder, event⟩ ↔
        Note.set (c.base + due) event = .set (c.base + e.due) e.event ∧
          t.countP Note.isSet = e.order := by
      rw [← hc.nextOrder_eq]
      cases e
      simp only [Entry.mk.injEq, Note.set.injEq, Nat.add_left_cancel_iff]
      grind
    rw [mem_queue_setAlarm, ih, new, pends_snoc]
    rfl
  | @cancel c t event _ ih =>
    rw [mem_queue_cancel, ih, pends_snoc_quiet rfl]
    rfl
  | @popDue c c' t alarm hc hpop ih =>
    rw [hc.wellFormed.mem_queue_popDue hpop, ih, pends_snoc_quiet rfl]
    obtain ⟨x, rest, -, -, -, rfl⟩ := popDue_eq_some hpop
    rfl
  | @rebase c t hc ih =>
    rw [hc.wellFormed.mem_queue_rebase, ih, base_rebase, Nat.add_assoc,
      Nat.add_comm c.rebaseOffset]
  | pass _ _ ih => exact ih e

/-- No alarm that waits was left below the base. -/
theorem History.base_le {c : Clock ε} {t : Trace ε} (h : History c t) {i due : Nat} {event : ε}
    (hw : Waits t i due event) : c.base ≤ due := by
  induction h with
  | start _ => exact absurd hw.lt_length (Nat.not_lt_zero i)
  | setAlarm event _ _ ih =>
    rcases waits_snoc.mp hw with ⟨-, hx⟩ | ⟨hw, -⟩
    · obtain ⟨rfl, -⟩ := Note.set.inj hx
      exact Nat.le_add_right ..
    · exact ih hw
  | cancel event _ ih =>
    rcases waits_snoc.mp hw with ⟨-, hx⟩ | ⟨hw, -⟩
    · exact absurd hx (by simp)
    · exact ih hw
  | popDue _ hpop ih =>
    obtain ⟨e, rest, -, -, -, rfl⟩ := popDue_eq_some hpop
    rcases waits_snoc.mp hw with ⟨-, hx⟩ | ⟨hw, -⟩
    · exact absurd hx (by simp)
    · exact ih hw
  | @rebase c t hc ih =>
    -- The offset is no more than the earliest alarm allows.
    have hle := ih hw
    have hmem := (hc.mem_queue ⟨due - c.base, _, event⟩).mpr
      ⟨i, (Nat.add_sub_cancel' hle).symm ▸ hw, rfl⟩
    have := hc.wellFormed.rebaseOffset_le_due hmem
    rw [base_rebase]
    simp only [] at this
    omega
  | pass _ _ ih => exact ih hw

theorem History.entry_of_waits {c : Clock ε} {t : Trace ε} (h : History c t) {i due : Nat}
    {event : ε} (hw : Waits t i due event) :
    ∃ e ∈ c.queue, c.base + e.due = due ∧ e.event = event ∧
      e.order = (t.take i).countP Note.isSet := by
  have hle := Nat.add_sub_cancel' (h.base_le hw)
  exact ⟨⟨due - c.base, _, event⟩, (h.mem_queue _).mpr ⟨i, hle.symm ▸ hw, rfl⟩, hle, rfl, rfl⟩

/-- Every alarm that was handed out waited and was due. -/
theorem History.fair {c : Clock ε} {t : Trace ε} (h : History c t) : Fair t := by
  induction h with
  | start _ => exact fun j due now event hj => absurd hj (by simp)
  | setAlarm event _ _ ih => exact ih.snoc fun _ _ _ hx => absurd hx (by simp)
  | cancel event _ ih => exact ih.snoc fun _ _ _ hx => absurd hx (by simp)
  | @popDue c c' t alarm hc hpop ih =>
    obtain ⟨e, rest, hq, hdue, rfl, -⟩ := popDue_eq_some hpop
    refine ih.snoc fun due now event hx => ?_
    obtain ⟨rfl, rfl, rfl⟩ := Note.fire.inj hx
    obtain ⟨i, hi, -⟩ := (hc.mem_queue e).mp (hq ▸ .head rest)
    exact ⟨Nat.add_le_add_left hdue c.base, i, hi⟩
  | rebase _ ih => exact ih
  | pass _ _ ih => exact ih

theorem History.now_le {c : Clock ε} {t : Trace ε} (h : History c t) {j due now : Nat}
    {event : ε} (hj : t[j]? = some (.fire due now event)) : now ≤ c.elapsed := by
  induction h with
  | start _ => exact absurd hj (by simp)
  | setAlarm event _ _ ih =>
    rcases getElem?_snoc.mp hj with hj | ⟨-, hx⟩
    · exact ih hj
    · exact absurd hx (by simp)
  | cancel event _ ih =>
    rcases getElem?_snoc.mp hj with hj | ⟨-, hx⟩
    · exact ih hj
    · exact absurd hx (by simp)
  | popDue _ hpop ih =>
    obtain ⟨e, rest, -, -, -, rfl⟩ := popDue_eq_some hpop
    rcases getElem?_snoc.mp hj with hj | ⟨-, hx⟩
    · exact ih hj
    · obtain ⟨-, rfl, -⟩ := Note.fire.inj hx
      exact Nat.le_refl _
  | rebase _ ih =>
    rw [elapsed_rebase]
    exact ih hj
  | pass _ _ ih =>
    have := ih hj
    unfold elapsed at *
    simp only []
    omega

/-- Where no alarm is due, every registration that came due was served once or withdrawn, and
nothing else was served. -/
theorem History.served {c : Clock ε} {t : Trace ε} (h : History c t)
    (hnone : ∀ e ∈ c.queue, c.now < e.due) {i due : Nat} {event : ε}
    (hi : t[i]? = some (.set due event)) :
    (due ≤ c.elapsed ∧ ¬ Withdrawn t i → ∃! j, Serves t j i due) ∧
      ((∃ j, Serves t j i due) → due ≤ c.elapsed ∧ ¬ Withdrawn t i) := by
  constructor
  · rintro ⟨hdue, hgone⟩
    -- What waits is in the queue, and nothing there is due.
    have past : ¬ Waits t i due event := by
      intro hw
      obtain ⟨e, he, rfl, -, -⟩ := h.entry_of_waits hw
      have := hnone e he
      unfold elapsed at hdue
      omega
    obtain ⟨j, hj⟩ := h.fair.served hi past hgone
    exact ⟨j, hj, fun k hk => hk.unique hj⟩
  · rintro ⟨j, hj⟩
    refine ⟨?_, hj.not_withdrawn⟩
    obtain ⟨now, e, hx, -⟩ := hj
    exact Nat.le_trans (h.fair j due now e hx).1 (h.now_le hx)

end C64.Clock
