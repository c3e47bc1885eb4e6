import C64.Clock
import C64.Proofs.Fault

/-!
# The order of the queue

What is true of a clock between two operations, whatever it went through: the queue stands in
firing order, every event waits at most once, and the counter leaves the headroom above
`Cycle.clockMax` to the alarms. `WellFormed` says so, and every operation keeps it.

`Reachable` lists the operations. An advance is not one of them: it is made of smaller ones
(alarms taken out, whatever their handlers do, a rebase, the counter moved), and
`Reachable.advanceWithin` says that a clock which went through an advance is reachable, for every
handler that leads from reachable clocks to reachable clocks, and that what the handler keeps of
its state is true behind the advance.
-/

namespace C64

/-- The cycles an alarm can lie above the highest counter. -/
def Cycle.headroom : Nat := Cycle.last - Cycle.clockMax

namespace Clock

variable {ε σ : Type}

/-! ## Firing order -/

/-- Whether an alarm fires before another: its cycle comes first or, for the same cycle, it was
set first. -/
def Entry.Before (x y : Entry ε) : Prop := x.due < y.due ∨ x.due = y.due ∧ x.order < y.order

theorem Entry.Before.due_le {x y : Entry ε} (h : x.Before y) : x.due ≤ y.due := by
  rcases h with h | ⟨h, _⟩
  · exact Nat.le_of_lt h
  · exact Nat.le_of_eq h

theorem Entry.Before.trans {x y z : Entry ε} (hxy : x.Before y) (hyz : y.Before z) :
    x.Before z := by
  unfold Entry.Before at *
  omega

theorem insertEntry_perm (e : Entry ε) (queue : List (Entry ε)) :
    (insertEntry e queue).Perm (e :: queue) := by
  induction queue with
  | nil => exact List.Perm.refl _
  | cons x rest ih =>
    simp only [insertEntry]
    split
    · exact (ih.cons x).trans (List.Perm.swap e x rest)
    · exact List.Perm.refl _

/-- A new entry has the highest number, so it goes behind those for the same cycle. -/
theorem pairwise_insertEntry {e : Entry ε} {queue : List (Entry ε)}
    (hq : queue.Pairwise Entry.Before) (he : ∀ x ∈ queue, x.order < e.order) :
    (insertEntry e queue).Pairwise Entry.Before := by
  induction queue with
  | nil => simp [insertEntry]
  | cons x rest ih =>
    obtain ⟨hx, hrest⟩ := List.pairwise_cons.mp hq
    simp only [insertEntry]
    split
    -- The new entry goes further back; for the same cycle its number is the higher one.
    · next hle =>
      refine List.pairwise_cons.mpr ⟨fun y hy => ?_, ih hrest fun y hy => he y (.tail x hy)⟩
      rcases mem_insertEntry.mp hy with rfl | hy
      · have := he x (.head rest)
        unfold Entry.Before
        omega
      · exact hx y hy
    · next hgt =>
      have first : e.Before x := Or.inl (by omega)
      refine List.pairwise_cons.mpr ⟨fun y hy => ?_, hq⟩
      rcases List.mem_cons.mp hy with rfl | hy
      · exact first
      · exact first.trans (hx y hy)

/-! ## Well-formed clocks -/

/-- What every operation of the clock keeps. -/
structure WellFormed (c : Clock ε) : Prop where
  sorted : c.queue.Pairwise Entry.Before
  order_lt : ∀ e ∈ c.queue, e.order < c.nextOrder
  /-- Each event has at most one alarm. -/
  nodup : (c.queue.map (·.event)).Nodup
  /-- Every alarm that waits took a number of its own. -/
  length_le : c.queue.length ≤ c.nextOrder
  due_le : ∀ e ∈ c.queue, e.due ≤ Cycle.last
  now_le : c.now ≤ Cycle.clockMax

theorem wellFormed_empty {now : Nat} (h : now ≤ Cycle.clockMax) :
    (⟨now, 0, 0, 0, []⟩ : Clock ε).WellFormed :=
  ⟨.nil, by simp, .nil, Nat.le_refl _, by simp, h⟩

theorem start_wellFormed {now : Nat} {c : Clock ε} (h : start now = .ok c) : c.WellFormed := by
  unfold start at h
  split at h
  · next hn => cases h; exact wellFormed_empty hn
  · exact absurd h (by simp)

/-- A clock keeps its order when alarms are left out of its queue. -/
theorem WellFormed.sublist {c : Clock ε} (hc : c.WellFormed) {queue : List (Entry ε)}
    (h : queue.Sublist c.queue) : WellFormed { c with queue := queue } where
  sorted := hc.sorted.sublist h
  order_lt e he := hc.order_lt e (h.subset he)
  nodup := hc.nodup.sublist (h.map _)
  length_le := Nat.le_trans h.length_le hc.length_le
  due_le e he := hc.due_le e (h.subset he)
  now_le := hc.now_le

theorem WellFormed.pass {c : Clock ε} (hc : c.WellFormed) {now : Nat}
    (h : now ≤ Cycle.clockMax) : WellFormed { c with now := now } :=
  { hc with now_le := h }

theorem WellFormed.popDue {c c' : Clock ε} (hc : c.WellFormed) {alarm : Alarm ε}
    (h : c.popDue = some (alarm, c')) : c'.WellFormed := by
  unfold Clock.popDue at h
  split at h
  · exact absurd h (by simp)
  · next e rest hq =>
    split at h
    · cases h
      exact hc.sublist (hq ▸ List.sublist_cons_self e rest)
    · exact absurd h (by simp)

section Events

variable [DecidableEq ε]

theorem WellFormed.cancel {c : Clock ε} (hc : c.WellFormed) (event : ε) :
    (c.cancel event).WellFormed :=
  hc.sublist List.filter_sublist

theorem WellFormed.setAlarm {c : Clock ε} (hc : c.WellFormed) {due : Nat}
    (h : due ≤ Cycle.last) (event : ε) : (c.setAlarm due event).WellFormed := by
  have hcan := hc.cancel event
  have perm := insertEntry_perm ⟨due, c.nextOrder, event⟩ (c.cancel event).queue
  have fresh : event ∉ (c.cancel event).queue.map (·.event) := by simp [Clock.cancel]
  constructor
  · exact pairwise_insertEntry hcan.sorted hcan.order_lt
  · intro e he
    rcases mem_insertEntry.mp he with rfl | he
    · exact Nat.lt_succ_self _
    · exact Nat.lt_succ_of_lt (hcan.order_lt e he)
  · exact (perm.map (·.event)).nodup_iff.mpr (List.nodup_cons.mpr ⟨fresh, hcan.nodup⟩)
  · have := hcan.length_le
    show (insertEntry _ _).length ≤ c.nextOrder + 1
    rw [length_insertEntry]
    exact Nat.succ_le_succ this
  · intro e he
    rcases mem_insertEntry.mp he with rfl | he
    · exact h
    · exact hcan.due_le e he
  · exact hc.now_le

theorem add_le_last {now delay : Nat} (hn : now ≤ Cycle.clockMax)
    (hd : delay ≤ Cycle.headroom) : now + delay ≤ Cycle.last := by
  unfold Cycle.headroom Cycle.last Cycle.clockMax at *
  omega

/-- A sixteen-bit counter never counts down further than the headroom. -/
theorem count_le_headroom (count : UInt16) : count.toNat + 1 ≤ Cycle.headroom := by
  have := count.toNat_lt
  unfold Cycle.headroom Cycle.last Cycle.clockMax
  omega

/-- An alarm that is not further ahead than the headroom can be set at any time. -/
theorem WellFormed.setAlarmIn_eq [ToString ε] {c : Clock ε} (hc : c.WellFormed) {delay : Nat}
    (h : delay ≤ Cycle.headroom) (event : ε) :
    c.setAlarmIn delay event = .ok (c.now + delay, c.setAlarm (c.now + delay) event) := by
  unfold Clock.setAlarmIn
  simp only []
  rw [if_pos (add_le_last hc.now_le h)]

end Events

/-! ## Rebasing -/

/-- The earliest alarm bounds the offset, and the queue begins with it. -/
theorem WellFormed.rebaseOffset_le_due {c : Clock ε} (hc : c.WellFormed) {e : Entry ε}
    (he : e ∈ c.queue) : c.rebaseOffset ≤ e.due := by
  unfold rebaseOffset nextDue?
  cases hq : c.queue with
  | nil => rw [hq] at he; exact absurd he (by simp)
  | cons x rest =>
    have hs := hc.sorted
    rw [hq] at he hs
    refine Nat.le_trans (Nat.min_le_left x.due c.now) ?_
    rcases List.mem_cons.mp he with rfl | he
    · exact Nat.le_refl _
    · exact ((List.pairwise_cons.mp hs).1 e he).due_le

theorem WellFormed.rebase {c : Clock ε} (hc : c.WellFormed) : c.rebase.WellFormed := by
  unfold Clock.rebase
  simp only []
  split
  · exact hc
  · constructor
    · refine List.pairwise_map.mpr (hc.sorted.imp_of_mem fun {x y} hx hy h => ?_)
      have := hc.rebaseOffset_le_due hx
      have := hc.rebaseOffset_le_due hy
      unfold Entry.Before at *
      simp only []
      omega
    · intro e he
      obtain ⟨x, hx, rfl⟩ := List.mem_map.mp he
      exact hc.order_lt x hx
    · simpa [List.map_map, Function.comp_def] using hc.nodup
    · simpa using hc.length_le
    · intro e he
      obtain ⟨x, hx, rfl⟩ := List.mem_map.mp he
      exact Nat.le_trans (Nat.sub_le _ _) (hc.due_le x hx)
    · exact Nat.le_trans (Nat.sub_le _ _) hc.now_le

theorem length_rebase (c : Clock ε) : c.rebase.queue.length = c.queue.length := by
  unfold Clock.rebase
  simp only []
  split
  · rfl
  · exact List.length_map _

theorem nextOrder_rebase (c : Clock ε) : c.rebase.nextOrder = c.nextOrder := by
  unfold Clock.rebase
  simp only []
  split <;> rfl

/-- With no alarm overdue, rebasing brings the counter down to zero. -/
theorem rebase_now {c : Clock ε} (h : ∀ e ∈ c.queue, c.now < e.due) : c.rebase.now = 0 := by
  have offset : c.rebaseOffset = c.now := by
    unfold rebaseOffset nextDue?
    cases hq : c.queue with
    | nil => rfl
    | cons x rest =>
      have := h x (by rw [hq]; exact .head rest)
      show min x.due c.now = c.now
      omega
  unfold Clock.rebase
  rw [offset]
  simp only []
  split
  · next h0 => exact h0
  · exact Nat.sub_self _

/-! ## The clocks a run leads to -/

variable [DecidableEq ε]

/-- The clocks that the operations lead to from a fresh one. -/
inductive Reachable : Clock ε → Prop where
  | start {now : Nat} {c : Clock ε} : start now = .ok c → Reachable c
  | setAlarm {c : Clock ε} {due : Nat} (event : ε) :
      Reachable c → due ≤ Cycle.last → Reachable (c.setAlarm due event)
  | cancel {c : Clock ε} (event : ε) : Reachable c → Reachable (c.cancel event)
  | popDue {c c' : Clock ε} {alarm : Alarm ε} :
      Reachable c → c.popDue = some (alarm, c') → Reachable c'
  | rebase {c : Clock ε} : Reachable c → Reachable c.rebase
  | pass {c : Clock ε} {cycles : Nat} :
      Reachable c → c.now + cycles ≤ Cycle.clockMax →
        Reachable { c with now := c.now + cycles }

theorem Reachable.wellFormed {c : Clock ε} (h : c.Reachable) : c.WellFormed := by
  induction h with
  | start h => exact start_wellFormed h
  | setAlarm event _ hdue ih => exact ih.setAlarm hdue event
  | cancel event _ ih => exact ih.cancel event
  | popDue _ hpop ih => exact ih.popDue hpop
  | rebase _ ih => exact ih.rebase
  | pass _ hroom ih => exact ih.pass hroom

theorem Reachable.setAlarmIn [ToString ε] {c c' : Clock ε} (hc : c.Reachable) {delay due : Nat}
    {event : ε} (h : c.setAlarmIn delay event = .ok (due, c')) : c'.Reachable := by
  unfold Clock.setAlarmIn at h
  simp only [] at h
  split at h
  · next hle => cases h; exact hc.setAlarm event hle
  · exact absurd h (by simp)

/-- A handler leads from reachable clocks to reachable clocks, and from good states to good
ones. -/
def Handler.Lawful (handle : Handler ε σ) (Good : σ → Prop) : Prop :=
  ∀ alarm c s c' s', Reachable c → Good s → handle alarm c s = .ok (c', s') →
    Reachable c' ∧ Good s'

theorem Reachable.fireDue {handle : Handler ε σ} {Good : σ → Prop} (hh : handle.Lawful Good)
    {budget : Nat} {c c' : Clock ε} {s s' : σ} (hc : c.Reachable) (hs : Good s)
    (h : fireDue handle budget c s = .ok (c', s')) : c'.Reachable ∧ Good s' := by
  induction budget generalizing c s with
  | zero =>
    unfold Clock.fireDue at h
    split at h
    · cases h; exact ⟨hc, hs⟩
    · exact absurd h (by simp)
  | succ budget ih =>
    unfold Clock.fireDue at h
    split at h
    · cases h; exact ⟨hc, hs⟩
    · next alarm c₁ hpop =>
      obtain ⟨⟨c₂, s₂⟩, hstep, hrest⟩ := bind_eq_ok.mp h
      obtain ⟨hreach, hgood⟩ := hh alarm c₁ s c₂ s₂ (hc.popDue hpop) hs hstep
      exact ih hreach hgood hrest

theorem Reachable.makeRoom {handle : Handler ε σ} {Good : σ → Prop} (hh : handle.Lawful Good)
    {budget cycles : Nat} {c c' : Clock ε} {s s' : σ} (hc : c.Reachable) (hs : Good s)
    (h : makeRoom handle budget cycles c s = .ok (c', s')) :
    c'.Reachable ∧ Good s' ∧ c'.now + cycles ≤ Cycle.clockMax := by
  unfold Clock.makeRoom at h
  split at h
  · next hle =>
    cases h
    have := hc.wellFormed.now_le
    exact ⟨hc, hs, by omega⟩
  · obtain ⟨⟨c₁, s₁⟩, hfire, hrest⟩ := bind_eq_ok.mp h
    obtain ⟨hreach, hgood⟩ := hc.fireDue hh hs hfire
    simp only [] at hrest
    split at hrest
    · next hle =>
      cases hrest
      have := hreach.rebase.wellFormed.now_le
      exact ⟨hreach.rebase, hgood, by omega⟩
    · exact absurd hrest (by simp)

theorem Reachable.advanceWithin {handle : Handler ε σ} {Good : σ → Prop}
    (hh : handle.Lawful Good) {budget cycles : Nat} {c c' : Clock ε} {s s' : σ}
    (hc : c.Reachable) (hs : Good s)
    (h : advanceWithin budget handle cycles c s = .ok (c', s')) : c'.Reachable ∧ Good s' := by
  obtain ⟨⟨c₁, s₁⟩, hroom, hfire⟩ := bind_eq_ok.mp h
  obtain ⟨hreach, hgood, hle⟩ := hc.makeRoom hh hs hroom
  exact (hreach.pass hle).fireDue hh hgood hfire

end Clock

end C64
