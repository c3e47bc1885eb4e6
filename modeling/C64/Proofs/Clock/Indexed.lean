import C64.Proofs.Clock.Registry

/-!
# Alarms in two maps

A scheduler that keeps every alarm twice: in a queue, which is a map from keys to events whose
least key fires next, and in an index from events to their keys, which finds the alarm of an event.
Every operation that sets, moves or takes out an alarm works on both maps, and a rebase rewrites
the keys of the one and the values of the other.

`Indexed.Inverse` says that the two are inverse to each other. `two_maps_one_queue` is the result:
whatever a client does, its handlers included, the maps stay inverse, and the answers are those of
a single map and those of the machine clock.
-/

namespace C64

variable {ε σ : Type}

instance : Std.LawfulEqCmp (compare : Alarm.Key → Alarm.Key → Ordering) where
  eq_of_compare := compare_eq_iff_eq.mp

/-- What a map made of a list without twin keys holds. -/
theorem Alarm.Key.getElem?_ofList {e : ε} {k : Alarm.Key} {l : List (Alarm.Key × ε)}
    (apart : l.Pairwise (·.1 ≠ ·.1)) :
    (Std.TreeMap.ofList l)[k]? = some e ↔ (k, e) ∈ l := by
  have found : ∀ e, (k, e) ∈ l → (Std.TreeMap.ofList l)[k]? = some e := fun e here =>
    Std.TreeMap.getElem?_ofList_of_mem (compare_eq_iff_eq.mpr rfl)
      (apart.imp fun apart same => apart (compare_eq_iff_eq.mp same)) here
  refine ⟨fun here => ?_, found e⟩
  by_cases listed : k ∈ l.map Prod.fst
  · obtain ⟨⟨_, e'⟩, here', rfl⟩ := List.mem_map.mp listed
    rwa [← Option.some.inj ((found e' here').symm.trans here)]
  · rw [Std.TreeMap.getElem?_ofList_of_contains_eq_false (by simpa using listed)] at here
    cases here

/-- A cycle counter with its alarms in two maps. -/
structure Indexed (ε : Type) [BEq ε] [Hashable ε] where
  now : Nat
  queue : Std.TreeMap Alarm.Key ε
  pending : Std.HashMap ε Alarm.Key
  nextOrder : Nat
  base : Nat
  rebases : Nat

namespace Indexed

variable [BEq ε] [Hashable ε]

def start (now : Nat) : Except Fault (Indexed ε) :=
  if now ≤ Cycle.clockMax then .ok ⟨now, ∅, ∅, 0, 0, 0⟩ else .error (.clockAboveMax now)

def due? (i : Indexed ε) (event : ε) : Option Nat := i.pending[event]?.map (·.due)

def nextDue? (i : Indexed ε) : Option Nat := i.queue.minKey?.map (·.due)

/-- Takes the alarm of an event out of both maps and answers whether there was one. -/
def cancel (i : Indexed ε) (event : ε) : Bool × Indexed ε :=
  match i.pending[event]? with
  | some key =>
    (true, { i with queue := i.queue.erase key, pending := i.pending.erase event })
  | none => (false, i)

def setAlarm (i : Indexed ε) (due : Nat) (event : ε) : Indexed ε :=
  let i := (i.cancel event).2
  let key := ⟨due, i.nextOrder⟩
  { i with
    nextOrder := i.nextOrder + 1
    queue := i.queue.insert key event
    pending := i.pending.insert event key }

def setAlarmIn [ToString ε] (i : Indexed ε) (delay : Nat) (event : ε) :
    Except Fault (Nat × Indexed ε) :=
  let due := i.now + delay
  if due ≤ Cycle.last then .ok (due, i.setAlarm due event)
  else .error (.triggerOverflow (toString event) i.now delay)

/-- Takes out the alarm with the least key, if it is due. -/
def popDue (i : Indexed ε) : Option (Alarm ε × Indexed ε) := do
  let key ← i.queue.minKey?
  if i.now < key.due then none
  else
    let event ← i.queue[key]?
    return (⟨key.due, event⟩,
      { i with queue := i.queue.erase key, pending := i.pending.erase event })

def rebaseOffset (i : Indexed ε) : Nat :=
  match i.nextDue? with
  | none => i.now
  | some due => min due i.now

/-- Moves the counter and every alarm down, in both maps, and answers how far. -/
def rebase (i : Indexed ε) : Nat × Indexed ε :=
  let offset := i.rebaseOffset
  if offset = 0 then (0, i)
  else (offset,
    { i with
      now := i.now - offset
      queue := .ofList (i.queue.toList.map fun x => (x.1.down offset, x.2))
      pending := i.pending.map fun _ => Alarm.Key.down offset
      base := i.base + offset
      rebases := i.rebases + 1 })

instance [ToString ε] : Scheduler (Indexed ε) ε where
  start := start
  now := now
  elapsed i := i.base + i.now
  rebases := rebases
  pending i := i.queue.size
  nextDue? := nextDue?
  due? := due?
  isPending i event := i.pending.contains event
  cyclesUntil? i event := (i.due? event).map (· - i.now)
  setAlarm := setAlarm
  setAlarmIn := setAlarmIn
  cancel := cancel
  popDue := popDue
  rebase := rebase
  pass i cycles := { i with now := i.now + cycles }

/-! ## Maps that are inverse -/

/-- The queue holds an event under a key exactly if the index holds the key under the event; no
two alarms have the same number, and the next number is new. -/
structure Inverse (i : Indexed ε) : Prop where
  inverse (event : ε) (key : Alarm.Key) : i.pending[event]? = some key ↔ i.queue[key]? = some event
  distinct {event event' : ε} {key key' : Alarm.Key} : i.pending[event]? = some key →
    i.pending[event']? = some key' → key.order = key'.order → event = event'
  order_lt {event : ε} {key : Alarm.Key} : i.pending[event]? = some key → key.order < i.nextOrder

/-- The alarm of an event waits under a key. -/
def Holds (i : Indexed ε) (event : ε) (key : Alarm.Key) : Prop := i.queue[key]? = some event

/-- Both maps hold what the single map holds. -/
structure Mirrored (i : Indexed ε) (r : Registry ε) : Prop where
  mirrors : r.Mirrors i.now i.base i.rebases i.nextOrder i.Holds
  indexed (event : ε) : i.pending[event]? = r.keys[event]?

theorem Mirrored.inverse {i : Indexed ε} {r : Registry ε} (h : i.Mirrored r) : i.Inverse where
  inverse event key := by
    rw [h.indexed]
    exact (h.mirrors.holds event key).symm
  distinct held held' := h.mirrors.sound.distinct ((h.indexed _).symm.trans held)
    ((h.indexed _).symm.trans held')
  order_lt held := by
    rw [h.mirrors.nextOrder]
    exact h.mirrors.sound.order_lt ((h.indexed _).symm.trans held)

/-! ## The operations on both maps -/

section Lawful

variable [LawfulBEq ε] {i : Indexed ε} {r : Registry ε} {event e : ε} {key k : Alarm.Key}

/-- The alarm of one event is taken out of both maps: its key leaves the queue. -/
theorem Mirrored.erase (h : i.Mirrored r) (held : i.pending[event]? = some key) :
    ({ i with queue := i.queue.erase key, pending := i.pending.erase event } : Indexed ε).Mirrored
      { r with keys := r.keys.erase event } where
  mirrors := h.mirrors.erase event fun e k => by
    simp only [Holds, Std.TreeMap.getElem?_erase, compare_eq_iff_eq]
    -- The key stands for the event, so leaving out the one is leaving out the other.
    have same : i.queue[k]? = some e → (key = k ↔ event = e) := by
      intro here
      constructor
      · rintro rfl
        exact Option.some.inj (((h.inverse.inverse _ _).mp held).symm.trans here)
      · rintro rfl
        exact Option.some.inj (held.symm.trans ((h.inverse.inverse _ _).mpr here))
    by_cases hk : key = k
    · simp only [hk, if_true, reduceCtorEq, false_iff, not_and, not_not]
      exact fun here => (same here).mp hk
    · simp only [hk, if_false, iff_self_and]
      exact fun here he => hk ((same here).mpr he)
  indexed e := by
    rw [Std.HashMap.getElem?_erase, Std.HashMap.getElem?_erase, h.indexed]

theorem Mirrored.contains (h : i.Mirrored r) (event : ε) :
    i.pending.contains event = r.keys.contains event := by
  rw [Std.HashMap.contains_eq_isSome_getElem?, Std.HashMap.contains_eq_isSome_getElem?, h.indexed]

theorem Mirrored.cancel (h : i.Mirrored r) (event : ε) :
    Beside Mirrored (i.cancel event) (r.cancel event) := by
  unfold Indexed.cancel Registry.cancel
  rw [Std.HashMap.contains_eq_isSome_getElem?, ← h.indexed]
  cases held : i.pending[event]? with
  | some key => exact ⟨rfl, h.erase held⟩
  | none =>
    refine ⟨rfl, h.mirrors.erase event fun e k => ?_, fun e => ?_⟩
    · refine (and_iff_left_of_imp fun here he => ?_).symm
      subst he
      rw [(h.inverse.inverse _ _).mpr here] at held
      cases held
    · rw [Std.HashMap.getElem?_erase, h.indexed]
      split
      · next he => rw [← beq_iff_eq.mp he, ← h.indexed, held]
      · rfl

omit [LawfulBEq ε] in
theorem cancel_nextOrder (i : Indexed ε) (event : ε) :
    (i.cancel event).2.nextOrder = i.nextOrder := by
  unfold Indexed.cancel
  split <;> rfl

omit [LawfulBEq ε] in
/-- A new key goes beside the others. -/
theorem holds_insert (fresh : ∀ e, ¬i.Holds e key) :
    (i.queue.insert key event)[k]? = some e ↔ e = event ∧ k = key ∨ i.Holds e k := by
  simp only [Std.TreeMap.getElem?_insert, compare_eq_iff_eq]
  by_cases hk : key = k
  · subst hk
    simp [fresh e, eq_comm]
  · simp [hk, Ne.symm hk, Holds]

theorem Mirrored.setAlarm (h : i.Mirrored r) (due : Nat) (event : ε) :
    (i.setAlarm due event).Mirrored (r.setAlarm due event) := by
  have out := (h.cancel event).2
  have next := cancel_nextOrder i event
  have left : ∀ e k, (i.cancel event).2.Holds e k ↔ r.Holds e k ∧ event ≠ e := fun e k =>
    (out.mirrors.holds e k).trans Registry.holds_erase
  -- No alarm stands under a number that was not given yet.
  have fresh : ∀ e, ¬(i.cancel event).2.Holds e ⟨due, (i.cancel event).2.nextOrder⟩ :=
    fun e here => Nat.lt_irrefl _ (out.inverse.order_lt ((out.inverse.inverse e _).mpr here))
  refine ⟨⟨h.mirrors.sound.setAlarm due event, out.mirrors.now, out.mirrors.base,
    out.mirrors.rebases, congrArg (· + 1) out.mirrors.nextOrder, fun e k => ?_⟩, fun e => ?_⟩
  · rw [Registry.holds_setAlarm, ← left, ← h.mirrors.nextOrder, ← next]
    exact holds_insert fresh
  · simp only [Indexed.setAlarm, Registry.setAlarm, Std.HashMap.getElem?_insert, next,
      h.mirrors.nextOrder, out.indexed]
    split
    · rfl
    · next he => exact (Std.HashMap.getElem?_erase).trans (if_neg he)

/-! ## The earliest alarm -/

omit [LawfulBEq ε] in
theorem minKey?_eq_some : i.queue.minKey? = some key ↔
    (∃ e, i.Holds e key) ∧ ∀ e k, i.Holds e k → key ≤ k := by
  rw [Std.TreeMap.minKey?_eq_some_iff_mem_and_forall]
  simp only [Std.TreeMap.mem_iff_isSome_getElem?, Option.isSome_iff_exists,
    Ordering.isLE_iff_ne_gt, compare_le_iff_le]
  exact and_congr_right fun _ => ⟨fun least e k here => least k ⟨e, here⟩,
    fun least k ⟨e, here⟩ => least e k here⟩

omit [LawfulBEq ε] in
theorem minKey?_eq_none : i.queue.minKey? = none ↔ ∀ e k, ¬i.Holds e k := by
  rw [Std.TreeMap.minKey?_eq_none_iff, Std.TreeMap.isEmpty_iff_forall_not_mem]
  simp only [Std.TreeMap.mem_iff_isSome_getElem?, Option.isSome_iff_exists, not_exists]
  exact forall_comm

theorem Mirrored.nextDue? (h : i.Mirrored r) : i.nextDue? = r.nextDue? := by
  unfold Indexed.nextDue?
  cases hmin : i.queue.minKey? with
  | none =>
    refine (Registry.nextDue?_eq_none fun e k held => ?_).symm
    exact minKey?_eq_none.mp hmin e k ((h.mirrors.holds e k).mpr held)
  | some key =>
    obtain ⟨⟨e, here⟩, least⟩ := minKey?_eq_some.mp hmin
    obtain ⟨held, least⟩ := h.mirrors.least here least
    exact (h.mirrors.sound.nextDue?_eq_some held least).symm

theorem Mirrored.popDue (h : i.Mirrored r) : Option.Rel (Beside Mirrored) i.popDue r.popDue := by
  unfold Indexed.popDue
  cases hmin : i.queue.minKey? with
  | none =>
    rw [Registry.popDue_eq_none fun e k held =>
      absurd ((h.mirrors.holds e k).mpr held) (minKey?_eq_none.mp hmin e k)]
    exact .none
  | some key =>
    obtain ⟨⟨e, here⟩, least⟩ := minKey?_eq_some.mp hmin
    obtain ⟨held, least⟩ := h.mirrors.least here least
    simp only [bind, Option.bind]
    split
    · next later =>
      rw [h.mirrors.now] at later
      rw [Registry.popDue_eq_none fun e' k' held' =>
        Nat.lt_of_lt_of_le later (Alarm.Key.due_le (least e' k' held'))]
      exact .none
    · next due =>
      have due : key.due ≤ r.now := h.mirrors.now ▸ Nat.le_of_not_lt due
      rw [h.mirrors.sound.popDue_eq_some held least due]
      rw [Holds] at here
      have index := (h.inverse.inverse e key).mpr here
      simp only [here, pure]
      exact .some ⟨rfl, h.erase index⟩

/-! ## Rebasing -/

theorem Mirrored.rebaseOffset (h : i.Mirrored r) : i.rebaseOffset = r.rebaseOffset := by
  unfold Indexed.rebaseOffset Registry.rebaseOffset
  rw [h.nextDue?]
  cases r.nextDue? with
  | none => exact h.mirrors.now
  | some due => exact congrArg (min due) h.mirrors.now

omit [LawfulBEq ε] in
/-- Moved down together, no two keys fall on each other. -/
theorem Mirrored.down_apart (h : i.Mirrored r) (offset : Nat) :
    (i.queue.toList.map fun x => (x.1.down offset, x.2)).Pairwise (·.1 ≠ ·.1) := by
  refine List.pairwise_map.mpr (Std.TreeMap.distinct_keys_toList.imp_of_mem ?_)
  intro (key, e) (key', e') here here' apart same
  have held := (h.inverse.inverse e key).mpr (Std.TreeMap.mem_toList_iff_getElem?_eq_some.mp here)
  have held' := (h.inverse.inverse e' key').mpr
    (Std.TreeMap.mem_toList_iff_getElem?_eq_some.mp here')
  have order := congrArg Alarm.Key.order same
  obtain rfl := h.inverse.distinct held held' order
  exact apart (compare_eq_iff_eq.mpr (Option.some.inj (held.symm.trans held')))

theorem Mirrored.holds_rebase (h : i.Mirrored r) :
    i.rebase.2.Holds e k ↔ i.Holds e ⟨k.due + r.rebaseOffset, k.order⟩ := by
  unfold Indexed.rebase
  simp only [h.rebaseOffset]
  split
  · next h0 => rw [h0]; rfl
  · refine (Alarm.Key.getElem?_ofList (h.down_apart _)).trans ?_
    rw [List.mem_map]
    constructor
    · rintro ⟨⟨key, e⟩, here, heq⟩
      cases heq
      have here := Std.TreeMap.mem_toList_iff_getElem?_eq_some.mp here
      have := Registry.rebaseOffset_le_due ((h.mirrors.holds e key).mp here)
      simp only [Alarm.Key.down, Nat.sub_add_cancel this]
      exact here
    · intro here
      exact ⟨_, Std.TreeMap.mem_toList_iff_getElem?_eq_some.mpr here, by simp [Alarm.Key.down]⟩

omit [LawfulBEq ε] in
theorem numbers_rebase (i : Indexed ε) : i.rebase.1 = i.rebaseOffset ∧
    i.rebase.2.now = i.now - i.rebaseOffset ∧
    i.rebase.2.base = i.base + i.rebaseOffset ∧
    i.rebase.2.rebases = i.rebases + (if i.rebaseOffset = 0 then 0 else 1) ∧
    i.rebase.2.nextOrder = i.nextOrder := by
  unfold Indexed.rebase
  simp only []
  split
  · next h => simp [h]
  · simp

theorem Mirrored.rebase (h : i.Mirrored r) : i.rebase.2.Mirrored r.rebase.2 where
  mirrors := by
    obtain ⟨-, now, base, rebases, nextOrder⟩ := i.numbers_rebase
    rw [now, base, rebases, nextOrder, h.rebaseOffset]
    exact h.mirrors.rebase fun e k => h.holds_rebase
  indexed e := by
    unfold Indexed.rebase Registry.rebase
    simp only [h.rebaseOffset]
    split
    · exact h.indexed e
    · simp only [Std.HashMap.getElem?_map, h.indexed]

/-- The two maps answer every operation as the single map does. -/
theorem mirrored_simulates [ToString ε] :
    Scheduler.Simulates (Mirrored : Indexed ε → Registry ε → Prop) where
  start now := by
    show Matched _ (Indexed.start now) (Registry.start now)
    unfold Indexed.start Registry.start
    split
    · exact .ok ⟨⟨.start, rfl, rfl, rfl, rfl, fun e k => by simp [Holds, Registry.Holds]⟩,
        fun e => by simp⟩
    · exact .error _
  now h := h.mirrors.now
  elapsed h := congrArg₂ (· + ·) h.mirrors.base h.mirrors.now
  rebases h := h.mirrors.rebases
  pending {i r} h := by
    refine (Std.TreeMap.length_toList.symm.trans (List.length_map Prod.swap).symm).trans
      (h.mirrors.size ?_ fun e k => ?_)
    · refine List.pairwise_map.mpr (Std.TreeMap.distinct_keys_toList.imp ?_)
      exact fun apart same => apart (compare_eq_iff_eq.mpr (congrArg Prod.snd same))
    · rw [List.mem_map]
      constructor
      · rintro ⟨⟨key, e⟩, here, heq⟩
        cases heq
        exact Std.TreeMap.mem_toList_iff_getElem?_eq_some.mp here
      · exact fun here => ⟨(k, e), Std.TreeMap.mem_toList_iff_getElem?_eq_some.mpr here, rfl⟩
  nextDue? h := h.nextDue?
  due? event h := congrArg (Option.map Alarm.Key.due) (h.indexed event)
  isPending event h := h.contains event
  cyclesUntil? event h := by
    show Option.map _ (Option.map _ _) = Option.map _ (Option.map _ _)
    rw [h.indexed, h.mirrors.now]
  setAlarm event h _ := h.setAlarm _ event
  setAlarmIn {i r delay} event h := by
    show Matched _ (i.setAlarmIn delay event) (Scheduler.setAlarmIn r delay event)
    simp only [Indexed.setAlarmIn, Scheduler.setAlarmIn, ← h.mirrors.now]
    split
    · exact .ok ⟨rfl, h.setAlarm _ event⟩
    · exact .error _
  cancel event h := h.cancel event
  popDue h := h.popDue
  rebase {i r} h := ⟨i.numbers_rebase.1.trans (h.rebaseOffset.trans Registry.fst_rebase.symm),
    h.rebase⟩
  pass h _ := ⟨h.mirrors.pass _, h.indexed⟩

end Lawful

end Indexed

/-! ## One queue -/

section Events

variable [DecidableEq ε] [Hashable ε] [ToString ε]

/-- The two maps are one queue. Wherever a client stands after so many steps, in a handler or in
an advance within one, the queue and the index are inverse to each other, and every operation
answers on the two maps, on the single map and on the machine clock alike; where a step faults,
it is the same fault. What the client comes to on the clock is what the clock's own advances
make of it. -/
theorem two_maps_one_queue (client : Client ε σ) (now n : Nat) :
    Matched (Session.Same fun (i : Indexed ε) (r : Registry ε) => i.Inverse ∧ Scheduler.Answers i r)
      (Session.fresh (Indexed ε) now client >>= Session.after n)
      (Session.fresh (Registry ε) now client >>= Session.after n) ∧
    Matched (Session.Same fun (c : Clock ε) (r : Registry ε) => Scheduler.Answers c r)
      (Session.fresh (Clock ε) now client >>= Session.after n)
      (Session.fresh (Registry ε) now client >>= Session.after n) ∧
    ∀ (budget : Nat) (c : Clock ε),
      Session.ComesTo ⟨c, client, [], 0⟩ [] (client.run budget c) := by
  refine ⟨?_, ?_, fun budget c => client.comes_run budget c [] 0⟩
  · have both := Indexed.mirrored_simulates.sessions now n client
    exact both.mono fun t t' same =>
      { same with
        scheduler := ⟨same.scheduler.inverse, Indexed.mirrored_simulates.answers same.scheduler⟩ }
  · have both := Clock.mirrored_simulates.sessions now n client
    exact both.mono fun t t' same =>
      { same with scheduler := Clock.mirrored_simulates.answers same.scheduler }

end Events

end C64
