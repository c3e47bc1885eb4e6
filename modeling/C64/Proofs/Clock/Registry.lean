import Mathlib.Data.List.MinMax
import Mathlib.Data.Prod.Lex
import C64.Proofs.Clock.History
import C64.Proofs.Clock.Pending
import C64.Proofs.Clock.Sessions

/-!
# Alarms in a single map

The plainest scheduler holds one map, from an event to the cycle its alarm is set for and the
number it was set under. What fires next is the least such key of the map (`Registry.popDue`),
wherever it may stand. `Registry.clock` says that the machine clock, which keeps its alarms in
firing order, answers every operation as this one does.
-/

namespace C64

variable {ε : Type}

/-! ## Keys -/

/-- When an alarm fires: for its cycle and, of two for the same cycle, by the number it got when
it was set. -/
structure Alarm.Key where
  due : Nat
  order : Nat
deriving DecidableEq

namespace Alarm.Key

/-- The place of a key among all keys. -/
def rank (k : Key) : ℕ ×ₗ ℕ := toLex (k.due, k.order)

theorem rank_injective : Function.Injective rank := by
  rintro ⟨d, o⟩ ⟨d', o'⟩ h
  simpa [rank] using h

instance : LinearOrder Key := LinearOrder.lift' rank rank_injective

theorem le_iff {k k' : Key} : k ≤ k' ↔ k.due < k'.due ∨ k.due = k'.due ∧ k.order ≤ k'.order :=
  Prod.Lex.toLex_le_toLex

theorem due_le {k k' : Key} (h : k ≤ k') : k.due ≤ k'.due := by
  rcases le_iff.mp h with h | ⟨h, _⟩
  · exact Nat.le_of_lt h
  · exact Nat.le_of_eq h

/-- The key of an alarm behind a rebase. -/
def down (offset : Nat) (k : Key) : Key := { k with due := k.due - offset }

end Alarm.Key

/-! ## The single map -/

/-- A cycle counter with the keys of its alarms by event. -/
structure Registry (ε : Type) [BEq ε] [Hashable ε] where
  now : Nat
  base : Nat
  rebases : Nat
  nextOrder : Nat
  keys : Std.HashMap ε Alarm.Key

namespace Registry

variable [BEq ε] [Hashable ε]

def start (now : Nat) : Except Fault (Registry ε) :=
  if now ≤ Cycle.clockMax then .ok ⟨now, 0, 0, 0, ∅⟩ else .error (.clockAboveMax now)

def due? (r : Registry ε) (event : ε) : Option Nat := r.keys[event]?.map (·.due)

/-- The alarm with the least key, of those that a condition on keys lets through. -/
def first? (r : Registry ε) (p : Alarm.Key → Bool) : Option (ε × Alarm.Key) :=
  (r.keys.toList.filter (p ·.2)).argmin (·.2)

def nextDue? (r : Registry ε) : Option Nat := (r.first? fun _ => true).map (·.2.due)

def setAlarm (r : Registry ε) (due : Nat) (event : ε) : Registry ε :=
  { r with
    keys := r.keys.insert event ⟨due, r.nextOrder⟩
    nextOrder := r.nextOrder + 1 }

def cancel (r : Registry ε) (event : ε) : Bool × Registry ε :=
  (r.keys.contains event, { r with keys := r.keys.erase event })

/-- Takes out the alarm with the least key among those that are due. -/
def popDue (r : Registry ε) : Option (Alarm ε × Registry ε) :=
  (r.first? (·.due ≤ r.now)).map fun (event, key) =>
    (⟨key.due, event⟩, { r with keys := r.keys.erase event })

def rebaseOffset (r : Registry ε) : Nat :=
  match r.nextDue? with
  | none => r.now
  | some due => min due r.now

def rebase (r : Registry ε) : Nat × Registry ε :=
  let offset := r.rebaseOffset
  if offset = 0 then (0, r)
  else (offset,
    { r with
      now := r.now - offset
      base := r.base + offset
      rebases := r.rebases + 1
      keys := r.keys.map fun _ => Alarm.Key.down offset })

instance [ToString ε] : Scheduler (Registry ε) ε where
  start := start
  now := now
  elapsed r := r.base + r.now
  rebases := rebases
  pending r := r.keys.size
  nextDue? := nextDue?
  due? := due?
  isPending r event := r.keys.contains event
  cyclesUntil? r event := (r.due? event).map (· - r.now)
  setAlarm := setAlarm
  setAlarmIn r delay event :=
    let due := r.now + delay
    if due ≤ Cycle.last then .ok (due, r.setAlarm due event)
    else .error (.triggerOverflow (toString event) r.now delay)
  cancel := cancel
  popDue := popDue
  rebase := rebase
  pass r cycles := { r with now := r.now + cycles }

/-! ## What it holds -/

/-- The alarm of an event waits under a key. -/
def Holds (r : Registry ε) (event : ε) (key : Alarm.Key) : Prop := r.keys[event]? = some key

/-- No number was given twice, and the next one is new. -/
structure Sound (r : Registry ε) : Prop where
  order_lt {event : ε} {key : Alarm.Key} : r.Holds event key → key.order < r.nextOrder
  distinct {event event' : ε} {key key' : Alarm.Key} :
    r.Holds event key → r.Holds event' key' → key.order = key'.order → event = event'

section Lawful

variable [LawfulBEq ε] {r : Registry ε} {event e : ε} {key k : Alarm.Key}

theorem holds_setAlarm {due : Nat} : (r.setAlarm due event).Holds e k ↔
    e = event ∧ k = ⟨due, r.nextOrder⟩ ∨ r.Holds e k ∧ event ≠ e := by
  unfold Holds setAlarm
  rw [Std.HashMap.getElem?_insert]
  by_cases he : event = e
  · subst he
    simp [eq_comm]
  · simp [he, Ne.symm he]

theorem holds_erase :
    ({ r with keys := r.keys.erase event } : Registry ε).Holds e k ↔ r.Holds e k ∧ event ≠ e := by
  unfold Holds
  rw [Std.HashMap.getElem?_erase]
  by_cases he : event = e <;> simp [he]

theorem mem_first {p : Alarm.Key → Bool} :
    (e, k) ∈ r.keys.toList.filter (p ·.2) ↔ r.Holds e k ∧ p k := by
  rw [List.mem_filter, Std.HashMap.mem_toList_iff_getElem?_eq_some]
  rfl

theorem first?_eq_none {p : Alarm.Key → Bool} :
    r.first? p = none ↔ ∀ e k, r.Holds e k → p k = false := by
  rw [first?, List.argmin_eq_none, List.eq_nil_iff_forall_not_mem]
  simp only [Prod.forall, mem_first, not_and, Bool.not_eq_true]

theorem first?_holds {p : Alarm.Key → Bool} (h : r.first? p = some (e, k)) :
    r.Holds e k ∧ p k :=
  mem_first.mp (List.argmin_mem h)

theorem first?_le {p : Alarm.Key → Bool} {found : ε × Alarm.Key} (h : r.first? p = some found)
    (held : r.Holds e k) (passes : p k) : found.2 ≤ k :=
  List.le_of_mem_argmin (mem_first.mpr ⟨held, passes⟩) h

/-- The least key that is let through is the first one. -/
theorem Sound.first?_eq_some (h : r.Sound) {p : Alarm.Key → Bool} :
    r.first? p = some (e, k) ↔
      r.Holds e k ∧ p k ∧ ∀ e' k', r.Holds e' k' → p k' → k ≤ k' := by
  constructor
  · intro hfirst
    obtain ⟨held, passes⟩ := first?_holds hfirst
    exact ⟨held, passes, fun e' k' h' p' => first?_le hfirst h' p'⟩
  · rintro ⟨held, passes, least⟩
    cases hfirst : r.first? p with
    | none => exact absurd passes (by simp [first?_eq_none.mp hfirst e k held])
    | some found =>
      obtain ⟨e', k'⟩ := found
      obtain ⟨held', passes'⟩ := first?_holds hfirst
      -- Both are least, and no two alarms have the same number.
      have same : k' = k :=
        le_antisymm (first?_le hfirst held passes) (least e' k' held' passes')
      subst same
      rw [h.distinct held' held rfl]

/-- The next alarm is the one with the least key of all. -/
theorem Sound.nextDue?_eq_some (h : r.Sound) (held : r.Holds e k)
    (least : ∀ e' k', r.Holds e' k' → k ≤ k') : r.nextDue? = some k.due := by
  have first : r.first? (fun _ => true) = some (e, k) :=
    h.first?_eq_some.mpr ⟨held, rfl, fun e' k' h' _ => least e' k' h'⟩
  rw [nextDue?, first]
  rfl

theorem nextDue?_eq_none (empty : ∀ e k, ¬r.Holds e k) : r.nextDue? = none := by
  have first : r.first? (fun _ => true) = none :=
    first?_eq_none.mpr fun e k held => absurd held (empty e k)
  rw [nextDue?, first]
  rfl

/-- The least key of all is the least that is due, if it is. -/
theorem Sound.popDue_eq_some (h : r.Sound) (held : r.Holds e k)
    (least : ∀ e' k', r.Holds e' k' → k ≤ k') (due : k.due ≤ r.now) :
    r.popDue = some (⟨k.due, e⟩, { r with keys := r.keys.erase e }) := by
  have first : r.first? (·.due ≤ r.now) = some (e, k) :=
    h.first?_eq_some.mpr ⟨held, by simpa using due, fun e' k' h' _ => least e' k' h'⟩
  rw [popDue, first]
  rfl

theorem popDue_eq_none (later : ∀ e k, r.Holds e k → r.now < k.due) : r.popDue = none := by
  have first : r.first? (·.due ≤ r.now) = none :=
    first?_eq_none.mpr fun e k held => by simpa using later e k held
  rw [popDue, first]
  rfl

/-- What is taken out is the least of what is due, and the others stay as they are. -/
theorem popDue_least {alarm : Alarm ε} {r' : Registry ε} (h : r.popDue = some (alarm, r')) :
    ∃ k, r.Holds alarm.event k ∧ alarm.due = k.due ∧ k.due ≤ r.now ∧
      (∀ e' k', r.Holds e' k' → k'.due ≤ r.now → k ≤ k') ∧
      r'.now = r.now ∧ ∀ e' k', r'.Holds e' k' ↔ r.Holds e' k' ∧ alarm.event ≠ e' := by
  obtain ⟨⟨e, k⟩, hfirst, heq⟩ := Option.map_eq_some_iff.mp h
  cases heq
  obtain ⟨held, due⟩ := first?_holds hfirst
  exact ⟨k, held, rfl, by simpa using due,
    fun e' k' held' due' => first?_le hfirst held' (by simpa using due'), rfl,
    fun e' k' => holds_erase⟩

omit [LawfulBEq ε] in
theorem due?_eq_some {due : Nat} : r.due? event = some due ↔ ∃ k, r.Holds event k ∧ k.due = due :=
  Option.map_eq_some_iff

theorem contains_iff : r.keys.contains event = true ↔ ∃ k, r.Holds event k := by
  rw [Std.HashMap.contains_eq_isSome_getElem?, Option.isSome_iff_exists]
  rfl

/-- The number of alarms, from any list of them. -/
theorem size_eq {l : List (ε × Alarm.Key)} (nodup : l.Nodup)
    (mem : ∀ e k, (e, k) ∈ l ↔ r.Holds e k) : l.length = r.keys.size := by
  have keyed : r.keys.toList.Nodup :=
    Std.HashMap.distinct_keys_toList.imp fun {a b} apart same => by simp [same] at apart
  have perm : l.Perm r.keys.toList := (List.perm_ext_iff_of_nodup nodup keyed).mpr fun (e, k) => by
    rw [mem, Std.HashMap.mem_toList_iff_getElem?_eq_some]
    rfl
  rw [perm.length_eq, Std.HashMap.length_toList]

theorem rebaseOffset_le_due (held : r.Holds e k) : r.rebaseOffset ≤ k.due := by
  unfold rebaseOffset nextDue?
  cases hfirst : r.first? (fun _ => true) with
  | none => exact absurd (first?_eq_none.mp hfirst e k held) (by simp)
  | some found =>
    exact Nat.le_trans (Nat.min_le_left ..) (Alarm.Key.due_le (first?_le hfirst held rfl))

theorem holds_rebase : r.rebase.2.Holds e k ↔ r.Holds e ⟨k.due + r.rebaseOffset, k.order⟩ := by
  unfold rebase
  simp only []
  split
  · next h => rw [h]; rfl
  · unfold Holds
    rw [Std.HashMap.getElem?_map, Option.map_eq_some_iff]
    constructor
    · rintro ⟨key, held, rfl⟩
      rw [held]
      simp only [Alarm.Key.down, Nat.sub_add_cancel (rebaseOffset_le_due held)]
    · intro held
      exact ⟨_, held, by simp [Alarm.Key.down]⟩

/-! ## Every operation keeps the numbers apart -/

theorem Sound.start {now : Nat} : (⟨now, 0, 0, 0, ∅⟩ : Registry ε).Sound where
  order_lt held := by simp [Holds] at held
  distinct held := by simp [Holds] at held

theorem Sound.setAlarm (h : r.Sound) (due : Nat) (event : ε) : (r.setAlarm due event).Sound where
  order_lt held := by
    rcases holds_setAlarm.mp held with ⟨_, rfl⟩ | ⟨held, _⟩
    · exact Nat.lt_succ_self _
    · exact Nat.lt_succ_of_lt (h.order_lt held)
  distinct held held' same := by
    -- The new number lies above all that were given before.
    rcases holds_setAlarm.mp held with ⟨rfl, rfl⟩ | ⟨old, _⟩ <;>
      rcases holds_setAlarm.mp held' with ⟨rfl, rfl⟩ | ⟨old', _⟩
    · rfl
    · exact absurd (h.order_lt old') (same ▸ Nat.lt_irrefl _)
    · exact absurd (h.order_lt old) (same ▸ Nat.lt_irrefl _)
    · exact h.distinct old old' same

theorem Sound.erase (h : r.Sound) (event : ε) :
    ({ r with keys := r.keys.erase event } : Registry ε).Sound where
  order_lt held := h.order_lt (holds_erase.mp held).1
  distinct held held' := h.distinct (holds_erase.mp held).1 (holds_erase.mp held').1

omit [LawfulBEq ε] in
theorem fst_rebase : r.rebase.1 = r.rebaseOffset := by
  unfold rebase
  simp only []
  split
  · next h => exact h.symm
  · rfl

omit [LawfulBEq ε] in
theorem nextOrder_rebase : r.rebase.2.nextOrder = r.nextOrder := by
  unfold rebase
  simp only []
  split <;> rfl

theorem Sound.rebase (h : r.Sound) : r.rebase.2.Sound where
  order_lt held := by
    have lt := h.order_lt (holds_rebase.mp held)
    rwa [nextOrder_rebase]
  distinct held held' same := h.distinct (holds_rebase.mp held) (holds_rebase.mp held') same

/-! ## Schedulers that hold the same -/

/-- A scheduler stands where the single map stands: its numbers are the same, and so is what it
holds. -/
structure Mirrors (r : Registry ε) (now base rebases nextOrder : Nat)
    (holds : ε → Alarm.Key → Prop) : Prop where
  sound : r.Sound
  now : now = r.now
  base : base = r.base
  rebases : rebases = r.rebases
  nextOrder : nextOrder = r.nextOrder
  holds (event : ε) (key : Alarm.Key) : holds event key ↔ r.Holds event key

namespace Mirrors

variable {now base rebases nextOrder : Nat} {holds holds' : ε → Alarm.Key → Prop}

omit [LawfulBEq ε] in
theorem due? (h : r.Mirrors now base rebases nextOrder holds) {due? : Option Nat}
    (spec : ∀ due, due? = some due ↔ ∃ k, holds e k ∧ k.due = due) : due? = r.due? e :=
  Option.ext fun due => by
    simp only [spec, h.holds]
    exact due?_eq_some.symm

theorem contains (h : r.Mirrors now base rebases nextOrder holds) {waits : Bool}
    (spec : waits = true ↔ ∃ k, holds e k) : waits = r.keys.contains e :=
  Bool.eq_iff_iff.mpr (by simp only [spec, h.holds, contains_iff])

theorem size (h : r.Mirrors now base rebases nextOrder holds) {l : List (ε × Alarm.Key)}
    (nodup : l.Nodup) (mem : ∀ e k, (e, k) ∈ l ↔ holds e k) : l.length = r.keys.size :=
  size_eq nodup fun e k => (mem e k).trans (h.holds e k)

omit [LawfulBEq ε] in
/-- With the least key at hand, the next alarm is known. -/
theorem least (h : r.Mirrors now base rebases nextOrder holds) (held : holds e k)
    (least : ∀ e' k', holds e' k' → k ≤ k') :
    r.Holds e k ∧ ∀ e' k', r.Holds e' k' → k ≤ k' :=
  ⟨(h.holds e k).mp held, fun e' k' held' => least e' k' ((h.holds e' k').mpr held')⟩

theorem setAlarm (h : r.Mirrors now base rebases nextOrder holds) (due : Nat) (event : ε)
    (spec : ∀ e k, holds' e k ↔ e = event ∧ k = ⟨due, nextOrder⟩ ∨ holds e k ∧ event ≠ e) :
    (r.setAlarm due event).Mirrors now base rebases (nextOrder + 1) holds' where
  sound := h.sound.setAlarm due event
  now := h.now
  base := h.base
  rebases := h.rebases
  nextOrder := congrArg (· + 1) h.nextOrder
  holds e k := by rw [spec, holds_setAlarm, h.holds, h.nextOrder]

theorem erase (h : r.Mirrors now base rebases nextOrder holds) (event : ε)
    (spec : ∀ e k, holds' e k ↔ holds e k ∧ event ≠ e) :
    ({ r with keys := r.keys.erase event } : Registry ε).Mirrors now base rebases nextOrder
      holds' where
  sound := h.sound.erase event
  now := h.now
  base := h.base
  rebases := h.rebases
  nextOrder := h.nextOrder
  holds e k := by rw [spec, holds_erase, h.holds]

theorem rebase (h : r.Mirrors now base rebases nextOrder holds)
    (spec : ∀ e k, holds' e k ↔ holds e ⟨k.due + r.rebaseOffset, k.order⟩) :
    r.rebase.2.Mirrors (now - r.rebaseOffset) (base + r.rebaseOffset)
      (rebases + if r.rebaseOffset = 0 then 0 else 1) nextOrder holds' where
  sound := h.sound.rebase
  now := by
    unfold Registry.rebase
    simp only [h.now]
    split
    · next h0 => rw [h0]; rfl
    · rfl
  base := by
    unfold Registry.rebase
    simp only [h.base]
    split
    · next h0 => rw [h0]; rfl
    · rfl
  rebases := by
    unfold Registry.rebase
    simp only [h.rebases]
    split <;> rfl
  nextOrder := h.nextOrder.trans nextOrder_rebase.symm
  holds e k := by rw [spec, holds_rebase, h.holds]

omit [LawfulBEq ε] in
theorem pass (h : r.Mirrors now base rebases nextOrder holds) (cycles : Nat) :
    ({ r with now := r.now + cycles } : Registry ε).Mirrors (now + cycles) base rebases nextOrder
      holds where
  sound := ⟨h.sound.order_lt, h.sound.distinct⟩
  now := congrArg (· + cycles) h.now
  base := h.base
  rebases := h.rebases
  nextOrder := h.nextOrder
  holds := h.holds

end Mirrors

end Lawful

end Registry

/-! ## The machine clock -/

namespace Clock

/-- The alarm of an event waits under a key. -/
def Holds (c : Clock ε) (event : ε) (key : Alarm.Key) : Prop :=
  ⟨key.due, key.order, event⟩ ∈ c.queue

theorem Entry.Before.key_le {x y : Entry ε} (h : x.Before y) :
    (⟨x.due, x.order⟩ : Alarm.Key) ≤ ⟨y.due, y.order⟩ := by
  rcases h with h | ⟨h, h'⟩
  · exact Alarm.Key.le_iff.mpr (.inl h)
  · exact Alarm.Key.le_iff.mpr (.inr ⟨h, Nat.le_of_lt h'⟩)

/-- The queue begins with the least key. -/
theorem WellFormed.head_least {c : Clock ε} (hc : c.WellFormed) {x : Entry ε}
    {rest : List (Entry ε)} (hq : c.queue = x :: rest) :
    c.Holds x.event ⟨x.due, x.order⟩ ∧ ∀ e k, c.Holds e k → ⟨x.due, x.order⟩ ≤ k := by
  have sorted := hc.sorted
  unfold Holds
  rw [hq] at sorted ⊢
  refine ⟨.head rest, fun e k held => ?_⟩
  rcases List.mem_cons.mp held with heq | held
  · rw [← heq]
  · exact ((List.pairwise_cons.mp sorted).1 _ held).key_le

variable [DecidableEq ε]

theorem WellFormed.due?_eq_some {c : Clock ε} (hc : c.WellFormed) {event : ε} {due : Nat} :
    c.due? event = some due ↔ ∃ k, c.Holds event k ∧ k.due = due := by
  have inAgenda : c.due? event = some due ↔ c.agenda.due? event = some (c.base + due) := by
    rw [due?_agenda]
    simp
  rw [inAgenda, Agenda.due?_eq_some_iff hc.agenda_distinct, mem_agenda]
  constructor
  · rintro ⟨⟨due', order, _⟩, held, heq⟩
    obtain ⟨hdue, rfl⟩ := Prod.mk.injEq .. ▸ heq
    exact ⟨⟨due', order⟩, held, Nat.add_left_cancel hdue⟩
  · rintro ⟨k, held, rfl⟩
    exact ⟨_, held, rfl⟩

theorem isPending_iff_holds {c : Clock ε} {event : ε} :
    c.isPending event = true ↔ ∃ k, c.Holds event k := by
  rw [isPending_iff]
  constructor
  · rintro ⟨x, hx, rfl⟩
    exact ⟨⟨x.due, x.order⟩, hx⟩
  · rintro ⟨k, held⟩
    exact ⟨_, held, rfl⟩

theorem holds_setAlarm {c : Clock ε} {due : Nat} {event e : ε} {k : Alarm.Key} :
    (c.setAlarm due event).Holds e k ↔
      e = event ∧ k = ⟨due, c.nextOrder⟩ ∨ c.Holds e k ∧ event ≠ e := by
  unfold Holds
  rw [mem_queue_setAlarm, Entry.mk.injEq]
  refine or_congr_left ⟨fun ⟨hd, ho, he⟩ => ⟨he, ?_⟩, ?_⟩
  · cases k
    simp_all
  · rintro ⟨rfl, rfl⟩
    exact ⟨rfl, rfl, rfl⟩

omit [DecidableEq ε] in
theorem now_rebase (c : Clock ε) : c.rebase.now = c.now - c.rebaseOffset := by
  unfold Clock.rebase
  simp only []
  split
  · next h => rw [h, Nat.sub_zero]
  · rfl

omit [DecidableEq ε] in
theorem rebases_rebase (c : Clock ε) :
    c.rebase.rebases = c.rebases + if c.rebaseOffset = 0 then 0 else 1 := by
  unfold Clock.rebase
  simp only []
  split <;> rfl

section Mirrored

variable [Hashable ε]

/-- The clock is well-formed and holds what the single map holds. -/
structure Mirrored (c : Clock ε) (r : Registry ε) : Prop where
  wellFormed : c.WellFormed
  mirrors : r.Mirrors c.now c.base c.rebases c.nextOrder c.Holds

variable {c : Clock ε} {r : Registry ε}

theorem Mirrored.nextDue? (h : c.Mirrored r) : c.nextDue? = r.nextDue? := by
  unfold Clock.nextDue?
  cases hq : c.queue with
  | nil =>
    refine (Registry.nextDue?_eq_none fun e k held => ?_).symm
    simpa [Clock.Holds, hq] using (h.mirrors.holds e k).mpr held
  | cons x rest =>
    obtain ⟨held, least⟩ := h.wellFormed.head_least hq
    obtain ⟨held, least⟩ := h.mirrors.least held least
    exact (h.mirrors.sound.nextDue?_eq_some held least).symm

theorem Mirrored.rebaseOffset (h : c.Mirrored r) : c.rebaseOffset = r.rebaseOffset := by
  unfold Clock.rebaseOffset Registry.rebaseOffset
  rw [h.nextDue?]
  cases r.nextDue? with
  | none => exact h.mirrors.now
  | some due => exact congrArg (min due) h.mirrors.now

theorem Mirrored.setAlarm (h : c.Mirrored r) {due : Nat} (event : ε) (hdue : due ≤ Cycle.last) :
    (c.setAlarm due event).Mirrored (r.setAlarm due event) :=
  ⟨h.wellFormed.setAlarm hdue event, h.mirrors.setAlarm due event fun _ _ => holds_setAlarm⟩

theorem Mirrored.popDue (h : c.Mirrored r) :
    Option.Rel (Beside Mirrored) c.popDue r.popDue := by
  cases hpop : c.popDue with
  | none =>
    have later := h.wellFormed.none_due hpop
    rw [Registry.popDue_eq_none fun e k held => ?_]
    · exact .none
    · rw [← h.mirrors.now]
      exact later _ ((h.mirrors.holds e k).mpr held)
  | some popped =>
    obtain ⟨alarm, c'⟩ := popped
    obtain ⟨x, rest, hq, hdue, rfl, rfl⟩ := popDue_eq_some hpop
    obtain ⟨held, least⟩ := h.wellFormed.head_least hq
    obtain ⟨held, least⟩ := h.mirrors.least held least
    rw [h.mirrors.sound.popDue_eq_some held least (h.mirrors.now ▸ hdue)]
    exact .some ⟨rfl, h.wellFormed.popDue hpop,
      h.mirrors.erase x.event fun e k => h.wellFormed.mem_queue_popDue hpop⟩

theorem Mirrored.rebase (h : c.Mirrored r) : c.rebase.Mirrored r.rebase.2 where
  wellFormed := h.wellFormed.rebase
  mirrors := by
    have held (e : ε) (k : Alarm.Key) :
        c.rebase.Holds e k ↔ c.Holds e ⟨k.due + r.rebaseOffset, k.order⟩ := by
      rw [← h.rebaseOffset]
      exact h.wellFormed.mem_queue_rebase
    have moved := h.mirrors.rebase held
    rwa [← h.rebaseOffset, ← now_rebase, ← base_rebase, ← rebases_rebase,
      ← nextOrder_rebase] at moved

/-- The machine clock answers every operation as the single map does. -/
theorem mirrored_simulates [ToString ε] :
    Scheduler.Simulates (Mirrored : Clock ε → Registry ε → Prop) where
  start now := by
    show Matched _ (Clock.start now) (Registry.start now)
    unfold Clock.start Registry.start
    split
    · next hnow =>
      exact .ok ⟨wellFormed_empty hnow, .start, rfl, rfl, rfl, rfl, fun e k => by
        simp [Clock.Holds, Registry.Holds]⟩
    · exact .error _
  now h := h.mirrors.now
  elapsed h := congrArg₂ (· + ·) h.mirrors.base h.mirrors.now
  rebases h := h.mirrors.rebases
  pending {c r} h := by
    refine (List.length_map fun x : Entry ε => (x.event, (⟨x.due, x.order⟩ : Alarm.Key))).symm.trans
      (h.mirrors.size ?_ fun e k => ?_)
    · refine List.pairwise_map.mpr ((List.pairwise_map.mp h.wellFormed.nodup).imp ?_)
      exact fun apart same => apart (congrArg Prod.fst same)
    · rw [List.mem_map]
      constructor
      · rintro ⟨x, hx, heq⟩
        cases heq
        exact hx
      · exact fun held => ⟨_, held, rfl⟩
  nextDue? h := h.nextDue?
  due? event h := h.mirrors.due? fun due => h.wellFormed.due?_eq_some
  isPending event h := h.mirrors.contains isPending_iff_holds
  cyclesUntil? event h := by
    show Option.map _ _ = Option.map _ _
    rw [h.mirrors.due? fun due => h.wellFormed.due?_eq_some, h.mirrors.now]
  setAlarm event h hdue := h.setAlarm event hdue
  setAlarmIn {c r delay} event h := by
    show Matched _ (c.setAlarmIn delay event) (Scheduler.setAlarmIn r delay event)
    simp only [Clock.setAlarmIn, Scheduler.setAlarmIn, ← h.mirrors.now]
    split
    · next hdue => exact .ok ⟨rfl, h.setAlarm event hdue⟩
    · exact .error _
  cancel event h := ⟨h.mirrors.contains isPending_iff_holds, h.wellFormed.cancel event,
    h.mirrors.erase event fun e k => mem_queue_cancel⟩
  popDue h := h.popDue
  rebase {c r} h := by
    exact ⟨h.rebaseOffset.trans Registry.fst_rebase.symm, h.rebase⟩
  pass {c r cycles} h room := ⟨h.wellFormed.pass (by
    have := h.wellFormed.now_le
    simp only [Scheduler.now] at room
    omega), h.mirrors.pass cycles⟩

end Mirrored

end Clock

end C64
