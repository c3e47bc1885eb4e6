import C64.Cycle

/-!
# The machine clock

A cycle counter with a queue of alarms. A chip sets an alarm under an event of its own; each
event has at most one alarm, and setting it again moves it. `Clock.advance` moves the counter
and hands every alarm that falls due to a handler, the earliest first and, of two for the same
cycle, the one that was set first.

Before the counter would pass `Cycle.clockMax`, it and every alarm are moved down by a common
offset (`Clock.rebase`). Distances between the counter and the alarms stay as they are, and
`Clock.elapsed` counts on.
-/

namespace C64

variable {ε σ : Type}

/-- An alarm as its handler sees it. Periodic chips set their next alarm from `due`, not from
the counter. -/
structure Alarm (ε : Type) where
  /-- The cycle the alarm was set for. -/
  due : Nat
  /-- The event it was set under. -/
  event : ε
deriving DecidableEq

/-- An alarm in the queue, with its number in the order of setting. -/
structure Clock.Entry (ε : Type) where
  due : Nat
  order : Nat
  event : ε
deriving DecidableEq

/-- A cycle counter and the alarms that wait for it, in the order they will fire. -/
structure Clock (ε : Type) where
  now : Nat
  /-- Cycles taken off the counter by rebasing so far. -/
  base : Nat
  /-- How often the counter was rebased. -/
  rebases : Nat
  /-- The number the next alarm gets. -/
  nextOrder : Nat
  queue : List (Clock.Entry ε)

namespace Clock

/-- A clock without alarms whose counter stands at `now`. -/
def start (now : Nat) : Except Fault (Clock ε) :=
  if now ≤ Cycle.clockMax then .ok ⟨now, 0, 0, 0, []⟩ else .error (.clockAboveMax now)

/-- A clock without alarms whose counter stands at zero. -/
def zero : Clock ε := ⟨0, 0, 0, 0, []⟩

/-- Cycles since the clock was made, across rebases. -/
def elapsed (c : Clock ε) : Nat := c.base + c.now

/-- The number of waiting alarms. -/
def pending (c : Clock ε) : Nat := c.queue.length

/-- The cycle of the earliest alarm. -/
def nextDue? (c : Clock ε) : Option Nat := c.queue.head?.map (·.due)

/-- Puts an entry behind all that fire no later than it. -/
def insertEntry (e : Entry ε) : List (Entry ε) → List (Entry ε)
  | [] => [e]
  | x :: rest => if x.due ≤ e.due then x :: insertEntry e rest else e :: x :: rest

section Events

variable [DecidableEq ε]

/-- The cycle the alarm of `event` is set for. -/
def due? (c : Clock ε) (event : ε) : Option Nat :=
  (c.queue.find? (·.event = event)).map (·.due)

/-- Whether `event` has an alarm. -/
def isPending (c : Clock ε) (event : ε) : Bool := (c.due? event).isSome

/-- Cycles left until `event` fires, zero if it is overdue. -/
def cyclesUntil? (c : Clock ε) (event : ε) : Option Nat := (c.due? event).map (· - c.now)

/-- Removes the alarm of `event`, if there is one. -/
def cancel (c : Clock ε) (event : ε) : Clock ε :=
  { c with queue := c.queue.filter (·.event ≠ event) }

/-- Sets the alarm of `event` for cycle `due`. One in the past fires on the next advance. -/
def setAlarm (c : Clock ε) (due : Nat) (event : ε) : Clock ε :=
  let c := c.cancel event
  { c with
    queue := insertEntry ⟨due, c.nextOrder, event⟩ c.queue
    nextOrder := c.nextOrder + 1 }

/-- Sets the alarm of `event` for `delay` cycles from now and answers that cycle. -/
def setAlarmIn [ToString ε] (c : Clock ε) (delay : Nat) (event : ε) :
    Except Fault (Nat × Clock ε) :=
  let due := c.now + delay
  if due ≤ Cycle.last then .ok (due, c.setAlarm due event)
  else .error (.triggerOverflow (toString event) c.now delay)

end Events

/-- Takes the earliest alarm out of the queue if it is due. -/
def popDue (c : Clock ε) : Option (Alarm ε × Clock ε) :=
  match c.queue with
  | [] => none
  | e :: rest => if e.due ≤ c.now then some (⟨e.due, e.event⟩, { c with queue := rest }) else none

/-- How far `rebase` moves the counter: down to zero, or as far as the earliest alarm allows. -/
def rebaseOffset (c : Clock ε) : Nat :=
  match c.nextDue? with
  | none => c.now
  | some due => min due c.now

/-- Moves the counter and every alarm down by `rebaseOffset`. -/
def rebase (c : Clock ε) : Clock ε :=
  let offset := c.rebaseOffset
  if offset = 0 then c
  else
    { c with
      now := c.now - offset
      base := c.base + offset
      rebases := c.rebases + 1
      queue := c.queue.map fun e => { e with due := e.due - offset } }

/-- What happens when an alarm fires: a change of the clock and of the state `σ` around it. The
alarm is no longer in the queue then. -/
abbrev Handler (ε σ : Type) := Alarm ε → Clock ε → σ → Except Fault (Clock ε × σ)

/-- Hands due alarms to `handle` until none is left, at most `budget` of them. -/
@[specialize] def fireDue (handle : Handler ε σ) :
    Nat → Clock ε → σ → Except Fault (Clock ε × σ)
  | 0, c, s => if c.popDue.isNone then .ok (c, s) else .error .tooManyAlarms
  | budget + 1, c, s =>
    match c.popDue with
    | none => .ok (c, s)
    | some (alarm, c) => do
      let (c, s) ← handle alarm c s
      fireDue handle budget c s

/-- Makes room for `cycles` more cycles below `Cycle.clockMax`. Alarms that are overdue fire
first: left in the queue they would hold the counter up. -/
@[specialize] def makeRoom (handle : Handler ε σ) (budget : Nat) (cycles : Nat)
    (c : Clock ε) (s : σ) : Except Fault (Clock ε × σ) :=
  if cycles ≤ Cycle.clockMax - c.now then .ok (c, s)
  else do
    let (c, s) ← fireDue handle budget c s
    let c := c.rebase
    if cycles ≤ Cycle.clockMax - c.now then .ok (c, s) else .error (.clockStuck cycles c.now)

/-- Advances the counter and fires every alarm that falls due, those set by a handler on the way
included, at most `budget` at a time. -/
@[specialize] def advanceWithin (budget : Nat) (handle : Handler ε σ) (cycles : Nat)
    (c : Clock ε) (s : σ) : Except Fault (Clock ε × σ) := do
  let (c, s) ← makeRoom handle budget cycles c s
  fireDue handle budget { c with now := c.now + cycles } s

/-- More alarms than any run handles in one advance. -/
def alarmBudget : Nat := 1 <<< 62

/-- Advances the counter and fires every alarm that falls due. -/
@[specialize] def advance (handle : Handler ε σ) (cycles : Nat) (c : Clock ε) (s : σ) :
    Except Fault (Clock ε × σ) :=
  advanceWithin alarmBudget handle cycles c s

/-- The counter, its base and the queue in one line, for a debugger. -/
def describe [ToString ε] (c : Clock ε) : String :=
  let entries := c.queue.map fun e => s!"({e.due}, {e.order}): {e.event}"
  s!"Scheduler \x7b now: {c.now}, base: {c.base}, queue: \x7b" ++ ", ".intercalate entries ++
    "\x7d, .. \x7d"

/-! ## The queue and its view by event -/

theorem mem_insertEntry {e x : Entry ε} {queue : List (Entry ε)} :
    x ∈ insertEntry e queue ↔ x = e ∨ x ∈ queue := by
  induction queue with
  | nil => simp [insertEntry]
  | cons y rest ih =>
    simp only [insertEntry]
    split <;> simp [ih, or_left_comm]

theorem length_insertEntry (e : Entry ε) (queue : List (Entry ε)) :
    (insertEntry e queue).length = queue.length + 1 := by
  induction queue with
  | nil => rfl
  | cons x rest ih =>
    simp only [insertEntry]
    split <;> simp [ih]

section View

variable [DecidableEq ε]

theorem find?_insertEntry_self (e : Entry ε) {queue : List (Entry ε)}
    (h : ∀ x ∈ queue, x.event ≠ e.event) :
    (insertEntry e queue).find? (·.event = e.event) = some e := by
  induction queue with
  | nil => simp [insertEntry]
  | cons y rest ih =>
    simp only [insertEntry]
    split
    · rw [List.find?_cons_of_neg (by simpa using h y (by simp))]
      exact ih fun x hx => h x (List.mem_cons_of_mem _ hx)
    · simp

theorem find?_insertEntry_ne {e : Entry ε} {event : ε} (h : e.event ≠ event)
    (queue : List (Entry ε)) :
    (insertEntry e queue).find? (·.event = event) = queue.find? (·.event = event) := by
  induction queue with
  | nil => simp [insertEntry, h]
  | cons y rest ih =>
    simp only [insertEntry]
    split
    · simp only [List.find?_cons, ih]
    · simp [h]

@[simp] theorem due?_cancel_self (c : Clock ε) (event : ε) :
    (c.cancel event).due? event = none := by
  simp [due?, cancel]

theorem due?_cancel_ne (c : Clock ε) {event other : ε} (h : event ≠ other) :
    (c.cancel event).due? other = c.due? other := by
  simp only [due?, cancel, List.find?_filter]
  congr 2
  funext e
  by_cases he : e.event = other <;> simp [he, Ne.symm h]

@[simp] theorem due?_setAlarm_self (c : Clock ε) (due : Nat) (event : ε) :
    (c.setAlarm due event).due? event = some due := by
  have fresh : ∀ x ∈ (c.cancel event).queue, x.event ≠ event := by simp [cancel]
  have := find?_insertEntry_self ⟨due, c.nextOrder, event⟩ fresh
  simp only [due?, setAlarm]
  exact congrArg (Option.map (·.due)) this

theorem due?_setAlarm_ne (c : Clock ε) (due : Nat) {event other : ε} (h : event ≠ other) :
    (c.setAlarm due event).due? other = c.due? other := by
  rw [← c.due?_cancel_ne h]
  simp only [due?, setAlarm]
  rw [find?_insertEntry_ne h]

end View

/-! ## Rebasing -/

theorem rebaseOffset_le_now (c : Clock ε) : c.rebaseOffset ≤ c.now := by
  unfold rebaseOffset
  split
  · exact Nat.le_refl _
  · exact Nat.min_le_right ..

/-- Rebasing takes no time. -/
@[simp] theorem elapsed_rebase (c : Clock ε) : c.rebase.elapsed = c.elapsed := by
  have := c.rebaseOffset_le_now
  simp only [rebase, elapsed]
  split
  · rfl
  · simp only []
    omega

/-- Rebasing brings no alarm nearer. -/
@[simp] theorem cyclesUntil?_rebase [DecidableEq ε] (c : Clock ε) (event : ε) :
    c.rebase.cyclesUntil? event = c.cyclesUntil? event := by
  have := c.rebaseOffset_le_now
  simp only [rebase, cyclesUntil?, due?]
  split
  · rfl
  · simp only [List.find?_map, Option.map_map, Function.comp_def]
    congr 1
    funext e
    omega

end Clock

end C64
