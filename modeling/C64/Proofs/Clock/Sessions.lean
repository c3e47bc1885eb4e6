import C64.Proofs.Clock.Order

/-!
# Clients of a scheduler

Whoever holds a scheduler calls one operation after the other and goes on as the answers say. The
handler it hands to an advance does the same, and may advance the scheduler again. A `Client` is
such a program.

A `Session` runs a client on a `Scheduler`, whatever that keeps its alarms in. A step is one
operation, one alarm handed over or one end of an advance; the advances that have not come to an
end stand in a list, the innermost first. A client need not come to an end for its session to be
watched: `Session.after` tells where it stands after so many steps.

Schedulers that answer alike in every operation lead to sessions that go alike
(`Scheduler.Simulates.sessions`). On the machine clock a session comes to what
`Clock.advanceWithin` makes of the same advances (`Client.comes_run`).
-/

namespace C64

variable {ε σ κ κ' : Type}

/-! ## Schedulers -/

/-- An operation of a scheduler. Cycles are machine words. -/
inductive Scheduler.Call (ε : Type) where
  | now | elapsed | rebases | pending | nextDue?
  | due? (event : ε)
  | isPending (event : ε)
  | cyclesUntil? (event : ε)
  | setAlarm (due : UInt32) (event : ε)
  | setAlarmIn (delay : UInt32) (event : ε)
  | cancel (event : ε)
  | popDue
  | rebase

/-- What an operation answers. -/
@[reducible] def Scheduler.Call.Answer : Call ε → Type
  | .now | .elapsed | .rebases | .pending | .setAlarmIn .. | .rebase => Nat
  | .nextDue? | .due? _ | .cyclesUntil? _ => Option Nat
  | .isPending _ | .cancel _ => Bool
  | .setAlarm .. => Unit
  | .popDue => Option (Alarm ε)

/-- A cycle counter with alarms, whatever it keeps them in. -/
class Scheduler (κ : Type) (ε : outParam Type) where
  start : Nat → Except Fault κ
  now : κ → Nat
  elapsed : κ → Nat
  rebases : κ → Nat
  pending : κ → Nat
  nextDue? : κ → Option Nat
  due? : κ → ε → Option Nat
  isPending : κ → ε → Bool
  cyclesUntil? : κ → ε → Option Nat
  setAlarm : κ → Nat → ε → κ
  /-- Answers the cycle the alarm was set for. -/
  setAlarmIn : κ → Nat → ε → Except Fault (Nat × κ)
  /-- Answers whether there was an alarm. -/
  cancel : κ → ε → Bool × κ
  popDue : κ → Option (Alarm ε × κ)
  /-- Answers how far the counter was moved down. -/
  rebase : κ → Nat × κ
  /-- Moves the counter up. -/
  pass : κ → Nat → κ

namespace Scheduler

variable [Scheduler κ ε] [Scheduler κ' ε]

/-- What an operation answers, and the scheduler behind it. -/
def perform (k : κ) : (call : Call ε) → Except Fault (call.Answer × κ)
  | .now => .ok (now k, k)
  | .elapsed => .ok (elapsed k, k)
  | .rebases => .ok (rebases k, k)
  | .pending => .ok (pending k, k)
  | .nextDue? => .ok (nextDue? k, k)
  | .due? event => .ok (due? k event, k)
  | .isPending event => .ok (isPending k event, k)
  | .cyclesUntil? event => .ok (cyclesUntil? k event, k)
  | .setAlarm due event => .ok ((), setAlarm k due.toNat event)
  | .setAlarmIn delay event => setAlarmIn k delay.toNat event
  | .cancel event => .ok (cancel k event)
  | .popDue =>
    match popDue k with
    | none => .ok (none, k)
    | some (alarm, k) => .ok (some alarm, k)
  | .rebase => .ok (rebase k)

/-- Two schedulers answer every operation alike, with the same fault where they fault. -/
def Answers (k : κ) (k' : κ') : Prop :=
  ∀ call : Call ε, Matched (fun p q => p.1 = q.1) (perform k call) (perform k' call)

/-- Related schedulers answer alike, and every operation relates what it leaves. -/
structure Simulates (R : κ → κ' → Prop) : Prop where
  start (now : Nat) : Matched R (start now) (start now)
  now {k : κ} {k' : κ'} : R k k' → now k = now k'
  elapsed {k : κ} {k' : κ'} : R k k' → elapsed k = elapsed k'
  rebases {k : κ} {k' : κ'} : R k k' → rebases k = rebases k'
  pending {k : κ} {k' : κ'} : R k k' → pending k = pending k'
  nextDue? {k : κ} {k' : κ'} : R k k' → nextDue? k = nextDue? k'
  due? {k : κ} {k' : κ'} (event : ε) : R k k' → due? k event = due? k' event
  isPending {k : κ} {k' : κ'} (event : ε) : R k k' → isPending k event = isPending k' event
  cyclesUntil? {k : κ} {k' : κ'} (event : ε) :
    R k k' → cyclesUntil? k event = cyclesUntil? k' event
  setAlarm {k : κ} {k' : κ'} {due : Nat} (event : ε) :
    R k k' → due ≤ Cycle.last → R (setAlarm k due event) (setAlarm k' due event)
  setAlarmIn {k : κ} {k' : κ'} {delay : Nat} (event : ε) :
    R k k' → Matched (Beside R) (setAlarmIn k delay event) (setAlarmIn k' delay event)
  cancel {k : κ} {k' : κ'} (event : ε) : R k k' → Beside R (cancel k event) (cancel k' event)
  popDue {k : κ} {k' : κ'} : R k k' → Option.Rel (Beside R) (popDue k) (popDue k')
  rebase {k : κ} {k' : κ'} : R k k' → Beside R (rebase k) (rebase k')
  pass {k : κ} {k' : κ'} {cycles : Nat} : R k k' →
    cycles ≤ Cycle.clockMax - Scheduler.now k → R (pass k cycles) (pass k' cycles)

theorem toNat_le_last (n : UInt32) : n.toNat ≤ Cycle.last :=
  Nat.le_of_lt_succ n.toNat_lt

variable {R : κ → κ' → Prop} {k : κ} {k' : κ'}

theorem Simulates.perform (h : Simulates R) (related : R k k') (call : Call ε) :
    Matched (Beside R) (Scheduler.perform k call) (Scheduler.perform k' call) := by
  cases call with
  | now => exact .ok ⟨h.now related, related⟩
  | elapsed => exact .ok ⟨h.elapsed related, related⟩
  | rebases => exact .ok ⟨h.rebases related, related⟩
  | pending => exact .ok ⟨h.pending related, related⟩
  | nextDue? => exact .ok ⟨h.nextDue? related, related⟩
  | due? event => exact .ok ⟨h.due? event related, related⟩
  | isPending event => exact .ok ⟨h.isPending event related, related⟩
  | cyclesUntil? event => exact .ok ⟨h.cyclesUntil? event related, related⟩
  | setAlarm due event => exact .ok ⟨rfl, h.setAlarm event related (toNat_le_last due)⟩
  | setAlarmIn delay event => exact h.setAlarmIn event related
  | cancel event => exact .ok (h.cancel event related)
  | popDue =>
    have popped := h.popDue related
    simp only [Scheduler.perform]
    generalize Scheduler.popDue k = p, Scheduler.popDue k' = p' at popped
    cases popped with
    | none => exact .ok ⟨rfl, related⟩
    | some popped => exact .ok ⟨congrArg some popped.1, popped.2⟩
  | rebase => exact .ok (h.rebase related)

theorem Simulates.answers (h : Simulates R) (related : R k k') : Answers k k' :=
  fun call => (h.perform related call).mono fun _ _ same => same.1

end Scheduler

/-! ## Sessions -/

/-- A program that uses a scheduler. `σ` is what its handlers share with the code around them. -/
inductive Client (ε σ : Type) where
  | done (s : σ)
  | call (call : Scheduler.Call ε) (next : call.Answer → Client ε σ)
  | advance (cycles : UInt32) (s : σ) (handler : Alarm ε → σ → Client ε σ) (next : σ → Client ε σ)

/-- An advance that has not come to an end. -/
structure Advance (ε σ : Type) where
  /-- The cycles the counter has still to move by, if it waits for overdue alarms. -/
  ahead : Option UInt32
  handler : Alarm ε → σ → Client ε σ
  next : σ → Client ε σ

/-- A client at work on a scheduler. -/
structure Session (κ ε σ : Type) where
  scheduler : κ
  client : Client ε σ
  ongoing : List (Advance ε σ)
  /-- The cycles of all advances that were begun. -/
  begun : Nat

namespace Session

open Scheduler

def fresh (κ : Type) [Scheduler κ ε] (now : Nat) (client : Client ε σ) :
    Except Fault (Session κ ε σ) :=
  return ⟨← start now, client, [], 0⟩

variable [Scheduler κ ε] [Scheduler κ' ε]

/-- What follows a program that came to an end: the next due alarm goes to the handler of the
innermost advance. With none left the counter moves, if the advance waited for that, or the
advance is over. -/
def resume (k : κ) (s : σ) (begun : Nat) : List (Advance ε σ) → Except Fault (Session κ ε σ)
  | [] => .ok ⟨k, .done s, [], begun⟩
  | a :: rest =>
    match popDue k with
    | some (alarm, k) => .ok ⟨k, a.handler alarm s, a :: rest, begun⟩
    | none =>
      match a.ahead with
      | none => .ok ⟨k, a.next s, rest, begun⟩
      | some cycles =>
        let k := (rebase k).2
        if cycles.toNat ≤ Cycle.clockMax - now k then
          .ok ⟨pass k cycles.toNat, .done s, { a with ahead := none } :: rest, begun⟩
        else .error (.clockStuck cycles.toNat (now k))

/-- One step of a session. -/
def step (t : Session κ ε σ) : Except Fault (Session κ ε σ) :=
  match t.client with
  | .done s => resume t.scheduler s t.begun t.ongoing
  | .call call next => do
    let (answer, k) ← perform t.scheduler call
    return { t with scheduler := k, client := next answer }
  | .advance cycles s handler next =>
    let k := t.scheduler
    let begun := t.begun + cycles.toNat
    if cycles.toNat ≤ Cycle.clockMax - now k then
      .ok ⟨pass k cycles.toNat, .done s, ⟨none, handler, next⟩ :: t.ongoing, begun⟩
    else .ok ⟨k, .done s, ⟨some cycles, handler, next⟩ :: t.ongoing, begun⟩

/-- A session so many steps on. One whose client is done stays as it is. -/
def after : Nat → Session κ ε σ → Except Fault (Session κ ε σ)
  | 0, t => .ok t
  | n + 1, t => do after n (← t.step)

theorem after_add (m n : Nat) (t : Session κ ε σ) : after (m + n) t = (after m t >>= after n) := by
  induction m generalizing t with
  | zero => rw [Nat.zero_add]; rfl
  | succ m ih =>
    rw [Nat.add_right_comm]
    simp only [after]
    cases t.step with
    | error e => rfl
    | ok t => exact ih t

/-- A session that faults does so in one of its steps. -/
theorem after_error {n : Nat} {t : Session κ ε σ} {e : Fault} (h : after n t = .error e) :
    ∃ m t', after m t = .ok t' ∧ t'.step = .error e := by
  induction n generalizing t with
  | zero => cases h
  | succ n ih =>
    cases hstep : t.step with
    | error e' =>
      rw [after, hstep] at h
      cases h
      exact ⟨0, t, rfl, hstep⟩
    | ok t₁ =>
      rw [after, hstep, ok_bind] at h
      obtain ⟨m, t', hafter, hfault⟩ := ih h
      exact ⟨m + 1, t', by rw [after, hstep, ok_bind, hafter], hfault⟩

theorem after_keeps {P : Session κ ε σ → Prop}
    (keeps : ∀ t t', P t → step t = .ok t' → P t') {n : Nat} {t t' : Session κ ε σ} (ht : P t)
    (h : after n t = .ok t') : P t' := by
  induction n generalizing t with
  | zero => cases h; exact ht
  | succ n ih =>
    obtain ⟨t₁, hstep, hrest⟩ := bind_eq_ok.mp h
    exact ih (keeps t t₁ ht hstep) hrest

/-! ## Schedulers that answer alike -/

/-- Two sessions stand at the same place of the same client, with related schedulers. -/
structure Same (R : κ → κ' → Prop) (t : Session κ ε σ) (t' : Session κ' ε σ) : Prop where
  scheduler : R t.scheduler t'.scheduler
  client : t.client = t'.client
  ongoing : t.ongoing = t'.ongoing
  begun : t.begun = t'.begun

end Session

namespace Scheduler.Simulates

open Session

variable [Scheduler κ ε] [Scheduler κ' ε] {R : κ → κ' → Prop} {k : κ} {k' : κ'}

theorem resume (h : Simulates R) (related : R k k') (s : σ) (begun : Nat)
    (ongoing : List (Advance ε σ)) :
    Matched (Same R) (Session.resume k s begun ongoing) (Session.resume k' s begun ongoing) := by
  cases ongoing with
  | nil => exact .ok ⟨related, rfl, rfl, rfl⟩
  | cons a rest =>
    have popped := h.popDue related
    simp only [Session.resume]
    generalize Scheduler.popDue k = p, Scheduler.popDue k' = p' at popped
    cases popped with
    | some popped =>
      obtain ⟨alarm, k₁, k₁', rfl, rfl, related⟩ := popped.parts
      exact .ok ⟨related, rfl, rfl, rfl⟩
    | none =>
      cases a.ahead with
      | none => exact .ok ⟨related, rfl, rfl, rfl⟩
      | some cycles =>
        have related := (h.rebase related).2
        simp only [← h.now related]
        split
        · next room => exact .ok ⟨h.pass related room, rfl, rfl, rfl⟩
        · exact .error _

theorem step (h : Simulates R) {t : Session κ ε σ} {t' : Session κ' ε σ} (same : Same R t t') :
    Matched (Same R) t.step t'.step := by
  obtain ⟨k, client, ongoing, begun⟩ := t
  obtain ⟨k', _, _, _⟩ := t'
  obtain ⟨related, rfl, rfl, rfl⟩ := same
  cases client with
  | done s => exact h.resume related s begun ongoing
  | call call next =>
    refine (h.perform related call).bind fun p q both => .ok ?_
    obtain ⟨answer, k₁, k₁', rfl, rfl, related⟩ := both.parts
    exact ⟨related, rfl, rfl, rfl⟩
  | advance cycles s handler next =>
    simp only [Session.step, ← h.now related]
    split
    · next room => exact .ok ⟨h.pass related room, rfl, rfl, rfl⟩
    · exact .ok ⟨related, rfl, rfl, rfl⟩

theorem after (h : Simulates R) {t : Session κ ε σ} {t' : Session κ' ε σ} (same : Same R t t')
    (n : Nat) : Matched (Same R) (Session.after n t) (Session.after n t') := by
  induction n generalizing t t' with
  | zero => exact .ok same
  | succ n ih => exact (h.step same).bind fun _ _ same => ih same

/-- The same client on fresh schedulers goes the same way, step by step. -/
theorem sessions (h : Simulates R) (now n : Nat) (client : Client ε σ) :
    Matched (Same R) (fresh κ now client >>= Session.after n)
      (fresh κ' now client >>= Session.after n) :=
  ((h.start now).bind fun _ _ related => .ok ⟨related, rfl, rfl, rfl⟩).bind
    fun _ _ same => h.after same n

end Scheduler.Simulates

/-! ## Sessions of the machine clock -/

theorem Clock.fireDue_popDue {handle : Clock.Handler ε σ} {budget : Nat} {c c' : Clock ε}
    {s s' : σ} (h : Clock.fireDue handle budget c s = .ok (c', s')) : c'.popDue = none := by
  induction budget generalizing c s with
  | zero =>
    simp only [Clock.fireDue] at h
    split at h
    · next hnone => cases h; simpa using hnone
    · cases h
  | succ budget ih =>
    simp only [Clock.fireDue] at h
    split at h
    · next hnone => cases h; exact hnone
    · obtain ⟨⟨c₁, s₁⟩, _, hrest⟩ := bind_eq_ok.mp h
      exact ih hrest

section Events

variable [DecidableEq ε] [ToString ε]

instance : Scheduler (Clock ε) ε where
  start := Clock.start
  now := Clock.now
  elapsed := Clock.elapsed
  rebases := Clock.rebases
  pending := Clock.pending
  nextDue? := Clock.nextDue?
  due? := Clock.due?
  isPending := Clock.isPending
  cyclesUntil? := Clock.cyclesUntil?
  setAlarm := Clock.setAlarm
  setAlarmIn := Clock.setAlarmIn
  cancel c event := (c.isPending event, c.cancel event)
  popDue := Clock.popDue
  rebase c := (c.rebaseOffset, c.rebase)
  pass c cycles := { c with now := c.now + cycles }

/-- A client on the machine clock, with the clock's own advance. -/
def Client.run (budget : Nat) : Client ε σ → Clock ε → Except Fault (Clock ε × σ)
  | .done s, c => .ok (c, s)
  | .call op next, c => do
    let (answer, c) ← Scheduler.perform c op
    (next answer).run budget c
  | .advance cycles s handler next, c => do
    let (c, s) ← c.advanceWithin budget (fun alarm c s => (handler alarm s).run budget c)
      cycles.toNat s
    (next s).run budget c

/-- What a session comes to, seen from the result of a run with a budget: it gets where the run
ends, or faults as the run does, unless the run ended for want of budget. -/
inductive Session.ComesTo (t : Session (Clock ε) ε σ) (ongoing : List (Advance ε σ)) :
    Except Fault (Clock ε × σ) → Prop
  | done {n begun : Nat} {c : Clock ε} {s : σ} :
      after n t = .ok ⟨c, .done s, ongoing, begun⟩ → ComesTo t ongoing (.ok (c, s))
  | fault {n : Nat} {e : Fault} : after n t = .error e → ComesTo t ongoing (.error e)
  | budget : ComesTo t ongoing (.error .tooManyAlarms)

namespace Session.ComesTo

open Session

variable {t t' : Session (Clock ε) ε σ} {ongoing : List (Advance ε σ)}

theorem step {r : Except Fault (Clock ε × σ)} (h : t.step = .ok t') (rest : ComesTo t' ongoing r) :
    ComesTo t ongoing r := by
  have ahead : ∀ n, after (n + 1) t = after n t' := fun n => by rw [after, h, ok_bind]
  cases rest with
  | done h => exact .done ((ahead _).trans h)
  | fault h => exact .fault ((ahead _).trans h)
  | budget => exact .budget

/-- What a session comes to in two parts. -/
theorem bind {ongoing' : List (Advance ε σ)} {x : Except Fault (Clock ε × σ)}
    {f : Clock ε × σ → Except Fault (Clock ε × σ)} (h : ComesTo t ongoing x)
    (rest : ∀ c s begun, x = .ok (c, s) →
      ComesTo ⟨c, .done s, ongoing, begun⟩ ongoing' (f (c, s))) :
    ComesTo t ongoing' (x >>= f) := by
  cases h with
  | @done n begun c s h =>
    rw [ok_bind]
    have ahead : ∀ m, after (n + m) t = after m ⟨c, .done s, ongoing, begun⟩ :=
      fun m => by rw [after_add, h, ok_bind]
    generalize hf : f (c, s) = r
    cases hf ▸ rest c s begun rfl with
    | done h => exact .done ((ahead _).trans h)
    | fault h => exact .fault ((ahead _).trans h)
    | budget => exact .budget
  | fault h => exact .fault h
  | budget => exact .budget

end Session.ComesTo

namespace Client

open Session

variable {budget : Nat}

/-- The alarms that fall due go to the handler one by one, in a session as in the clock. -/
theorem comes_fireDue (a : Advance ε σ) (rest : List (Advance ε σ))
    (each : ∀ alarm s (c : Clock ε) begun,
      ComesTo ⟨c, a.handler alarm s, a :: rest, begun⟩ (a :: rest)
        ((a.handler alarm s).run budget c))
    (left : Nat) (c : Clock ε) (s : σ) (begun : Nat) :
    ComesTo ⟨c, .done s, a :: rest, begun⟩ (a :: rest)
      (c.fireDue (fun alarm c s => (a.handler alarm s).run budget c) left s) := by
  induction left generalizing c s begun with
  | zero =>
    simp only [Clock.fireDue]
    split
    · exact .done (n := 0) rfl
    · exact .budget
  | succ left ih =>
    simp only [Clock.fireDue]
    cases hpop : c.popDue with
    | none => exact .done (n := 0) rfl
    | some popped =>
      obtain ⟨alarm, c₁⟩ := popped
      have handed : Session.step ⟨c, .done s, a :: rest, begun⟩ =
          .ok ⟨c₁, a.handler alarm s, a :: rest, begun⟩ := by
        simp only [Session.step, resume, Scheduler.popDue, hpop]
      exact .step handed ((each alarm s c₁ begun).bind fun c₂ s₂ begun₂ _ => ih c₂ s₂ begun₂)

section Advance

variable {handler : Alarm ε → σ → Client ε σ} {next : σ → Client ε σ}
  (each : ∀ alarm s (c : Clock ε) ongoing begun,
    ComesTo ⟨c, handler alarm s, ongoing, begun⟩ ongoing ((handler alarm s).run budget c))
  (behind : ∀ s (c : Clock ε) ongoing begun,
    ComesTo ⟨c, next s, ongoing, begun⟩ ongoing ((next s).run budget c))
include each behind

/-- With the counter moved, the rest of an advance is the firing of what is due by then. -/
theorem comes_passed (c : Clock ε) (s : σ) (ongoing : List (Advance ε σ)) (begun : Nat) :
    ComesTo ⟨c, .done s, ⟨none, handler, next⟩ :: ongoing, begun⟩ ongoing (do
      let (c, s) ← c.fireDue (fun alarm c s => (handler alarm s).run budget c) budget s
      (next s).run budget c) := by
  refine (comes_fireDue ⟨none, handler, next⟩ ongoing (fun alarm s c begun => each ..) ..).bind ?_
  intro c₁ s₁ begun₁ hfire
  have finished : Session.step ⟨c₁, .done s₁, ⟨none, handler, next⟩ :: ongoing, begun₁⟩ =
      .ok ⟨c₁, next s₁, ongoing, begun₁⟩ := by
    simp only [Session.step, resume, Scheduler.popDue, Clock.fireDue_popDue hfire]
  exact .step finished (behind ..)

theorem comes_advance (cycles : UInt32) (c : Clock ε) (s : σ) (ongoing : List (Advance ε σ))
    (begun : Nat) :
    ComesTo ⟨c, .advance cycles s handler next, ongoing, begun⟩ ongoing
      ((Client.advance cycles s handler next).run budget c) := by
  simp only [run, Clock.advanceWithin, Clock.makeRoom]
  -- The counter has room at once, or what is overdue goes first and the clock is rebased.
  by_cases room : cycles.toNat ≤ Cycle.clockMax - c.now
  · simp only [if_pos room, ok_bind]
    exact .step (if_pos room) (comes_passed each behind ..)
  · simp only [if_neg room]
    refine .step (if_neg room) ?_
    simp only [bind_assoc]
    refine (comes_fireDue ⟨some cycles, handler, next⟩ ongoing
      (fun alarm s c begun => each ..) ..).bind ?_
    intro c₁ s₁ begun₁ hfire
    have turn : Session.step ⟨c₁, .done s₁, ⟨some cycles, handler, next⟩ :: ongoing, begun₁⟩ =
        if cycles.toNat ≤ Cycle.clockMax - c₁.rebase.now then
          .ok ⟨{ c₁.rebase with now := c₁.rebase.now + cycles.toNat }, .done s₁,
            ⟨none, handler, next⟩ :: ongoing, begun₁⟩
        else .error (.clockStuck cycles.toNat c₁.rebase.now) := by
      simp only [Session.step, resume, Scheduler.popDue, Clock.fireDue_popDue hfire]
      rfl
    by_cases fits : cycles.toNat ≤ Cycle.clockMax - c₁.rebase.now
    · rw [if_pos fits] at turn ⊢
      exact .step turn (comes_passed each behind ..)
    · rw [if_neg fits] at turn ⊢
      exact .fault (n := 1) (by rw [after, turn]; rfl)

end Advance

/-- A session comes to what a run with any budget comes to, wherever in a client the run begins. -/
theorem comes_run (budget : Nat) (client : Client ε σ) (c : Clock ε) (ongoing : List (Advance ε σ))
    (begun : Nat) : ComesTo ⟨c, client, ongoing, begun⟩ ongoing (client.run budget c) := by
  induction client generalizing c ongoing begun with
  | done s => exact .done (n := 0) rfl
  | call op next ih =>
    simp only [run]
    cases h : Scheduler.perform c op with
    | error e => exact .fault (n := 1) (by simp [after, Session.step, h, bind, Except.bind])
    | ok answered =>
      have answer : Session.step ⟨c, .call op next, ongoing, begun⟩ =
          .ok ⟨answered.2, next answered.1, ongoing, begun⟩ := by
        simp [Session.step, h, bind, Except.bind, pure, Except.pure]
      exact .step answer (ih ..)
  | advance cycles s handler next each ih => exact comes_advance each ih ..

end Client

end Events

end C64
