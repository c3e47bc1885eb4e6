import Mathlib.Algebra.GroupWithZero.Nat
import C64.Proofs.Clock.Agenda
import C64.Proofs.Clock.Pending
import C64.Proofs.Clock.Serving
import C64.Proofs.Clock.Sessions

/-!
# Time is neither lost nor made

Whatever a client does to the machine clock, the counter never passes `Cycle.clockMax`, and the
cycles that have gone by are those of the advances that were begun, less what the ones under way
have still to move the counter by (`Session.Kept`).

An advance that finds no room hands out what is due first. Behind that nothing holds the counter
up, so a rebase brings it to zero: there is room for every advance up to `Cycle.clockMax` and for
none above it (`Session.step_drained`, `Clock.makeRoom_drained`).
`counter_bounded_time_conserved` puts it together.
-/

namespace C64

variable {ε σ : Type}

namespace Clock

theorem WellFormed.distances_rebase {c : Clock ε} (hc : c.WellFormed) :
    c.rebase.distances = c.distances :=
  distances_eq_of_agenda c.elapsed_rebase hc.agenda_rebase

theorem elapsed_popDue {c c' : Clock ε} {alarm : Alarm ε} (h : c.popDue = some (alarm, c')) :
    c'.elapsed = c.elapsed := by
  obtain ⟨_, _, _, _, _, rfl⟩ := popDue_eq_some h
  rfl

/-- With nothing due, a rebase brings the counter to zero. -/
theorem WellFormed.rebase_now_drained {c : Clock ε} (hc : c.WellFormed)
    (drained : c.popDue = none) : c.rebase.now = 0 :=
  rebase_now (hc.none_due drained)

/-- Where the firing of what is due comes to an end, an advance gets room for `Cycle.clockMax`
cycles and no more. -/
theorem makeRoom_drained [DecidableEq ε] {handle : Handler ε σ}
    (lawful : handle.Lawful fun _ => True) {budget : Nat} {c c' : Clock ε} {s s' : σ}
    (hc : c.Reachable) (drained : c.fireDue handle budget s = .ok (c', s')) (cycles : Nat) :
    c.makeRoom handle budget cycles s =
      if cycles ≤ Cycle.clockMax - c.now then .ok (c, s)
      else if cycles ≤ Cycle.clockMax then .ok (c'.rebase, s')
      else .error (.clockStuck cycles 0) := by
  have hc' := (hc.fireDue lawful trivial drained).1.wellFormed
  have zero := hc'.rebase_now_drained (fireDue_popDue drained)
  simp only [makeRoom, drained, ok_bind, zero, Nat.sub_zero]

end Clock

/-! ## One operation -/

variable [DecidableEq ε] [ToString ε]

namespace Scheduler

variable {c c' : Clock ε}

theorem perform_keeps (hc : c.Reachable) {call : Call ε} {answer : call.Answer}
    (h : perform c call = .ok (answer, c')) : c'.Reachable ∧ c'.elapsed = c.elapsed := by
  cases call with
  | setAlarm due event => cases h; exact ⟨hc.setAlarm event (toNat_le_last due), rfl⟩
  | setAlarmIn delay event =>
    refine ⟨hc.setAlarmIn h, ?_⟩
    rw [Clock.setAlarmIn_ok h]
    rfl
  | cancel event => cases h; exact ⟨hc.cancel event, rfl⟩
  | popDue =>
    simp only [perform] at h
    split at h
    · cases h; exact ⟨hc, rfl⟩
    · next hpop => cases h; exact ⟨hc.popDue hpop, Clock.elapsed_popDue hpop⟩
  | rebase => cases h; exact ⟨hc.rebase, c.elapsed_rebase⟩
  | _ => cases h; exact ⟨hc, rfl⟩

/-- No operation but an advance asks for room. -/
theorem perform_not_stuck {call : Call ε} {cycles now : Nat} :
    perform c call ≠ .error (.clockStuck cycles now) := by
  cases call with
  | setAlarmIn delay event =>
    simp only [perform, Scheduler.setAlarmIn, Clock.setAlarmIn]
    split <;> simp
  | popDue =>
    simp only [perform]
    split <;> simp
  | _ => simp [perform]

end Scheduler

/-- A client leads from reachable clocks to reachable ones. -/
theorem Client.run_reachable {budget : Nat} {client : Client ε σ} {c c' : Clock ε} {s' : σ}
    (hc : c.Reachable) (h : client.run budget c = .ok (c', s')) : c'.Reachable := by
  induction client generalizing c c' s' with
  | done s => cases h; exact hc
  | call op next ih =>
    obtain ⟨⟨answer, c₁⟩, hop, hrest⟩ := bind_eq_ok.mp h
    exact ih answer (Scheduler.perform_keeps hc hop).1 hrest
  | advance cycles s handler next each ih =>
    obtain ⟨⟨c₁, s₁⟩, hadvance, hrest⟩ := bind_eq_ok.mp h
    have lawful : Clock.Handler.Lawful (fun alarm c s => (handler alarm s).run budget c)
        fun _ => True :=
      fun alarm c s c' s' hc _ h => ⟨each alarm s hc h, trivial⟩
    exact ih s₁ (hc.advanceWithin lawful trivial hadvance).1 hrest

/-- What a client's handler does to the clock is lawful. -/
theorem Client.handler_lawful (budget : Nat) (handler : Alarm ε → σ → Client ε σ) :
    Clock.Handler.Lawful (fun alarm c s => (handler alarm s).run budget c) fun _ => True :=
  fun _ _ _ _ _ hc _ h => ⟨Client.run_reachable hc h, trivial⟩

/-! ## One step -/

/-- The cycles an advance has still to move the counter by. -/
def Advance.owed (a : Advance ε σ) : Nat := (a.ahead.map (·.toNat)).getD 0

namespace Session

/-- The cycles the advances under way have still to move the counter by. -/
def owed (t : Session (Clock ε) ε σ) : Nat := (t.ongoing.map (·.owed)).sum

/-- The clock of a session came about by its operations, and the time that has gone by is that of
the advances. -/
structure Kept (start : Nat) (t : Session (Clock ε) ε σ) : Prop where
  reachable : t.scheduler.Reachable
  time : t.scheduler.elapsed + t.owed = start + t.begun

variable {start : Nat} {t t' : Session (Clock ε) ε σ}

/-- With nothing due, an advance that waits gets room for `Cycle.clockMax` cycles and no more. -/
theorem step_drained (reachable : t.scheduler.Reachable) {s : σ} {a : Advance ε σ}
    {rest : List (Advance ε σ)} {cycles : UInt32} (hclient : t.client = .done s)
    (hongoing : t.ongoing = a :: rest) (hahead : a.ahead = some cycles)
    (drained : t.scheduler.popDue = none) :
    t.step = if cycles.toNat ≤ Cycle.clockMax then
        .ok { t with
          scheduler := { t.scheduler.rebase with now := cycles.toNat }
          ongoing := { a with ahead := none } :: rest }
      else .error (.clockStuck cycles.toNat 0) := by
  have zero := reachable.wellFormed.rebase_now_drained drained
  simp only [step, hclient, hongoing, resume, Scheduler.popDue, drained, hahead, Scheduler.rebase,
    Scheduler.now, Scheduler.pass, zero, Nat.sub_zero, Nat.zero_add]

omit [ToString ε] in
/-- The counter moves by what was owed. -/
theorem kept_pass {c : Clock ε} {cycles : Nat} {client : Client ε σ}
    {ongoing : List (Advance ε σ)} {begun : Nat} (reachable : c.Reachable)
    (room : cycles ≤ Cycle.clockMax - c.now)
    (time : c.elapsed + cycles + (ongoing.map (·.owed)).sum = start + begun) :
    Kept start ⟨{ c with now := c.now + cycles }, client, ongoing, begun⟩ where
  reachable := reachable.pass (by
    have := reachable.wellFormed.now_le
    omega)
  time := by
    show c.base + (c.now + cycles) + _ = _
    rw [← Nat.add_assoc]
    exact time

theorem Kept.resume {c : Clock ε} {s : σ} {begun : Nat} {ongoing : List (Advance ε σ)}
    (h : Kept start ⟨c, .done s, ongoing, begun⟩)
    (hresume : Session.resume c s begun ongoing = .ok t') : t'.Kept start := by
  obtain ⟨reachable, time⟩ := h
  cases ongoing with
  | nil => cases hresume; exact ⟨reachable, time⟩
  | cons a rest =>
    simp only [Session.resume] at hresume
    split at hresume
    · next hpop =>
      cases hresume
      exact ⟨reachable.popDue hpop, by rw [Clock.elapsed_popDue hpop]; exact time⟩
    · split at hresume
      · next hahead =>
        cases hresume
        refine ⟨reachable, ?_⟩
        simpa [owed, Advance.owed, hahead] using time
      · next cycles hahead =>
        split at hresume
        · next room =>
          cases hresume
          refine kept_pass reachable.rebase room ?_
          rw [show (Scheduler.rebase c).2.elapsed = c.elapsed from c.elapsed_rebase]
          simpa [owed, Advance.owed, hahead, ← Nat.add_assoc] using time
        · cases hresume

theorem Kept.step (h : t.Kept start) (hstep : t.step = .ok t') : t'.Kept start := by
  obtain ⟨c, client, ongoing, begun⟩ := t
  cases client with
  | done s => exact h.resume hstep
  | call op next =>
    obtain ⟨⟨answer, c₁⟩, hop, hrest⟩ := bind_eq_ok.mp hstep
    obtain ⟨reachable, elapsed⟩ := Scheduler.perform_keeps h.reachable hop
    cases hrest
    exact ⟨reachable, elapsed ▸ h.time⟩
  | advance cycles s handler next =>
    have time := h.time
    simp only [Session.step] at hstep
    split at hstep
    · next room =>
      cases hstep
      refine kept_pass h.reachable room ?_
      simp only [owed, List.map_cons, List.sum_cons, Advance.owed, Option.map_none,
        Option.getD_none] at time ⊢
      omega
    · cases hstep
      refine ⟨h.reachable, ?_⟩
      simp only [owed, List.map_cons, List.sum_cons, Advance.owed, Option.map_some,
        Option.getD_some] at time ⊢
      omega

theorem kept_fresh {now n : Nat} {client : Client ε σ}
    (h : (fresh (Clock ε) now client >>= after n) = .ok t) : t.Kept now := by
  obtain ⟨t₀, hfresh, hafter⟩ := bind_eq_ok.mp h
  obtain ⟨c, hstart, heq⟩ := bind_eq_ok.mp hfresh
  cases heq
  have reachable : c.Reachable := .start hstart
  refine after_keeps (P := Kept now) (fun _ _ kept hstep => kept.step hstep) ⟨reachable, ?_⟩ hafter
  have : c = ⟨now, 0, 0, 0, []⟩ := by
    have hstart : Clock.start now = .ok c := hstart
    unfold Clock.start at hstart
    split at hstart
    · cases hstart; rfl
    · cases hstart
  simp [this, Clock.elapsed, owed]

/-- A step that finds no room is one of an advance by more than `Cycle.clockMax` cycles. -/
theorem Kept.stuck (h : t.Kept start) {cycles now : Nat}
    (hstep : t.step = .error (.clockStuck cycles now)) : Cycle.clockMax < cycles := by
  obtain ⟨c, client, ongoing, begun⟩ := t
  cases client with
  | done s =>
    cases ongoing with
    | nil => cases hstep
    | cons a rest =>
      cases hpop : c.popDue with
      | some popped => simp [Session.step, Session.resume, Scheduler.popDue, hpop] at hstep
      | none =>
        cases hahead : a.ahead with
        | none => simp [Session.step, Session.resume, Scheduler.popDue, hpop, hahead] at hstep
        | some wanted =>
          rw [step_drained h.reachable rfl rfl hahead hpop] at hstep
          split at hstep
          · cases hstep
          · cases hstep
            omega
  | call op next =>
    cases hop : Scheduler.perform c op with
    | error e =>
      simp only [Session.step, hop, bind, Except.bind] at hstep
      cases hstep
      exact absurd hop Scheduler.perform_not_stuck
    | ok answered => simp [Session.step, hop, bind, Except.bind, pure, Except.pure] at hstep
  | advance cycles s handler next =>
    simp only [Session.step] at hstep
    split at hstep <;> cases hstep

end Session

/-- The clock's own advances are stuck only on more than `Cycle.clockMax` cycles, however they are
nested. -/
theorem Client.run_stuck {budget cycles now : Nat} {client : Client ε σ} {c : Clock ε}
    (hc : c.Reachable) (h : client.run budget c = .error (.clockStuck cycles now)) :
    Cycle.clockMax < cycles := by
  have comes := client.comes_run budget c [] 0
  rw [h] at comes
  cases comes with
  | fault hfault =>
    obtain ⟨m, t, hafter, hstep⟩ := Session.after_error hfault
    have kept : t.Kept c.elapsed :=
      Session.after_keeps (fun _ _ kept hstep => kept.step hstep) ⟨hc, by simp [Session.owed]⟩
        hafter
    exact kept.stuck hstep

/-! ## Every moment of a session -/

/-- Wherever a client that was given a fresh clock stands, in a handler or in an advance within
one:

* the counter is no higher than `Cycle.clockMax`, and a rebase takes no more off the counter or off
  an alarm than there is, and leaves the time that has gone by and the distance of every alarm;
* the time that has gone by and what is still owed make up the start and all advances begun, so
  that with no advance under way it is the start and the advances;
* an advance with nothing left to hand out gets its cycles if they are no more than
  `Cycle.clockMax`, is stuck if they are more, and no step is stuck otherwise;
* the same is true of the room that the clock's own advance makes, whatever the handler is. -/
theorem counter_bounded_time_conserved {client : Client ε σ} {start n : Nat}
    {t : Session (Clock ε) ε σ}
    (h : (Session.fresh (Clock ε) start client >>= Session.after n) = .ok t) :
    (t.scheduler.now ≤ Cycle.clockMax ∧
      t.scheduler.rebaseOffset ≤ t.scheduler.now ∧
      (∀ e ∈ t.scheduler.queue, t.scheduler.rebaseOffset ≤ e.due) ∧
      t.scheduler.rebase.elapsed = t.scheduler.elapsed ∧
      t.scheduler.rebase.distances = t.scheduler.distances) ∧
    (t.scheduler.elapsed + t.owed = start + t.begun ∧
      (t.ongoing = [] → t.scheduler.elapsed = start + t.begun)) ∧
    ((∀ s a rest cycles, t.client = .done s → t.ongoing = a :: rest → a.ahead = some cycles →
        t.scheduler.popDue = none →
          t.step = if cycles.toNat ≤ Cycle.clockMax then
              .ok { t with
                scheduler := { t.scheduler.rebase with now := cycles.toNat }
                ongoing := { a with ahead := none } :: rest }
            else .error (.clockStuck cycles.toNat 0)) ∧
      ∀ cycles now, t.step = .error (.clockStuck cycles now) → Cycle.clockMax < cycles) ∧
    ∀ (handler : Alarm ε → σ → Client ε σ) (budget cycles : Nat) (s s' : σ) (c' : Clock ε),
      t.scheduler.fireDue (fun alarm c s => (handler alarm s).run budget c) budget s =
          .ok (c', s') →
        t.scheduler.makeRoom (fun alarm c s => (handler alarm s).run budget c) budget cycles s =
          if cycles ≤ Cycle.clockMax - t.scheduler.now then .ok (t.scheduler, s)
          else if cycles ≤ Cycle.clockMax then .ok (c'.rebase, s')
          else .error (.clockStuck cycles 0) := by
  have kept := Session.kept_fresh h
  have sound := kept.reachable.wellFormed
  refine ⟨⟨sound.now_le, t.scheduler.rebaseOffset_le_now, fun e => sound.rebaseOffset_le_due,
    t.scheduler.elapsed_rebase, sound.distances_rebase⟩, ⟨kept.time, fun idle => ?_⟩,
    ⟨fun s a rest cycles => Session.step_drained kept.reachable, fun cycles now => kept.stuck⟩, ?_⟩
  · have time := kept.time
    rwa [Session.owed, idle, List.map_nil, List.sum_nil, Nat.add_zero] at time
  · intro handler budget cycles s s' c' drained
    have lawful := Client.handler_lawful budget handler
    exact Clock.makeRoom_drained lawful kept.reachable drained cycles

/-- A client near the top of the counter: an overdue alarm, an advance that has to wait for it, and
a handler that advances the clock itself. -/
def brink : Client Bool Nat :=
  .call (.setAlarm 3 true) fun _ =>
    .advance 10 0 (fun _ fired => .advance 2 (fired + 1) (fun _ fired => .done fired) .done) .done

theorem counter_bounded_time_conserved_brink :
    ∃ t, (Session.fresh (Clock Bool) (Cycle.clockMax - 5) brink >>= Session.after 12) = .ok t ∧
      t.client = .done 1 ∧ t.scheduler.now = 10 ∧ t.scheduler.rebases = 1 ∧ t.begun = 12 ∧
      t.scheduler.elapsed = Cycle.clockMax - 5 + 12 := by
  have run : (Session.fresh (Clock Bool) (Cycle.clockMax - 5) brink >>= Session.after 12) =
      .ok ⟨⟨10, Cycle.clockMax - 3, 1, 1, []⟩, .done 1, [], 12⟩ := rfl
  exact ⟨_, run, rfl, rfl, rfl, rfl, (counter_bounded_time_conserved run).2.1.2 rfl⟩

end C64
