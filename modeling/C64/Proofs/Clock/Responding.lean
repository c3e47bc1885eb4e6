import Mathlib.Data.List.Perm.Subperm
import C64.Proofs.Clock.Firing

/-!
# Handlers that are responders

The chips write their handlers against the clock as it stands. Where such a handler does what a
responder does (`Responder.Describes`), an advance of it is one of the responder. An advance
handles a bounded number of alarms, and `Clock.alarmBudget` is above the bound: each event waits
once, and each alarm that fires leaves a cycle behind for good (`Fires.le_slack`). So
`Responder.advance` promises that advances succeed, with nothing said of a budget.
-/

namespace C64.Clock

variable {ε σ : Type}

/-! ## Alarms that set themselves again -/

/-- The responder asks for one thing at a time. -/
def Responder.Single (r : Responder ε σ) : Prop := ∀ due event s, (r due event s).1.length ≤ 1

/-- The responder to alarms that set themselves again, or do not, and touch no other alarm. -/
def recurring (again : ε → σ → Option Nat) (expire : ε → σ → σ) : Responder ε σ :=
  fun _ event s => (((again event s).map fun delay => .set delay event).toList, expire event s)

theorem recurring_single (again : ε → σ → Option Nat) (expire : ε → σ → σ) :
    (recurring again expire).Single := by
  intro due event s
  unfold recurring
  cases again event s <;> simp

theorem recurring_steady {again : ε → σ → Option Nat} {expire : ε → σ → σ} {Good : σ → Prop}
    (ahead : ∀ event s, Good s → ∀ delay ∈ again event s, 1 ≤ delay ∧ delay ≤ Cycle.headroom)
    (keeps : ∀ event s, Good s → Good (expire event s)) :
    (recurring again expire).Steady Good where
  ahead due event s hs x hx := by
    unfold recurring at hx
    cases hd : again event s with
    | none => rw [hd] at hx; exact absurd hx (by simp)
    | some delay =>
      rw [hd] at hx
      obtain rfl := List.mem_singleton.mp hx
      exact ahead event s hs delay hd
  keeps due event s hs := keeps event s hs

/-! ## How many alarms fire -/

/-- The cycles up to a limit that the alarms of an agenda have left, each on its own. -/
def Agenda.slack (limit : Nat) : Agenda ε → Nat
  | [] => 0
  | x :: rest => (limit + 1 - x.1) + slack limit rest

theorem Agenda.slack_insert (limit : Nat) (x : Nat × ε) (q : Agenda ε) :
    (insert x q).slack limit = (limit + 1 - x.1) + q.slack limit := by
  induction q with
  | nil => rfl
  | cons y rest ih =>
    simp only [insert]
    split
    · simp only [slack, ih]
      omega
    · rfl

theorem Agenda.slack_le {limit width : Nat} {q : Agenda ε}
    (h : ∀ x ∈ q, limit + 1 - x.1 ≤ width) : q.slack limit ≤ q.length * width := by
  induction q with
  | nil => exact Nat.zero_le _
  | cons x rest ih =>
    have first := h x (.head rest)
    have others := ih fun y hy => h y (.tail x hy)
    rw [slack, List.length_cons, Nat.succ_mul]
    omega

/-- There are no more alarms than events. -/
theorem WellFormed.length_agenda_le {c : Clock ε} (hc : c.WellFormed) {events : List ε}
    (hall : ∀ e, e ∈ events) : c.agenda.length ≤ events.length := by
  have among : c.queue.map (·.event) ⊆ events := fun e _ => hall e
  have := (hc.nodup.subperm among).length_le
  unfold agenda
  simpa using this

variable [DecidableEq ε]

theorem Agenda.slack_cancel (limit : Nat) (event : ε) (q : Agenda ε) :
    (q.cancel event).slack limit ≤ q.slack limit := by
  induction q with
  | nil => exact Nat.le_refl _
  | cons y rest ih =>
    unfold cancel at *
    simp only [List.filter_cons]
    split
    · simp only [slack]
      omega
    · simp only [slack]
      omega

/-- Every alarm that fires uses up a cycle of the slack: the only one that can be set for it lies
behind it. -/
theorem Fires.le_slack {r : Responder ε σ} {Good : σ → Prop} (hr : r.Steady Good)
    (hsingle : r.Single) {limit n : Nat} {q q' : Agenda ε} {s s' : σ} (hs : Good s)
    (h : Fires r limit n q s q' s') : n ≤ q.slack limit := by
  induction h with
  | done _ => exact Nat.zero_le _
  | @fire due n event q q' s s' hdue _ ih =>
    have rest := ih (hr.keeps due event s hs)
    have ahead := hr.ahead due event s hs
    -- The alarm gives up its slack, and the one that may be set for it has at least a cycle less.
    have less : ((r due event s).1.foldl (Request.apply due) q).slack limit + 1 ≤
        (limit + 1 - due) + q.slack limit := by
      have one := hsingle due event s
      cases hreq : (r due event s).1 with
      | nil => simp only [List.foldl_nil]; omega
      | cons x more =>
        rw [hreq] at one ahead
        obtain rfl : more = [] := List.eq_nil_of_length_eq_zero (by simpa using one)
        simp only [List.foldl_cons, List.foldl_nil]
        cases x with
        | set delay other =>
          have := ahead _ (.head [])
          have := q.slack_cancel limit other
          show (Agenda.insert (due + delay, other) (q.cancel other)).slack limit + 1 ≤ _
          rw [Agenda.slack_insert]
          unfold Request.Ahead at *
          omega
        | cancel other =>
          have := q.slack_cancel limit other
          show (q.cancel other).slack limit + 1 ≤ _
          omega
    show n + 1 ≤ (limit + 1 - due) + q.slack limit
    omega

/-- The alarms that fire in one advance are bounded by the number of events. -/
theorem Responder.Leads.count_le {r : Responder ε σ} {Good : σ → Prop} (hr : r.Steady Good)
    (hsingle : r.Single) {events : List ε} (hall : ∀ e, e ∈ events) {n : Nat} {c c' : Clock ε}
    {s s' : σ} (hc : c.WellFormed) (hs : Good s) (h : r.Leads Good n c s c' s') {cycles : Nat}
    (he : c'.elapsed = c.elapsed + cycles) (hcycles : cycles ≤ Cycle.clockMax) :
    n ≤ events.length * (2 * Cycle.clockMax + 1) := by
  refine Nat.le_trans (h.fires.le_slack hr hsingle hs) ?_
  refine Nat.le_trans (Agenda.slack_le fun x hx => ?_)
    (Nat.mul_le_mul_right _ (hc.length_agenda_le hall))
  obtain ⟨e, _, rfl⟩ := mem_agenda.mp hx
  have := hc.now_le
  unfold elapsed at *
  simp only []
  omega

/-! ## Handlers that are responders -/

/-- A handler does what a responder does as long as the state is a good one. -/
def Responder.Describes (r : Responder ε σ) (Good : σ → Prop) (handle : Handler ε σ) : Prop :=
  ∀ alarm c s, Good s → handle alarm c s = r.handler alarm c s

theorem Responder.handler_good {r : Responder ε σ} {Good : σ → Prop} (hr : r.Steady Good)
    {alarm : Alarm ε} {c c' : Clock ε} {s s' : σ} (hs : Good s)
    (h : r.handler alarm c s = .ok (c', s')) : Good s' := by
  obtain ⟨c₁, -, hret⟩ := bind_eq_ok.mp h
  cases hret
  exact hr.keeps _ _ s hs

theorem Request.perform_reachable {c c' : Clock ε} (hc : c.Reachable) {due : Nat} {x : Request ε}
    (h : x.perform due c = .ok c') : c'.Reachable := by
  cases x with
  | set delay event =>
    obtain ⟨cycle, hadd, hret⟩ := bind_eq_ok.mp h
    cases hret
    unfold Cycle.add at hadd
    split at hadd
    · next room => cases hadd; exact hc.setAlarm event room
    · exact absurd hadd (by simp)
  | cancel event => cases h; exact hc.cancel event

theorem Request.foldlM_reachable {due : Nat} {requests : List (Request ε)} {c c' : Clock ε}
    (hc : c.Reachable) (h : requests.foldlM (Request.perform due) c = .ok c') : c'.Reachable := by
  induction requests generalizing c with
  | nil => cases h; exact hc
  | cons x rest ih =>
    obtain ⟨c₁, hx, hrest⟩ := bind_eq_ok.mp h
    exact ih (Request.perform_reachable hc hx) hrest

theorem Responder.handler_lawful {r : Responder ε σ} {Good : σ → Prop} (hr : r.Steady Good) :
    Handler.Lawful r.handler Good := by
  intro alarm c s c' s' hc hs h
  obtain ⟨c₁, hdo, hret⟩ := bind_eq_ok.mp h
  cases hret
  exact ⟨Request.foldlM_reachable hc hdo, hr.keeps _ _ s hs⟩

theorem Responder.Describes.fireDue {r : Responder ε σ} {Good : σ → Prop} (hr : r.Steady Good)
    {handle : Handler ε σ} (h : r.Describes Good handle) (budget : Nat) (c : Clock ε) {s : σ}
    (hs : Good s) : Clock.fireDue handle budget c s = Clock.fireDue r.handler budget c s := by
  induction budget generalizing c s with
  | zero => rfl
  | succ budget ih =>
    unfold Clock.fireDue
    split
    · rfl
    · next alarm c₁ _ =>
      rw [h alarm c₁ s hs]
      cases hdo : r.handler alarm c₁ s with
      | error e => rfl
      | ok out => exact ih out.1 (Responder.handler_good hr hs hdo)

theorem Responder.fireDue_good {r : Responder ε σ} {Good : σ → Prop} (hr : r.Steady Good)
    {budget : Nat} {c c' : Clock ε} {s s' : σ} (hs : Good s)
    (h : Clock.fireDue r.handler budget c s = .ok (c', s')) : Good s' := by
  induction budget generalizing c s with
  | zero =>
    unfold Clock.fireDue at h
    split at h
    · cases h; exact hs
    · exact absurd h (by simp)
  | succ budget ih =>
    unfold Clock.fireDue at h
    split at h
    · cases h; exact hs
    · obtain ⟨⟨c₂, s₂⟩, hdo, hrest⟩ := bind_eq_ok.mp h
      exact ih (Responder.handler_good hr hs hdo) hrest

theorem Responder.Describes.advanceWithin {r : Responder ε σ} {Good : σ → Prop}
    (hr : r.Steady Good) {handle : Handler ε σ} (h : r.Describes Good handle)
    (budget cycles : Nat) (c : Clock ε) {s : σ} (hs : Good s) :
    Clock.advanceWithin budget handle cycles c s =
      Clock.advanceWithin budget r.handler cycles c s := by
  unfold Clock.advanceWithin makeRoom
  split
  · exact h.fireDue hr budget _ hs
  · rw [h.fireDue hr budget c hs]
    cases hfire : Clock.fireDue r.handler budget c s with
    | error e => rfl
    | ok out =>
      simp only [bind, Except.bind]
      split
      · rfl
      · next hroom =>
        split at hroom
        · cases hroom
          exact h.fireDue hr budget _ (Responder.fireDue_good hr hs hfire)
        · exact absurd hroom (by simp)

/-- A handler that a responder describes advances the clock as far as it is asked to. -/
theorem Responder.advance {r : Responder ε σ} {Good : σ → Prop} (hr : r.Steady Good)
    (hsingle : r.Single) {events : List ε} (hall : ∀ e, e ∈ events)
    (hlen : events.length ≤ 1 <<< 16) {handle : Handler ε σ} (hh : r.Describes Good handle)
    {c : Clock ε} (hc : c.WellFormed) {s : σ} (hs : Good s) {cycles : Nat}
    (hcycles : cycles ≤ Cycle.clockMax) :
    ∃ n c' s', c'.elapsed = c.elapsed + cycles ∧ r.Leads Good n c s c' s' ∧
      advance handle cycles c s = .ok (c', s') := by
  obtain ⟨n, c', s', he, hl, hrun⟩ := Responder.advanceWithin hr hc hs hcycles
  have hn : n ≤ alarmBudget := by
    refine Nat.le_trans (hl.count_le hr hsingle hall hc hs he hcycles) ?_
    exact Nat.le_trans (Nat.mul_le_mul_right _ hlen) (by decide)
  exact ⟨n, c', s', he, hl, (hh.advanceWithin hr _ _ c hs).trans (hrun alarmBudget hn)⟩

/-- Sets an alarm again, some cycles behind the last, or lets it be. -/
def setAgain (c : Clock ε) (event : ε) (due : Nat) : Option Nat → Except Fault (Clock ε)
  | none => .ok c
  | some delay => return c.setAlarm (← Cycle.add due delay) event

theorem Reachable.setAgain {c c' : Clock ε} (hc : c.Reachable) {event : ε} {due : Nat}
    {delay? : Option Nat} (h : c.setAgain event due delay? = .ok c') : c'.Reachable := by
  unfold Clock.setAgain at h
  cases delay? with
  | none => cases h; exact hc
  | some delay =>
    simp only [Cycle.add] at h
    split at h
    · next hle => cases h; exact hc.setAlarm event hle
    · exact absurd h (by simp [bind, Except.bind])

/-- An alarm can be set again just where its cycle has a number. -/
theorem setAgain_eq_ok (c : Clock ε) {event : ε} {due : Nat} {delay? : Option Nat} :
    (∃ c', c.setAgain event due delay? = .ok c') ↔ ∀ delay ∈ delay?, due + delay ≤ Cycle.last := by
  cases delay? with
  | none => exact ⟨fun _ _ h => absurd h (by simp), fun _ => ⟨c, rfl⟩⟩
  | some delay =>
    unfold setAgain Cycle.add
    by_cases room : due + delay ≤ Cycle.last
    · simp [room, bind, Except.bind, pure, Except.pure]
    · simp [room, bind, Except.bind]

theorem recurring_handler (again : ε → σ → Option Nat) (expire : ε → σ → σ) (alarm : Alarm ε)
    (c : Clock ε) (s : σ) :
    (recurring again expire).handler alarm c s = do
      let c ← c.setAgain alarm.event alarm.due (again alarm.event s)
      return (c, expire alarm.event s) := by
  unfold recurring Responder.handler setAgain
  simp only []
  cases again alarm.event s with
  | none => rfl
  | some delay =>
    simp only [Option.map_some, Option.toList_some, List.foldlM_cons, List.foldlM_nil,
      Request.perform]
    cases Cycle.add alarm.due delay <;> rfl

end C64.Clock
