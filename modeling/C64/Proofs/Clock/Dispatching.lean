import C64.Proofs.Clock.Pending

/-!
# How many alarms an advance dispatches

An advance hands out alarms until none is due, and its handlers set new ones meanwhile. A handler
that counts what it was handed (`Handler.counting`) does to clock and state what the handler does
(`advanceWithin_counting`). Where an alarm is set again at least a cycle behind itself and none is
due at the start, each event has at most one alarm for every cycle that passes. So an advance comes
to its end, whatever the budget, as long as that number fits in it (`Responder.dispatches`).
-/

namespace C64.Clock

variable {ε σ : Type} {handle : Handler ε σ} {budget cycles k : Nat} {c : Clock ε} {s : σ}

/-! ## Counting -/

/-- A handler that counts the alarms it is handed, beside its state. -/
def Handler.counting (handle : Handler ε σ) : Handler ε (σ × Nat) := fun alarm c (s, k) => do
  let (c', s') ← handle alarm c s
  return (c', s', k + 1)

/-- Clock and state without the count. -/
def uncounted (out : Clock ε × σ × Nat) : Clock ε × σ := (out.1, out.2.1)

theorem fireDue_counting :
    (fireDue handle.counting budget c (s, k)).map uncounted = fireDue handle budget c s := by
  induction budget generalizing c s k with
  | zero =>
    unfold fireDue
    split <;> rfl
  | succ budget ih =>
    unfold fireDue
    cases c.popDue with
    | none => rfl
    | some popped =>
      obtain ⟨alarm, c₁⟩ := popped
      simp only [Handler.counting]
      cases handle alarm c₁ s with
      | error e => rfl
      | ok out => exact ih

/-- What is counted has no influence on what happens. -/
theorem advanceWithin_counting :
    (advanceWithin budget handle.counting cycles c (s, k)).map uncounted =
      advanceWithin budget handle cycles c s := by
  unfold advanceWithin makeRoom
  split
  · exact fireDue_counting
  · have due : (fireDue handle.counting budget c (s, k)).map uncounted =
        fireDue handle budget c s := fireDue_counting
    rw [← due]
    cases fireDue handle.counting budget c (s, k) with
    | error e => rfl
    | ok out =>
      obtain ⟨c₁, s₁, k₁⟩ := out
      simp only [Except.map, uncounted, ok_bind]
      by_cases room : cycles ≤ Cycle.clockMax - c₁.rebase.now
      · rw [if_pos room, if_pos room]
        exact fireDue_counting
      · rw [if_neg room, if_neg room]
        rfl

/-! ## Responders that count -/

/-- A responder that counts what it is asked. -/
def Responder.counting (r : Responder ε σ) : Responder ε (σ × Nat) := fun due event (s, k) =>
  ((r due event s).1, (r due event s).2, k + 1)

variable [DecidableEq ε] {r : Responder ε σ} {Good : σ → Prop}

omit [DecidableEq ε] in
theorem Responder.Steady.counting (hr : r.Steady Good) :
    r.counting.Steady fun p : σ × Nat => Good p.1 where
  ahead due event p hs := hr.ahead due event p.1 hs
  keeps due event p hs := hr.keeps due event p.1 hs

theorem Responder.Describes.counting (h : r.Describes Good handle) :
    r.counting.Describes (fun p : σ × Nat => Good p.1) handle.counting := by
  rintro alarm c ⟨s, k⟩ hs
  simp only [Handler.counting, h alarm c s hs, Responder.handler, Responder.counting]
  cases List.foldlM (Request.perform alarm.due) c (r (c.base + alarm.due) alarm.event s).1 <;> rfl

/-- It counts every alarm that fires, once. -/
theorem Fires.counted {limit n : Nat} {q q' : Agenda ε} {p p' : σ × Nat}
    (h : Fires r.counting limit n q p q' p') : p'.2 = p.2 + n := by
  induction h with
  | done _ => rfl
  | @fire due n event q q' p p' _ _ ih =>
    rw [ih]
    show p.2 + 1 + n = p.2 + (n + 1)
    omega

/-! ## The end of an advance -/

/-- Where no alarm is due, each event has one for every cycle to come at most. -/
theorem Responder.Leads.count_le_of_ahead (hr : r.Steady Good) (hsingle : r.Single)
    {events : List ε} (hall : ∀ e, e ∈ events) {n : Nat} {c' : Clock ε} {s' : σ}
    (hc : c.WellFormed) (ahead : c.Ahead) (hs : Good s) (h : r.Leads Good n c s c' s')
    (age : c'.elapsed = c.elapsed + cycles) : n ≤ events.length * cycles := by
  refine Nat.le_trans (h.fires.le_slack hr hsingle hs) ?_
  refine Nat.le_trans (Agenda.slack_le fun x hx => ?_)
    (Nat.mul_le_mul_right cycles (hc.length_agenda_le hall))
  obtain ⟨e, he, rfl⟩ := mem_agenda.mp hx
  have later := ahead e he
  unfold elapsed at age
  simp only [elapsed, age]
  omega

/-- Behind a firing no alarm is due. -/
theorem Responder.Leads.ahead {n : Nat} {c' : Clock ε} {s' : σ} (h : r.Leads Good n c s c' s') :
    c'.Ahead := by
  refine h.wellFormed.none_due (popDue_eq_none h.fires.none_due)

/-- An advance dispatches no more alarms than there are events, for every cycle that passes, and at
its end none is due. No budget that holds so many makes a difference. -/
theorem Responder.dispatches (hr : r.Steady Good) (hsingle : r.Single) {events : List ε}
    (hall : ∀ e, e ∈ events) (hlen : events.length ≤ 1 <<< 16) (hh : r.Describes Good handle)
    (hc : c.WellFormed) (ahead : c.Ahead) (hs : Good s) (hcycles : cycles ≤ Cycle.clockMax) :
    ∃ fired c' s', fired ≤ events.length * cycles ∧
      (∀ budget, fired ≤ budget →
        Clock.advanceWithin budget handle.counting cycles c (s, 0) = .ok (c', s', fired)) ∧
      Clock.advance handle cycles c s = .ok (c', s') ∧ c'.Ahead ∧
      c'.elapsed = c.elapsed + cycles := by
  have steady := hr.counting
  obtain ⟨n, c', ⟨s', fired⟩, age, leads, run⟩ :=
    Responder.advanceWithin steady hc (s := (s, 0)) hs hcycles
  have counted : fired = n := leads.fires.counted.trans (Nat.zero_add n)
  subst counted
  have few : fired ≤ events.length * cycles :=
    leads.count_le_of_ahead steady (fun due event p => hsingle due event p.1) hall hc ahead hs age
  have runs : ∀ budget, fired ≤ budget →
      Clock.advanceWithin budget handle.counting cycles c (s, 0) = .ok (c', s', fired) :=
    fun budget enough =>
      (hh.counting.advanceWithin steady budget cycles c hs).trans (run budget enough)
  have most : fired ≤ alarmBudget :=
    Nat.le_trans few (Nat.le_trans (Nat.mul_le_mul hlen hcycles) (by decide))
  refine ⟨fired, c', s', few, runs, ?_, leads.ahead, age⟩
  unfold Clock.advance
  rw [← advanceWithin_counting (k := 0), runs alarmBudget most]
  rfl

end C64.Clock
