import C64.Proofs.Clock.Pending

/-!
# What an advance came to

A handler that gives every alarm back to the clock, some cycles behind itself or not at all, is
`Recurring`. An advance with such a handler can still fault, on an alarm too far ahead to be set.
One that comes out well has fired what its agenda held up to its end, in the order of the agenda
(`Handler.Recurring.advanceWithin`), whatever the delays are.
-/

namespace C64.Clock

variable {ε σ : Type}

/-- Where nothing is handed out, the first alarm of the agenda lies ahead. -/
theorem agenda_head_of_popDue {c : Clock ε} (h : c.popDue = none) :
    ∀ x ∈ c.agenda.head?, c.elapsed < x.1 := by
  intro x hx
  unfold popDue at h
  unfold agenda at hx
  cases hq : c.queue with
  | nil => exact absurd hx (by simp [hq])
  | cons e rest =>
    simp only [hq, ite_eq_right_iff, reduceCtorEq, imp_false, Nat.not_le] at h
    simp only [hq, List.map_cons, List.head?_cons, Option.mem_some_iff] at hx
    exact hx ▸ Nat.add_lt_add_left h c.base

variable [DecidableEq ε]

/-- Where the handler comes out well, the alarm came again as `again` says, and the state is what
`expire` says. -/
def Handler.Recurring (handle : Handler ε σ) (again : ε → σ → Option Nat) (expire : ε → σ → σ) :
    Prop :=
  ∀ ⦃alarm c s c' s'⦄, handle alarm c s = .ok (c', s') →
    c.setAgain alarm.event alarm.due (again alarm.event s) = .ok c' ∧ s' = expire alarm.event s

/-- An alarm that is set again is set so far behind itself in absolute time. -/
theorem agenda_setAgain {c c' : Clock ε} {event : ε} {due : Nat} {delay? : Option Nat}
    (h : c.setAgain event due delay? = .ok c') :
    c'.agenda = (delay?.map (Request.set · event)).toList.foldl (Request.apply (c.base + due))
        c.agenda ∧ c'.now = c.now ∧ c'.base = c.base := by
  rw [setAgain_ok h]
  cases delay? with
  | none => exact ⟨rfl, rfl, rfl⟩
  | some delay =>
    refine ⟨?_, rfl, rfl⟩
    simp only [agenda_setAlarm, Option.map_some, Option.toList_some, List.foldl_cons,
      List.foldl_nil, Request.apply, Nat.add_assoc]

section Recurring

variable {handle : Handler ε σ} {again : ε → σ → Option Nat} {expire : ε → σ → σ}
  {budget cycles : Nat} {c c' : Clock ε} {s s' : σ}

theorem Handler.Recurring.fireDue (recurs : handle.Recurring again expire)
    (run : Clock.fireDue handle budget c s = .ok (c', s')) :
    (∃ n, Fires (recurring again expire) c.elapsed n c.agenda s c'.agenda s') ∧
      c'.now = c.now ∧ c'.base = c.base := by
  induction budget generalizing c s with
  | zero =>
    unfold Clock.fireDue at run
    split at run
    · next hnone =>
      cases run
      exact ⟨⟨0, .done (agenda_head_of_popDue (Option.isNone_iff_eq_none.mp hnone))⟩, rfl, rfl⟩
    · exact absurd run (by simp)
  | succ budget ih =>
    unfold Clock.fireDue at run
    split at run
    · next hnone => cases run; exact ⟨⟨0, .done (agenda_head_of_popDue hnone)⟩, rfl, rfl⟩
    · next alarm c₁ hpop =>
      obtain ⟨⟨c₂, s₂⟩, hstep, hrest⟩ := bind_eq_ok.mp run
      obtain ⟨hset, rfl⟩ := recurs hstep
      obtain ⟨e, rest, hq, hdue, rfl, rfl⟩ := popDue_eq_some hpop
      obtain ⟨agenda₂, now₂, base₂⟩ := agenda_setAgain hset
      obtain ⟨⟨n, fires⟩, now', base'⟩ := ih hrest
      have age : c₂.elapsed = c.elapsed := by simp only [elapsed, now₂, base₂]
      rw [age, agenda₂] at fires
      have first : c.agenda = (c.base + e.due, e.event) ::
          agenda { c with queue := rest } := by
        unfold agenda
        rw [hq]
        rfl
      rw [first]
      exact ⟨⟨n + 1, .fire (Nat.add_le_add_left hdue c.base) fires⟩, now'.trans now₂,
        base'.trans base₂⟩

/-- An advance that comes out well fired what its agenda held up to its end. -/
theorem Handler.Recurring.advanceWithin (recurs : handle.Recurring again expire)
    (lawful : handle.Lawful fun _ => True) (hc : c.Reachable)
    (run : Clock.advanceWithin budget handle cycles c s = .ok (c', s')) :
    (∃ n, Fires (recurring again expire) (c.elapsed + cycles) n c.agenda s c'.agenda s') ∧
      c'.elapsed = c.elapsed + cycles := by
  obtain ⟨⟨c₁, s₁⟩, hroom, hfire⟩ := bind_eq_ok.mp run
  -- Making room fires what is due by now, which is due by the end as well.
  have room : (∃ m, ∀ n, Fires (recurring again expire) (c.elapsed + cycles) n c₁.agenda s₁
        c'.agenda s' →
      Fires (recurring again expire) (c.elapsed + cycles) (m + n) c.agenda s c'.agenda s') ∧
      c₁.elapsed = c.elapsed := by
    unfold Clock.makeRoom at hroom
    split at hroom
    · cases hroom
      exact ⟨⟨0, fun n fires => by rwa [Nat.zero_add]⟩, rfl⟩
    · obtain ⟨⟨c₂, s₂⟩, hdue, hrest⟩ := bind_eq_ok.mp hroom
      obtain ⟨⟨m, first⟩, now₂, base₂⟩ := recurs.fireDue hdue
      have reached := (hc.fireDue lawful trivial hdue).1
      simp only [] at hrest
      split at hrest
      · cases hrest
        refine ⟨⟨m, fun n fires => first.trans (Nat.le_add_right _ _) ?_⟩, ?_⟩
        · rwa [reached.wellFormed.agenda_rebase] at fires
        · rw [elapsed_rebase]
          simp only [elapsed, now₂, base₂]
      · exact absurd hrest (by simp)
  obtain ⟨⟨m, before⟩, age⟩ := room
  obtain ⟨⟨n, fires⟩, now', base'⟩ := recurs.fireDue hfire
  have last : elapsed { c₁ with now := c₁.now + cycles } = c.elapsed + cycles := by
    rw [← age]
    exact (Nat.add_assoc ..).symm
  rw [last] at fires
  refine ⟨⟨m + n, before n fires⟩, ?_⟩
  rw [← last]
  simp only [elapsed, now', base']

end Recurring

end C64.Clock
