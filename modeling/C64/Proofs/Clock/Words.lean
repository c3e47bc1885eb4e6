import C64.Proofs.Clock.Abreast
import C64.Proofs.Clock.Pending

/-!
# Counts that fit their words

The counter and the alarms have words of thirty-two bits, and so has the number of rebases; what
else only grows has words of sixty-four. `InWords` says that all of it fits.

To say so of every moment of an advance, the handler is watched: beside its state it keeps whether
something held before and behind every alarm (`Handler.watched`). The watch is erased by projection
(`advanceWithin_watched`). Counts that fit in the end fitted all the time, for they never go down,
and so `Handler.Seen.advanceWithin` asks about the end of an advance alone.
-/

namespace C64.Clock

variable {ε σ : Type} {c c' : Clock ε} {s s' : σ}

/-! ## Counts -/

/-- The counts that only grow fit. -/
structure CountsFit (c : Clock ε) : Prop where
  elapsed : c.elapsed < 0x10000000000000000
  nextOrder : c.nextOrder < 0x10000000000000000
  rebases : c.rebases < 0x100000000

/-- Everything that the clock counts with fits. -/
structure InWords (c : Clock ε) : Prop where
  now_le : c.now ≤ Cycle.clockMax
  due_le : ∀ e ∈ c.queue, e.due ≤ Cycle.last
  /-- A rebase takes no more from an alarm than it has. -/
  rebaseOffset_le : ∀ e ∈ c.queue, c.rebaseOffset ≤ e.due
  counts : c.CountsFit

theorem WellFormed.inWords (h : c.WellFormed) (counts : c.CountsFit) : c.InWords :=
  ⟨h.now_le, h.due_le, fun _ he => h.rebaseOffset_le_due he, counts⟩

theorem CountsFit.of_popDue (h : c'.CountsFit) {alarm : Alarm ε}
    (hpop : c.popDue = some (alarm, c')) : c.CountsFit := by
  obtain ⟨e, rest, -, -, -, rfl⟩ := popDue_eq_some hpop
  exact ⟨h.elapsed, h.nextOrder, h.rebases⟩

theorem CountsFit.of_rebase (h : c.rebase.CountsFit) : c.CountsFit := by
  refine ⟨c.elapsed_rebase ▸ h.elapsed, nextOrder_rebase c ▸ h.nextOrder, ?_⟩
  have rebases := h.rebases
  unfold rebase at rebases
  simp only [] at rebases
  split at rebases
  · exact rebases
  · exact Nat.lt_of_succ_lt rebases

theorem CountsFit.of_pass {n : Nat} (h : CountsFit { c with now := c.now + n }) : c.CountsFit := by
  have age : c.base + (c.now + n) < 0x10000000000000000 := h.elapsed
  refine ⟨?_, h.nextOrder, h.rebases⟩
  unfold Clock.elapsed
  omega

variable [DecidableEq ε]

theorem CountsFit.of_setAgain (h : c'.CountsFit) {event : ε} {due : Nat} {delay? : Option Nat}
    (hset : c.setAgain event due delay? = .ok c') : c.CountsFit := by
  rw [setAgain_ok hset] at h
  cases delay? with
  | none => exact h
  | some delay => exact ⟨h.elapsed, Nat.lt_of_succ_lt h.nextOrder, h.rebases⟩

/-! ## Watching -/

section Watched

variable (look : Clock ε → σ → Prop)

/-- A handler that keeps, beside its state, whether something held before and behind every alarm. -/
def Handler.watched (handle : Handler ε σ) : Handler ε (σ × Prop) := fun alarm c (s, seen) => do
  let (c', s') ← handle alarm c s
  return (c', s', seen ∧ look c s ∧ look c' s')

/-- Clock and state are the same, whatever was seen. -/
def Unwatched (out : Clock ε × σ × Prop) (out' : Clock ε × σ) : Prop :=
  out.1 = out'.1 ∧ out.2.1 = out'.2

variable {handle : Handler ε σ} {budget : Nat}

omit [DecidableEq ε] in
theorem watched_abreast : Abreast (fun s t => s.1 = t) (handle.watched look) handle := by
  rintro alarm c ⟨s, seen⟩ _ rfl
  simp only [Handler.watched]
  cases handle alarm c s with
  | error e => exact .error trivial
  | ok out => exact .ok ⟨rfl, rfl⟩

omit [DecidableEq ε] in
/-- The advance of a watched handler is the advance of the handler. -/
theorem advanceWithin_watched (n : Nat) (seen : Prop) :
    Together True Unwatched (advanceWithin budget (handle.watched look) n c (s, seen))
      (advanceWithin budget handle n c s) :=
  advanceWithin_together (watched_abreast look) budget n c rfl

/-! ### What is seen -/

variable (handle) in
/-- Where the counts fit, something is seen in every good state; and where they fit behind an alarm,
they fitted before it. The state may have a count of its own. -/
structure Handler.Seen (Good fits : σ → Prop) : Prop where
  lawful : handle.Lawful Good
  sees {c : Clock ε} {s : σ} : c.Reachable → Good s → c.CountsFit → fits s → look c s
  grows {alarm : Alarm ε} {c c' : Clock ε} {s s' : σ} : Good s →
    handle alarm c s = .ok (c', s') → c'.CountsFit → fits s' → c.CountsFit ∧ fits s

variable {look} {Good fits : σ → Prop}

theorem Handler.Seen.fireDue (h : handle.Seen look Good fits) (hc : c.Reachable) (hs : Good s)
    (run : fireDue handle budget c s = .ok (c', s')) (counts : c'.CountsFit) (hfits : fits s') :
    (c.CountsFit ∧ fits s) ∧ ∀ seen : Prop, seen → ∃ seen' : Prop, seen' ∧
      Clock.fireDue (handle.watched look) budget c (s, seen) = .ok (c', s', seen') := by
  induction budget generalizing c s with
  | zero =>
    unfold Clock.fireDue at run ⊢
    split at run
    · next hnone =>
      cases run
      exact ⟨⟨counts, hfits⟩, fun seen hseen => ⟨seen, hseen, by rw [if_pos hnone]⟩⟩
    · exact absurd run (by simp)
  | succ budget ih =>
    unfold Clock.fireDue at run ⊢
    split at run
    · next hnone =>
      cases run
      exact ⟨⟨counts, hfits⟩, fun seen hseen => ⟨seen, hseen, rfl⟩⟩
    · next alarm c₁ hpop =>
      obtain ⟨⟨c₂, s₂⟩, hstep, hrest⟩ := bind_eq_ok.mp run
      have reached := hc.popDue hpop
      obtain ⟨reached₂, good₂⟩ := h.lawful alarm c₁ s c₂ s₂ reached hs hstep
      obtain ⟨⟨counts₂, fits₂⟩, watch⟩ := ih reached₂ good₂ hrest
      obtain ⟨counts₁, fits₁⟩ := h.grows hs hstep counts₂ fits₂
      refine ⟨⟨counts₁.of_popDue hpop, fits₁⟩, fun seen hseen => ?_⟩
      have around : seen ∧ look c₁ s ∧ look c₂ s₂ :=
        ⟨hseen, h.sees reached hs counts₁ fits₁, h.sees reached₂ good₂ counts₂ fits₂⟩
      obtain ⟨seen', hseen', hwatch⟩ := watch _ around
      refine ⟨seen', hseen', ?_⟩
      simp only [Handler.watched]
      rw [hstep]
      exact hwatch

/-- In an advance at whose end the counts fit, it was seen all the time. -/
theorem Handler.Seen.advanceWithin (h : handle.Seen look Good fits) (hc : c.Reachable)
    (hs : Good s) {n : Nat} (run : advanceWithin budget handle n c s = .ok (c', s'))
    (counts : c'.CountsFit) (hfits : fits s') :
    (c.CountsFit ∧ fits s) ∧ ∀ seen : Prop, seen → ∃ seen' : Prop, seen' ∧
      Clock.advanceWithin budget (handle.watched look) n c (s, seen) = .ok (c', s', seen') := by
  obtain ⟨⟨c₁, s₁⟩, hroom, hfire⟩ := bind_eq_ok.mp run
  obtain ⟨reached, good, room⟩ := hc.makeRoom h.lawful hs hroom
  obtain ⟨⟨passed, fits₁⟩, watch⟩ := h.fireDue (reached.pass room) good hfire counts hfits
  have counts₁ : c₁.CountsFit := passed.of_pass
  unfold Clock.makeRoom at hroom
  unfold Clock.advanceWithin Clock.makeRoom
  split at hroom
  · next enough =>
    cases hroom
    refine ⟨⟨counts₁, fits₁⟩, fun seen hseen => ?_⟩
    rw [if_pos enough]
    exact watch seen hseen
  · next full =>
    -- What was overdue fired first, and then the counter was moved down.
    obtain ⟨⟨c₂, s₂⟩, hdue, hrest⟩ := bind_eq_ok.mp hroom
    simp only [] at hrest
    split at hrest
    · next enough =>
      cases hrest
      obtain ⟨fitted, due⟩ := h.fireDue hc hs hdue counts₁.of_rebase fits₁
      refine ⟨fitted, fun seen hseen => ?_⟩
      obtain ⟨seen₂, hseen₂, hwatch⟩ := due seen hseen
      rw [if_neg full, hwatch, ok_bind]
      simp only [if_pos enough]
      exact watch seen₂ hseen₂
    · exact absurd hrest (by simp)

end Watched

end C64.Clock
