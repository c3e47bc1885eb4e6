import C64.Clock
import C64.Proofs.Fault

/-!
# Two advances side by side

Two handlers that do the same to the clock with every alarm, and keep their states related, do so
over a whole advance (`advanceWithin_together`). A handler beside itself makes of this what an
advance keeps of a state because every alarm does (`advanceWithin_carries`), whatever the clock has
been through.
-/

namespace C64.Clock

variable {ε σ τ : Type} {R : σ → τ → Prop} {handle : Handler ε σ} {handle' : Handler ε τ}

/-- With every alarm both handlers leave the same clock and related states, or both fault. -/
def Abreast (R : σ → τ → Prop) (handle : Handler ε σ) (handle' : Handler ε τ) : Prop :=
  ∀ alarm c s t, R s t → Together True (Beside R) (handle alarm c s) (handle' alarm c t)

theorem fireDue_together (abreast : Abreast R handle handle') (budget : Nat) (c : Clock ε)
    {s : σ} {t : τ} (h : R s t) :
    Together True (Beside R) (fireDue handle budget c s) (fireDue handle' budget c t) := by
  induction budget generalizing c s t with
  | zero =>
    unfold fireDue
    split
    · exact .ok ⟨rfl, h⟩
    · exact .error trivial
  | succ budget ih =>
    unfold fireDue
    cases c.popDue with
    | none => exact .ok ⟨rfl, h⟩
    | some popped =>
      obtain ⟨alarm, c⟩ := popped
      refine (abreast alarm c s t h).bind fun p q beside => ?_
      obtain ⟨c', s', t', rfl, rfl, related⟩ := beside.parts
      exact ih c' related

theorem advanceWithin_together (abreast : Abreast R handle handle') (budget cycles : Nat)
    (c : Clock ε) {s : σ} {t : τ} (h : R s t) :
    Together True (Beside R) (advanceWithin budget handle cycles c s)
      (advanceWithin budget handle' cycles c t) := by
  have room : Together True (Beside R) (makeRoom handle budget cycles c s)
      (makeRoom handle' budget cycles c t) := by
    unfold makeRoom
    split
    · exact .ok ⟨rfl, h⟩
    · refine (fireDue_together abreast budget c h).bind fun p q beside => ?_
      obtain ⟨c', s', t', rfl, rfl, related⟩ := beside.parts
      simp only []
      split
      · exact .ok ⟨rfl, related⟩
      · exact .error trivial
  refine room.bind fun p q beside => ?_
  obtain ⟨c', s', t', rfl, rfl, related⟩ := beside.parts
  exact fireDue_together abreast budget _ related

/-- What every alarm keeps of the state, an advance keeps. -/
theorem advanceWithin_carries {P : σ → Prop}
    (each : ∀ {alarm c s c' s'}, P s → handle alarm c s = .ok (c', s') → P s')
    {budget cycles : Nat} {c c' : Clock ε} {s s' : σ} (before : P s)
    (run : advanceWithin budget handle cycles c s = .ok (c', s')) : P s' := by
  have abreast : Abreast (fun s t => s = t ∧ P s) handle handle := by
    rintro alarm c s _ ⟨rfl, holds⟩
    exact .self fun p ran => ⟨rfl, rfl, each holds ran⟩
  obtain ⟨-, -, -, -, after⟩ :=
    (advanceWithin_together abreast budget cycles c ⟨rfl, before⟩).of_ok run
  exact after

end C64.Clock
