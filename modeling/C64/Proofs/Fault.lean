import C64.Fault

/-!
# Computations that can fault

A computation in two parts, of which the first came out well, is the second; and where the whole
came out well, both parts did. Two computations that go side by side come out `Together`; where
they also fault for the same reason, they are `Matched`. What a computation `Yields` comes with the
faults that it may end in.
-/

namespace C64

variable {α β : Type}

theorem ok_bind (a : α) (f : α → Except Fault β) : (Except.ok a >>= f) = f a := rfl

theorem bind_eq_ok {x : Except Fault α} {f : α → Except Fault β} {r : β} :
    (x >>= f) = .ok r ↔ ∃ a, x = .ok a ∧ f a = .ok r := by
  cases x with
  | error e => simp [bind, Except.bind]
  | ok a => simp [bind, Except.bind]

theorem bind_eq_error {x : Except Fault α} {f : α → Except Fault β} {e : Fault} :
    (x >>= f) = .error e ↔ x = .error e ∨ ∃ a, x = .ok a ∧ f a = .error e := by
  cases x with
  | error e' => simp [bind, Except.bind]
  | ok a => simp [bind, Except.bind]

theorem eq_ok_of_toOption {x : Except Fault α} {a : α} (h : x.toOption = some a) : x = .ok a := by
  cases x with
  | error e => exact absurd h nofun
  | ok b => exact congrArg Except.ok (Option.some.inj h)

/-! ## Computations that come out well -/

/-- A computation comes out well, with a result of which something is true. -/
def Succeeds (Q : α → Prop) (x : Except Fault α) : Prop := ∃ a, x = .ok a ∧ Q a

section Succeeds

variable {Q Q' : α → Prop} {S : β → Prop} {x : Except Fault α}

theorem Succeeds.ok {a : α} (h : Q a) : Succeeds Q (.ok a) := ⟨a, rfl, h⟩

theorem Succeeds.bind {f : α → Except Fault β} (h : Succeeds Q x)
    (rest : ∀ a, Q a → Succeeds S (f a)) : Succeeds S (x >>= f) := by
  obtain ⟨a, rfl, ha⟩ := h
  exact rest a ha

theorem Succeeds.mono (h : Succeeds Q x) (weaker : ∀ a, Q a → Q' a) : Succeeds Q' x := by
  obtain ⟨a, ha, hq⟩ := h
  exact ⟨a, ha, weaker a hq⟩

/-- What follows without a fault. -/
theorem Succeeds.andThen {f : α → β} (h : Succeeds Q x) (rest : ∀ a, Q a → S (f a)) :
    Succeeds S (do return f (← x)) :=
  h.bind fun a ha => .ok (rest a ha)

/-- What is known of every result is known of this one as well. -/
theorem Succeeds.and (h : Succeeds Q x) (known : ∀ a, x = .ok a → Q' a) :
    Succeeds (fun a => Q a ∧ Q' a) x := by
  obtain ⟨a, ha, hq⟩ := h
  exact ⟨a, ha, hq, known a ha⟩

theorem Succeeds.of_ok {a : α} (h : Succeeds Q x) (hx : x = .ok a) : Q a := by
  obtain ⟨a', ha, hq⟩ := h
  rw [hx] at ha
  cases ha
  exact hq

end Succeeds

/-! ## Computations that may fault for some reasons only -/

/-- A computation comes out well, with a result of which something is true, or ends in a fault that
is allowed. -/
def Yields (faults : Fault → Prop) (Q : α → Prop) : Except Fault α → Prop
  | .ok a => Q a
  | .error e => faults e

section Yields

variable {faults : Fault → Prop} {Q Q' : α → Prop} {S : β → Prop} {x : Except Fault α}

theorem Yields.bind {f : α → Except Fault β} (h : Yields faults Q x)
    (rest : ∀ a, Q a → Yields faults S (f a)) : Yields faults S (x >>= f) := by
  cases x with
  | ok a => exact rest a h
  | error e => exact h

theorem Yields.mono (h : Yields faults Q x) (weaker : ∀ a, Q a → Q' a) : Yields faults Q' x := by
  cases x with
  | ok a => exact weaker a h
  | error e => exact h

theorem Yields.allowing {faults' : Fault → Prop} (h : Yields faults Q x)
    (allowed : ∀ e, faults e → faults' e) : Yields faults' Q x := by
  cases x with
  | ok a => exact h
  | error e => exact allowed e h

/-- Where no fault is allowed, it comes out well. -/
theorem Yields.succeeds (h : Yields faults Q x) (never : ∀ e, ¬faults e) : Succeeds Q x := by
  cases x with
  | ok a => exact .ok h
  | error e => exact absurd h (never e)

end Yields

/-! ## Two computations side by side -/

variable {α' β' : Type} {faults : Prop}

/-- Two computations both come out well, with results that are related, or both end in a fault,
where faults may be. -/
inductive Together (faults : Prop) (R : α → α' → Prop) : Except Fault α → Except Fault α' → Prop
  | ok {a : α} {b : α'} : R a b → Together faults R (.ok a) (.ok b)
  | error {e e' : Fault} : faults → Together faults R (.error e) (.error e')

/-- Two results are the same in their first part and related in their second. -/
def Beside (R : β → β' → Prop) (p : α × β) (q : α × β') : Prop := p.1 = q.1 ∧ R p.2 q.2

theorem Beside.parts {R : β → β' → Prop} {p : α × β} {q : α × β'} (h : Beside R p q) :
    ∃ a b b', p = (a, b) ∧ q = (a, b') ∧ R b b' :=
  ⟨p.1, p.2, q.2, rfl, Prod.ext h.1.symm rfl, h.2⟩

variable {R : α → α' → Prop} {S : β → β' → Prop} {x : Except Fault α} {y : Except Fault α'}

theorem Together.bind {f : α → Except Fault β} {g : α' → Except Fault β'}
    (h : Together faults R x y) (rest : ∀ a b, R a b → Together faults S (f a) (g b)) :
    Together faults S (x >>= f) (y >>= g) := by
  cases h with
  | ok related => exact rest _ _ related
  | error allowed => exact .error allowed

theorem Together.mono {R' : α → α' → Prop} (h : Together faults R x y)
    (weaker : ∀ a b, R a b → R' a b) : Together faults R' x y := by
  cases h with
  | ok related => exact .ok (weaker _ _ related)
  | error allowed => exact .error allowed

/-- What is known of the first of them is known of it beside the second. -/
theorem Together.of_left {P : α → Prop} (h : Together faults R x y) (left : ∀ a, x = .ok a → P a) :
    Together faults (fun a b => R a b ∧ P a) x y := by
  cases h with
  | ok related => exact .ok ⟨related, left _ rfl⟩
  | error allowed => exact .error allowed

/-- What follows without a fault. -/
theorem Together.andThen {f : α → β} {g : α' → β'} (h : Together faults R x y)
    (rest : ∀ a b, R a b → S (f a) (g b)) :
    Together faults S (do return f (← x)) (do return g (← y)) :=
  h.bind fun a b related => .ok (rest a b related)

/-- A computation goes along with itself. -/
theorem Together.self {R : α → α → Prop} (h : ∀ a, x = .ok a → R a a) : Together True R x x := by
  cases x with
  | error e => exact .error trivial
  | ok a => exact .ok (h a rfl)

/-- Where no fault may be, both come out well. -/
theorem Together.exists_ok (h : Together False R x y) : ∃ a b, x = .ok a ∧ y = .ok b ∧ R a b := by
  cases h with
  | ok related => exact ⟨_, _, rfl, rfl, related⟩
  | error allowed => exact allowed.elim

/-- If one of them comes out well, so does the other. -/
theorem Together.of_ok {a : α} (h : Together faults R x y) (hx : x = .ok a) :
    ∃ b, y = .ok b ∧ R a b := by
  subst hx
  cases h with
  | ok related => exact ⟨_, rfl, related⟩

/-- Each of them comes out well if the other does. -/
theorem Together.both (left : ∀ a, x = .ok a → ∃ b, y = .ok b ∧ R a b)
    (right : ∀ b, y = .ok b → ∃ a, x = .ok a) : Together True R x y := by
  cases x with
  | ok a =>
    obtain ⟨b, rfl, related⟩ := left a rfl
    exact .ok related
  | error e =>
    cases y with
    | error e' => exact .error trivial
    | ok b =>
      obtain ⟨a, ha⟩ := right b rfl
      exact absurd ha (by simp)

/-- Where the first of them comes out well, no fault is. -/
theorem Together.unless {good : Prop} (h : Together True R x y) (well : good → ∃ a, x = .ok a) :
    Together (¬good) R x y := by
  cases h with
  | ok related => exact .ok related
  | error _ =>
    refine .error fun holds => ?_
    obtain ⟨a, ha⟩ := well holds
    exact absurd ha (by simp)

/-! ## The same fault -/

/-- Two computations both come out well, with results that are related, or both end in the same
fault. -/
inductive Matched (R : α → α' → Prop) : Except Fault α → Except Fault α' → Prop
  | ok {a : α} {b : α'} : R a b → Matched R (.ok a) (.ok b)
  | error (e : Fault) : Matched R (.error e) (.error e)

theorem Matched.bind {f : α → Except Fault β} {g : α' → Except Fault β'} (h : Matched R x y)
    (rest : ∀ a b, R a b → Matched S (f a) (g b)) : Matched S (x >>= f) (y >>= g) := by
  cases h with
  | ok related => exact rest _ _ related
  | error e => exact .error e

theorem Matched.mono {R' : α → α' → Prop} (h : Matched R x y)
    (weaker : ∀ a b, R a b → R' a b) : Matched R' x y := by
  cases h with
  | ok related => exact .ok (weaker _ _ related)
  | error e => exact .error e

end C64
