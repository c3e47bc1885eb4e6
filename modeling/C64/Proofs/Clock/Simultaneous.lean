import C64.Proofs.Clock.Counting

/-!
# Alarms for the same cycle

Of two alarms for the same cycle the one that was set first is handed out first. Clocks that differ
in nothing else are in agreement (`Agrees`): they show the same time and have the same alarm for
every event. Where what one alarm does to the state does not depend on the other
(`Recurrence.Commutes`), the two can change places (`Clears.exchange`), and so an advance comes to
the same on clocks in agreement (`Recurrence.advanceWithin_agree`).
-/

namespace C64

namespace Clock

open Function

variable {ε σ : Type} [DecidableEq ε] {c c' c₁ c₂ : Clock ε}

/-! ## Clocks in agreement -/

/-- Two clocks show the same time, and every event has the same alarm on both. -/
structure Agrees (c c' : Clock ε) : Prop where
  now_eq : c.now = c'.now
  base_eq : c.base = c'.base
  rebases_eq : c.rebases = c'.rebases
  dues : c.due? = c'.due?

theorem Agrees.symm (h : c.Agrees c') : c'.Agrees c :=
  ⟨h.now_eq.symm, h.base_eq.symm, h.rebases_eq.symm, h.dues.symm⟩

theorem Agrees.isPending_eq (h : c.Agrees c') : c.isPending = c'.isPending := by
  unfold isPending
  rw [h.dues]

theorem dues_cancel (c : Clock ε) (event : ε) :
    (c.cancel event).due? = update c.due? event none := by
  funext x
  by_cases hx : event = x
  · subst hx
    simp
  · rw [update_of_ne (Ne.symm hx), c.due?_cancel_ne hx]

theorem dues_setAlarm (c : Clock ε) (due : Nat) (event : ε) :
    (c.setAlarm due event).due? = update c.due? event (some due) := by
  funext x
  by_cases hx : event = x
  · subst hx
    simp
  · rw [update_of_ne (Ne.symm hx), c.due?_setAlarm_ne due hx]

/-- An alarm that was taken off is back where it was set again. -/
theorem setAgain_agree {event : ε} {due : Nat} {delay? : Option Nat}
    (h : c.setAgain event due delay? = .ok c') (off : c.due? event = none) :
    c'.now = c.now ∧ c'.base = c.base ∧ c'.rebases = c.rebases ∧
      c'.due? = update c.due? event (delay?.map (due + ·)) := by
  rw [setAgain_ok h]
  cases delay? with
  | none => exact ⟨rfl, rfl, rfl, (update_eq_self_iff.mpr off.symm).symm⟩
  | some delay => exact ⟨rfl, rfl, rfl, dues_setAlarm ..⟩

theorem exists_entry_of_due? {event : ε} {due : Nat} (h : c.due? event = some due) :
    ∃ e ∈ c.queue, e.event = event ∧ e.due = due := by
  obtain ⟨e, found, rfl⟩ := Option.map_eq_some_iff.mp h
  exact ⟨e, List.mem_of_find?_eq_some found, by simpa using List.find?_some found, rfl⟩

/-- Handing out an alarm takes it off the clock. -/
theorem WellFormed.popDue_eq_cancel (hc : c.WellFormed) {alarm : Alarm ε}
    (h : c.popDue = some (alarm, c₁)) : c₁ = c.cancel alarm.event := by
  obtain ⟨e, rest, hq, -, rfl, rfl⟩ := popDue_eq_some h
  have kept : c.queue.filter (·.event ≠ e.event) = rest := by
    rw [hq, List.filter_cons_of_neg (by simp), List.filter_eq_self]
    intro x hx
    have distinct := hc.nodup
    rw [hq, List.map_cons, List.nodup_cons] at distinct
    simpa using fun same : x.event = e.event => distinct.1 (same ▸ List.mem_map_of_mem hx)
  unfold Clock.cancel
  rw [kept]

/-- The alarm that is handed out is due, and none is earlier. -/
theorem WellFormed.popDue_least (hc : c.WellFormed) {alarm : Alarm ε}
    (h : c.popDue = some (alarm, c₁)) :
    c.due? alarm.event = some alarm.due ∧ alarm.due ≤ c.now ∧
      ∀ e due, c.due? e = some due → alarm.due ≤ due := by
  obtain ⟨e, rest, hq, hdue, rfl, rfl⟩ := popDue_eq_some h
  obtain ⟨first, -⟩ := List.pairwise_cons.mp (hq ▸ hc.sorted)
  refine ⟨by simp [due?, hq], hdue, fun event due waits => ?_⟩
  obtain ⟨x, hx, -, rfl⟩ := exists_entry_of_due? waits
  rcases List.mem_cons.mp (hq ▸ hx) with rfl | hx
  · exact Nat.le_refl _
  · exact (first x hx).due_le

theorem WellFormed.ahead_dues (hc : c.WellFormed) (h : c.popDue = none) :
    ∀ e due, c.due? e = some due → c.now < due := by
  intro e due waits
  obtain ⟨x, hx, -, rfl⟩ := exists_entry_of_due? waits
  exact hc.none_due h x hx

/-- Clocks in agreement with nothing due are rebased in agreement. -/
theorem Agrees.rebase (h : c.Agrees c') (hc : c.WellFormed) (hc' : c'.WellFormed) (ahead : c.Ahead)
    (ahead' : c'.Ahead) : c.rebase.Agrees c'.rebase := by
  have now : c.rebase.now = c'.rebase.now := (rebase_now ahead).trans (rebase_now ahead').symm
  have base : c.rebase.base = c'.rebase.base := by
    have age : c.rebase.elapsed = c'.rebase.elapsed := by
      rw [elapsed_rebase, elapsed_rebase, elapsed, elapsed, h.now_eq, h.base_eq]
    unfold elapsed at age
    omega
  have dues : c.rebase.due? = c'.rebase.due? := by
    funext e
    have same : c.rebase.agenda.due? e = c'.rebase.agenda.due? e := by
      rw [hc.agenda_rebase, hc'.agenda_rebase, due?_agenda, due?_agenda, h.dues, h.base_eq]
    rw [due?_agenda, due?_agenda, base] at same
    exact Option.map_injective (fun _ _ => Nat.add_left_cancel) same
  refine ⟨now, base, ?_, dues⟩
  by_cases pos : 0 < c.now
  · rw [(ahead.rebase_eq pos).2, (ahead'.rebase_eq (h.now_eq ▸ pos)).2, h.rebases_eq]
  · have still : ∀ {c : Clock ε}, c.now = 0 → c.rebase = c := by
      intro c none
      have offset : c.rebaseOffset = 0 := Nat.le_zero.mp (none ▸ c.rebaseOffset_le_now)
      unfold Clock.rebase
      rw [offset]
      rfl
    have none : c.now = 0 := Nat.eq_zero_of_not_pos pos
    rw [still none, still (h.now_eq ▸ none), h.rebases_eq]

/-! ## One alarm at a time -/

/-- Takes the alarm of an event off the clock, and handles it. -/
def serve (handle : Handler ε σ) (e : ε) (c : Clock ε) (s : σ) : Except Fault (Clock ε × σ) :=
  match c.due? e with
  | none => .ok (c, s)
  | some due => handle ⟨due, e⟩ (c.cancel e) s

/-- What an advance does with an alarm that it hands out. -/
theorem WellFormed.serve_popDue (hc : c.WellFormed) {alarm : Alarm ε}
    (h : c.popDue = some (alarm, c₁)) (handle : Handler ε σ) (s : σ) :
    serve handle alarm.event c s = handle alarm c₁ s := by
  unfold serve
  rw [(hc.popDue_least h).1, hc.popDue_eq_cancel h]

/-! ## Alarms that change places -/

/-- What is done with alarms: whether one is handled at all, when it comes again, and the state
behind it. -/
structure Recurrence (ε σ : Type) where
  admits : ε → σ → Prop
  again : ε → σ → Option Nat
  expire : ε → σ → σ

variable {r : Recurrence ε σ} {handle : Handler ε σ} {I : (ε → Bool) → σ → Prop}

/-- The handler comes out well just where the alarm is admitted and can be set again. -/
def Recurrence.Describes (r : Recurrence ε σ) (handle : Handler ε σ) : Prop :=
  ∀ alarm c s c' s', handle alarm c s = .ok (c', s') ↔ r.admits alarm.event s ∧
    c.setAgain alarm.event alarm.due (r.again alarm.event s) = .ok c' ∧
    s' = r.expire alarm.event s

/-- What one alarm does does not depend on whether another was handled before it, as long as what
waits fits the state. -/
structure Recurrence.Commutes (r : Recurrence ε σ) (I : (ε → Bool) → σ → Prop) : Prop where
  keeps {pending : ε → Bool} {s : σ} {e : ε} : I pending s → pending e = true →
    I (update pending e (r.again e s).isSome) (r.expire e s)
  admits {pending : ε → Bool} {s : σ} {e e' : ε} : I pending s → pending e = true →
    pending e' = true → e ≠ e' → (r.admits e' (r.expire e s) ↔ r.admits e' s)
  again {pending : ε → Bool} {s : σ} {e e' : ε} : I pending s → pending e = true →
    pending e' = true → e ≠ e' → r.again e' (r.expire e s) = r.again e' s
  expire {pending : ε → Bool} {s : σ} {e e' : ε} : I pending s → pending e = true →
    pending e' = true → e ≠ e' → r.expire e' (r.expire e s) = r.expire e (r.expire e' s)

namespace Recurrence

/-- The alarms behind one of them, that was set for a cycle. -/
def behind (r : Recurrence ε σ) (p : ε → Option Nat) (s : σ) (e : ε) (due : Nat) :
    ε → Option Nat :=
  update p e ((r.again e s).map (due + ·))

theorem behind_self (r : Recurrence ε σ) (p : ε → Option Nat) (s : σ) (e : ε) (due : Nat) :
    r.behind p s e due e = (r.again e s).map (due + ·) :=
  update_self ..

theorem behind_ne (r : Recurrence ε σ) (p : ε → Option Nat) (s : σ) {e e' : ε} (due : Nat)
    (h : e' ≠ e) : r.behind p s e due e' = p e' :=
  update_of_ne h ..

/-- An alarm is admitted, and can be set again. -/
structure Passes (r : Recurrence ε σ) (s : σ) (e : ε) (due : Nat) : Prop where
  admits : r.admits e s
  room : ∀ delay ∈ r.again e s, due + delay ≤ Cycle.last

/-- An alarm is due, and none is earlier. -/
structure First (limit : Nat) (p : ε → Option Nat) (e : ε) (due : Nat) : Prop where
  waits : p e = some due
  due_le : due ≤ limit
  least : ∀ e' due', p e' = some due' → due ≤ due'

/-- `Clears r limit n p s p' s'`: handling what is due at cycle `limit`, `n` alarms, with any of the
earliest at every turn, takes the alarms from `p` to `p'` and the state from `s` to `s'`. -/
inductive Clears (r : Recurrence ε σ) (limit : Nat) :
    Nat → (ε → Option Nat) → σ → (ε → Option Nat) → σ → Prop
  | done {p : ε → Option Nat} {s : σ} : (∀ e due, p e = some due → limit < due) →
      Clears r limit 0 p s p s
  | fire {n due : Nat} {e : ε} {p p' : ε → Option Nat} {s s' : σ} : First limit p e due →
      r.Passes s e due → Clears r limit n (r.behind p s e due) (r.expire e s) p' s' →
      Clears r limit (n + 1) p s p' s'

/-- What waits, as far as it is of account. -/
abbrev waiting (p : ε → Option Nat) : ε → Bool := fun e => (p e).isSome

theorem waiting_behind (r : Recurrence ε σ) (p : ε → Option Nat) (s : σ) (e : ε) (due : Nat) :
    waiting (r.behind p s e due) = update (waiting p) e (r.again e s).isSome := by
  funext x
  by_cases hx : x = e
  · subst hx
    simp [waiting, behind]
  · rw [update_of_ne hx, waiting, r.behind_ne p s due hx]

theorem First.behind {limit due : Nat} {p : ε → Option Nat} {s : σ} {e e' : ε}
    (h : First limit p e due) (h' : First limit p e' due) (ne : e ≠ e') :
    First limit (r.behind p s e due) e' due := by
  refine ⟨(r.behind_ne p s due ne.symm).trans h'.waits, h'.due_le, fun x due' waits => ?_⟩
  by_cases hx : x = e
  · subst hx
    rw [behind_self] at waits
    obtain ⟨delay, -, rfl⟩ := Option.map_eq_some_iff.mp waits
    exact Nat.le_add_right due delay
  · rw [r.behind_ne p s due hx] at waits
    exact h.least x due' waits

variable {limit n due : Nat} {p p' : ε → Option Nat} {s s' : σ} {e e' : ε}

theorem Commutes.behind (comm : r.Commutes I) (hI : I (waiting p) s) {due' : Nat}
    (h : p e = some due) (h' : p e' = some due') (ne : e ≠ e') :
    r.behind (r.behind p s e due) (r.expire e s) e' due' =
        r.behind (r.behind p s e' due') (r.expire e' s) e due ∧
      r.expire e' (r.expire e s) = r.expire e (r.expire e' s) := by
  have waits : waiting p e = true := by simp [waiting, h]
  have waits' : waiting p e' = true := by simp [waiting, h']
  refine ⟨?_, comm.expire hI waits waits' ne⟩
  unfold Recurrence.behind
  rw [comm.again hI waits waits' ne, comm.again hI waits' waits ne.symm, update_comm ne]

theorem Commutes.passes_iff (comm : r.Commutes I) (hI : I (waiting p) s) {due' : Nat}
    (h : p e = some due') (h' : p e' = some due) (ne : e ≠ e') :
    r.Passes (r.expire e s) e' due ↔ r.Passes s e' due := by
  have waits : waiting p e = true := by simp [waiting, h]
  have waits' : waiting p e' = true := by simp [waiting, h']
  have admits := comm.admits hI waits waits' ne
  have again := comm.again hI waits waits' ne
  exact ⟨fun q => ⟨admits.mp q.admits, again ▸ q.room⟩,
    fun q => ⟨admits.mpr q.admits, again ▸ q.room⟩⟩

/-- Any of the earliest alarms might as well have been the first. -/
theorem Clears.exchange (comm : r.Commutes I) (h : Clears r limit n p s p' s')
    (hI : I (waiting p) s) (first : First limit p e due) :
    r.Passes s e due ∧ ∃ m, n = m + 1 ∧
      Clears r limit m (r.behind p s e due) (r.expire e s) p' s' := by
  -- Where another alarm was first, this one waits behind it, and is first of what is left.
  induction h with
  | done none => exact absurd (none e due first.waits) (Nat.not_lt.mpr first.due_le)
  | @fire n due₁ e₁ p p' s s' first₁ passes₁ rest ih =>
    obtain rfl : due₁ = due := Nat.le_antisymm (first₁.least _ _ first.waits)
      (first.least _ _ first₁.waits)
    by_cases same : e₁ = e
    · subst same
      exact ⟨passes₁, n, rfl, rest⟩
    · have kept : I (waiting (r.behind p s e₁ due₁)) (r.expire e₁ s) := by
        rw [waiting_behind]
        exact comm.keeps hI (by simp [waiting, first₁.waits])
      obtain ⟨passes, m, rfl, rest'⟩ := ih kept (first₁.behind first same)
      have passes := (comm.passes_iff hI first₁.waits first.waits same).mp passes
      have passes₁ := (comm.passes_iff hI first.waits first₁.waits (Ne.symm same)).mpr passes₁
      obtain ⟨alarms, state⟩ := comm.behind hI first₁.waits first.waits same
      rw [alarms, state] at rest'
      exact ⟨passes, m + 1, rfl, .fire (first.behind first₁ (Ne.symm same)) passes₁ rest'⟩

/-! ## Handlers -/

theorem Describes.lawful (desc : r.Describes handle) : handle.Lawful fun _ => True := by
  intro alarm c s c' s' hc _ h
  exact ⟨hc.setAgain ((desc alarm c s c' s').mp h).2.1, trivial⟩

theorem Describes.keeps (desc : r.Describes handle) (comm : r.Commutes I) : handle.Keeps I := by
  intro alarm c c₁ c₂ s s₂ hc hI hpop h
  obtain ⟨-, hset, rfl⟩ := (desc alarm c₁ s c₂ s₂).mp h
  rw [hc.wellFormed.isPending_setAgain hpop hset]
  exact comm.keeps hI (hc.wellFormed.isPending_popDue hpop).1

/-- The alarms and the state behind one alarm. -/
theorem Describes.serve_ok (desc : r.Describes handle) (waits : c.due? e = some due)
    (h : serve handle e c s = .ok (c', s')) :
    r.Passes s e due ∧ s' = r.expire e s ∧ c'.due? = r.behind c.due? s e due ∧
      c'.now = c.now ∧ c'.base = c.base ∧ c'.rebases = c.rebases := by
  unfold serve at h
  rw [waits] at h
  obtain ⟨admits, hset, rfl⟩ := (desc ..).mp h
  obtain ⟨now, base, rebases, dues⟩ := setAgain_agree hset (c.due?_cancel_self e)
  refine ⟨⟨admits, (setAgain_eq_ok _).mp ⟨_, hset⟩⟩, rfl, ?_, now, base, rebases⟩
  rw [dues, dues_cancel, update_idem]
  rfl

theorem Describes.exists_serve (desc : r.Describes handle) (waits : c.due? e = some due)
    (passes : r.Passes s e due) : ∃ c', serve handle e c s = .ok (c', r.expire e s) := by
  obtain ⟨c', hset⟩ := (c.cancel e).setAgain_eq_ok.mpr passes.room
  refine ⟨c', ?_⟩
  unfold serve
  rw [waits]
  exact (desc ..).mpr ⟨passes.admits, hset, rfl⟩

/-- Behind one alarm the clock is reachable, and what waits still fits the state. -/
theorem Describes.serve_keeps (desc : r.Describes handle) (comm : r.Commutes I)
    (hc : c.Reachable) (hI : I c.isPending s) (h : serve handle e c s = .ok (c', s')) :
    c'.Reachable ∧ I c'.isPending s' := by
  cases waits : c.due? e with
  | none =>
    unfold serve at h
    rw [waits] at h
    cases h
    exact ⟨hc, hI⟩
  | some due =>
    have reach : c'.Reachable := by
      unfold serve at h
      rw [waits] at h
      exact (desc.lawful _ _ _ _ _ (hc.cancel e) trivial h).1
    obtain ⟨-, rfl, dues, -⟩ := desc.serve_ok waits h
    have pending : c'.isPending = update c.isPending e (r.again e s).isSome :=
      (congrArg waiting dues).trans (r.waiting_behind c.due? s e due)
    rw [pending]
    exact ⟨reach, comm.keeps hI (by simp [isPending, waits])⟩

/-- What came out well cleared what was due. -/
theorem Describes.clears (desc : r.Describes handle) {budget : Nat} (hc : c.Reachable)
    (run : fireDue handle budget c s = .ok (c', s')) :
    (∃ n ≤ budget, Clears r c.now n c.due? s c'.due? s') ∧ c'.now = c.now ∧ c'.base = c.base ∧
      c'.rebases = c.rebases := by
  induction budget generalizing c s with
  | zero =>
    unfold fireDue at run
    split at run
    · next none =>
      cases run
      have ahead := hc.wellFormed.ahead_dues (Option.isNone_iff_eq_none.mp none)
      exact ⟨⟨0, Nat.le_refl _, .done ahead⟩, rfl, rfl, rfl⟩
    · exact absurd run (by simp)
  | succ budget ih =>
    unfold fireDue at run
    split at run
    · next none =>
      cases run
      exact ⟨⟨0, Nat.zero_le _, .done (hc.wellFormed.ahead_dues none)⟩, rfl, rfl, rfl⟩
    · next alarm c₁ hpop =>
      obtain ⟨⟨c₂, s₂⟩, hstep, hrest⟩ := bind_eq_ok.mp run
      obtain ⟨waits, due_le, least⟩ := hc.wellFormed.popDue_least hpop
      have reached := (desc.lawful _ _ _ _ _ (hc.popDue hpop) trivial hstep).1
      rw [← hc.wellFormed.serve_popDue hpop handle s] at hstep
      obtain ⟨passes, rfl, dues₂, now₂, base₂, rebases₂⟩ := desc.serve_ok waits hstep
      obtain ⟨⟨n, few, clears⟩, now, base, rebases⟩ := ih reached hrest
      rw [dues₂, now₂] at clears
      exact ⟨⟨n + 1, Nat.succ_le_succ few, .fire ⟨waits, due_le, least⟩ passes clears⟩,
        now.trans now₂, base.trans base₂, rebases.trans rebases₂⟩

/-- The clock clears what is due in an order of its own, and comes to the same. -/
theorem Describes.fireDue_ok (desc : r.Describes handle) (comm : r.Commutes I) {budget : Nat}
    (hc : c.Reachable) (hI : I c.isPending s) (h : Clears r c.now n c.due? s p' s')
    (few : n ≤ budget) :
    ∃ c', fireDue handle budget c s = .ok (c', s') ∧ c'.due? = p' ∧ c'.now = c.now ∧
      c'.base = c.base ∧ c'.rebases = c.rebases := by
  induction n generalizing c s budget with
  | zero =>
    cases h with
    | done ahead =>
      have none : c.popDue = none := by
        cases hpop : c.popDue with
        | none => rfl
        | some out =>
          obtain ⟨waits, due_le, -⟩ := hc.wellFormed.popDue_least hpop
          exact absurd (ahead _ _ waits) (Nat.not_lt.mpr due_le)
      exact ⟨c, by cases budget <;> simp [Clock.fireDue, none], rfl, rfl, rfl, rfl⟩
  | succ n ih =>
    obtain ⟨e, due, first⟩ : ∃ e due, First c.now c.due? e due := by
      cases h with
      | fire first _ _ => exact ⟨_, _, first⟩
    cases hpop : c.popDue with
    | none =>
      exact absurd (hc.wellFormed.ahead_dues hpop e due first.waits) (Nat.not_lt.mpr first.due_le)
    | some out =>
      obtain ⟨⟨due₁, e₁⟩, c₁⟩ := out
      obtain ⟨waits, due_le, least⟩ := hc.wellFormed.popDue_least hpop
      -- What the clock hands out is one of the earliest, so it might as well have been the first.
      obtain ⟨passes, m, hm, rest⟩ := h.exchange comm hI ⟨waits, due_le, least⟩
      obtain rfl : n = m := Nat.succ.inj hm
      obtain ⟨budget, rfl⟩ := Nat.exists_eq_add_of_le' (Nat.le_trans (Nat.le_add_left 1 n) few)
      obtain ⟨c₂, hstep⟩ := desc.exists_serve waits passes
      obtain ⟨-, -, dues₂, now₂, base₂, rebases₂⟩ := desc.serve_ok waits hstep
      rw [hc.wellFormed.serve_popDue hpop] at hstep
      have reached := (desc.lawful _ _ _ _ _ (hc.popDue hpop) trivial hstep).1
      have kept := desc.keeps comm _ _ _ _ _ _ hc hI hpop hstep
      rw [← dues₂, ← now₂] at rest
      obtain ⟨c', hrun, dues, now, base, rebases⟩ :=
        ih reached kept rest (Nat.le_of_succ_le_succ few)
      refine ⟨c', ?_, dues, now.trans now₂, base.trans base₂, rebases.trans rebases₂⟩
      simp only [Clock.fireDue, hpop]
      rw [hstep]
      exact hrun

/-! ## Advances -/

/-- Two clocks go along with the same state: they agree, and what waits fits it. -/
structure Along (I : (ε → Bool) → σ → Prop) (x y : Clock ε × σ) : Prop where
  agrees : x.1.Agrees y.1
  same : x.2 = y.2
  left : x.1.Reachable
  right : y.1.Reachable
  fits : I x.1.isPending x.2

theorem Along.pass {x y : Clock ε × σ} (h : Along I x y) {cycles : Nat}
    (room : x.1.now + cycles ≤ Cycle.clockMax) :
    Along I ({ x.1 with now := x.1.now + cycles }, x.2)
      ({ y.1 with now := y.1.now + cycles }, y.2) := by
  obtain ⟨⟨now, base, rebases, dues⟩, same, left, right, fits⟩ := h
  exact ⟨⟨congrArg (· + cycles) now, base, rebases, dues⟩, same, left.pass room,
    right.pass (now ▸ room), fits⟩

/-- What clears a clock clears a clock in agreement with it. -/
theorem Describes.fireDue_agree (desc : r.Describes handle) (comm : r.Commutes I) {budget : Nat}
    (h : Along I (c, s) (c', s)) :
    Together True (fun x y => Along I x y ∧ x.1.Ahead ∧ y.1.Ahead)
      (fireDue handle budget c s) (fireDue handle budget c' s) := by
  have along : ∀ {c c' : Clock ε}, Along I (c, s) (c', s) → ∀ x, fireDue handle budget c s = .ok x →
      ∃ y, fireDue handle budget c' s = .ok y ∧ Along I x y ∧ x.1.Ahead ∧ y.1.Ahead := by
    rintro c c' ⟨agrees, -, left, right, fits⟩ ⟨c₁, s₁⟩ run
    have fits' : I c'.isPending s := agrees.isPending_eq ▸ fits
    obtain ⟨⟨n, few, clears⟩, now, base, rebases⟩ := desc.clears left run
    rw [show c.now = c'.now from agrees.now_eq, show c.due? = c'.due? from agrees.dues] at clears
    obtain ⟨c₁', run', dues', now', base', rebases'⟩ :=
      desc.fireDue_ok comm right fits' clears few
    obtain ⟨kept, none⟩ := left.fireDue_keeps desc.lawful (desc.keeps comm) fits run
    have none' := (right.fireDue_keeps desc.lawful (desc.keeps comm) fits' run').2
    have reached := (left.fireDue desc.lawful trivial run).1
    have reached' := (right.fireDue desc.lawful trivial run').1
    refine ⟨(c₁', s₁), run', ⟨⟨?_, ?_, ?_, dues'.symm⟩, rfl, reached, reached', kept⟩,
      reached.wellFormed.none_due none, reached'.wellFormed.none_due none'⟩
    · exact (now.trans agrees.now_eq).trans now'.symm
    · exact (base.trans agrees.base_eq).trans base'.symm
    · exact (rebases.trans agrees.rebases_eq).trans rebases'.symm
  refine .both (along h) fun y run => ?_
  have back : Along I (c', s) (c, s) :=
    ⟨h.agrees.symm, rfl, h.right, h.left, h.agrees.isPending_eq ▸ h.fits⟩
  obtain ⟨x, hx, -⟩ := along back y run
  exact ⟨x, hx⟩

theorem Describes.makeRoom_agree (desc : r.Describes handle) (comm : r.Commutes I)
    {budget cycles : Nat} (h : Along I (c, s) (c', s)) :
    Together True (fun x y => Along I x y ∧ x.1.now + cycles ≤ Cycle.clockMax)
      (makeRoom handle budget cycles c s) (makeRoom handle budget cycles c' s) := by
  have now : c.now = c'.now := h.agrees.now_eq
  refine Together.of_left ?_ fun x run => (h.left.makeRoom desc.lawful trivial run).2.2
  unfold makeRoom
  rw [← now]
  split
  · exact .ok h
  · refine (desc.fireDue_agree comm h).bind ?_
    rintro ⟨c₁, s₁⟩ ⟨c₁', s₁'⟩ ⟨⟨agrees, rfl, left, right, fits⟩, ahead, ahead'⟩
    have agrees' := agrees.rebase left.wellFormed right.wellFormed ahead ahead'
    simp only [← show c₁.rebase.now = c₁'.rebase.now from agrees'.now_eq]
    split
    · exact .ok ⟨agrees', rfl, left.rebase, right.rebase, by rwa [isPending_rebase]⟩
    · exact .error trivial

/-- An advance comes to the same on clocks in agreement, or to a fault on both. -/
theorem Describes.advanceWithin_agree (desc : r.Describes handle) (comm : r.Commutes I)
    {budget cycles : Nat} (h : Along I (c, s) (c', s)) :
    Together True (Along I) (advanceWithin budget handle cycles c s)
      (advanceWithin budget handle cycles c' s) := by
  refine (desc.makeRoom_agree comm h).bind ?_
  rintro ⟨c₁, s₁⟩ ⟨c₁', s₁'⟩ ⟨along, room⟩
  obtain rfl : s₁ = s₁' := along.same
  exact (desc.fireDue_agree comm (along.pass room)).mono fun _ _ out => out.1

/-! ## Two alarms -/

/-- Two alarms that come out well in one order do so in the other, and come to the same. -/
theorem Describes.serve_swap (desc : r.Describes handle) (comm : r.Commutes I)
    (hI : I c.isPending s) {due' : Nat} (h : c.due? e = some due) (h' : c.due? e' = some due')
    (ne : e ≠ e') {x : Clock ε × σ}
    (run : (serve handle e c s >>= fun y => serve handle e' y.1 y.2) = .ok x) :
    ∃ y, (serve handle e' c s >>= fun y => serve handle e y.1 y.2) = .ok y ∧
      x.1.Agrees y.1 ∧ x.2 = y.2 := by
  obtain ⟨⟨c₁, s₁⟩, first, second⟩ := bind_eq_ok.mp run
  obtain ⟨c₂, s₂⟩ := x
  obtain ⟨passes, rfl, dues₁, now₁, base₁, rebases₁⟩ := desc.serve_ok h first
  have waits₁ : c₁.due? e' = some due' := by rw [dues₁, r.behind_ne _ _ _ ne.symm, h']
  obtain ⟨passes', rfl, dues₂, now₂, base₂, rebases₂⟩ := desc.serve_ok waits₁ second
  -- The other alarm could have been handled first, and this one behind it.
  obtain ⟨c₁', first'⟩ := desc.exists_serve h' ((comm.passes_iff hI h h' ne).mp passes')
  obtain ⟨-, -, dues₁', now₁', base₁', rebases₁'⟩ := desc.serve_ok h' first'
  have waits₁' : c₁'.due? e = some due := by rw [dues₁', r.behind_ne _ _ _ ne, h]
  obtain ⟨c₂', second'⟩ :=
    desc.exists_serve waits₁' ((comm.passes_iff hI h' h ne.symm).mpr passes)
  obtain ⟨-, -, dues₂', now₂', base₂', rebases₂'⟩ := desc.serve_ok waits₁' second'
  obtain ⟨alarms, state⟩ := comm.behind hI h h' ne
  refine ⟨_, bind_eq_ok.mpr ⟨_, first', second'⟩, ⟨?_, ?_, ?_, ?_⟩, state⟩
  · exact (now₂.trans now₁).trans (now₂'.trans now₁').symm
  · exact (base₂.trans base₁).trans (base₂'.trans base₁').symm
  · exact (rebases₂.trans rebases₁).trans (rebases₂'.trans rebases₁').symm
  · rw [dues₂, dues₂', dues₁, dues₁']
    exact alarms

/-- Two alarms come to the same in either order, or to a fault in both. -/
theorem Describes.serve_comm (desc : r.Describes handle) (comm : r.Commutes I)
    (hI : I c.isPending s) {due' : Nat} (h : c.due? e = some due) (h' : c.due? e' = some due')
    (ne : e ≠ e') :
    Together True (fun x y => x.1.Agrees y.1 ∧ x.2 = y.2)
      (serve handle e c s >>= fun y => serve handle e' y.1 y.2)
      (serve handle e' c s >>= fun y => serve handle e y.1 y.2) := by
  refine .both (fun x run => desc.serve_swap comm hI h h' ne run) fun y run => ?_
  obtain ⟨x, hx, -⟩ := desc.serve_swap comm hI h' h ne.symm run
  exact ⟨x, hx⟩

end Recurrence

end Clock

end C64
