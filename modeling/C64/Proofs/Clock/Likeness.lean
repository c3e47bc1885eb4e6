import C64.Proofs.Clock.Pending

/-!
# Clocks that run alike

Two clocks may show different counters and still have the same to come: their alarms lie equally
far ahead and fire in the same order. `Clock.Alike` says so of the alarms of some events, for a
chip can be set up alike on two clocks while the alarms of others still differ. It is said in
absolute time, with each agenda moved by the age of the other clock.

Clocks that are alike in every event answer the same (`Alike.cyclesUntil?`), and alarms that set
themselves again lead from them to clocks that are alike (`Alike.leads`).
-/

namespace C64.Clock

open Function

variable {ε σ : Type}

/-! ## Agendas that are moved, and parts of agendas -/

namespace Agenda

/-- The same alarms, so many cycles later. -/
def shift (k : Nat) (q : Agenda ε) : Agenda ε := q.map fun x => (x.1 + k, x.2)

/-- The alarms of some events. -/
def only (P : ε → Bool) (q : Agenda ε) : Agenda ε := q.filter fun x => P x.2

theorem shift_shift (j k : Nat) (q : Agenda ε) : (q.shift j).shift k = q.shift (j + k) := by
  simp [shift, Nat.add_assoc, Function.comp_def]

theorem only_of_forall {P : ε → Bool} {q : Agenda ε} (h : ∀ x ∈ q, P x.2 = true) :
    q.only P = q :=
  List.filter_eq_self.mpr h

theorem shift_only (k : Nat) (P : ε → Bool) (q : Agenda ε) :
    (q.only P).shift k = (q.shift k).only P := by
  simp only [shift, only, List.filter_map]
  rfl

theorem only_only {P P' : ε → Bool} (h : ∀ e, P' e = true → P e = true) (q : Agenda ε) :
    (q.only P).only P' = q.only P' := by
  simp only [only, List.filter_filter]
  refine List.filter_congr fun x _ => ?_
  cases hx : P' x.2 with
  | true => simp [h x.2 hx]
  | false => simp

theorem shift_insert (k : Nat) (x : Nat × ε) (q : Agenda ε) :
    (insert x q).shift k = insert (x.1 + k, x.2) (q.shift k) := by
  induction q with
  | nil => rfl
  | cons y rest ih =>
    simp only [shift, insert, List.map_cons, Nat.add_le_add_iff_right] at ih ⊢
    split
    · rw [List.map_cons, ih]
    · rfl

/-- Alarms that come in order are put in order whether or not others lie between them. -/
theorem only_insert {P : ε → Bool} {x : Nat × ε} {q : Agenda ε} (hq : q.Sorted)
    (hx : P x.2 = true) : (insert x q).only P = insert x (q.only P) := by
  induction q with
  | nil => simp [only, insert, hx]
  | cons y rest ih =>
    obtain ⟨first, hrest⟩ := List.pairwise_cons.mp hq
    simp only [insert]
    split
    · next before =>
      have ih := ih hrest
      simp only [only] at ih ⊢
      cases hy : P y.2 with
      | true => simp [hy, ih, insert, before]
      | false => simp [hy, ih]
    · next behind =>
      have later : ∀ z ∈ (y :: rest).filter (fun z => P z.2), ¬z.1 ≤ x.1 := by
        intro z hz
        rcases List.mem_cons.mp (List.mem_filter.mp hz).1 with rfl | hz
        · exact behind
        · exact fun hle => behind (Nat.le_trans (first z hz) hle)
      show ((x :: y :: rest).filter fun z => P z.2) = insert x ((y :: rest).filter fun z => P z.2)
      rw [List.filter_cons_of_pos (by simpa using hx)]
      cases hcut : (y :: rest).filter fun z => P z.2 with
      | nil => rfl
      | cons z more => simp [insert, later z (hcut ▸ .head more)]

variable [DecidableEq ε]

theorem shift_cancel (k : Nat) (e : ε) (q : Agenda ε) :
    (q.cancel e).shift k = (q.shift k).cancel e := by
  simp only [shift, cancel, List.filter_map]
  rfl

theorem only_cancel (P : ε → Bool) (e : ε) (q : Agenda ε) :
    (q.cancel e).only (update P e true) = (q.only P).cancel e := by
  simp only [only, cancel, List.filter_filter]
  refine List.filter_congr fun x _ => ?_
  by_cases hx : x.2 = e <;> simp [hx]

theorem due?_shift (k : Nat) (q : Agenda ε) (e : ε) :
    (q.shift k).due? e = (q.due? e).map (· + k) := by
  simp only [due?, shift, List.find?_map, Option.map_map]
  rfl

theorem due?_only {P : ε → Bool} {e : ε} (he : P e = true) (q : Agenda ε) :
    (q.only P).due? e = q.due? e := by
  simp only [due?, only, List.find?_filter]
  congr 2
  funext x
  by_cases hx : x.2 = e <;> simp [hx, he]

end Agenda

/-! ## Clocks -/

variable [DecidableEq ε]

/-- The alarms of some events lie equally far ahead on both clocks, and in the same order. -/
structure Alike (P : ε → Bool) (c c' : Clock ε) : Prop where
  left : c.Reachable
  right : c'.Reachable
  agenda : (c.agenda.only P).shift c'.elapsed = (c'.agenda.only P).shift c.elapsed

/-- Every event. -/
def every : ε → Bool := fun _ => true

section Alike

variable {P P' : ε → Bool} {c c' : Clock ε}

/-- Of no events there is nothing to say. -/
theorem Alike.none (hc : c.Reachable) (hc' : c'.Reachable) : Alike (fun _ => false) c c' :=
  ⟨hc, hc', by simp [Agenda.only, Agenda.shift]⟩

theorem Alike.mono (h : Alike P c c') (sub : ∀ e, P' e = true → P e = true) : Alike P' c c' := by
  refine ⟨h.left, h.right, ?_⟩
  rw [← Agenda.only_only sub c.agenda, ← Agenda.only_only sub c'.agenda, Agenda.shift_only, h.agenda,
    ← Agenda.shift_only]

/-- Where no other alarm waits, clocks alike in some events are alike in all. -/
theorem Alike.whole (h : Alike P c c')
    (others : ∀ e, P e = false → c.isPending e = false ∧ c'.isPending e = false) :
    Alike every c c' := by
  have all : ∀ {d : Clock ε}, (∀ e, P e = false → d.isPending e = false) →
      d.agenda.only every = d.agenda.only P := by
    intro d none
    rw [Agenda.only_of_forall (fun _ _ => rfl), Agenda.only_of_forall]
    intro x hx
    obtain ⟨entry, hentry, rfl⟩ := mem_agenda.mp hx
    by_contra hP
    have waits := none _ (Bool.eq_false_iff.mpr hP)
    rw [isPending_iff.mpr ⟨entry, hentry, rfl⟩] at waits
    exact absurd waits (by simp)
  refine ⟨h.left, h.right, ?_⟩
  rw [all fun e he => (others e he).1, all fun e he => (others e he).2, h.agenda]

/-- Nothing is added to every event. -/
theorem Alike.updated {e : ε} (h : Alike (update every e true) c c') : Alike every c c' :=
  h.mono fun _ _ => by simp [update_apply, every]

theorem Alike.cancel (h : Alike P c c') (e : ε) :
    Alike (update P e true) (c.cancel e) (c'.cancel e) := by
  refine ⟨h.left.cancel e, h.right.cancel e, ?_⟩
  have age : ∀ d : Clock ε, (d.cancel e).elapsed = d.elapsed := fun _ => rfl
  rw [age, age, agenda_cancel, agenda_cancel, Agenda.only_cancel, Agenda.only_cancel,
    Agenda.shift_cancel, Agenda.shift_cancel, h.agenda]

/-- An alarm that is set equally far ahead. -/
theorem Alike.setAlarm (h : Alike P c c') {delay : Nat} (room : delay ≤ Cycle.headroom) (e : ε) :
    Alike (update P e true) (c.setAlarm (c.now + delay) e) (c'.setAlarm (c'.now + delay) e) := by
  have set : ∀ {d : Clock ε}, d.Reachable →
      (d.setAlarm (d.now + delay) e).agenda.only (update P e true) =
        Agenda.insert (d.elapsed + delay, e) ((d.agenda.only P).cancel e) := by
    intro d hd
    have chosen : update P e true (d.elapsed + delay, e).2 = true := update_self ..
    have sorted := hd.wellFormed.agenda_sorted.cancel e
    rw [agenda_setAlarm, Agenda.set, ← Nat.add_assoc, ← Agenda.only_cancel]
    exact Agenda.only_insert sorted chosen
  have age : ∀ d : Clock ε, (d.setAlarm (d.now + delay) e).elapsed = d.elapsed := fun _ => rfl
  refine ⟨h.left.setAlarm e (add_le_last h.left.wellFormed.now_le room),
    h.right.setAlarm e (add_le_last h.right.wellFormed.now_le room), ?_⟩
  rw [set h.left, set h.right, age, age, Agenda.shift_insert, Agenda.shift_insert,
    Agenda.shift_cancel, Agenda.shift_cancel, h.agenda]
  congr 2
  simp only []
  omega

theorem Alike.setAlarmIn [ToString ε] (h : Alike P c c') {delay : Nat}
    (room : delay ≤ Cycle.headroom) (e : ε) :
    Together False (fun p q => Alike (update P e true) p.2 q.2) (c.setAlarmIn delay e)
      (c'.setAlarmIn delay e) := by
  rw [h.left.wellFormed.setAlarmIn_eq room, h.right.wellFormed.setAlarmIn_eq room]
  exact .ok (h.setAlarm room e)

/-- A sixteen-bit counter that begins to count down. -/
theorem Alike.countDown [ToString ε] (h : Alike every c c') (count : UInt16) (e : ε) :
    Together False (fun p q => Alike every p.2 q.2) (c.setAlarmIn (count.toNat + 1) e)
      (c'.setAlarmIn (count.toNat + 1) e) :=
  (h.setAlarmIn (count_le_headroom count) e).mono fun _ _ h => h.updated

/-- Whatever waits, it takes the same time. -/
theorem Alike.cyclesUntil? (h : Alike P c c') {e : ε} (he : P e = true) :
    c.cyclesUntil? e = c'.cyclesUntil? e := by
  have due := congrArg (Agenda.due? · e) h.agenda
  simp only [Agenda.due?_shift, Agenda.due?_only he, due?_agenda, Option.map_map] at due
  unfold Clock.cyclesUntil?
  unfold elapsed at due
  cases hd : c.due? e <;> cases hd' : c'.due? e <;> simp [hd, hd'] at due ⊢
  omega

end Alike

/-! ## Time -/

section Time

variable {again : ε → σ → Option Nat} {expire : ε → σ → σ}

theorem Request.shift_apply (k due : Nat) (q : Agenda ε) (x : Request ε) :
    (x.apply due q).shift k = x.apply (due + k) (q.shift k) := by
  cases x with
  | set delay event =>
    simp only [Request.apply, Agenda.set, Agenda.shift_insert, Agenda.shift_cancel]
    rw [Nat.add_right_comm]
  | cancel event => exact Agenda.shift_cancel k event q

theorem Request.shift_foldl (k due : Nat) (requests : List (Request ε)) (q : Agenda ε) :
    (requests.foldl (Request.apply due) q).shift k =
      requests.foldl (Request.apply (due + k)) (q.shift k) := by
  induction requests generalizing q with
  | nil => rfl
  | cons x rest ih => rw [List.foldl_cons, ih, Request.shift_apply, List.foldl_cons]

/-- Alarms that set themselves again do so at any time of day. -/
theorem Fires.shift {limit n : Nat} {q q' : Agenda ε} {s s' : σ}
    (h : Fires (recurring again expire) limit n q s q' s') (k : Nat) :
    Fires (recurring again expire) (limit + k) n (q.shift k) s (q'.shift k) s' := by
  induction h with
  | @done q s hnone =>
    refine .done fun x hx => ?_
    cases q with
    | nil => exact absurd hx (by simp [Agenda.shift])
    | cons y rest =>
      obtain rfl : (y.1 + k, y.2) = x := by simpa [Agenda.shift] using hx
      exact Nat.add_lt_add_right (hnone y rfl) k
  | @fire due n event q q' s s' hdue _ ih =>
    rw [Request.shift_foldl] at ih
    exact .fire (Nat.add_le_add_right hdue k) ih

/-- States that are related, and stay so under every alarm, fire the same alarms. -/
theorem Fires.related {S : σ → σ → Prop}
    (same : ∀ event s t, S s t → again event s = again event t ∧ S (expire event s) (expire event t))
    {limit n : Nat} {q q' : Agenda ε} {s s' t : σ}
    (h : Fires (recurring again expire) limit n q s q' s') (hS : S s t) :
    ∃ t', Fires (recurring again expire) limit n q t q' t' ∧ S s' t' := by
  induction h generalizing t with
  | done hnone => exact ⟨t, .done hnone, hS⟩
  | @fire due n event q q' s s' hdue _ ih =>
    obtain ⟨ask, next⟩ := same event s t hS
    obtain ⟨t', fires, hS'⟩ := ih next
    refine ⟨t', .fire hdue ?_, hS'⟩
    unfold recurring at fires ⊢
    rwa [ask] at fires

/-- As much time on two clocks that are alike leads from related states to related states, and
again to clocks that are alike. -/
theorem Alike.leads {S : σ → σ → Prop}
    (same : ∀ event s t, S s t → again event s = again event t ∧ S (expire event s) (expire event t))
    {Good Good' : σ → Prop} {m n cycles : Nat} {c c' d d' : Clock ε} {s s' t t' : σ}
    (h : Alike every c d) (hS : S s t)
    (hc : (recurring again expire).Leads Good m c s c' s')
    (hd : (recurring again expire).Leads Good' n d t d' t')
    (agec : c'.elapsed = c.elapsed + cycles) (aged : d'.elapsed = d.elapsed + cycles)
    (reachc : c'.Reachable) (reachd : d'.Reachable) : Alike every c' d' ∧ S s' t' := by
  have whole : ∀ q : Agenda ε, q.only every = q := fun q => Agenda.only_of_forall fun _ _ => rfl
  have start := h.agenda
  rw [whole, whole] at start
  -- Each run, later by the age of the other clock, starts from one agenda and ends at one cycle.
  have runc := hc.fires.shift d.elapsed
  have rund := hd.fires.shift c.elapsed
  rw [start, agec, Nat.add_right_comm] at runc
  rw [aged, Nat.add_right_comm, Nat.add_comm d.elapsed] at rund
  obtain ⟨u, runu, hS'⟩ := runc.related same hS
  obtain ⟨-, ends, rfl⟩ := runu.unique rund
  refine ⟨⟨reachc, reachd, ?_⟩, hS'⟩
  rw [whole, whole, agec, aged, ← Agenda.shift_shift, ← Agenda.shift_shift, ends]

end Time

end C64.Clock
