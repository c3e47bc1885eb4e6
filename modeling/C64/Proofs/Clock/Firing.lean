import C64.Proofs.Clock.Agenda

/-!
# What an advance fires

An advance fires the alarms of the agenda up to the cycle it ends at
(`Responder.advanceWithin`): when there is no room below `Cycle.clockMax` it fires in two goes
with a rebase between them, and the agenda hides both.

A responder sets alarms for cycles to come only, so firing comes to an end
(`Responder.exists_fires`): the earliest cycle loses an alarm each time, and moves up when it has
none left. How many alarms fire is bounded by the numbers that were handed out
(`Responder.Leads.le_nextOrder`), so an advance succeeds under every budget above those.
-/

namespace C64.Clock

variable {ε σ : Type}

/-- A clock at the instant of another, with a number taken for every alarm that was added. -/
structure Follows (c' c : Clock ε) : Prop where
  wellFormed : c'.WellFormed
  now_eq : c'.now = c.now
  base_eq : c'.base = c.base
  numbered : c'.queue.length + c.nextOrder ≤ c.queue.length + c'.nextOrder

theorem Follows.refl {c : Clock ε} (hc : c.WellFormed) : Follows c c :=
  ⟨hc, rfl, rfl, Nat.le_refl _⟩

theorem Follows.trans {c₁ c₂ c₃ : Clock ε} (h₂ : Follows c₂ c₁) (h₃ : Follows c₃ c₂) :
    Follows c₃ c₁ :=
  ⟨h₃.wellFormed, h₃.now_eq.trans h₂.now_eq, h₃.base_eq.trans h₂.base_eq, by
    have := h₂.numbered
    have := h₃.numbered
    omega⟩

variable [DecidableEq ε]

/-! ## Requests -/

theorem Request.sorted_apply {q : Agenda ε} (hq : q.Sorted) (due : Nat) (x : Request ε) :
    (x.apply due q).Sorted := by
  cases x with
  | set delay event => exact hq.set _ _
  | cancel event => exact hq.cancel event

theorem Request.sorted_foldl {due : Nat} (requests : List (Request ε)) {q : Agenda ε}
    (hq : q.Sorted) : (requests.foldl (Request.apply due) q).Sorted := by
  induction requests generalizing q with
  | nil => exact hq
  | cons x rest ih => exact ih (x.sorted_apply hq due)

/-- What a request adds lies behind the alarm. -/
theorem Request.countP_apply {p : Nat × ε → Bool} {due : Nat} {x : Request ε} (hx : x.Ahead)
    (hp : ∀ y : Nat × ε, due < y.1 → p y = false) (q : Agenda ε) :
    (x.apply due q).countP p ≤ q.countP p := by
  cases x with
  | set delay event =>
    have new : p (due + delay, event) = false := hp _ (Nat.lt_add_of_pos_right hx.1)
    have insert : ∀ q' : Agenda ε,
        (Agenda.insert (due + delay, event) q').countP p = q'.countP p := by
      intro q'
      induction q' with
      | nil => simp [Agenda.insert, new]
      | cons y rest ih =>
        simp only [Agenda.insert]
        split
        · rw [List.countP_cons, List.countP_cons, ih]
        · rw [List.countP_cons, new]; rfl
    show (Agenda.insert _ (q.cancel event)).countP p ≤ _
    rw [insert]
    exact List.filter_sublist.countP_le
  | cancel event => exact List.filter_sublist.countP_le

theorem Request.countP_foldl {p : Nat × ε → Bool} {due : Nat} {requests : List (Request ε)}
    (hx : ∀ x ∈ requests, x.Ahead) (hp : ∀ y : Nat × ε, due < y.1 → p y = false)
    (q : Agenda ε) : (requests.foldl (Request.apply due) q).countP p ≤ q.countP p := by
  induction requests generalizing q with
  | nil => exact Nat.le_refl _
  | cons x rest ih =>
    exact Nat.le_trans (ih (fun y hy => hx y (.tail x hy)) _)
      (Request.countP_apply (hx x (.head rest)) hp q)

/-- What is true of no alarm ahead of the handled one, and of none that waits, stays so. -/
theorem Request.foldl_none {p : Nat × ε → Bool} {due : Nat} {requests : List (Request ε)}
    (hx : ∀ x ∈ requests, x.Ahead) (hp : ∀ y : Nat × ε, due < y.1 → p y = false) {q : Agenda ε}
    (hq : ∀ y ∈ q, p y = false) : ∀ y ∈ requests.foldl (Request.apply due) q, p y = false := by
  have none : q.countP p = 0 :=
    List.countP_eq_zero.mpr fun y hy => Bool.eq_false_iff.mp (hq y hy)
  have still := Nat.le_zero.mp (none ▸ Request.countP_foldl hx hp q)
  exact fun y hy => Bool.eq_false_iff.mpr (List.countP_eq_zero.mp still y hy)

/-- The alarm that is handled is not above `Cycle.clockMax`, so no request leaves the cycle
numbers. -/
theorem Request.perform_ok {c : Clock ε} (hc : c.WellFormed) {due : Nat}
    (hdue : due ≤ Cycle.clockMax) {x : Request ε} (hx : x.Ahead) :
    ∃ c', x.perform due c = .ok c' ∧ c'.agenda = x.apply (c.base + due) c.agenda ∧
      Follows c' c := by
  cases x with
  | set delay event =>
    have room : due + delay ≤ Cycle.last := by
      have := hx.2
      unfold Cycle.headroom Cycle.last Cycle.clockMax at *
      omega
    refine ⟨c.setAlarm (due + delay) event, ?_, ?_, hc.setAlarm room event, rfl, rfl, ?_⟩
    · simp [Request.perform, Cycle.add, room, bind, Except.bind, pure, Except.pure]
    · rw [agenda_setAlarm, ← Nat.add_assoc]; rfl
    · show (insertEntry _ _).length + c.nextOrder ≤ c.queue.length + (c.nextOrder + 1)
      have : (c.cancel event).queue.length ≤ c.queue.length := List.length_filter_le ..
      rw [length_insertEntry]
      omega
  | cancel event =>
    refine ⟨c.cancel event, rfl, agenda_cancel c event, hc.cancel event, rfl, rfl, ?_⟩
    exact Nat.add_le_add_right (List.length_filter_le ..) _

theorem Request.foldlM_perform {due : Nat} (hdue : due ≤ Cycle.clockMax)
    {requests : List (Request ε)} (hx : ∀ x ∈ requests, x.Ahead) {c : Clock ε}
    (hc : c.WellFormed) :
    ∃ c', requests.foldlM (Request.perform due) c = .ok c' ∧
      c'.agenda = requests.foldl (Request.apply (c.base + due)) c.agenda ∧ Follows c' c := by
  induction requests generalizing c with
  | nil => exact ⟨c, rfl, rfl, .refl hc⟩
  | cons x rest ih =>
    obtain ⟨c₁, h₁, ha₁, hf₁⟩ := Request.perform_ok hc hdue (hx x (.head rest))
    obtain ⟨c₂, h₂, ha₂, hf₂⟩ := ih (fun y hy => hx y (.tail x hy)) hf₁.wellFormed
    refine ⟨c₂, ?_, ?_, hf₁.trans hf₂⟩
    · rw [List.foldlM_cons, h₁]; exact h₂
    · rw [ha₂, ha₁, hf₁.base_eq]; rfl

/-! ## Firing comes to an end -/

/-- Every agenda can be fired up to a limit. The outer induction is on the cycles left to the
limit, the inner one on the alarms for the earliest cycle there can be. -/
theorem Responder.exists_fires {r : Responder ε σ} {Good : σ → Prop} (hr : r.Steady Good)
    (limit : Nat) {q : Agenda ε} (hq : q.Sorted) {s : σ} (hs : Good s) :
    ∃ n q' s', Fires r limit n q s q' s' := by
  suffices main : ∀ gap (q : Agenda ε) s, q.Sorted → Good s → (∀ x ∈ q, limit < x.1 + gap) →
      ∃ n q' s', Fires r limit n q s q' s' by
    exact main (limit + 1) q s hq hs fun x _ => by omega
  intro gap
  induction gap with
  | zero =>
    intro q s _ _ hlim
    exact ⟨0, q, s, .done fun x hx => hlim x (List.mem_of_mem_head? hx)⟩
  | succ gap ihGap =>
    intro q s hq hs hlim
    induction hcount : q.countP (fun x => decide (x.1 + gap ≤ limit)) using Nat.strongRecOn
      generalizing q s with
    | ind count ihCount =>
      cases q with
      | nil => exact ⟨0, [], s, .done fun x hx => absurd hx (by simp)⟩
      | cons x rest =>
        obtain ⟨due, event⟩ := x
        obtain ⟨hx, hrest⟩ := List.pairwise_cons.mp hq
        by_cases hle : due + gap ≤ limit
        · -- The earliest cycle loses this alarm, and the handler adds none to it.
          have ahead := hr.ahead due event s hs
          have fewer : ((r due event s).1.foldl (Request.apply due) rest).countP
              (fun x => decide (x.1 + gap ≤ limit)) ≤
                rest.countP fun x => decide (x.1 + gap ≤ limit) := by
            have near := hlim (due, event) (.head rest)
            exact Request.countP_foldl ahead
              (fun y (hy : due < y.1) => decide_eq_false (by omega)) rest
          have later : ∀ y ∈ (r due event s).1.foldl (Request.apply due) rest,
              limit < y.1 + (gap + 1) := by
            have near := hlim (due, event) (.head rest)
            intro y hy
            have := Request.foldl_none (p := fun x => decide (x.1 + (gap + 1) ≤ limit)) ahead
              (fun z (hz : due < z.1) => decide_eq_false (by omega))
              (fun z hz => decide_eq_false (Nat.not_le.mpr (hlim z (.tail _ hz)))) y hy
            exact Nat.not_le.mp (of_decide_eq_false this)
          have lower : ((r due event s).1.foldl (Request.apply due) rest).countP
              (fun x => decide (x.1 + gap ≤ limit)) < count := by
            rw [← hcount, List.countP_cons, if_pos (decide_eq_true hle)]
            omega
          obtain ⟨n, q', s', h⟩ := ihCount _ lower _ (r due event s).2
            (Request.sorted_foldl _ hrest) (hr.keeps due event s hs) later rfl
          exact ⟨n + 1, q', s', .fire (by omega) h⟩
        · refine ihGap _ s hq hs fun y hy => ?_
          rcases List.mem_cons.mp hy with rfl | hy
          · simp only []; omega
          · have := hx y hy
            simp only [] at this
            omega

/-! ## From the clock to its agenda -/

/-- Clock `c'` and state `s'` come out of `c` and `s` when `n` alarms fire. -/
structure Responder.Leads (r : Responder ε σ) (Good : σ → Prop) (n : Nat) (c : Clock ε) (s : σ)
    (c' : Clock ε) (s' : σ) : Prop where
  fires : Fires r c'.elapsed n c.agenda s c'.agenda s'
  wellFormed : c'.WellFormed
  good : Good s'
  /-- Every alarm that fired or waits now took a number of its own. -/
  numbered : n + c'.queue.length + c.nextOrder ≤ c.queue.length + c'.nextOrder

theorem Responder.Leads.le_nextOrder {r : Responder ε σ} {Good : σ → Prop} {n : Nat}
    {c c' : Clock ε} {s s' : σ} (h : r.Leads Good n c s c' s') (hc : c.WellFormed) :
    n ≤ c'.nextOrder ∧ c.nextOrder ≤ c'.nextOrder + c.queue.length := by
  have := h.numbered
  have := hc.length_le
  omega

theorem Responder.Leads.trans {r : Responder ε σ} {Good : σ → Prop} {m n : Nat}
    {c₁ c₂ c₃ : Clock ε} {s₁ s₂ s₃ : σ} (h₂ : r.Leads Good m c₁ s₁ c₂ s₂)
    (h₃ : r.Leads Good n c₂ s₂ c₃ s₃) (hle : c₂.elapsed ≤ c₃.elapsed) :
    r.Leads Good (m + n) c₁ s₁ c₃ s₃ :=
  ⟨h₂.fires.trans hle h₃.fires, h₃.wellFormed, h₃.good, by
    have := h₂.numbered
    have := h₃.numbered
    omega⟩

/-- Handing out what is due does to the clock what `Fires` says of its agenda. -/
theorem Responder.fireDue {r : Responder ε σ} {Good : σ → Prop} (hr : r.Steady Good)
    {c : Clock ε} (hc : c.WellFormed) {s s' : σ} (hs : Good s) {n : Nat} {q' : Agenda ε}
    (h : Fires r c.elapsed n c.agenda s q' s') :
    ∃ c', c'.agenda = q' ∧ c'.now = c.now ∧ c'.base = c.base ∧ r.Leads Good n c s c' s' ∧
      ∀ budget, n ≤ budget → fireDue r.handler budget c s = .ok (c', s') := by
  -- Induction on the firing itself; the clock follows it alarm by alarm.
  generalize hq : c.agenda = q at h
  generalize hlimit : c.elapsed = limit at h
  induction h generalizing c with
  | done hnone =>
    subst hq hlimit
    refine ⟨c, rfl, rfl, rfl, ⟨.done hnone, hc, hs, by omega⟩, fun budget _ => ?_⟩
    cases budget <;> simp [Clock.fireDue, popDue_eq_none hnone]
  | @fire due n event q q' s s' hdue hrest ih =>
    obtain ⟨at', c₁, hpop, rfl, ha, hnow, hbase, horder, hlen⟩ :=
      popDue_of_agenda hq (hlimit ▸ hdue)
    have hat : at' ≤ Cycle.clockMax := by
      have := hc.now_le
      unfold elapsed at hlimit
      omega
    obtain ⟨c₂, hdo, ha₂, hf₂⟩ := Request.foldlM_perform hat
      (hr.ahead (c.base + at') event s hs) (hc.popDue hpop)
    have hsame : c₂.elapsed = limit := by
      unfold elapsed at *
      rw [hf₂.base_eq, hf₂.now_eq, hbase, hnow, hlimit]
    obtain ⟨c₃, ha₃, hn₃, hb₃, hl, hrun⟩ := ih hf₂.wellFormed (hr.keeps _ event s hs)
      (by rw [ha₂, ha, hbase]) hsame
    refine ⟨c₃, ha₃, by rw [hn₃, hf₂.now_eq, hnow], by rw [hb₃, hf₂.base_eq, hbase],
      ⟨?_, hl.wellFormed, hl.good, ?_⟩, fun budget hb => ?_⟩
    · have hend : c₃.elapsed = limit := by
        unfold elapsed at *
        rw [hb₃, hn₃, hsame]
      rw [hq, hend, ha₃]
      exact .fire hdue hrest
    · have := hl.numbered
      have := hf₂.numbered
      omega
    · cases budget with
      | zero => omega
      | succ budget =>
        have hdo' : r.handler ⟨at', event⟩ c₁ s = .ok (c₂, (r (c.base + at') event s).2) := by
          simp only [Responder.handler, hbase]
          rw [hdo]
          rfl
        simp only [Clock.fireDue, hpop]
        rw [hdo']
        exact hrun budget (by omega)

/-- The last part of every advance: the counter moves and what is due fires. -/
theorem Responder.pass {r : Responder ε σ} {Good : σ → Prop} (hr : r.Steady Good) {c : Clock ε}
    (hc : c.WellFormed) {s : σ} (hs : Good s) {cycles : Nat}
    (hroom : cycles ≤ Cycle.clockMax - c.now) :
    ∃ n c' s', c'.elapsed = c.elapsed + cycles ∧ r.Leads Good n c s c' s' ∧
      ∀ budget, n ≤ budget →
        Clock.fireDue r.handler budget { c with now := c.now + cycles } s = .ok (c', s') := by
  have := hc.now_le
  have moved : WellFormed { c with now := c.now + cycles } := hc.pass (by omega)
  obtain ⟨n, q', s', hf⟩ := Responder.exists_fires hr
    (elapsed { c with now := c.now + cycles }) hc.agenda_sorted hs
  obtain ⟨c', rfl, hnow, hbase, hl, hrun⟩ := Responder.fireDue hr moved hs hf
  refine ⟨n, c', s', ?_, ⟨hl.fires, hl.wellFormed, hl.good, hl.numbered⟩, hrun⟩
  unfold elapsed
  rw [hnow, hbase]
  simp only []
  omega

/-- Behind a firing nothing holds the counter up. -/
theorem Responder.Leads.rebase_now {r : Responder ε σ} {Good : σ → Prop} {n : Nat}
    {c c' : Clock ε} {s s' : σ} (h : r.Leads Good n c s c' s') : c'.rebase.now = 0 := by
  refine Clock.rebase_now fun e he => ?_
  have hsorted := h.wellFormed.agenda_sorted
  have hnone := h.fires.none_due
  have hmem : (c'.base + e.due, e.event) ∈ c'.agenda := mem_agenda.mpr ⟨e, he, rfl⟩
  cases hq : c'.agenda with
  | nil => rw [hq] at hmem; exact absurd hmem (by simp)
  | cons x rest =>
    rw [hq] at hmem hsorted hnone
    have hx := hnone x rfl
    unfold elapsed at hx
    rcases List.mem_cons.mp hmem with hfirst | hlater
    · rw [← hfirst] at hx
      simp only [] at hx
      omega
    · have := (List.pairwise_cons.mp hsorted).1 _ hlater
      simp only [] at this
      omega

/-- What comes out of a rebased clock comes out of the clock. -/
theorem Responder.Leads.of_rebase {r : Responder ε σ} {Good : σ → Prop} {n : Nat}
    {c c' : Clock ε} {s s' : σ} (hc : c.WellFormed) (h : r.Leads Good n c.rebase s c' s') :
    r.Leads Good n c s c' s' := by
  refine ⟨hc.agenda_rebase ▸ h.fires, h.wellFormed, h.good, ?_⟩
  have := h.numbered
  rw [length_rebase, nextOrder_rebase] at this
  exact this

/-- An advance fires what falls due up to its end, with or without a rebase on the way. -/
theorem Responder.advanceWithin {r : Responder ε σ} {Good : σ → Prop} (hr : r.Steady Good)
    {c : Clock ε} (hc : c.WellFormed) {s : σ} (hs : Good s) {cycles : Nat}
    (hcycles : cycles ≤ Cycle.clockMax) :
    ∃ n c' s', c'.elapsed = c.elapsed + cycles ∧ r.Leads Good n c s c' s' ∧
      ∀ budget, n ≤ budget → advanceWithin budget r.handler cycles c s = .ok (c', s') := by
  by_cases hroom : cycles ≤ Cycle.clockMax - c.now
  · obtain ⟨n, c', s', he, hl, hrun⟩ := Responder.pass hr hc hs hroom
    refine ⟨n, c', s', he, hl, fun budget hb => ?_⟩
    unfold Clock.advanceWithin makeRoom
    rw [if_pos hroom]
    exact hrun budget hb
  · obtain ⟨m, q₁, s₁, hf₁⟩ := Responder.exists_fires hr c.elapsed hc.agenda_sorted hs
    obtain ⟨c₁, rfl, hnow₁, hbase₁, hl₁, hrun₁⟩ := Responder.fireDue hr hc hs hf₁
    have he₁ : c₁.elapsed = c.elapsed := by
      unfold elapsed
      rw [hnow₁, hbase₁]
    have hroom₁ : cycles ≤ Cycle.clockMax - c₁.rebase.now := by
      rw [hl₁.rebase_now]
      exact hcycles
    obtain ⟨n, c', s', he, hl, hrun⟩ := Responder.pass hr hl₁.wellFormed.rebase hl₁.good hroom₁
    rw [elapsed_rebase, he₁] at he
    have hl := hl₁.trans (hl.of_rebase hl₁.wellFormed) (by omega)
    -- Each of the two firings gets the whole budget, so the sum of both is more than enough.
    refine ⟨m + n, c', s', he, hl, fun budget hb => ?_⟩
    unfold Clock.advanceWithin makeRoom
    rw [if_neg hroom, hrun₁ budget (by omega), ok_bind]
    simp only []
    rw [if_pos hroom₁]
    exact hrun budget (by omega)

/-! ## Runs that succeeded -/

omit [DecidableEq ε] in
theorem fireDue_more {handle : Handler ε σ} {budget more : Nat} (le : budget ≤ more) {c : Clock ε}
    {s : σ} {out : Clock ε × σ} (h : Clock.fireDue handle budget c s = .ok out) :
    Clock.fireDue handle more c s = .ok out := by
  induction budget generalizing more c s with
  | zero =>
    unfold Clock.fireDue at h
    split at h
    · next none => cases more <;> simp_all [Clock.fireDue]
    · exact absurd h (by simp)
  | succ budget ih =>
    obtain ⟨more, rfl⟩ := Nat.exists_eq_succ_of_ne_zero (Nat.ne_of_gt (Nat.lt_of_lt_of_le
      (Nat.succ_pos budget) le))
    unfold Clock.fireDue at h ⊢
    split at h
    · exact h
    · next alarm c₁ _ =>
      obtain ⟨⟨c₂, s₂⟩, hdo, hrest⟩ := bind_eq_ok.mp h
      rw [hdo]
      exact ih (Nat.le_of_succ_le_succ le) hrest

omit [DecidableEq ε] in
/-- What an advance comes to does not change with a greater budget, and it was not too long. -/
theorem advanceWithin_more {handle : Handler ε σ} {budget more cycles : Nat} (le : budget ≤ more)
    {c : Clock ε} {s : σ} {out : Clock ε × σ}
    (h : Clock.advanceWithin budget handle cycles c s = .ok out) :
    Clock.advanceWithin more handle cycles c s = .ok out ∧ cycles ≤ Cycle.clockMax := by
  unfold Clock.advanceWithin makeRoom at h ⊢
  split at h
  · next room => exact ⟨by rw [if_pos room]; exact fireDue_more le h, by omega⟩
  · next full =>
    obtain ⟨⟨c₁, s₁⟩, hroom, hfire⟩ := bind_eq_ok.mp h
    obtain ⟨⟨c₂, s₂⟩, hdrain, hrebase⟩ := bind_eq_ok.mp hroom
    rw [if_neg full, fireDue_more le hdrain, ok_bind]
    simp only [] at hrebase ⊢
    split at hrebase
    · next room =>
      cases hrebase
      exact ⟨by rw [if_pos room]; exact fireDue_more le hfire, by omega⟩
    · exact absurd hrebase (by simp)

/-- An advance that succeeded has fired what fell due up to its end. -/
theorem Responder.leads_of_advance {r : Responder ε σ} {Good : σ → Prop} (hr : r.Steady Good)
    {c c' : Clock ε} (hc : c.WellFormed) {s s' : σ} (hs : Good s) {budget cycles : Nat}
    (h : Clock.advanceWithin budget r.handler cycles c s = .ok (c', s')) :
    ∃ n, c'.elapsed = c.elapsed + cycles ∧ r.Leads Good n c s c' s' := by
  obtain ⟨-, short⟩ := advanceWithin_more (Nat.le_refl budget) h
  obtain ⟨n, c₁, s₁, age, leads, hrun⟩ := Responder.advanceWithin hr hc hs short
  -- Both outcomes are that of a budget above either.
  have same := (hrun _ (Nat.le_max_right budget n)).symm.trans
    (advanceWithin_more (Nat.le_max_left budget n) h).1
  cases same
  exact ⟨n, age, leads⟩

end C64.Clock
