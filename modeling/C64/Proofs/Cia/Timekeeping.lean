import Mathlib.Logic.Relation
import C64.Proofs.Cia.Cycles
import C64.Proofs.Cia.Tenths
import C64.Proofs.Rtc.Timekeeping

/-!
# The time of day by the clock

The adapter's alarm for the time of day is set from the counter once, and from its own last cycle
ever after. So it comes in the cycles that lie whole tenths behind the first setting, in all of them
and in no other, whatever else is on the clock (`Cia.Counts`). The digits count along as long as
nobody writes them (`Cia.Struck`): a valid time goes through the tenths of the day, and the
interrupt is raised at those of the alarm time and at no other.
-/

namespace C64.Cia

open Clock Function Relation

variable {ε σ : Type}

/-! ## A chip beside others -/

/-- A tenth of a second: the cycle of its alarm, and the chip before and behind it. -/
structure Tenth where
  cycle : Nat
  before : Cia
  after : Cia

/-- A chip, the tenths it had, and what else is on the clock. -/
structure Among (σ : Type) where
  cia : Cia
  tenths : List Tenth
  rest : σ

/-- An alarm of the chip fires. -/
def Among.alarm (s : Among σ) (cycle : Nat) (e : Event) : Among σ :=
  { s with
    cia := s.cia.expire e
    tenths := if e = .tod then s.tenths ++ [⟨cycle, s.cia, s.cia.expire e⟩] else s.tenths }

section Serving

variable [DecidableEq ε] (event : Event → ε) (others : Responder ε σ)

/-- The event of the chip that an event of the machine is. -/
def owner? (x : ε) : Option Event := [Event.timer .a, .timer .b, .tod].find? (event · = x)

theorem owner?_eq_some {x : ε} {e : Event} (h : owner? event x = some e) : event e = x := by
  simpa using List.find?_some h

theorem owner?_eq_none {x : ε} (h : owner? event x = none) (e : Event) : x ≠ event e := by
  simp only [owner?, List.find?_eq_none, List.forall_mem_cons, decide_eq_true_eq] at h
  cases e with
  | timer which =>
    cases which with
    | a => exact Ne.symm h.1
    | b => exact Ne.symm h.2.1
  | tod => exact Ne.symm h.2.2.1

/-- Hands its alarms to the chip, and every other to whoever waits for it. -/
def serve : Handler ε (Among σ) := fun alarm clock s =>
  match owner? event alarm.event with
  | some e => do
    let (cia, clock') ← s.cia.onAlarm event clock e alarm.due
    let note : Tenth := ⟨clock.base + alarm.due, s.cia, cia⟩
    return (clock', { s with cia, tenths := if e = .tod then s.tenths ++ [note] else s.tenths })
  | none => do
    let (clock, rest) ← others.handler alarm clock s.rest
    return (clock, { s with rest })

/-- What `serve` asks of the clock, and what it makes of the chip. -/
def beside : Responder ε (Among σ) := fun due x s =>
  match owner? event x with
  | some e => (((s.cia.again? e).map fun delay => .set delay (event e)).toList, s.alarm due e)
  | none => ((others due x s.rest).1, { s with rest := (others due x s.rest).2 })

/-- A clock can count the tenths of the chip, and the others are in a good state. -/
structure Countable (Good : σ → Prop) (s : Among σ) : Prop where
  le_headroom : s.cia.tenth ≤ Cycle.headroom
  others : Good s.rest

theorem serve_describes (Good : σ → Prop) :
    (beside event others).Describes (Countable Good) (serve event others) := by
  intro alarm clock s countable
  have room : (s.cia.expire .tod).tenth ≤ Cycle.last :=
    (s.cia.tenth_expire .tod).symm ▸ Nat.le_trans countable.le_headroom (Nat.sub_le ..)
  unfold serve beside Responder.handler
  cases whose : owner? event alarm.event with
  | some e =>
    simp only [whose, onAlarm_eq_of_le event room]
    cases s.cia.again? e with
    | none => rfl
    | some delay =>
      simp only [setAgain, Option.map_some, Option.toList_some, List.foldlM_cons, List.foldlM_nil,
        Request.perform]
      cases Cycle.add alarm.due delay <;> rfl
  | none =>
    simp only [whose]
    cases (others (clock.base + alarm.due) alarm.event s.rest).1.foldlM
      (Request.perform alarm.due) clock <;> rfl

theorem beside_steady {Good : σ → Prop} (steady : others.Steady Good) :
    (beside event others).Steady (Countable Good) where
  ahead due x s countable := by
    unfold beside
    split
    · intro request mem
      obtain ⟨delay, again, rfl⟩ := Option.map_eq_some_iff.mp (Option.mem_toList.mp mem)
      have room : (s.cia.expire .tod).tenth ≤ Cycle.headroom :=
        (s.cia.tenth_expire .tod).symm ▸ countable.le_headroom
      exact ⟨again?_pos again, again?_le_of_le room again⟩
    · exact steady.ahead due x s.rest countable.others
  keeps due x s countable := by
    unfold beside
    split
    · exact ⟨(s.cia.tenth_expire _).symm ▸ countable.le_headroom, countable.others⟩
    · exact ⟨countable.le_headroom, steady.keeps due x s.rest countable.others⟩

/-- No other alarm touches that of the time of day. -/
def Apart : Prop :=
  ∀ due x s, owner? event x = none → ∀ request ∈ (others due x s).1,
    Rtc.Spares (event .tod) request

/-- What an alarm on the clock is to the time of day: a tenth of a second, or none. -/
inductive Rings (due : Nat) (x : ε) (q : Agenda ε) (s : Among σ) : Agenda ε → Among σ → Prop
  | tod {q' : Agenda ε} : x = event .tod → q'.due? (event .tod) = some (due + s.cia.tenth) →
      Rings due x q s q' (s.alarm due .tod)
  | timer {q' : Agenda ε} {which : TimerId} :
      q'.due? (event .tod) = Agenda.due? ((due, x) :: q) (event .tod) →
      Rings due x q s q' (s.alarm due (.timer which))
  | stranger {q' : Agenda ε} {rest : σ} :
      q'.due? (event .tod) = Agenda.due? ((due, x) :: q) (event .tod) →
      Rings due x q s q' { s with rest }

variable {event others}

theorem rings (inj : Injective event) (apart : Apart event others) (due : Nat) (x : ε)
    (q : Agenda ε) (s : Among σ) :
    Rings event due x q s ((beside event others due x s).1.foldl (Request.apply due) q)
      (beside event others due x s).2 := by
  unfold beside
  cases whose : owner? event x with
  | none =>
    refine .stranger ?_
    rw [Rtc.Spares.due?_foldl fun request mem => apart due x s.rest whose request mem]
    exact (Agenda.due?_cons_ne (owner?_eq_none event whose .tod) q).symm
  | some e =>
    obtain rfl := owner?_eq_some event whose
    cases e with
    | tod =>
      refine .tod rfl ?_
      rw [← s.cia.tenth_expire .tod]
      exact Agenda.due?_set_self q _ _
    | timer which =>
      have other : event (.timer which) ≠ event .tod := inj.ne nofun
      refine .timer ?_
      rw [Agenda.due?_cons_ne other]
      simp only []
      cases s.cia.again? (.timer which) with
      | none => rfl
      | some delay => exact Agenda.due?_set_ne q _ other

/-- What every alarm keeps, by what it is to the time of day, firing keeps. -/
theorem keeps_of_rings (inj : Injective event) (apart : Apart event others) {limit n : Nat}
    {P : Agenda ε → Among σ → Prop}
    (each : ∀ {due x q s q' s'}, due ≤ limit → P ((due, x) :: q) s →
      Rings event due x q s q' s' → P q' s')
    {q q' : Agenda ε} {s s' : Among σ} (h : Fires (beside event others) limit n q s q' s')
    (before : P q s) : P q' s' :=
  h.keeps (fun reached holds => each reached holds (rings inj apart ..)) before

end Serving

/-! ## What the time of day is spared -/

/-- Nothing of the time of day has changed, and its interrupt was not raised. -/
structure Spares (c c' : Cia) : Prop where
  tod : c'.tod = c.tod
  alarm : c'.todAlarm = c.todAlarm
  stopped : c'.todStopped = c.todStopped
  tenth : c'.tenth = c.tenth
  source : anyBit c'.sources Source.timeOfDay = true → anyBit c.sources Source.timeOfDay = true

namespace Spares

theorem countUnderflow (c : Cia) : Spares c c.countUnderflow := by
  have source := anyBit_withBits_of_disjoint c.sources true
    (by decide : Source.timer .b &&& Source.timeOfDay = 0)
  unfold Cia.countUnderflow
  split
  · exact ⟨rfl, rfl, rfl, rfl, fun up => source ▸ up⟩
  · exact ⟨rfl, rfl, rfl, rfl, id⟩

theorem trans {c c' c'' : Cia} (h : Spares c c') (h' : Spares c' c'') : Spares c c'' :=
  ⟨h'.tod.trans h.tod, h'.alarm.trans h.alarm, h'.stopped.trans h.stopped, h'.tenth.trans h.tenth,
    fun up => h.source (h'.source up)⟩

/-- The timers raise flags of their own. -/
theorem timer (c : Cia) (which : TimerId) : Spares c (c.expire (.timer which)) := by
  have tenth := c.tenth_expire (.timer which)
  have source := anyBit_withBits_of_disjoint c.sources true
    (by cases which <;> decide : Source.timer which &&& Source.timeOfDay = 0)
  cases which with
  | a =>
    revert tenth
    simp only [expire]
    split
    · intro tenth
      have counted := countUnderflow ((c.raise (Source.timer .a)).withTimer .a c.timerA.underflow)
      exact ⟨counted.tod, counted.alarm, counted.stopped, tenth,
        fun up => source ▸ counted.source up⟩
    · exact fun tenth => ⟨rfl, rfl, rfl, tenth, fun up => source ▸ up⟩
  | b => exact ⟨rfl, rfl, rfl, tenth, fun up => source ▸ up⟩

theorem flagEdge (c : Cia) : Spares c c.flagEdge := by
  have source := anyBit_withBits_of_disjoint c.sources true
    (by decide : Source.flagPin &&& Source.timeOfDay = 0)
  exact ⟨rfl, rfl, rfl, rfl, fun up => source ▸ up⟩

theorem read [DecidableEq ε] (event : Event → ε) (c : Cia) (clock : Clock ε) (register : UInt8) :
    Spares c (c.read event clock register).2 := by
  unfold Cia.read
  simp only []
  split
  · exact ⟨rfl, rfl, rfl, rfl, id⟩
  · exact ⟨rfl, rfl, rfl, rfl, id⟩
  · exact ⟨rfl, rfl, rfl, rfl, fun up => absurd (show anyBit 0 _ = true from up) (by decide)⟩
  · exact ⟨rfl, rfl, rfl, rfl, id⟩

end Spares

/-- A tenth of a second of a clock that runs. -/
theorem expire_tod_running {c : Cia} (running : c.todStopped = false) :
    c.expire .tod = { c with
      tod := c.tod.next
      sources := c.sources ||| (if c.tod.next = c.todAlarm then Source.timeOfDay else 0) } := by
  unfold expire advanceTod
  rw [running]
  simp only [Bool.false_eq_true, if_false]
  split
  · rfl
  · rw [UInt8.or_zero]

/-! ## The tenths so far -/

section

variable [DecidableEq ε] (event : Event → ε)

/-- The alarm of the time of day comes every `rate` cycles. So many have come up to a cycle, from
`first` on. -/
structure Beat (first rate limit k : Nat) (q : Agenda ε) (s : Among σ) : Prop where
  tenth_eq : s.cia.tenth = rate
  due : q.due? (event .tod) = some (first + k * rate)
  past : ∀ m < k, first + m * rate ≤ limit

/-- What the tenth of number `j` is, for a chip that had the time `t` before them. -/
structure Tenth.Follows (note : Tenth) (t alarm : TimeOfDay) (first rate j : Nat) : Prop where
  cycle : note.cycle = first + j * rate
  tod : note.after.tod = TimeOfDay.next^[j + 1] t
  sources : note.after.sources = note.before.sources |||
    (if TimeOfDay.next^[j + 1] t = alarm then Source.timeOfDay else 0)

/-- A running clock was at `start` and has counted so many tenths since. -/
structure Struck (start : Among σ) (first rate k : Nat) (s : Among σ) : Prop where
  tod : s.cia.tod = TimeOfDay.next^[k] start.cia.tod
  alarm : s.cia.todAlarm = start.cia.todAlarm
  running : s.cia.todStopped = false
  noted : ∃ notes, s.tenths = start.tenths ++ notes ∧ notes.length = k ∧
    ∀ j (note : Tenth), notes[j]? = some note →
      note.Follows start.cia.tod start.cia.todAlarm first rate j
  source : anyBit s.cia.sources Source.timeOfDay = true →
    anyBit start.cia.sources Source.timeOfDay = true ∨
      ∃ j < k, TimeOfDay.next^[j + 1] start.cia.tod = start.cia.todAlarm

variable {event} {start : Among σ} {first rate limit k : Nat} {q q' : Agenda ε} {s s' : Among σ}

/-- A tenth, or another alarm, is counted or spared. -/
theorem Beat.alarm {due : Nat} {x : ε} (h : Beat event first rate limit k ((due, x) :: q) s)
    (reached : due ≤ limit) (rung : Rings event due x q s q' s') :
    Beat event first rate limit k q' s' ∧ s'.tenths = s.tenths ∧ Spares s.cia s'.cia ∨
      Beat event first rate limit (k + 1) q' s' ∧ s' = s.alarm (first + k * rate) .tod := by
  cases rung with
  | tod whose again =>
    subst whose
    have now : due = first + k * rate :=
      Option.some.inj ((Agenda.due?_cons_self due _ q).symm.trans h.due)
    refine .inr ⟨⟨(s.cia.tenth_expire .tod).trans h.tenth_eq, ?_, ?_⟩, by rw [now]⟩
    · rw [again, now, h.tenth_eq, Nat.succ_mul, Nat.add_assoc]
    · intro m earlier
      obtain before | rfl := Nat.lt_succ_iff_lt_or_eq.mp earlier
      · exact h.past m before
      · exact now ▸ reached
  | @timer which still =>
    have spares := Spares.timer s.cia which
    exact .inl ⟨⟨spares.tenth.trans h.tenth_eq, still.trans h.due, h.past⟩, rfl, spares⟩
  | stranger still =>
    exact .inl ⟨⟨h.tenth_eq, still.trans h.due, h.past⟩, rfl, ⟨rfl, rfl, rfl, rfl, id⟩⟩

namespace Struck

theorem refl (running : start.cia.todStopped = false) (first rate : Nat) :
    Struck start first rate 0 start :=
  ⟨rfl, rfl, running, ⟨[], (List.append_nil _).symm, rfl, nofun⟩, .inl⟩

theorem spared (h : Struck start first rate k s) (notes : s'.tenths = s.tenths)
    (chip : Spares s.cia s'.cia) : Struck start first rate k s' where
  tod := chip.tod.trans h.tod
  alarm := chip.alarm.trans h.alarm
  running := chip.stopped.trans h.running
  noted := notes ▸ h.noted
  source up := h.source (chip.source up)

/-- One tenth more. -/
theorem tenth (h : Struck start first rate k s) :
    Struck start first rate (k + 1) (s.alarm (first + k * rate) .tod) := by
  have behind := expire_tod_running h.running
  have later : s.cia.tod.next = TimeOfDay.next^[k + 1] start.cia.tod := by
    rw [h.tod, iterate_succ_apply']
  rw [later, h.alarm] at behind
  refine ⟨?_, ?_, ?_, ?_, ?_⟩
  · exact congrArg Cia.tod behind
  · exact (congrArg todAlarm behind).trans rfl
  · exact (congrArg todStopped behind).trans h.running
  · obtain ⟨notes, noted, length, each⟩ := h.noted
    refine ⟨notes ++ [⟨first + k * rate, s.cia, s.cia.expire .tod⟩], ?_, ?_, ?_⟩
    · show s.tenths ++ _ = _
      rw [noted, List.append_assoc]
    · rw [List.length_append, length, List.length_singleton]
    · intro j note found
      obtain early | late := Nat.lt_or_ge j notes.length
      · rw [List.getElem?_append_left early] at found
        exact each j note found
      · rw [List.getElem?_append_right late, List.getElem?_singleton] at found
        split at found
        · obtain rfl : j = k := by omega
          cases found
          exact ⟨rfl, congrArg Cia.tod behind, congrArg Cia.sources behind⟩
        · exact absurd found nofun
  · intro up
    have up' : anyBit (s.cia.sources |||
        (if TimeOfDay.next^[k + 1] start.cia.tod = start.cia.todAlarm then Source.timeOfDay else 0))
        Source.timeOfDay = true := (congrArg (anyBit ·.sources Source.timeOfDay) behind) ▸ up
    by_cases same : TimeOfDay.next^[k + 1] start.cia.tod = start.cia.todAlarm
    · exact .inr ⟨k, Nat.lt_succ_self k, same⟩
    · rw [if_neg same, UInt8.or_zero] at up'
      obtain before | ⟨j, early, at'⟩ := h.source up'
      · exact .inl before
      · exact .inr ⟨j, Nat.lt_succ_of_lt early, at'⟩

end Struck

end

/-! ## What can happen around the chip -/

section Turns

variable [DecidableEq ε] (event : Event → ε) (others : Responder ε σ)

/-- What happens on a clock with a chip and others. In a quiet turn nothing is written to the chip,
and in no turn the rate of the time of day is changed. -/
inductive Turn [ToString ε] (Good : σ → Prop) (quiet : Bool) :
    Clock ε × Among σ → Clock ε × Among σ → Prop
  | advance {x y : Clock ε × Among σ} {budget cycles : Nat} :
      advanceWithin budget (serve event others) cycles x.1 x.2 = .ok y → Turn Good quiet x y
  | rebase (clock : Clock ε) (s : Among σ) : Turn Good quiet (clock, s) (clock.rebase, s)
  | setAlarm (clock : Clock ε) (s : Among σ) {e : ε} {due : Nat} : e ≠ event .tod →
      due ≤ Cycle.last → Turn Good quiet (clock, s) (clock.setAlarm due e, s)
  | cancel (clock : Clock ε) (s : Among σ) {e : ε} : e ≠ event .tod →
      Turn Good quiet (clock, s) (clock.cancel e, s)
  | others (clock : Clock ε) (s : Among σ) {rest : σ} : Good rest →
      Turn Good quiet (clock, s) (clock, { s with rest })
  | read (clock : Clock ε) (s : Among σ) (register : UInt8) :
      Turn Good quiet (clock, s) (clock, { s with cia := (s.cia.read event clock register).2 })
  | drive (clock : Clock ε) (s : Among σ) (a b : UInt8) :
      Turn Good quiet (clock, s) (clock, { s with cia := { s.cia with inputA := a, inputB := b } })
  | flagEdge (clock : Clock ε) (s : Among σ) :
      Turn Good quiet (clock, s) (clock, { s with cia := s.cia.flagEdge })
  | write {clock clock' : Clock ε} {s : Among σ} {cia : Cia} {register b : UInt8} :
      quiet = false →
      (register &&& 0x0F = 0x0E → anyBit (s.cia.timerA.control ^^^ b) Control.fiftyHertz = false) →
      s.cia.write event clock register b = .ok (cia, clock') →
      Turn Good quiet (clock, s) (clock', { s with cia })

/-- The whole tenths on a clock since a cycle. -/
def tenthsSince (start rate : Nat) (clock : Clock ε) : Nat := (clock.elapsed - start) / rate

omit [DecidableEq ε] in
theorem tenthsSince_eq {start rate k : Nat} {clock : Clock ε}
    (within : start + k * rate ≤ clock.elapsed ∧ clock.elapsed < start + (k + 1) * rate) :
    tenthsSince start rate clock = k :=
  Nat.div_eq_of_lt_le (by omega) (by omega)

/-- So many tenths have come on a clock, from cycle `first` on, and the next one has not. -/
structure Counts (Good : σ → Prop) (first rate k : Nat) (x : Clock ε × Among σ) : Prop where
  reachable : x.1.Reachable
  countable : Countable Good x.2
  beat : Beat event first rate x.1.elapsed k x.1.agenda x.2
  ahead : x.1.elapsed < first + k * rate

variable {event others} {Good : σ → Prop} {first rate k : Nat} {x y : Clock ε × Among σ}
  {quiet : Bool} {start : Among σ}

/-- The bits of two bytes that do not differ. -/
theorem anyBit_of_xor {b b' mask : UInt8} (same : anyBit (b ^^^ b') mask = false) :
    anyBit b mask = anyBit b' mask := by
  unfold anyBit at *
  rw [bne_eq_false_iff_eq] at same
  have equal : b &&& mask = b' &&& mask := by
    rw [← UInt8.toBitVec_inj] at same ⊢
    ext i hi
    have bit := congrArg (·[i]) same
    simp only [UInt8.toBitVec_and, UInt8.toBitVec_xor, BitVec.getElem_and,
      BitVec.getElem_xor] at bit ⊢
    revert bit
    cases b.toBitVec[i] <;> cases b'.toBitVec[i] <;> cases mask.toBitVec[i] <;> simp
  rw [equal]

theorem tenth_congr {c c' : Cia} (config : c'.config = c.config)
    (rate : anyBit c'.timerA.control Control.fiftyHertz =
      anyBit c.timerA.control Control.fiftyHertz) : c'.tenth = c.tenth := by
  unfold tenth
  rw [config, rate]

/-- A control register keeps the alarm of the time of day where the rate stays. -/
theorem writeControl_keeps_beat [ToString ε] (inj : Injective event) {c c' : Cia}
    {clock clock' : Clock ε} {which : TimerId} {b : UInt8}
    (rate : which = .a → anyBit (c.timerA.control ^^^ b) Control.fiftyHertz = false)
    (h : c.writeControl event clock which b = .ok (c', clock')) :
    c'.tenth = c.tenth ∧ clock'.elapsed = clock.elapsed ∧
      clock'.agenda.due? (event .tod) = clock.agenda.due? (event .tod) := by
  have other : event (.timer which) ≠ event .tod := inj.ne nofun
  have kept : ¬(which = .a ∧ anyBit (c.timerA.control ^^^ b) Control.fiftyHertz = true) :=
    fun ⟨isA, differs⟩ => absurd differs (Bool.eq_false_iff.mp (rate isA))
  have cancelled : (clock.cancel (event (.timer which))).agenda.due? (event .tod) =
      clock.agenda.due? (event .tod) := by
    rw [agenda_cancel, Agenda.due?_cancel_ne _ other]
  unfold writeControl freeze at h
  simp only [pure_bind, if_neg kept] at h
  have tenth : ∀ t t' : Timer, t'.control = b →
      ((c.withTimer which t).withTimer which t').tenth = c.tenth := by
    intro t t' control
    refine tenth_congr (by simp only [withTimer_config]) ?_
    cases which with
    | a => exact (congrArg (anyBit · _) control).trans (anyBit_of_xor (rate rfl)).symm
    | b => rfl
  split at h
  · obtain ⟨⟨due, clock₁⟩, hset, hret⟩ := bind_eq_ok.mp h
    cases hret
    refine ⟨tenth _ _ (by split <;> rfl), ?_, ?_⟩
    · rw [setAlarmIn_ok hset]
      rfl
    · rw [setAlarmIn_ok hset, agenda_setAlarm, Agenda.due?_set_ne _ _ other, cancelled]
  · cases h
    exact ⟨tenth _ _ (by split <;> rfl), rfl, cancelled⟩

/-- So does every register. -/
theorem write_keeps_beat [ToString ε] (inj : Injective event) {c c' : Cia} {clock clock' : Clock ε}
    {register b : UInt8}
    (rate : register &&& 0x0F = 0x0E →
      anyBit (c.timerA.control ^^^ b) Control.fiftyHertz = false)
    (h : c.write event clock register b = .ok (c', clock')) :
    c'.tenth = c.tenth ∧ clock'.elapsed = clock.elapsed ∧
      clock'.agenda.due? (event .tod) = clock.agenda.due? (event .tod) := by
  unfold write at h
  split at h
  case h_15 at' => exact writeControl_keeps_beat inj (fun _ => rate (UInt8.toNat_inj.mp at')) h
  case h_16 =>
    have notA : TimerId.b = .a →
        anyBit (c.timerA.control ^^^ b) Control.fiftyHertz = false :=
      fun same => absurd same (by decide)
    exact writeControl_keeps_beat inj notA h
  case h_9 | h_10 | h_11 | h_12 =>
    cases h
    refine ⟨tenth_congr (writeTod_config c _ b) ?_, rfl, rfl⟩
    unfold writeTod
    simp only []
    split <;> rfl
  case h_6 =>
    cases h
    refine ⟨tenth_congr rfl ?_, rfl, rfl⟩
    simp only [Timer.writeHigh]
    split <;> rfl
  case h_13 =>
    cases h
    refine ⟨?_, rfl, rfl⟩
    split <;> exact tenth_congr rfl rfl
  all_goals
    cases h
    exact ⟨tenth_congr rfl rfl, rfl, rfl⟩

namespace Counts

/-- An advance counts the tenths that the clock passes. -/
theorem advance (h : Counts event Good first rate k x) (steady : others.Steady Good)
    (inj : Injective event) (apart : Apart event others)
    (struck : quiet = true → Struck start first rate k x.2) {budget cycles : Nat}
    (run : advanceWithin budget (serve event others) cycles x.1 x.2 = .ok y) :
    x.1.elapsed ≤ y.1.elapsed ∧ ∃ k, Counts event Good first rate k y ∧
      (quiet = true → Struck start first rate k y.2) := by
  obtain ⟨clock, s⟩ := x
  obtain ⟨clock', s'⟩ := y
  have steady' := beside_steady event others steady
  rw [(serve_describes event others Good).advanceWithin steady' _ _ _ h.countable] at run
  obtain ⟨reachable, countable⟩ :=
    h.reachable.advanceWithin (Responder.handler_lawful steady') h.countable run
  obtain ⟨n, age, leads⟩ :=
    Responder.leads_of_advance steady' h.reachable.wellFormed h.countable run
  have later : clock.elapsed ≤ clock'.elapsed := age ▸ Nat.le_add_right ..
  obtain ⟨k', beat, struck'⟩ := keeps_of_rings inj apart
    (P := fun q s => ∃ k, Beat event first rate clock'.elapsed k q s ∧
      (quiet = true → Struck start first rate k s))
    (fun {due x q s q' s'} reached ⟨k, beat, struck⟩ rung => by
      obtain ⟨beat', notes, spares⟩ | ⟨beat', rfl⟩ := beat.alarm reached rung
      · exact ⟨k, beat', fun hq => (struck hq).spared notes spares⟩
      · exact ⟨k + 1, beat', fun hq => (struck hq).tenth⟩)
    leads.fires
    ⟨k, { h.beat with past := fun m lt => Nat.le_trans (h.beat.past m lt) later }, struck⟩
  exact ⟨later, k', ⟨reachable, countable, beat, Rtc.lt_due?_of_head
    reachable.wellFormed.agenda_sorted leads.fires.none_due beat.due⟩, struck'⟩

/-- A turn that takes no time and leaves the chip its alarm counts nothing. -/
theorem still (h : Counts event Good first rate k x) (reachable : y.1.Reachable)
    (good : Good y.2.rest) (age : y.1.elapsed = x.1.elapsed)
    (alarm : y.1.agenda.due? (event .tod) = x.1.agenda.due? (event .tod))
    (tenth : y.2.cia.tenth = x.2.cia.tenth) : Counts event Good first rate k y where
  reachable := reachable
  countable := ⟨tenth ▸ h.countable.le_headroom, good⟩
  beat := ⟨tenth.trans h.beat.tenth_eq, alarm.trans h.beat.due, age ▸ h.beat.past⟩
  ahead := age ▸ h.ahead

/-- A turn counts the tenths that pass, and the digits of a chip that is not written to follow. -/
theorem turn [ToString ε] (h : Counts event Good first rate k x) (steady : others.Steady Good)
    (inj : Injective event) (apart : Apart event others)
    (struck : quiet = true → Struck start first rate k x.2)
    (turn : Turn event others Good quiet x y) :
    x.1.elapsed ≤ y.1.elapsed ∧ ∃ k, Counts event Good first rate k y ∧
      (quiet = true → Struck start first rate k y.2) := by
  have good := h.countable.others
  -- All turns but an advance take no time, so that no tenth passes.
  have spared {y : Clock ε × Among σ} (reachable : y.1.Reachable) (good : Good y.2.rest)
      (age : y.1.elapsed = x.1.elapsed)
      (alarm : y.1.agenda.due? (event .tod) = x.1.agenda.due? (event .tod))
      (notes : y.2.tenths = x.2.tenths) (chip : Spares x.2.cia y.2.cia) :
      x.1.elapsed ≤ y.1.elapsed ∧ ∃ k, Counts event Good first rate k y ∧
        (quiet = true → Struck start first rate k y.2) :=
    ⟨age.ge, k, h.still reachable good age alarm chip.tenth,
      fun hq => (struck hq).spared notes chip⟩
  have same (c : Cia) : Spares c c := ⟨rfl, rfl, rfl, rfl, id⟩
  cases turn with
  | advance run => exact h.advance steady inj apart struck run
  | rebase clock s =>
    exact spared h.reachable.rebase good (elapsed_rebase clock)
      (congrArg (Agenda.due? · (event .tod)) h.reachable.wellFormed.agenda_rebase) rfl (same _)
  | setAlarm clock s other reach =>
    refine spared (h.reachable.setAlarm _ reach) good rfl ?_ rfl (same _)
    rw [agenda_setAlarm, Agenda.due?_set_ne _ _ other]
  | cancel clock s other =>
    refine spared (h.reachable.cancel _) good rfl ?_ rfl (same _)
    rw [agenda_cancel, Agenda.due?_cancel_ne _ other]
  | others clock s good' => exact spared h.reachable good' rfl rfl rfl (same _)
  | read clock s register =>
    exact spared h.reachable good rfl rfl rfl (.read event s.cia clock register)
  | drive clock s a b => exact spared h.reachable good rfl rfl rfl ⟨rfl, rfl, rfl, rfl, id⟩
  | flagEdge clock s => exact spared h.reachable good rfl rfl rfl (.flagEdge s.cia)
  | @write _ _ s _ _ _ loud rate written =>
    obtain ⟨tenth, age, alarm⟩ := write_keeps_beat inj rate written
    exact ⟨age.ge, k, h.still (write_ok event h.reachable written).1 good age alarm tenth,
      fun hq => absurd (loud.symm.trans hq) nofun⟩

/-- What holds behind one turn holds behind any number. -/
theorem turns [ToString ε] (h : Counts event Good first rate k x) (steady : others.Steady Good)
    (inj : Injective event) (apart : Apart event others)
    (struck : quiet = true → Struck start first rate k x.2)
    (turns : ReflTransGen (Turn event others Good quiet) x y) :
    x.1.elapsed ≤ y.1.elapsed ∧ ∃ k, Counts event Good first rate k y ∧
      (quiet = true → Struck start first rate k y.2) := by
  induction turns with
  | refl => exact ⟨Nat.le_refl _, k, h, struck⟩
  | tail _ turn ih =>
    obtain ⟨later, k, counts, struck⟩ := ih
    obtain ⟨later', next⟩ := counts.turn steady inj apart struck turn
    exact ⟨Nat.le_trans later later', next⟩

/-- The next tenth is less than an interval away, and the last one at hand or past. -/
theorem within {began : Nat} (h : Counts event Good (began + rate) rate k x)
    (later : began ≤ x.1.elapsed) :
    began + k * rate ≤ x.1.elapsed ∧ x.1.elapsed < began + (k + 1) * rate := by
  have ahead := h.ahead
  rw [Nat.succ_mul]
  refine ⟨?_, by omega⟩
  cases k with
  | zero => rwa [Nat.zero_mul]
  | succ k =>
    have last := h.beat.past k (Nat.lt_succ_self k)
    rw [Nat.succ_mul]
    omega

/-- Counting can begin anew at any tenth. -/
theorem restart (h : Counts event Good first rate k x) :
    Counts event Good (first + k * rate) rate 0 x where
  reachable := h.reachable
  countable := h.countable
  beat := ⟨h.beat.tenth_eq, by rw [h.beat.due, Nat.zero_mul, Nat.add_zero], nofun⟩
  ahead := by rw [Nat.zero_mul, Nat.add_zero]; exact h.ahead

/-- Where it began anew, all tenths on the clock are those before and those behind. -/
theorem tenthsSince_restarted {began p : Nat}
    (h : Counts event Good (began + rate + p * rate) rate k x)
    (later : began + p * rate ≤ x.1.elapsed) : tenthsSince began rate x.1 = p + k := by
  rw [Nat.add_right_comm] at h
  have within := h.within later
  rw [Nat.add_assoc, ← Nat.add_mul, Nat.add_assoc, ← Nat.add_mul] at within
  exact tenthsSince_eq within

/-- A clock that has counted so far can always advance on. -/
theorem advance_succeeds [ToString ε] (h : Counts event Good first rate k x)
    (steady : others.Steady Good) {cycles : Nat} (short : cycles ≤ Cycle.clockMax) :
    ∃ enough z, z.1.elapsed = x.1.elapsed + cycles ∧ ∀ budget, enough ≤ budget →
      advanceWithin budget (serve event others) cycles x.1 x.2 = .ok z := by
  have steady' := beside_steady event others steady
  obtain ⟨enough, clock, s, age, -, hrun⟩ :=
    Responder.advanceWithin steady' h.reachable.wellFormed h.countable short
  refine ⟨enough, (clock, s), age, fun budget more => ?_⟩
  rw [(serve_describes event others Good).advanceWithin steady' _ _ _ h.countable]
  exact hrun budget more

end Counts

/-- Where the alarm was set from the counter, no tenth has come. -/
theorem Counts.scheduled {clock : Clock ε} (reach : clock.Reachable) {s : Among σ}
    (countable : Countable Good s) :
    Counts event Good (clock.elapsed + s.cia.tenth) s.cia.tenth 0
      (clock.setAlarm (clock.now + s.cia.tenth) (event .tod), s) where
  reachable := reach.setAlarm _ (add_le_last reach.wellFormed.now_le countable.le_headroom)
  countable := countable
  beat := by
    refine ⟨rfl, ?_, nofun⟩
    rw [agenda_setAlarm, Agenda.due?_set_self, Nat.zero_mul, Nat.add_zero]
    exact congrArg some (Nat.add_assoc ..).symm
  ahead := by
    have := s.cia.one_le_tenth
    show clock.base + clock.now < clock.base + clock.now + _ + 0 * _
    omega

/-- The alarm of the time of day was set from the counter, for an interval that a clock can count,
and the rate was not changed since. Where the chip has come to hold a valid time, with the clock
running and a valid alarm time, it goes on to hold the time that is as many tenths later in the day
as whole intervals end, counted from that setting, as long as nobody writes to it. Each of them came
in its own cycle, and raised the interrupt just where it was that of the alarm time; nothing else
raises it. A clock that came there can always advance on. -/
theorem time_of_day_follows_clock [ToString ε] (inj : Injective event) (apart : Apart event others)
    (steady : others.Steady Good) {before clock : Clock ε} (reach : before.Reachable)
    (room : start.cia.tenth ≤ Cycle.headroom) (good : Good start.rest)
    (scheduled : start.cia.scheduleTod event before = .ok clock)
    (lived : ReflTransGen (Turn event others Good false) (clock, start) x)
    (unwritten : ReflTransGen (Turn event others Good true) x y) (time : x.2.cia.tod.Valid)
    (alarm : x.2.cia.todAlarm.Valid) (running : x.2.cia.todStopped = false) :
    let interval := start.cia.tenth
    let past := tenthsSince clock.elapsed interval x.1
    let k := tenthsSince clock.elapsed interval y.1 - past
    let later (j : Nat) := (x.2.cia.tod.instant + j) % TimeOfDay.day
    y.2.cia.tod.Valid ∧ y.2.cia.tod.instant = later k ∧
      (∃ notes, y.2.tenths = x.2.tenths ++ notes ∧ notes.length = k ∧
        ∀ j (note : Tenth), notes[j]? = some note →
          note.cycle = clock.elapsed + (past + j + 1) * interval ∧
          note.after.tod.Valid ∧ note.after.tod.instant = later (j + 1) ∧
          note.after.sources = note.before.sources |||
            (if later (j + 1) = x.2.cia.todAlarm.instant then Source.timeOfDay else 0)) ∧
      (anyBit y.2.cia.sources Source.timeOfDay = true →
        anyBit x.2.cia.sources Source.timeOfDay = true ∨
          ∃ j < k, later (j + 1) = x.2.cia.todAlarm.instant) ∧
      ∀ cycles ≤ Cycle.clockMax, ∃ enough z, z.1.elapsed = y.1.elapsed + cycles ∧
        ∀ budget, enough ≤ budget →
          advanceWithin budget (serve event others) cycles y.1 y.2 = .ok z := by
  intro interval past k later
  have matches' (j : Nat) :
      TimeOfDay.next^[j] x.2.cia.tod = x.2.cia.todAlarm ↔ later j = x.2.cia.todAlarm.instant := by
    obtain ⟨valid, at'⟩ := time.iterate_next j
    rw [valid.eq_iff alarm, at']
  rw [scheduleTod_eq event reach.wellFormed room] at scheduled
  cases scheduled
  -- The count of the tenths, from the setting up to the time that was held, and on from there.
  have loud (h : false = true) (first rate : Nat) : Struck start first rate 0 start :=
    absurd h Bool.false_ne_true
  obtain ⟨began, p, countsX, -⟩ := (Counts.scheduled reach ⟨room, good⟩).turns steady inj apart
    (fun h => loud h _ _) lived
  obtain ⟨went, n, counts, struck⟩ := countsX.restart.turns steady inj apart
    (fun _ => Struck.refl running _ _) unwritten
  have struck := struck rfl
  have within := countsX.within began
  have pastEq : past = p := tenthsSince_eq within
  have kEq : k = n := by
    have all : tenthsSince before.elapsed interval y.1 = p + n :=
      counts.tenthsSince_restarted (Nat.le_trans within.1 went)
    show tenthsSince before.elapsed interval y.1 - past = n
    rw [all, pastEq, Nat.add_sub_cancel_left]
  rw [pastEq, kEq]
  refine ⟨?_, ?_, ?_, ?_, fun cycles short => counts.advance_succeeds steady short⟩
  · rw [struck.tod]
    exact (time.iterate_next n).1
  · rw [struck.tod]
    exact (time.iterate_next n).2
  · obtain ⟨notes, noted, length, each⟩ := struck.noted
    refine ⟨notes, noted, length, fun j note found => ?_⟩
    have follows := each j note found
    obtain ⟨valid, at'⟩ := time.iterate_next (j + 1)
    refine ⟨?_, follows.tod ▸ valid, follows.tod ▸ at', ?_⟩
    · rw [follows.cycle, Nat.add_mul, Nat.add_mul]
      show before.elapsed + interval + p * interval + j * interval =
        before.elapsed + (p * interval + j * interval + 1 * interval)
      omega
    · rw [follows.sources]
      simp only [matches']
  · intro up
    obtain before | ⟨j, early, same⟩ := struck.source up
    · exact .inl before
    · exact .inr ⟨j, early, (matches' _).mp same⟩

/-- The last tenth of the morning, on a clock at the top of its counter and beside an alarm that
comes every three hundred cycles. The alarm time is noon. In a quarter of a million cycles two
tenths come, and the first of them raises the interrupt. -/
theorem time_of_day_follows_clock_noon :
    let event : Event → Option Event := some
    let others : Responder (Option Event) Nat := fun _ _ n => ([.set 300 none], n + 1)
    let before : Clock (Option Event) := ⟨Cycle.clockMax, 0, 0, 0, []⟩
    let c : Cia := { powerOn {} with tod := ⟨9, 0x59, 0x59, 0x11⟩, todAlarm := ⟨0, 0, 0, 0x92⟩ }
    Injective event ∧ Apart event others ∧ others.Steady (fun _ => True) ∧ before.Reachable ∧
      c.tenth ≤ Cycle.headroom ∧ c.tod.Valid ∧ c.todAlarm.Valid ∧ c.todStopped = false ∧
      ∃ clock, c.scheduleTod event before = .ok clock ∧ ∃ budget y,
        advanceWithin budget (serve event others) 250000 clock ⟨c, [], 0⟩ = .ok y ∧
        y.2.cia.tod = ⟨1, 0, 0, 0x92⟩ ∧ y.2.tenths.length = 2 ∧
        ∀ note ∈ y.2.tenths.head?, anyBit note.after.sources Source.timeOfDay = true := by
  intro event others before c
  have inj : Injective event := fun _ _ => Option.some.inj
  have apart : Apart event others := by
    intro due x n _ request mem
    obtain rfl := List.mem_singleton.mp mem
    exact (Option.some_ne_none _).symm
  have steady : others.Steady fun _ => True := by
    refine ⟨fun due x n _ request mem => ?_, fun _ _ _ _ => trivial⟩
    obtain rfl := List.mem_singleton.mp mem
    exact ⟨by decide, by decide⟩
  have reach : before.Reachable := .start (show start Cycle.clockMax = .ok before from rfl)
  let s : Among Nat := ⟨c, [], 0⟩
  have room : s.cia.tenth ≤ Cycle.headroom := by decide
  have time : s.cia.tod.Valid := ⟨by decide, by decide, by decide, by decide⟩
  have alarm : s.cia.todAlarm.Valid := ⟨by decide, by decide, by decide, by decide⟩
  have running : s.cia.todStopped = false := rfl
  have scheduled : s.cia.scheduleTod event before =
      .ok (before.setAlarm (before.now + s.cia.tenth) (event .tod)) :=
    scheduleTod_eq event reach.wellFormed room
  refine ⟨inj, apart, steady, reach, room, time, alarm, running, _, scheduled, ?_⟩
  let clock := before.setAlarm (before.now + s.cia.tenth) (event .tod)
  have lived : ReflTransGen (Turn event others (fun _ => True) false) (clock, s) (clock, s) := .refl
  obtain ⟨-, -, -, -, goesOn⟩ := time_of_day_follows_clock inj apart steady reach room trivial
    scheduled lived .refl time alarm running
  obtain ⟨budget, y, age, run⟩ := goesOn 250000 (by decide)
  have run := run budget (Nat.le_refl budget)
  obtain ⟨valid, at', ⟨notes, noted, length, each⟩, -, -⟩ := time_of_day_follows_clock inj apart
    steady reach room trivial scheduled lived (.single (.advance run)) time alarm running
  have two : tenthsSince clock.elapsed s.cia.tenth y.1 -
      tenthsSince clock.elapsed s.cia.tenth clock = 2 := by
    unfold tenthsSince
    rw [age]
    decide
  have noted : y.2.tenths = notes := noted
  rw [two] at at' length
  refine ⟨budget, y, run, ?_, noted ▸ length, ?_⟩
  · have noon : (⟨1, 0, 0, 0x92⟩ : TimeOfDay).Valid := ⟨by decide, by decide, by decide, by decide⟩
    exact (valid.eq_iff noon).mpr (at'.trans (by decide))
  · intro note first
    rw [noted, List.head?_eq_getElem?] at first
    obtain ⟨-, -, -, sources⟩ := each 0 note first
    rw [sources, if_pos (by decide)]
    exact anyBit_withBits_self note.before.sources true (by decide)

end Turns

end C64.Cia
