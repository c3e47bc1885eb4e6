import C64.Proofs.Cia.Watching

/-!
# Every interrupt is reported once

The flags of the interrupt sources tell, at any time, which causes have come up since the sources
were last read or the chip was reset (`Flags`). Every turn and every alarm of an advance keeps that:
what raises a flag is a cause, and only a read of the sources or a reset takes flags back. So a read
reports every cause that came up behind the read before, and none of them is reported again.
-/

namespace C64.Cia

open Clock

/-! ## Causes that were not reported yet -/

/-- The sources are read, or the chip is reset. -/
def Note.Clears : Note → Prop
  | raised _ => False
  | read register => register &&& 0x0F = 0x0D
  | reset => True

/-- The cause has come up, and nothing has cleared its flag since. -/
def Unreported (notes : List Note) (cause : Cause) : Prop :=
  ∃ before after, notes = before ++ .raised cause :: after ∧ ∀ note ∈ after, ¬note.Clears

theorem unreported_nil (cause : Cause) : ¬Unreported [] cause :=
  fun ⟨_, _, split, _⟩ => absurd split (by simp)

variable {notes : List Note} {note : Note} {b : UInt8}

theorem unreported_concat {cause : Cause} :
    Unreported (notes ++ [note]) cause ↔
      note = .raised cause ∨ ¬note.Clears ∧ Unreported notes cause := by
  constructor
  · rintro ⟨before, after, split, uncleared⟩
    obtain rfl | ⟨front, last, rfl⟩ := after.eq_nil_or_concat
    · exact .inl (List.append_singleton_inj.mp split).2
    · rw [List.concat_eq_append] at uncleared split
      rw [← List.cons_append, ← List.append_assoc] at split
      obtain ⟨rfl, rfl⟩ := List.append_singleton_inj.mp split
      exact .inr ⟨uncleared note (by simp), before, front, rfl,
        fun n mem => uncleared n (List.mem_append_left _ mem)⟩
  · rintro (rfl | ⟨keeps, before, after, rfl, uncleared⟩)
    · exact ⟨notes, [], rfl, nofun⟩
    · refine ⟨before, after ++ [note], by simp, fun n mem => ?_⟩
      rcases List.mem_append.mp mem with mem | mem
      · exact uncleared n mem
      · exact List.mem_singleton.mp mem ▸ keeps

/-! ## Flags -/

/-- A byte has the flags of the causes that were not reported, and no other bits. -/
structure Flags (notes : List Note) (b : UInt8) : Prop where
  shows : ∀ cause, anyBit b cause.bit = true ↔ Unreported notes cause
  rest : anyBit b 0xE0 = false

theorem Cause.bit_ne_zero (cause : Cause) : cause.bit ≠ 0 := by
  rcases cause with (_ | _) | _ | _ | _ <;> decide

theorem Cause.bit_and_bit {cause other : Cause} (h : cause ≠ other) :
    cause.bit &&& other.bit = 0 := by
  rcases cause with (_ | _) | _ | _ | _ <;> rcases other with (_ | _) | _ | _ | _ <;>
    first | exact absurd rfl h | decide

namespace Flags

theorem nil : Flags [] 0 :=
  ⟨fun cause => iff_of_false (by simp [anyBit]) (unreported_nil cause), by decide⟩

/-- A cause sets its flag. -/
theorem raise (h : Flags notes b) (cause : Cause) :
    Flags (notes ++ [.raised cause]) (b ||| cause.bit) where
  shows other := by
    rw [unreported_concat, ← h.shows other]
    by_cases same : cause = other
    · subst same
      exact iff_of_true (anyBit_withBits_self b true cause.bit_ne_zero) (.inl rfl)
    · have kept : anyBit (b ||| cause.bit) other.bit = anyBit b other.bit :=
        anyBit_withBits_of_disjoint b true (Cause.bit_and_bit same)
      simp [kept, same, Note.Clears]
  rest := by
    have low : cause.bit &&& 0xE0 = 0 := by
      rcases cause with (_ | _) | _ | _ | _ <;> decide
    exact (anyBit_withBits_of_disjoint b true low).trans h.rest

theorem raises (h : Flags notes b) (causes : List Cause) :
    Flags (notes ++ causes.map .raised) (flagged b causes) := by
  induction causes generalizing notes b with
  | nil => rwa [List.map_nil, List.append_nil]
  | cons cause rest ih =>
    rw [List.map_cons, List.append_cons]
    exact ih (h.raise cause)

/-- Behind what clears the flags, every cause is reported. -/
theorem clear (clears : note.Clears) : Flags (notes ++ [note]) 0 := by
  refine ⟨fun cause => iff_of_false (by simp [anyBit]) fun up => ?_, by decide⟩
  rcases unreported_concat.mp up with rfl | ⟨keeps, -⟩
  · exact clears
  · exact keeps clears

theorem read (h : Flags notes b) {register : UInt8} (other : register &&& 0x0F ≠ 0x0D) :
    Flags (notes ++ [.read register]) b where
  shows cause := by
    rw [unreported_concat, h.shows]
    simp [Note.Clears, other]
  rest := h.rest

end Flags

/-! ## What is read -/

theorem Cause.and_bit (cause : Cause) :
    ∀ b : UInt8, b &&& cause.bit = if anyBit b cause.bit then cause.bit else 0 := by
  rcases cause with (_ | _) | _ | _ | _ <;> exact forall_byte (by decide +kernel)

theorem Cause.anyBit_and (cause : Cause) (b mask : UInt8) :
    anyBit (b &&& mask) cause.bit = (anyBit b cause.bit && anyBit mask cause.bit) := by
  have masked : b &&& mask &&& cause.bit =
      if anyBit mask cause.bit then b &&& cause.bit else 0 := by
    rw [UInt8.and_assoc, cause.and_bit mask]
    split
    · rfl
    · exact UInt8.and_zero
  unfold anyBit at masked ⊢
  rw [masked]
  cases mask &&& cause.bit != 0 <;> simp

/-- The five low bits are the sources. -/
theorem anyBit_sources (b : UInt8) :
    anyBit b 0x1F = true ↔ ∃ cause : Cause, anyBit b cause.bit = true := by
  have bits : ∀ b : UInt8, anyBit b 0x1F = (anyBit b 0x01 || anyBit b 0x02 || anyBit b 0x04 ||
      anyBit b 0x08 || anyBit b 0x10) := forall_byte (by decide +kernel)
  rw [bits]
  simp only [Bool.or_eq_true]
  constructor
  · rintro ((((up | up) | up) | up) | up)
    · exact ⟨.underflow .a, up⟩
    · exact ⟨.underflow .b, up⟩
    · exact ⟨.alarmTime, up⟩
    · exact ⟨.sent, up⟩
    · exact ⟨.flagEdge, up⟩
  · rintro ⟨(_ | _) | _ | _ | _, up⟩ <;> simp only [Cause.bit, Source.timer, Source.timeOfDay,
      Source.serial, Source.flagPin] at up <;> simp [up]

theorem interrupting_iff (c : Cia) : c.interrupting = true ↔
    ∃ cause : Cause, anyBit c.sources cause.bit = true ∧ anyBit c.mask cause.bit = true := by
  unfold interrupting
  rw [anyBit_sources]
  simp only [Cause.anyBit_and, Bool.and_eq_true]

/-- The sources stand in the low bits of what is read, and the interrupt line in the highest. -/
theorem Flags.interruptByte {c : Cia} (h : Flags notes c.sources) :
    (∀ cause, anyBit c.interruptByte cause.bit = true ↔ Unreported notes cause) ∧
      anyBit c.interruptByte 0x80 = c.interrupting ∧ anyBit c.interruptByte 0x60 = false := by
  have low : ∀ b : UInt8, anyBit b 0xE0 = false → anyBit b 0x80 = false ∧ anyBit b 0x60 = false :=
    forall_byte (by decide +kernel)
  obtain ⟨high, middle⟩ := low _ h.rest
  unfold Cia.interruptByte
  cases c.interrupting with
  | false =>
    simp only [Bool.false_eq_true, if_false, UInt8.or_zero]
    exact ⟨h.shows, high, middle⟩
  | true =>
    have kept {other : UInt8} (apart : 0x80 &&& other = 0) :
        anyBit (c.sources ||| 0x80) other = anyBit c.sources other :=
      anyBit_withBits_of_disjoint c.sources true apart
    refine ⟨fun cause => ?_, anyBit_withBits_self c.sources true (by decide),
      (kept (by decide)).trans middle⟩
    have apart : 0x80 &&& cause.bit = 0 := by
      rcases cause with (_ | _) | _ | _ | _ <;> decide
    rw [if_pos rfl, kept apart]
    exact h.shows cause

/-- A read of the sources clears them, and any other read leaves them alone. -/
theorem sources_read {ε : Type} [DecidableEq ε] {event : Event → ε} (c : Cia) (clock : Clock ε)
    (register : UInt8) : (c.read event clock register).2.sources =
      if register &&& 0x0F = 0x0D then 0 else c.sources := by
  by_cases icr : register &&& 0x0F = 0x0D
  · unfold read
    rw [icr]
    rfl
  · rw [if_neg icr]
    unfold read
    simp only []
    split
    case h_3 at' => exact absurd (UInt8.toNat_inj.mp at') icr
    all_goals rfl

/-! ## Runs -/

namespace Watched

variable {ε σ : Type} [DecidableEq ε] {event : Event → ε} {others : Handler ε σ} {budget : Nat}

/-- The flags of the chip tell what was not reported. -/
def Tells (s : Watched σ) : Prop := Flags s.notes s.cia.sources

theorem Tells.fired {s s' : Watched σ} (h : s.Tells) (fired : Fired s s') : s'.Tells := by
  cases fired with
  | own e =>
    obtain ⟨timerA, timerB, tod, behind⟩ := s.cia.expire_changes e
    unfold Tells
    rw [behind]
    exact h.raises _
  | other rest => exact h

variable [ToString ε] {x y : Clock ε × Watched σ}

theorem Tells.act {turn : Turn ε σ} (h : x.2.Tells)
    (acted : act event others budget x turn = .ok y) : y.2.Tells := by
  cases turn with
  | advance cycles => exact advance_keeps Tells.fired h acted
  | read register =>
    cases acted
    unfold Tells
    simp only [sources_read]
    split
    · next clears => exact .clear clears
    · next other => exact Flags.read h other
  | write register b =>
    obtain ⟨⟨cia, clock⟩, written, hret⟩ := bind_eq_ok.mp acted
    cases hret
    unfold Tells
    rw [(write_frame written).1]
    exact h.raises _
  | drive a b =>
    cases acted
    exact h
  | flagEdge =>
    cases acted
    exact h.raise .flagEdge
  | reset =>
    obtain ⟨⟨cia, clock⟩, started, hret⟩ := bind_eq_ok.mp acted
    obtain ⟨clock', -, fresh⟩ := bind_eq_ok.mp started
    cases fresh
    cases hret
    exact .clear trivial
  | others change =>
    cases acted
    exact h

/-- Of a chip that was powered on and run, the flags tell at any time just which causes came up
since its sources were last read or it was reset, and it holds its interrupt line just where one of
them is enabled. A read of the sources shows those flags in its five low bits, the line in its
highest and nothing between them, and takes the flags back and changes nothing else. -/
theorem sources_reported {config : Config} {c : Cia} {clock₀ clock : Clock ε} {rest : σ}
    (powered : new event config clock₀ = .ok (c, clock)) {turns : List (Turn ε σ)}
    (ran : run event others budget turns (clock, ⟨c, [], rest⟩) = .ok y) :
    (∀ cause, anyBit y.2.cia.sources cause.bit = true ↔ Unreported y.2.notes cause) ∧
      (y.2.cia.interrupting = true ↔
        ∃ cause, Unreported y.2.notes cause ∧ anyBit y.2.cia.mask cause.bit = true) ∧
      ∀ register, register &&& 0x0F = 0x0D →
        let value := (y.2.cia.read event y.1 register).1
        (∀ cause, anyBit value cause.bit = true ↔ Unreported y.2.notes cause) ∧
          anyBit value 0x80 = y.2.cia.interrupting ∧ anyBit value 0x60 = false ∧
          (y.2.cia.read event y.1 register).2 = { y.2.cia with sources := 0 } := by
  obtain ⟨clock', -, fresh⟩ := bind_eq_ok.mp powered
  cases fresh
  have start : (⟨powerOn config, [], rest⟩ : Watched σ).Tells := Flags.nil
  have flags : y.2.Tells :=
    run_keeps (fun _ _ => Tells.act) start ran
  refine ⟨flags.shows, ?_, fun register icr => ?_⟩
  · rw [interrupting_iff]
    simp only [flags.shows]
  · unfold read peek
    rw [icr]
    obtain ⟨shows, line, between⟩ := flags.interruptByte
    exact ⟨shows, line, between, rfl⟩

/-- Timer B counts the underflows of timer A, which come every third cycle, and every second of them
is one of its own. The interrupts of timer B are enabled. -/
def chain : List (Turn Event Unit) :=
  [.write 0x4 2, .write 0x5 0, .write 0x6 1, .write 0x7 0, .write 0xF 0x41, .write 0xD 0x82,
    .write 0xE 0x11, .read 0xD, .advance 20, .flagEdge]

/-- In twenty cycles at once timer A underflows six times and timer B three times. Their flags and
that of the pin are read together, with the line that timer B holds; nothing was sent. -/
theorem sources_reported_chain :
    ∃ clock y, new id {} Clock.zero = .ok (powerOn {}, clock) ∧
      run id alone 8 chain (clock, ⟨powerOn {}, [], ()⟩) = .ok y ∧ (0xD : UInt8) &&& 0x0F = 0x0D ∧
      (y.2.cia.read id y.1 0xD).1 = 0x93 ∧ y.2.notes.count (.raised (.underflow .a)) = 6 ∧
      Unreported y.2.notes (.underflow .a) ∧ Unreported y.2.notes (.underflow .b) ∧
      Unreported y.2.notes .flagEdge ∧ ¬Unreported y.2.notes .sent := by
  have powered : new id {} Clock.zero =
      .ok (powerOn {}, Clock.zero.setAlarm 118224 Event.tod) := rfl
  have outcome : (run id alone 8 chain (Clock.zero.setAlarm 118224 .tod, ⟨powerOn {}, [], ()⟩) >>=
      fun y => .ok ((y.2.cia.read id y.1 0xD).1, y.2.notes.count (.raised (.underflow .a)))) =
        .ok (0x93, 6) := rfl
  obtain ⟨y, ran, seen⟩ := bind_eq_ok.mp outcome
  obtain ⟨value, six⟩ := Prod.mk.inj (Except.ok.inj seen)
  have icr : (0xD : UInt8) &&& 0x0F = 0x0D := by decide
  obtain ⟨-, -, reads⟩ := sources_reported powered ran
  obtain ⟨shows, -, -, -⟩ := reads 0xD icr
  rw [value] at shows
  exact ⟨_, y, powered, ran, icr, value, six, (shows _).mp (by decide), (shows _).mp (by decide),
    (shows _).mp (by decide), fun up => absurd ((shows _).mpr up) (by decide)⟩

end Watched

end C64.Cia
