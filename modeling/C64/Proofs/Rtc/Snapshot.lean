import C64.Proofs.Rtc.Alarms
import C64.Proofs.Rtc.Reading
import Mathlib.Logic.Function.Iterate

/-!
# A burst read is of one instant

Seconds can pass while the host reads the registers, and carry through all of them between two bits.
The chip reads them all when the command has come in, and sends what it read
(`burst_read_one_instant`). Meanwhile the clock goes on, by as many seconds as there were.
-/

namespace C64.Rtc

open Clock

/-- What happens to a chip that stays enabled. -/
inductive Stroke where
  | lines (clock data : Bool)
  | tick
deriving DecidableEq

namespace Stroke

/-- The lines that are set, without the seconds in between. -/
def settings (strokes : List Stroke) : List (Bool × Bool) :=
  strokes.filterMap fun
    | lines clock data => some (clock, data)
    | tick => none

/-- How many seconds there are, without the lines in between. -/
def ticks (strokes : List Stroke) : Nat := strokes.count tick

end Stroke

open Stroke (settings ticks)

variable {ε : Type} [DecidableEq ε] (event : Event → ε)

/-- The chip goes through strokes. A second is the alarm, whatever clock and cycle it comes with. -/
inductive Undergoes : Rtc → List Stroke → Rtc → Prop
  | done (r : Rtc) : Undergoes r [] r
  | lines {r r' : Rtc} {rest : List Stroke} (clock data : Bool) :
      Undergoes (r.setLines true clock data) rest r' → Undergoes r (.lines clock data :: rest) r'
  | tick {r r₁ r' : Rtc} {rest : List Stroke} {clock clock' : Clock ε} {due : Nat} :
      r.onAlarm event clock due = .ok (r₁, clock') → Undergoes r₁ rest r' →
      Undergoes r (.tick :: rest) r'

variable {event} {r r' : Rtc} {strokes : List Stroke}

theorem onAlarm_ok {clock clock' : Clock ε} {due : Nat}
    (h : r.onAlarm event clock due = .ok (r', clock')) :
    r' = { r with registers := second r.registers } := by
  rw [onAlarm_eq, expire_eq] at h
  obtain ⟨_, _, hret⟩ := bind_eq_ok.mp h
  cases hret
  rfl

theorem sampled_cons (level clock data : Bool) (rest : List (Bool × Bool)) :
    sampled level ((clock, data) :: rest) =
      (if clock && !level then [data] else []) ++ sampled clock rest := by
  rw [sampled]
  split <;> rfl

/-! ## Until the command has come in -/

/-- The bits of the command come in, and the registers take the seconds. -/
theorem Undergoes.collects (h : Undergoes event r strokes r') (enabled : r.enable = true)
    {byte : UInt8} {count : Nat} (waiting : r.transfer = .command byte count)
    (few : count + (sampled r.serialClock (settings strokes)).length ≤ 7) :
    r'.enable = true ∧
      r'.transfer = .command (addBits byte count (sampled r.serialClock (settings strokes)))
        (count + (sampled r.serialClock (settings strokes)).length) ∧
      r'.registers = second^[ticks strokes] r.registers := by
  induction h generalizing byte count with
  | done r => exact ⟨enabled, waiting, rfl⟩
  | @lines r r' rest clock data _ ih =>
    have cons : settings (.lines clock data :: rest) = (clock, data) :: settings rest := rfl
    rw [cons, sampled_cons] at few ⊢
    rw [setLines_enabled enabled] at ih
    by_cases rising : clock && !r.serialClock
    · rw [if_pos rising] at ih few ⊢
      rw [List.singleton_append, List.length_cons] at few ⊢
      rw [collects_command r byte count data waiting (by omega)] at ih
      rw [Nat.add_comm _ 1, ← Nat.add_assoc] at few ⊢
      exact ih enabled rfl few
    · rw [if_neg rising] at ih few ⊢
      exact ih enabled waiting few
  | @tick r r₁ r' rest clock clock' due alarm _ ih =>
    obtain rfl := onAlarm_ok alarm
    have more : ticks (.tick :: rest) = ticks rest + 1 := List.count_cons_self
    rw [more, Function.iterate_succ_apply]
    exact ih enabled waiting few

/-! ## While the chip answers -/

/-- A chip that sends no byte but of the registers it read at once. -/
def Bursts (r : Rtc) : Prop :=
  ∀ t bit, r.transfer = .transmitting t bit → t.burst = true ∧ t.memory = false

/-- A second is nothing to what is sent. -/
theorem Reading.second (h : r.Reading) (bursts : r.Bursts) (registers : Registers) :
    ({ r with registers } : Rtc).Reading ∧ ({ r with registers } : Rtc).Bursts ∧
      ({ r with registers } : Rtc).outgoing = r.outgoing := by
  have load {t : Target} (burst : t.burst = true ∧ t.memory = false) (transfer : Transfer) :
      ({ r with registers, transfer } : Rtc).load t = r.load t := by
    simp [Rtc.load, burst]
  refine ⟨⟨h.enable, ?_⟩, bursts, ?_⟩
  · rcases h.transfer with ignoring | ⟨t, bit, transmitting, small, within, out⟩
    · exact .inl ignoring
    · exact .inr ⟨t, bit, transmitting, small, within,
        out.trans (congrArg (bitAt · bit) (load (bursts t bit transmitting) r.transfer).symm)⟩
  · rcases h.transfer with ignoring | ⟨t, bit, transmitting, small, within, out⟩
    · rw [outgoing, outgoing, ignoring]
    · rw [outgoing, outgoing, transmitting]
      simp only []
      refine congrArg (List.drop bit) (List.flatMap_congr fun t' ht' => ?_)
      obtain ⟨-, memory, burst⟩ := mem_onward within ht'
      rw [load (by rw [memory, burst]; exact bursts t bit transmitting)]

theorem next?_kind {t t' : Target} (h : r.next? t = some t') :
    t'.memory = t.memory ∧ t'.burst = t.burst := by
  obtain ⟨-, next⟩ := Option.ite_none_right_eq_some.mp h
  cases next
  exact ⟨rfl, rfl⟩

theorem Bursts.pulse (h : r.Bursts) (reading : r.Reading) (level : Bool) :
    (r.pulse level).Bursts := by
  intro t' bit' transmitting'
  rcases reading.transfer with ignoring | ⟨t, bit, transmitting, -, within, -⟩
  · have still : r.pulse level = r := by
      unfold Rtc.pulse
      rw [ignoring]
    exact h t' bit' (still ▸ transmitting')
  · have burst := h t bit transmitting
    unfold Rtc.pulse at transmitting'
    rw [transmitting] at transmitting'
    simp only [] at transmitting'
    split at transmitting'
    · cases transmitting'
      exact burst
    · split at transmitting'
      · next _ next hnext =>
        cases transmitting'
        obtain ⟨memory, same⟩ := next?_kind hnext
        rwa [memory, same]
      · cases transmitting'

/-- The bits go out one after another, and the registers take the seconds. -/
theorem Undergoes.answers (h : Undergoes event r strokes r') (reading : r.Reading)
    (bursts : r.Bursts) :
    r'.Reading ∧
      r'.outgoing = r.outgoing.drop (sampled r.serialClock (settings strokes)).length ∧
      r'.registers = second^[ticks strokes] r.registers := by
  induction h with
  | done r => exact ⟨reading, rfl, rfl⟩
  | @lines r r' rest clock data _ ih =>
    have cons : settings (.lines clock data :: rest) = (clock, data) :: settings rest := rfl
    rw [cons, sampled_cons]
    rw [setLines_enabled reading.enable] at ih
    by_cases rising : clock && !r.serialClock
    · rw [if_pos rising] at ih ⊢
      obtain ⟨pulsed, less, contents⟩ := reading.pulse data
      obtain ⟨noted, same⟩ := pulsed.withLines clock data
      obtain ⟨reading', outgoing, registers⟩ := ih noted (bursts.pulse reading data)
      refine ⟨reading', ?_, ?_⟩
      · rw [outgoing, same, less, List.drop_tail, List.singleton_append, List.length_cons]
        rfl
      · exact registers.trans (congrArg second^[ticks rest] (congrArg Contents.registers contents))
    · rw [if_neg rising] at ih ⊢
      exact ih (reading.withLines clock data).1 bursts
  | @tick r r₁ r' rest clock clock' due alarm _ ih =>
    obtain rfl := onAlarm_ok alarm
    have more : ticks (.tick :: rest) = ticks rest + 1 := List.count_cons_self
    obtain ⟨reading', bursts', same⟩ := reading.second bursts (second r.registers)
    obtain ⟨reading', outgoing, registers⟩ := ih reading' bursts'
    rw [more, Function.iterate_succ_apply]
    exact ⟨reading', outgoing.trans (congrArg _ same), registers⟩

/-! ## The instant -/

/-- However seconds and lines fall, from the last pulse of the command on the host sees the bits of
the registers as they stood at that pulse, the least significant of the first register first, one
more with each rising edge; behind the last it sees what it drives itself. The registers take every
second. -/
theorem burst_read_one_instant {r r₀ r₂ : Rtc} (disabled : r.enable = false)
    (level data : Bool) {before after : List Stroke} {last : Bool}
    (sending : Undergoes event (r.setLines true level data) before r₀)
    (low : r₀.serialClock = false)
    (command : sampled level (settings before) ++ [last] = bitsOf 0xBF)
    (reading : Undergoes event (r₀.setLines true true last) after r₂) :
    let r₁ := r₀.setLines true true last
    let sent := (r₁.registers.toList.take 8).flatMap bitsOf
    r₂.dataLine = (sent[(sampled true (settings after)).length]?).getD r₂.dataIn ∧
      r₁.registers = second^[ticks before] r.registers ∧
      r₂.registers = second^[ticks after] r₁.registers := by
  intro r₁ sent
  have risen : r.setLines true level data =
      { r with
        enable := true
        serialClock := level
        dataIn := data
        dataOut := false
        transfer := .command 0 0 } := by
    unfold setLines
    rw [disabled]
    rfl
  rw [risen] at sending
  -- The bits are those of the command, seven of them before the last pulse.
  obtain ⟨bits, one⟩ := List.append_inj' (command.trans
    (by decide : bitsOf 0xBF = [true, true, true, true, true, true, false] ++ [true])) rfl
  obtain rfl : last = true := List.singleton_inj.mp one
  obtain ⟨enabled, waiting, registers⟩ :=
    sending.collects rfl rfl (by rw [bits]; decide)
  rw [bits] at waiting
  have opened : Command.ofByte 0xBF = .read ⟨false, true, 0⟩ := by decide
  have last : r₁ = (r₀.obey (.ofByte 0xBF)).withLines true true := by
    rw [show r₁ = _ from setLines_enabled enabled true true, low, if_pos (by decide)]
    unfold Rtc.pulse
    rw [waiting]
    rfl
  have same : r₁.registers = r₀.registers := by
    rw [last]
    exact congrArg Contents.registers (r₀.obey_frame (.ofByte 0xBF)).2.2
  obtain ⟨answering, bits⟩ :=
    reading_obey enabled (by decide : bitAt 0xBF 7) (by decide : bitAt 0xBF 0)
  obtain ⟨noted, kept⟩ := answering.withLines true true
  have bursts : ((r₀.obey (.ofByte 0xBF)).withLines true true).Bursts := by
    intro t bit transmitting
    rw [opened] at transmitting
    cases transmitting
    exact ⟨rfl, rfl⟩
  have queue : r₁.outgoing = sent := by
    rw [last, kept, bits]
    show _ = (r₁.registers.toList.take 8).flatMap bitsOf
    rw [same]
    cases r₀.model <;> rfl
  rw [← last] at noted bursts
  obtain ⟨done, rest, registers'⟩ := reading.answers noted bursts
  refine ⟨?_, same.trans registers, registers'⟩
  have high : r₁.serialClock = true := by rw [last]; rfl
  rw [done.dataLine, rest, queue, List.head?_drop, high]

/-- What a stroke does to the chip. -/
def Stroke.act (r : Rtc) : Stroke → Rtc
  | lines clock data => r.setLines true clock data
  | tick => r.expire

/-- Every sequence of strokes can happen. -/
theorem undergoes_act (event : Event → ε) (r : Rtc) (room : r.cyclesPerSecond ≤ Cycle.last)
    (strokes : List Stroke) :
    Undergoes event r strokes (strokes.foldl Stroke.act r) := by
  induction strokes generalizing r with
  | nil => exact .done r
  | cons stroke rest ih =>
    cases stroke with
    | lines clock data =>
      refine .lines clock data (ih _ ?_)
      rwa [setLines_cyclesPerSecond]
    | tick =>
      obtain ⟨clock, set⟩ : ∃ clock, (zero : Clock ε).setAgain (event .tick) 0
          (some r.cyclesPerSecond) = .ok clock :=
        zero.setAgain_eq_ok.mpr (by simpa using room)
      have alarm : r.onAlarm event zero 0 = .ok (r.expire, clock) := by
        rw [onAlarm_eq, set]
        rfl
      exact .tick alarm (ih _ (by simpa using room))

/-- A second ends the year behind the eleventh bit. The thirtieth is still of the old date. -/
theorem burst_read_one_instant_newYear :
    let r := powerOn { start := ⟨49, 12, 31, 6, 23, 59, 59⟩ }
    let clocked (bits : List Bool) : List Stroke :=
      bits.flatMap fun bit => [.lines false bit, .lines true bit]
    let before := clocked [true, true, true, true, true, true, false] ++ [.lines false true]
    let after := clocked (.replicate 11 false) ++ .tick :: clocked (.replicate 18 false)
    ∃ r₀ r₂, Undergoes id (r.setLines true false false) before r₀ ∧
      Undergoes id (r₀.setLines true true true) after r₂ ∧
      r₂.dataLine = bitAt 0x31 5 ∧ r₂.registers = .ofTime ⟨50, 1, 1, 7, 0, 0, 0⟩ false := by
  intro r clocked before after
  have sending := undergoes_act id (r.setLines true false false) (by decide) before
  have reading := undergoes_act id
    ((before.foldl Stroke.act (r.setLines true false false)).setLines true true true) (by decide)
    after
  obtain ⟨shown, -, registers⟩ :=
    burst_read_one_instant (by decide) false false sending (by decide) (by decide) reading
  refine ⟨_, _, sending, reading, shown.trans ?_, registers.trans ?_⟩
  · decide +kernel
  · decide +kernel

end C64.Rtc
