import C64.Proofs.Rtc.Pacing
import C64.Proofs.Rtc.Snapshot

/-!
# Write protection

A protected chip takes no byte but one for the control register. What the host has sent since it
enabled the chip is a list of bits, whatever the lines did in between (`clocked`), and the transfer
stands where the complete bytes among them and the bits of the next have brought it (`Hears`). So
the one pulse that ends the protection is known by the bits before it (`Lifts`): it completes a
control byte with its highest bit clear.

`protection_holds` says that a protected chip keeps memory and registers, seconds aside, until that
pulse.
-/

namespace C64.Rtc

open Clock

/-! ## What happens to a chip -/

/-- What can happen to a chip. -/
inductive Touch where
  | lines (enable clock data : Bool)
  /-- The machine is reset, and with it the lines. -/
  | reset
  | tick
deriving DecidableEq

/-- How many seconds there are among all that happens. -/
def Touch.ticks (touches : List Touch) : Nat := touches.count tick

open Touch (ticks)

variable {ε : Type} [DecidableEq ε] (event : Event → ε)

/-- The chip goes through what happens. A second is the alarm, whatever clock and cycle it comes
with. -/
inductive Meets : Rtc → List Touch → Rtc → Prop
  | done (r : Rtc) : Meets r [] r
  | lines {r r' : Rtc} {rest : List Touch} (enable clock data : Bool) :
      Meets (r.setLines enable clock data) rest r' →
      Meets r (.lines enable clock data :: rest) r'
  | reset {r r' : Rtc} {rest : List Touch} : Meets r.resetLines rest r' →
      Meets r (.reset :: rest) r'
  | tick {r r₁ r' : Rtc} {rest : List Touch} {clock clock' : Clock ε} {due : Nat} :
      r.onAlarm event clock due = .ok (r₁, clock') → Meets r₁ rest r' → Meets r (.tick :: rest) r'

/-- What one of these does to the chip. -/
def Touch.act (r : Rtc) : Touch → Rtc
  | lines enable clock data => r.setLines enable clock data
  | reset => r.resetLines
  | tick => r.expire

/-- The lines as they were set last, and the bits that came in since the chip was enabled. -/
structure Wire where
  enable : Bool
  clock : Bool
  bits : List Bool

/-- A rising edge of the serial clock brings a bit, and a change of the enable line or a reset drops
those before it. -/
def Wire.touch (w : Wire) : Touch → Wire
  | .lines enable clock data =>
    if enable = w.enable then
      ⟨enable, clock, w.bits ++ if enable && clock && !w.clock then [data] else []⟩
    else ⟨enable, clock, []⟩
  | .reset => ⟨false, false, []⟩
  | .tick => w

/-- The wire from power-on. -/
def wire (touches : List Touch) : Wire := touches.foldl Wire.touch ⟨false, false, []⟩

/-- The bits that have come in since the chip was enabled. -/
def clocked (touches : List Touch) : List Bool := (wire touches).bits

/-- Bytes that a control byte comes behind: the command to write the control register, or that to
write all registers with seven bytes of data. -/
def BeforeControl (sent : List UInt8) : Prop :=
  sent = [0x8E] ∨ sent.length = 8 ∧ sent.head? = some 0xBE
deriving Decidable

/-- The bits are whole bytes, and the last of them is a control byte that does not protect. -/
def Lifts (bits : List Bool) : Prop :=
  bits.length % 8 = 0 ∧ BeforeControl (bytesOf bits).dropLast ∧
    ∃ control ∈ (bytesOf bits).getLast?, bitAt control 7 = false
deriving Decidable

variable {event} {r r' : Rtc} {touches : List Touch}

theorem Meets.eq_foldl (h : Meets event r touches r') : r' = touches.foldl Touch.act r := by
  induction h with
  | done r => rfl
  | lines enable clock data _ ih => exact ih
  | reset _ ih => exact ih
  | tick alarm _ ih =>
    obtain rfl := onAlarm_ok alarm
    rw [ih, ← expire_eq]
    rfl

/-! ## Bits and bytes -/

theorem bitsOf_byteOf {bits : List Bool} (h : bits.length = 8) : bitsOf (byteOf bits) = bits := by
  obtain ⟨b₀, b₁, b₂, b₃, b₄, b₅, b₆, b₇, rest, rfl⟩ := exists_eight (by omega : ¬bits.length < 8)
  obtain rfl : rest = [] := by simpa using h
  revert b₀ b₁ b₂ b₃ b₄ b₅ b₆ b₇
  decide +kernel

/-- What is left of bits that make no byte does not hide those that do. -/
theorem bytesOf_append (bytes : List UInt8) {part : List Bool} (few : part.length < 8) :
    bytesOf (bytes.flatMap bitsOf ++ part) = bytes := by
  induction bytes with
  | nil => exact bytesOf_of_short few
  | cons b rest ih =>
    rw [List.flatMap_cons, List.append_assoc]
    refine (bytesOf_cons _ _ _ _ _ _ _ _ _).trans ?_
    show byteOf (bitsOf b) :: bytesOf (rest.flatMap bitsOf ++ part) = b :: rest
    rw [byteOf_bitsOf, ih]

theorem bytesOf_mono {first bits : List Bool} (h : first <+: bits) :
    bytesOf first <+: bytesOf bits := by
  obtain ⟨rest, rfl⟩ := h
  fun_induction bytesOf first with
  | case1 b₀ b₁ b₂ b₃ b₄ b₅ b₆ b₇ more ih =>
    exact (bytesOf_cons b₀ b₁ b₂ b₃ b₄ b₅ b₆ b₇ (more ++ rest)).symm ▸
      List.cons_prefix_cons.mpr ⟨rfl, ih⟩
  | case2 => exact List.nil_prefix

theorem addBits_append (byte : UInt8) (count : Nat) (bits : List Bool) (bit : Bool) :
    addBits byte count (bits ++ [bit]) =
      addBit (addBits byte count bits) (count + bits.length) bit := by
  induction bits generalizing byte count with
  | nil => rfl
  | cons first rest ih =>
    show addBits (addBit byte count first) (count + 1) (rest ++ [bit]) = _
    rw [ih, List.length_cons, Nat.add_right_comm, Nat.add_assoc]
    rfl

/-- Seven bits and another make a byte. -/
theorem addBit_seven {part : List Bool} (seven : part.length = 7) (bit : Bool) :
    addBit (addBits 0 0 part) 7 bit = byteOf (part ++ [bit]) := by
  rw [← addBits_byteOf (by rw [List.length_append, seven]; rfl), addBits_append, seven]

/-! ## Where a transfer stands -/

/-- The place that the next byte goes to, behind those that came in since the chip was enabled. -/
def awaited (model : Model) : List UInt8 → Option Target
  | [] => none
  | command :: data =>
    if bitAt command 7 ∧ ¬bitAt command 0 then (places model command)[data.length]? else none

/-- A transfer in which nothing is stored. -/
def Quiet (transfer : Transfer) : Prop :=
  transfer = .ignoring ∨ ∃ t bit, transfer = .transmitting t bit

/-- Where the complete bytes that came in, and the bits of the next, have brought a transfer. -/
def Hears (model : Model) (bytes : List UInt8) (part : List Bool) (transfer : Transfer) : Prop :=
  if bytes = [] then transfer = .command (addBits 0 0 part) part.length
  else match awaited model bytes with
    | some t => transfer = .receiving t (addBits 0 0 part) part.length
    | none => Quiet transfer

theorem Quiet.pulse (h : Quiet r.transfer) (bit : Bool) :
    Quiet (r.pulse bit).transfer ∧ (r.pulse bit).contents = r.contents := by
  refine ⟨?_, contents_pulses_of_quiet h [bit]⟩
  rcases h with ignoring | ⟨t, place, transmitting⟩
  · have still : r.pulse bit = r := pulses_ignoring ignoring [bit]
    rw [still]
    exact .inl ignoring
  · unfold Rtc.pulse
    rw [transmitting]
    simp only []
    split
    · exact .inr ⟨_, _, rfl⟩
    · split
      · exact .inr ⟨_, _, rfl⟩
      · exact .inl rfl

theorem getElem?_places_zero (model : Model) (command : UInt8) :
    (places model command)[0]? = some (firstPlace command) := by
  unfold places firstPlace
  by_cases burst : command.toNat / 2 % 32 = 31
  · have some : 0 < model.burstLength (bitAt command 6) := by
      unfold Model.burstLength
      cases model <;> split <;> decide
    simp [burst, some]
  · simp [burst]

/-- The places of a command follow one another. -/
theorem next?_of_places {command : UInt8} {k : Nat} {t : Target}
    (h : (places r.model command)[k]? = some t) : r.next? t = (places r.model command)[k + 1]? := by
  unfold places at h ⊢
  by_cases burst : command.toNat / 2 % 32 = 31
  · simp only [burst, if_true, List.getElem?_map, Option.map_eq_some_iff] at h ⊢
    obtain ⟨index, inside, rfl⟩ := h
    obtain ⟨inside, same⟩ := List.getElem?_eq_some_iff.mp inside
    rw [List.getElem_range] at same
    subst same
    show (if true = true ∧ k + 1 < r.model.burstLength (bitAt command 6) then _ else none) = _
    by_cases more : k + 1 < r.model.burstLength (bitAt command 6)
    · rw [if_pos ⟨rfl, more⟩, List.getElem?_range more]
      rfl
    · rw [if_neg (fun h => more h.2), List.getElem?_eq_none (by simpa using more)]
      rfl
  · simp only [burst, if_false] at h ⊢
    obtain ⟨inside, rfl⟩ := List.getElem?_eq_some_iff.mp h
    obtain rfl : k = 0 := by simpa using inside
    simp [next?]

theorem awaited_cons (model : Model) (command : UInt8) (data : List UInt8) :
    awaited model (command :: data) =
      if bitAt command 7 ∧ ¬bitAt command 0 then (places model command)[data.length]? else none :=
  rfl

/-- The place behind one that was awaited comes next; behind the last there is none. -/
theorem awaited_append {bytes : List UInt8} (some : bytes ≠ []) (b : UInt8) :
    awaited r.model (bytes ++ [b]) = (awaited r.model bytes).bind r.next? := by
  cases bytes with
  | nil => exact absurd rfl some
  | cons command data =>
    rw [List.cons_append, awaited_cons, awaited_cons, List.length_append]
    split
    · cases place : (places r.model command)[data.length]? with
      | some t => exact (next?_of_places place).symm
      | none => exact List.getElem?_eq_none (Nat.le_succ_of_le (List.getElem?_eq_none_iff.mp place))
    · rfl

/-- A pulse in the middle of a byte is noted. -/
theorem Hears.bit {bytes : List UInt8} {part : List Bool} (h : Hears r.model bytes part r.transfer)
    (few : part.length < 7) (bit : Bool) :
    Hears r.model bytes (part ++ [bit]) (r.pulse bit).transfer ∧
      (r.pulse bit).contents = r.contents := by
  have noted : addBits 0 0 (part ++ [bit]) = addBit (addBits 0 0 part) part.length bit := by
    rw [addBits_append, Nat.zero_add]
  unfold Hears at h ⊢
  rw [noted, List.length_append]
  split at h
  · next none =>
    rw [if_pos none, collects_command r _ _ bit h few]
    exact ⟨rfl, rfl⟩
  · next some =>
    rw [if_neg some]
    split at h
    · next t _ =>
      rw [collects_receiving t r _ _ bit h few]
      exact ⟨rfl, rfl⟩
    · exact Quiet.pulse h bit

/-- A pulse that completes a byte puts it into the place that awaits it. -/
theorem Hears.byte {bytes : List UInt8} {part : List Bool} (h : Hears r.model bytes part r.transfer)
    (seven : part.length = 7) (bit : Bool) :
    let b := byteOf (part ++ [bit])
    Hears r.model (bytes ++ [b]) [] (r.pulse bit).transfer ∧
      (r.pulse bit).contents = match awaited r.model bytes with
        | some t => r.contents.put r.model t b
        | none => r.contents := by
  intro b
  have made : addBit (addBits 0 0 part) 7 bit = b := addBit_seven seven bit
  unfold Hears at h ⊢
  rw [if_neg (by simp)]
  rw [seven] at h
  split at h
  · next none =>
    -- The first byte is the command.
    subst none
    have obeyed : r.pulse bit = r.obey (.ofByte b) := by
      unfold Rtc.pulse
      rw [h]
      simp only [if_true, made]
    rw [obeyed]
    refine ⟨?_, (r.obey_frame _).2.2⟩
    rw [List.nil_append, awaited_cons, List.length_nil, getElem?_places_zero, ofByte_eq]
    by_cases valid : bitAt b 7 = true
    · by_cases read : bitAt b 0 = true
      · rw [if_pos valid, if_pos read, if_neg (fun write => write.2 read)]
        exact .inr ⟨_, _, rfl⟩
      · rw [if_pos valid, if_neg read, if_pos ⟨valid, read⟩]
        rfl
    · rw [if_neg valid, if_neg (fun write => valid write.1)]
      exact .inl rfl
  · next some =>
    rw [awaited_append some]
    split at h
    · next t place =>
      rw [pulse_complete h, made, place, Option.bind_some]
      refine ⟨?_, rfl⟩
      cases r.next? t with
      | some t' => rfl
      | none => exact .inl rfl
    · next place =>
      rw [place]
      exact Quiet.pulse h bit

/-! ## The control byte -/

/-- The commands to write a register, or all of them. -/
theorem command_eq (command : UInt8) (write : bitAt command 7 = true ∧ ¬bitAt command 0 = true)
    (register : bitAt command 6 = false) :
    command = (0x80 : UInt8) ||| (command.toNat / 2 % 32).toUInt8 <<< 1 := by
  revert command
  refine forall_byte ?_
  decide +kernel

/-- The control register is awaited behind two commands only, and behind one of them not at once. -/
theorem beforeControl_iff (model : Model) (bytes : List UInt8) :
    BeforeControl bytes ↔ ∃ t, awaited model bytes = some t ∧ t.memory = false ∧ t.index = 7 := by
  cases bytes with
  | nil => simp [BeforeControl, awaited]
  | cons command data =>
    constructor
    · rintro (single | ⟨burst, first⟩)
      · rw [single]
        exact ⟨⟨false, false, 7⟩, rfl, rfl, rfl⟩
      · obtain rfl := Option.some.inj first
        rw [awaited_cons, Nat.succ.inj burst]
        exact ⟨⟨false, true, 7⟩, rfl, rfl, rfl⟩
    · rintro ⟨t, place, memory, index⟩
      obtain ⟨write, place⟩ := Option.ite_none_right_eq_some.mp place
      unfold places at place
      by_cases burst : command.toNat / 2 % 32 = 31
      · simp only [burst, if_true, List.getElem?_map, Option.map_eq_some_iff] at place
        obtain ⟨k, inside, rfl⟩ := place
        obtain ⟨inside, same⟩ := List.getElem?_eq_some_iff.mp inside
        rw [List.getElem_range] at same
        have all := command_eq command write memory
        rw [burst] at all
        exact .inr ⟨congrArg (· + 1) (same.trans index), congrArg some all⟩
      · simp only [burst, if_false] at place
        obtain ⟨inside, rfl⟩ := List.getElem?_eq_some_iff.mp place
        have first : data.length = 0 := by simpa using inside
        simp only [first, List.getElem_cons_zero] at memory index
        have one := command_eq command write memory
        rw [index] at one
        exact .inl (by rw [one, List.eq_nil_of_length_eq_zero first]; rfl)

/-- The bit that ends the protection completes a byte for the control register. -/
theorem lifts_iff {bytes : List UInt8} {part : List Bool} (few : part.length < 8) (bit : Bool) :
    Lifts (bytes.flatMap bitsOf ++ part ++ [bit]) ↔
      part.length = 7 ∧ BeforeControl bytes ∧ bitAt (byteOf (part ++ [bit])) 7 = false := by
  have length : (bytes.flatMap bitsOf ++ part ++ [bit]).length % 8 = (part.length + 1) % 8 := by
    simp [length_bitsOf]
  unfold Lifts
  rw [length]
  by_cases seven : part.length = 7
  · have whole : bytes.flatMap bitsOf ++ part ++ [bit] =
        (bytes ++ [byteOf (part ++ [bit])]).flatMap bitsOf := by
      rw [List.flatMap_append, List.append_assoc, List.flatMap_singleton,
        bitsOf_byteOf (by simp [seven])]
    rw [whole, bytesOf_flatMap, List.dropLast_concat, List.getLast?_concat]
    simp [seven]
  · have cut : (part.length + 1) % 8 ≠ 0 := by omega
    exact ⟨fun h => absurd h.1 cut, fun h => absurd h.1 seven⟩

/-! ## What protects -/

/-- Of the control register only the bit that protects can be set. -/
theorem control_of_protected {r : Registers} (low : r.control &&& 0x7F = 0)
    (on : r.writeProtected = true) : r.control = 0x80 := by
  have byte : ∀ b : UInt8, b &&& 0x7F = 0 → anyBit b protectBit = true → b = 0x80 := by
    refine forall_byte ?_
    decide +kernel
  exact byte r.control low on

theorem second_control (r : Registers) : (second r).control = r.control := by
  have day (r : Registers) : r.tickDay.control = r.control := by
    unfold Registers.tickDay
    simp only []
    split
    · rfl
    · split <;> rfl
  unfold second Registers.tick
  simp only []
  split
  · rfl
  · split
    · rfl
    · split
      · rfl
      · split
        · exact day _
        · rfl

theorem and_protect (b : UInt8) :
    (b &&& 0x80) &&& 0x7F = 0 ∧ b &&& 0x80 = if bitAt b 7 then 0x80 else 0 := by
  revert b
  refine forall_byte ?_
  decide +kernel

namespace Contents

variable {model : Model} {c : Contents} {t : Target} {b : UInt8}

/-- The control register takes the bit that protects, whether it is protected or not. -/
theorem put_control (memory : t.memory = false) (index : t.index = 7) :
    c.put model t b = { c with registers := { c.registers with control := b &&& 0x80 } } := by
  simp [put, memory, index]

/-- What is protected takes no byte but one that ends the protection. -/
theorem put_protected (low : c.registers.control &&& 0x7F = 0)
    (on : c.registers.writeProtected = true)
    (protects : t.memory = false ∧ t.index = 7 → bitAt b 7 = true) : c.put model t b = c := by
  by_cases control : t.memory = false ∧ t.index = 7
  · have same := control_of_protected low on
    rw [put_control control.1 control.2, (and_protect b).2, protects control, if_pos rfl, ← same]
  · unfold put
    cases memory : t.memory with
    | true => simp [on]
    | false =>
      have index : t.index ≠ 7 := fun same => control ⟨memory, same⟩
      simp [on, index]

theorem put_low (low : c.registers.control &&& 0x7F = 0) :
    (c.put model t b).registers.control &&& 0x7F = 0 := by
  by_cases control : t.memory = false ∧ t.index = 7
  · rw [put_control control.1 control.2]
    exact (and_protect b).1
  · unfold put
    split
    · split <;> exact low
    · next register =>
      rw [if_neg fun index => control ⟨by simpa using register, index⟩]
      split
      · exact low
      · have kept : ∀ index ≠ 7, (c.registers.set index b).control = c.registers.control := by
          intro index other
          match index with
          | 0 | 1 | 2 | 3 | 4 | 5 | 6 | 8 | _ + 9 => rfl
          | 7 => exact absurd rfl other
        rw [show (Contents.registers _) = c.registers.set t.index b from rfl,
          kept _ fun index => control ⟨by simpa using register, index⟩]
        exact low

end Contents

/-- What is protected after some seconds, and whether the protection has ended. -/
def Contents.kept (c : Contents) (seconds : Nat) (ended : Prop) [Decidable ended] : Contents :=
  let registers := second^[seconds] c.registers
  ⟨if ended then { registers with control := 0 } else registers, c.memory⟩

/-! ## A chip and its wire -/

/-- The bits since the chip was enabled have brought a transfer where it stands. -/
def HearsBits (model : Model) (bits : List Bool) (transfer : Transfer) : Prop :=
  ∃ bytes part, bits = bytes.flatMap bitsOf ++ part ∧ part.length < 8 ∧
    Hears model bytes part transfer

/-- A pulse that does not end the protection leaves a protected chip as it is, and the one that does
changes the control register only. -/
theorem HearsBits.pulse {bits : List Bool} (h : HearsBits r.model bits r.transfer)
    (low : r.registers.control &&& 0x7F = 0) (bit : Bool) :
    HearsBits r.model (bits ++ [bit]) (r.pulse bit).transfer ∧
      (r.pulse bit).registers.control &&& 0x7F = 0 ∧
      (Lifts (bits ++ [bit]) →
        (r.pulse bit).contents = ⟨{ r.registers with control := 0 }, r.memory⟩) ∧
      (¬Lifts (bits ++ [bit]) → r.registers.writeProtected = true →
        (r.pulse bit).contents = r.contents) := by
  obtain ⟨bytes, part, rfl, few, hears⟩ := h
  rw [lifts_iff few]
  by_cases seven : part.length = 7
  · obtain ⟨hears', contents⟩ := hears.byte seven bit
    have control := beforeControl_iff r.model bytes
    have whole : bytes.flatMap bitsOf ++ part ++ [bit] =
        (bytes ++ [byteOf (part ++ [bit])]).flatMap bitsOf ++ [] := by
      rw [List.flatMap_append, List.append_assoc, List.flatMap_singleton,
        bitsOf_byteOf (by simp [seven]), List.append_nil]
    generalize byteOf (part ++ [bit]) = b at hears' contents whole ⊢
    refine ⟨⟨_, [], whole, by decide, hears'⟩, ?_, ?_, ?_⟩
    · show (r.pulse bit).contents.registers.control &&& 0x7F = 0
      rw [contents]
      split
      · exact Contents.put_low low
      · exact low
    · rintro ⟨-, before, clear⟩
      obtain ⟨t, place, memory, index⟩ := control.mp before
      rw [contents, place]
      simp only [Contents.put_control memory index, (and_protect b).2, clear]
      rfl
    · intro kept on
      rw [contents]
      split
      · next t place =>
        refine Contents.put_protected low on fun here => ?_
        by_contra clear
        exact kept ⟨seven, control.mpr ⟨t, place, here⟩, by simpa using clear⟩
      · rfl
  · obtain ⟨hears', contents⟩ := hears.bit (by omega) bit
    refine ⟨⟨bytes, part ++ [bit], List.append_assoc .., by simp; omega, hears'⟩, ?_,
      fun lifts => absurd lifts.1 seven, fun _ _ => contents⟩
    show (r.pulse bit).contents.registers.control &&& 0x7F = 0
    rw [contents]
    exact low

/-- The chip stands where the wire has brought it, and of the control register only the bit that
protects is ever set. -/
structure Follows (w : Wire) (r : Rtc) : Prop where
  enable : r.enable = w.enable
  clock : r.serialClock = w.clock
  disabled : w.enable = false → w.bits = []
  enabled : w.enable = true → HearsBits r.model w.bits r.transfer
  control : r.registers.control &&& 0x7F = 0
  lifted : Lifts w.bits → r.registers.control = 0

theorem not_lifts_nil : ¬Lifts [] := by decide

theorem Follows.powerOn (config : Config) : Follows ⟨false, false, []⟩ (powerOn config) :=
  ⟨rfl, rfl, fun _ => rfl, nofun, UInt8.zero_and, fun lifts => absurd lifts not_lifts_nil⟩

variable {w : Wire}

theorem Follows.sealed (h : Follows w r) (on : r.registers.writeProtected = true) :
    ¬Lifts w.bits := by
  intro lifts
  have off := control_of_protected h.control on
  rw [h.lifted lifts] at off
  exact absurd off (by decide)

/-- A transfer begins or ends. -/
theorem Follows.toggle (h : Follows w r) {enable : Bool} (change : enable ≠ w.enable)
    (clock data : Bool) :
    Follows ⟨enable, clock, []⟩ (r.setLines enable clock data) ∧
      (r.setLines enable clock data).contents = r.contents := by
  have toggled : r.setLines enable clock data = { r with
      enable, serialClock := clock
      dataIn := data
      dataOut := false
      transfer := if enable then .command 0 0 else .idle } := by
    unfold setLines
    rw [if_pos (by simpa [h.enable] using change)]
  rw [toggled]
  refine ⟨⟨rfl, rfl, fun _ => rfl, fun on => ?_, h.control,
    fun lifts => absurd lifts not_lifts_nil⟩, rfl⟩
  have on : enable = true := on
  rw [on]
  exact ⟨[], [], rfl, by decide, rfl⟩

/-- While the chip is enabled a rising edge brings a bit. -/
theorem Follows.clockIn (h : Follows w r) (on : w.enable = true) (clock data : Bool) :
    let w' : Wire := ⟨true, clock, w.bits ++ if clock && !w.clock then [data] else []⟩
    Follows w' (r.setLines true clock data) ∧
      (r.registers.writeProtected = true →
        (r.setLines true clock data).contents = r.contents.kept 0 (Lifts w'.bits)) := by
  intro w'
  have on' : r.enable = true := h.enable.trans on
  have hears := h.enabled on
  rw [setLines_enabled on', h.clock]
  by_cases rising : clock && !w.clock
  · have bits : w'.bits = w.bits ++ [data] := congrArg (w.bits ++ ·) (if_pos rising)
    rw [if_pos rising]
    obtain ⟨hears', low, ends, keeps⟩ := hears.pulse h.control data
    obtain ⟨enable', model'⟩ := r.pulse_frame data
    rw [← bits] at hears' ends keeps
    refine ⟨⟨enable'.trans on', rfl, nofun, fun _ => ?_, low, fun lifts => ?_⟩, fun prot => ?_⟩
    · show HearsBits (r.pulse data).model _ (r.pulse data).transfer
      rwa [model']
    · exact congrArg (fun c : Contents => c.registers.control) (ends lifts)
    · show (r.pulse data).contents = r.contents.kept 0 (Lifts w'.bits)
      by_cases lifts : Lifts w'.bits
      · rw [Contents.kept, if_pos lifts]
        exact ends lifts
      · rw [Contents.kept, if_neg lifts]
        exact keeps lifts prot
  · have bits : w'.bits = w.bits :=
      (congrArg (w.bits ++ ·) (if_neg rising)).trans (List.append_nil _)
    rw [if_neg rising]
    rw [← bits] at hears
    refine ⟨⟨on', rfl, nofun, fun _ => hears, h.control, bits ▸ h.lifted⟩, fun prot => ?_⟩
    rw [bits, Contents.kept, if_neg (h.sealed prot)]
    rfl

theorem setLines_disabled (h : r.enable = false) (clock data : Bool) :
    r.setLines false clock data = r.withLines clock data := by
  unfold setLines withLines
  rw [h]
  rfl

/-- What a touch does to a protected chip: nothing but a second, or the end of the protection. -/
theorem Follows.act (h : Follows w r) (touch : Touch) :
    Follows (w.touch touch) (touch.act r) ∧
      (r.registers.writeProtected = true →
        (touch.act r).contents =
          r.contents.kept (ticks [touch]) (Lifts (w.touch touch).bits)) := by
  cases touch with
  | reset =>
    refine ⟨⟨rfl, rfl, fun _ => rfl, nofun, h.control, fun lifts => absurd lifts not_lifts_nil⟩,
      fun _ => ?_⟩
    show _ = r.contents.kept 0 (Lifts [])
    rw [Contents.kept, if_neg not_lifts_nil]
    rfl
  | tick =>
    rw [Touch.act, expire_eq]
    have control := second_control r.registers
    refine ⟨⟨h.enable, h.clock, h.disabled, h.enabled, control ▸ h.control,
      fun lifts => control.trans (h.lifted lifts)⟩, fun on => ?_⟩
    show _ = r.contents.kept 1 (Lifts w.bits)
    rw [Contents.kept, if_neg (h.sealed on)]
    rfl
  | lines enable clock data =>
    rw [Touch.act]
    by_cases change : enable = w.enable
    · have wired : w.touch (.lines enable clock data) =
          ⟨enable, clock, w.bits ++ if enable && clock && !w.clock then [data] else []⟩ :=
        if_pos change
      rw [wired]
      cases enable with
      | false =>
        rw [setLines_disabled (h.enable.trans change.symm)]
        simp only [Bool.false_and, Bool.false_eq_true, if_false, List.append_nil]
        refine ⟨⟨h.enable.trans change.symm, rfl, fun _ => h.disabled change.symm, nofun, h.control,
          h.lifted⟩, fun on => ?_⟩
        rw [Contents.kept, if_neg (h.sealed on)]
        rfl
      | true => exact h.clockIn change.symm clock data
    · have wired : w.touch (.lines enable clock data) = ⟨enable, clock, []⟩ := if_neg change
      obtain ⟨follows, contents⟩ := h.toggle change clock data
      rw [wired]
      refine ⟨follows, fun _ => ?_⟩
      rw [Contents.kept, if_neg not_lifts_nil]
      exact contents

theorem ticks_append (a b : List Touch) : ticks (a ++ b) = ticks a + ticks b := List.count_append

theorem Follows.foldl (h : Follows w r) (touches : List Touch) :
    Follows (touches.foldl Wire.touch w) (touches.foldl Touch.act r) := by
  induction touches generalizing w r with
  | nil => exact h
  | cons touch rest ih => exact ih (h.act touch).1

theorem iterate_second_control (n : Nat) (r : Registers) : (second^[n] r).control = r.control := by
  induction n generalizing r with
  | zero => rfl
  | succ n ih => rw [Function.iterate_succ_apply, ih, second_control]

/-- Nothing that happens changes a protected chip, seconds aside, up to the bit that ends the
protection. -/
theorem Follows.protect (h : Follows w r) (on : r.registers.writeProtected = true)
    {later : List Touch}
    (held : ∀ a b, later = a ++ b → b ≠ [] → ¬Lifts (a.foldl Wire.touch w).bits) :
    (later.foldl Touch.act r).contents =
      r.contents.kept (ticks later) (Lifts (later.foldl Wire.touch w).bits) := by
  -- From the end, as the last touch alone can end the protection.
  induction later using List.reverseRecOn with
  | nil =>
    show _ = r.contents.kept 0 (Lifts w.bits)
    rw [Contents.kept, if_neg (h.sealed on)]
    rfl
  | append_singleton front touch ih =>
    have before := ih fun a b cut more => held a (b ++ [touch])
      (by rw [cut, List.append_assoc]) (by simp)
    have sealed : ¬Lifts (front.foldl Wire.touch w).bits := held front [touch] rfl (by simp)
    rw [Contents.kept, if_neg sealed] at before
    have registers := congrArg Contents.registers before
    have memory := congrArg Contents.memory before
    have on' : (front.foldl Touch.act r).registers.writeProtected = true := by
      show anyBit (Contents.registers (Rtc.contents _)).control protectBit = true
      rw [registers, iterate_second_control]
      exact on
    rw [List.foldl_concat, List.foldl_concat, ((h.foldl front).act touch).2 on', ticks_append,
      Contents.kept, Contents.kept, registers, memory, Nat.add_comm, Function.iterate_add_apply]

/-! ## Aborted writes -/

/-- The bits are of a control write that lacks some of its data. -/
def Unfinished (bits : List Bool) : Prop :=
  ∃ sent part, bits = sent.flatMap bitsOf ++ part ∧ BeforeControl sent ∧ part.length < 8

/-- The chip is enabled for a control write, and disabled or reset before the last bit of it. -/
def Aborts (past write : List Touch) : Prop :=
  ∃ level data during last, write = .lines true level data :: (during ++ [last]) ∧
    (wire past).enable = false ∧
    (∀ touch ∈ during, touch = .tick ∨ ∃ clock data, touch = .lines true clock data) ∧
    Unfinished (clocked (past ++ .lines true level data :: during)) ∧
    (last = .reset ∨ ∃ clock data, last = .lines false clock data)

/-- No part of an aborted control write ends the protection. -/
theorem Unfinished.not_lifts {bits first : List Bool} (h : Unfinished bits)
    (start : first <+: bits) : ¬Lifts first := by
  rintro ⟨-, before, -⟩
  obtain ⟨sent, part, rfl, control, few⟩ := h
  have read : bytesOf first <+: sent := bytesOf_append sent few ▸ bytesOf_mono start
  have length := read.length_le
  have ahead : (bytesOf first).dropLast.length = _ := List.length_dropLast
  have head := (List.dropLast_prefix (bytesOf first)).trans read
  rcases before with single | ⟨burst, -⟩
  · -- A second byte is sent behind the command of a burst only.
    rw [single] at ahead head
    rw [List.length_singleton] at ahead
    rcases control with one | ⟨-, first⟩
    · rw [one, List.length_singleton] at length
      omega
    · obtain ⟨rest, rfl⟩ := head
      exact absurd (Option.some.inj first) (by decide)
  · rcases control with one | ⟨eight, -⟩
    · rw [one, List.length_singleton] at length
      omega
    · omega

/-- While the chip stays enabled the bits add up. -/
theorem bits_grow (on : w.enable = true) {during : List Touch}
    (opened : ∀ touch ∈ during, touch = .tick ∨ ∃ clock data, touch = .lines true clock data) :
    (during.foldl Wire.touch w).enable = true ∧
      w.bits <+: (during.foldl Wire.touch w).bits := by
  induction during generalizing w with
  | nil => exact ⟨on, List.prefix_rfl⟩
  | cons touch rest ih =>
    have later := fun t inside => opened t (List.mem_cons_of_mem touch inside)
    rcases opened touch List.mem_cons_self with rfl | ⟨clock, data, rfl⟩
    · exact ih on later
    · have noted : w.touch (.lines true clock data) =
          ⟨true, clock, w.bits ++ if true && clock && !w.clock then [data] else []⟩ :=
        if_pos on.symm
      rw [List.foldl_cons, noted]
      obtain ⟨enabled, more⟩ := ih (w := ⟨true, clock, _⟩) rfl later
      exact ⟨enabled, (List.prefix_append _ _).trans more⟩

/-- An aborted control write ends no protection, at its end or before. -/
theorem Aborts.not_lifts {past write : List Touch} (h : Aborts past write)
    (before : ¬Lifts (clocked past)) {a : List Touch} (part : a <+: write) :
    ¬Lifts (clocked (past ++ a)) := by
  obtain ⟨level, data, during, last, rfl, off, opened, unfinished, closing⟩ := h
  have begun : (wire past).touch (.lines true level data) = ⟨true, level, []⟩ := by
    show (if true = (wire past).enable then _ else _) = _
    rw [off]
    rfl
  have onward (more : List Touch) : clocked (past ++ .lines true level data :: more) =
      (more.foldl Wire.touch ⟨true, level, []⟩).bits := by
    rw [clocked, wire, List.foldl_append, List.foldl_cons]
    exact congrArg (fun w => (more.foldl Wire.touch w).bits) begun
  rw [onward] at unfinished
  rcases a with _ | ⟨first, rest⟩
  · rwa [List.append_nil]
  obtain ⟨rfl, behind⟩ := List.cons_prefix_cons.mp part
  rw [onward]
  rcases List.prefix_concat_iff.mp behind with rfl | ⟨rest', rfl⟩
  · -- The last touch drops the bits.
    obtain ⟨enabled, -⟩ := bits_grow (w := ⟨true, level, []⟩) rfl opened
    rw [List.foldl_concat]
    rcases closing with rfl | ⟨clock, data', rfl⟩
    · exact not_lifts_nil
    · show ¬Lifts (if false = _ then _ else _ : Wire).bits
      rw [enabled]
      exact not_lifts_nil
  · rw [List.foldl_append] at unfinished
    obtain ⟨enabled, -⟩ := bits_grow (w := ⟨true, level, []⟩) rfl
      fun t inside => opened t (List.mem_append_left rest' inside)
    exact unfinished.not_lifts
      (bits_grow enabled fun t inside => opened t (List.mem_append_right rest inside)).2

/-- Every history can come about. -/
theorem meets_act (event : Event → ε) (r : Rtc) (room : r.cyclesPerSecond ≤ Cycle.last)
    (touches : List Touch) : Meets event r touches (touches.foldl Touch.act r) := by
  induction touches generalizing r with
  | nil => exact .done r
  | cons touch rest ih =>
    cases touch with
    | lines enable clock data =>
      refine .lines enable clock data (ih _ ?_)
      rwa [setLines_cyclesPerSecond]
    | reset => exact .reset (ih _ room)
    | tick =>
      obtain ⟨clock, set⟩ : ∃ clock, (zero : Clock ε).setAgain (event .tick) 0
          (some r.cyclesPerSecond) = .ok clock :=
        zero.setAgain_eq_ok.mpr (by simpa using room)
      have alarm : r.onAlarm event zero 0 = .ok (r.expire, clock) := by
        rw [onAlarm_eq, set]
        rfl
      exact .tick alarm (ih _ (by simpa using room))

/-! ## The protection -/

theorem follows [ToString ε] {config : Config} {clock clock' : Clock ε} {r₀ : Rtc}
    {past : List Touch} (made : new event config clock = .ok (.ok (r₀, clock')))
    (lived : Meets event r₀ past r) : Follows (wire past) r := by
  obtain ⟨rfl, -⟩ := new_eq event made
  rw [lived.eq_foldl]
  exact (Follows.powerOn config).foldl past

/-- In a chip that was built, whatever its lines and the clock did since, no bit of the control
register but the one that protects is ever set. While it is, nothing changes memory or registers,
seconds aside, up to a control byte with that bit clear; the byte changes the control register
only. No aborted control write ends the protection. -/
theorem protection_holds [ToString ε] {config : Config} {clock clock' : Clock ε} {r₀ : Rtc}
    {past : List Touch} (made : new event config clock = .ok (.ok (r₀, clock')))
    (lived : Meets event r₀ past r) :
    r.registers.control &&& 0x7F = 0 ∧
      (r.registers.writeProtected = true →
        (∀ later r', Meets event r later r' →
          (∀ a b, later = a ++ b → b ≠ [] → ¬Lifts (clocked (past ++ a))) →
          let ended := Lifts (clocked (past ++ later))
          let registers := second^[ticks later] r.registers
          r'.registers = (if ended then { registers with control := 0 } else registers) ∧
            r'.memory = r.memory ∧ (r'.registers.writeProtected = true ↔ ¬ended)) ∧
        ∀ write r', Aborts past write → Meets event r write r' →
          r'.registers = second^[ticks write] r.registers ∧ r'.memory = r.memory ∧
            r'.registers.writeProtected = true) := by
  have stands := follows made lived
  refine ⟨stands.control, fun on => ?_⟩
  have upTo {later : List Touch} {r' : Rtc} (h : Meets event r later r')
      (held : ∀ a b, later = a ++ b → b ≠ [] → ¬Lifts (clocked (past ++ a))) :
      r'.contents = r.contents.kept (ticks later) (Lifts (clocked (past ++ later))) := by
    unfold clocked wire at held ⊢
    simp only [List.foldl_append] at held ⊢
    rw [h.eq_foldl]
    exact stands.protect on held
  have still (n : Nat) : (second^[n] r.registers).writeProtected = true := by
    show anyBit (second^[n] r.registers).control protectBit = true
    rw [iterate_second_control]
    exact on
  refine ⟨fun later r' h held => ?_, fun write r' aborts h => ?_⟩
  · have all := upTo h held
    have registers : r'.registers = _ := congrArg Contents.registers all
    refine ⟨registers, congrArg Contents.memory all, ?_⟩
    by_cases ended : Lifts (clocked (past ++ later))
    · rw [Contents.kept, if_pos ended] at registers
      have off : r'.registers.writeProtected = false :=
        registers ▸ (by decide : anyBit 0 protectBit = false)
      exact ⟨fun on => absurd (off.symm.trans on) Bool.false_ne_true, fun kept => absurd ended kept⟩
    · rw [Contents.kept, if_neg ended] at registers
      exact ⟨fun _ => ended, fun _ => registers ▸ still _⟩
  · have sealed := fun {a} => aborts.not_lifts (stands.sealed on) (a := a)
    have all := upTo h fun a b cut _ => sealed ⟨b, cut.symm⟩
    rw [Contents.kept, if_neg (sealed List.prefix_rfl)] at all
    have registers : r'.registers = _ := congrArg Contents.registers all
    exact ⟨registers, congrArg Contents.memory all, registers ▸ still _⟩

/-- A protected chip sits through a burst for its memory, a second, and a control write without its
last bit. -/
theorem protection_holds_burst :
    let send (bits : List Bool) : List Touch :=
      .lines true false false :: bits.flatMap fun bit =>
        [.lines true false bit, .lines true true bit]
    let off : Touch := .lines false false false
    let past := send ([0x8E, 0x80].flatMap bitsOf) ++ [off]
    let later := send ([0xFE, 0xA5].flatMap bitsOf) ++ [.tick, off]
    let write := send (bitsOf 0x8E ++ List.replicate 7 false) ++ [off]
    let clock : Clock Event := zero
    ∃ r₀ clock' r r₁ r₂, @new _ _ id ⟨fun _ => ""⟩ {} clock = .ok (.ok (r₀, clock')) ∧
      Meets id r₀ past r ∧ r.registers.writeProtected = true ∧
      Meets id r later r₁ ∧ r₁.registers = { Registers.ofTime .initial false with
        seconds := 1
        control := 0x80 } ∧
      r₁.memory = Vector.replicate 31 0 ∧
      Meets id r write r₂ ∧ r₂.registers = r.registers ∧ r₂.registers.writeProtected = true := by
  intro send off past later write clock
  let _ : ToString Event := ⟨fun _ => ""⟩
  obtain ⟨r₀, clock', made⟩ := (new_succeeds_iff id (by decide : ({} : Config).error? = none)
    clock).mpr (by decide)
  obtain ⟨rfl, -⟩ := new_eq id made
  have lived := meets_act id (powerOn {}) (by decide) past
  have onward := meets_act id (past.foldl Touch.act (powerOn {})) (by decide +kernel)
  have on : (past.foldl Touch.act (powerOn {})).registers.writeProtected = true := by
    decide +kernel
  obtain ⟨protect, abort⟩ := (protection_holds made lived).2 on
  have held : ∀ k < later.length, ¬Lifts (clocked (past ++ later.take k)) := by decide +kernel
  have sealed : ¬Lifts (clocked (past ++ later)) := by decide +kernel
  obtain ⟨registers, memory, -⟩ := protect later _ (onward later) fun a b cut more => by
    have := held a.length
    rw [cut, List.take_left, List.length_append] at this
    exact this (Nat.lt_add_of_pos_right (List.length_pos_iff.mpr more))
  rw [if_neg sealed] at registers
  obtain ⟨kept, -, still⟩ := abort write _
    ⟨false, false, _, off, rfl, by decide +kernel, by decide +kernel,
      ⟨[0x8E], List.replicate 7 false, by decide +kernel, .inl rfl, by decide⟩,
      .inr ⟨false, false, rfl⟩⟩ (onward write)
  refine ⟨_, _, _, _, _, made, lived, on, onward later, registers.trans ?_, memory.trans ?_,
    onward write, kept.trans ?_, still⟩
  · decide +kernel
  · decide +kernel
  · decide +kernel

end C64.Rtc
