import C64.Rtc

/-!
# Transfers by the byte

The host moves three lines, one at a time if it likes; what it writes is settled by bytes. The
levels on the data line at the rising edges of the serial clock are the bits of a transfer
(`sampled`), every eight of them are a byte (`bytesOf`), the first byte is a command, and the
bytes behind a command to write go to the places it names, one after another
(`Contents.after`).

`transfer_contents` says that the chip, which takes the lines edge by edge, leaves registers and
memory as the bytes do. The proof goes down in two steps: setting lines comes to pulses
(`contents_drive`), and eight pulses come to a byte (`pulses_command`, `pulses_receiving`).
-/

namespace C64.Rtc

/-! ## The protocol in bytes -/

/-- What a transfer can write to. -/
structure Contents where
  registers : Registers
  memory : Vector UInt8 31
deriving DecidableEq

def contents (r : Rtc) : Contents := ⟨r.registers, r.memory⟩

/-- The levels on the data line at the rising edges of the serial clock, which stood at `level`
before. Each setting of the lines is a level of the serial clock and one of the data line. -/
def sampled (level : Bool) : List (Bool × Bool) → List Bool
  | [] => []
  | (clock, data) :: rest =>
    if clock && !level then data :: sampled clock rest else sampled clock rest

/-- The byte of eight bits, the least significant first. -/
def byteOf (bits : List Bool) : UInt8 :=
  (bits.foldr (fun (bit : Bool) n => bit.toNat + 2 * n) 0).toUInt8

/-- The complete bytes among bits. -/
def bytesOf : List Bool → List UInt8
  | b₀ :: b₁ :: b₂ :: b₃ :: b₄ :: b₅ :: b₆ :: b₇ :: rest =>
    byteOf [b₀, b₁, b₂, b₃, b₄, b₅, b₆, b₇] :: bytesOf rest
  | _ => []

/-- The bytes in a burst. -/
def Model.burstLength (model : Model) (memory : Bool) : Nat :=
  if memory then model.memorySize else 8

/-- The places that a command names, in the order in which they are written. -/
def places (model : Model) (command : UInt8) : List Target :=
  let memory := bitAt command 6
  let address := command.toNat / 2 % 32
  if address = 31 then
    (List.range (model.burstLength memory)).map fun index => ⟨memory, true, index⟩
  else [⟨memory, false, address⟩]

namespace Contents

/-- The contents with a byte put in its place, as far as the model has it and it is not
protected. Of the control register only the bit that protects can be written, and that always. -/
def put (model : Model) (c : Contents) (place : Target) (b : UInt8) : Contents :=
  if place.memory then
    if c.registers.writeProtected ∨ model.memorySize ≤ place.index then c
    else { c with memory := c.memory.setIfInBounds place.index b }
  else if place.index = 7 then { c with registers := { c.registers with control := b &&& 0x80 } }
  else if c.registers.writeProtected ∨ place.index = 8 ∧ (place.burst ∨ model = .ds1202) then c
  else { c with registers := c.registers.set place.index b }

/-- The contents with bytes put in places, the first byte in the first place, as far as both
go. -/
def putAll (model : Model) (c : Contents) (places : List Target) (bytes : List UInt8) : Contents :=
  (places.zip bytes).foldl (fun c (place, b) => c.put model place b) c

/-- The contents behind a transfer of some bits. Nothing is written but behind a command with
bit 7 set and bit 0 clear. -/
def after (model : Model) (c : Contents) (bits : List Bool) : Contents :=
  match bytesOf bits with
  | [] => c
  | command :: data =>
    if bitAt command 7 ∧ ¬bitAt command 0 then c.putAll model (places model command) data else c

end Contents

/-! ## From lines to pulses -/

def pulses (r : Rtc) (bits : List Bool) : Rtc := bits.foldl pulse r

/-- The lines set again and again while the chip is enabled. -/
def drive (r : Rtc) (lines : List (Bool × Bool)) : Rtc :=
  lines.foldl (fun r (clock, data) => r.setLines true clock data) r

/-- The chip with other levels noted of the two lines from the host. -/
def withLines (r : Rtc) (clock data : Bool) : Rtc := { r with serialClock := clock, dataIn := data }

def withContents (r : Rtc) (c : Contents) : Rtc :=
  { r with registers := c.registers, memory := c.memory }

theorem store_eq (r : Rtc) (target : Target) (b : UInt8) :
    r.store target b = r.withContents (r.contents.put r.model target b) := by
  obtain ⟨memory, burst, index⟩ := target
  cases memory with
  | true =>
    rcases Nat.lt_or_ge index r.model.memorySize with hindex | hindex
    · cases hprotected : r.registers.writeProtected <;>
        simp [store, Contents.put, contents, withContents, hprotected, hindex,
          Nat.not_le.mpr hindex]
    · cases hprotected : r.registers.writeProtected <;>
        simp [store, Contents.put, contents, withContents, hprotected, hindex,
          Nat.not_lt.mpr hindex]
  | false =>
    by_cases hcontrol : index = 7
    · simp [store, Contents.put, contents, withContents, hcontrol, controlIndex, protectBit]
    · cases hprotected : r.registers.writeProtected <;>
        by_cases htrickle : index = 8 ∧ (burst = true ∨ r.model = .ds1202) <;>
          simp [store, Contents.put, contents, withContents, controlIndex, trickleIndex, hcontrol,
            hprotected, htrickle]

theorem store_withLines (r : Rtc) (clock data : Bool) (target : Target) (b : UInt8) :
    (r.withLines clock data).store target b = (r.store target b).withLines clock data := by
  rw [store_eq, store_eq]
  rfl

theorem obey_withLines (r : Rtc) (clock data : Bool) (command : Command) :
    (r.withLines clock data).obey command = (r.obey command).withLines clock data := by
  cases command with
  | none => rfl
  | write target => rfl
  | read target =>
    simp only [obey]
    split <;> rfl

/-- A pulse does not look at the levels noted. -/
theorem pulse_withLines (r : Rtc) (clock data bit : Bool) :
    (r.withLines clock data).pulse bit = (r.pulse bit).withLines clock data := by
  unfold pulse
  have same : (r.withLines clock data).transfer = r.transfer := rfl
  have next (r : Rtc) (target : Target) :
      (r.withLines clock data).next? target = r.next? target := rfl
  rw [same]
  cases r.transfer with
  | idle => rfl
  | ignoring => rfl
  | command bits count =>
    simp only []
    split
    · exact r.obey_withLines clock data _
    · rfl
  | receiving target bits count =>
    simp only [store_withLines, next]
    split
    · rfl
    · split <;> rfl
  | transmitting target bit' =>
    simp only [next]
    split
    · rfl
    · split <;> rfl

theorem pulses_withLines (r : Rtc) (clock data : Bool) (bits : List Bool) :
    (r.withLines clock data).pulses bits = (r.pulses bits).withLines clock data := by
  induction bits generalizing r with
  | nil => rfl
  | cons bit rest ih =>
    unfold pulses at ih ⊢
    rw [List.foldl_cons, pulse_withLines, ih]
    rfl

theorem obey_frame (r : Rtc) (command : Command) :
    (r.obey command).enable = r.enable ∧ (r.obey command).model = r.model ∧
      (r.obey command).contents = r.contents := by
  cases command with
  | none => exact ⟨rfl, rfl, rfl⟩
  | write target => exact ⟨rfl, rfl, rfl⟩
  | read target =>
    simp only [obey]
    split <;> exact ⟨rfl, rfl, rfl⟩

theorem pulse_frame (r : Rtc) (bit : Bool) :
    (r.pulse bit).enable = r.enable ∧ (r.pulse bit).model = r.model := by
  unfold pulse
  cases r.transfer with
  | idle => exact ⟨rfl, rfl⟩
  | ignoring => exact ⟨rfl, rfl⟩
  | command bits count =>
    simp only []
    split
    · exact ⟨(r.obey_frame _).1, (r.obey_frame _).2.1⟩
    · exact ⟨rfl, rfl⟩
  | receiving target bits count =>
    simp only [store_eq]
    split
    · exact ⟨rfl, rfl⟩
    · split <;> exact ⟨rfl, rfl⟩
  | transmitting target bit' =>
    simp only []
    split
    · exact ⟨rfl, rfl⟩
    · split <;> exact ⟨rfl, rfl⟩

/-- Setting the lines of an enabled chip is a pulse where the serial clock rises. -/
theorem setLines_enabled {r : Rtc} (h : r.enable = true) (clock data : Bool) :
    r.setLines true clock data =
      if clock && !r.serialClock then (r.pulse data).withLines clock data
      else r.withLines clock data := by
  rw [← pulse_withLines]
  simp only [setLines, h, bne_self_eq_false, Bool.false_eq_true, if_false, Bool.true_and]
  rw [← h]
  rfl

/-- An enabled chip takes the rising edges of the serial clock; of the rest it notes the levels. -/
theorem drive_eq {r : Rtc} (h : r.enable = true) (lines : List (Bool × Bool)) :
    ∃ clock data,
      r.drive lines = (r.pulses (sampled r.serialClock lines)).withLines clock data := by
  induction lines generalizing r with
  | nil => exact ⟨r.serialClock, r.dataIn, rfl⟩
  | cons line rest ih =>
    obtain ⟨clock, data⟩ := line
    show ∃ clock' data', (r.setLines true clock data).drive rest = _
    rw [setLines_enabled h]
    unfold sampled
    split
    · obtain ⟨clock', data', driven⟩ :=
        ih (r := (r.pulse data).withLines clock data) ((r.pulse_frame data).1.trans h)
      refine ⟨clock', data', ?_⟩
      rw [driven, pulses_withLines]
      rfl
    · obtain ⟨clock', data', driven⟩ := ih (r := r.withLines clock data) h
      refine ⟨clock', data', ?_⟩
      rw [driven, pulses_withLines]
      rfl

theorem contents_drive {r : Rtc} (h : r.enable = true) (lines : List (Bool × Bool)) :
    (r.drive lines).contents = (r.pulses (sampled r.serialClock lines)).contents := by
  obtain ⟨clock, data, driven⟩ := drive_eq h lines
  rw [driven]
  rfl

/-! ## From pulses to bytes -/

theorem pulses_append (r : Rtc) (bits more : List Bool) :
    r.pulses (bits ++ more) = (r.pulses bits).pulses more :=
  List.foldl_append

/-- Bits put above the `count` bits that came before them, one after another. -/
def addBits (byte : UInt8) (count : Nat) : List Bool → UInt8
  | [] => byte
  | bit :: rest => addBits (addBit byte count bit) (count + 1) rest

theorem addBits_eight : ∀ b₀ b₁ b₂ b₃ b₄ b₅ b₆ b₇ : Bool,
    addBit (addBits 0 0 [b₀, b₁, b₂, b₃, b₄, b₅, b₆]) 7 b₇ =
      byteOf [b₀, b₁, b₂, b₃, b₄, b₅, b₆, b₇] := by
  decide +kernel

/-- A state of the transfer in which bits come in, up to the seventh. -/
def Collects (state : UInt8 → Nat → Transfer) : Prop :=
  ∀ (r : Rtc) (byte : UInt8) (count : Nat) (bit : Bool), r.transfer = state byte count →
    count < 7 → r.pulse bit = { r with transfer := state (addBit byte count bit) (count + 1) }

theorem collects_command : Collects .command := by
  intro r byte count bit h hcount
  unfold pulse
  rw [h]
  simp only []
  rw [if_neg (by omega)]

theorem collects_receiving (target : Target) : Collects (.receiving target) := by
  intro r byte count bit h hcount
  unfold pulse
  rw [h]
  simp only []
  rw [if_pos hcount]

/-- As long as a byte is not complete its bits change nothing else. -/
theorem Collects.pulses {state : UInt8 → Nat → Transfer} (hs : Collects state) {r : Rtc}
    {byte : UInt8} {count : Nat} {bits : List Bool} (h : r.transfer = state byte count)
    (hlen : count + bits.length ≤ 7) :
    r.pulses bits =
      { r with transfer := state (addBits byte count bits) (count + bits.length) } := by
  induction bits generalizing r byte count with
  | nil =>
    show r = { r with transfer := state byte count }
    rw [← h]
  | cons bit rest ih =>
    rw [List.length_cons] at hlen
    have first := hs r byte count bit h (by omega)
    show (r.pulse bit).pulses rest = _
    rw [first, ih rfl (by omega), List.length_cons, Nat.add_right_comm, Nat.add_assoc]
    rfl

/-! ### The command -/

/-- The place that a command names first. -/
def firstPlace (command : UInt8) : Target :=
  let address := command.toNat / 2 % 32
  ⟨bitAt command 6, address = 31, if address = 31 then 0 else address⟩

theorem ofByte_eq (command : UInt8) :
    Command.ofByte command =
      if bitAt command 7 then
        if bitAt command 0 then .read (firstPlace command) else .write (firstPlace command)
      else .none := by
  -- The codes of the command byte are a table; there is nothing to say but to go through it.
  revert command
  refine forall_byte ?_
  decide +kernel

theorem obey_withTransfer (r : Rtc) (transfer : Transfer) (command : Command) :
    { r with transfer }.obey command = r.obey command := by
  cases command with
  | none => rfl
  | write target => rfl
  | read target =>
    simp only [obey]
    split <;> rfl

theorem pulses_command {r : Rtc} (h : r.transfer = .command 0 0) (b₀ b₁ b₂ b₃ b₄ b₅ b₆ b₇ : Bool) :
    r.pulses [b₀, b₁, b₂, b₃, b₄, b₅, b₆, b₇] =
      r.obey (.ofByte (byteOf [b₀, b₁, b₂, b₃, b₄, b₅, b₆, b₇])) := by
  have seven : r.pulses [b₀, b₁, b₂, b₃, b₄, b₅, b₆] =
      { r with transfer := .command (addBits 0 0 [b₀, b₁, b₂, b₃, b₄, b₅, b₆]) 7 } :=
    collects_command.pulses h (by simp)
  show (r.pulses [b₀, b₁, b₂, b₃, b₄, b₅, b₆]).pulse b₇ = _
  rw [seven, ← addBits_eight]
  exact r.obey_withTransfer _ _

/-! ### The data -/

/-- The places written from one on. -/
def Target.onward (model : Model) (t : Target) : List Target :=
  if t.burst then
    (List.range' t.index (model.burstLength t.memory - t.index)).map fun index => { t with index }
  else [t]

theorem places_eq (model : Model) (command : UInt8) :
    places model command = (firstPlace command).onward model := by
  unfold places firstPlace Target.onward
  by_cases hburst : command.toNat / 2 % 32 = 31
  · simp [hburst, List.range_eq_range']
  · simp [hburst]

/-- A place in a burst is one that the model has. -/
def Target.Within (model : Model) (t : Target) : Prop :=
  t.burst = true → t.index < model.burstLength t.memory

theorem firstPlace_within (model : Model) (command : UInt8) :
    (firstPlace command).Within model := by
  intro hburst
  unfold firstPlace at hburst ⊢
  simp only [decide_eq_true_eq] at hburst
  simp only [hburst, if_true]
  unfold Model.burstLength
  split
  · cases model <;> decide
  · decide

/-- One place is written behind another. -/
theorem onward_eq {r : Rtc} {t : Target} (h : t.Within r.model) :
    (∃ t', r.next? t = some t' ∧ t'.Within r.model ∧
      t.onward r.model = t :: t'.onward r.model) ∨
    (r.next? t = none ∧ t.onward r.model = [t]) := by
  obtain ⟨memory, burst, index⟩ := t
  have length : (if memory then r.model.memorySize else burstLength) =
      r.model.burstLength memory := rfl
  unfold next? Target.onward
  simp only [length]
  cases burst with
  | false => exact .inr ⟨by simp, rfl⟩
  | true =>
    have hindex : index < r.model.burstLength memory := h rfl
    obtain ⟨left, hleft⟩ := Nat.exists_eq_add_of_lt hindex
    have here : r.model.burstLength memory - index = left + 1 := by omega
    by_cases hnext : index + 1 < r.model.burstLength memory
    · refine .inl ⟨⟨memory, true, index + 1⟩, by simp [hnext], fun _ => hnext, ?_⟩
      have behind : r.model.burstLength memory - (index + 1) = left := by omega
      simp only [if_true, here, behind, List.range'_succ, List.map_cons]
    · have last : left = 0 := by omega
      refine .inr ⟨by simp [hnext], ?_⟩
      rw [here, last]
      rfl

/-- The eighth bit completes a byte, which goes to its place; then the next place is looked
for. -/
theorem pulse_complete {r : Rtc} {t : Target} {byte : UInt8} (h : r.transfer = .receiving t byte 7)
    (bit : Bool) :
    r.pulse bit =
      { r.withContents (r.contents.put r.model t (addBit byte 7 bit)) with
        transfer := match r.next? t with
          | some t' => .receiving t' 0 0
          | none => .ignoring } := by
  unfold pulse
  rw [h]
  simp only [Nat.lt_irrefl, if_false, store_eq]
  have next (c : Contents) : (r.withContents c).next? t = r.next? t := rfl
  rw [next]
  cases r.next? t <;> rfl

theorem pulses_byte {r : Rtc} {t : Target} (h : r.transfer = .receiving t 0 0)
    (b₀ b₁ b₂ b₃ b₄ b₅ b₆ b₇ : Bool) :
    r.pulses [b₀, b₁, b₂, b₃, b₄, b₅, b₆, b₇] =
      { r.withContents (r.contents.put r.model t (byteOf [b₀, b₁, b₂, b₃, b₄, b₅, b₆, b₇])) with
        transfer := match r.next? t with
          | some t' => .receiving t' 0 0
          | none => .ignoring } := by
  have seven : r.pulses [b₀, b₁, b₂, b₃, b₄, b₅, b₆] =
      { r with transfer := .receiving t (addBits 0 0 [b₀, b₁, b₂, b₃, b₄, b₅, b₆]) 7 } :=
    (collects_receiving t).pulses h (by simp)
  show (r.pulses [b₀, b₁, b₂, b₃, b₄, b₅, b₆]).pulse b₇ = _
  rw [seven, ← addBits_eight]
  exact pulse_complete rfl b₇

theorem pulses_ignoring {r : Rtc} (h : r.transfer = .ignoring) (bits : List Bool) :
    r.pulses bits = r := by
  induction bits with
  | nil => rfl
  | cons bit rest ih =>
    have still : r.pulse bit = r := by
      unfold pulse
      rw [h]
    show (r.pulse bit).pulses rest = r
    rw [still, ih]

theorem exists_eight {α : Type} {bits : List α} (h : ¬bits.length < 8) :
    ∃ b₀ b₁ b₂ b₃ b₄ b₅ b₆ b₇ rest, bits = b₀ :: b₁ :: b₂ :: b₃ :: b₄ :: b₅ :: b₆ :: b₇ :: rest := by
  rcases bits with _ | ⟨b₀, _ | ⟨b₁, _ | ⟨b₂, _ | ⟨b₃, _ | ⟨b₄, _ | ⟨b₅, _ | ⟨b₆, _ | ⟨b₇, rest⟩⟩⟩⟩⟩⟩⟩⟩
  case cons.cons.cons.cons.cons.cons.cons.cons => exact ⟨_, _, _, _, _, _, _, _, _, rfl⟩
  all_goals simp at h

theorem bytesOf_of_short {bits : List Bool} (h : bits.length < 8) : bytesOf bits = [] := by
  unfold bytesOf
  split
  · simp only [List.length_cons] at h
    omega
  · rfl

theorem bytesOf_cons (b₀ b₁ b₂ b₃ b₄ b₅ b₆ b₇ : Bool) (rest : List Bool) :
    bytesOf (b₀ :: b₁ :: b₂ :: b₃ :: b₄ :: b₅ :: b₆ :: b₇ :: rest) =
      byteOf [b₀, b₁, b₂, b₃, b₄, b₅, b₆, b₇] :: bytesOf rest := by
  rw [bytesOf]

/-- The bytes behind a command go to one place behind the other. -/
theorem pulses_receiving {r : Rtc} {t : Target} (h : r.transfer = .receiving t 0 0)
    (ht : t.Within r.model) (bits : List Bool) :
    (r.pulses bits).contents = r.contents.putAll r.model (t.onward r.model) (bytesOf bits) := by
  -- The induction takes a byte at a time; fewer than eight bits are never stored.
  induction hlen : bits.length using Nat.strongRecOn generalizing r t bits with
  | ind length ih =>
    by_cases hshort : bits.length < 8
    · rw [bytesOf_of_short hshort, (collects_receiving t).pulses h (by omega), Contents.putAll,
        List.zip_nil_right]
      rfl
    · obtain ⟨b₀, b₁, b₂, b₃, b₄, b₅, b₆, b₇, rest, rfl⟩ := exists_eight hshort
      have shorter : rest.length < length := by
        simp only [List.length_cons] at hlen
        omega
      show (r.pulses ([b₀, b₁, b₂, b₃, b₄, b₅, b₆, b₇] ++ rest)).contents = _
      rw [pulses_append, pulses_byte h, bytesOf_cons]
      rcases onward_eq ht with ⟨t', hnext, ht', honward⟩ | ⟨hnext, honward⟩
      · rw [hnext, honward]
        exact ih rest.length shorter (r := { r.withContents _ with transfer := .receiving t' 0 0 })
          rfl ht' rest rfl
      · rw [hnext, honward, pulses_ignoring rfl, Contents.putAll, List.zip_cons_cons,
          List.zip_nil_left]
        rfl

/-! ### The transfer -/

/-- While a byte is read, or a transfer ignored, nothing is written. -/
theorem contents_pulses_of_quiet {r : Rtc}
    (h : r.transfer = .ignoring ∨ ∃ t bit, r.transfer = .transmitting t bit) (bits : List Bool) :
    (r.pulses bits).contents = r.contents := by
  induction bits generalizing r with
  | nil => rfl
  | cons bit rest ih =>
    show ((r.pulse bit).pulses rest).contents = _
    rcases h with h | ⟨t, place, h⟩
    · have still : r.pulse bit = r := by
        unfold pulse
        rw [h]
      rw [still]
      exact ih (.inl h)
    · unfold pulse
      rw [h]
      simp only []
      split
      · exact ih (.inr ⟨_, _, rfl⟩)
      · split
        · exact ih (.inr ⟨_, _, rfl⟩)
        · exact ih (.inl rfl)

theorem contents_pulses {r : Rtc} (h : r.transfer = .command 0 0) (bits : List Bool) :
    (r.pulses bits).contents = r.contents.after r.model bits := by
  by_cases hshort : bits.length < 8
  · rw [Contents.after, bytesOf_of_short hshort, collects_command.pulses h (by omega)]
    rfl
  · obtain ⟨b₀, b₁, b₂, b₃, b₄, b₅, b₆, b₇, rest, rfl⟩ := exists_eight hshort
    show (r.pulses ([b₀, b₁, b₂, b₃, b₄, b₅, b₆, b₇] ++ rest)).contents = _
    rw [pulses_append, pulses_command h, Contents.after, bytesOf_cons]
    simp only []
    generalize byteOf [b₀, b₁, b₂, b₃, b₄, b₅, b₆, b₇] = command
    obtain ⟨-, -, hcontents⟩ := r.obey_frame (.ofByte command)
    rw [ofByte_eq] at hcontents ⊢
    -- Only a command to write leads to a state in which bytes are stored.
    cases hvalid : bitAt command 7 with
    | false =>
      rw [if_neg (by simp), if_neg (by simp)]
      exact contents_pulses_of_quiet (.inl rfl) rest
    | true =>
      cases hread : bitAt command 0 with
      | true =>
        simp only [hvalid, hread, if_true] at hcontents ⊢
        rw [contents_pulses_of_quiet (.inr ⟨_, _, rfl⟩), hcontents, if_neg (by simp)]
      | false =>
        simp only [if_true, Bool.false_eq_true, if_false]
        rw [if_pos (by simp), places_eq]
        exact pulses_receiving (r := { r with transfer := .receiving (firstPlace command) 0 0 }) rfl
          (firstPlace_within r.model command) rest

theorem contents_disable (r : Rtc) (clock data : Bool) :
    (r.setLines false clock data).contents = r.contents := by
  unfold setLines
  simp only [Bool.false_and, Bool.false_eq_true, if_false]
  split <;> rfl

/-- The line protocol comes to the protocol in bytes. From the rise of the enable line to its
fall, whatever the lines do in between, registers and memory are what the bytes clocked in make
of what they were. -/
theorem transfer_contents {r : Rtc} (hidle : r.enable = false) (clock data : Bool)
    (lines : List (Bool × Bool)) (clock' data' : Bool) :
    (((r.setLines true clock data).drive lines).setLines false clock' data').contents =
      r.contents.after r.model (sampled clock lines) := by
  -- A serial clock that is high as the enable line rises is noted and is no pulse.
  have risen : r.setLines true clock data =
      { r with
        enable := true
        serialClock := clock
        dataIn := data
        dataOut := false
        transfer := .command 0 0 } := by
    unfold setLines
    rw [hidle]
    rfl
  rw [contents_disable, risen, contents_drive rfl, contents_pulses rfl]
  rfl

/-- The lines of a host that sets them twice for every edge, and the data line anew where it does
not count. -/
def stuttered (bits : List Bool) : List (Bool × Bool) :=
  bits.flatMap fun bit => [(false, !bit), (false, bit), (true, bit), (true, !bit)]

/-- Two bytes for the memory, one after another, and three bits of a third, with the serial clock
high as the chip is enabled. -/
theorem transfer_contents_burst :
    (powerOn { model := .ds1202 }).enable = false ∧
      ((((powerOn { model := .ds1202 }).setLines true true true).drive
          (stuttered ([0xFE, 0xA5, 0x3C].flatMap (fun b => (List.range 8).map (bitAt b)) ++
            [true, true, true]))).setLines false false false).contents =
        ⟨.ofTime .initial false, (Vector.replicate 31 0).set 0 0xA5 |>.set 1 0x3C⟩ := by
  refine ⟨rfl, ?_⟩
  rw [transfer_contents rfl]
  decide +kernel

end C64.Rtc
