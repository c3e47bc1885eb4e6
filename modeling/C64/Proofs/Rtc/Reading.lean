import C64.Proofs.Rtc.Transfer
import C64.Rtc.Host
import Mathlib.Data.List.Basic
import Mathlib.Data.List.TakeDrop

/-!
# What a host sends and receives

A chip that is read has bits to send, one for each pulse that is still to come (`outgoing`). The
first of them is on the data line, and a pulse drops it (`Reading.pulse`). So what a host receives
is what was to be sent when the command had come in, and zeros behind it (`Reading.receive`).

Of a whole transfer, `contents_hostWrite` says where the bytes go that the host sends, and
`hostRead_eq` which bytes it receives.
-/

namespace C64.Rtc

/-! ## Bits of bytes -/

/-- The bits of a byte, the least significant first. -/
def bitsOf (b : UInt8) : List Bool := (List.range 8).map (bitAt b)

theorem length_bitsOf (b : UInt8) : (bitsOf b).length = 8 := rfl

theorem byteOf_bitsOf (b : UInt8) : byteOf (bitsOf b) = b := by
  revert b
  refine forall_byte ?_
  decide +kernel

theorem bytesOf_flatMap (bytes : List UInt8) : bytesOf (bytes.flatMap bitsOf) = bytes := by
  induction bytes with
  | nil => rfl
  | cons b rest ih =>
    rw [List.flatMap_cons]
    refine (bytesOf_cons _ _ _ _ _ _ _ _ _).trans ?_
    show byteOf (bitsOf b) :: bytesOf (rest.flatMap bitsOf) = b :: rest
    rw [byteOf_bitsOf, ih]

/-! ## What is still to be sent -/

/-- The bits that a chip is about to send, that on the data line included. -/
def outgoing (r : Rtc) : List Bool :=
  match r.transfer with
  | .transmitting t bit => ((t.onward r.model).flatMap fun t => bitsOf (r.load t)).drop bit
  | _ => []

/-- A chip that answers a command to read, or is done with it. -/
structure Reading (r : Rtc) : Prop where
  enable : r.enable = true
  transfer : r.transfer = .ignoring ∨ ∃ t bit, r.transfer = .transmitting t bit ∧ bit < 8 ∧
    t.Within r.model ∧ r.dataOut = bitAt (r.load t) bit

theorem drop_bitsOf (b : UInt8) {bit : Nat} (h : bit < 8) :
    (bitsOf b).drop bit = bitAt b bit :: (bitsOf b).drop (bit + 1) := by
  rw [List.drop_eq_getElem_cons (by rwa [length_bitsOf])]
  simp [bitsOf]

/-- The bits of a place come before those of the places behind it. -/
theorem flatMap_onward {r : Rtc} {t : Target} (h : t.Within r.model) (load : Target → UInt8) :
    (t.onward r.model).flatMap (fun t => bitsOf (load t)) =
      bitsOf (load t) ++ match r.next? t with
        | some t' => (t'.onward r.model).flatMap fun t => bitsOf (load t)
        | none => [] := by
  rcases onward_eq h with ⟨t', hnext, -, honward⟩ | ⟨hnext, honward⟩
  · rw [hnext, honward, List.flatMap_cons]
  · rw [hnext, honward, List.flatMap_cons, List.flatMap_nil]

theorem Reading.outgoing_eq {r : Rtc} (h : r.Reading) :
    r.outgoing = [] ∧ r.transfer = .ignoring ∨
      ∃ t bit, r.transfer = .transmitting t bit ∧ r.outgoing = r.dataOut :: r.outgoing.tail := by
  rcases h.transfer with ignoring | ⟨t, bit, transmitting, small, within, out⟩
  · exact .inl ⟨by rw [outgoing, ignoring], ignoring⟩
  · refine .inr ⟨t, bit, transmitting, ?_⟩
    rw [outgoing, transmitting]
    simp only []
    rw [flatMap_onward within, List.drop_append_of_le_length (by rw [length_bitsOf]; omega),
      drop_bitsOf _ small, out]
    rfl

/-- The host sees the bit that is sent next, or behind the last what it drives itself. -/
theorem Reading.dataLine {r : Rtc} (h : r.Reading) :
    r.dataLine = (r.outgoing.head?).getD r.dataIn := by
  unfold Rtc.dataLine
  rcases h.outgoing_eq with ⟨done, ignoring⟩ | ⟨t, bit, transmitting, more⟩
  · rw [done, ignoring]
    rfl
  · rw [more, transmitting]
    rfl

/-- A pulse drops the bit that was on the line. -/
theorem Reading.pulse {r : Rtc} (h : r.Reading) (level : Bool) :
    (r.pulse level).Reading ∧ (r.pulse level).outgoing = r.outgoing.tail ∧
      (r.pulse level).contents = r.contents := by
  rcases h.transfer with ignoring | ⟨t, bit, transmitting, small, within, out⟩
  · have still : r.pulse level = r := by
      unfold Rtc.pulse
      rw [ignoring]
    have none : r.outgoing = [] := by rw [outgoing, ignoring]
    rw [still, none]
    exact ⟨h, rfl, rfl⟩
  · have now : r.outgoing = ((t.onward r.model).flatMap fun t => bitsOf (r.load t)).drop bit := by
      rw [outgoing, transmitting]
    rw [now, List.tail_drop]
    by_cases last : bit < 7
    · have next : r.pulse level = r.present t (bit + 1) := by
        unfold Rtc.pulse
        rw [transmitting]
        exact if_pos last
      rw [next]
      exact ⟨⟨h.enable, .inr ⟨t, bit + 1, rfl, by omega, within, rfl⟩⟩, rfl, rfl⟩
    · obtain rfl : bit = 7 := by omega
      rw [flatMap_onward within, List.drop_append_of_le_length (Nat.le_refl 8),
        List.drop_eq_nil_of_le (Nat.le_refl 8), List.nil_append]
      rcases onward_eq within with ⟨t', hnext, within', -⟩ | ⟨hnext, -⟩
      · have next : r.pulse level = r.present t' 0 := by
          unfold Rtc.pulse
          rw [transmitting]
          simp only [Nat.lt_irrefl, if_false, hnext]
        rw [next, hnext]
        exact ⟨⟨h.enable, .inr ⟨t', 0, rfl, by decide, within', rfl⟩⟩, rfl, rfl⟩
      · have next : r.pulse level = { r with transfer := .ignoring } := by
          unfold Rtc.pulse
          rw [transmitting]
          simp only [Nat.lt_irrefl, if_false, hnext]
        rw [next, hnext]
        exact ⟨⟨h.enable, .inl rfl⟩, rfl, rfl⟩

/-- What the host notes of its lines is nothing to the answer. -/
theorem Reading.withLines {r : Rtc} (h : r.Reading) (clock data : Bool) :
    (r.withLines clock data).Reading ∧ (r.withLines clock data).outgoing = r.outgoing :=
  ⟨⟨h.enable, h.transfer⟩, rfl⟩

/-- The byte that is read from a place, zero where the model has none. -/
def Contents.peek (model : Model) (c : Contents) (place : Target) : UInt8 :=
  if place.memory then
    if place.index < model.memorySize then c.memory[place.index]?.getD 0 else 0
  else if place.index = 8 ∧ model = .ds1202 then 0
  else (c.registers.get? place.index).getD 0

theorem load_eq_peek {r : Rtc} {t : Target} (within : t.Within r.model)
    (held : t.burst → ¬t.memory → r.held = r.registers) :
    r.load t = r.contents.peek r.model t := by
  unfold load Contents.peek
  cases hmemory : t.memory with
  | true => rfl
  | false =>
    cases hburst : t.burst with
    | true =>
      have inside : t.index < r.model.burstLength t.memory := within hburst
      rw [hmemory] at inside
      have inside : t.index < 8 := inside
      simp [held hburst (by simp [hmemory]), contents, Nat.ne_of_lt inside]
    | false => rfl

theorem mem_onward {model : Model} {t t' : Target} (within : t.Within model)
    (h : t' ∈ t.onward model) : t'.Within model ∧ t'.memory = t.memory ∧ t'.burst = t.burst := by
  unfold Target.onward at h
  split at h
  · next burst =>
    obtain ⟨index, inside, rfl⟩ := List.mem_map.mp h
    have := within burst
    simp only [List.mem_range'_1] at inside
    exact ⟨fun _ => by show index < model.burstLength t.memory; omega, rfl, rfl⟩
  · obtain rfl := List.mem_singleton.mp h
    exact ⟨within, rfl, rfl⟩

/-- A chip that has its command to read is about to send the bytes of the places that it names, each
as it stands. -/
theorem reading_obey {r : Rtc} (enabled : r.enable = true) {command : UInt8}
    (valid : bitAt command 7) (read : bitAt command 0) :
    (r.obey (.ofByte command)).Reading ∧
      (r.obey (.ofByte command)).outgoing =
        ((places r.model command).map (r.contents.peek r.model)).flatMap bitsOf := by
  rw [ofByte_eq, if_pos valid, if_pos read, places_eq]
  have within := firstPlace_within r.model command
  generalize firstPlace command = t at within ⊢
  obtain ⟨r', answer, same, held⟩ : ∃ r' : Rtc, r.obey (.read t) = r'.present t 0 ∧
      (r'.enable = r.enable ∧ r'.model = r.model ∧ r'.contents = r.contents) ∧
        (t.burst → ¬t.memory → r'.held = r'.registers) := by
    unfold obey
    simp only []
    split
    · exact ⟨_, rfl, ⟨rfl, rfl, rfl⟩, fun _ _ => rfl⟩
    · next single => exact ⟨r, rfl, ⟨rfl, rfl, rfl⟩, fun burst place => by simp_all⟩
  obtain ⟨enable, model, contents⟩ := same
  rw [← model] at within
  rw [answer, ← contents, ← model]
  refine ⟨⟨enable.trans enabled, .inr ⟨t, 0, rfl, by decide, within, rfl⟩⟩, ?_⟩
  show (t.onward r'.model).flatMap (fun t => bitsOf (r'.load t)) = _
  rw [List.flatMap_map]
  refine List.flatMap_congr fun t' ht' => ?_
  obtain ⟨within', memory, burst⟩ := mem_onward within ht'
  rw [load_eq_peek within' (by rwa [memory, burst])]

/-! ## What the host receives -/

/-- The host takes the next bit to be sent, a zero behind the last. -/
theorem Reading.receiveBit {r : Rtc} (h : r.Reading) :
    r.receiveBit.1 = (r.outgoing.head?).getD false ∧ r.receiveBit.2.Reading ∧
      r.receiveBit.2.outgoing = r.outgoing.tail ∧ r.receiveBit.2.contents = r.contents := by
  have low : r.setLines true false false = r.withLines false false := by
    rw [setLines_enabled h.enable]
    rfl
  have high : (r.withLines false false).setLines true true false =
      ((r.withLines false false).pulse false).withLines true false := by
    rw [setLines_enabled (r := r.withLines false false) h.enable]
    rfl
  obtain ⟨noted, same⟩ := h.withLines false false
  obtain ⟨reading, less, contents⟩ := noted.pulse false
  unfold Rtc.receiveBit
  simp only []
  rw [low, high]
  refine ⟨noted.dataLine, (reading.withLines true false).1, ?_, contents⟩
  rw [(reading.withLines true false).2, less, same]

/-- The bits of a byte come in above those that came before. -/
theorem Reading.receiveBits {r : Rtc} (h : r.Reading) (b : UInt8) (first n : Nat) :
    ∃ r' : Rtc, (List.range' first n).foldl (fun (b, r) i => (addBit b i r.receiveBit.1,
        r.receiveBit.2)) (b, r) =
          (addBits b first (r.outgoing.takeD n false), r') ∧
      r'.Reading ∧ r'.outgoing = r.outgoing.drop n ∧ r'.contents = r.contents := by
  induction n generalizing r b first with
  | zero => exact ⟨r, rfl, h, rfl, rfl⟩
  | succ n ih =>
    obtain ⟨bit, reading, less, contents⟩ := h.receiveBit
    obtain ⟨r', received, reading', less', contents'⟩ :=
      ih reading (addBit b first r.receiveBit.1) (first + 1)
    refine ⟨r', ?_, reading', ?_, contents'.trans contents⟩
    · rw [List.range'_succ, List.foldl_cons, received, bit, less, List.takeD_succ]
      rfl
    · rw [less', less, List.drop_tail]

theorem addBits_byteOf {bits : List Bool} (h : bits.length = 8) :
    addBits 0 0 bits = byteOf bits := by
  obtain ⟨b₀, b₁, b₂, b₃, b₄, b₅, b₆, b₇, rest, rfl⟩ := exists_eight (by omega : ¬bits.length < 8)
  obtain rfl : rest = [] := by simpa using h
  exact addBits_eight b₀ b₁ b₂ b₃ b₄ b₅ b₆ b₇

theorem Reading.receiveByte {r : Rtc} (h : r.Reading) :
    r.receiveByte.1 = byteOf (r.outgoing.takeD 8 false) ∧ r.receiveByte.2.Reading ∧
      r.receiveByte.2.outgoing = r.outgoing.drop 8 ∧
      r.receiveByte.2.contents = r.contents := by
  obtain ⟨r', received, reading, less, contents⟩ := h.receiveBits 0 0 8
  have all : r.receiveByte = (byteOf (r.outgoing.takeD 8 false), r') := by
    rw [← addBits_byteOf (List.takeD_length ..)]
    exact received
  rw [all]
  exact ⟨rfl, reading, less, contents⟩

/-- The host receives the bytes that were to be sent, and zeros behind them. -/
theorem Reading.receive {r : Rtc} (h : r.Reading) {bytes : List UInt8}
    (hbytes : r.outgoing = bytes.flatMap bitsOf) (n : Nat) :
    (r.receive n).1 = bytes.takeD n 0 ∧
      (r.receive n).2.contents = r.contents := by
  induction n generalizing r bytes with
  | zero => exact ⟨rfl, rfl⟩
  | succ n ih =>
    obtain ⟨byte, reading, less, contents⟩ := h.receiveByte
    rw [hbytes] at byte less
    unfold Rtc.receive
    simp only []
    cases bytes with
    | nil =>
      obtain ⟨rest, same⟩ := ih reading (show _ = ([] : List UInt8).flatMap bitsOf from less)
      refine ⟨?_, same.trans contents⟩
      rw [rest, byte]
      rfl
    | cons b bytes =>
      have first : ((b :: bytes).flatMap bitsOf).takeD 8 false = bitsOf b := rfl
      have behind : ((b :: bytes).flatMap bitsOf).drop 8 = bytes.flatMap bitsOf := rfl
      rw [first, byteOf_bitsOf] at byte
      rw [behind] at less
      obtain ⟨rest, same⟩ := ih reading less
      refine ⟨?_, same.trans contents⟩
      rw [rest, byte]
      rfl

/-! ## What the host sends -/

/-- The lines on which the host sends bits. -/
def hostLines (bits : List Bool) : List (Bool × Bool) :=
  bits.flatMap fun bit => [(false, bit), (true, bit)]

theorem sampled_hostLines (level : Bool) (bits : List Bool) :
    sampled level (hostLines bits) = bits := by
  induction bits generalizing level with
  | nil => rfl
  | cons bit rest ih =>
    show sampled level ((false, bit) :: (true, bit) :: hostLines rest) = _
    simp only [sampled, Bool.false_and, Bool.false_eq_true, if_false, Bool.not_false, Bool.and_self,
      if_true, ih]

theorem sendByte_eq (r : Rtc) (b : UInt8) : r.sendByte b = r.drive (hostLines (bitsOf b)) := rfl

theorem send_eq (r : Rtc) (bytes : List UInt8) :
    r.send bytes = r.drive (hostLines (bytes.flatMap bitsOf)) := by
  induction bytes generalizing r with
  | nil => rfl
  | cons b rest ih =>
    show (r.sendByte b).send rest = _
    rw [ih, sendByte_eq]
    unfold drive hostLines
    rw [List.flatMap_cons, List.flatMap_append, List.foldl_append]

/-- However the lines stood, a chip that is selected waits for a command. -/
theorem select_eq (r : Rtc) :
    r.select = { r with
      enable := true, serialClock := false, dataIn := false, dataOut := false,
      transfer := .command 0 0 } := by
  unfold select setLines
  cases r.enable <;> rfl

/-- A transfer that sends bytes puts the data in the places that the command names. -/
theorem contents_hostWrite (r : Rtc) (command : UInt8) (data : List UInt8) :
    (r.hostWrite (command :: data)).contents =
      if bitAt command 7 ∧ ¬bitAt command 0 then
        r.contents.putAll r.model (places r.model command) data
      else r.contents := by
  have selected := r.select_eq
  unfold hostWrite deselect
  rw [contents_disable, send_eq, contents_drive (by rw [selected]), sampled_hostLines,
    contents_pulses (by rw [selected]), Contents.after, bytesOf_flatMap, selected]
  rfl

/-- A transfer that reads answers the bytes in the places that the command names, and zeros behind
them. -/
theorem hostRead_eq (r : Rtc) {command : UInt8} (valid : bitAt command 7) (read : bitAt command 0)
    (n : Nat) :
    (r.hostRead command n).1 =
        ((places r.model command).map (r.contents.peek r.model)).takeD n 0 ∧
      (r.hostRead command n).2.contents = r.contents := by
  have selected := r.select_eq
  obtain ⟨clock, data, driven⟩ := drive_eq (r := r.select) (by rw [selected])
    (hostLines (bitsOf command))
  have taken : r.select.pulses (bitsOf command) = r.select.obey (.ofByte command) := by
    refine (pulses_command (by rw [selected]) _ _ _ _ _ _ _ _).trans ?_
    exact congrArg (fun b => r.select.obey (.ofByte b)) (byteOf_bitsOf command)
  obtain ⟨reading, bits⟩ :=
    reading_obey (r := r.select) (by rw [selected]) valid read
  obtain ⟨noted, same⟩ := reading.withLines clock data
  have begun : r.select.sendByte command =
      (r.select.obey (.ofByte command)).withLines clock data := by
    rw [sendByte_eq, driven, sampled_hostLines, taken]
  obtain ⟨received, kept⟩ := noted.receive (same.trans bits) n
  have selected' : r.select.model = r.model ∧ r.select.contents = r.contents := by
    rw [selected]
    exact ⟨rfl, rfl⟩
  unfold hostRead deselect
  simp only []
  rw [begun, contents_disable, received, kept, selected'.1, selected'.2]
  exact ⟨rfl, (r.select.obey_frame _).2.2.trans selected'.2⟩

end C64.Rtc
