import C64.Proofs.Rtc.Reading

/-!
# What was written is read

A host writes to a chip and reads the same places, with no second in between. For each kind of
command it gets back what it wrote, as far as the chip has a place for it, and nothing else has
changed: bytes of the memory in a burst (`memory_burst`) and alone (`memory_single`), the registers
in a burst (`registers_burst`) and alone (`register_single`). `writes_read_back` is all four, for a
chip that may have been left in the middle of anything.
-/

namespace C64.Rtc

/-! ## Commands -/

/-- The command byte for an address; 31 is that of a burst. -/
def commandAt (memory : Bool) (address : Nat) (read : Bool) : UInt8 :=
  (if memory then (0xC0 : UInt8) else 0x80) ||| address.toUInt8 <<< 1 ||| bitByte read

theorem commandAt_bits (memory : Bool) {address : Nat} (h : address < 32) (read : Bool) :
    bitAt (commandAt memory address read) 7 = true ∧
      bitAt (commandAt memory address read) 0 = read ∧
      bitAt (commandAt memory address read) 6 = memory ∧
      (commandAt memory address read).toNat / 2 % 32 = address := by
  have all : ∀ memory, ∀ address : Fin 32, ∀ read,
      bitAt (commandAt memory address read) 7 = true ∧
        bitAt (commandAt memory address read) 0 = read ∧
        bitAt (commandAt memory address read) 6 = memory ∧
        (commandAt memory address read).toNat / 2 % 32 = address := by
    decide
  exact all memory ⟨address, h⟩ read

/-- The places that an address stands for. -/
def placesAt (model : Model) (memory : Bool) (address : Nat) : List Target :=
  if address = 31 then
    (List.range (model.burstLength memory)).map fun index => ⟨memory, true, index⟩
  else [⟨memory, false, address⟩]

theorem places_commandAt (model : Model) (memory : Bool) {address : Nat} (h : address < 32)
    (read : Bool) :
    places model (commandAt memory address read) = placesAt model memory address := by
  obtain ⟨-, -, hmemory, haddress⟩ := commandAt_bits memory h read
  unfold places placesAt
  rw [hmemory, haddress]

theorem setLines_model (r : Rtc) (enable serialClock data : Bool) :
    (r.setLines enable serialClock data).model = r.model := by
  unfold setLines
  simp only []
  split
  · rfl
  · split
    · exact (pulse_frame _ data).2
    · rfl

theorem drive_model (r : Rtc) (lines : List (Bool × Bool)) : (r.drive lines).model = r.model := by
  induction lines generalizing r with
  | nil => rfl
  | cons line rest ih => exact (ih _).trans (r.setLines_model _ _ _)

theorem hostWrite_model (r : Rtc) (bytes : List UInt8) : (r.hostWrite bytes).model = r.model := by
  unfold hostWrite deselect
  rw [setLines_model, send_eq, drive_model, select_eq]

/-- A transfer that writes and one that reads the same address. -/
theorem exchange (r : Rtc) (memory : Bool) {address : Nat} (h : address < 32) (data : List UInt8)
    (n : Nat) :
    ∃ s, r.hostWrite (commandAt memory address false :: data) = s ∧ s.model = r.model ∧
      s.contents = r.contents.putAll r.model (placesAt r.model memory address) data ∧
      (s.hostRead (commandAt memory address true) n).1 =
        ((placesAt r.model memory address).map (s.contents.peek r.model)).takeD n 0 := by
  obtain ⟨valid, write, -⟩ := commandAt_bits memory h false
  obtain ⟨valid', read, -⟩ := commandAt_bits memory h true
  refine ⟨_, rfl, r.hostWrite_model _, ?_, ?_⟩
  · rw [contents_hostWrite, if_pos ⟨valid, by simp [write]⟩, places_commandAt _ _ h]
  · rw [(hostRead_eq _ valid' read n).1, places_commandAt _ _ h, hostWrite_model]

/-! ## The memory -/

theorem memorySize_le (model : Model) : model.memorySize ≤ 31 := by cases model <;> decide

namespace Contents

variable {model : Model} {c : Contents}

theorem putAll_cons (place : Target) (places : List Target) (b : UInt8) (rest : List UInt8) :
    c.putAll model (place :: places) (b :: rest) = (c.put model place b).putAll model places rest :=
  rfl

theorem put_memory (unlocked : c.registers.writeProtected = false) (burst : Bool) {index : Nat}
    (inside : index < model.memorySize) (b : UInt8) :
    c.put model ⟨true, burst, index⟩ b = { c with memory := c.memory.setIfInBounds index b } := by
  unfold put
  simp [unlocked, Nat.not_le.mpr inside]

/-- Bytes that go to the memory one behind the other, as far as places and bytes both go. -/
theorem putAll_memory (unlocked : c.registers.writeProtected = false) {first count : Nat}
    (fits : first + count ≤ model.memorySize) (bytes : List UInt8) :
    let c' := c.putAll model ((List.range' first count).map fun i => ⟨true, true, i⟩) bytes
    c'.registers = c.registers ∧ ∀ i, c'.memory[i]? =
      if first ≤ i ∧ i < first + count ∧ i < first + bytes.length then bytes[i - first]?
      else c.memory[i]? := by
  induction count generalizing first c bytes with
  | zero => exact ⟨rfl, fun i => by rw [if_neg (by omega)]; rfl⟩
  | succ count ih =>
    cases bytes with
    | nil => exact ⟨rfl, fun i => by rw [if_neg (by simp; omega)]; rfl⟩
    | cons b rest =>
      have size := memorySize_le model
      obtain ⟨registers, memory⟩ := ih (c := { c with memory := c.memory.setIfInBounds first b })
        unlocked (by omega : first + 1 + count ≤ model.memorySize) rest
      have begun : c.putAll model ((List.range' first (count + 1)).map fun i => ⟨true, true, i⟩)
          (b :: rest) =
            ({ c with memory := c.memory.setIfInBounds first b } : Contents).putAll model
              ((List.range' (first + 1) count).map fun i => ⟨true, true, i⟩) rest := by
        rw [List.range'_succ, List.map_cons, putAll_cons, put_memory unlocked true (by omega)]
      rw [begun]
      refine ⟨registers, fun i => ?_⟩
      rw [memory, Vector.getElem?_setIfInBounds, List.length_cons]
      obtain before | rfl | behind := Nat.lt_trichotomy i first
      · rw [if_neg (by omega), if_neg (by omega), if_neg (by omega)]
      · rw [if_neg (by omega), if_pos rfl, if_pos (by omega), if_pos (by omega), Nat.sub_self]
        rfl
      · obtain ⟨offset, rfl⟩ := Nat.exists_eq_add_of_lt behind
        by_cases within : first + offset + 1 < first + 1 + count ∧ offset < rest.length
        · have later : first + offset + 1 - (first + 1) = offset := by omega
          have place : first + offset + 1 - first = offset + 1 := by omega
          rw [if_pos (by omega), if_pos (by omega), later, place, List.getElem?_cons_succ]
        · rw [if_neg (by omega), if_neg (by omega), if_neg (by omega)]

theorem map_peek_memory :
    ((List.range model.memorySize).map fun i => (⟨true, true, i⟩ : Target)).map (c.peek model) =
      c.memory.toList.take model.memorySize := by
  have size := memorySize_le model
  refine List.ext_getElem? fun i => ?_
  rw [List.getElem?_take]
  by_cases inside : i < model.memorySize
  · simp [inside, peek, Nat.lt_of_lt_of_le inside size]
  · simp [inside]

end Contents

variable (r : Rtc)

/-- A burst leaves the bytes that were sent, as many as the memory has, and behind them what stood
there. -/
theorem memory_burst (unlocked : r.registers.writeProtected = false) (bytes : List UInt8)
    (n : Nat) :
    let r' := r.hostWrite (commandAt true 31 false :: bytes)
    let kept := bytes.take r.model.memorySize ++ r.memoryBytes.drop bytes.length
    r'.memoryBytes = kept ∧ r'.registers = r.registers ∧
      (r'.hostRead (commandAt true 31 true) n).1 = kept.takeD n 0 := by
  intro r' kept
  obtain ⟨s, same, model, contents, read⟩ := exchange r true (by decide : 31 < 32) bytes n
  rw [show r' = s from same]
  have all : placesAt r.model true 31 =
      (List.range' 0 r.model.memorySize).map fun i => ⟨true, true, i⟩ := by
    rw [← List.range_eq_range']
    rfl
  rw [all] at contents read
  obtain ⟨registers, memory⟩ := Contents.putAll_memory (c := r.contents) unlocked
    (by omega : 0 + r.model.memorySize ≤ r.model.memorySize) bytes
  rw [← contents] at registers memory
  have whole : (s.contents.memory.toList.take r.model.memorySize) = s.memoryBytes := by
    rw [memoryBytes, model]
    rfl
  have bytes_eq : s.memoryBytes = kept := by
    have size := memorySize_le r.model
    refine List.ext_getElem? fun i => ?_
    rw [← whole, List.getElem?_take, Vector.getElem?_toList, memory i, List.getElem?_append,
      List.getElem?_take, List.length_take, List.getElem?_drop, memoryBytes, List.getElem?_take,
      Vector.getElem?_toList]
    obtain inside | outside := Nat.lt_or_ge i r.model.memorySize
    · obtain new | old := Nat.lt_or_ge i bytes.length
      · rw [if_pos inside, if_pos (by omega), if_pos (by omega), if_pos inside, Nat.sub_zero]
      · have here : bytes.length + (i - min r.model.memorySize bytes.length) = i := by omega
        rw [if_pos inside, if_neg (by omega), if_neg (by omega), here, if_pos inside]
        rfl
    · rw [if_neg (by omega), if_neg (by omega), if_neg (by omega)]
  refine ⟨bytes_eq, registers, ?_⟩
  rw [read, ← List.range_eq_range', Contents.map_peek_memory, whole, bytes_eq]

/-- A byte alone goes to its place and to no other. -/
theorem memory_single (unlocked : r.registers.writeProtected = false) {address : Nat}
    (inside : address < r.model.memorySize) (b : UInt8) (n : Nat) :
    let r' := r.hostWrite [commandAt true address false, b]
    r'.memoryBytes = r.memoryBytes.set address b ∧ r'.registers = r.registers ∧
      (r'.hostRead (commandAt true address true) n).1 = [b].takeD n 0 := by
  intro r'
  have size := memorySize_le r.model
  obtain ⟨s, same, model, contents, read⟩ := exchange r true (by omega : address < 32) [b] n
  rw [show r' = s from same]
  have one : placesAt r.model true address = [⟨true, false, address⟩] := if_neg (by omega)
  rw [one] at contents read
  have contents : s.contents = { r.contents with memory := r.memory.setIfInBounds address b } :=
    contents.trans (Contents.put_memory (c := r.contents) unlocked false inside b)
  refine ⟨?_, congrArg Contents.registers contents, ?_⟩
  · have memory : s.memory = r.memory.setIfInBounds address b := congrArg Contents.memory contents
    unfold memoryBytes
    rw [model, memory, Vector.toList_setIfInBounds, List.take_set]
  · have back : s.contents.peek r.model ⟨true, false, address⟩ = b := by
      rw [contents]
      simp [Contents.peek, inside, Nat.lt_of_lt_of_le inside size]
    rw [read, List.map_singleton, back]

/-! ## The registers -/

/-- What a register takes of a byte, zero where the model has none. -/
def taken (model : Model) (address : Nat) (b : UInt8) : UInt8 :=
  if address < 7 then b
  else if address = 7 then b &&& protectBit
  else if address = 8 ∧ model = .ds1302 then b
  else 0

namespace Contents

variable {model : Model} {c : Contents}

theorem put_time (unlocked : c.registers.writeProtected = false) (burst : Bool) {index : Nat}
    (time : index < 7) (b : UInt8) :
    c.put model ⟨false, burst, index⟩ b = { c with registers := c.registers.set index b } := by
  have notControl : index ≠ 7 ∧ index ≠ 8 := by omega
  simp [put, unlocked, notControl]

theorem writeProtected_set (registers : Registers) {index : Nat} (time : index < 7) (b : UInt8) :
    (registers.set index b).writeProtected = registers.writeProtected := by
  match index, time with
  | 0, _ | 1, _ | 2, _ | 3, _ | 4, _ | 5, _ | 6, _ => rfl

/-- A register takes what it keeps, and no other changes. -/
theorem put_register (unlocked : c.registers.writeProtected = false) (address : Nat) (b : UInt8) :
    ∃ registers, c.put model ⟨false, false, address⟩ b = { c with registers } ∧
      (∀ i, i ≠ address → registers.get? i = c.registers.get? i) ∧
      ({ c with registers } : Contents).peek model ⟨false, false, address⟩ =
        taken model address b := by
  have set (small : address < 9) (b : UInt8) : ∀ i, i ≠ address →
      (c.registers.set address b).get? i = c.registers.get? i := fun i other => by
    rw [c.registers.get?_set small, if_neg (Ne.symm other)]
  have here (small : address < 9) (b : UInt8) :
      (c.registers.set address b).get? address = some b := by
    rw [c.registers.get?_set small, if_pos rfl]
  obtain time | rfl | rfl | beyond : address < 7 ∨ address = 7 ∨ address = 8 ∨ 9 ≤ address := by
    omega
  · refine ⟨c.registers.set address b, put_time unlocked false time b, set (by omega) b, ?_⟩
    have notTrickle : address ≠ 8 := by omega
    simp [peek, taken, time, notTrickle, here (by omega) b]
  · exact ⟨c.registers.set 7 (b &&& protectBit), rfl, set (by decide) _, rfl⟩
  · cases model with
    | ds1302 =>
      refine ⟨c.registers.set 8 b, ?_, set (by decide) b, rfl⟩
      simp [put, unlocked]
    | ds1202 =>
      refine ⟨c.registers, ?_, fun _ _ => rfl, rfl⟩
      simp [put]
  · -- There is no register: nothing is kept, and zero is read.
    obtain ⟨index, rfl⟩ := Nat.exists_eq_add_of_le' beyond
    refine ⟨c.registers, ?_, fun _ _ => rfl, ?_⟩
    · simp [put, unlocked, Registers.set]
    · have notTime : ¬index + 9 < 7 := by omega
      simp [peek, taken, notTime, Registers.get?]

/-- None of the registers of the time protects, so that one goes after the other. -/
theorem putAll_times (unlocked : c.registers.writeProtected = false) {indices : List Nat}
    (times : ∀ i ∈ indices, i < 7) (bytes : List UInt8) :
    c.putAll model (indices.map fun i => ⟨false, true, i⟩) bytes =
      { c with
        registers := (indices.zip bytes).foldl (fun registers (i, b) => registers.set i b)
          c.registers } := by
  induction indices generalizing c bytes with
  | nil => rfl
  | cons i indices ih =>
    cases bytes with
    | nil => rfl
    | cons b bytes =>
      have time : i < 7 := times i (.head indices)
      have still : (c.registers.set i b).writeProtected = false :=
        (writeProtected_set c.registers time b).trans unlocked
      rw [List.map_cons, putAll_cons, put_time unlocked true time,
        ih (c := { c with registers := c.registers.set i b }) still
          fun j hj => times j (.tail i hj)]
      rfl

theorem putAll_registers (unlocked : c.registers.writeProtected = false)
    (b₀ b₁ b₂ b₃ b₄ b₅ b₆ control : UInt8) :
    c.putAll model (placesAt model false 31) [b₀, b₁, b₂, b₃, b₄, b₅, b₆, control] =
      { c with
        registers :=
          ⟨b₀, b₁, b₂, b₃, b₄, b₅, b₆, control &&& protectBit, c.registers.trickle⟩ } := by
  -- The control register comes last, and may protect only then.
  show (c.putAll model ((List.range 7).map fun i => ⟨false, true, i⟩)
    [b₀, b₁, b₂, b₃, b₄, b₅, b₆]).put model ⟨false, true, 7⟩ control = _
  rw [putAll_times unlocked fun i hi => List.mem_range.mp hi]
  rfl

end Contents

/-- A burst of eight bytes sets the registers of the time and the bit that protects. -/
theorem registers_burst (unlocked : r.registers.writeProtected = false) {bytes : List UInt8}
    (eight : bytes.length = 8) (n : Nat) :
    let r' := r.hostWrite (commandAt false 31 false :: bytes)
    let kept := bytes.modify 7 (· &&& protectBit)
    r'.registers.toList = kept ++ [r.registers.trickle] ∧ r'.memory = r.memory ∧
      (r'.hostRead (commandAt false 31 true) n).1 = kept.takeD n 0 := by
  intro r' kept
  obtain ⟨s, same, model, contents, read⟩ := exchange r false (by decide : 31 < 32) bytes n
  rw [show r' = s from same]
  obtain ⟨b₀, b₁, b₂, b₃, b₄, b₅, b₆, control, rest, rfl⟩ :=
    exists_eight (by omega : ¬bytes.length < 8)
  obtain rfl : rest = [] := by simpa using eight
  have contents := contents.trans
    (Contents.putAll_registers (c := r.contents) unlocked b₀ b₁ b₂ b₃ b₄ b₅ b₆ control)
  refine ⟨?_, congrArg Contents.memory contents, ?_⟩
  · have registers := congrArg Contents.registers contents
    rw [show s.registers = _ from registers]
    rfl
  · rw [read, contents]
    cases r.model <;> rfl

/-- A register alone takes what it keeps of a byte, and no other changes. -/
theorem register_single (unlocked : r.registers.writeProtected = false) {address : Nat}
    (single : address ≤ 30) (b : UInt8) (n : Nat) :
    let r' := r.hostWrite [commandAt false address false, b]
    (∀ i, i ≠ address → r'.registers.get? i = r.registers.get? i) ∧ r'.memory = r.memory ∧
      (r'.hostRead (commandAt false address true) n).1 = [taken r.model address b].takeD n 0 := by
  intro r'
  obtain ⟨s, same, model, contents, read⟩ := exchange r false (by omega : address < 32) [b] n
  rw [show r' = s from same]
  have one : placesAt r.model false address = [⟨false, false, address⟩] := if_neg (by omega)
  rw [one] at contents read
  obtain ⟨registers, put, others, back⟩ :=
    @Contents.put_register r.model r.contents unlocked address b
  have contents : s.contents = { r.contents with registers } := contents.trans put
  refine ⟨fun i other => ?_, congrArg Contents.memory contents, ?_⟩
  · rw [show s.registers = registers from congrArg Contents.registers contents]
    exact others i other
  · rw [read, contents, List.map_singleton, back]

/-! ## All four -/

/-- On a chip that is not protected, whatever its lines went through before, the host reads what it
wrote. The reading may ask for any number of bytes; behind those of the places it gets zeros. -/
theorem writes_read_back (unlocked : r.registers.writeProtected = false) :
    (∀ bytes n,
      let r' := r.hostWrite (commandAt true 31 false :: bytes)
      let kept := bytes.take r.model.memorySize ++ r.memoryBytes.drop bytes.length
      r'.memoryBytes = kept ∧ r'.registers = r.registers ∧
        (r'.hostRead (commandAt true 31 true) n).1 = kept.takeD n 0) ∧
    (∀ address, address < r.model.memorySize → ∀ b n,
      let r' := r.hostWrite [commandAt true address false, b]
      r'.memoryBytes = r.memoryBytes.set address b ∧ r'.registers = r.registers ∧
        (r'.hostRead (commandAt true address true) n).1 = [b].takeD n 0) ∧
    (∀ bytes, bytes.length = 8 → ∀ n,
      let r' := r.hostWrite (commandAt false 31 false :: bytes)
      let kept := bytes.modify 7 (· &&& protectBit)
      r'.registers.toList = kept ++ [r.registers.trickle] ∧ r'.memory = r.memory ∧
        (r'.hostRead (commandAt false 31 true) n).1 = kept.takeD n 0) ∧
    (∀ address, address ≤ 30 → ∀ b n,
      let r' := r.hostWrite [commandAt false address false, b]
      (∀ i, i ≠ address → r'.registers.get? i = r.registers.get? i) ∧ r'.memory = r.memory ∧
        (r'.hostRead (commandAt false address true) n).1 = [taken r.model address b].takeD n 0) :=
  ⟨r.memory_burst unlocked, fun _ inside => r.memory_single unlocked inside,
    fun _ eight => r.registers_burst unlocked eight,
    fun _ single => r.register_single unlocked single⟩

/-- A chip that was left in the middle of a byte takes twenty-five bytes, one more than its memory
has, and then the bit that protects. -/
theorem writes_read_back_interrupted :
    let r := ((powerOn { model := .ds1202 }).select.sendByte 0x8E).sendBit true
    let bytes := (List.range 25).map UInt8.ofNat
    r.registers.writeProtected = false ∧
      ((r.hostWrite (0xFE :: bytes)).hostRead 0xFF 25).1 = bytes.take 24 ++ [0] ∧
      ((r.hostWrite [0x8E, 0xFF]).hostRead 0x8F 1).1 = [0x80] := by
  intro r bytes
  have unlocked : r.registers.writeProtected = false := by decide +kernel
  obtain ⟨burst, -, -, single⟩ := r.writes_read_back unlocked
  refine ⟨unlocked, (burst bytes 25).2.2.trans ?_, (single 7 (by decide) 0xFF 1).2.2⟩
  decide +kernel

end C64.Rtc
