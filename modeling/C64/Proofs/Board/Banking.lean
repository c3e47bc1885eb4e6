import C64.Proofs.Board.Controls
import C64.Proofs.Board.Running

/-!
# The memory under its banks

What the processor sees of the memory changes with every write to its port. Underneath, the bytes
behave like an array all the same. `Memory.flat` forgets the banks, `Flat.act` is what an access
makes of the array, and every run of accesses on a board does to the memory what it does to the
array (`Board.run_flat`). What a read shows follows from array, port and ROMs by the table of the
three lines that select the banks (`Port.table`), which reads, writes and the window of the chips
go by alike (`Port.region_eq`).
-/

namespace C64

/-! ## What the port selects -/

namespace Port

/-- The level of a line: what was written if the line is an output, and high if nothing drives
it. -/
def level (p : Port) (line : Nat) : Bool :=
  if bitAt p.direction line then bitAt p.data line else true

/-- What shows in the banks from `$A000`, `$D000` and `$E000` on. -/
def table (charen hiram loram : Bool) : Region × Region × Region :=
  match charen, hiram, loram with
  | true, true, true => (.basic, .chips, .kernal)
  | true, true, false => (.memory, .chips, .kernal)
  | true, false, true => (.memory, .chips, .memory)
  | false, true, true => (.basic, .character, .kernal)
  | false, true, false => (.memory, .character, .kernal)
  | false, false, true => (.memory, .character, .memory)
  | _, false, false => (.memory, .memory, .memory)

/-- What shows at an address, by the table. -/
def mapped (p : Port) (address : UInt16) : Region :=
  let banks := table (p.level 2) (p.level 1) (p.level 0)
  if address < 0xA000 then .memory
  else if address < 0xC000 then banks.1
  else if address < 0xD000 then .memory
  else if address < 0xE000 then banks.2.1
  else banks.2.2

/-- The three lines that select the banks are pulled up. -/
theorem bitAt_lines (p : Port) {line : Nat} (selects : line < 3) :
    bitAt p.lines line = p.level line := by
  have pulled : ∀ line < 3, bitAt pullUps line = true := by decide
  unfold lines level
  rw [bitAt_or, bitAt_and, bitAt_and, bitAt_not _ (by omega), pulled line selects]
  cases bitAt p.direction line <;> simp

theorem loram_eq (p : Port) : p.loram = p.level 0 := by
  rw [← p.bitAt_lines (by decide)]
  exact Keyboard.anyBit_columnBit p.lines (show 0 < 8 by decide)

theorem hiram_eq (p : Port) : p.hiram = p.level 1 := by
  rw [← p.bitAt_lines (by decide)]
  exact Keyboard.anyBit_columnBit p.lines (show 1 < 8 by decide)

theorem charen_eq (p : Port) : p.charen = p.level 2 := by
  rw [← p.bitAt_lines (by decide)]
  exact Keyboard.anyBit_columnBit p.lines (show 2 < 8 by decide)

/-- Where the processor sees the memory, a ROM or the chips is what the table says. -/
theorem region_eq (p : Port) (address : UInt16) : p.region address = p.mapped address := by
  have page : (address >>> 12).toNat = address.toNat / 0x1000 := by
    simp [Nat.shiftRight_eq_div_pow]
  have below := address.toNat_lt
  unfold region mapped
  simp only [page, p.loram_eq, p.hiram_eq, p.charen_eq, UInt16.lt_iff_toNat_lt,
    UInt16.reduceToNat]
  cases p.level 2 <;> cases p.level 1 <;> cases p.level 0 <;> simp only [table] <;>
    generalize address.toNat = place at below <;> grind

/-- A ROM or the chips show in their own bank only. -/
theorem mapped_within (p : Port) (address : UInt16) :
    match p.mapped address with
    | .memory => True
    | .basic => 0xA000 ≤ address.toNat ∧ address.toNat < 0xA000 + RomKind.basic.size
    | .character | .chips =>
      0xD000 ≤ address.toNat ∧ address.toNat < 0xD000 + RomKind.character.size
    | .kernal => 0xE000 ≤ address.toNat ∧ address.toNat < 0xE000 + RomKind.kernal.size := by
  have below := address.toNat_lt
  unfold mapped
  simp only [UInt16.lt_iff_toNat_lt, UInt16.reduceToNat, RomKind.size]
  cases p.level 2 <;> cases p.level 1 <;> cases p.level 0 <;> simp only [table] <;>
    generalize address.toNat = place at below <;> grind

end Port

/-! ## The array -/

/-- The bytes of the memory without the banks above them, and the port. -/
structure Flat where
  port : Port
  bytes : UInt16 → UInt8

namespace Flat

/-- What a processor can do with a board: read, write, and let time pass. -/
inductive Access where
  | read (address : UInt16)
  | write (address : UInt16) (value : UInt8)
  | wait (cycles : Nat)

/-- A write reaches the port at its two addresses, and otherwise the bytes, unless the chips show.
Nothing else changes either. -/
def act (f : Flat) : Access → Flat
  | .write address value =>
    if address = 0 then { f with port.direction := value }
    else if address = 1 then { f with port.data := value }
    else if f.port.mapped address = .chips then f
    else { f with bytes := Function.update f.bytes address value }
  | .read _ => f
  | .wait _ => f

/-- What a read shows where no chip answers: the port, a byte of a ROM by its place behind the
beginning of the bank, or the byte of the array. -/
def read (f : Flat) (roms : Roms) (address : UInt16) : UInt8 :=
  if address = 0 then f.port.direction
  else if address = 1 then f.port.lines
  else
    match f.port.mapped address with
    | .basic => (roms.basic.map (·.byteAt (address.toNat - 0xA000))).getD (f.bytes address)
    | .character => (roms.character.map (·.byteAt (address.toNat - 0xD000))).getD (f.bytes address)
    | .kernal => (roms.kernal.map (·.byteAt (address.toNat - 0xE000))).getD (f.bytes address)
    | .memory | .chips => f.bytes address

end Flat

namespace Memory

/-- The memory without its banks. -/
def flat (m : Memory) : Flat := ⟨m.port, m.ram.read⟩

theorem flat_write (m : Memory) {address : UInt16} (value : UInt8)
    (plain : m.port.mapped address ≠ .chips) :
    (m.write address value).flat = m.flat.act (.write address value) := by
  unfold write Flat.act
  by_cases direction : address = 0
  · simp only [if_pos direction]
    rfl
  · by_cases data : address = 1
    · simp only [if_neg direction, if_pos data]
      rfl
    · have bytes : (m.ram.write address value).read =
          Function.update m.ram.read address value := by
        funext other
        rw [Ram.read_write, Function.update_apply]
        exact ite_congr (propext eq_comm) (fun _ => rfl) fun _ => rfl
      have plain' : m.flat.port.mapped address ≠ .chips := plain
      simp only [if_neg direction, if_neg data, if_neg plain']
      exact congrArg (Flat.mk m.port) bytes

/-- A ROM begins with its bank, so the place in it is the distance from there. -/
theorem romByte_eq (m : Memory) {n : Nat} (rom : Option (Bytes n)) (address : UInt16) {base : Nat}
    (aligned : base % n = 0) (above : base ≤ address.toNat) (below : address.toNat < base + n) :
    m.romByte rom address =
      (rom.map (·.byteAt (address.toNat - base))).getD (m.ram.read address) := by
  have place : address.toNat % n = address.toNat - base := by
    obtain ⟨place, at'⟩ := Nat.exists_eq_add_of_le above
    rw [at', Nat.add_sub_cancel_left, Nat.add_mod, aligned, Nat.zero_add, Nat.mod_mod,
      Nat.mod_eq_of_lt (by omega)]
  unfold romByte
  cases rom with
  | none => rfl
  | some bytes => exact congrArg bytes.byteAt place

theorem read_eq (m : Memory) (address : UInt16) : m.read address = m.flat.read m.roms address := by
  have within := m.port.mapped_within address
  unfold read Flat.read
  rw [m.port.region_eq]
  by_cases direction : address = 0
  · rw [if_pos direction, if_pos direction]
    rfl
  · by_cases data : address = 1
    · rw [if_neg direction, if_neg direction, if_pos data, if_pos data]
      rfl
    · rw [if_neg direction, if_neg direction, if_neg data, if_neg data]
      show _ = match m.port.mapped address with
        | .basic => _
        | .character => _
        | .kernal => _
        | .memory | .chips => _
      cases shows : m.port.mapped address with
      | memory => rfl
      | chips => rfl
      | basic =>
        rw [shows] at within
        exact m.romByte_eq _ address (by decide) within.1 within.2
      | character =>
        rw [shows] at within
        exact m.romByte_eq _ address (by decide) within.1 within.2
      | kernal =>
        rw [shows] at within
        exact m.romByte_eq _ address (by decide) within.1 within.2

end Memory

namespace Board

/-! ## Accesses -/

/-- The board behind an access. -/
def access (b : Board) : Flat.Access → Except Fault Board
  | .read address => .ok (b.read address).2
  | .write address value => b.write address value
  | .wait cycles => b.tick cycles

/-- The board behind one access after the other. -/
def run (b : Board) (accesses : List Flat.Access) : Except Fault Board := accesses.foldlM access b

variable {b b' : Board}

theorem Reachable.access (h : b.Reachable) {a : Flat.Access} (hrun : b.access a = .ok b') :
    b'.Reachable := by
  cases a with
  | read address => cases hrun; exact h.read address
  | write address value => exact h.write hrun
  | wait cycles => exact h.tick hrun

/-- A board of a run was made to some standard. -/
theorem Reachable.fit (h : b.Reachable) : ∃ standard cia, b.Fit standard cia := by
  induction h with
  | new paced hnew => exact ⟨_, _, .new paced hnew⟩
  | attachRtc _ hrun ih => obtain ⟨standard, cia, fit⟩ := ih; exact ⟨_, _, fit.attachRtc hrun⟩
  | detachRtc _ ih => obtain ⟨standard, cia, fit⟩ := ih; exact ⟨_, _, fit.detachRtc⟩
  | attachVia _ ih => obtain ⟨standard, cia, fit⟩ := ih; exact ⟨_, _, fit.attachVia⟩
  | detachVia _ ih => obtain ⟨standard, cia, fit⟩ := ih; exact ⟨_, _, fit.detachVia⟩
  | reset _ hrun ih => obtain ⟨standard, cia, fit⟩ := ih; exact ⟨_, _, fit.reset hrun⟩
  | read address _ ih => obtain ⟨standard, cia, fit⟩ := ih; exact ⟨_, _, fit.read address⟩
  | write _ hrun ih => obtain ⟨standard, cia, fit⟩ := ih; exact ⟨_, _, fit.write hrun⟩
  | tick _ hrun ih => obtain ⟨standard, cia, fit⟩ := ih; exact ⟨_, _, fit.tick hrun⟩
  | handled _ hd ih => obtain ⟨standard, cia, fit⟩ := ih; exact ⟨_, _, fit.handled hd⟩

/-- A write to a chip reaches no byte of the memory and not the port. -/
theorem writeChip_flat {address : UInt16} {value : UInt8}
    (hrun : b.writeChip address value = .ok b') :
    b'.devices.memory.flat = b.devices.memory.flat := by
  obtain ⟨d, clock⟩ := b
  unfold writeChip at hrun
  simp only [] at hrun
  split at hrun
  · cases hrun; rfl
  · cases hrun; rfl
  · cases hrun; rfl
  · obtain ⟨⟨cia1, clock₁⟩, -, hret⟩ := bind_eq_ok.mp hrun
    cases hret
    rfl
  · obtain ⟨⟨cia2, clock₁⟩, -, hret⟩ := bind_eq_ok.mp hrun
    cases hret
    rfl
  · split at hrun <;> (cases hrun; rfl)
  · split at hrun
    · obtain ⟨⟨via, clock₁⟩, -, hret⟩ := bind_eq_ok.mp hrun
      cases hret
      rfl
    · cases hrun; rfl

theorem write_flat {address : UInt16} {value : UInt8} (hrun : b.write address value = .ok b') :
    b'.devices.memory.flat = b.devices.memory.flat.act (.write address value) := by
  obtain ⟨⟨memory, vic, cia1, cia2, via, rtc, keyboard, joystick1, joystick2, lastValue, rtcLines,
    frameComplete⟩, clock⟩ := b
  unfold write at hrun
  simp only [memory.port.region_eq] at hrun
  split at hrun
  · next chips =>
    rw [writeChip_flat hrun]
    -- The chips show in their bank only, so the write is not one of the port.
    have within := memory.port.mapped_within address
    rw [chips] at within
    have notDirection : address ≠ 0 := by rintro rfl; exact absurd within.1 (by decide)
    have notData : address ≠ 1 := by rintro rfl; exact absurd within.1 (by decide)
    show _ = if address = 0 then _ else if address = 1 then _ else
      if memory.port.mapped address = .chips then _ else _
    rw [if_neg notDirection, if_neg notData, if_pos chips]
  · next plain =>
    cases hrun
    exact memory.flat_write value plain

/-- An access does to the memory what it does to the array, and nothing to a ROM. -/
theorem access_flat (sound : b.Sound) {a : Flat.Access} (hrun : b.access a = .ok b') :
    b'.devices.memory.flat = b.devices.memory.flat.act a ∧
      b'.devices.memory.roms = b.devices.memory.roms := by
  cases a with
  | read address =>
    cases hrun
    rw [b.read_memory address]
    exact ⟨rfl, rfl⟩
  | write address value => exact ⟨write_flat hrun, (write_accessed hrun).roms⟩
  | wait cycles =>
    rw [(sound.tick_fixtures hrun).1]
    exact ⟨rfl, rfl⟩

/-- So does a run of accesses. -/
theorem Reachable.run_flat (h : b.Reachable) {accesses : List Flat.Access}
    (hrun : b.run accesses = .ok b') :
    b'.devices.memory.flat = accesses.foldl Flat.act b.devices.memory.flat ∧
      b'.devices.memory.roms = b.devices.memory.roms := by
  induction accesses generalizing b with
  | nil => cases hrun; exact ⟨rfl, rfl⟩
  | cons a rest ih =>
    obtain ⟨b₁, hfirst, hrest⟩ := bind_eq_ok.mp hrun
    obtain ⟨flat, roms⟩ := access_flat h.sound hfirst
    obtain ⟨flat', roms'⟩ := ih (h.access hfirst) hrest
    exact ⟨by rw [flat', flat, List.foldl_cons], roms'.trans roms⟩

/-- Reads and writes alone never fail. -/
theorem Reachable.run_succeeds (h : b.Reachable) {accesses : List Flat.Access}
    (ready : ∀ cycles, .wait cycles ∉ accesses) : ∃ b', b.run accesses = .ok b' := by
  induction accesses generalizing b with
  | nil => exact ⟨b, rfl⟩
  | cons a rest ih =>
    obtain ⟨standard, cia, fit⟩ := h.fit
    have first : ∃ b₁, b.access a = .ok b₁ := by
      cases a with
      | read address => exact ⟨_, rfl⟩
      | write address value =>
        obtain ⟨b₁, hrun, -⟩ := fit.write_succeeds address value
        exact ⟨b₁, hrun⟩
      | wait cycles => exact absurd (.head rest) (ready cycles)
    obtain ⟨b₁, hfirst⟩ := first
    obtain ⟨b', hrest⟩ := ih (h.access hfirst) fun cycles mem => ready cycles (.tail a mem)
    exact ⟨b', bind_eq_ok.mpr ⟨b₁, hfirst, hrest⟩⟩

/-- Whatever the processor reads and writes, the port included, and however much time passes
meanwhile: every byte of the memory is the one that was written to it last while no chip showed at
its address, or the one it was at the beginning, and the two bytes under the port are never written.
The port has what was written to it, and no ROM changes. Where no chip shows, a read answers the
port, the byte of the ROM that the table of the three lines selects, or the byte of the memory, if
it selects none or that ROM is missing. Reads and writes never fail. -/
theorem Reachable.banked (h : b.Reachable) (accesses : List Flat.Access) :
    ((∀ cycles, .wait cycles ∉ accesses) → ∃ b', b.run accesses = .ok b') ∧
      ∀ b', b.run accesses = .ok b' →
        let flat := accesses.foldl Flat.act b.devices.memory.flat
        (∀ address, b'.devices.memory.ram.read address = flat.bytes address) ∧
          b'.devices.memory.port = flat.port ∧
          b'.devices.memory.roms = b.devices.memory.roms ∧
          ∀ address, flat.port.mapped address ≠ .chips →
            (b'.read address).1 = flat.read b.devices.memory.roms address := by
  refine ⟨h.run_succeeds, fun b' hrun => ?_⟩
  obtain ⟨same, roms⟩ := h.run_flat hrun
  refine ⟨fun address => congrFun (congrArg Flat.bytes same) address, congrArg Flat.port same, roms,
    fun address plain => ?_⟩
  have hidden : b'.reachesChip address = false := by
    have port := congrArg Flat.port same
    unfold reachesChip
    rw [Port.region_eq, show b'.devices.memory.port = _ from port]
    exact decide_eq_false plain
  unfold Board.read
  simp only [hidden, Bool.false_eq_true, if_false]
  rw [Memory.read_eq, same, roms]

theorem new_memory {memory : Memory} {standard : VideoStandard} {cia : Cia.Config}
    (h : Board.new memory standard cia = .ok b) : b.devices.memory = memory := by
  obtain ⟨⟨cia1, clock₁⟩, -, h⟩ := bind_eq_ok.mp h
  obtain ⟨⟨cia2, clock₂⟩, -, h⟩ := bind_eq_ok.mp h
  obtain ⟨⟨due, clock₃⟩, -, h⟩ := bind_eq_ok.mp h
  cases h
  rfl

/-- A Kernal, and no other ROM. -/
def kernalOnly : Roms := ⟨some (.replicate _ 0xEE), none, none⟩

/-- Writes to a register of the chips, to the memory underneath, to the register again, and to the
memory under the Kernal. In the end the ROMs are selected. -/
def bankSwitches : List Flat.Access :=
  [.write 0xD020 5, .write 1 0x34, .write 0xD020 7, .write 1 0x37, .write 0xD020 9,
    .write 0xE000 0x11, .write 1 0x33]

/-- Where the character ROM is missing, what was written under the chips is read. -/
theorem Reachable.banked_kernalOnly :
    ∃ b b', Board.new (.new kernalOnly) .pal {} = .ok b ∧ b.Reachable ∧
      b.run bankSwitches = .ok b' ∧
      b'.devices.memory.ram.read 0xD020 = 7 ∧ b'.devices.memory.ram.read 0xE000 = 0x11 ∧
      (b'.read 0xD020).1 = 7 ∧ (b'.read 0xE000).1 = 0xEE := by
  have paced : Cia.Config.Paced {} := by decide
  obtain ⟨b, made, -⟩ := new_live (.new kernalOnly) .pal paced
  have reach : b.Reachable := .new paced made
  obtain ⟨succeeds, banked⟩ := Reachable.banked reach bankSwitches
  obtain ⟨b', hrun⟩ := succeeds (by simp [bankSwitches])
  obtain ⟨bytes, -, -, reads⟩ := banked b' hrun
  rw [new_memory made] at bytes reads
  refine ⟨b, b', made, reach, hrun, ?_, ?_, ?_, ?_⟩
  · rw [bytes]
    decide +kernel
  · rw [bytes]
    decide +kernel
  · rw [reads 0xD020 (by decide +kernel)]
    decide +kernel
  · rw [reads 0xE000 (by decide +kernel)]
    decide +kernel

end Board

end C64
