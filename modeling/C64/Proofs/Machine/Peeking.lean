import C64.Proofs.Machine.Reachable

/-!
# Looking without reading

`Board.peek` shows a byte without any effect, `Board.read` is what the processor does. A chip
answers both from one table of its registers, and what a read changes it changes afterwards. So
they agree at every address, but for the two port registers of the first adapter: a read puts
keys and joysticks onto the pins before it looks at them, and lets the joystick at port 2 pull
down lines that are outputs. A look at these registers shows the pins as the last read left them
(`read_eq_peek`). A joystick that was moved since is not seen (`moved_joystick_unseen`).
-/

namespace C64

/-! ## The chips -/

theorem Vic.read_value (v : Vic) (r : UInt8) : (v.read r).1 = v.peek r := by
  unfold Vic.read
  split <;> rfl

theorem Cia.read_value {ε : Type} [DecidableEq ε] (event : Cia.Event → ε) (c : Cia)
    (clock : Clock ε) (r : UInt8) : (c.read event clock r).1 = c.peek event clock r := by
  unfold Cia.read
  split <;> rfl

namespace Board

/-- The pins of the first adapter that a register shows, with keys and joysticks as they are held
now; none for any register but those of the ports. -/
def Devices.pins? (d : Devices) (register : UInt8) : Option UInt8 :=
  if register &&& 0x0F = 0 then some (d.scanInput.cia1.pinsA &&& d.joystick2.lines)
  else if register &&& 0x0F = 1 then some d.scanInput.cia1.pinsB
  else none

/-- The pins of the first adapter that an address shows. -/
def pins? (b : Board) (address : UInt16) : Option UInt8 :=
  if b.reachesChip address ∧ Device.behind address = .cia1 then
    b.devices.pins? (lowByte address)
  else none

/-- Input reaches the registers of the ports and no other. -/
theorem scanInput_peek (d : Devices) (clock : Clock Event) {r : UInt8}
    (notA : r &&& 0x0F ≠ 0) (notB : r &&& 0x0F ≠ 1) :
    d.scanInput.cia1.peek Event.cia1 clock r = d.cia1.peek Event.cia1 clock r := by
  unfold Cia.peek
  split
  · next h => exact absurd (UInt8.toNat_inj.mp h : r &&& 0x0F = 0) notA
  · next h => exact absurd (UInt8.toNat_inj.mp h : r &&& 0x0F = 1) notB
  all_goals rfl

theorem readCia1_value (b : Board) (r : UInt8) :
    (b.readCia1 r).1 = (b.devices.pins? r).getD (b.devices.cia1.peek Event.cia1 b.clock r) := by
  have value : (b.readCia1 r).1 =
      if r &&& 0x0F = 0 then
        b.devices.scanInput.cia1.peek Event.cia1 b.clock r &&& b.devices.joystick2.lines
      else b.devices.scanInput.cia1.peek Event.cia1 b.clock r := by
    rw [← Cia.read_value]
    rfl
  unfold Devices.pins?
  rw [value]
  by_cases portA : r &&& 0x0F = 0
  · simp [Cia.peek, portA]
  · by_cases portB : r &&& 0x0F = 1
    · simp [Cia.peek, portB]
    · simp only [portA, portB, if_false, Option.getD_none]
      exact scanInput_peek _ _ portA portB

theorem readChip_value (b : Board) (address : UInt16) (chip : b.reachesChip address = true) :
    (b.readChip address).1 = (b.pins? address).getD (b.peekChip address) := by
  have others : Device.behind address ≠ .cia1 → b.pins? address = none := fun h => by
    simp [pins?, h]
  cases h : Device.behind address with
  | cia1 => simp [readChip, peekChip, pins?, h, chip, readCia1_value]
  | vic => simp [others, readChip, peekChip, h, Vic.read_value]
  | cia2 => simp [others, readChip, peekChip, h, Cia.read_value]
  | via => cases hvia : b.devices.via <;> simp [others, readChip, peekChip, h, hvia, Via.read]
  | sound | colours | rtc => simp [others, readChip, h]

/-- What the processor reads is what a look shows, but for the port registers of the first
adapter, where it is the pins with the keys and joysticks of this moment. -/
theorem read_eq_peek (b : Board) (address : UInt16) :
    (b.read address).1 = (b.pins? address).getD (b.peek address) := by
  cases chip : b.reachesChip address with
  | true => simpa [read, peek, chip] using readChip_value b address chip
  | false => simp [read, peek, pins?, chip]

end Board

namespace Machine

/-- A look at port A of the first adapter, and a read of it, after the fire button at port 2 was
pressed and one instruction has passed. -/
def firePressed : Except Fault (Machine × Machine) := do
  let m ← new {} { kernal := some ⟨Array.replicate 0x2000 0xEA⟩ }
  let (_, pressed) ← (m.send (.joystick 2 { fire := true })).step
  return (m, pressed)

theorem firePressed_shows :
    firePressed.toOption.map
      (fun (_, m) => (m.board.peek 0xDC00, (m.board.read 0xDC00).1)) = some (0xFF, 0xEF) := by
  decide +kernel

/-- A joystick that was moved since the last read of its port is seen by the processor and not by
a look. -/
theorem moved_joystick_unseen :
    ∃ (m₀ m : Machine) (n : Nat),
      new {} { kernal := some ⟨Array.replicate 0x2000 0xEA⟩ } = .ok m₀ ∧
      (m₀.send (.joystick 2 { fire := true })).step = .ok (n, m) ∧ m.Reachable ∧
      m.board.peek 0xDC00 ≠ (m.board.read 0xDC00).1 := by
  have shows := firePressed_shows
  rcases h : firePressed with e | ⟨m₀, m⟩
  · simp [h, Except.toOption] at shows
  · obtain ⟨looked, read⟩ :
        m.board.peek 0xDC00 = 0xFF ∧ (m.board.read 0xDC00).1 = 0xEF := by
      simpa [h, Except.toOption] using shows
    obtain ⟨m₁, made, h⟩ := bind_eq_ok.mp h
    obtain ⟨⟨n, m₂⟩, step, h⟩ := bind_eq_ok.mp h
    cases h
    exact ⟨_, _, n, made, step, .step (.send _ (.new made)) step, by rw [looked, read]; decide⟩

end Machine

end C64
