import C64.Bus.Flat
import C64.Proofs.Cpu.Timing

/-!
# Operations of two halves

Seven of the operations that the data sheet leaves out are two documented ones at once
(`Mnemonic.halves`): a change of a byte in memory and an operation of the accumulator on the result,
or two loads. On flat memory each of them leaves what its halves leave one after the other, in every
register but the program counter and in every byte (`combined_executes`). The flags that both halves
set are those of the second; carry and overflow go through the first.
-/

namespace C64.Cpu

/-- The two documented operations that a combined one consists of. -/
def Mnemonic.halves : Mnemonic → Option (Mnemonic × Mnemonic)
  | .slo => some (.asl, .ora)
  | .rla => some (.rol, .and)
  | .sre => some (.lsr, .eor)
  | .rra => some (.ror, .adc)
  | .dcp => some (.dec, .cmp)
  | .isc => some (.inc, .sbc)
  | .lax => some (.lda, .ldx)
  | _ => none

/-! ## Effects -/

/-- The registers at another place of the program. -/
def Registers.moved (r : Registers) (pc : UInt16) : Registers := { r with pc }

theorem Registers.add_moved (r : Registers) (pc : UInt16) (v : UInt8) :
    (r.moved pc).add v = (r.add v).moved pc := by
  show (if r.p.has .decimal then _ else _) = _
  unfold add
  split <;> rfl

theorem Registers.sub_moved (r : Registers) (pc : UInt16) (v : UInt8) :
    (r.moved pc).sub v = (r.sub v).moved pc := by
  show (if r.p.has .decimal then _ else _) = _
  unfold sub
  split <;> rfl

/-- A comparison sets the flags that a result has set before. -/
theorem Registers.compare_result (r : Registers) (register v w : UInt8) :
    (r.result w).compare register v = r.compare register v := by
  unfold compare result
  rw [Status.result_put _ _ _ (by decide) (by decide), Status.result_result]

theorem Status.carryByte_result (p : Status) (w : UInt8) :
    (p.result w).carryByte = p.carryByte :=
  congrArg bitByte (p.has_result w (by decide) (by decide))

/-- Behind carry and overflow, a result is all that is left of the one before. -/
theorem Status.result_sum (p : Status) (w b : UInt8) (carry overflow : Bool) :
    (((p.result w).put .carry carry).put .overflow overflow).result b =
      ((p.put .carry carry).put .overflow overflow).result b := by
  rw [result_put _ _ _ (by decide) (by decide), result_put _ _ _ (by decide) (by decide),
    result_result]

theorem Registers.addBinary_result (r : Registers) (v w : UInt8) :
    (r.result w).addBinary v = r.addBinary v := by
  unfold addBinary result
  simp only [Status.carryByte_result, Status.result_sum]

theorem Registers.subDecimal_result (r : Registers) (v w : UInt8) :
    (r.result w).subDecimal v = r.subDecimal v := by
  unfold subDecimal result
  simp only [Status.carryByte_result, Status.result_sum]

/-- A subtraction sets these flags as well, and it looks at none of them. -/
theorem Registers.sub_result (r : Registers) (v w : UInt8) : (r.result w).sub v = r.sub v := by
  have mode : (r.result w).p.has .decimal = r.p.has .decimal :=
    r.p.has_result w (by decide) (by decide)
  unfold sub
  rw [mode, addBinary_result, subDecimal_result]

/-- What an action on a byte in memory makes of the registers behind its operand, and of the
byte. -/
def Action.effect (config : Config) (a : Action) (r : Registers) (v : UInt8) :
    Registers × UInt8 :=
  match a with
  | .read apply => (apply config r v, v)
  | .modify shift apply => (apply { r with p := (shift r.p v).2 } (shift r.p v).1, (shift r.p v).1)
  | _ => (r, v)

/-- Whether an action works on a byte in memory, with nothing but registers beside it. -/
def Action.hasEffect : Action → Bool
  | .read _ | .modify _ _ => true
  | _ => false

/-- An action has the effect of two others, wherever in the program the three are. -/
structure Action.Combines (a a₁ a₂ : Action) : Prop where
  whole : a.hasEffect = true
  first : a₁.hasEffect = true
  second : a₂.hasEffect = true
  effect (config config₁ config₂ : Config) (r : Registers) (v : UInt8) (pc₁ pc₂ : UInt16) :
    a₂.effect config₂ ((a₁.effect config₁ (r.moved pc₁) v).1.moved pc₂)
        (a₁.effect config₁ (r.moved pc₁) v).2 =
      ((a.effect config r v).1.moved pc₂, (a.effect config r v).2)

theorem halves_combine {whole first second : Mnemonic}
    (halves : whole.halves = some (first, second)) :
    whole.action.Combines first.action second.action := by
  cases whole
  all_goals cases halves
  case rra =>
    refine ⟨rfl, rfl, rfl, fun _ _ _ r v _ pc₂ => ?_⟩
    exact congrArg (·, (Shift.rotateRight r.p v).1)
      (Registers.add_moved { r with p := (Shift.rotateRight r.p v).2 } pc₂ _)
  case dcp =>
    refine ⟨rfl, rfl, rfl, fun _ _ _ r v _ pc₂ => ?_⟩
    exact congrArg (fun r' : Registers => (r'.moved pc₂, v - 1))
      (r.compare_result r.a (v - 1) (v - 1))
  case isc =>
    refine ⟨rfl, rfl, rfl, fun _ _ _ r v _ pc₂ => ?_⟩
    have same := Registers.sub_moved (r.result (v + 1)) pc₂ (v + 1)
    rw [Registers.sub_result] at same
    exact congrArg (·, v + 1) same
  case lax =>
    refine ⟨rfl, rfl, rfl, fun _ _ _ r v _ pc₂ => ?_⟩
    exact congrArg (fun p => (({ r with a := v, x := v, p } : Registers).moved pc₂, v))
      (r.p.result_result v v)
  all_goals exact ⟨rfl, rfl, rfl, fun _ _ _ _ _ _ _ => rfl⟩

/-! ## Flat memory -/

variable (r : Registers) (m : FlatMemory)

/-- Finding an address leaves flat memory as it is. -/
theorem effective_flat (mode : AddressMode) :
    (Core.effective ⟨r, m⟩ mode).2 = ⟨r.past (Mode.memory mode).operandLength, m⟩ := by
  cases mode
  case absolute => exact congrArg (Core.mk · m) (r.past_past 1 1)
  case absoluteX => exact congrArg (Core.mk · m) (r.past_past 1 1)
  case absoluteY => exact congrArg (Core.mk · m) (r.past_past 1 1)
  case indirect => exact congrArg (Core.mk · m) (r.past_past 1 1)
  all_goals rfl

/-- The wrong address of an indexed mode may be read as well. -/
theorem readAddress_flat (mode : AddressMode) :
    Core.readAddress ⟨r, m⟩ mode =
      ((Core.effective ⟨r, m⟩ mode).1, ⟨r.past (Mode.memory mode).operandLength, m⟩) := by
  have flat := effective_flat r m mode
  unfold Core.readAddress
  generalize Core.effective ⟨r, m⟩ mode = found at flat ⊢
  obtain ⟨⟨address, _ | u⟩, c⟩ := found
  · cases flat
    rfl
  · cases flat
    exact congrArg (Prod.mk _) (ite_self _)

theorem writeAddress_flat (mode : AddressMode) :
    Core.writeAddress ⟨r, m⟩ mode =
      ((Core.effective ⟨r, m⟩ mode).1, ⟨r.past (Mode.memory mode).operandLength, m⟩) := by
  have flat := effective_flat r m mode
  unfold Core.writeAddress
  generalize Core.effective ⟨r, m⟩ mode = found at flat ⊢
  obtain ⟨⟨address, _ | u⟩, c⟩ := found
  all_goals
    cases flat
    rfl

/-- An operation on a byte in memory has its effect there and on the registers. -/
theorem perform_flat (config : Config) {op : Opcode} {mode : AddressMode}
    (hasEffect : op.action.hasEffect = true) (memory : op.mode = .memory mode) {address : UInt16}
    (finds : (Core.effective ⟨r, m⟩ mode).1.address = address) :
    let out := op.action.effect config (r.past op.mode.operandLength) (m.ram.read address)
    ∃ extra ram, Core.perform ⟨r, m⟩ config op = .ok (extra, ⟨out.1, { m with ram }⟩) ∧
      ∀ other, ram.read other = if address = other then out.2 else m.ram.read other := by
  unfold Core.perform
  cases action : op.action with
  | read apply =>
    simp only [Core.readOperand, memory, readAddress_flat, finds, ok_bind]
    refine ⟨_, m.ram, rfl, fun other => ?_⟩
    split
    · next same => rw [← same]; rfl
    · rfl
  | modify shift apply =>
    simp only [Core.modify, memory, Core.writeOperand, writeAddress_flat, finds, ok_bind]
    refine ⟨_, (m.ram.write address (m.ram.read address)).write address _, rfl, fun other => ?_⟩
    rw [Ram.read_write, Ram.read_write]
    split
    · rfl
    · rfl
  | _ =>
    rw [action] at hasEffect
    cases hasEffect

/-- The address that an instruction names, where its operand is in memory. -/
def operandAddress (cpu : Cpu) (m : FlatMemory) : Option UInt16 :=
  match (Opcode.decode (m.ram.read cpu.regs.pc)).mode with
  | .memory mode => some (Core.effective (Core.fetch ⟨cpu.regs, m⟩).2 mode).1.address
  | _ => none

/-- A processor whose next instruction carries out an operation on an address. -/
structure Works (mnemonic : Mnemonic) (address : UInt16) (s : Cpu × FlatMemory) : Prop where
  opcode : (Opcode.decode (s.2.ram.read s.1.regs.pc)).mnemonic = mnemonic
  operand : s.1.operandAddress s.2 = some address

theorem Works.execute {mnemonic : Mnemonic} {address : UInt16} {s : Cpu × FlatMemory}
    (h : Works mnemonic address s) (hasEffect : mnemonic.action.hasEffect = true) :
    ∃ n done pc, s.1.execute s.2 = .ok (n, done) ∧
      let out := mnemonic.action.effect s.1.config (s.1.regs.moved pc) (s.2.ram.read address)
      done.1.regs = out.1 ∧
      ∀ other, done.2.ram.read other = if address = other then out.2 else s.2.ram.read other := by
  obtain ⟨cpu, m⟩ := s
  obtain ⟨rfl, operand⟩ := h
  unfold operandAddress at operand
  split at operand
  · next mode memory =>
    cases operand
    rw [← Opcode.action_eq (.inr (by simp [memory]))] at hasEffect ⊢
    obtain ⟨extra, ram, performed, read⟩ :=
      perform_flat (cpu.regs.past 1) m cpu.config hasEffect memory rfl
    exact ⟨_, _, _, bind_eq_ok.mpr ⟨_, performed, rfl⟩, rfl, read⟩
  · cases operand

/-- Two processors that differ in nothing but where the program is, and memories that are the same
where the data is. -/
structure Alike (data : UInt16 → Prop) (s s' : Cpu × FlatMemory) : Prop where
  regs : s'.1.regs = s.1.regs.moved s'.1.regs.pc
  ram : ∀ address, data address → s'.2.ram.read address = s.2.ram.read address

/-- A combined operation leaves what its two halves leave that work on the same address, one after
the other: the same accumulator, index registers, stack pointer and flags, and the same memory. -/
theorem combined_executes {whole first second : Mnemonic}
    (halves : whole.halves = some (first, second)) {data : UInt16 → Prop} {address : UInt16}
    (known : data address) {s s₁ : Cpu × FlatMemory} (alike : Alike data s s₁)
    (works : Works whole address s) (works₁ : Works first address s₁) :
    ∃ n done n₁ done₁, s.1.execute s.2 = .ok (n, done) ∧ s₁.1.execute s₁.2 = .ok (n₁, done₁) ∧
      ∀ s₂, Alike data done₁ s₂ → Works second address s₂ →
        ∃ n₂ done₂, s₂.1.execute s₂.2 = .ok (n₂, done₂) ∧ Alike data done done₂ := by
  have combines := halves_combine halves
  obtain ⟨n, done, pc, run, regs, ram⟩ := works.execute combines.whole
  obtain ⟨n₁, done₁, pc₁, run₁, regs₁, ram₁⟩ := works₁.execute combines.first
  rw [alike.ram address known, alike.regs] at regs₁ ram₁
  refine ⟨n, done, n₁, done₁, run, run₁, fun s₂ alike₂ works₂ => ?_⟩
  obtain ⟨n₂, done₂, pc₂, run₂, regs₂, ram₂⟩ := works₂.execute combines.second
  rw [alike₂.ram address known, ram₁, if_pos rfl, alike₂.regs, regs₁] at regs₂ ram₂
  have both := combines.effect s.1.config s₁.1.config s₂.1.config (s.1.regs.moved pc)
    (s.2.ram.read address) pc₁ pc₂
  refine ⟨n₂, done₂, run₂, ?_, fun other known' => ?_⟩
  · have same : done₂.1.regs = done.1.regs.moved pc₂ := by
      rw [regs, regs₂]
      exact congrArg Prod.fst both
    rw [same]
    rfl
  · rw [ram, ram₂, alike₂.ram other known', ram₁, alike.ram other known']
    split
    · exact (congrArg Prod.snd both :)
    · rfl

theorem Works.zeroPage {cpu : Cpu} {m : FlatMemory} {mnemonic : Mnemonic} (b operand : UInt8)
    (opcode : m.ram.read cpu.regs.pc = b) (behind : m.ram.read (cpu.regs.pc + 1) = operand)
    (decodes : (Opcode.decode b).mnemonic = mnemonic ∧ (Opcode.decode b).mode = .zp) :
    Works mnemonic operand.toUInt16 (cpu, m) where
  opcode := opcode.symm ▸ decodes.1
  operand := by
    unfold operandAddress
    rw [opcode, decodes.2, ← behind]
    rfl

/-- A processor at a place of the program, with the registers of a reset. -/
def starting (pc : UInt16) : Cpu := { Cpu.new {} with regs := Registers.reset.moved pc }

/-- Memory with `slo`, `asl` and `ora` of the same byte, one behind the other. -/
def shifting : FlatMemory :=
  { FlatMemory.zero with
    ram := (((((FlatMemory.zero.ram.write 0 0x07).write 1 0x80).write 2 0x06).write 3 0x80).write
      4 0x05).write 5 0x80 }

theorem combined_executes_slo :
    ∃ n done n₁ done₁ n₂ done₂, (starting 0).execute shifting = .ok (n, done) ∧
      (starting 2).execute shifting = .ok (n₁, done₁) ∧
      { done₁.1 with regs := done₁.1.regs.moved 4 }.execute done₁.2 = .ok (n₂, done₂) ∧
      Alike (fun _ => True) done done₂ := by
  have alike : Alike (fun _ => True) (starting 0, shifting) (starting 2, shifting) :=
    ⟨rfl, fun _ _ => rfl⟩
  have works : Works .slo 0x80 (starting 0, shifting) :=
    .zeroPage 0x07 0x80
      (by simp [shifting, starting, Registers.moved, Ram.read_write])
      (by simp [shifting, starting, Registers.moved, Ram.read_write]) (by decide)
  have works₁ : Works .asl 0x80 (starting 2, shifting) :=
    .zeroPage 0x06 0x80
      (by simp [shifting, starting, Registers.moved, Ram.read_write])
      (by simp [shifting, starting, Registers.moved, Ram.read_write]) (by decide)
  obtain ⟨n, done, n₁, done₁, run, run₁, rest⟩ :=
    combined_executes rfl trivial alike works works₁
  obtain ⟨n', done', pc, run', regs, ram⟩ := works₁.execute rfl
  cases run₁.symm.trans run'
  have works₂ : Works .ora 0x80 ({ done₁.1 with regs := done₁.1.regs.moved 4 }, done₁.2) :=
    .zeroPage 0x05 0x80
      (by rw [ram]; simp [shifting, Registers.moved, Ram.read_write])
      (by rw [ram]; simp [shifting, Registers.moved, Ram.read_write]) (by decide)
  obtain ⟨n₂, done₂, run₂, alike₂⟩ :=
    rest ({ done₁.1 with regs := done₁.1.regs.moved 4 }, done₁.2) ⟨rfl, fun _ _ => rfl⟩ works₂
  exact ⟨n, done, n₁, done₁, n₂, done₂, run, run₁, run₂, alike₂⟩

end C64.Cpu
