import C64.Proofs.Cpu.Timing

/-!
# From one instruction to the next

The decode table says how many bytes an instruction has, by the mode of its opcode; how many are
fetched is up to the operation that is carried out. The two agree: an instruction begins with reads
of its opcode and of so many operand bytes, at consecutive addresses that go round behind the last
(`fetches`), and goes on behind them, unless it is one of the operations that lead elsewhere
(`Mnemonic.redirects`) or a branch that is taken. A call and the return from it come out there as
well, wherever the stack is.
-/

namespace C64.Cpu

open Bus (Refuses)

variable {op : Opcode} {config : Config} {r r' : Registers} {own : List Access} {extra : Nat}

/-! ## The program counter -/

/-- The operations that set the program counter, apart from branches. -/
def Mnemonic.redirects : Mnemonic → Bool
  | .jmp | .jsr | .rts | .rti | .brk | .jam => true
  | _ => false

/-- Whether the operation is a branch that is taken. -/
def Mnemonic.taken (m : Mnemonic) (p : Status) : Bool :=
  match m.condition with
  | some (f, on) => p.has f == on
  | none => false

/-- The address behind an instruction. -/
def Opcode.behind (op : Opcode) (pc : UInt16) : UInt16 :=
  pc + UInt16.ofNat (1 + op.mode.operandLength)

theorem Registers.add_pc (r : Registers) (v : UInt8) : (r.add v).pc = r.pc := by
  unfold add
  split <;> rfl

theorem Registers.sub_pc (r : Registers) (v : UInt8) : (r.sub v).pc = r.pc := by
  unfold sub
  split <;> rfl

theorem Registers.andRotate_pc (r : Registers) (v : UInt8) : (r.andRotate v).pc = r.pc := by
  unfold andRotate
  simp only []
  split
  · split <;> rfl
  · rfl

/-- What an action does to registers leaves the program counter alone, or the operation is one of
those that set it. -/
def Action.KeepsPc (a : Action) (redirects : Bool) : Prop :=
  match a with
  | .read apply => ∀ config r v, (apply config r v).pc = r.pc
  | .storeMasked prepare _ => ∀ r, (prepare r).pc = r.pc
  | .modify _ apply | .pull apply => ∀ r v, (apply r v).pc = r.pc
  | .internal apply | .implied apply => ∀ r, (apply r).pc = r.pc
  | .store _ | .push _ | .branch _ => True
  | _ => redirects = true

theorem action_keepsPc (op : Opcode) : op.action.KeepsPc op.mnemonic.redirects := by
  obtain ⟨mnemonic, mode, cycles⟩ := op
  cases mnemonic
  case nop =>
    rcases action_of_nop ⟨.nop, mode, cycles⟩ rfl with same | same
    · rw [same]
      exact fun _ => rfl
    · rw [same]
      exact fun _ _ _ => rfl
  case adc => exact fun _ => Registers.add_pc
  case sbc => exact fun _ => Registers.sub_pc
  case arr => exact fun _ => Registers.andRotate_pc
  case rra => exact Registers.add_pc
  case isc => exact Registers.sub_pc
  all_goals first
    | exact trivial
    | exact rfl
    | exact fun _ => rfl
    | exact fun _ _ => rfl
    | exact fun _ _ _ => rfl

theorem action_of_condition {f : Flag} {on : Bool} (h : op.mnemonic.condition = some (f, on)) :
    op.action = .branchOn f on := by
  obtain ⟨mnemonic, mode, cycles⟩ := op
  cases mnemonic
  all_goals cases h
  all_goals rfl

theorem taken_of_branch {taken : Status → Bool} (action : op.action = .branch taken) (p : Status) :
    op.mnemonic.taken p = taken p := by
  obtain ⟨f, on, condition, looks⟩ := condition_of_branch action
  rw [Mnemonic.taken, condition, looks]

theorem branch_of_taken {p : Status} (jumps : op.mnemonic.taken p = true) :
    ∃ taken, op.action = .branch taken := by
  unfold Mnemonic.taken at jumps
  split at jumps
  · next condition => exact ⟨_, action_of_condition condition⟩
  · cases jumps

/-! ## Fetching -/

/-- Reads of bytes at consecutive addresses, going round behind the last. -/
def fetches (pc : UInt16) : List UInt8 → List Access
  | [] => []
  | b :: rest => .read pc b :: fetches (pc + 1) rest

/-- Accesses begin with the operand bytes of a mode. -/
def Mode.Fetched (mode : Mode) (pc : UInt16) (accesses : List Access) : Prop :=
  ∃ operand rest, accesses = fetches pc operand ++ rest ∧ operand.length = mode.operandLength

theorem Finds.fetched {m : AddressMode} {reads : List Access} {base address : UInt16}
    (h : Finds r m reads base address) (rest : List Access) :
    (Mode.memory m).Fetched r.pc (reads ++ rest) := by
  cases h with
  | zeroPage b => exact ⟨[b], _, rfl, rfl⟩
  | zeroPageX b dropped => exact ⟨[b], _, rfl, rfl⟩
  | zeroPageY b dropped => exact ⟨[b], _, rfl, rfl⟩
  | absolute low high => exact ⟨[low, high], _, rfl, rfl⟩
  | absoluteX low high => exact ⟨[low, high], _, rfl, rfl⟩
  | absoluteY low high => exact ⟨[low, high], _, rfl, rfl⟩
  | indirect low high low' high' => exact ⟨[low, high], _, rfl, rfl⟩
  | indirectX b dropped low high => exact ⟨[b], _, rfl, rfl⟩
  | indirectY b low high => exact ⟨[b], _, rfl, rfl⟩

/-- However an operation fetches its operand, it fetches what its mode has. -/
theorem Opcode.Performs.fetched (h : op.Performs r own extra)
    (pairs : op.action.pairs op.mode = true) : op.mode.Fetched r.pc own := by
  have modeIs {a : Action} {mode : Mode} := @Opcode.mode_of_pairs op a mode pairs
  have none {mode : Mode} (same : op.mode = mode) (short : mode.operandLength = 0) :
      op.mode.Fetched r.pc own := ⟨[], own, rfl, same ▸ short.symm⟩
  have byte {mode : Mode} (same : op.mode = mode) (long : mode.operandLength = 1) (v : UInt8) :
      op.mode.Fetched r.pc [.read r.pc v] := ⟨[v], [], rfl, same ▸ long.symm⟩
  cases h with
  | immediate v action mode => exact byte mode rfl v
  | read v action mode found only => exact mode ▸ found.fetched _
  | store action mode found only => exact mode ▸ found.fetched _
  | storeMasked action mode found only masked =>
    exact mode ▸ (finds_of_storeMasked action found).fetched _
  | accumulator dropped action mode => exact none mode rfl
  | modify v action mode found only => exact mode ▸ found.fetched _
  | internal action => exact none (modeIs action rfl) rfl
  | implied dropped action => exact none (modeIs action rfl) rfl
  | push dropped action => exact none (modeIs action rfl) rfl
  | pull dropped v action => exact none (modeIs action rfl) rfl
  | branch distance action taken htarget => exact byte (modeIs action rfl) rfl distance
  | notTaken distance action taken => exact byte (modeIs action rfl) rfl distance
  | jump action mode found => exact mode ▸ List.append_nil own ▸ found.fetched []
  | callSubroutine low high action =>
    have mode : op.mode = .memory .absolute := modeIs action rfl
    exact mode ▸ ⟨[low, high], _, rfl, rfl⟩
  | returnFromSubroutine dropped low high action => exact none (modeIs action rfl) rfl
  | returnFromInterrupt dropped p low high action => exact none (modeIs action rfl) rfl
  | softwareInterrupt dropped low high action => exact none (modeIs action rfl) rfl
  | halt action => exact none (modeIs action rfl) rfl

/-! ## Going on -/

/-- Where nothing leads elsewhere, an operation leaves the program counter behind its operand. -/
theorem Opcode.Results.straight (h : op.Results config r own r')
    (pairs : op.action.pairs op.mode = true) (straight : op.mnemonic.redirects = false)
    (stays : op.mnemonic.taken r.p = false) :
    r'.pc = r.pc + UInt16.ofNat op.mode.operandLength := by
  have modeIs {a : Action} {mode : Mode} := @Opcode.mode_of_pairs op a mode pairs
  have keeps {a : Action} (action : op.action = a) : a.KeepsPc false :=
    straight ▸ action ▸ action_keepsPc op
  have unmoved {mode : Mode} {pc : UInt16} (same : op.mode = mode)
      (short : mode.operandLength = 0) (kept : pc = r.pc) :
      pc = r.pc + UInt16.ofNat op.mode.operandLength := by
    rw [same, short, kept]
    exact (UInt16.add_zero _).symm
  cases h with
  | read v action => exact keeps action config _ v
  | store action => rfl
  | storeMasked action => exact congrArg (· + _) (keeps action r)
  | accumulator action mode => exact unmoved mode rfl (keeps action _ _)
  | modify v action mode => exact keeps action _ _
  | internal action => exact unmoved (modeIs action rfl) rfl (keeps action r)
  | implied action => exact unmoved (modeIs action rfl) rfl (keeps action r)
  | push action => exact unmoved (modeIs action rfl) rfl rfl
  | pull v action => exact unmoved (modeIs action rfl) rfl (keeps action _ v)
  | branch distance action jumps =>
    rw [taken_of_branch action, jumps] at stays
    cases stays
  | notTaken action stays =>
    have mode : op.mode = .relative := modeIs action rfl
    rw [mode]
    rfl
  | jump action mode found => cases keeps action
  | callSubroutine low high action => cases keeps action
  | returnFromSubroutine low high action => cases keeps action
  | returnFromInterrupt p low high action => cases keeps action
  | softwareInterrupt low high action => cases keeps action
  | halt action => cases keeps action

theorem Opcode.Results.branched (h : op.Results config r own r')
    (jumps : op.mnemonic.taken r.p = true) :
    ∃ address distance, own = [.read address distance] ∧
      r'.pc = r.pc + 1 + distance.toInt8.toInt16.toUInt16 := by
  obtain ⟨taken, action⟩ := branch_of_taken jumps
  cases h with
  | branch distance action' taken' => exact ⟨_, distance, rfl, rfl⟩
  | notTaken action' stays =>
    rw [taken_of_branch action', stays] at jumps
    cases jumps
  | _ => simp_all

/-- A distance is added as a signed number. -/
theorem toNat_add_distance (w : UInt16) (distance : UInt8) :
    ((w + distance.toInt8.toInt16.toUInt16).toNat : Int) =
      (w.toNat + distance.toInt8.toInt) % 0x10000 := by
  have word (d : Int16) : (d.toUInt16.toNat : Int) = d.toInt % 0x10000 := by
    have small := d.toBitVec.isLt
    calc (d.toBitVec.toNat : Int)
      _ = (d.toBitVec.toNat : Int) % 0x10000 := by omega
      _ = (d.toBitVec.toNat : Int).bmod 0x10000 % 0x10000 := Int.bmod_emod.symm
      _ = d.toBitVec.toInt % 0x10000 := by rw [BitVec.toInt_eq_toNat_bmod]
  have offset := word distance.toInt8.toInt16
  rw [Int8.toInt_toInt16] at offset
  rw [UInt16.toNat_add]
  omega

/-- Where an instruction with these operand bytes leaves the program counter. -/
structure Opcode.Advances (op : Opcode) (r : Registers) (operand : List UInt8) (pc : UInt16) :
    Prop where
  length : operand.length = op.mode.operandLength
  straight : op.mnemonic.redirects = false → op.mnemonic.taken r.p = false → pc = op.behind r.pc
  branched : op.mnemonic.taken r.p = true → ∃ distance : UInt8, operand = [distance] ∧
    (pc.toNat : Int) = ((op.behind r.pc).toNat + distance.toInt8.toInt) % 0x10000

theorem Opcode.Advances.of_carried {rest : List Access} {operand : List UInt8}
    (results : op.Results config (r.past 1) (fetches (r.past 1).pc operand ++ rest) r')
    (pairs : op.action.pairs op.mode = true) (length : operand.length = op.mode.operandLength) :
    op.Advances r operand r'.pc where
  length := length
  straight straight stays :=
    (results.straight pairs straight stays).trans
      (congrArg Registers.pc (r.past_past 1 op.mode.operandLength))
  branched jumps := by
    obtain ⟨taken, action⟩ := branch_of_taken jumps
    have mode : op.mode = .relative := Opcode.mode_of_pairs pairs action rfl
    rw [mode] at length
    obtain ⟨distance, rfl⟩ := List.length_eq_one_iff.mp length
    obtain ⟨address, distance', own, pc⟩ := results.branched jumps
    cases own
    refine ⟨distance, rfl, ?_⟩
    have behind : (r.past 1).pc + 1 = op.behind r.pc := by
      rw [Opcode.behind, mode]
      exact UInt16.add_assoc r.pc 1 1
    rw [pc, behind, toNat_add_distance]

/-! ## Calls -/

theorem Opcode.Performs.called (h : op.Performs r own extra)
    (action : op.action = .callSubroutine) :
    ∃ low high, own = fetches r.pc [low, high] ++
      [.write r.stackTop (highByte (r.pc + 1)),
        .write (r.pushed 1).stackTop (lowByte (r.pc + 1))] := by
  cases h with
  | callSubroutine low high action' => exact ⟨low, high, rfl⟩
  | _ => simp_all

theorem Opcode.Results.called (h : op.Results config r own r')
    (action : op.action = .callSubroutine) : r'.s = r.s - 2 := by
  cases h with
  | callSubroutine low high action' => rfl
  | _ => simp_all

theorem Opcode.Performs.returned (h : op.Performs r own extra)
    (action : op.action = .returnFromSubroutine) :
    ∃ dropped low high, own = [.read r.pc dropped, .read (r.pulled 1).stackTop low,
      .read (r.pulled 2).stackTop high] := by
  cases h with
  | returnFromSubroutine dropped low high action' => exact ⟨dropped, low, high, rfl⟩
  | _ => simp_all

theorem Opcode.Results.returned (h : op.Results config r own r')
    (action : op.action = .returnFromSubroutine) :
    ∃ first address address' low high, own = [first, .read address low, .read address' high] ∧
      r'.pc = wordOf high low + 1 ∧ r'.s = r.s + 2 := by
  cases h with
  | returnFromSubroutine low high action' => exact ⟨_, _, _, low, high, rfl, rfl, rfl⟩
  | _ => simp_all

theorem fetches_length (pc : UInt16) (bytes : List UInt8) :
    (fetches pc bytes).length = bytes.length := by
  induction bytes generalizing pc with
  | nil => rfl
  | cons b rest ih => exact congrArg (· + 1) (ih (pc + 1))

/-- Where a return comes out, behind a call that found these registers and left two bytes on the
stack. Whichever the processor, its bus and what it did since then, if its stack pointer is where
the call left it, the return reads where the call wrote; and if it reads the two bytes there, it
goes on at the address, with the stack pointer from before the call. -/
def Registers.ReturnsTo (r : Registers) (high low : UInt8) (pc : UInt16) : Prop :=
  ∀ (β : Type) [Bus β] (cpu : Cpu) (t : Traced β), cpu.regs.s = r.s - 2 →
    Yields (Refuses t.bus)
      (fun (_, back, t') => ∃ b rest, t'.trace = t.trace ++ .read cpu.regs.pc b :: rest ∧
        ((Opcode.decode b).mnemonic = .rts → ∃ dropped low' high',
          rest = [.read (cpu.regs.pc + 1) dropped, .read (r.pushed 1).stackTop low',
            .read r.stackTop high'] ∧
          (high' = high → low' = low → back.regs.pc = pc ∧ back.regs.s = r.s)))
      (cpu.execute t)

theorem Registers.returnsTo (r : Registers) (high low : UInt8) :
    r.ReturnsTo high low (wordOf high low + 1) := by
  intro β _ cpu t s
  refine (execute_traced cpu t).mono ?_
  rintro ⟨n, back, t'⟩ ⟨b, own, extra, trace, performed, results⟩
  refine ⟨b, own, trace, fun rts => ?_⟩
  have action := action_of_mnemonic rts (by decide)
  obtain ⟨dropped, low', high', rfl⟩ := performed.returned action
  obtain ⟨_, _, _, _, _, own, pc, s'⟩ := results.returned action
  cases own
  have second : ((cpu.regs.past 1).pulled 1).stackTop = (r.pushed 1).stackTop :=
    stackTop_pulled 1 1 s
  have first : ((cpu.regs.past 1).pulled 2).stackTop = r.stackTop :=
    (stackTop_pulled 0 2 s).trans (congrArg stackTop r.pushed_zero)
  rw [first, second]
  refine ⟨dropped, low', high', rfl, ?_⟩
  rintro rfl rfl
  refine ⟨pc, s'.trans ?_⟩
  rw [show (cpu.regs.past 1).s = r.s - 2 from s, UInt8.sub_add_cancel]

/-! ## Instructions -/

variable {β : Type} [Bus β]

/-- On every bus an instruction begins with the reads of its opcode and of as many operand bytes as
its mode has, one behind the other. Unless its operation leads elsewhere, it leaves the program
counter behind them, or away from there by the distance of a branch that is taken. A call pushes
two bytes by which the return from it, with any stack pointer, comes out there too. -/
theorem execute_advances (cpu : Cpu) (t : Traced β) :
    Yields (Refuses t.bus)
      (fun (_, cpu', t') => ∃ b operand rest,
        t'.trace = t.trace ++ (fetches cpu.regs.pc (b :: operand) ++ rest) ∧
        (Opcode.decode b).Advances cpu.regs operand cpu'.regs.pc ∧
        ((Opcode.decode b).mnemonic = .jsr → ∃ high low,
          rest = [.write cpu.regs.stackTop high, .write (cpu.regs.pushed 1).stackTop low] ∧
          cpu'.regs.s = cpu.regs.s - 2 ∧
          cpu.regs.ReturnsTo high low ((Opcode.decode b).behind cpu.regs.pc)))
      (cpu.execute t) := by
  refine (execute_traced cpu t).mono ?_
  rintro ⟨n, cpu', t'⟩ ⟨b, own, extra, trace, performed, results⟩
  obtain ⟨operand, rest, rfl, length⟩ := performed.fetched (decode_pairs b)
  refine ⟨b, operand, rest, trace, .of_carried results (decode_pairs b) length, ?_⟩
  intro jsr
  have action := action_of_mnemonic jsr (by decide)
  have mode : (Opcode.decode b).mode = .memory .absolute :=
    Opcode.mode_of_pairs (decode_pairs b) action rfl
  rw [mode] at length
  obtain ⟨low, high, own⟩ := performed.called action
  have both := List.append_inj own (by rw [fetches_length, fetches_length]; exact length)
  refine ⟨_, _, both.2, results.called action, ?_⟩
  have behind : (cpu.regs.past 1).pc + 1 + 1 = (Opcode.decode b).behind cpu.regs.pc := by
    rw [Opcode.behind, mode, UInt16.add_assoc]
    exact UInt16.add_assoc cpu.regs.pc 1 2
  have back := cpu.regs.returnsTo (highByte ((cpu.regs.past 1).pc + 1))
    (lowByte ((cpu.regs.past 1).pc + 1))
  rwa [wordOf_bytes, behind] at back

end C64.Cpu
