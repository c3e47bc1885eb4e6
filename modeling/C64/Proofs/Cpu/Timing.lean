import C64.Proofs.Cpu.Footprint
import C64.Proofs.Cpu.Traffic

/-!
# The time of a step

A step lets time pass once, when its accesses are over. How much follows from the line of the
decode table, from the address that an index was added to and the address it led to, and for a
branch from one flag and the distance behind the opcode (`Opcode.Takes`). The executor has no
operand where a mode names none; the table pairs actions and modes so that it never looks for one
there (`decode_pairs`), and a step can end in no fault but one of the bus.
-/

namespace C64.Cpu

variable {op : Opcode} {r : Registers} {accesses own : List Access} {extra n : Nat}

/-! ## The table -/

/-- Whether an action goes with a mode in the decode table. -/
def Action.pairs (a : Action) (mode : Mode) : Bool :=
  match a with
  | .read _ => mode = .immediate || mode.isMemory
  | .modify _ _ => mode = .accumulator || mode.isMemory
  | .store _ | .storeMasked _ _ | .jump => mode.isMemory
  | .callSubroutine => mode = .memory .absolute
  | .branch _ => mode = .relative
  | _ => mode = .implied

theorem decode_pairs (b : UInt8) :
    (Opcode.decode b).action.pairs (Opcode.decode b).mode = true := by
  have every : ∀ op ∈ Opcode.table.toList, op.action.pairs op.mode = true := by
    decide +kernel
  exact Opcode.forall_decode every b

/-- Where the table has but one mode for an action, that is the mode. -/
theorem Opcode.mode_of_pairs {a : Action} {mode : Mode} (pairs : op.action.pairs op.mode = true)
    (action : op.action = a) (only : a.pairs op.mode = decide (op.mode = mode)) :
    op.mode = mode := by
  subst action
  exact of_decide_eq_true (only ▸ pairs)

/-- What an operation does that has an operand, where it may do without one. -/
def Mnemonic.action (mnemonic : Mnemonic) : Action := Opcode.action ⟨mnemonic, .zp, 0⟩

/-- The mode makes a difference to the action of one operation alone. -/
theorem Opcode.action_eq (h : op.mnemonic ≠ .nop ∨ op.mode ≠ .implied) :
    op.action = op.mnemonic.action := by
  obtain ⟨mnemonic, mode, cycles⟩ := op
  cases mnemonic
  case nop => exact if_neg (h.resolve_left fun differs => differs rfl)
  all_goals rfl

theorem action_of_mnemonic {mnemonic : Mnemonic} (same : op.mnemonic = mnemonic)
    (operates : mnemonic ≠ .nop) : op.action = mnemonic.action := by
  subst same
  exact op.action_eq (.inl operates)

theorem action_of_nop (op : Opcode) (nop : op.mnemonic = .nop) :
    op.action = .implied id ∨ op.action = .load fun r _ => r := by
  unfold Opcode.action
  rw [nop]
  exact ite_eq_or_eq _ _ _

/-- The flag that a branch looks at, and how it wants it. -/
def Mnemonic.condition : Mnemonic → Option (Flag × Bool)
  | .bcc => some (.carry, false)
  | .bcs => some (.carry, true)
  | .bne => some (.zero, false)
  | .beq => some (.zero, true)
  | .bpl => some (.negative, false)
  | .bmi => some (.negative, true)
  | .bvc => some (.overflow, false)
  | .bvs => some (.overflow, true)
  | _ => none

theorem condition_of_branch {taken : Status → Bool} (action : op.action = .branch taken) :
    ∃ f on, op.mnemonic.condition = some (f, on) ∧ ∀ p, taken p = (p.has f == on) := by
  obtain ⟨mnemonic, mode, cycles⟩ := op
  cases mnemonic
  case nop =>
    rcases action_of_nop ⟨.nop, mode, cycles⟩ rfl with same | same
    all_goals cases same.symm.trans action
  all_goals cases action
  all_goals exact ⟨_, _, rfl, fun _ => rfl⟩

/-- Only a read pays for another page. -/
theorem read_of_pagePenalty (penalty : op.pagePenalty = true) :
    ∃ apply, op.action = .read apply := by
  obtain ⟨mnemonic, mode, cycles⟩ := op
  simp only [Opcode.pagePenalty, Bool.and_eq_true, decide_eq_true_eq] at penalty
  obtain ⟨takes, indexed⟩ := penalty
  cases mnemonic
  case nop =>
    have operand : mode ≠ .implied := by rintro rfl; simp at indexed
    exact ⟨_, if_neg operand⟩
  all_goals first
    | exact ⟨_, rfl⟩
    | cases takes

/-- What is done to the registers before a masked store does not move the operand. -/
theorem finds_of_storeMasked {prepare : Registers → Registers} {value : Registers → UInt8}
    {m : AddressMode} {reads : List Access} {base address : UInt16}
    (action : op.action = .storeMasked prepare value)
    (found : Finds (prepare r) m reads base address) : Finds r m reads base address := by
  obtain ⟨mnemonic, mode, cycles⟩ := op
  cases mnemonic
  case nop =>
    rcases action_of_nop ⟨.nop, mode, cycles⟩ rfl with same | same
    all_goals cases same.symm.trans action
  all_goals cases action
  case tas => cases found <;> constructor
  all_goals exact found

/-! ## Opcodes -/

/-- The cycles of an opcode that has been fetched, by the registers behind it and the accesses that
follow. -/
inductive Opcode.Takes (op : Opcode) (r : Registers) : List Access → Nat → Prop
  | memory {m : AddressMode} {reads rest : List Access} {base address : UInt16} :
      op.mode = .memory m → Finds r m reads base address →
      Takes op r (reads ++ rest)
        (op.cycles + if highByte base ≠ highByte address ∧ op.pagePenalty then 1 else 0)
  | relative {f : Flag} {on : Bool} {target : UInt16} (distance : UInt8) :
      op.mode = .relative → op.mnemonic.condition = some (f, on) →
      target = r.pc + 1 + distance.toInt8.toInt16.toUInt16 →
      Takes op r [.read r.pc distance]
        (op.cycles +
          if r.p.has f = on then 1 + if highByte (r.pc + 1) = highByte target then 0 else 1
          else 0)
  | other {accesses : List Access} :
      op.mode.isMemory = false → op.mode ≠ .relative → Takes op r accesses op.cycles

/-- Where no page is paid for, memory is no matter. -/
theorem Opcode.Takes.unpenalized {m : AddressMode} {reads rest : List Access}
    {base address : UInt16} (mode : op.mode = .memory m) (found : Finds r m reads base address)
    (notRead : ∀ apply, op.action ≠ .read apply) : op.Takes r (reads ++ rest) (op.cycles + 0) := by
  have free : ¬(highByte base ≠ highByte address ∧ op.pagePenalty) := by
    rintro ⟨-, penalty⟩
    obtain ⟨apply, action⟩ := read_of_pagePenalty penalty
    exact notRead apply action
  have takes : op.Takes r (reads ++ rest) _ := .memory mode found
  rwa [if_neg free] at takes

theorem Opcode.Takes.ofMode {mode : Mode} (same : op.mode = mode) (noMemory : mode.isMemory = false)
    (noBranch : mode ≠ .relative) : op.Takes r accesses (op.cycles + 0) :=
  .other (same ▸ noMemory) (same ▸ noBranch)

theorem Opcode.Performs.takes (h : op.Performs r own extra)
    (pairs : op.action.pairs op.mode = true) : op.Takes r own (op.cycles + extra) := by
  have modeIs {a : Action} {mode : Mode} := @Opcode.mode_of_pairs op a mode pairs
  cases h with
  | immediate v action mode => exact .ofMode mode rfl (by decide)
  | read v action mode found only => exact .memory mode found
  | store action mode found only => exact .unpenalized mode found (by simp [action])
  | storeMasked action mode found only masked =>
    exact .unpenalized mode (finds_of_storeMasked action found) (by simp [action])
  | accumulator dropped action mode => exact .ofMode mode rfl (by decide)
  | modify v action mode found only => exact .unpenalized mode found (by simp [action])
  | internal action => exact .ofMode (modeIs action rfl) rfl (by decide)
  | implied dropped action => exact .ofMode (modeIs action rfl) rfl (by decide)
  | push dropped action => exact .ofMode (modeIs action rfl) rfl (by decide)
  | pull dropped v action => exact .ofMode (modeIs action rfl) rfl (by decide)
  | branch distance action taken htarget =>
    obtain ⟨f, on, condition, looks⟩ := condition_of_branch action
    have takes := Opcode.Takes.relative distance (modeIs action rfl) condition htarget
    rw [looks, beq_iff_eq] at taken
    rw [if_pos taken] at takes
    split
    · next samePage => rwa [if_pos samePage] at takes
    · next otherPage => rwa [if_neg otherPage] at takes
  | notTaken distance action taken =>
    obtain ⟨f, on, condition, looks⟩ := condition_of_branch action
    have takes := Opcode.Takes.relative (r := r) distance (modeIs action rfl) condition rfl
    rw [looks, beq_eq_false_iff_ne] at taken
    rwa [if_neg taken] at takes
  | jump action mode found => exact List.append_nil own ▸ .unpenalized mode found (by simp [action])
  | callSubroutine low high action =>
    exact .unpenalized (modeIs action rfl) (.absolute low high) (by simp [action])
  | returnFromSubroutine dropped low high action => exact .ofMode (modeIs action rfl) rfl (by decide)
  | returnFromInterrupt dropped p low high action => exact .ofMode (modeIs action rfl) rfl (by decide)
  | softwareInterrupt dropped low high action => exact .ofMode (modeIs action rfl) rfl (by decide)
  | halt action => exact .ofMode (modeIs action rfl) rfl (by decide)

theorem Opcode.Performs.extra_le (h : op.Performs r own extra) : extra ≤ op.surcharge := by
  unfold Opcode.surcharge
  cases h with
  | read v action mode found only =>
    rw [action]
    show (if _ then 1 else 0) ≤ if op.pagePenalty = true then 1 else 0
    by_cases penalty : op.pagePenalty = true
    · rw [if_pos penalty]
      split <;> decide
    · rw [if_neg fun crossed => penalty crossed.2]
      exact Nat.zero_le _
  | branch distance action taken htarget =>
    rw [action]
    show (if _ then 1 else 2) ≤ 2
    split <;> decide
  | _ => exact Nat.zero_le _

/-! ## Steps -/

/-- Accesses among which no time passes. -/
def Untimed (accesses : List Access) : Prop := ∀ n, .tick n ∉ accesses

theorem OnlyReads.untimed (h : OnlyReads accesses) : Untimed accesses := by
  intro n mem
  obtain ⟨address, b, same⟩ := h _ mem
  cases same

theorem Untimed.append {accesses' : List Access} (h : Untimed accesses) (h' : Untimed accesses') :
    Untimed (accesses ++ accesses') := by
  intro n mem
  rcases List.mem_append.mp mem with mem | mem
  · exact h n mem
  · exact h' n mem

theorem Opcode.Performs.untimed (h : op.Performs r own extra) : Untimed own := by
  have behind : ∀ {r : Registers} {m : AddressMode} {reads fixup last : List Access}
      {base address : UInt16}, Finds r m reads base address → OnlyReads fixup → Untimed last →
      Untimed (reads ++ (fixup ++ last)) := fun found only last =>
    found.onlyReads.untimed.append (only.untimed.append last)
  cases h with
  | read v action mode found only => exact behind found only (by simp [Untimed])
  | store action mode found only => exact behind found only (by simp [Untimed])
  | storeMasked action mode found only masked => exact behind found only (by simp [Untimed])
  | modify v action mode found only => exact behind found only (by simp [Untimed])
  | jump action mode found => exact found.onlyReads.untimed
  | _ => simp [Untimed]

/-- The cycles of a step with these accesses, by the processor and the interrupt lines as they are
before it. -/
inductive Timed (cpu : Cpu) (lines : InterruptLines) : List Access → Nat → Prop
  | jammed : cpu.jammed = true → Timed cpu lines [] 1
  | entry {accesses : List Access} {i : Interrupt} :
      cpu.jammed = false → (cpu.poll lines).1 = some i → Timed cpu lines accesses 7
  | instruction {rest : List Access} {n : Nat} (b : UInt8) :
      cpu.jammed = false → (cpu.poll lines).1 = none →
      (Opcode.decode b).Takes (cpu.regs.past 1) rest n →
      Timed cpu lines (.read cpu.regs.pc b :: rest) n

variable {cpu : Cpu} {lines : InterruptLines}

theorem Acts.timed (h : Acts cpu lines accesses n) :
    Timed cpu lines accesses n ∧ Untimed accesses ∧ 1 ≤ n ∧ n ≤ 8 := by
  cases h with
  | jammed stopped => exact ⟨.jammed stopped, by simp [Untimed], by decide, by decide⟩
  | enter dropped dropped' low high running chosen =>
    exact ⟨.entry running chosen, by simp [Untimed], by decide, by decide⟩
  | @execute own extra b running chosen performed =>
    obtain ⟨one_le, most, -⟩ := decode_costs b
    refine ⟨.instruction b running chosen (performed.takes (decode_pairs b)), ?_, ?_, ?_⟩
    · intro n mem
      rcases List.mem_cons.mp mem with same | mem
      · cases same
      · exact performed.untimed n mem
    · exact Nat.le_add_right_of_le one_le
    · exact Nat.le_trans (Nat.add_le_add_left performed.extra_le _) most

variable {β : Type} [Bus β]

/-- On every bus a step ends with the one time that it lets pass: one cycle where the processor
stands still, seven for an interrupt entry, else what its opcode takes, and never more than eight.
The same is added to the count of cycles, which therefore keeps its size, and only a write or that
time itself can stop the step, where the bus refuses it. -/
theorem step_takes (cpu : Cpu) (t : Traced β) :
    Yields (Bus.Refuses t.bus)
      (fun (n, cpu', t') =>
        (∃ accesses, t'.trace = t.trace ++ accesses ++ [.tick n] ∧ Untimed accesses ∧
          Timed cpu (Bus.lines t.bus) accesses n) ∧
        1 ≤ n ∧ n ≤ 8 ∧ cpu'.totalCycles = cpu.totalCycles + n ∧
        (cpu.totalCycles < 0x8000000000000000 → cpu'.totalCycles < 0x10000000000000000))
      (cpu.step t) := by
  refine ((step_acts cpu t).mono ?_).allowing fun _ => Bus.Refuses.traced
  rintro ⟨n, cpu', t'⟩ ⟨counted, accesses, acts, leads⟩
  obtain ⟨timed, untimed, one_le, le_most⟩ := acts.timed
  have traced := leads.traced.2
  rw [← List.append_assoc] at traced
  refine ⟨⟨accesses, traced, untimed, timed⟩, one_le, le_most, counted, ?_⟩
  have counted : cpu'.totalCycles = cpu.totalCycles + n := counted
  intro few
  omega

end C64.Cpu
