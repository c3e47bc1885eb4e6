import C64.Bus.Flat
import C64.Proofs.Cpu.Timing

/-!
# The writes of a step

Which bytes a step writes, where and in which order, is known from the opcode, the registers before
it and the reads by which its mode finds an address: `Wrote` has them by the name of the operation
(`Mnemonic.output`). A step writes these and no others, on every bus (`step_writes`). On flat
memory, all other bytes are therefore after it what they were before.
-/

namespace C64

/-- The addresses and bytes written among accesses, the first in front. -/
def writesOf (accesses : List Access) : List (UInt16 × UInt8) :=
  accesses.filterMap fun
    | .write address value => some (address, value)
    | _ => none

theorem writesOf_append (accesses accesses' : List Access) :
    writesOf (accesses ++ accesses') = writesOf accesses ++ writesOf accesses' :=
  List.filterMap_append

namespace FlatMemory

open Bus (Leads Refuses)

/-- Flat memory takes every write. -/
theorem never_refuses (m : FlatMemory) (e : Fault) : ¬Refuses m e := by
  intro refuses
  cases refuses with
  | write leads run => cases run
  | tick leads run => cases run

/-- Flat memory keeps what is not written. -/
theorem read_of_leads {m m' : FlatMemory} {accesses : List Access} (h : Leads m accesses m')
    {address : UInt16} (apart : address ∉ (writesOf accesses).map Prod.fst) :
    m'.ram.read address = m.ram.read address := by
  induction h with
  | refl => rfl
  | read before other ih =>
    rw [writesOf_append, List.map_append] at apart
    exact ih fun mem => apart (List.mem_append_left _ mem)
  | tick before run ih =>
    cases run
    rw [writesOf_append, List.map_append] at apart
    exact ih fun mem => apart (List.mem_append_left _ mem)
  | @write accesses b b' other value before run ih =>
    cases run
    rw [writesOf_append, List.map_append] at apart
    have differs : other ≠ address := by
      rintro rfl
      exact apart (List.mem_append_right _ (List.mem_singleton.mpr rfl))
    rw [← ih fun mem => apart (List.mem_append_left _ mem)]
    exact (Ram.read_write _ _ _ _).trans (if_neg differs)

end FlatMemory

namespace Cpu

open Bus (Leads Refuses)

variable {op : Opcode} {r : Registers} {accesses own : List Access} {extra n : Nat}

/-! ## What the operations write -/

/-- What an operation writes. -/
inductive Output where
  | nothing
  /-- A byte to the operand's address. -/
  | stored (value : Registers → UInt8)
  /-- A byte that is masked by the high byte of the operand's address. -/
  | masked (value : Registers → UInt8)
  /-- The operand, and what becomes of it. -/
  | changed (result : Status → UInt8 → UInt8)
  /-- Bytes to the stack. -/
  | pushed (bytes : Registers → List UInt8)

/-- What an operation writes, by the registers before the instruction. -/
def Mnemonic.output : Mnemonic → Output
  | .sta => .stored (·.a)
  | .stx => .stored (·.x)
  | .sty => .stored (·.y)
  | .sax => .stored fun r => r.a &&& r.x
  | .sha | .tas => .masked fun r => r.a &&& r.x
  | .shx => .masked (·.x)
  | .shy => .masked (·.y)
  | .asl | .slo => .changed fun _ v => v <<< 1
  | .lsr | .sre => .changed fun _ v => v >>> 1
  | .rol | .rla => .changed fun p v => v <<< 1 ||| p.carryByte
  | .ror | .rra => .changed fun p v => v >>> 1 ||| p.carryByte <<< 7
  | .inc | .isc => .changed fun _ v => v + 1
  | .dec | .dcp => .changed fun _ v => v - 1
  | .pha => .pushed fun r => [r.a]
  | .php => .pushed fun r => [r.p.bits ||| 0x30]
  | .jsr => .pushed fun r => [highByte (r.pc + 2), lowByte (r.pc + 2)]
  | .brk => .pushed fun r => [highByte (r.pc + 2), lowByte (r.pc + 2), r.p.bits ||| 0x30]
  | _ => .nothing

/-- What an action writes is what is said of its operation. -/
def Action.Outputs (a : Action) (output : Output) : Prop :=
  match a with
  | .store value => ∃ f, output = .stored f ∧ ∀ r n, value (Registers.past r n) = f r
  | .storeMasked prepare value =>
    ∃ f, output = .masked f ∧ ∀ r n, value (prepare (Registers.past r n)) = f r
  | .modify shift _ => ∃ f, output = .changed f ∧ ∀ p v, (shift p v).1 = f p v
  | .push value => ∃ f, output = .pushed f ∧ ∀ r n, [value (Registers.past r n)] = f r
  | .callSubroutine => output = Mnemonic.output .jsr
  | .softwareInterrupt => output = Mnemonic.output .brk
  | _ => output = .nothing

theorem toPushed_eq (p : Status) : p.toPushed = p.bits ||| 0x30 := UInt8.or_assoc _ _ _

theorem action_outputs (op : Opcode) : op.action.Outputs op.mnemonic.output := by
  obtain ⟨mnemonic, mode, cycles⟩ := op
  cases mnemonic
  case nop => rcases action_of_nop ⟨.nop, mode, cycles⟩ rfl with same | same <;> rw [same] <;> rfl
  case php => exact ⟨_, rfl, fun r _ => congrArg (fun b => [b]) (toPushed_eq r.p)⟩
  all_goals first
    | exact rfl
    | exact ⟨_, rfl, fun _ _ => rfl⟩

/-- Bytes on the stack, each below the one before, going round within page one. -/
def pushes (s : UInt8) : List UInt8 → List (UInt16 × UInt8)
  | [] => []
  | b :: rest => (0x0100 ||| s.toUInt16, b) :: pushes (s - 1) rest

theorem pushes_three (r : Registers) (b b' b'' : UInt8) :
    pushes r.s [b, b', b''] =
      [(r.stackTop, b), ((r.pushed 1).stackTop, b'), ((r.pushed 2).stackTop, b'')] := by
  rw [← Registers.pushed_pushed r 1 1]
  rfl

/-- What an opcode writes, by the registers before it and the accesses behind it. -/
inductive Opcode.Wrote (op : Opcode) (r : Registers) (rest : List Access) :
    List (UInt16 × UInt8) → Prop
  | nothing : op.mnemonic.output = .nothing → Wrote op r rest []
  | accumulator : op.mode = .accumulator → Wrote op r rest []
  | stored {value : Registers → UInt8} {m : AddressMode} {reads : List Access}
      {base address : UInt16} :
      op.mnemonic.output = .stored value → op.mode = .memory m →
      Finds (r.past 1) m reads base address → reads <+: rest →
      Wrote op r rest [(address, value r)]
  /-- Where indexing leaves the page, the byte is the high byte of its address as well. -/
  | masked {value : Registers → UInt8} {m : AddressMode} {reads : List Access}
      {base address : UInt16} {stored : UInt8} :
      op.mnemonic.output = .masked value → op.mode = .memory m →
      Finds (r.past 1) m reads base address → reads <+: rest →
      stored = value r &&& (highByte base + 1) →
      Wrote op r rest
        [(if highByte base ≠ highByte address then wordOf stored (lowByte address) else address,
          stored)]
  | changed {result : Status → UInt8 → UInt8} {m : AddressMode} {reads : List Access}
      {base address : UInt16} {v : UInt8} :
      op.mnemonic.output = .changed result → op.mode = .memory m →
      Finds (r.past 1) m reads base address → reads <+: rest →
      [.read address v, .write address v, .write address (result r.p v)] <:+ rest →
      Wrote op r rest [(address, v), (address, result r.p v)]
  | pushed {bytes : Registers → List UInt8} {writes : List (UInt16 × UInt8)} :
      op.mnemonic.output = .pushed bytes → writes = pushes r.s (bytes r) → Wrote op r rest writes

theorem OnlyReads.writesOf (h : OnlyReads accesses) : writesOf accesses = [] := by
  refine List.filterMap_eq_nil_iff.mpr fun a mem => ?_
  obtain ⟨address, b, rfl⟩ := h a mem
  rfl

/-- Among the reads of an operand and the accesses behind them, those write. -/
theorem Finds.writesOf {m : AddressMode} {reads fixup last : List Access} {base address : UInt16}
    (found : Finds r m reads base address) (only : OnlyReads fixup) :
    C64.writesOf (reads ++ (fixup ++ last)) = C64.writesOf last := by
  rw [writesOf_append, writesOf_append, found.onlyReads.writesOf, only.writesOf]
  rfl

theorem Opcode.Performs.wrote (h : op.Performs (r.past 1) own extra) :
    op.Wrote r own (writesOf own) := by
  have outputs : ∀ {a : Action}, op.action = a → a.Outputs op.mnemonic.output :=
    fun action => action ▸ action_outputs op
  have two : r.pc + 1 + 1 = r.pc + 2 := UInt16.add_assoc _ _ _
  cases h with
  | immediate v action mode => exact .nothing (outputs action)
  | read v action mode found only =>
    rw [found.writesOf only]
    exact .nothing (outputs action)
  | store action mode found only =>
    obtain ⟨f, output, same⟩ := outputs action
    rw [found.writesOf only, Registers.past_past, same]
    exact .stored output mode found (List.prefix_append _ _)
  | storeMasked action mode found only masked =>
    obtain ⟨f, output, same⟩ := outputs action
    rw [found.writesOf only]
    rw [same] at masked
    exact .masked output mode (finds_of_storeMasked action found) (List.prefix_append _ _) masked
  | accumulator dropped action mode => exact .accumulator mode
  | modify v action mode found only =>
    obtain ⟨f, output, same⟩ := outputs action
    rw [found.writesOf only, same]
    exact .changed output mode found (List.prefix_append _ _)
      ((List.suffix_append _ _).trans (List.suffix_append _ _))
  | internal action => exact .nothing (outputs action)
  | implied dropped action => exact .nothing (outputs action)
  | push dropped action =>
    obtain ⟨f, output, same⟩ := outputs action
    refine .pushed output ?_
    rw [← same r 1]
    rfl
  | pull dropped v action => exact .nothing (outputs action)
  | branch distance action taken htarget => exact .nothing (outputs action)
  | notTaken distance action taken => exact .nothing (outputs action)
  | jump action mode found =>
    rw [found.onlyReads.writesOf]
    exact .nothing (outputs action)
  | callSubroutine low high action =>
    refine .pushed (outputs action) ?_
    rw [← two]
    rfl
  | returnFromSubroutine dropped low high action => exact .nothing (outputs action)
  | returnFromInterrupt dropped p low high action => exact .nothing (outputs action)
  | softwareInterrupt dropped low high action =>
    refine .pushed (outputs action) ?_
    rw [← two, ← toPushed_eq]
    exact (pushes_three (r.past 1) _ _ _).symm
  | halt action => exact .nothing (outputs action)

/-! ## Steps -/

/-- What a step with these accesses writes, by the processor and the interrupt lines as they are
before it. -/
inductive Wrote (cpu : Cpu) (lines : InterruptLines) : List Access → List (UInt16 × UInt8) → Prop
  | jammed : cpu.jammed = true → Wrote cpu lines [] []
  | entry {accesses : List Access} {writes : List (UInt16 × UInt8)} {i : Interrupt} :
      cpu.jammed = false → (cpu.poll lines).1 = some i →
      writes = pushes cpu.regs.s
        [highByte cpu.regs.pc, lowByte cpu.regs.pc, (cpu.regs.p.bits ||| 0x20) &&& 0xEF] →
      Wrote cpu lines accesses writes
  | instruction {rest : List Access} {writes : List (UInt16 × UInt8)} (b : UInt8) :
      cpu.jammed = false → (cpu.poll lines).1 = none →
      (Opcode.decode b).Wrote cpu.regs rest writes →
      Wrote cpu lines (.read cpu.regs.pc b :: rest) writes

theorem Acts.wrote {cpu : Cpu} {lines : InterruptLines} (h : Acts cpu lines accesses n) :
    Wrote cpu lines accesses (writesOf accesses) := by
  cases h with
  | jammed stopped => exact .jammed stopped
  | enter dropped dropped' low high running chosen =>
    exact .entry running chosen (pushes_three cpu.regs _ _ _).symm
  | execute b running chosen performed => exact .instruction b running chosen performed.wrote

/-- A step writes what is said of its opcode, or what an interrupt entry pushes, in that order and
nothing else, on every bus. On flat memory it comes to its end, and every byte that is not written
is as it was. -/
theorem step_writes (cpu : Cpu) :
    (∀ {β : Type} [Bus β] (t : Traced β),
      Yields (Refuses t.bus)
        (fun (n, _, t') => ∃ accesses, t'.trace = t.trace ++ accesses ++ [.tick n] ∧
          Wrote cpu (Bus.lines t.bus) accesses (writesOf accesses))
        (cpu.step t)) ∧
    ∀ m : FlatMemory,
      Succeeds
        (fun (n, _, m') => ∃ accesses, Leads m (accesses ++ [.tick n]) m' ∧
          Wrote cpu m.lines accesses (writesOf accesses) ∧
          ∀ address, address ∉ (writesOf accesses).map Prod.fst →
            m'.ram.read address = m.ram.read address)
        (cpu.step m) := by
  constructor
  · intro β _ t
    refine ((step_acts cpu t).mono ?_).allowing fun _ => Refuses.traced
    rintro ⟨n, cpu', t'⟩ ⟨-, accesses, acts, leads⟩
    refine ⟨accesses, ?_, acts.wrote⟩
    rw [List.append_assoc]
    exact leads.traced.2
  · intro m
    refine ((step_acts cpu m).mono ?_).succeeds m.never_refuses
    rintro ⟨n, cpu', m'⟩ ⟨-, accesses, acts, leads⟩
    refine ⟨accesses, leads, acts.wrote, fun address apart => FlatMemory.read_of_leads leads ?_⟩
    rw [writesOf_append]
    exact (List.append_nil _).symm ▸ apart

end Cpu

end C64
