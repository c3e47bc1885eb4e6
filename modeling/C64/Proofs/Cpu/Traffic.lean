import C64.Bus.Traced
import C64.Proofs.Cpu.Simulation

/-!
# The accesses of a step

What a step does to its bus is a list of accesses, in which every read stands with the byte that
the bus answered. `Bus.Leads` is a bus that has seen such a list. `Finds` says which reads a mode
makes and which address they name, `Opcode.Performs` what an operation does behind its opcode,
`Opcode.Results` which registers it leaves, `Acts` what a step does before its time passes and
`Leaves` which registers that comes to, each with nothing but the registers and the bytes that were
read. A processor keeps to that on every bus (`execute_leads`, `step_leads`), and nothing but the
bus can stop it (`Bus.Refuses`).
-/

namespace C64

namespace Bus

variable {β : Type} [Bus β]

/-- The accesses that take a bus from one state to another, the first in front. -/
inductive Leads (bus : β) : List Access → β → Prop
  | refl : Leads bus [] bus
  | read {accesses : List Access} {b : β} (before : Leads bus accesses b) (address : UInt16) :
      Leads bus (accesses ++ [.read address (Bus.read b address).1]) (Bus.read b address).2
  | write {accesses : List Access} {b b' : β} {address : UInt16} {value : UInt8}
      (before : Leads bus accesses b) (run : Bus.write b address value = .ok b') :
      Leads bus (accesses ++ [.write address value]) b'
  | tick {accesses : List Access} {b b' : β} {n : Nat} (before : Leads bus accesses b)
      (run : Bus.tick b n = .ok b') : Leads bus (accesses ++ [.tick n]) b'

/-- The faults that a write or the passing of time ends in, behind accesses that came out well. -/
inductive Refuses (bus : β) : Fault → Prop
  | write {accesses : List Access} {b : β} {address : UInt16} {value : UInt8} {e : Fault} :
      Leads bus accesses b → Bus.write b address value = .error e → Refuses bus e
  | tick {accesses : List Access} {b : β} {n : Nat} {e : Fault} :
      Leads bus accesses b → Bus.tick b n = .error e → Refuses bus e

/-- A bus that is traced sees what the bus in it sees, and notes that down. -/
theorem Leads.traced {t t' : Traced β} {accesses : List Access} (h : Leads t accesses t') :
    Leads t.bus accesses t'.bus ∧ t'.trace = t.trace ++ accesses := by
  induction h with
  | refl => exact ⟨.refl, by simp⟩
  | read _ address ih =>
    refine ⟨ih.1.read address, ?_⟩
    show List.reverse (_ :: _) = _
    rw [List.reverse_cons, ← List.append_assoc, ← ih.2]
    rfl
  | write _ run ih =>
    obtain ⟨after, hwrite, hret⟩ := bind_eq_ok.mp run
    cases hret
    exact ⟨ih.1.write hwrite, by rw [← List.append_assoc, ← ih.2]; exact List.reverse_cons⟩
  | tick _ run ih =>
    obtain ⟨after, htick, hret⟩ := bind_eq_ok.mp run
    cases hret
    exact ⟨ih.1.tick htick, by rw [← List.append_assoc, ← ih.2]; exact List.reverse_cons⟩

theorem Refuses.traced {t : Traced β} {e : Fault} (h : Refuses t e) : Refuses t.bus e := by
  cases h with
  | write leads run =>
    rcases bind_eq_error.mp run with refused | ⟨_, -, hret⟩
    · exact .write leads.traced.1 refused
    · cases hret
  | tick leads run =>
    rcases bind_eq_error.mp run with refused | ⟨_, -, hret⟩
    · exact .tick leads.traced.1 refused
    · cases hret

end Bus

namespace Cpu

open Bus (Leads Refuses)

/-! ## Words -/

theorem toUInt16_eq_wordOf (b : UInt8) : b.toUInt16 = wordOf 0 b := by
  rw [← UInt16.toNat_inj, toNat_wordOf]
  simp

theorem highByte_toUInt16 (b : UInt8) : highByte b.toUInt16 = 0 := by
  rw [toUInt16_eq_wordOf, highByte_wordOf]

/-- The next byte of a page, going round behind the last. -/
theorem next_inPage (page b : UInt8) :
    wordOf (highByte (wordOf page b)) (lowByte (wordOf page b + 1)) = wordOf page (b + 1) := by
  rw [highByte_wordOf]
  congr 1
  show (wordOf page b + 1).toUInt8 = b + 1
  rw [UInt16.toUInt8_add]
  exact congrArg (· + 1) (lowByte_wordOf page b)

theorem next_inPageZero (b : UInt8) :
    wordOf (highByte b.toUInt16) (lowByte (b.toUInt16 + 1)) = (b + 1).toUInt16 := by
  rw [toUInt16_eq_wordOf, toUInt16_eq_wordOf, next_inPage]

theorem wordOf_ne_iff (high : UInt8) (w : UInt16) :
    wordOf high (lowByte w) ≠ w ↔ high ≠ highByte w := by
  refine not_congr ⟨fun h => ?_, fun h => ?_⟩
  · rw [← h, highByte_wordOf]
  · rw [h, wordOf_bytes]

/-! ## Operands -/

/-- The registers with the program counter behind so many more bytes. -/
def Registers.past (r : Registers) (n : Nat) : Registers := { r with pc := r.pc + UInt16.ofNat n }

theorem Registers.past_past (r : Registers) (m n : Nat) : (r.past m).past n = r.past (m + n) := by
  simp [past, UInt16.ofNat_add, UInt16.add_assoc]

/-- The registers with one more byte, or so many, on the stack. -/
def Registers.pushed (r : Registers) (n : Nat) : Registers := { r with s := r.s - UInt8.ofNat n }

/-- The registers with so many bytes fewer on the stack. -/
def Registers.pulled (r : Registers) (n : Nat) : Registers := { r with s := r.s + UInt8.ofNat n }

theorem Registers.pushed_pushed (r : Registers) (m n : Nat) :
    (r.pushed m).pushed n = r.pushed (m + n) := by
  simp only [pushed, UInt8.ofNat_add, UInt8.sub_eq_add_neg, UInt8.neg_add, UInt8.add_assoc]

theorem Registers.pulled_pulled (r : Registers) (m n : Nat) :
    (r.pulled m).pulled n = r.pulled (m + n) := by
  simp [pulled, UInt8.ofNat_add, UInt8.add_assoc]

theorem Registers.stackTop_inj {r r' : Registers} : r.stackTop = r'.stackTop ↔ r.s = r'.s := by
  have inPage : ∀ r : Registers, r.stackTop = wordOf 0x01 r.s := fun r => rfl
  rw [inPage, inPage]
  constructor
  · intro same
    rw [← lowByte_wordOf 0x01 r.s, same, lowByte_wordOf]
  · exact congrArg _

theorem Registers.pulled_pushed (r : Registers) (m n : Nat) :
    (r.pushed (m + n)).pulled n = r.pushed m := by
  rw [← pushed_pushed]
  simp [pushed, pulled]

theorem Registers.pushed_zero (r : Registers) : r.pushed 0 = r := by
  simp [pushed]

/-- What was pushed in between is pulled in between. -/
theorem Registers.stackTop_pulled {r r' : Registers} (m n : Nat)
    (s : r'.s = (r.pushed (m + n)).s) : (r'.pulled n).stackTop = (r.pushed m).stackTop :=
  stackTop_inj.mpr ((congrArg (· + UInt8.ofNat n) s).trans
    (congrArg Registers.s (r.pulled_pushed m n)))

/-- Whether a mode adds an index to a whole address. -/
def AddressMode.isIndexed : AddressMode → Bool
  | .absoluteX | .absoluteY | .indirectY => true
  | _ => false

/-- The reads by which a mode finds an address, from the operand bytes at the program counter on:
the address before an index is added to it, and behind that. -/
inductive Finds (r : Registers) : AddressMode → List Access → UInt16 → UInt16 → Prop
  | zeroPage (b : UInt8) : Finds r .zeroPage [.read r.pc b] b.toUInt16 b.toUInt16
  | zeroPageX (b dropped : UInt8) :
      Finds r .zeroPageX [.read r.pc b, .read b.toUInt16 dropped] b.toUInt16 (b + r.x).toUInt16
  | zeroPageY (b dropped : UInt8) :
      Finds r .zeroPageY [.read r.pc b, .read b.toUInt16 dropped] b.toUInt16 (b + r.y).toUInt16
  | absolute (low high : UInt8) :
      Finds r .absolute [.read r.pc low, .read (r.pc + 1) high] (wordOf high low) (wordOf high low)
  | absoluteX (low high : UInt8) :
      Finds r .absoluteX [.read r.pc low, .read (r.pc + 1) high] (wordOf high low)
        (wordOf high low + r.x.toUInt16)
  | absoluteY (low high : UInt8) :
      Finds r .absoluteY [.read r.pc low, .read (r.pc + 1) high] (wordOf high low)
        (wordOf high low + r.y.toUInt16)
  /-- The second byte of the address is read from the page of the first. -/
  | indirect (low high low' high' : UInt8) :
      Finds r .indirect [.read r.pc low, .read (r.pc + 1) high, .read (wordOf high low) low',
        .read (wordOf high (low + 1)) high'] (wordOf high' low') (wordOf high' low')
  | indirectX (b dropped low high : UInt8) :
      Finds r .indirectX [.read r.pc b, .read b.toUInt16 dropped, .read (b + r.x).toUInt16 low,
        .read (b + r.x + 1).toUInt16 high] (wordOf high low) (wordOf high low)
  | indirectY (b low high : UInt8) :
      Finds r .indirectY [.read r.pc b, .read b.toUInt16 low, .read (b + 1).toUInt16 high]
        (wordOf high low) (wordOf high low + r.y.toUInt16)

/-- What a mode makes of the address before an index is added, and behind that. -/
def Effective.of (m : AddressMode) (base address : UInt16) : Effective :=
  ⟨address, if m.isIndexed then some (wordOf (highByte base) (lowByte address)) else none⟩

theorem Finds.pageCrossed {r : Registers} {m : AddressMode} {reads : List Access}
    {base address : UInt16} (h : Finds r m reads base address) :
    (Effective.of m base address).pageCrossed = decide (highByte base ≠ highByte address) := by
  have indexed : ∀ base address : UInt16,
      (wordOf (highByte base) (lowByte address) != address) =
        decide (highByte base ≠ highByte address) := fun base address => by
    rw [Bool.eq_iff_iff, bne_iff_ne, decide_eq_true_iff]
    exact wordOf_ne_iff _ _
  have inPageZero : ∀ b b' : UInt8,
      false = decide (highByte b.toUInt16 ≠ highByte b'.toUInt16) := fun b b' => by
    rw [highByte_toUInt16, highByte_toUInt16]
    rfl
  have direct : ∀ address : UInt16, false = decide (highByte address ≠ highByte address) :=
    fun _ => by simp
  cases h with
  | zeroPageX b dropped => exact inPageZero _ _
  | zeroPageY b dropped => exact inPageZero _ _
  | absoluteX low high => exact indexed _ _
  | absoluteY low high => exact indexed _ _
  | indirectY b low high => exact indexed _ _
  | _ => exact direct _

theorem Finds.uncorrected {r : Registers} {m : AddressMode} {reads : List Access}
    {base address : UInt16} (h : Finds r m reads base address) :
    highByte ((Effective.of m base address).uncorrected.getD (Effective.of m base address).address) =
      highByte base := by
  cases h with
  | absoluteX low high => exact highByte_wordOf _ _
  | absoluteY low high => exact highByte_wordOf _ _
  | indirectY b low high => exact highByte_wordOf _ _
  | zeroPageX b dropped => exact (highByte_toUInt16 _).trans (highByte_toUInt16 b).symm
  | zeroPageY b dropped => exact (highByte_toUInt16 _).trans (highByte_toUInt16 b).symm
  | _ => rfl

/-- Accesses that are nothing but reads. -/
def OnlyReads (accesses : List Access) : Prop := ∀ a ∈ accesses, ∃ address b, a = .read address b

theorem Finds.onlyReads {r : Registers} {m : AddressMode} {reads : List Access}
    {base address : UInt16} (h : Finds r m reads base address) : OnlyReads reads := by
  cases h <;> simp [OnlyReads]

/-! ## The core -/

variable {β : Type} [Bus β] {bus : β} {accesses : List Access} {r : Registers}

namespace Core

/-- A core after accesses to the bus, with its registers. -/
structure After (bus : β) (accesses : List Access) (r : Registers) (c : Core β) : Prop where
  leads : Leads bus accesses c.bus
  regs : c.regs = r

variable {c : Core β}

theorem After.read (h : c.After bus accesses r) (address : UInt16) :
    (c.read address).2.After bus (accesses ++ [.read address (c.read address).1]) r :=
  ⟨h.leads.read address, h.regs⟩

theorem After.touch (h : c.After bus accesses r) {address : UInt16} {at' : UInt16}
    (same : address = at') :
    ∃ dropped, (c.touch address).After bus (accesses ++ [.read at' dropped]) r :=
  same ▸ ⟨_, h.read address⟩

theorem After.write (h : c.After bus accesses r) (address : UInt16) (b : UInt8) :
    Yields (Refuses bus) (After bus (accesses ++ [.write address b]) r) (c.write address b) := by
  obtain ⟨regs, bus'⟩ := c
  unfold Core.write
  simp only []
  cases hwrite : Bus.write bus' address b with
  | ok after => exact ⟨h.leads.write hwrite, h.regs⟩
  | error e => exact Refuses.write h.leads hwrite

theorem After.mapRegs (h : c.After bus accesses r) (f : Registers → Registers) :
    (c.mapRegs f).After bus accesses (f r) :=
  ⟨h.leads, congrArg f h.regs⟩

theorem After.fetch (h : c.After bus accesses r) :
    c.fetch.2.After bus (accesses ++ [.read r.pc c.fetch.1]) (r.past 1) := by
  obtain ⟨leads, rfl⟩ := h
  exact ⟨leads.read c.regs.pc, rfl⟩

theorem After.fetchWord (h : c.After bus accesses r) :
    ∃ low high, c.fetchWord.1 = wordOf high low ∧
      c.fetchWord.2.After bus (accesses ++ [.read r.pc low, .read (r.pc + 1) high]) (r.past 2) := by
  have both := h.fetch.fetch
  rw [Registers.past_past, List.append_assoc] at both
  exact ⟨_, _, rfl, both⟩

theorem After.readWord (h : c.After bus accesses r) (address : UInt16) :
    ∃ low high, (c.readWord address).1 = wordOf high low ∧ (c.readWord address).2.After bus
      (accesses ++ [.read address low, .read (address + 1) high]) r := by
  have both := (h.read address).read (address + 1)
  rw [List.append_assoc] at both
  exact ⟨_, _, rfl, both⟩

theorem After.readWordInPage (h : c.After bus accesses r) {address next : UInt16}
    (inPage : wordOf (highByte address) (lowByte (address + 1)) = next) :
    ∃ low high, (c.readWordInPage address).1 = wordOf high low ∧
      (c.readWordInPage address).2.After bus
        (accesses ++ [.read address low, .read next high]) r := by
  subst inPage
  have both := (h.read address).read (wordOf (highByte address) (lowByte (address + 1)))
  rw [List.append_assoc] at both
  exact ⟨_, _, rfl, both⟩

theorem After.push (h : c.After bus accesses r) (b : UInt8) :
    Yields (Refuses bus) (After bus (accesses ++ [.write r.stackTop b]) (r.pushed 1)) (c.push b) := by
  obtain ⟨leads, rfl⟩ := h
  exact After.write (c := { c with regs.s := c.regs.s - 1 }) ⟨leads, rfl⟩ _ b

theorem After.pushWord (h : c.After bus accesses r) (w : UInt16) :
    Yields (Refuses bus)
      (After bus (accesses ++ [.write r.stackTop (highByte w),
        .write (r.pushed 1).stackTop (lowByte w)]) (r.pushed 2)) (c.pushWord w) := by
  refine (h.push (highByte w)).bind fun c h => ?_
  have both := h.push (lowByte w)
  rwa [List.append_assoc, Registers.pushed_pushed] at both

theorem After.pull (h : c.After bus accesses r) :
    c.pull.2.After bus (accesses ++ [.read (r.pulled 1).stackTop c.pull.1]) (r.pulled 1) := by
  obtain ⟨leads, rfl⟩ := h
  exact After.read (c := { c with regs.s := c.regs.s + 1 }) ⟨leads, rfl⟩ _

theorem After.pullWord (h : c.After bus accesses r) :
    ∃ low high, c.pullWord.1 = wordOf high low ∧ c.pullWord.2.After bus
      (accesses ++ [.read (r.pulled 1).stackTop low, .read (r.pulled 2).stackTop high])
      (r.pulled 2) := by
  have both := h.pull.pull
  rw [Registers.pulled_pulled, List.append_assoc] at both
  exact ⟨_, _, rfl, both⟩

/-! ### Addresses -/

theorem After.effective (h : c.After bus accesses r) (m : AddressMode) :
    ∃ reads base address, Finds r m reads base address ∧
      (c.effective m).1 = .of m base address ∧
      (c.effective m).2.After bus (accesses ++ reads) (r.past (Mode.memory m).operandLength) := by
  cases m with
  | zeroPage => exact ⟨_, _, _, .zeroPage _, rfl, h.fetch⟩
  | zeroPageX =>
    have fetched := h.fetch
    obtain ⟨dropped, after⟩ := fetched.touch (rfl : c.fetch.1.toUInt16 = _)
    rw [List.append_assoc] at after
    refine ⟨_, _, _, .zeroPageX _ dropped, ?_, after⟩
    show Effective.direct (c.fetch.1 + c.fetch.2.regs.x).toUInt16 = _
    rw [fetched.regs]
    rfl
  | zeroPageY =>
    have fetched := h.fetch
    obtain ⟨dropped, after⟩ := fetched.touch (rfl : c.fetch.1.toUInt16 = _)
    rw [List.append_assoc] at after
    refine ⟨_, _, _, .zeroPageY _ dropped, ?_, after⟩
    show Effective.direct (c.fetch.1 + c.fetch.2.regs.y).toUInt16 = _
    rw [fetched.regs]
    rfl
  | absolute =>
    obtain ⟨low, high, word, after⟩ := h.fetchWord
    exact ⟨_, _, _, .absolute low high, congrArg Effective.direct word, after⟩
  | absoluteX =>
    obtain ⟨low, high, word, after⟩ := h.fetchWord
    refine ⟨_, _, _, .absoluteX low high, ?_, after⟩
    show Effective.indexed c.fetchWord.1 c.fetchWord.2.regs.x = _
    rw [word, after.regs]
    rfl
  | absoluteY =>
    obtain ⟨low, high, word, after⟩ := h.fetchWord
    refine ⟨_, _, _, .absoluteY low high, ?_, after⟩
    show Effective.indexed c.fetchWord.1 c.fetchWord.2.regs.y = _
    rw [word, after.regs]
    rfl
  | indirect =>
    obtain ⟨low, high, pointer, fetched⟩ := h.fetchWord
    obtain ⟨low', high', word, after⟩ := fetched.readWordInPage (next_inPage high low)
    rw [List.append_assoc] at after
    refine ⟨_, _, _, .indirect low high low' high', ?_, ?_⟩
    · show Effective.direct (c.fetchWord.2.readWordInPage c.fetchWord.1).1 = _
      rw [pointer, word]
      rfl
    · show (c.fetchWord.2.readWordInPage c.fetchWord.1).2.After _ _ _
      rw [pointer]
      exact after
  | indirectX =>
    have fetched := h.fetch
    obtain ⟨dropped, touched⟩ := fetched.touch (rfl : c.fetch.1.toUInt16 = _)
    obtain ⟨low, high, word, after⟩ := touched.readWordInPage (next_inPageZero (c.fetch.1 + r.x))
    rw [List.append_assoc, List.append_assoc] at after
    have found : c.effective .indirectX =
        let found := (c.fetch.2.touch c.fetch.1.toUInt16).readWordInPage
          (c.fetch.1 + (c.fetch.2.touch c.fetch.1.toUInt16).regs.x).toUInt16
        (.direct found.1, found.2) := rfl
    rw [touched.regs] at found
    refine ⟨_, _, _, .indirectX c.fetch.1 dropped low high, ?_, ?_⟩
    · rw [found]
      exact congrArg Effective.direct word
    · rw [found]
      exact after
  | indirectY =>
    obtain ⟨low, high, word, after⟩ := h.fetch.readWordInPage (next_inPageZero c.fetch.1)
    rw [List.append_assoc] at after
    refine ⟨_, _, _, .indirectY _ low high, ?_, after⟩
    show Effective.indexed (c.fetch.2.readWordInPage c.fetch.1.toUInt16).1
      (c.fetch.2.readWordInPage c.fetch.1.toUInt16).2.regs.y = _
    rw [word, after.regs]
    rfl

theorem After.readAddress (h : c.After bus accesses r) (m : AddressMode) :
    ∃ reads fixup base address, Finds r m reads base address ∧ OnlyReads fixup ∧
      (c.readAddress m).1 = .of m base address ∧
      (c.readAddress m).2.After bus (accesses ++ (reads ++ fixup))
        (r.past (Mode.memory m).operandLength) := by
  obtain ⟨reads, base, address, found, heq, after⟩ := h.effective m
  unfold Core.readAddress
  simp only [heq]
  split
  · next u _ =>
    split
    · have touched := after.read u
      rw [List.append_assoc] at touched
      exact ⟨reads, _, base, address, found, by simp [OnlyReads], rfl, touched⟩
    · exact ⟨reads, [], base, address, found, by simp [OnlyReads], rfl, by simpa using after⟩
  · exact ⟨reads, [], base, address, found, by simp [OnlyReads], rfl, by simpa using after⟩

theorem After.writeAddress (h : c.After bus accesses r) (m : AddressMode) :
    ∃ reads fixup base address, Finds r m reads base address ∧ OnlyReads fixup ∧
      (c.writeAddress m).1 = .of m base address ∧
      (c.writeAddress m).2.After bus (accesses ++ (reads ++ fixup))
        (r.past (Mode.memory m).operandLength) := by
  obtain ⟨reads, base, address, found, heq, after⟩ := h.effective m
  unfold Core.writeAddress
  simp only [heq]
  split
  · next u _ =>
    have touched := after.read u
    rw [List.append_assoc] at touched
    exact ⟨reads, _, base, address, found, by simp [OnlyReads], rfl, touched⟩
  · exact ⟨reads, [], base, address, found, by simp [OnlyReads], rfl, by simpa using after⟩

end Core

/-! ## Operations -/

/-- What an operation does behind its opcode, with the registers as they are there: its accesses,
and the cycles beyond its own. An indexed mode may read a wrong address before the right one. -/
inductive Opcode.Performs (op : Opcode) (r : Registers) : List Access → Nat → Prop
  | immediate {apply : Config → Registers → UInt8 → Registers} (v : UInt8) :
      op.action = .read apply → op.mode = .immediate → Performs op r [.read r.pc v] 0
  | read {apply : Config → Registers → UInt8 → Registers} {m : AddressMode}
      {reads fixup : List Access} {base address : UInt16} (v : UInt8) :
      op.action = .read apply → op.mode = .memory m → Finds r m reads base address →
      OnlyReads fixup →
      Performs op r (reads ++ (fixup ++ [.read address v]))
        (if highByte base ≠ highByte address ∧ op.pagePenalty then 1 else 0)
  | store {value : Registers → UInt8} {m : AddressMode} {reads fixup : List Access}
      {base address : UInt16} :
      op.action = .store value → op.mode = .memory m → Finds r m reads base address →
      OnlyReads fixup →
      Performs op r
        (reads ++ (fixup ++ [.write address (value (r.past op.mode.operandLength))])) 0
  | storeMasked {prepare : Registers → Registers} {value : Registers → UInt8} {m : AddressMode}
      {reads fixup : List Access} {base address : UInt16} {stored : UInt8} :
      op.action = .storeMasked prepare value → op.mode = .memory m →
      Finds (prepare r) m reads base address → OnlyReads fixup →
      stored = value (prepare r) &&& (highByte base + 1) →
      Performs op r
        (reads ++ (fixup ++
          [.write (if highByte base ≠ highByte address then wordOf stored (lowByte address)
            else address) stored])) 0
  | accumulator {shift : Shift} {apply : Registers → UInt8 → Registers} (dropped : UInt8) :
      op.action = .modify shift apply → op.mode = .accumulator →
      Performs op r [.read r.pc dropped] 0
  | modify {shift : Shift} {apply : Registers → UInt8 → Registers} {m : AddressMode}
      {reads fixup : List Access} {base address : UInt16} (v : UInt8) :
      op.action = .modify shift apply → op.mode = .memory m → Finds r m reads base address →
      OnlyReads fixup →
      Performs op r
        (reads ++ (fixup ++
          [.read address v, .write address v, .write address (shift r.p v).1])) 0
  | internal {apply : Registers → Registers} : op.action = .internal apply → Performs op r [] 0
  | implied {apply : Registers → Registers} (dropped : UInt8) :
      op.action = .implied apply → Performs op r [.read r.pc dropped] 0
  | push {value : Registers → UInt8} (dropped : UInt8) :
      op.action = .push value →
      Performs op r [.read r.pc dropped, .write r.stackTop (value r)] 0
  | pull {apply : Registers → UInt8 → Registers} (dropped v : UInt8) :
      op.action = .pull apply →
      Performs op r [.read r.pc dropped, .read (r.pulled 1).stackTop v] 0
  | branch {taken : Status → Bool} {target : UInt16} (distance : UInt8) :
      op.action = .branch taken → taken r.p = true →
      target = r.pc + 1 + distance.toInt8.toInt16.toUInt16 →
      Performs op r [.read r.pc distance] (if highByte (r.pc + 1) = highByte target then 1 else 2)
  | notTaken {taken : Status → Bool} (distance : UInt8) :
      op.action = .branch taken → taken r.p = false → Performs op r [.read r.pc distance] 0
  | jump {m : AddressMode} {reads : List Access} {base address : UInt16} :
      op.action = .jump → op.mode = .memory m → Finds r m reads base address →
      Performs op r reads 0
  | callSubroutine (low high : UInt8) :
      op.action = .callSubroutine →
      Performs op r
        [.read r.pc low, .read (r.pc + 1) high, .write r.stackTop (highByte (r.pc + 1)),
          .write (r.pushed 1).stackTop (lowByte (r.pc + 1))] 0
  | returnFromSubroutine (dropped low high : UInt8) :
      op.action = .returnFromSubroutine →
      Performs op r
        [.read r.pc dropped, .read (r.pulled 1).stackTop low, .read (r.pulled 2).stackTop high] 0
  | returnFromInterrupt (dropped p low high : UInt8) :
      op.action = .returnFromInterrupt →
      Performs op r
        [.read r.pc dropped, .read (r.pulled 1).stackTop p, .read (r.pulled 2).stackTop low,
          .read (r.pulled 3).stackTop high] 0
  | softwareInterrupt (dropped low high : UInt8) :
      op.action = .softwareInterrupt →
      Performs op r
        [.read r.pc dropped, .write r.stackTop (highByte (r.pc + 1)),
          .write (r.pushed 1).stackTop (lowByte (r.pc + 1)),
          .write (r.pushed 2).stackTop r.p.toPushed,
          .read irqVector low, .read (irqVector + 1) high] 0
  | halt : op.action = .halt → Performs op r [] 0

/-- What an operation makes of the registers behind its opcode, by the bytes among its accesses. -/
inductive Opcode.Results (config : Config) (op : Opcode) (r : Registers) :
    List Access → Registers → Prop
  | read {apply : Config → Registers → UInt8 → Registers} {before : List Access}
      {address : UInt16} (v : UInt8) :
      op.action = .read apply →
      Results config op r (before ++ [.read address v])
        (apply config (r.past op.mode.operandLength) v)
  | store {value : Registers → UInt8} {own : List Access} :
      op.action = .store value → Results config op r own (r.past op.mode.operandLength)
  | storeMasked {prepare : Registers → Registers} {value : Registers → UInt8}
      {own : List Access} :
      op.action = .storeMasked prepare value →
      Results config op r own ((prepare r).past op.mode.operandLength)
  | accumulator {shift : Shift} {apply : Registers → UInt8 → Registers} {own : List Access} :
      op.action = .modify shift apply → op.mode = .accumulator →
      Results config op r own
        (apply { r with a := (shift r.p r.a).1, p := (shift r.p r.a).2 } (shift r.p r.a).1)
  | modify {shift : Shift} {apply : Registers → UInt8 → Registers} {m : AddressMode}
      {before : List Access} {address : UInt16} (v : UInt8) :
      op.action = .modify shift apply → op.mode = .memory m →
      Results config op r
        (before ++ [.read address v, .write address v, .write address (shift r.p v).1])
        (apply { r.past op.mode.operandLength with p := (shift r.p v).2 } (shift r.p v).1)
  | internal {apply : Registers → Registers} {own : List Access} :
      op.action = .internal apply → Results config op r own (apply r)
  | implied {apply : Registers → Registers} {own : List Access} :
      op.action = .implied apply → Results config op r own (apply r)
  | push {value : Registers → UInt8} {own : List Access} :
      op.action = .push value → Results config op r own (r.pushed 1)
  | pull {apply : Registers → UInt8 → Registers} {first : Access} {address : UInt16} (v : UInt8) :
      op.action = .pull apply →
      Results config op r [first, .read address v] (apply (r.pulled 1) v)
  | branch {taken : Status → Bool} {address : UInt16} (distance : UInt8) :
      op.action = .branch taken → taken r.p = true →
      Results config op r [.read address distance]
        { r with pc := r.pc + 1 + distance.toInt8.toInt16.toUInt16 }
  | notTaken {taken : Status → Bool} {own : List Access} :
      op.action = .branch taken → taken r.p = false → Results config op r own (r.past 1)
  | jump {m : AddressMode} {reads : List Access} {base address : UInt16} :
      op.action = .jump → op.mode = .memory m → Finds r m reads base address →
      Results config op r reads { r with pc := address }
  | callSubroutine {writes : List Access} (low high : UInt8) :
      op.action = .callSubroutine →
      Results config op r (.read r.pc low :: .read (r.pc + 1) high :: writes)
        { r.pushed 2 with pc := wordOf high low }
  | returnFromSubroutine {first : Access} {address address' : UInt16} (low high : UInt8) :
      op.action = .returnFromSubroutine →
      Results config op r [first, .read address low, .read address' high]
        { r.pulled 2 with pc := wordOf high low + 1 }
  | returnFromInterrupt {first : Access} {address address' address'' : UInt16}
      (p low high : UInt8) :
      op.action = .returnFromInterrupt →
      Results config op r [first, .read address p, .read address' low, .read address'' high]
        { r.pulled 3 with p := .ofByte p, pc := wordOf high low }
  | softwareInterrupt {first second third fourth : Access} (low high : UInt8) :
      op.action = .softwareInterrupt →
      Results config op r
        [first, second, third, fourth, .read irqVector low, .read (irqVector + 1) high]
        { r.pushed 3 with p := r.p.put .interrupt true, pc := wordOf high low }
  | halt {own : List Access} :
      op.action = .halt → Results config op r own { r with pc := r.pc - 1 }

/-- The operation has been carried out behind other accesses. -/
def Opcode.Carried (op : Opcode) (config : Config) (bus : β) (accesses : List Access)
    (r : Registers) (out : Nat × Core β) : Prop :=
  ∃ own r', op.Performs r own out.1 ∧ op.Results config r own r' ∧
    out.2.After bus (accesses ++ own) r'

namespace Core

variable {c : Core β}

theorem After.readOperand (h : c.After bus accesses r) (config : Config) {op : Opcode}
    {apply : Config → Registers → UInt8 → Registers} (action : op.action = .read apply)
    (fits : op.mode = .immediate ∨ ∃ m, op.mode = .memory m) :
    Yields (Refuses bus)
      (fun out =>
        op.Carried config bus accesses r (out.2.1, out.2.2.mapRegs (apply config · out.1)))
      (c.readOperand op) := by
  have results (before : List Access) (address : UInt16) (v : UInt8) :
      op.Results config r (before ++ [.read address v])
        (apply config (r.past op.mode.operandLength) v) := .read v action
  unfold Core.readOperand
  rcases fits with mode | ⟨m, mode⟩
  · rw [mode] at results ⊢
    exact ⟨_, _, .immediate _ action mode, results [] _ _, h.fetch.mapRegs (apply config · _)⟩
  · rw [mode] at results ⊢
    obtain ⟨reads, fixup, base, address, found, only, heq, after⟩ := h.readAddress m
    have last := after.read address
    rw [List.append_assoc, List.append_assoc] at last
    have performed :=
      Opcode.Performs.read ((c.readAddress m).2.read address).1 action mode found only
    have left := results (reads ++ fixup) address ((c.readAddress m).2.read address).1
    rw [List.append_assoc] at left
    simp only [heq, found.pageCrossed, Bool.and_eq_true, decide_eq_true_eq]
    exact ⟨_, _, performed, left, last.mapRegs (apply config · _)⟩

theorem After.storeMasked (h : c.After bus accesses r) {m : AddressMode} (value : UInt8) :
    Yields (Refuses bus)
      (fun c => ∃ reads fixup base address stored, Finds r m reads base address ∧
        OnlyReads fixup ∧ stored = value &&& (highByte base + 1) ∧
        c.After bus (accesses ++ (reads ++ (fixup ++
          [.write (if highByte base ≠ highByte address then wordOf stored (lowByte address)
            else address) stored]))) (r.past (Mode.memory m).operandLength))
      (c.storeMasked (.memory m) value) := by
  obtain ⟨reads, fixup, base, address, found, only, heq, after⟩ := h.writeAddress m
  unfold Core.storeMasked
  simp only [Core.writeOperand, ok_bind, heq, found.pageCrossed, found.uncorrected,
    decide_eq_true_eq]
  refine (after.write _ _).mono fun c h => ?_
  rw [List.append_assoc, List.append_assoc] at h
  exact ⟨reads, fixup, base, address, _, found, only, rfl, h⟩

theorem After.modify (h : c.After bus accesses r) (config : Config) {op : Opcode} {shift : Shift}
    {apply : Registers → UInt8 → Registers} (action : op.action = .modify shift apply)
    (fits : op.mode = .accumulator ∨ ∃ m, op.mode = .memory m) :
    Yields (Refuses bus)
      (fun out => op.Carried config bus accesses r (0, out.2.mapRegs (apply · out.1)))
      (c.modify op.mode shift) := by
  rcases fits with mode | ⟨m, mode⟩
  · rw [mode]
    obtain ⟨dropped, after⟩ := h.touch (congrArg Registers.pc h.regs)
    have shifted : shift (c.touch c.regs.pc).regs.p (c.touch c.regs.pc).regs.a = shift r.p r.a := by
      rw [after.regs]
    unfold Core.modify
    simp only [shifted]
    exact ⟨_, _, .accumulator dropped action mode, .accumulator action mode,
      (after.mapRegs fun r' => { r' with a := (shift r.p r.a).1, p := (shift r.p r.a).2 }).mapRegs
        (apply · (shift r.p r.a).1)⟩
  · have results (before : List Access) (address : UInt16) (v : UInt8) :
        op.Results config r
          (before ++ [.read address v, .write address v, .write address (shift r.p v).1])
          (apply { r.past op.mode.operandLength with p := (shift r.p v).2 } (shift r.p v).1) :=
      .modify v action mode
    rw [mode] at results ⊢
    obtain ⟨reads, fixup, base, address, found, only, heq, after⟩ := h.writeAddress m
    have left := results (reads ++ fixup) address ((c.writeAddress m).2.read address).1
    unfold Core.modify
    simp only [Core.writeOperand, ok_bind, heq]
    refine ((after.read address).write address _).bind fun c h => ?_
    rw [congrArg Registers.p h.regs]
    refine ((h.mapRegs fun r' => { r' with p := _ }).write address _).bind fun c h => ?_
    simp only [List.append_assoc, List.cons_append, List.nil_append] at h left
    exact ⟨_, _, .modify _ action mode found only, left, h.mapRegs (apply · _)⟩

theorem After.branch (h : c.After bus accesses r) (config : Config) {op : Opcode}
    {taken : Status → Bool} (action : op.action = .branch taken) :
    op.Carried config bus accesses r (c.branch (taken c.regs.p)) := by
  have fetched := h.fetch
  unfold Core.branch
  simp only [congrArg Registers.pc fetched.regs, congrArg Registers.p h.regs]
  split
  · next jumps =>
    exact ⟨_, _, .branch c.fetch.1 action jumps rfl, .branch c.fetch.1 action jumps,
      fetched.mapRegs fun r' => { r' with pc := _ }⟩
  · next stays =>
    have stays : taken r.p = false := by simpa using stays
    exact ⟨_, _, .notTaken c.fetch.1 action stays, .notTaken action stays, fetched⟩

/-- An operation keeps to what its shape says, on every bus. -/
theorem After.perform (h : c.After bus accesses r) (config : Config) {op : Opcode}
    (fits : op.action.accepts op.mode = true) :
    Yields (Refuses bus) (op.Carried config bus accesses r) (c.perform config op) := by
  have pc : c.regs.pc = r.pc := congrArg Registers.pc h.regs
  unfold Core.perform
  cases action : op.action with
  | read apply =>
    simp only [action, Action.accepts, Bool.or_eq_true, decide_eq_true_eq,
      Mode.isMemory_iff] at fits
    exact (h.readOperand config action fits).bind fun _ h => h
  | store value =>
    simp only [action, Action.accepts, Mode.isMemory_iff] at fits
    obtain ⟨m, mode⟩ := fits
    obtain ⟨reads, fixup, base, address, found, only, heq, after⟩ := h.writeAddress m
    simp only [mode, Core.writeOperand, ok_bind, heq, after.regs]
    refine (after.write address _).bind fun c h => ?_
    rw [List.append_assoc, List.append_assoc, ← mode] at h
    exact ⟨_, _, .store action mode found only, .store action, h⟩
  | storeMasked prepare value =>
    simp only [action, Action.accepts, Mode.isMemory_iff] at fits
    obtain ⟨m, mode⟩ := fits
    simp only [mode]
    have prepared := h.mapRegs prepare
    refine (prepared.storeMasked (value (c.mapRegs prepare).regs)).bind ?_
    rintro c ⟨reads, fixup, base, address, stored, found, only, masked, h⟩
    rw [prepared.regs] at masked
    rw [← mode] at h
    exact ⟨_, _, .storeMasked action mode found only masked, .storeMasked action, h⟩
  | modify shift apply =>
    simp only [action, Action.accepts, Bool.or_eq_true, decide_eq_true_eq,
      Mode.isMemory_iff] at fits
    exact (h.modify config action fits).bind fun _ h => h
  | internal apply =>
    have after := h.mapRegs apply
    rw [← List.append_nil accesses] at after
    exact ⟨[], _, .internal action, .internal action, after⟩
  | implied apply =>
    obtain ⟨dropped, after⟩ := h.touch pc
    exact ⟨_, _, .implied dropped action, .implied action, after.mapRegs apply⟩
  | push value =>
    obtain ⟨dropped, after⟩ := h.touch pc
    simp only [after.regs]
    refine (after.push _).bind fun c h => ?_
    rw [List.append_assoc] at h
    exact ⟨_, _, .push dropped action, .push action, h⟩
  | pull apply =>
    obtain ⟨dropped, after⟩ := h.touch pc
    have pulled := after.pull
    rw [List.append_assoc] at pulled
    exact ⟨_, _, .pull dropped _ action, .pull (c.touch c.regs.pc).pull.1 action,
      pulled.mapRegs (apply · _)⟩
  | branch taken => exact h.branch config action
  | jump =>
    simp only [action, Action.accepts, Mode.isMemory_iff] at fits
    obtain ⟨m, mode⟩ := fits
    obtain ⟨reads, base, address, found, heq, after⟩ := h.effective m
    have target : (c.effective m).1.address = address := by
      rw [heq]
      rfl
    simp only [mode, ok_bind, target]
    exact ⟨reads, _, .jump action mode found, .jump action mode found,
      after.mapRegs fun r' => { r' with pc := address }⟩
  | callSubroutine =>
    obtain ⟨low, high, target, after⟩ := h.fetchWord
    have last : c.fetchWord.2.regs.pc - 1 = r.pc + 1 := by
      rw [after.regs]
      exact UInt16.add_sub_cancel (r.pc + 1) 1 ▸ congrArg (· - 1) (UInt16.add_assoc r.pc 1 1).symm
    simp only [target]
    refine (after.pushWord (c.fetchWord.2.regs.pc - 1)).bind fun c h => ?_
    rw [List.append_assoc, last] at h
    exact ⟨_, _, .callSubroutine low high action, .callSubroutine low high action,
      h.mapRegs fun r' => { r' with pc := wordOf high low }⟩
  | returnFromSubroutine =>
    obtain ⟨dropped, after⟩ := h.touch pc
    obtain ⟨low, high, address, after⟩ := after.pullWord
    rw [List.append_assoc] at after
    simp only [address]
    exact ⟨_, _, .returnFromSubroutine dropped low high action,
      .returnFromSubroutine low high action,
      after.mapRegs fun r' => { r' with pc := wordOf high low + 1 }⟩
  | returnFromInterrupt =>
    obtain ⟨dropped, after⟩ := h.touch pc
    obtain ⟨low, high, address, after⟩ := after.pull.pullWord
    rw [List.append_assoc, List.append_assoc, Registers.pulled_pulled, Registers.pulled_pulled]
      at after
    simp only [address]
    exact ⟨_, _, .returnFromInterrupt dropped _ low high action,
      .returnFromInterrupt (c.touch c.regs.pc).pull.1 low high action,
      after.mapRegs fun r' => { r' with p := .ofByte _, pc := wordOf high low }⟩
  | softwareInterrupt =>
    have fetched := h.fetch
    have next : c.fetch.2.regs.pc = r.pc + 1 := congrArg Registers.pc fetched.regs
    refine (fetched.pushWord c.fetch.2.regs.pc).bind fun c' pushed => ?_
    refine (pushed.push c'.regs.p.toPushed).bind fun c pushed' => ?_
    obtain ⟨low, high, address, after⟩ := pushed'.readWord irqVector
    rw [List.append_assoc, List.append_assoc, List.append_assoc, next,
      congrArg Registers.p pushed.regs, Registers.pushed_pushed] at after
    simp only [address]
    exact ⟨_, _, .softwareInterrupt _ low high action, .softwareInterrupt low high action,
      after.mapRegs fun r' => { r' with p := r'.p.put .interrupt true, pc := wordOf high low }⟩
  | halt =>
    have after := h.mapRegs fun r' => { r' with pc := r'.pc - 1 }
    rw [← List.append_nil accesses] at after
    exact ⟨[], _, .halt action, .halt action, after⟩

end Core

/-! ## Steps -/

/-- What a step does before its time passes, with the processor and the interrupt lines as they
are before it: its accesses, and the cycles it takes. -/
inductive Acts (cpu : Cpu) (lines : InterruptLines) : List Access → Nat → Prop
  | jammed : cpu.jammed = true → Acts cpu lines [] 1
  | enter {i : Interrupt} (dropped dropped' low high : UInt8) :
      cpu.jammed = false → (cpu.poll lines).1 = some i →
      Acts cpu lines
        [.read cpu.regs.pc dropped, .read cpu.regs.pc dropped',
          .write cpu.regs.stackTop (highByte cpu.regs.pc),
          .write (cpu.regs.pushed 1).stackTop (lowByte cpu.regs.pc),
          .write (cpu.regs.pushed 2).stackTop cpu.regs.p.toInterrupted,
          .read i.vector low, .read (i.vector + 1) high] interruptCycles
  | execute {own : List Access} {extra : Nat} (b : UInt8) :
      cpu.jammed = false → (cpu.poll lines).1 = none →
      (Opcode.decode b).Performs (cpu.regs.past 1) own extra →
      Acts cpu lines (.read cpu.regs.pc b :: own) ((Opcode.decode b).cycles + extra)

/-- The registers behind a step with these accesses, with the processor and the interrupt lines as
they are before it. -/
inductive Leaves (cpu : Cpu) (lines : InterruptLines) : List Access → Registers → Prop
  | jammed : cpu.jammed = true → Leaves cpu lines [] cpu.regs
  | enter {i : Interrupt} (before : List Access) (low high : UInt8) :
      cpu.jammed = false → (cpu.poll lines).1 = some i →
      Leaves cpu lines (before ++ [.read i.vector low, .read (i.vector + 1) high])
        { cpu.regs.pushed 3 with p := cpu.regs.p.put .interrupt true, pc := wordOf high low }
  | execute {own : List Access} {after : Registers} (b : UInt8) :
      cpu.jammed = false → (cpu.poll lines).1 = none →
      (Opcode.decode b).Results cpu.config (cpu.regs.past 1) own after →
      Leaves cpu lines (.read cpu.regs.pc b :: own) after

theorem enter_leads (cpu : Cpu) (bus : β) (i : Interrupt) :
    Yields (Refuses bus)
      (fun out => out.1.totalCycles = cpu.totalCycles ∧ ∃ dropped dropped' low high,
        out.1.regs = { cpu.regs.pushed 3 with
          p := cpu.regs.p.put .interrupt true, pc := wordOf high low } ∧
        Leads bus
          [.read cpu.regs.pc dropped, .read cpu.regs.pc dropped',
            .write cpu.regs.stackTop (highByte cpu.regs.pc),
            .write (cpu.regs.pushed 1).stackTop (lowByte cpu.regs.pc),
            .write (cpu.regs.pushed 2).stackTop cpu.regs.p.toInterrupted,
            .read i.vector low, .read (i.vector + 1) high] out.2)
      (cpu.enter bus i) := by
  have core : Core.After bus [] cpu.regs ⟨cpu.regs, bus⟩ := ⟨.refl, rfl⟩
  unfold enter
  obtain ⟨dropped, touched⟩ := core.touch (rfl : cpu.regs.pc = _)
  obtain ⟨dropped', touched⟩ := touched.touch (rfl : cpu.regs.pc = _)
  refine (touched.pushWord cpu.regs.pc).bind fun c pushed => ?_
  refine (pushed.push cpu.regs.p.toInterrupted).bind fun c pushed => ?_
  obtain ⟨low, high, address, after⟩ := pushed.readWord i.vector
  rw [Registers.pushed_pushed] at after
  simp only [address, after.regs]
  exact ⟨rfl, dropped, dropped', low, high, rfl, after.leads⟩

/-- An instruction keeps to what is said of its opcode, on every bus. -/
theorem execute_leads (cpu : Cpu) (bus : β) :
    Yields (Refuses bus)
      (fun out => out.2.1.totalCycles = cpu.totalCycles ∧ ∃ b own extra,
        (Opcode.decode b).Performs (cpu.regs.past 1) own extra ∧
        (Opcode.decode b).Results cpu.config (cpu.regs.past 1) own out.2.1.regs ∧
        out.1 = (Opcode.decode b).cycles + extra ∧
        Leads bus (.read cpu.regs.pc b :: own) out.2.2)
      (cpu.execute bus) := by
  have core : Core.After bus [] cpu.regs ⟨cpu.regs, bus⟩ := ⟨.refl, rfl⟩
  unfold execute
  generalize hb : (Core.fetch ⟨cpu.regs, bus⟩).1 = b
  have fetched := core.fetch
  rw [hb] at fetched
  simp only [hb]
  refine (fetched.perform cpu.config (decode_fits b).1).bind ?_
  rintro ⟨extra, c⟩ ⟨own, r', performed, results, after⟩
  exact ⟨rfl, b, own, extra, performed, after.regs.symm ▸ results, rfl, after.leads⟩

/-- The same, on a bus that is traced. -/
theorem execute_traced (cpu : Cpu) (t : Traced β) :
    Yields (Refuses t.bus)
      (fun (_, cpu', t') => ∃ b own extra, t'.trace = t.trace ++ .read cpu.regs.pc b :: own ∧
        (Opcode.decode b).Performs (cpu.regs.past 1) own extra ∧
        (Opcode.decode b).Results cpu.config (cpu.regs.past 1) own cpu'.regs)
      (cpu.execute t) := by
  refine ((execute_leads cpu t).mono ?_).allowing fun _ => Refuses.traced
  rintro ⟨n, cpu', t'⟩ ⟨-, b, own, extra, performed, results, -, leads⟩
  exact ⟨b, own, extra, leads.traced.2, performed, results⟩

/-- Up to the passing of its time a step keeps to what is said of it, on every bus. -/
theorem act_leads (cpu : Cpu) (bus : β) :
    Yields (Refuses bus)
      (fun out => out.2.1.totalCycles = cpu.totalCycles ∧
        ∃ accesses, Acts cpu (Bus.lines bus) accesses out.1 ∧
          Leaves cpu (Bus.lines bus) accesses out.2.1.regs ∧ Leads bus accesses out.2.2)
      (cpu.act bus) := by
  unfold act
  split
  · next stopped => exact ⟨rfl, [], .jammed stopped, .jammed stopped, .refl⟩
  · next running =>
    have running : cpu.jammed = false := by simpa using running
    have polled : (cpu.poll (Bus.lines bus)).2.regs = cpu.regs ∧
        (cpu.poll (Bus.lines bus)).2.totalCycles = cpu.totalCycles ∧
        (cpu.poll (Bus.lines bus)).2.config = cpu.config := ⟨rfl, rfl, rfl⟩
    rcases hpoll : cpu.poll (Bus.lines bus) with ⟨_ | i, p⟩
    · have chosen : (cpu.poll (Bus.lines bus)).1 = none := congrArg Prod.fst hpoll
      rw [hpoll] at polled
      refine (execute_leads p bus).mono ?_
      rintro ⟨n, acted, between⟩ ⟨same, b, own, extra, performed, results, rfl, leads⟩
      rw [polled.1] at performed results leads
      rw [polled.2.2] at results
      exact ⟨same.trans polled.2.1, _, .execute b running chosen performed,
        .execute b running chosen results, leads⟩
    · have chosen : (cpu.poll (Bus.lines bus)).1 = some i := congrArg Prod.fst hpoll
      rw [hpoll] at polled
      refine (enter_leads p bus i).bind ?_
      rintro ⟨acted, between⟩ ⟨same, dropped, dropped', low, high, regs, leads⟩
      rw [polled.1] at regs leads
      exact ⟨same.trans polled.2.1, _, .enter dropped dropped' low high running chosen,
        regs ▸ .enter [_, _, _, _, _] low high running chosen, leads⟩

/-- A step does what is said of it, then its time passes, and nothing but the bus can stop it. -/
theorem step_leads (cpu : Cpu) (bus : β) :
    Yields (Refuses bus)
      (fun out => out.2.1.totalCycles = cpu.totalCycles + out.1 ∧
        ∃ accesses, Acts cpu (Bus.lines bus) accesses out.1 ∧
          Leaves cpu (Bus.lines bus) accesses out.2.1.regs ∧
          Leads bus (accesses ++ [.tick out.1]) out.2.2)
      (cpu.step bus) := by
  rw [step_eq]
  refine (act_leads cpu bus).bind ?_
  rintro ⟨n, acted, between⟩ ⟨same, accesses, acts, leaves, leads⟩
  show Yields _ _ (Bus.tick between n >>= _)
  cases run : Bus.tick between n with
  | ok after => exact ⟨congrArg (· + n) same, accesses, acts, leaves, leads.tick run⟩
  | error e => exact .tick leads run

/-- The same, where the registers behind the step do not matter. -/
theorem step_acts (cpu : Cpu) (bus : β) :
    Yields (Refuses bus)
      (fun out => out.2.1.totalCycles = cpu.totalCycles + out.1 ∧
        ∃ accesses, Acts cpu (Bus.lines bus) accesses out.1 ∧
          Leads bus (accesses ++ [.tick out.1]) out.2.2)
      (cpu.step bus) :=
  (step_leads cpu bus).mono fun _ ⟨counted, accesses, acts, _, leads⟩ =>
    ⟨counted, accesses, acts, leads⟩

end Cpu

end C64
