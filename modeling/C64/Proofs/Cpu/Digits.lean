import C64.Proofs.Cpu.Accounting
import C64.Proofs.Cpu.Timing
import Mathlib.Data.Nat.Digits.Defs
import Mathlib.Tactic.Ring

/-!
# Numbers of many bytes

A program adds or subtracts numbers of any length byte by byte, the least significant first, with
the carry from one byte in the next. In decimal mode the bytes are two digits each, else they are
binary (`Radix`). What one addition or subtraction does is an equation between digits and carries
(`Radix.Carries`), and by the length of the numbers so is what a whole chain does
(`chain_carries`): it leaves sum or difference of the numbers, without what leaves their length,
and the carry tells whether anything does.
-/

namespace C64.Cpu

/-! ## Digits -/

/-- How a byte is read as a digit of a number. -/
structure Radix where
  base : Nat
  value : UInt8 → Nat
  /-- Whether a byte is a digit at all. -/
  valid : UInt8 → Prop
  one_lt : 1 < base
  value_lt : ∀ b, valid b → value b < base

namespace Radix

/-- Each byte a digit. -/
def binary : Radix := ⟨256, UInt8.toNat, fun _ => True, by decide, fun b _ => b.toNat_lt⟩

/-- The two nybbles of a byte as decimal digits. -/
def decimal : Radix where
  base := 100
  value b := b.toNat / 16 * 10 + b.toNat % 16
  valid b := b.toNat / 16 ≤ 9 ∧ b.toNat % 16 ≤ 9
  one_lt := by decide
  value_lt b := by rintro ⟨high, low⟩; omega

/-- What the processor adds and subtracts in. -/
def of (p : Status) : Radix := if p.has .decimal then decimal else binary

/-- The number that bytes stand for, the least significant in front. -/
def number (x : Radix) (bytes : List UInt8) : Nat := Nat.ofDigits x.base (bytes.map x.value)

/-- The registers `r'` hold digit and carry of a sum: that of the accumulator in `r`, of `addend`
and of the carry in `r`. -/
structure Carries (x : Radix) (r : Registers) (addend : Nat) (r' : Registers) : Prop where
  valid : x.valid r'.a
  sum : x.value r'.a + x.base * r'.p.carryByte.toNat = x.value r.a + addend + r.p.carryByte.toNat
  same : r'.p.has .decimal = r.p.has .decimal

end Radix

theorem Status.carryByte_of_has {p : Status} {on : Bool} (h : p.has .carry = on) :
    p.carryByte.toNat = if on then 1 else 0 := by
  subst h
  unfold carryByte bitByte
  split <;> rfl

theorem Status.carryByte_le (p : Status) : p.carryByte.toNat ≤ 1 := by
  rw [carryByte_of_has rfl]
  split <;> decide

theorem addBinary_carries (r : Registers) (v : UInt8) :
    Radix.binary.Carries r v.toNat (r.addBinary v) where
  valid := trivial
  sum := by
    have carry : (r.addBinary v).p.has .carry =
        decide (r.a.toNat + v.toNat + r.p.carryByte.toNat > 0xFF) := by
      simp [Registers.addBinary, Status.result, Status.has_put]
    have small := r.a.toNat_lt
    have small' := v.toNat_lt
    have le := r.p.carryByte_le
    have a : (r.addBinary v).a.toNat = (r.a.toNat + v.toNat + r.p.carryByte.toNat) % 256 :=
      UInt8.toNat_ofNat'
    rw [Status.carryByte_of_has carry]
    show (r.addBinary v).a.toNat + 256 * _ = r.a.toNat + v.toNat + r.p.carryByte.toNat
    rw [a]
    simp only [decide_eq_true_eq]
    split <;> omega
  same := by simp [Registers.addBinary, Status.result, Status.has_put]

/-- A sum of two digits and a carry, as it is corrected. -/
def corrected (n : Nat) : Nat := if n > 9 then n + 6 else n

/-- Corrected, a sum has its decimal digit in the nybble and carries where it passes nine. -/
theorem corrected_digit {n : Nat} (h : n ≤ 19) :
    corrected n % 16 ≤ 9 ∧ corrected n % 16 + 10 * (if corrected n > 0x0F then 1 else 0) = n := by
  unfold corrected
  split <;> split <;> omega

theorem addDecimal_carries (r : Registers) (v : UInt8) (valid : Radix.decimal.valid r.a)
    (valid' : Radix.decimal.valid v) :
    Radix.decimal.Carries r (Radix.decimal.value v) (r.addDecimal v) := by
  obtain ⟨high, low⟩ := valid
  obtain ⟨high', low'⟩ := valid'
  have le := r.p.carryByte_le
  let first := corrected (r.a.toNat % 16 + v.toNat % 16 + r.p.carryByte.toNat)
  let second := corrected (r.a.toNat / 16 + v.toNat / 16 + if first > 0x0F then 1 else 0)
  have carry : (r.addDecimal v).p.has .carry = decide (second > 0x0F) :=
    Status.has_put_self _ _ _
  have digit : (r.addDecimal v).a.toNat = (second * 16 + first % 16) % 256 := UInt8.toNat_ofNat'
  have decimal : (r.addDecimal v).p.has .decimal = r.p.has .decimal := by
    simp [Registers.addDecimal, Status.has_put]
  have lowDigit : first % 16 ≤ 9 ∧ first % 16 + 10 * (if first > 0x0F then 1 else 0) = _ :=
    corrected_digit (by omega)
  have highDigit : second % 16 ≤ 9 ∧ second % 16 + 10 * (if second > 0x0F then 1 else 0) = _ :=
    corrected_digit (by split <;> omega)
  clear_value first second
  have nybbles : (r.addDecimal v).a.toNat / 16 = second % 16 ∧
      (r.addDecimal v).a.toNat % 16 = first % 16 := by omega
  refine ⟨?_, ?_, decimal⟩
  · show _ / 16 ≤ 9 ∧ _ % 16 ≤ 9
    rw [nybbles.1, nybbles.2]
    exact ⟨highDigit.1, lowDigit.1⟩
  · show _ / 16 * 10 + _ % 16 + 100 * _ =
      r.a.toNat / 16 * 10 + r.a.toNat % 16 + (v.toNat / 16 * 10 + v.toNat % 16) + _
    rw [Status.carryByte_of_has carry, nybbles.1, nybbles.2]
    simp only [decide_eq_true_eq]
    omega

/-- A difference of two digits and a borrow, as it is corrected. -/
def borrowed (n : Int) : Int := if n < 0 then n - 6 else n

theorem borrowed_digit {n : Int} (least : -10 ≤ n) (most : n ≤ 9) :
    0 ≤ borrowed n % 16 ∧ borrowed n % 16 ≤ 9 ∧
      borrowed n % 16 - 10 * (if n < 0 then 1 else 0) = n := by
  unfold borrowed
  split <;> omega

theorem subDecimal_carries (r : Registers) (v : UInt8) (valid : Radix.decimal.valid r.a)
    (valid' : Radix.decimal.valid v) :
    Radix.decimal.Carries r (99 - Radix.decimal.value v) (r.subDecimal v) := by
  obtain ⟨high, low⟩ := valid
  obtain ⟨high', low'⟩ := valid'
  have le := r.p.carryByte_le
  have carry : (r.subDecimal v).p.has .carry =
      decide ((r.a.toNat : Int) - v.toNat - (1 - r.p.carryByte.toNat) ≥ 0) := by
    simp [Registers.subDecimal, Status.result, Status.has_put]
  have decimal : (r.subDecimal v).p.has .decimal = r.p.has .decimal := by
    simp [Registers.subDecimal, Status.result, Status.has_put]
  obtain ⟨first, hfirst⟩ :
      ∃ n : Int, n = r.a.toNat % 16 - v.toNat % 16 - (1 - r.p.carryByte.toNat) := ⟨_, rfl⟩
  obtain ⟨second, hsecond⟩ :
      ∃ n : Int, n = r.a.toNat / 16 - v.toNat / 16 - if first < 0 then 1 else 0 := ⟨_, rfl⟩
  have digit : (r.subDecimal v).a.toNat =
      (borrowed second % 16 * 16 + borrowed first % 16).toNat % 256 := by
    subst hsecond hfirst
    unfold Registers.subDecimal borrowed
    dsimp only
    split
    · exact UInt8.toNat_ofNat'
    · rw [Int.sub_zero]
      exact UInt8.toNat_ofNat'
  have lowDigit := borrowed_digit (n := first) (by omega) (by omega)
  have highDigit := borrowed_digit (n := second) (by split at hsecond <;> omega)
    (by split at hsecond <;> omega)
  have nybbles : ((r.subDecimal v).a.toNat / 16 : Int) = borrowed second % 16 ∧
      ((r.subDecimal v).a.toNat % 16 : Int) = borrowed first % 16 := by omega
  refine ⟨?_, ?_, decimal⟩
  · show _ / 16 ≤ 9 ∧ _ % 16 ≤ 9
    omega
  · show _ / 16 * 10 + _ % 16 + 100 * _ =
      r.a.toNat / 16 * 10 + r.a.toNat % 16 + (99 - (v.toNat / 16 * 10 + v.toNat % 16)) + _
    rw [Status.carryByte_of_has carry]
    simp only [decide_eq_true_eq]
    -- The flag is that of the binary difference, whose sign is the sign of the decimal one.
    split <;> split at hsecond <;> split at highDigit <;> omega

theorem Radix.of_congr {p q : Status} (same : p.has .decimal = q.has .decimal) :
    Radix.of p = Radix.of q := by
  unfold Radix.of
  rw [same]

theorem add_carries (r : Registers) (v : UInt8) (valid : (Radix.of r.p).valid r.a)
    (valid' : (Radix.of r.p).valid v) :
    (Radix.of r.p).Carries r ((Radix.of r.p).value v) (r.add v) := by
  unfold Registers.add
  unfold Radix.of at *
  generalize r.p.has .decimal = mode at *
  cases mode with
  | false => exact addBinary_carries r v
  | true => exact addDecimal_carries r v valid valid'

/-- To subtract a digit is to add what it lacks of the greatest one. -/
theorem sub_carries (r : Registers) (v : UInt8) (valid : (Radix.of r.p).valid r.a)
    (valid' : (Radix.of r.p).valid v) :
    (Radix.of r.p).Carries r ((Radix.of r.p).base - 1 - (Radix.of r.p).value v) (r.sub v) := by
  unfold Registers.sub
  unfold Radix.of at *
  generalize r.p.has .decimal = mode at *
  cases mode with
  | false =>
    have carries := addBinary_carries r (~~~v)
    rw [UInt8.toNat_not] at carries
    exact carries
  | true => exact subDecimal_carries r v valid valid'

/-! ## Places -/

variable {β : Type} [Bus β]

/-- One place of a number: a processor at an operation, with a digit in its accumulator, and a bus
from which the operation reads another one. -/
structure Place (β : Type) [Bus β] (mnemonic : Mnemonic) where
  cpu : Cpu
  bus : β
  operand : UInt8
  opcode : (Opcode.decode (Bus.read bus cpu.regs.pc).1).mnemonic = mnemonic
  reads : ∃ extra after, (Core.fetch ⟨cpu.regs, bus⟩).2.readOperand
    (Opcode.decode (Bus.read bus cpu.regs.pc).1) = .ok (operand, extra, after)

/-- The processor with carry and decimal mode as they were left behind. -/
def resume (cpu : Cpu) (p : Status) : Cpu :=
  { cpu with
    regs.p := (cpu.regs.p.put .decimal (p.has .decimal)).put .carry (p.has .carry) }

theorem Status.put_has (p : Status) (f : Flag) : p.put f (p.has f) = p := by
  have every : ∀ b : UInt8, withBits b f.mask (anyBit b f.mask) = b := by
    refine forall_byte ?_
    cases f <;> decide +kernel
  exact congrArg mk (every p.bits)

/-- Where a program has kept the two flags, its processor resumes as it is. -/
theorem resume_eq {cpu : Cpu} {p : Status} (carry : cpu.regs.p.has .carry = p.has .carry)
    (decimal : cpu.regs.p.has .decimal = p.has .decimal) : cpu.resume p = cpu := by
  unfold resume
  rw [← carry, ← decimal, Status.put_has, Status.put_has]

/-- The operations of all places, the least significant first. Anything may happen between two of
them that keeps carry and decimal mode. Answers the accumulators behind them, and the last
status. -/
def chain {mnemonic : Mnemonic} (p : Status) :
    List (Place β mnemonic) → Except Fault (List UInt8 × Status)
  | [] => .ok ([], p)
  | place :: rest => do
    let (_, cpu, _) ← (place.cpu.resume p).execute place.bus
    let (digits, p) ← chain cpu.regs.p rest
    return (cpu.regs.a :: digits, p)

/-! ## The status has no part in finding an operand -/

/-- The core with another status. -/
def Core.withStatus (c : Core β) (p : Status) : Core β := c.mapRegs ({ · with p })

variable (c : Core β) {after : Core β} {op : Opcode} {v : UInt8} {extra : Nat} (p : Status)

theorem effective_withStatus (m : AddressMode) :
    (c.withStatus p).effective m = ((c.effective m).1, (c.effective m).2.withStatus p) := by
  cases m <;> rfl

theorem readAddress_withStatus (m : AddressMode) :
    (c.withStatus p).readAddress m = ((c.readAddress m).1, (c.readAddress m).2.withStatus p) := by
  unfold Core.readAddress
  rw [effective_withStatus]
  obtain ⟨⟨address, uncorrected⟩, found⟩ := c.effective m
  cases uncorrected with
  | none => rfl
  | some u =>
    simp only []
    split <;> rfl

theorem readOperand_withStatus (h : c.readOperand op = .ok (v, extra, after)) :
    (c.withStatus p).readOperand op = .ok (v, extra, after.withStatus p) := by
  unfold Core.readOperand at *
  split at h
  · cases h
    rfl
  · cases h
    simp only [readAddress_withStatus]
    rfl
  · cases h

theorem readOperand_a (h : c.readOperand op = .ok (v, extra, after)) :
    after.regs.a = c.regs.a := by
  unfold Core.readOperand at h
  split at h
  · cases h
    rfl
  · next m _ =>
    have core : c.After c.bus [] c.regs := ⟨.refl, rfl⟩
    obtain ⟨_, _, _, _, -, -, -, found⟩ := core.readAddress m
    simp only [Except.ok.injEq, Prod.mk.injEq] at h
    obtain ⟨-, -, rfl⟩ := h
    exact (congrArg Registers.a (found.read _).regs :)
  · cases h

/-! ## Chains -/

variable {mnemonic : Mnemonic} {apply : Registers → UInt8 → Registers}

/-- The operation of a place works on its digits, with the flags that it resumes with. -/
theorem Place.execute (place : Place β mnemonic)
    (action : mnemonic.action = .load apply) (operates : mnemonic ≠ .nop) :
    ∃ r : Registers, r.a = place.cpu.regs.a ∧ r.p = (place.cpu.resume p).regs.p ∧
      Succeeds (fun (_, done, _) => done.regs = apply r place.operand)
        ((place.cpu.resume p).execute place.bus) := by
  obtain ⟨extra, after, reads⟩ := place.reads
  have resumed := readOperand_withStatus _ (place.cpu.resume p).regs.p reads
  have performed : Core.perform (Core.fetch ⟨(place.cpu.resume p).regs, place.bus⟩).2
      place.cpu.config (Opcode.decode (Bus.read place.bus place.cpu.regs.pc).1) =
        .ok (extra, (after.withStatus (place.cpu.resume p).regs.p).mapRegs
          (apply · place.operand)) := by
    unfold Core.perform
    rw [action_of_mnemonic place.opcode operates, action]
    exact bind_eq_ok.mpr ⟨_, resumed, rfl⟩
  exact ⟨(after.withStatus (place.cpu.resume p).regs.p).regs, readOperand_a _ reads, rfl,
    _, bind_eq_ok.mpr ⟨_, performed, rfl⟩, rfl⟩

theorem resume_flags (cpu : Cpu) (p : Status) :
    (cpu.resume p).regs.p.carryByte = p.carryByte ∧
      (cpu.resume p).regs.p.has .decimal = p.has .decimal := by
  simp [resume, Status.carryByte, Status.has_put]

namespace Place

/-- The digits in the accumulators of places. -/
def digits (places : List (Place β mnemonic)) : List UInt8 := places.map (·.cpu.regs.a)

/-- The digits that places read. -/
def operands (places : List (Place β mnemonic)) : List UInt8 := places.map (·.operand)

end Place

/-- If each operation of a chain adds a digit and a carry, the chain adds numbers and a carry. -/
theorem chain_carries {x : Radix} {addend : UInt8 → Nat}
    (action : mnemonic.action = .load apply) (operates : mnemonic ≠ .nop)
    (step : ∀ r v, Radix.of r.p = x → x.valid r.a → x.valid v →
      x.Carries r (addend v) (apply r v))
    (p : Status) (radix : Radix.of p = x) (places : List (Place β mnemonic))
    (valid : ∀ place ∈ places, x.valid place.cpu.regs.a ∧ x.valid place.operand) :
    Succeeds
      (fun (sums, p') => sums.length = places.length ∧ (∀ b ∈ sums, x.valid b) ∧
        x.number sums + x.base ^ places.length * p'.carryByte.toNat =
          x.number (Place.digits places) +
            Nat.ofDigits x.base ((Place.operands places).map addend) + p.carryByte.toNat)
      (chain p places) := by
  induction places generalizing p with
  | nil => exact .ok ⟨rfl, by simp, by simp [Radix.number, Place.digits, Place.operands]⟩
  | cons place rest ih =>
    obtain ⟨here, there⟩ := List.forall_mem_cons.mp valid
    obtain ⟨r, a, flags, executes⟩ := place.execute p action operates
    obtain ⟨carry, decimal⟩ := place.cpu.resume_flags p
    rw [← flags] at carry decimal
    have radix' : Radix.of r.p = x := (Radix.of_congr decimal).trans radix
    refine executes.bind ?_
    rintro ⟨n, cpu, bus⟩ (regs : cpu.regs = _)
    have carries := step r place.operand radix' (a ▸ here.1) here.2
    rw [← regs] at carries
    refine (ih cpu.regs.p ((Radix.of_congr carries.same).trans radix') there).bind ?_
    rintro ⟨sums, p'⟩ ⟨length, digits, sum⟩
    refine .ok ⟨congrArg (· + 1) length, List.forall_mem_cons.mpr ⟨carries.valid, digits⟩, ?_⟩
    -- The carry of this place is what the places behind it start with.
    have first := carries.sum
    rw [a, carry] at first
    calc x.value cpu.regs.a + x.base * x.number sums +
          x.base ^ (rest.length + 1) * p'.carryByte.toNat
      _ = x.value cpu.regs.a +
          x.base * (x.number sums + x.base ^ rest.length * p'.carryByte.toNat) := by ring
      _ = (x.value cpu.regs.a + x.base * cpu.regs.p.carryByte.toNat) + x.base *
          (x.number (Place.digits rest) +
            Nat.ofDigits x.base ((Place.operands rest).map addend)) := by rw [sum]; ring
      _ = (x.value place.cpu.regs.a + addend place.operand + p.carryByte.toNat) + x.base *
          (x.number (Place.digits rest) +
            Nat.ofDigits x.base ((Place.operands rest).map addend)) := by rw [first]
      _ = (x.value place.cpu.regs.a + x.base * x.number (Place.digits rest)) +
          (addend place.operand +
            x.base * Nat.ofDigits x.base ((Place.operands rest).map addend)) +
          p.carryByte.toNat := by ring

namespace Radix

variable (x : Radix)

theorem number_lt {bytes : List UInt8} (valid : ∀ b ∈ bytes, x.valid b) :
    x.number bytes < x.base ^ bytes.length := by
  have digits : ∀ d ∈ bytes.map x.value, d < x.base :=
    List.forall_mem_map.mpr fun b mem => x.value_lt b (valid b mem)
  simpa [number] using Nat.ofDigits_lt_base_pow_length x.one_lt digits

/-- What the digits of a number lack of the greatest one is what the number lacks of the greatest
number. -/
theorem number_complement {bytes : List UInt8} (valid : ∀ b ∈ bytes, x.valid b) :
    Nat.ofDigits x.base (bytes.map fun b => x.base - 1 - x.value b) + x.number bytes + 1 =
      x.base ^ bytes.length := by
  induction bytes with
  | nil => rfl
  | cons b rest ih =>
    obtain ⟨here, there⟩ := List.forall_mem_cons.mp valid
    have small := x.value_lt b here
    calc (x.base - 1 - x.value b) +
          x.base * Nat.ofDigits x.base (rest.map fun b => x.base - 1 - x.value b) +
          (x.value b + x.base * x.number rest) + 1
      _ = (x.base - 1 - x.value b + x.value b + 1) + x.base *
          (Nat.ofDigits x.base (rest.map fun b => x.base - 1 - x.value b) + x.number rest) := by
        ring
      _ = x.base * (Nat.ofDigits x.base (rest.map fun b => x.base - 1 - x.value b) +
          x.number rest + 1) := by
        rw [show x.base - 1 - x.value b + x.value b + 1 = x.base by omega]
        ring
      _ = x.base ^ (rest.length + 1) := by rw [ih there, pow_succ']

/-- The digits and the carry of a sum of two numbers and a carry. -/
structure Adds (digits operands : List UInt8) (carry : Nat) (sums : List UInt8) (carry' : Bool) :
    Prop where
  length : sums.length = digits.length
  valid : ∀ b ∈ sums, x.valid b
  number : x.number sums =
    (x.number digits + x.number operands + carry) % x.base ^ digits.length
  carry : carry' = true ↔ x.base ^ digits.length ≤ x.number digits + x.number operands + carry

/-- The digits and the carry of a difference of two numbers, less the borrow that a carry of zero
stands for. -/
structure Subtracts (digits operands : List UInt8) (carry : Nat) (differences : List UInt8)
    (carry' : Bool) : Prop where
  length : differences.length = digits.length
  valid : ∀ b ∈ differences, x.valid b
  number : (x.number differences : Int) =
    ((x.number digits : Int) - x.number operands - (1 - carry)) % (x.base ^ digits.length : Nat)
  carry : carry' = true ↔ x.number operands + (1 - carry) ≤ x.number digits

variable {x} {digits operands sums : List UInt8} {p q : Status}

theorem Adds.of_sum (length : sums.length = digits.length) (valid : ∀ b ∈ sums, x.valid b)
    (sum : x.number sums + x.base ^ digits.length * q.carryByte.toNat =
      x.number digits + x.number operands + p.carryByte.toNat) :
    x.Adds digits operands p.carryByte.toNat sums (q.has .carry) := by
  have small := x.number_lt valid
  rw [length] at small
  refine ⟨length, valid, ?_, ?_⟩
  · rw [← sum, Nat.add_mul_mod_self_left, Nat.mod_eq_of_lt small]
  · rw [← sum, Status.carryByte_of_has rfl]
    cases q.has .carry
    · simpa using small
    · simp

theorem Subtracts.of_sum (length : sums.length = digits.length) (valid : ∀ b ∈ sums, x.valid b)
    (same : operands.length = digits.length) (valid' : ∀ b ∈ operands, x.valid b)
    (sum : x.number sums + x.base ^ digits.length * q.carryByte.toNat =
      x.number digits + Nat.ofDigits x.base (operands.map fun b => x.base - 1 - x.value b) +
        p.carryByte.toNat) :
    x.Subtracts digits operands p.carryByte.toNat sums (q.has .carry) := by
  have small := x.number_lt valid
  have complement := x.number_complement valid'
  have le := p.carryByte_le
  rw [length] at small
  rw [same] at complement
  rw [Status.carryByte_of_has rfl] at sum
  generalize Nat.ofDigits x.base (operands.map fun b => x.base - 1 - x.value b) = lacking
    at sum complement
  obtain ⟨size, hsize⟩ : ∃ n, x.base ^ digits.length = n := ⟨_, rfl⟩
  rw [hsize] at small sum complement
  refine ⟨length, valid, ?_, ?_⟩
  · have difference : (x.number digits : Int) - x.number operands - (1 - p.carryByte.toNat) =
        x.number sums + size * ((if q.has .carry then 1 else 0) - 1) := by
      cases carry : q.has .carry
      all_goals
        simp only [carry, if_true, Bool.false_eq_true, if_false] at sum ⊢
        omega
    rw [hsize, difference, Int.add_mul_emod_self_left, Int.emod_eq_of_lt (by omega) (by omega)]
  · cases carry : q.has .carry
    all_goals
      simp only [carry, if_true, Bool.false_eq_true, if_false, false_iff, true_iff] at sum ⊢
      omega

end Radix

/-- Additions of all places add two numbers of any length, and subtractions subtract them, each in
decimal digits or in bytes as the status asks for, and without what leaves the length. -/
theorem chain_computes (p : Status) :
    (∀ places : List (Place β .adc),
      (∀ place ∈ places,
        (Radix.of p).valid place.cpu.regs.a ∧ (Radix.of p).valid place.operand) →
      Succeeds
        (fun (sums, p') => (Radix.of p).Adds (Place.digits places) (Place.operands places)
          p.carryByte.toNat sums (p'.has .carry))
        (chain p places)) ∧
    ∀ places : List (Place β .sbc),
      (∀ place ∈ places,
        (Radix.of p).valid place.cpu.regs.a ∧ (Radix.of p).valid place.operand) →
      Succeeds
        (fun (differences, p') => (Radix.of p).Subtracts (Place.digits places)
          (Place.operands places) p.carryByte.toNat differences (p'.has .carry))
        (chain p places) := by
  constructor
  · intro places valid
    have step (r : Registers) (v : UInt8) (radix : Radix.of r.p = Radix.of p) :=
      radix ▸ add_carries r v
    refine (chain_carries rfl (by decide) step p rfl places valid).mono ?_
    rintro ⟨sums, p'⟩ ⟨length, digits, sum⟩
    have long : (Place.digits places).length = places.length := List.length_map _
    rw [← long] at length sum
    exact .of_sum length digits sum
  · intro places valid
    have step (r : Registers) (v : UInt8) (radix : Radix.of r.p = Radix.of p) :=
      radix ▸ sub_carries r v
    refine (chain_carries rfl (by decide) step p rfl places valid).mono ?_
    rintro ⟨sums, p'⟩ ⟨length, digits, sum⟩
    have long : (Place.digits places).length = places.length := List.length_map _
    rw [← long] at length sum
    exact .of_sum length digits (by simp [Place.digits, Place.operands])
      (List.forall_mem_map.mpr fun place mem => (valid place mem).2) sum

/-- A place at which a byte behind the opcode is added. -/
def adding (a v : UInt8) : Place Listing .adc where
  cpu := { Cpu.new {} with regs := { Registers.reset with a } }
  bus := ⟨[0x69, v], {}⟩
  operand := v
  opcode := rfl
  reads := ⟨_, _, rfl⟩

/-- A place at which a byte behind the opcode is subtracted. -/
def subtracting (a v : UInt8) : Place Listing .sbc where
  cpu := { Cpu.new {} with regs := { Registers.reset with a } }
  bus := ⟨[0xE9, v], {}⟩
  operand := v
  opcode := rfl
  reads := ⟨_, _, rfl⟩

/-- Decimal mode, the carry clear. -/
theorem chain_computes_decimal :
    Succeeds
      (fun (sums, p) => Radix.decimal.Adds [0x99, 0x12] [0x01, 0x00] 0 sums (p.has .carry))
      (chain ⟨0x28⟩ [adding 0x99 0x01, adding 0x12 0x00]) ∧
    Succeeds
      (fun (differences, p) =>
        Radix.decimal.Subtracts [0x00, 0x12] [0x00, 0x99] 0 differences (p.has .carry))
      (chain ⟨0x28⟩ [subtracting 0x00 0x00, subtracting 0x12 0x99]) := by
  have decimal (b : UInt8) (nybbles : b.toNat / 16 ≤ 9 ∧ b.toNat % 16 ≤ 9) :
      (Radix.of ⟨0x28⟩).valid b := nybbles
  constructor
  · refine (chain_computes ⟨0x28⟩).1 _ ?_
    simp only [List.forall_mem_cons]
    exact ⟨⟨decimal _ (by decide), decimal _ (by decide)⟩,
      ⟨decimal _ (by decide), decimal _ (by decide)⟩, by simp⟩
  · refine (chain_computes ⟨0x28⟩).2 _ ?_
    simp only [List.forall_mem_cons]
    exact ⟨⟨decimal _ (by decide), decimal _ (by decide)⟩,
      ⟨decimal _ (by decide), decimal _ (by decide)⟩, by simp⟩

end C64.Cpu
