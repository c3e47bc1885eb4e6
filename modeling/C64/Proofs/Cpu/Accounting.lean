import C64.Proofs.Cpu.Polling

/-!
# Keeping account of interrupts

The steps of a processor since a reset are written down with what each of them polled and what
it did then. Every rise of the non-maskable line from one poll to the next is one entry through
`$FFFA`, in the step that polled it, or one step later if the interrupt request had priority and
was not masked. An interrupt request is entered when nothing comes before it and the mask in
force is clear: the flag, or, behind an instruction that changed the flag, what it was before.

The processor itself keeps one level, one request that waits and one mask for the next poll.
`Books` says what these are in terms of the steps so far. A request only ever waits behind an
entry, which masks the other interrupt, and that is why it never waits twice.
-/

namespace C64.Cpu

variable {β : Type} [Bus β] {cpu cpu' : Cpu} {bus bus' : β} {n : Nat}

/-! ## What is written down -/

/-- What a step did once it had polled. -/
inductive Deed where
  | entry (interrupt : Interrupt)
  | instruction (mnemonic : Mnemonic)
deriving DecidableEq

/-- A step, as far as interrupts go. -/
structure Turn where
  /-- The levels that it polled. -/
  lines : InterruptLines
  /-- The interrupt mask when it began. -/
  masked : Bool
  deed : Deed
deriving DecidableEq

/-- The step that a processor takes if nothing has stopped it. -/
def turn (cpu : Cpu) (bus : β) : Turn where
  lines := Bus.lines bus
  masked := cpu.regs.p.has .interrupt
  deed :=
    match (cpu.poll (Bus.lines bus)).1 with
    | some interrupt => .entry interrupt
    | none => .instruction (Opcode.decode (Bus.read bus cpu.regs.pc).1).mnemonic

/-- Whether the poll behind a step still goes by the mask from before it. -/
def Turn.delaysMask (t : Turn) : Bool :=
  match t.deed with
  | .entry _ => false
  | .instruction mnemonic => mnemonic.delaysMask

/-- The steps of a processor since a reset, the oldest first. Between two steps anything may
happen to the bus, so that the lines have any levels at each poll. -/
inductive SinceReset (β : Type) [Bus β] : List Turn → Cpu → Prop
  | reset {cpu cpu' : Cpu} {bus bus' : β} (reset : cpu.reset bus = .ok (cpu', bus')) :
      SinceReset β [] cpu'
  | step {turns : List Turn} {cpu cpu' : Cpu} {bus bus' : β} {n : Nat}
      (run : SinceReset β turns cpu) (running : cpu.jammed = false)
      (step : cpu.step bus = .ok (n, cpu', bus')) :
      SinceReset β (turns ++ [cpu.turn bus]) cpu'

/-! ## Reading it -/

/-- How many of the steps entered an interrupt. -/
def entries (interrupt : Interrupt) (turns : List Turn) : Nat :=
  turns.countP (·.deed = .entry interrupt)

/-- How often a line rises from one level to the next. -/
def rises (before : Bool) : List Bool → Nat
  | [] => 0
  | level :: levels => (level && !before).toNat + rises level levels

/-- The levels of the non-maskable line at the polls. -/
def nmiLevels (turns : List Turn) : List Bool := turns.map (·.lines.nmi)

/-- How often the non-maskable line rose from one poll to the next. Before the first poll it
counts as low. -/
def nmiRises (turns : List Turn) : Nat := rises false (nmiLevels turns)

/-- Whether the non-maskable line rose to the poll of step `t`, which comes behind `before`. -/
def nmiRose (before : List Turn) (t : Turn) : Bool :=
  t.lines.nmi && !(nmiLevels before).getLastD false

/-- The mask in force at the poll of step `t`, which comes behind `before`. -/
def maskAt (before : List Turn) (t : Turn) : Bool :=
  match before.getLast? with
  | some last => if last.delaysMask then last.masked else t.masked
  | none => t.masked

/-- An interrupt request is held and not masked. -/
def irqOpen (before : List Turn) (t : Turn) : Prop :=
  t.lines.irq = true ∧ maskAt before t = false

/-- A non-maskable interrupt waits at the poll of step `t`: there have been more rises than
entries. -/
def nmiWaits (before : List Turn) (t : Turn) : Prop :=
  entries .nmi before < nmiRises (before ++ [t])

theorem rises_snoc (before level : Bool) (levels : List Bool) :
    rises before (levels ++ [level]) =
      rises before levels + (level && !levels.getLastD before).toNat := by
  induction levels generalizing before with
  | nil => simp [rises]
  | cons l levels ih =>
    rw [List.cons_append, rises, rises, ih, Nat.add_assoc, List.getLastD_cons]

theorem nmiRises_snoc (before : List Turn) (t : Turn) :
    nmiRises (before ++ [t]) = nmiRises before + (nmiRose before t).toNat := by
  simp [nmiRises, nmiRose, nmiLevels, rises_snoc]

theorem entries_snoc (interrupt : Interrupt) (before : List Turn) (t : Turn) :
    entries interrupt (before ++ [t]) =
      entries interrupt before + if t.deed = .entry interrupt then 1 else 0 := by
  simp [entries]

/-! ## What a poll chooses -/

theorem poll_eq_nmi {lines : InterruptLines} :
    (cpu.poll lines).1 = some .nmi ↔ cpu.noticesNmi lines = true ∧
      ¬(cpu.config.interruptPriority = .irq ∧ lines.irq = true ∧ cpu.maskInForce = false) := by
  unfold poll noticesNmi
  cases cpu.nmiPending || (lines.nmi && !cpu.nmiLine) <;> cases lines.irq <;>
    cases cpu.maskInForce <;> cases cpu.config.interruptPriority <;> simp

theorem poll_eq_irq {lines : InterruptLines} :
    (cpu.poll lines).1 = some .irq ↔ (lines.irq = true ∧ cpu.maskInForce = false) ∧
      ¬(cpu.config.interruptPriority = .nmi ∧ cpu.noticesNmi lines = true) := by
  unfold poll noticesNmi
  cases cpu.nmiPending || (lines.nmi && !cpu.nmiLine) <;> cases lines.irq <;>
    cases cpu.maskInForce <;> cases cpu.config.interruptPriority <;> simp

theorem turn_entry {interrupt : Interrupt} :
    (cpu.turn bus).deed = .entry interrupt ↔ (cpu.poll (Bus.lines bus)).1 = some interrupt := by
  unfold turn
  cases (cpu.poll (Bus.lines bus)).1 <;> simp

/-! ## The note is true -/

/-- A step that is noted as an instruction has executed it. -/
theorem step_of_instruction {mnemonic : Mnemonic} (h : cpu.step bus = .ok (n, cpu', bus'))
    (running : cpu.jammed = false) (instruction : (cpu.turn bus).deed = .instruction mnemonic) :
    (Opcode.decode cpu'.lastOpcode).mnemonic = mnemonic ∧ ∃ executed between,
      (cpu.poll (Bus.lines bus)).2.execute bus = .ok (n, executed, between) ∧
      Bus.tick between n = .ok bus' ∧ cpu'.regs = executed.regs := by
  obtain ⟨acted, between, hact, htick, rfl⟩ := step_ok h
  simp only [act, running, Bool.false_eq_true, if_false] at hact
  unfold turn at instruction
  have regs : (cpu.poll (Bus.lines bus)).2.regs = cpu.regs := rfl
  rcases hpoll : cpu.poll (Bus.lines bus) with ⟨_ | i, p⟩
  · simp only [hpoll, Deed.instruction.injEq] at hact instruction regs
    refine ⟨?_, acted, between, hact, htick, rfl⟩
    unfold execute at hact
    obtain ⟨⟨extra, core⟩, -, hret⟩ := bind_eq_ok.mp hact
    cases hret
    show (Opcode.decode (Bus.read bus p.regs.pc).1).mnemonic = mnemonic
    rw [regs, instruction]
  · simp [hpoll] at instruction

/-! ## What a step leaves of the mask -/

/-- An entry masks interrupts. -/
theorem enter_masks {i : Interrupt} (h : cpu.enter bus i = .ok (cpu', bus')) :
    cpu'.regs.p.has .interrupt = true := by
  unfold enter at h
  obtain ⟨core, -, h⟩ := bind_eq_ok.mp h
  obtain ⟨core', -, h⟩ := bind_eq_ok.mp h
  cases h
  exact Status.has_put_self _ _ _

/-- An instruction leaves the mask from before it for one poll, if it is one that changes it. -/
theorem execute_delays (h : cpu.execute bus = .ok (n, cpu', bus')) :
    cpu'.delayedMask =
      if (Opcode.decode (Bus.read bus cpu.regs.pc).1).mnemonic.delaysMask then
        some (cpu.regs.p.has .interrupt)
      else cpu.delayedMask := by
  unfold execute at h
  obtain ⟨⟨extra, core⟩, -, h⟩ := bind_eq_ok.mp h
  cases h
  rfl

/-- What a step of a running processor leaves for the mask at the next poll. -/
theorem step_mask (h : cpu.step bus = .ok (n, cpu', bus')) (running : cpu.jammed = false) :
    cpu'.delayedMask =
      (if (cpu.turn bus).delaysMask then some (cpu.turn bus).masked else none) ∧
    ∀ interrupt, (cpu.turn bus).deed = .entry interrupt →
      cpu'.regs.p.has .interrupt = true := by
  obtain ⟨acted, between, hact, -, rfl⟩ := step_ok h
  simp only [act, running, Bool.false_eq_true, if_false] at hact
  have polled : (cpu.poll (Bus.lines bus)).2.delayedMask = none ∧
      (cpu.poll (Bus.lines bus)).2.regs = cpu.regs := ⟨rfl, rfl⟩
  rcases hpoll : cpu.poll (Bus.lines bus) with ⟨chosen, p⟩
  simp only [hpoll] at hact polled
  cases chosen with
  | some interrupt =>
    obtain ⟨⟨entered, after⟩, hent, hact⟩ := bind_eq_ok.mp hact
    cases hact
    have kept : entered.delayedMask = none := by rw [enter_ok hent]; exact polled.1
    have masked : entered.regs.p.has .interrupt = true := enter_masks hent
    exact ⟨by simp [Turn.delaysMask, turn, hpoll, kept], fun _ _ => masked⟩
  | none =>
    have delayed := execute_delays hact
    rw [polled.1, polled.2] at delayed
    exact ⟨by simpa [Turn.delaysMask, turn, hpoll] using delayed, by simp [turn, hpoll]⟩

/-! ## The books -/

/-- What the processor keeps for the next poll, in terms of its steps. -/
structure Books (turns : List Turn) (cpu : Cpu) : Prop where
  level : cpu.nmiLine = (nmiLevels turns).getLastD false
  count : entries .nmi turns + cpu.nmiPending.toNat = nmiRises turns
  mask : cpu.delayedMask =
    turns.getLast?.bind fun t => if t.delaysMask then some t.masked else none
  /-- A request waits only behind an entry, with the line still high. -/
  waits : cpu.nmiPending = true → cpu.nmiLine = true ∧ cpu.maskInForce = true

variable {turns before : List Turn}

theorem Books.reset (h : cpu.reset bus = .ok (cpu', bus')) : Books [] cpu' := by
  unfold Cpu.reset at h
  obtain ⟨after, -, h⟩ := bind_eq_ok.mp h
  cases h
  exact ⟨rfl, rfl, rfl, fun h => absurd h Bool.false_ne_true⟩

theorem Books.maskInForce_eq (books : Books turns cpu) (bus : β) :
    cpu.maskInForce = maskAt turns (cpu.turn bus) := by
  unfold maskInForce maskAt
  rw [books.mask]
  cases turns.getLast? with
  | none => rfl
  | some last => cases h : last.delaysMask <;> simp [h, turn]

theorem Books.noticesNmi_eq (books : Books turns cpu) :
    cpu.noticesNmi (Bus.lines bus) = (cpu.nmiPending || nmiRose turns (cpu.turn bus)) := by
  unfold noticesNmi nmiRose
  rw [books.level]
  rfl

/-- The line cannot rise while a request waits. -/
theorem Books.toNat_noticesNmi (books : Books turns cpu) :
    entries .nmi turns + (cpu.noticesNmi (Bus.lines bus)).toNat =
      nmiRises (turns ++ [cpu.turn bus]) := by
  rw [nmiRises_snoc, ← books.count, books.noticesNmi_eq]
  cases pending : cpu.nmiPending with
  | false => simp
  | true =>
    have high := books.level.symm.trans (books.waits pending).1
    have flat : nmiRose turns (cpu.turn bus) = false := by
      rw [nmiRose, high, Bool.not_true, Bool.and_false]
    simp [flat]

theorem Books.noticesNmi_iff (books : Books turns cpu) :
    cpu.noticesNmi (Bus.lines bus) = true ↔ nmiWaits turns (cpu.turn bus) := by
  unfold nmiWaits
  rw [← books.toNat_noticesNmi]
  cases cpu.noticesNmi (Bus.lines bus) <;> simp

theorem Books.entry_nmi (books : Books turns cpu) :
    (cpu.turn bus).deed = .entry .nmi ↔ nmiWaits turns (cpu.turn bus) ∧
      ¬(cpu.config.interruptPriority = .irq ∧ irqOpen turns (cpu.turn bus)) := by
  rw [turn_entry, poll_eq_nmi, books.noticesNmi_iff, books.maskInForce_eq bus]
  rfl

theorem Books.entry_irq (books : Books turns cpu) :
    (cpu.turn bus).deed = .entry .irq ↔ irqOpen turns (cpu.turn bus) ∧
      ¬(cpu.config.interruptPriority = .nmi ∧ nmiWaits turns (cpu.turn bus)) := by
  rw [turn_entry, poll_eq_irq, books.noticesNmi_iff, books.maskInForce_eq bus]
  rfl

theorem Books.step (books : Books turns cpu) (running : cpu.jammed = false)
    (h : cpu.step bus = .ok (n, cpu', bus')) : Books (turns ++ [cpu.turn bus]) cpu' := by
  obtain ⟨level, pending⟩ := step_nmi h running
  obtain ⟨mask, masks⟩ := step_mask h running
  refine ⟨by simpa [nmiLevels, turn] using level, ?_, by simpa using mask, fun waits => ?_⟩
  · rw [← books.toNat_noticesNmi, entries_snoc, pending, Nat.add_assoc]
    congr 1
    by_cases entry : (cpu.poll (Bus.lines bus)).1 = some .nmi
    · simp [turn_entry, entry, (poll_eq_nmi.mp entry).1]
    · simp [turn_entry, entry, bne_iff_ne.mpr entry]
  · -- What the poll noticed and the step did not enter waits behind the other interrupt.
    simp only [pending, Bool.and_eq_true, bne_iff_ne, ne_eq] at waits
    obtain ⟨noticed, other⟩ := waits
    obtain ⟨chosen, -⟩ := (poll_of_noticesNmi noticed).resolve_left other
    have entered : (cpu.turn bus).deed = .entry .irq := turn_entry.mpr chosen
    have keeps : cpu'.delayedMask = none := by rw [mask]; simp [Turn.delaysMask, entered]
    refine ⟨?_, by simp [maskInForce, keeps, masks _ entered]⟩
    -- A request from before would have found the interrupt masked, so the line is high now.
    have fresh : cpu.nmiPending = false := by
      rw [← Bool.not_eq_true]
      intro pending
      exact absurd (poll_eq_irq.mp chosen).1.2 (by simp [(books.waits pending).2])
    rw [noticesNmi, fresh, Bool.false_or, Bool.and_eq_true] at noticed
    exact level.trans noticed.1

theorem SinceReset.books (run : SinceReset β turns cpu) : Books turns cpu := by
  induction run with
  | reset h => exact .reset h
  | step _ running h ih => exact ih.step running h

/-! ## The account -/

/-- Every step of a run, with those before it and what it left. -/
theorem SinceReset.parts {t : Turn} {after : List Turn}
    (run : SinceReset β (before ++ t :: after) cpu) :
    ∃ (cpu₀ cpu₁ : Cpu) (bus bus' : β) (n : Nat), SinceReset β before cpu₀ ∧
      cpu₀.jammed = false ∧ cpu₀.step bus = .ok (n, cpu₁, bus') ∧ t = cpu₀.turn bus ∧
      SinceReset β (before ++ [t]) cpu₁ ∧ cpu₀.config = cpu.config ∧
      cpu₁.config = cpu.config := by
  generalize hturns : before ++ t :: after = turns at run
  induction run generalizing after with
  | reset h => simp at hturns
  | @step turns cpu cpu' bus bus' n run running h ih =>
    rcases List.eq_nil_or_concat after with rfl | ⟨middle, last, rfl⟩
    · obtain ⟨rfl, ht⟩ := List.append_inj' hturns rfl
      obtain rfl : t = cpu.turn bus := by simpa using ht
      exact ⟨cpu, cpu', bus, bus', n, run, running, h, rfl, .step run running h,
        (step_config h).symm, rfl⟩
    · rw [List.concat_eq_append, ← List.cons_append, ← List.append_assoc] at hturns
      obtain ⟨rfl, -⟩ := List.append_inj' hturns rfl
      obtain ⟨cpu₀, cpu₁, bus, bus', n, parts⟩ := ih rfl
      rw [← step_config h] at parts
      exact ⟨cpu₀, cpu₁, bus, bus', n, parts⟩

/-- What the account says of the step `t` between those before and those after it. -/
structure Accounted (priority : InterruptPriority) (before : List Turn) (t : Turn)
    (after : List Turn) : Prop where
  /-- A rise is served at once, unless the other interrupt goes first. -/
  rise : nmiRose before t = true → ¬(priority = .irq ∧ irqOpen before t) → t.deed = .entry .nmi
  /-- Behind the other interrupt, a rise is served by the very next step. -/
  second : nmiRose before t = true → priority = .irq ∧ irqOpen before t →
    t.deed = .entry .irq ∧ ∀ next ∈ after.head?, next.deed = .entry .nmi
  /-- An interrupt request is entered when it is open and nothing goes first. -/
  irq : t.deed = .entry .irq ↔ irqOpen before t ∧ ¬(priority = .nmi ∧ nmiWaits before t)

theorem nmiWaits_of_rose {t : Turn} (books : Books before cpu) (rose : nmiRose before t = true) :
    nmiWaits before t := by
  unfold nmiWaits
  rw [nmiRises_snoc, ← books.count, rose]
  simp only [Bool.toNat_true]
  omega

/-- Behind an entry for the other interrupt, a request that waited is entered. -/
theorem Books.entry_second {t : Turn} (books : Books (before ++ [t]) cpu)
    (waits : nmiWaits before t) (entered : t.deed = .entry .irq) :
    (cpu.turn bus).deed = .entry .nmi := by
  have pending : cpu.nmiPending = true := by
    have count := books.count
    unfold nmiWaits at waits
    rw [← count, entries_snoc, if_neg (by simp [entered])] at waits
    cases h : cpu.nmiPending
    · simp [h] at waits
    · rfl
  refine turn_entry.mpr (poll_eq_nmi.mpr ⟨by simp [noticesNmi, pending], ?_⟩)
  rintro ⟨-, -, clear⟩
  exact absurd clear (by simp [(books.waits pending).2])

/-- Every rise of the non-maskable line is one entry or still waits, none is served later than
behind one entry for the other interrupt, and that one is entered exactly when it is held, not
masked by the mask in force, and not behind a non-maskable interrupt that has priority. -/
theorem interrupts_accounted (run : SinceReset β turns cpu) :
    entries .nmi turns + cpu.nmiPending.toNat = nmiRises turns ∧
    ∀ before t after, turns = before ++ t :: after →
      Accounted cpu.config.interruptPriority before t after := by
  refine ⟨run.books.count, ?_⟩
  rintro before t after rfl
  obtain ⟨cpu₀, cpu₁, bus, bus', n, run₀, running, step, rfl, run₁, config₀, config₁⟩ := run.parts
  have books := run₀.books
  rw [← config₀]
  refine ⟨fun rose open_ => books.entry_nmi.mpr ⟨nmiWaits_of_rose books rose, open_⟩,
    fun rose first => ?_, books.entry_irq⟩
  have waits := nmiWaits_of_rose books rose
  have entered : (cpu₀.turn bus).deed = .entry .irq :=
    books.entry_irq.mpr ⟨first.2, by simp [first.1]⟩
  refine ⟨entered, fun next hnext => ?_⟩
  cases after with
  | nil => simp at hnext
  | cons t' after =>
    obtain rfl : t' = next := by simpa using hnext
    rw [← List.singleton_append, ← List.append_assoc] at run
    obtain ⟨cpu₂, cpu₃, bus₂, bus₃, n₂, run₂, -, -, rfl, -⟩ := run.parts
    exact run₂.books.entry_second waits entered

/-! ## Both at once -/

/-- A program from address zero on in memory that cannot be written, with interrupt lines set
from outside. -/
structure Listing where
  code : List UInt8
  lines : InterruptLines

instance : Bus Listing where
  read m address := (m.code.getD address.toNat 0, m)
  write m _ _ := .ok m
  tick m _ := .ok m
  lines m := m.lines

/-- The steps behind `turns`, one for each of the levels. -/
def drill (turns : List Turn) (cpu : Cpu) (m : Listing) :
    List InterruptLines → Except Fault (List Turn × Cpu)
  | [] => .ok (turns, cpu)
  | lines :: rest => do
    if cpu.jammed then return (turns, cpu)
    let (_, cpu', m') ← cpu.step { m with lines }
    drill (turns ++ [cpu.turn { m with lines }]) cpu' m' rest

theorem SinceReset.drill {m : Listing} {levels : List InterruptLines} {turns' : List Turn}
    (run : SinceReset Listing turns cpu) (h : Cpu.drill turns cpu m levels = .ok (turns', cpu')) :
    SinceReset Listing turns' cpu' := by
  induction levels generalizing turns cpu m with
  | nil => cases h; exact run
  | cons lines rest ih =>
    unfold Cpu.drill at h
    split at h
    · cases h; exact run
    · next running =>
      obtain ⟨⟨n, cpu₁, m₁⟩, step, h⟩ := bind_eq_ok.mp h
      exact ih (.step run (by simpa using running) step) h

/-- A program that clears the mask, drilled by a processor that puts the interrupt request first:
both lines go high at its third poll. -/
def bothAtOnce : Except Fault (List Turn × Cpu) := do
  let (cpu, m) ← (Cpu.new { interruptPriority := .irq }).reset (Listing.mk [0x58, 0xEA] {})
  drill [] cpu m [{}, {}, ⟨true, true⟩, ⟨true, true⟩]

/-- What is written down of it. -/
def bothTurns : List Turn := [
  ⟨{}, true, .instruction .cli⟩,
  ⟨{}, false, .instruction .nop⟩,
  ⟨⟨true, true⟩, false, .entry .irq⟩,
  ⟨⟨true, true⟩, true, .entry .nmi⟩]

theorem bothAtOnce_turns :
    bothAtOnce.toOption.map (fun (turns, cpu) => (turns, cpu.config.interruptPriority)) =
      some (bothTurns, .irq) := by
  decide +kernel

/-- The account of that run, whose rise waits behind one entry. -/
theorem interrupts_accounted_bothAtOnce : ∃ cpu, SinceReset Listing bothTurns cpu ∧
    cpu.config.interruptPriority = .irq ∧
    entries .nmi bothTurns + cpu.nmiPending.toNat = nmiRises bothTurns ∧
    ∀ before t after, bothTurns = before ++ t :: after →
      Accounted cpu.config.interruptPriority before t after := by
  have ran := bothAtOnce_turns
  rcases h : bothAtOnce with e | ⟨turns, cpu⟩
  · simp [h, Except.toOption] at ran
  · obtain ⟨rfl, priority⟩ : turns = bothTurns ∧ cpu.config.interruptPriority = .irq := by
      simpa [h, Except.toOption] using ran
    obtain ⟨⟨cpu₀, m⟩, reset, drilled⟩ := bind_eq_ok.mp h
    have run := (SinceReset.reset reset).drill drilled
    exact ⟨cpu, run, priority, interrupts_accounted run⟩

end C64.Cpu
