/-!
# Decoding

Each of the 256 opcodes names an operation, a way to find its operand and a number of cycles.
Operations beyond the documented ones are those that behave reproducibly on real parts.
-/

namespace C64.Cpu

/-- How an instruction finds its operand in memory. -/
inductive AddressMode where
  /-- An address in page zero. -/
  | zeroPage
  /-- Page zero, the first index register added within the page. -/
  | zeroPageX
  /-- Page zero, the second index register added within the page. -/
  | zeroPageY
  | absolute
  /-- An address with the first index register added. -/
  | absoluteX
  /-- An address with the second index register added. -/
  | absoluteY
  /-- The address held at an address. -/
  | indirect
  /-- The address held in page zero, the first index register added before the look-up. -/
  | indirectX
  /-- The address held in page zero, the second index register added after the look-up. -/
  | indirectY
deriving DecidableEq

/-- Where an instruction finds its operand. -/
inductive Mode where
  | implied
  | accumulator
  /-- The byte behind the opcode. -/
  | immediate
  /-- A signed distance to branch by. -/
  | relative
  | memory (m : AddressMode)
deriving DecidableEq

namespace Mode

abbrev imp : Mode := .implied
abbrev acc : Mode := .accumulator
abbrev imm : Mode := .immediate
abbrev rel : Mode := .relative
abbrev zp : Mode := .memory .zeroPage
abbrev zpx : Mode := .memory .zeroPageX
abbrev zpy : Mode := .memory .zeroPageY
abbrev abs : Mode := .memory .absolute
abbrev abx : Mode := .memory .absoluteX
abbrev aby : Mode := .memory .absoluteY
abbrev ind : Mode := .memory .indirect
abbrev izx : Mode := .memory .indirectX
abbrev izy : Mode := .memory .indirectY

/-- The number of bytes behind the opcode. -/
def operandLength : Mode → Nat
  | implied | accumulator => 0
  | immediate | relative => 1
  | memory .absolute | memory .absoluteX | memory .absoluteY | memory .indirect => 2
  | memory _ => 1

/-- The short name of a mode. -/
def name : Mode → String
  | implied => "Imp"
  | accumulator => "Acc"
  | immediate => "Imm"
  | relative => "Rel"
  | memory .zeroPage => "Zp"
  | memory .zeroPageX => "Zpx"
  | memory .zeroPageY => "Zpy"
  | memory .absolute => "Abs"
  | memory .absoluteX => "Abx"
  | memory .absoluteY => "Aby"
  | memory .indirect => "Ind"
  | memory .indirectX => "Izx"
  | memory .indirectY => "Izy"

end Mode

/-- An operation: the documented ones, then the others. -/
inductive Mnemonic where
  | adc | and | asl | bcc | bcs | beq | bit | bmi | bne | bpl | brk | bvc | bvs | clc | cld
  | cli | clv | cmp | cpx | cpy | dec | dex | dey | eor | inc | inx | iny | jmp | jsr | lda
  | ldx | ldy | lsr | nop | ora | pha | php | pla | plp | rol | ror | rti | rts | sbc | sec
  | sed | sei | sta | stx | sty | tax | tay | tsx | txa | txs | tya
  -- Operations the data sheet leaves out.
  | anc | alr | arr | ane | lxa | sbx | las | lax | sax | slo | rla | sre | rra | dcp | isc
  | sha | shx | shy | tas | jam
deriving DecidableEq

namespace Mnemonic

/-- The name an assembler knows the operation by. -/
def name : Mnemonic → String
  | adc => "Adc"
  | and => "And"
  | asl => "Asl"
  | bcc => "Bcc"
  | bcs => "Bcs"
  | beq => "Beq"
  | bit => "Bit"
  | bmi => "Bmi"
  | bne => "Bne"
  | bpl => "Bpl"
  | brk => "Brk"
  | bvc => "Bvc"
  | bvs => "Bvs"
  | clc => "Clc"
  | cld => "Cld"
  | cli => "Cli"
  | clv => "Clv"
  | cmp => "Cmp"
  | cpx => "Cpx"
  | cpy => "Cpy"
  | dec => "Dec"
  | dex => "Dex"
  | dey => "Dey"
  | eor => "Eor"
  | inc => "Inc"
  | inx => "Inx"
  | iny => "Iny"
  | jmp => "Jmp"
  | jsr => "Jsr"
  | lda => "Lda"
  | ldx => "Ldx"
  | ldy => "Ldy"
  | lsr => "Lsr"
  | nop => "Nop"
  | ora => "Ora"
  | pha => "Pha"
  | php => "Php"
  | pla => "Pla"
  | plp => "Plp"
  | rol => "Rol"
  | ror => "Ror"
  | rti => "Rti"
  | rts => "Rts"
  | sbc => "Sbc"
  | sec => "Sec"
  | sed => "Sed"
  | sei => "Sei"
  | sta => "Sta"
  | stx => "Stx"
  | sty => "Sty"
  | tax => "Tax"
  | tay => "Tay"
  | tsx => "Tsx"
  | txa => "Txa"
  | txs => "Txs"
  | tya => "Tya"
  | anc => "Anc"
  | alr => "Alr"
  | arr => "Arr"
  | ane => "Ane"
  | lxa => "Lxa"
  | sbx => "Sbx"
  | las => "Las"
  | lax => "Lax"
  | sax => "Sax"
  | slo => "Slo"
  | rla => "Rla"
  | sre => "Sre"
  | rra => "Rra"
  | dcp => "Dcp"
  | isc => "Isc"
  | sha => "Sha"
  | shx => "Shx"
  | shy => "Shy"
  | tas => "Tas"
  | jam => "Jam"

/-- Whether the data sheet leaves the operation out. -/
def isUndocumented : Mnemonic → Bool
  | anc | alr | arr | ane | lxa | sbx | las | lax | sax | slo | rla | sre | rra | dcp | isc
  | sha | shx | shy | tas | jam => true
  | _ => false

/-- Whether the operation only reads its operand, so that it can do without the cycle that
corrects an address when indexing stays within a page. -/
def takesPagePenalty : Mnemonic → Bool
  | adc | and | cmp | eor | lda | ldx | ldy | ora | sbc | nop | lax | las => true
  | _ => false

/-- Whether the next interrupt poll still sees the mask from before the operation. -/
def delaysMask : Mnemonic → Bool
  | cli | sei | plp => true
  | _ => false

end Mnemonic

/-- A decoded opcode. -/
structure Opcode where
  mnemonic : Mnemonic
  mode : Mode
  /-- Cycles as long as indexing stays within a page and no branch is taken. -/
  cycles : Nat
deriving DecidableEq

namespace Opcode

/-- Whether indexing into another page costs one cycle more. -/
def pagePenalty (op : Opcode) : Bool :=
  op.mnemonic.takesPagePenalty &&
    (op.mode = .abx ∨ op.mode = .aby ∨ op.mode = .izy)

set_option maxRecDepth 2048 in
/-- The opcodes in the order of their bytes, sixteen to four lines. -/
def table : Vector Opcode 256 := #v[
  ⟨.brk, .imp, 7⟩, ⟨.ora, .izx, 6⟩, ⟨.jam, .imp, 2⟩, ⟨.slo, .izx, 8⟩,
  ⟨.nop, .zp, 3⟩, ⟨.ora, .zp, 3⟩, ⟨.asl, .zp, 5⟩, ⟨.slo, .zp, 5⟩,
  ⟨.php, .imp, 3⟩, ⟨.ora, .imm, 2⟩, ⟨.asl, .acc, 2⟩, ⟨.anc, .imm, 2⟩,
  ⟨.nop, .abs, 4⟩, ⟨.ora, .abs, 4⟩, ⟨.asl, .abs, 6⟩, ⟨.slo, .abs, 6⟩,
  ⟨.bpl, .rel, 2⟩, ⟨.ora, .izy, 5⟩, ⟨.jam, .imp, 2⟩, ⟨.slo, .izy, 8⟩,
  ⟨.nop, .zpx, 4⟩, ⟨.ora, .zpx, 4⟩, ⟨.asl, .zpx, 6⟩, ⟨.slo, .zpx, 6⟩,
  ⟨.clc, .imp, 2⟩, ⟨.ora, .aby, 4⟩, ⟨.nop, .imp, 2⟩, ⟨.slo, .aby, 7⟩,
  ⟨.nop, .abx, 4⟩, ⟨.ora, .abx, 4⟩, ⟨.asl, .abx, 7⟩, ⟨.slo, .abx, 7⟩,
  ⟨.jsr, .abs, 6⟩, ⟨.and, .izx, 6⟩, ⟨.jam, .imp, 2⟩, ⟨.rla, .izx, 8⟩,
  ⟨.bit, .zp, 3⟩, ⟨.and, .zp, 3⟩, ⟨.rol, .zp, 5⟩, ⟨.rla, .zp, 5⟩,
  ⟨.plp, .imp, 4⟩, ⟨.and, .imm, 2⟩, ⟨.rol, .acc, 2⟩, ⟨.anc, .imm, 2⟩,
  ⟨.bit, .abs, 4⟩, ⟨.and, .abs, 4⟩, ⟨.rol, .abs, 6⟩, ⟨.rla, .abs, 6⟩,
  ⟨.bmi, .rel, 2⟩, ⟨.and, .izy, 5⟩, ⟨.jam, .imp, 2⟩, ⟨.rla, .izy, 8⟩,
  ⟨.nop, .zpx, 4⟩, ⟨.and, .zpx, 4⟩, ⟨.rol, .zpx, 6⟩, ⟨.rla, .zpx, 6⟩,
  ⟨.sec, .imp, 2⟩, ⟨.and, .aby, 4⟩, ⟨.nop, .imp, 2⟩, ⟨.rla, .aby, 7⟩,
  ⟨.nop, .abx, 4⟩, ⟨.and, .abx, 4⟩, ⟨.rol, .abx, 7⟩, ⟨.rla, .abx, 7⟩,
  ⟨.rti, .imp, 6⟩, ⟨.eor, .izx, 6⟩, ⟨.jam, .imp, 2⟩, ⟨.sre, .izx, 8⟩,
  ⟨.nop, .zp, 3⟩, ⟨.eor, .zp, 3⟩, ⟨.lsr, .zp, 5⟩, ⟨.sre, .zp, 5⟩,
  ⟨.pha, .imp, 3⟩, ⟨.eor, .imm, 2⟩, ⟨.lsr, .acc, 2⟩, ⟨.alr, .imm, 2⟩,
  ⟨.jmp, .abs, 3⟩, ⟨.eor, .abs, 4⟩, ⟨.lsr, .abs, 6⟩, ⟨.sre, .abs, 6⟩,
  ⟨.bvc, .rel, 2⟩, ⟨.eor, .izy, 5⟩, ⟨.jam, .imp, 2⟩, ⟨.sre, .izy, 8⟩,
  ⟨.nop, .zpx, 4⟩, ⟨.eor, .zpx, 4⟩, ⟨.lsr, .zpx, 6⟩, ⟨.sre, .zpx, 6⟩,
  ⟨.cli, .imp, 2⟩, ⟨.eor, .aby, 4⟩, ⟨.nop, .imp, 2⟩, ⟨.sre, .aby, 7⟩,
  ⟨.nop, .abx, 4⟩, ⟨.eor, .abx, 4⟩, ⟨.lsr, .abx, 7⟩, ⟨.sre, .abx, 7⟩,
  ⟨.rts, .imp, 6⟩, ⟨.adc, .izx, 6⟩, ⟨.jam, .imp, 2⟩, ⟨.rra, .izx, 8⟩,
  ⟨.nop, .zp, 3⟩, ⟨.adc, .zp, 3⟩, ⟨.ror, .zp, 5⟩, ⟨.rra, .zp, 5⟩,
  ⟨.pla, .imp, 4⟩, ⟨.adc, .imm, 2⟩, ⟨.ror, .acc, 2⟩, ⟨.arr, .imm, 2⟩,
  ⟨.jmp, .ind, 5⟩, ⟨.adc, .abs, 4⟩, ⟨.ror, .abs, 6⟩, ⟨.rra, .abs, 6⟩,
  ⟨.bvs, .rel, 2⟩, ⟨.adc, .izy, 5⟩, ⟨.jam, .imp, 2⟩, ⟨.rra, .izy, 8⟩,
  ⟨.nop, .zpx, 4⟩, ⟨.adc, .zpx, 4⟩, ⟨.ror, .zpx, 6⟩, ⟨.rra, .zpx, 6⟩,
  ⟨.sei, .imp, 2⟩, ⟨.adc, .aby, 4⟩, ⟨.nop, .imp, 2⟩, ⟨.rra, .aby, 7⟩,
  ⟨.nop, .abx, 4⟩, ⟨.adc, .abx, 4⟩, ⟨.ror, .abx, 7⟩, ⟨.rra, .abx, 7⟩,
  ⟨.nop, .imm, 2⟩, ⟨.sta, .izx, 6⟩, ⟨.nop, .imm, 2⟩, ⟨.sax, .izx, 6⟩,
  ⟨.sty, .zp, 3⟩, ⟨.sta, .zp, 3⟩, ⟨.stx, .zp, 3⟩, ⟨.sax, .zp, 3⟩,
  ⟨.dey, .imp, 2⟩, ⟨.nop, .imm, 2⟩, ⟨.txa, .imp, 2⟩, ⟨.ane, .imm, 2⟩,
  ⟨.sty, .abs, 4⟩, ⟨.sta, .abs, 4⟩, ⟨.stx, .abs, 4⟩, ⟨.sax, .abs, 4⟩,
  ⟨.bcc, .rel, 2⟩, ⟨.sta, .izy, 6⟩, ⟨.jam, .imp, 2⟩, ⟨.sha, .izy, 6⟩,
  ⟨.sty, .zpx, 4⟩, ⟨.sta, .zpx, 4⟩, ⟨.stx, .zpy, 4⟩, ⟨.sax, .zpy, 4⟩,
  ⟨.tya, .imp, 2⟩, ⟨.sta, .aby, 5⟩, ⟨.txs, .imp, 2⟩, ⟨.tas, .aby, 5⟩,
  ⟨.shy, .abx, 5⟩, ⟨.sta, .abx, 5⟩, ⟨.shx, .aby, 5⟩, ⟨.sha, .aby, 5⟩,
  ⟨.ldy, .imm, 2⟩, ⟨.lda, .izx, 6⟩, ⟨.ldx, .imm, 2⟩, ⟨.lax, .izx, 6⟩,
  ⟨.ldy, .zp, 3⟩, ⟨.lda, .zp, 3⟩, ⟨.ldx, .zp, 3⟩, ⟨.lax, .zp, 3⟩,
  ⟨.tay, .imp, 2⟩, ⟨.lda, .imm, 2⟩, ⟨.tax, .imp, 2⟩, ⟨.lxa, .imm, 2⟩,
  ⟨.ldy, .abs, 4⟩, ⟨.lda, .abs, 4⟩, ⟨.ldx, .abs, 4⟩, ⟨.lax, .abs, 4⟩,
  ⟨.bcs, .rel, 2⟩, ⟨.lda, .izy, 5⟩, ⟨.jam, .imp, 2⟩, ⟨.lax, .izy, 5⟩,
  ⟨.ldy, .zpx, 4⟩, ⟨.lda, .zpx, 4⟩, ⟨.ldx, .zpy, 4⟩, ⟨.lax, .zpy, 4⟩,
  ⟨.clv, .imp, 2⟩, ⟨.lda, .aby, 4⟩, ⟨.tsx, .imp, 2⟩, ⟨.las, .aby, 4⟩,
  ⟨.ldy, .abx, 4⟩, ⟨.lda, .abx, 4⟩, ⟨.ldx, .aby, 4⟩, ⟨.lax, .aby, 4⟩,
  ⟨.cpy, .imm, 2⟩, ⟨.cmp, .izx, 6⟩, ⟨.nop, .imm, 2⟩, ⟨.dcp, .izx, 8⟩,
  ⟨.cpy, .zp, 3⟩, ⟨.cmp, .zp, 3⟩, ⟨.dec, .zp, 5⟩, ⟨.dcp, .zp, 5⟩,
  ⟨.iny, .imp, 2⟩, ⟨.cmp, .imm, 2⟩, ⟨.dex, .imp, 2⟩, ⟨.sbx, .imm, 2⟩,
  ⟨.cpy, .abs, 4⟩, ⟨.cmp, .abs, 4⟩, ⟨.dec, .abs, 6⟩, ⟨.dcp, .abs, 6⟩,
  ⟨.bne, .rel, 2⟩, ⟨.cmp, .izy, 5⟩, ⟨.jam, .imp, 2⟩, ⟨.dcp, .izy, 8⟩,
  ⟨.nop, .zpx, 4⟩, ⟨.cmp, .zpx, 4⟩, ⟨.dec, .zpx, 6⟩, ⟨.dcp, .zpx, 6⟩,
  ⟨.cld, .imp, 2⟩, ⟨.cmp, .aby, 4⟩, ⟨.nop, .imp, 2⟩, ⟨.dcp, .aby, 7⟩,
  ⟨.nop, .abx, 4⟩, ⟨.cmp, .abx, 4⟩, ⟨.dec, .abx, 7⟩, ⟨.dcp, .abx, 7⟩,
  ⟨.cpx, .imm, 2⟩, ⟨.sbc, .izx, 6⟩, ⟨.nop, .imm, 2⟩, ⟨.isc, .izx, 8⟩,
  ⟨.cpx, .zp, 3⟩, ⟨.sbc, .zp, 3⟩, ⟨.inc, .zp, 5⟩, ⟨.isc, .zp, 5⟩,
  ⟨.inx, .imp, 2⟩, ⟨.sbc, .imm, 2⟩, ⟨.nop, .imp, 2⟩, ⟨.sbc, .imm, 2⟩,
  ⟨.cpx, .abs, 4⟩, ⟨.sbc, .abs, 4⟩, ⟨.inc, .abs, 6⟩, ⟨.isc, .abs, 6⟩,
  ⟨.beq, .rel, 2⟩, ⟨.sbc, .izy, 5⟩, ⟨.jam, .imp, 2⟩, ⟨.isc, .izy, 8⟩,
  ⟨.nop, .zpx, 4⟩, ⟨.sbc, .zpx, 4⟩, ⟨.inc, .zpx, 6⟩, ⟨.isc, .zpx, 6⟩,
  ⟨.sed, .imp, 2⟩, ⟨.sbc, .aby, 4⟩, ⟨.nop, .imp, 2⟩, ⟨.isc, .aby, 7⟩,
  ⟨.nop, .abx, 4⟩, ⟨.sbc, .abx, 4⟩, ⟨.inc, .abx, 7⟩, ⟨.isc, .abx, 7⟩]

/-- The opcode of a byte. -/
def decode (b : UInt8) : Opcode := table.get ⟨b.toNat, b.toNat_lt⟩

end Opcode

end C64.Cpu
