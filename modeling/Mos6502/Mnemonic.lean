/-
This file names the fifty-six documented instructions. A name has two written forms: upper case in
assembly text, and with only its first letter in upper case where a report names the instruction as
a value.
-/

namespace Mos6502

/-- The name of an instruction. -/
inductive Mnemonic where
  | lda | ldx | ldy | sta | stx | sty
  | adc | sbc | and | ora | eor | bit | cmp | cpx | cpy
  | asl | lsr | rol | ror
  | inc | dec | inx | iny | dex | dey
  | bcc | bcs | beq | bne | bmi | bpl | bvc | bvs
  | jmp | jsr | rts | rti | brk | nop
  | pha | php | pla | plp
  | clc | sec | cld | sed | cli | sei | clv
  | tax | tay | txa | tya | tsx | txs
deriving DecidableEq

namespace Mnemonic

/-- Every instruction, grouped by what it does. -/
def all : List Mnemonic :=
  [lda, ldx, ldy, sta, stx, sty,
    adc, sbc, and, ora, eor, bit, cmp, cpx, cpy,
    asl, lsr, rol, ror,
    inc, dec, inx, iny, dex, dey,
    bcc, bcs, beq, bne, bmi, bpl, bvc, bvs,
    jmp, jsr, rts, rti, brk, nop,
    pha, php, pla, plp,
    clc, sec, cld, sed, cli, sei, clv,
    tax, tay, txa, tya, tsx, txs]

/-- The name as assembly text spells it. -/
def name : Mnemonic → String
  | lda => "LDA"
  | ldx => "LDX"
  | ldy => "LDY"
  | sta => "STA"
  | stx => "STX"
  | sty => "STY"
  | adc => "ADC"
  | sbc => "SBC"
  | and => "AND"
  | ora => "ORA"
  | eor => "EOR"
  | bit => "BIT"
  | cmp => "CMP"
  | cpx => "CPX"
  | cpy => "CPY"
  | asl => "ASL"
  | lsr => "LSR"
  | rol => "ROL"
  | ror => "ROR"
  | inc => "INC"
  | dec => "DEC"
  | inx => "INX"
  | iny => "INY"
  | dex => "DEX"
  | dey => "DEY"
  | bcc => "BCC"
  | bcs => "BCS"
  | beq => "BEQ"
  | bne => "BNE"
  | bmi => "BMI"
  | bpl => "BPL"
  | bvc => "BVC"
  | bvs => "BVS"
  | jmp => "JMP"
  | jsr => "JSR"
  | rts => "RTS"
  | rti => "RTI"
  | brk => "BRK"
  | nop => "NOP"
  | pha => "PHA"
  | php => "PHP"
  | pla => "PLA"
  | plp => "PLP"
  | clc => "CLC"
  | sec => "SEC"
  | cld => "CLD"
  | sed => "SED"
  | cli => "CLI"
  | sei => "SEI"
  | clv => "CLV"
  | tax => "TAX"
  | tay => "TAY"
  | txa => "TXA"
  | tya => "TYA"
  | tsx => "TSX"
  | txs => "TXS"

/-- The name with only its first letter in upper case. -/
def title (mnemonic : Mnemonic) : String :=
  match mnemonic.name.toList with
  | [] => ""
  | first :: rest => String.ofList (first :: rest.map Char.toLower)

/-- Whether the instruction is a conditional branch. -/
def isBranch : Mnemonic → Bool
  | bcc | bcs | beq | bne | bmi | bpl | bvc | bvs => true
  | _ => false

/-- The instruction with the given assembly name. -/
def ofName? (name : String) : Option Mnemonic :=
  all.find? (·.name == name)

theorem mem_all (mnemonic : Mnemonic) : mnemonic ∈ all := by
  cases mnemonic <;> decide

end Mnemonic

end Mos6502
