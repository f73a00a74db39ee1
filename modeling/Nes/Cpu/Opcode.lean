import Nes.Cpu.Instruction

/-!
# The opcode table

One table says what every opcode byte stands for. Execution and disassembly both read it.

Results:

* `length_ofByte`: an instruction is one to three bytes long, by the mode that the table gives.
-/

namespace Nes.Opcode

/-! ## Columns of the table -/

/-- An operation that reads its operand. -/
def read (op : ReadOp) (mode : AddressMode) : Opcode := instruction (.read op mode)

/-- An operation that stores a register. -/
def write (op : WriteOp) (mode : AddressMode) : Opcode := instruction (.write op mode)

/-- An operation that replaces a byte in memory. -/
def modify (op : ModifyOp) (mode : AddressMode) : Opcode := instruction (.modify op mode)

/-- An operation that replaces the accumulator. -/
def modifyA (op : ModifyOp) : Opcode := instruction (.modifyA op)

/-- An operation that replaces a byte and goes on with the new one. -/
def combined (op : CombinedOp) (mode : AddressMode) : Opcode := instruction (.combined op mode)

/-- An operation between registers. -/
def register (op : RegisterOp) : Opcode := instruction (.register op)

/-- An operation that pushes or pulls a byte. -/
def stack (op : StackOp) : Opcode := instruction (.stack op)

/-- A jump that depends on a flag. -/
def branch (condition : Condition) : Opcode := instruction (.branch condition)

/-- A jump, straight or through a pointer. -/
def jmp (mode : AddressMode) : Opcode := instruction (.jmp mode)

/-- The call of a subroutine. -/
def jsr : Opcode := instruction .jsr

/-- The return from a subroutine. -/
def rts : Opcode := instruction .rts

/-- The return from an interrupt. -/
def rti : Opcode := instruction .rti

/-- The interrupt that a program raises itself. -/
def brk : Opcode := instruction .brk

/-- An operation without effect and without operand. -/
def nop : Opcode := instruction (.nop .implied)

/-- An operation without effect that has operand bytes. -/
def skip (mode : AddressMode) : Opcode := instruction (.nop (.address mode))

/-! ## The table -/

/-- The meaning of every opcode byte: a row for each high digit, a column for each low digit. -/
def table : Vector (Vector Opcode 16) 16 := #v[
  -- $00
  #v[brk, read .ora .indirectX, unstable .stp .implied, combined .slo .indirectX,
    skip .zeroPage, read .ora .zeroPage, modify .asl .zeroPage, combined .slo .zeroPage,
    stack .php, read .ora .immediate, modifyA .asl, read .anc .immediate,
    skip .absolute, read .ora .absolute, modify .asl .absolute, combined .slo .absolute],
  -- $10
  #v[branch .bpl, read .ora .indirectY, unstable .stp .implied, combined .slo .indirectY,
    skip .zeroPageX, read .ora .zeroPageX, modify .asl .zeroPageX, combined .slo .zeroPageX,
    register .clc, read .ora .absoluteY, nop, combined .slo .absoluteY,
    skip .absoluteX, read .ora .absoluteX, modify .asl .absoluteX, combined .slo .absoluteX],
  -- $20
  #v[jsr, read .and .indirectX, unstable .stp .implied, combined .rla .indirectX,
    read .bit .zeroPage, read .and .zeroPage, modify .rol .zeroPage, combined .rla .zeroPage,
    stack .plp, read .and .immediate, modifyA .rol, read .anc .immediate,
    read .bit .absolute, read .and .absolute, modify .rol .absolute, combined .rla .absolute],
  -- $30
  #v[branch .bmi, read .and .indirectY, unstable .stp .implied, combined .rla .indirectY,
    skip .zeroPageX, read .and .zeroPageX, modify .rol .zeroPageX, combined .rla .zeroPageX,
    register .sec, read .and .absoluteY, nop, combined .rla .absoluteY,
    skip .absoluteX, read .and .absoluteX, modify .rol .absoluteX, combined .rla .absoluteX],
  -- $40
  #v[rti, read .eor .indirectX, unstable .stp .implied, combined .sre .indirectX,
    skip .zeroPage, read .eor .zeroPage, modify .lsr .zeroPage, combined .sre .zeroPage,
    stack .pha, read .eor .immediate, modifyA .lsr, read .alr .immediate,
    jmp .absolute, read .eor .absolute, modify .lsr .absolute, combined .sre .absolute],
  -- $50
  #v[branch .bvc, read .eor .indirectY, unstable .stp .implied, combined .sre .indirectY,
    skip .zeroPageX, read .eor .zeroPageX, modify .lsr .zeroPageX, combined .sre .zeroPageX,
    register .cli, read .eor .absoluteY, nop, combined .sre .absoluteY,
    skip .absoluteX, read .eor .absoluteX, modify .lsr .absoluteX, combined .sre .absoluteX],
  -- $60
  #v[rts, read .adc .indirectX, unstable .stp .implied, combined .rra .indirectX,
    skip .zeroPage, read .adc .zeroPage, modify .ror .zeroPage, combined .rra .zeroPage,
    stack .pla, read .adc .immediate, modifyA .ror, read .arr .immediate,
    jmp .indirect, read .adc .absolute, modify .ror .absolute, combined .rra .absolute],
  -- $70
  #v[branch .bvs, read .adc .indirectY, unstable .stp .implied, combined .rra .indirectY,
    skip .zeroPageX, read .adc .zeroPageX, modify .ror .zeroPageX, combined .rra .zeroPageX,
    register .sei, read .adc .absoluteY, nop, combined .rra .absoluteY,
    skip .absoluteX, read .adc .absoluteX, modify .ror .absoluteX, combined .rra .absoluteX],
  -- $80
  #v[skip .immediate, write .sta .indirectX, skip .immediate, write .sax .indirectX,
    write .sty .zeroPage, write .sta .zeroPage, write .stx .zeroPage, write .sax .zeroPage,
    register .dey, skip .immediate, register .txa, unstable .xaa (.address .immediate),
    write .sty .absolute, write .sta .absolute, write .stx .absolute, write .sax .absolute],
  -- $90
  #v[branch .bcc, write .sta .indirectY, unstable .stp .implied,
    unstable .ahx (.address .indirectY),
    write .sty .zeroPageX, write .sta .zeroPageX, write .stx .zeroPageY, write .sax .zeroPageY,
    register .tya, write .sta .absoluteY, register .txs, unstable .tas (.address .absoluteY),
    unstable .shy (.address .absoluteX), write .sta .absoluteX,
      unstable .shx (.address .absoluteY), unstable .ahx (.address .absoluteY)],
  -- $A0
  #v[read .ldy .immediate, read .lda .indirectX, read .ldx .immediate, read .lax .indirectX,
    read .ldy .zeroPage, read .lda .zeroPage, read .ldx .zeroPage, read .lax .zeroPage,
    register .tay, read .lda .immediate, register .tax, unstable .lxa (.address .immediate),
    read .ldy .absolute, read .lda .absolute, read .ldx .absolute, read .lax .absolute],
  -- $B0
  #v[branch .bcs, read .lda .indirectY, unstable .stp .implied, read .lax .indirectY,
    read .ldy .zeroPageX, read .lda .zeroPageX, read .ldx .zeroPageY, read .lax .zeroPageY,
    register .clv, read .lda .absoluteY, register .tsx, unstable .las (.address .absoluteY),
    read .ldy .absoluteX, read .lda .absoluteX, read .ldx .absoluteY, read .lax .absoluteY],
  -- $C0
  #v[read .cpy .immediate, read .cmp .indirectX, skip .immediate, combined .dcp .indirectX,
    read .cpy .zeroPage, read .cmp .zeroPage, modify .dec .zeroPage, combined .dcp .zeroPage,
    register .iny, read .cmp .immediate, register .dex, read .axs .immediate,
    read .cpy .absolute, read .cmp .absolute, modify .dec .absolute, combined .dcp .absolute],
  -- $D0
  #v[branch .bne, read .cmp .indirectY, unstable .stp .implied, combined .dcp .indirectY,
    skip .zeroPageX, read .cmp .zeroPageX, modify .dec .zeroPageX, combined .dcp .zeroPageX,
    register .cld, read .cmp .absoluteY, nop, combined .dcp .absoluteY,
    skip .absoluteX, read .cmp .absoluteX, modify .dec .absoluteX, combined .dcp .absoluteX],
  -- $E0
  #v[read .cpx .immediate, read .sbc .indirectX, skip .immediate, combined .isb .indirectX,
    read .cpx .zeroPage, read .sbc .zeroPage, modify .inc .zeroPage, combined .isb .zeroPage,
    register .inx, read .sbc .immediate, nop, read .sbc .immediate,
    read .cpx .absolute, read .sbc .absolute, modify .inc .absolute, combined .isb .absolute],
  -- $F0
  #v[branch .beq, read .sbc .indirectY, unstable .stp .implied, combined .isb .indirectY,
    skip .zeroPageX, read .sbc .zeroPageX, modify .inc .zeroPageX, combined .isb .zeroPageX,
    register .sed, read .sbc .absoluteY, nop, combined .isb .absoluteY,
    skip .absoluteX, read .sbc .absoluteX, modify .inc .absoluteX, combined .isb .absoluteX]]

/-- The meaning of an opcode byte. -/
def ofByte (b : UInt8) : Opcode := (table[Fin.ofNat 16 (b.toNat / 16)])[Fin.ofNat 16 b.toNat]

theorem length_ofByte (b : UInt8) : 1 ≤ (ofByte b).length ∧ (ofByte b).length ≤ 3 :=
  ⟨Nat.le_add_right .., length_le_three _⟩

end Nes.Opcode
