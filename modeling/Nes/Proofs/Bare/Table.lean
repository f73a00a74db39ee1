import Nes.Cpu.Opcode

/-!
# The opcode table by names

The opcode table as a list of names and modes, where nothing keeps a name from standing beside a
mode that it has no use for. Some names are refused before they are carried out. The executor knows
what to do for each of the others, and does not expect those: that the two lists are of the same
names is a theorem, and so is that the table is the one by families.

Results:

* `Mnemonic.operation?_eq_none_iff`: the executor does not expect what is refused, and nothing else.
* `operation?_name`: every operation is carried out for its name.
* `getElem?_table`: the entry of the table for an opcode byte.
-/

namespace Nes

namespace Bare

/-! ## Names -/

/-- The names of operations: the documented ones, those that act alike on every chip, and those
that do not or that stop the processor. -/
inductive Mnemonic where
  | adc | and | asl | bcc | bcs | beq | bit | bmi | bne | bpl | brk | bvc | bvs | clc | cld
  | cli | clv | cmp | cpx | cpy | dec | dex | dey | eor | inc | inx | iny | jmp | jsr | lda
  | ldx | ldy | lsr | nop | ora | pha | php | pla | plp | rol | ror | rti | rts | sbc | sec
  | sed | sei | sta | stx | sty | tax | tay | tsx | txa | txs | tya
  | alr | anc | arr | axs | dcp | isb | lax | rla | rra | sax | slo | sre
  | ahx | las | lxa | shx | shy | stp | tas | xaa
deriving DecidableEq

/-- What an operation does with an operand, whatever the operand is. -/
inductive Operation where
  | read (op : ReadOp)
  | write (op : WriteOp)
  | modify (op : ModifyOp)
  | combined (op : CombinedOp)
  | register (op : RegisterOp)
  | stack (op : StackOp)
  | branch (condition : Condition)
  | jmp
  | jsr
  | rts
  | rti
  | brk
  | nop
deriving DecidableEq

/-- The operation that the processor refuses, if the name is one of those. -/
def Mnemonic.refused? : Mnemonic → Option UnstableOp
  | ahx => some .ahx | las => some .las | lxa => some .lxa | shx => some .shx
  | shy => some .shy | stp => some .stp | tas => some .tas | xaa => some .xaa
  | _ => none

/-- What the executor does for a name. There are names that it does not expect. -/
def Mnemonic.operation? : Mnemonic → Option Operation
  | adc => some (.read .adc) | and => some (.read .and) | bit => some (.read .bit)
  | cmp => some (.read .cmp) | cpx => some (.read .cpx) | cpy => some (.read .cpy)
  | eor => some (.read .eor) | lda => some (.read .lda) | ldx => some (.read .ldx)
  | ldy => some (.read .ldy) | ora => some (.read .ora) | sbc => some (.read .sbc)
  | alr => some (.read .alr) | anc => some (.read .anc) | arr => some (.read .arr)
  | axs => some (.read .axs) | lax => some (.read .lax)
  | sta => some (.write .sta) | stx => some (.write .stx) | sty => some (.write .sty)
  | sax => some (.write .sax)
  | asl => some (.modify .asl) | lsr => some (.modify .lsr) | rol => some (.modify .rol)
  | ror => some (.modify .ror) | inc => some (.modify .inc) | dec => some (.modify .dec)
  | dcp => some (.combined .dcp) | isb => some (.combined .isb) | rla => some (.combined .rla)
  | rra => some (.combined .rra) | slo => some (.combined .slo) | sre => some (.combined .sre)
  | clc => some (.register .clc) | cld => some (.register .cld) | cli => some (.register .cli)
  | clv => some (.register .clv) | dex => some (.register .dex) | dey => some (.register .dey)
  | inx => some (.register .inx) | iny => some (.register .iny) | sec => some (.register .sec)
  | sed => some (.register .sed) | sei => some (.register .sei) | tax => some (.register .tax)
  | tay => some (.register .tay) | tsx => some (.register .tsx) | txa => some (.register .txa)
  | txs => some (.register .txs) | tya => some (.register .tya)
  | pha => some (.stack .pha) | php => some (.stack .php) | pla => some (.stack .pla)
  | plp => some (.stack .plp)
  | bcc => some (.branch .bcc) | bcs => some (.branch .bcs) | beq => some (.branch .beq)
  | bmi => some (.branch .bmi) | bne => some (.branch .bne) | bpl => some (.branch .bpl)
  | bvc => some (.branch .bvc) | bvs => some (.branch .bvs)
  | jmp => some .jmp | jsr => some .jsr | rts => some .rts | rti => some .rti | brk => some .brk
  | nop => some .nop
  | ahx | las | lxa | shx | shy | stp | tas | xaa => none

/-- The name of an operation. -/
def Operation.name : Operation → Mnemonic
  | .read .adc => .adc | .read .and => .and | .read .bit => .bit | .read .cmp => .cmp
  | .read .cpx => .cpx | .read .cpy => .cpy | .read .eor => .eor | .read .lda => .lda
  | .read .ldx => .ldx | .read .ldy => .ldy | .read .ora => .ora | .read .sbc => .sbc
  | .read .alr => .alr | .read .anc => .anc | .read .arr => .arr | .read .axs => .axs
  | .read .lax => .lax
  | .write .sta => .sta | .write .stx => .stx | .write .sty => .sty | .write .sax => .sax
  | .modify .asl => .asl | .modify .lsr => .lsr | .modify .rol => .rol | .modify .ror => .ror
  | .modify .inc => .inc | .modify .dec => .dec
  | .combined .dcp => .dcp | .combined .isb => .isb | .combined .rla => .rla
  | .combined .rra => .rra | .combined .slo => .slo | .combined .sre => .sre
  | .register .clc => .clc | .register .cld => .cld | .register .cli => .cli
  | .register .clv => .clv | .register .dex => .dex | .register .dey => .dey
  | .register .inx => .inx | .register .iny => .iny | .register .sec => .sec
  | .register .sed => .sed | .register .sei => .sei | .register .tax => .tax
  | .register .tay => .tay | .register .tsx => .tsx | .register .txa => .txa
  | .register .txs => .txs | .register .tya => .tya
  | .stack .pha => .pha | .stack .php => .php | .stack .pla => .pla | .stack .plp => .plp
  | .branch .bcc => .bcc | .branch .bcs => .bcs | .branch .beq => .beq | .branch .bmi => .bmi
  | .branch .bne => .bne | .branch .bpl => .bpl | .branch .bvc => .bvc | .branch .bvs => .bvs
  | .jmp => .jmp | .jsr => .jsr | .rts => .rts | .rti => .rti | .brk => .brk | .nop => .nop

/-- The name of an operation that is refused. -/
def unstableName : UnstableOp → Mnemonic
  | .ahx => .ahx | .las => .las | .lxa => .lxa | .shx => .shx
  | .shy => .shy | .stp => .stp | .tas => .tas | .xaa => .xaa

/-! ## The table -/

/-- There is no operand. -/
abbrev imp : Mode := .implied

/-- The accumulator. -/
abbrev acc : Mode := .accumulator

/-- The byte after the opcode. -/
abbrev imm : Mode := .address .immediate

/-- In page 0. -/
abbrev zp : Mode := .address .zeroPage

/-- In page 0, moved by the first index. -/
abbrev zpx : Mode := .address .zeroPageX

/-- In page 0, moved by the second index. -/
abbrev zpy : Mode := .address .zeroPageY

/-- Anywhere. -/
abbrev abs : Mode := .address .absolute

/-- Anywhere, moved by the first index. -/
abbrev abx : Mode := .address .absoluteX

/-- Anywhere, moved by the second index. -/
abbrev aby : Mode := .address .absoluteY

/-- Through a pointer. -/
abbrev ind : Mode := .address .indirect

/-- Through a pointer in page 0 that is moved by the first index. -/
abbrev izx : Mode := .address .indirectX

/-- Through a pointer in page 0, moved by the second index from where it leads. -/
abbrev izy : Mode := .address .indirectY

/-- Next to the instruction. -/
abbrev rel : Mode := .address .relative

/-- The name and the mode for every opcode byte. -/
def table : Array (Mnemonic × Mode) := #[
  -- $00
  (.brk, imp), (.ora, izx), (.stp, imp), (.slo, izx),
  (.nop, zp), (.ora, zp), (.asl, zp), (.slo, zp),
  (.php, imp), (.ora, imm), (.asl, acc), (.anc, imm),
  (.nop, abs), (.ora, abs), (.asl, abs), (.slo, abs),
  -- $10
  (.bpl, rel), (.ora, izy), (.stp, imp), (.slo, izy),
  (.nop, zpx), (.ora, zpx), (.asl, zpx), (.slo, zpx),
  (.clc, imp), (.ora, aby), (.nop, imp), (.slo, aby),
  (.nop, abx), (.ora, abx), (.asl, abx), (.slo, abx),
  -- $20
  (.jsr, abs), (.and, izx), (.stp, imp), (.rla, izx),
  (.bit, zp), (.and, zp), (.rol, zp), (.rla, zp),
  (.plp, imp), (.and, imm), (.rol, acc), (.anc, imm),
  (.bit, abs), (.and, abs), (.rol, abs), (.rla, abs),
  -- $30
  (.bmi, rel), (.and, izy), (.stp, imp), (.rla, izy),
  (.nop, zpx), (.and, zpx), (.rol, zpx), (.rla, zpx),
  (.sec, imp), (.and, aby), (.nop, imp), (.rla, aby),
  (.nop, abx), (.and, abx), (.rol, abx), (.rla, abx),
  -- $40
  (.rti, imp), (.eor, izx), (.stp, imp), (.sre, izx),
  (.nop, zp), (.eor, zp), (.lsr, zp), (.sre, zp),
  (.pha, imp), (.eor, imm), (.lsr, acc), (.alr, imm),
  (.jmp, abs), (.eor, abs), (.lsr, abs), (.sre, abs),
  -- $50
  (.bvc, rel), (.eor, izy), (.stp, imp), (.sre, izy),
  (.nop, zpx), (.eor, zpx), (.lsr, zpx), (.sre, zpx),
  (.cli, imp), (.eor, aby), (.nop, imp), (.sre, aby),
  (.nop, abx), (.eor, abx), (.lsr, abx), (.sre, abx),
  -- $60
  (.rts, imp), (.adc, izx), (.stp, imp), (.rra, izx),
  (.nop, zp), (.adc, zp), (.ror, zp), (.rra, zp),
  (.pla, imp), (.adc, imm), (.ror, acc), (.arr, imm),
  (.jmp, ind), (.adc, abs), (.ror, abs), (.rra, abs),
  -- $70
  (.bvs, rel), (.adc, izy), (.stp, imp), (.rra, izy),
  (.nop, zpx), (.adc, zpx), (.ror, zpx), (.rra, zpx),
  (.sei, imp), (.adc, aby), (.nop, imp), (.rra, aby),
  (.nop, abx), (.adc, abx), (.ror, abx), (.rra, abx),
  -- $80
  (.nop, imm), (.sta, izx), (.nop, imm), (.sax, izx),
  (.sty, zp), (.sta, zp), (.stx, zp), (.sax, zp),
  (.dey, imp), (.nop, imm), (.txa, imp), (.xaa, imm),
  (.sty, abs), (.sta, abs), (.stx, abs), (.sax, abs),
  -- $90
  (.bcc, rel), (.sta, izy), (.stp, imp), (.ahx, izy),
  (.sty, zpx), (.sta, zpx), (.stx, zpy), (.sax, zpy),
  (.tya, imp), (.sta, aby), (.txs, imp), (.tas, aby),
  (.shy, abx), (.sta, abx), (.shx, aby), (.ahx, aby),
  -- $A0
  (.ldy, imm), (.lda, izx), (.ldx, imm), (.lax, izx),
  (.ldy, zp), (.lda, zp), (.ldx, zp), (.lax, zp),
  (.tay, imp), (.lda, imm), (.tax, imp), (.lxa, imm),
  (.ldy, abs), (.lda, abs), (.ldx, abs), (.lax, abs),
  -- $B0
  (.bcs, rel), (.lda, izy), (.stp, imp), (.lax, izy),
  (.ldy, zpx), (.lda, zpx), (.ldx, zpy), (.lax, zpy),
  (.clv, imp), (.lda, aby), (.tsx, imp), (.las, aby),
  (.ldy, abx), (.lda, abx), (.ldx, aby), (.lax, aby),
  -- $C0
  (.cpy, imm), (.cmp, izx), (.nop, imm), (.dcp, izx),
  (.cpy, zp), (.cmp, zp), (.dec, zp), (.dcp, zp),
  (.iny, imp), (.cmp, imm), (.dex, imp), (.axs, imm),
  (.cpy, abs), (.cmp, abs), (.dec, abs), (.dcp, abs),
  -- $D0
  (.bne, rel), (.cmp, izy), (.stp, imp), (.dcp, izy),
  (.nop, zpx), (.cmp, zpx), (.dec, zpx), (.dcp, zpx),
  (.cld, imp), (.cmp, aby), (.nop, imp), (.dcp, aby),
  (.nop, abx), (.cmp, abx), (.dec, abx), (.dcp, abx),
  -- $E0
  (.cpx, imm), (.sbc, izx), (.nop, imm), (.isb, izx),
  (.cpx, zp), (.sbc, zp), (.inc, zp), (.isb, zp),
  (.inx, imp), (.sbc, imm), (.nop, imp), (.sbc, imm),
  (.cpx, abs), (.sbc, abs), (.inc, abs), (.isb, abs),
  -- $F0
  (.beq, rel), (.sbc, izy), (.stp, imp), (.isb, izy),
  (.nop, zpx), (.sbc, zpx), (.inc, zpx), (.isb, zpx),
  (.sed, imp), (.sbc, aby), (.nop, imp), (.isb, aby),
  (.nop, abx), (.sbc, abx), (.inc, abx), (.isb, abx)]

/-! ## Instructions in parts -/

/-- An instruction as an operation and a mode. -/
def parts : Instruction → Operation × Mode
  | .read op mode => (.read op, .address mode)
  | .write op mode => (.write op, .address mode)
  | .modify op mode => (.modify op, .address mode)
  | .modifyA op => (.modify op, .accumulator)
  | .combined op mode => (.combined op, .address mode)
  | .register op => (.register op, .implied)
  | .stack op => (.stack op, .implied)
  | .branch condition => (.branch condition, .address .relative)
  | .jmp mode => (.jmp, .address mode)
  | .jsr => (.jsr, .address .absolute)
  | .rts => (.rts, .implied)
  | .rti => (.rti, .implied)
  | .brk => (.brk, .implied)
  | .nop mode => (.nop, mode)

/-- An opcode as a name and a mode. -/
def entry : Opcode → Mnemonic × Mode
  | .instruction i => ((parts i).1.name, (parts i).2)
  | .unstable op mode => (unstableName op, mode)

/-- Every operation is carried out for its name. -/
theorem operation?_name (operation : Operation) : operation.name.operation? = some operation := by
  cases operation with
  | read op => cases op <;> rfl
  | write op => cases op <;> rfl
  | modify op => cases op <;> rfl
  | combined op => cases op <;> rfl
  | register op => cases op <;> rfl
  | stack op => cases op <;> rfl
  | branch condition => cases condition <;> rfl
  | jmp | jsr | rts | rti | brk | nop => rfl

/-- The executor does not expect the names that are refused, and expects all others. -/
theorem Mnemonic.operation?_eq_none_iff (mnemonic : Mnemonic) :
    mnemonic.operation? = none ↔ mnemonic.refused? ≠ none := by
  cases mnemonic <;> decide

theorem refused?_name (operation : Operation) : operation.name.refused? = none := by
  have hexpected : operation.name.operation? ≠ none := by
    rw [operation?_name]
    exact Option.some_ne_none _
  exact Classical.byContradiction fun h => hexpected ((Mnemonic.operation?_eq_none_iff _).2 h)

theorem refused?_unstableName (op : UnstableOp) : (unstableName op).refused? = some op := by
  cases op <;> rfl

/-- The list, entry by entry, is the table by families with its kinds forgotten. -/
theorem table_eq :
    table = ((List.range 256).map fun n => entry (Opcode.ofByte (UInt8.ofNat n))).toArray := by
  refine congrArg List.toArray ?_
  decide +kernel

/-- So an opcode byte always has an entry, and it is that of its instruction. -/
theorem getElem?_table (byte : UInt8) :
    table[byte.toNat]? = some (entry (Opcode.ofByte byte)) := by
  rw [table_eq, List.getElem?_toArray, List.getElem?_map, List.getElem?_range byte.toNat_lt,
    Option.map_some, UInt8.ofNat_toNat]

end Bare

end Nes
