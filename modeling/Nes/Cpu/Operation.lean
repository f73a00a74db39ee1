import Nes.Cpu.Registers

/-!
# Operations

What instructions compute, sorted by how they meet the bus: operations that read an operand, that
write a register, that modify an operand in place, and that stay inside the registers. None of the
functions here touches the bus.

Results:

* `Condition.holds_eq`: the bit of the status byte that each branch tests.
-/

namespace Nes

/-! ## Reading an operand -/

/-- Operations that read one operand. -/
inductive ReadOp where
  | adc | and | bit | cmp | cpx | cpy | eor | lda | ldx | ldy | ora | sbc
  | alr | anc | arr | axs | lax
deriving DecidableEq

namespace ReadOp

/-- The name of the operation. -/
def mnemonic : ReadOp → String
  | adc => "ADC" | and => "AND" | bit => "BIT" | cmp => "CMP" | cpx => "CPX" | cpy => "CPY"
  | eor => "EOR" | lda => "LDA" | ldx => "LDX" | ldy => "LDY" | ora => "ORA" | sbc => "SBC"
  | alr => "ALR" | anc => "ANC" | arr => "ARR" | axs => "AXS" | lax => "LAX"

/-- The registers after the operation with the operand `v`. -/
def apply (op : ReadOp) (v : UInt8) (r : Registers) : Registers :=
  match op with
  | adc => r.addWithCarry v
  | sbc => r.subtractWithCarry v
  | and => r.setA (r.a &&& v)
  | ora => r.setA (r.a ||| v)
  | eor => r.setA (r.a ^^^ v)
  | bit =>
    { r with p := { r.p with
        zero := r.a &&& v == 0, overflow := v &&& 0x40 != 0, negative := v &&& 0x80 != 0 } }
  | cmp => r.compare r.a v
  | cpx => r.compare r.x v
  | cpy => r.compare r.y v
  | lda => r.setA v
  | ldx => r.setX v
  | ldy => r.setY v
  | lax => { r.setA v with x := v }
  | alr =>
    let masked := r.a &&& v
    { r with p := { r.p with carry := masked &&& 0x01 != 0 } }.setA (masked >>> 1)
  | anc =>
    let r := r.setA (r.a &&& v)
    { r with p := { r.p with carry := r.p.negative } }
  | arr =>
    let result := (r.a &&& v) >>> 1 ||| Status.bit r.p.carry 0x80
    let bit6 := result &&& 0x40 != 0
    let bit5 := result &&& 0x20 != 0
    let r := r.setA result
    { r with p := { r.p with carry := bit6, overflow := bit6 ^^ bit5 } }
  | axs =>
    let masked := r.a &&& r.x
    { r with p := { r.p with carry := v ≤ masked } }.setX (masked - v)

end ReadOp

/-! ## Writing a register -/

/-- Operations that write a value of the registers and change none of them. -/
inductive WriteOp where
  | sta | stx | sty | sax
deriving DecidableEq

namespace WriteOp

/-- The name of the operation. -/
def mnemonic : WriteOp → String
  | sta => "STA" | stx => "STX" | sty => "STY" | sax => "SAX"

/-- The byte that is written. -/
def value (op : WriteOp) (r : Registers) : UInt8 :=
  match op with
  | sta => r.a
  | stx => r.x
  | sty => r.y
  | sax => r.a &&& r.x

end WriteOp

/-! ## Modifying an operand -/

/-- Operations that replace a byte and touch only the flags otherwise. -/
inductive ModifyOp where
  | asl | lsr | rol | ror | inc | dec
deriving DecidableEq

namespace ModifyOp

/-- The name of the operation. -/
def mnemonic : ModifyOp → String
  | asl => "ASL" | lsr => "LSR" | rol => "ROL" | ror => "ROR" | inc => "INC" | dec => "DEC"

/-- The byte that replaces `v`. -/
def result (op : ModifyOp) (v : UInt8) (p : Status) : UInt8 :=
  match op with
  | asl => v <<< 1
  | lsr => v >>> 1
  | rol => v <<< 1 ||| Status.bit p.carry 0x01
  | ror => v >>> 1 ||| Status.bit p.carry 0x80
  | inc => v + 1
  | dec => v - 1

/-- The carry after the operation: the bit that leaves the byte, if one does. -/
def carryOut (op : ModifyOp) (v : UInt8) (p : Status) : Bool :=
  match op with
  | asl | rol => v &&& 0x80 != 0
  | lsr | ror => v &&& 0x01 != 0
  | inc | dec => p.carry

/-- The byte that replaces `v`, and the flags with it. -/
def apply (op : ModifyOp) (v : UInt8) (p : Status) : UInt8 × Status :=
  let result := op.result v p
  (result, { p with carry := op.carryOut v p }.setResult result)

/-- The operation on the accumulator. -/
def applyA (op : ModifyOp) (r : Registers) : Registers :=
  let (result, p) := op.apply r.a r.p
  { r with a := result, p := p }

end ModifyOp

/-- Operations that modify a byte and then read the result. -/
inductive CombinedOp where
  | dcp | isb | rla | rra | slo | sre
deriving DecidableEq

namespace CombinedOp

/-- The name of the operation. -/
def mnemonic : CombinedOp → String
  | dcp => "DCP" | isb => "ISB" | rla => "RLA" | rra => "RRA" | slo => "SLO" | sre => "SRE"

/-- The operation on the byte. -/
def first : CombinedOp → ModifyOp
  | dcp => .dec | isb => .inc | rla => .rol | rra => .ror | slo => .asl | sre => .lsr

/-- The operation that takes the new byte as its operand. -/
def second : CombinedOp → ReadOp
  | dcp => .cmp | isb => .sbc | rla => .and | rra => .adc | slo => .ora | sre => .eor

end CombinedOp

/-! ## Inside the registers -/

/-- Operations on registers and flags alone. -/
inductive RegisterOp where
  | clc | cld | cli | clv | dex | dey | inx | iny | sec | sed | sei
  | tax | tay | tsx | txa | txs | tya
deriving DecidableEq

namespace RegisterOp

/-- The name of the operation. -/
def mnemonic : RegisterOp → String
  | clc => "CLC" | cld => "CLD" | cli => "CLI" | clv => "CLV" | dex => "DEX" | dey => "DEY"
  | inx => "INX" | iny => "INY" | sec => "SEC" | sed => "SED" | sei => "SEI" | tax => "TAX"
  | tay => "TAY" | tsx => "TSX" | txa => "TXA" | txs => "TXS" | tya => "TYA"

/-- The registers after the operation. `txs` alone sets no flag. -/
def apply (op : RegisterOp) (r : Registers) : Registers :=
  match op with
  | clc => { r with p := { r.p with carry := false } }
  | sec => { r with p := { r.p with carry := true } }
  | cld => { r with p := { r.p with decimal := false } }
  | sed => { r with p := { r.p with decimal := true } }
  | cli => { r with p := { r.p with interrupt := false } }
  | sei => { r with p := { r.p with interrupt := true } }
  | clv => { r with p := { r.p with overflow := false } }
  | dex => r.setX (r.x - 1)
  | dey => r.setY (r.y - 1)
  | inx => r.setX (r.x + 1)
  | iny => r.setY (r.y + 1)
  | tax => r.setX r.a
  | tay => r.setY r.a
  | tsx => r.setX r.sp
  | txa => r.setA r.x
  | tya => r.setA r.y
  | txs => { r with sp := r.x }

end RegisterOp

/-! ## Branches -/

/-- The conditions of branches. -/
inductive Condition where
  | bcc | bcs | beq | bmi | bne | bpl | bvc | bvs
deriving DecidableEq

namespace Condition

/-- The name of the branch. -/
def mnemonic : Condition → String
  | bcc => "BCC" | bcs => "BCS" | beq => "BEQ" | bmi => "BMI" | bne => "BNE" | bpl => "BPL"
  | bvc => "BVC" | bvs => "BVS"

/-- The branch is taken. -/
def holds (condition : Condition) (p : Status) : Bool :=
  match condition with
  | bcc => !p.carry
  | bcs => p.carry
  | bne => !p.zero
  | beq => p.zero
  | bpl => !p.negative
  | bmi => p.negative
  | bvc => !p.overflow
  | bvs => p.overflow

/-- A branch tests one bit of the status byte. -/
theorem holds_eq (condition : Condition) (p : Status) :
    condition.holds p = match condition with
      | bcc => p.bits &&& 0x01 == 0
      | bcs => p.bits &&& 0x01 != 0
      | bne => p.bits &&& 0x02 == 0
      | beq => p.bits &&& 0x02 != 0
      | bvc => p.bits &&& 0x40 == 0
      | bvs => p.bits &&& 0x40 != 0
      | bpl => p.bits &&& 0x80 == 0
      | bmi => p.bits &&& 0x80 != 0 := by
  have hp := Status.ofBits_bits p
  generalize p.bits = b at hp ⊢
  subst hp
  cases condition with
  | bcs | beq | bvs | bmi => rfl
  | bcc | bne | bvc | bpl => exact Bool.not_not _

end Condition

/-! ## The stack -/

/-- Operations that push or pull one byte. -/
inductive StackOp where
  | pha | php | pla | plp
deriving DecidableEq

namespace StackOp

/-- The name of the operation. -/
def mnemonic : StackOp → String
  | pha => "PHA" | php => "PHP" | pla => "PLA" | plp => "PLP"

end StackOp

/-! ## Operations that are not carried out -/

/-- Operations whose effect differs from chip to chip, or that stop the processor for good. -/
inductive UnstableOp where
  | ahx | las | lxa | shx | shy | stp | tas | xaa
deriving DecidableEq

namespace UnstableOp

/-- The name that the operation is refused under. -/
def mnemonic : UnstableOp → String
  | ahx => "AHX" | las => "LAS" | lxa => "LXA" | shx => "SHX" | shy => "SHY" | stp => "STP"
  | tas => "TAS" | xaa => "XAA"

end UnstableOp

end Nes
