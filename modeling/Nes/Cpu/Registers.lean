import Nes.Cpu.Status

/-!
# Registers

The register file and the arithmetic that instructions do on it. Sums are binary whatever the
decimal flag says.

Results:

* `addWithCarry_toNat`: result and carry of an addition, as one number.
-/

namespace Nes

/-- The registers, as they are after power-on. -/
structure Registers where
  /-- Accumulator. -/
  a : UInt8 := 0
  /-- First index register. -/
  x : UInt8 := 0
  /-- Second index register. -/
  y : UInt8 := 0
  /-- Stack pointer, an offset into page 1. -/
  sp : UInt8 := 0xFD
  /-- Program counter. -/
  pc : UInt16 := 0
  p : Status := { interrupt := true, brk := true }
deriving DecidableEq

namespace Registers

/-! ## Results -/

/-- Put a result into the accumulator. -/
def setA (r : Registers) (v : UInt8) : Registers := { r with a := v, p := r.p.setResult v }

/-- Put a result into the first index register. -/
def setX (r : Registers) (v : UInt8) : Registers := { r with x := v, p := r.p.setResult v }

/-- Put a result into the second index register. -/
def setY (r : Registers) (v : UInt8) : Registers := { r with y := v, p := r.p.setResult v }

/-! ## Arithmetic -/

/-- Add `v` and the carry to the accumulator (`op_adc`). The overflow flag tells that both operands
    have a sign that the result does not have. -/
def addWithCarry (r : Registers) (v : UInt8) : Registers :=
  let sum := r.a.toNat + v.toNat + r.p.carry.toNat
  let result := UInt8.ofNat sum
  let overflow := (r.a ^^^ v) &&& 0x80 == 0 && (r.a ^^^ result) &&& 0x80 != 0
  { r with p := { r.p with carry := 0xFF < sum, overflow := overflow } }.setA result

/-- Take `v` and the inverted carry from the accumulator (`op_sbc`): the sum with the complement of
`v`. -/
def subtractWithCarry (r : Registers) (v : UInt8) : Registers := r.addWithCarry (~~~v)

/-- Compare a register with `v` (`op_compare`): the carry tells that it is not below `v`. -/
def compare (r : Registers) (register v : UInt8) : Registers :=
  { r with p := { r.p with carry := v ≤ register }.setResult (register - v) }

theorem addWithCarry_toNat (r : Registers) (v : UInt8) :
    (r.addWithCarry v).a.toNat + 256 * (r.addWithCarry v).p.carry.toNat =
      r.a.toNat + v.toNat + r.p.carry.toNat := by
  have h₁ := r.a.toNat_lt
  have h₂ := v.toNat_lt
  have h₃ := r.p.carry.toNat_le
  by_cases h : 255 < r.a.toNat + v.toNat + r.p.carry.toNat
  · simp only [addWithCarry, setA, Status.setResult, UInt8.toNat_ofNat', h, decide_true,
      Bool.toNat_true]
    omega
  · simp only [addWithCarry, setA, Status.setResult, UInt8.toNat_ofNat', h, decide_false,
      Bool.toNat_false]
    omega

end Registers

end Nes
