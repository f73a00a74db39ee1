import Nes.Cpu.Basic
import Nes.Cpu.Opcode

/-!
# Disassembly

One instruction is shown on one line of 40 characters: `$AAAA`, the instruction's bytes in a
column of eight characters, the mnemonic and the operand. A trace line adds the registers. Both
only peek at the bus.

Results:

* `length_line`, `length_traceLine`: every line has the same width.
-/

namespace Nes.Disassembly

/-- The width of a line. -/
def width : Nat := 40

/-- A line is blank after its text up to `n` characters. -/
def padTo (n : Nat) (text : List Char) : List Char := text.rightpad n ' '

/-! ## Operands -/

/-- A signed distance: its sign and three decimal digits. -/
def distanceChars (offset : UInt8) : List Char :=
  let n := if offset < 0x80 then offset.toNat else 256 - offset.toNat
  (if offset < 0x80 then '+' else '-')
    :: [Hex.digit (n / 100), Hex.digit (n / 10 % 10), Hex.digit (n % 10)]

/-- The operand of a mode with the operand bytes `lo` and `hi`. A branch shows where it leads and
    how far that is. -/
def operandChars (mode : Mode) (address : UInt16) (lo hi : UInt8) : List Char :=
  let byte := '$' :: Hex.byteChars lo
  let word := '$' :: Hex.wordChars (word lo hi)
  match mode with
  | .implied => []
  | .accumulator => ['A']
  | .address .immediate => '#' :: byte
  | .address .zeroPage => byte
  | .address .zeroPageX => byte ++ [',', 'X']
  | .address .zeroPageY => byte ++ [',', 'Y']
  | .address .absolute => word
  | .address .absoluteX => word ++ [',', 'X']
  | .address .absoluteY => word ++ [',', 'Y']
  | .address .indirect => '(' :: word ++ [')']
  | .address .indirectX => '(' :: byte ++ [',', 'X', ')']
  | .address .indirectY => '(' :: byte ++ [')', ',', 'Y']
  | .address .relative =>
    '$' :: Hex.wordChars (address + 2 + signExtend lo) ++ [' ', '('] ++ distanceChars lo ++ [')']

/-! ## Lines -/

/-- The first `length` of three bytes, separated by blanks. -/
def bytesChars (length : Nat) (b₀ b₁ b₂ : UInt8) : List Char :=
  match length with
  | 0 => []
  | 1 => Hex.byteChars b₀
  | 2 => Hex.byteChars b₀ ++ ' ' :: Hex.byteChars b₁
  | _ => Hex.byteChars b₀ ++ ' ' :: Hex.byteChars b₁ ++ ' ' :: Hex.byteChars b₂

/-- The line for the instruction at `address` whose first bytes are `b₀`, `b₁` and `b₂`. -/
def lineChars (address : UInt16) (b₀ b₁ b₂ : UInt8) : List Char :=
  let opcode := Opcode.ofByte b₀
  padTo width <|
    '$' :: Hex.wordChars address ++ [' ', ' ']
      ++ padTo 8 (bytesChars opcode.length b₀ b₁ b₂) ++ [' ', ' ']
      ++ opcode.mnemonic.toList ++ ' ' :: operandChars opcode.mode address b₁ b₂

/-- The register file as a trace shows it. -/
def registersChars (r : Registers) : List Char :=
  ['A', ':'] ++ Hex.byteChars r.a ++ [' ', 'X', ':'] ++ Hex.byteChars r.x
    ++ [' ', 'Y', ':'] ++ Hex.byteChars r.y ++ [' ', 'P', ':'] ++ Hex.byteChars r.p.bits
    ++ [' ', 'S', 'P', ':'] ++ Hex.byteChars r.sp

variable {β : Type} [Bus β]

/-- The line for the instruction at `address` (`disassemble`). -/
def line (bus : β) (address : UInt16) : String :=
  String.ofList <| lineChars address (Bus.peek bus address) (Bus.peek bus (address + 1))
    (Bus.peek bus (address + 2))

/-- The line for the instruction at `address` without the blanks at its end. -/
def shortLine (bus : β) (address : UInt16) : String :=
  String.ofList ((line bus address).toList.reverse.dropWhile (· == ' ')).reverse

/-- The line for the instruction at the program counter, followed by the registers
(`trace_line`). -/
def traceLine (bus : β) (r : Registers) : String :=
  line bus r.pc ++ String.ofList (registersChars r)

/-- The address of the instruction after the one at `address`. -/
def next (bus : β) (address : UInt16) : UInt16 :=
  address + UInt16.ofNat (Opcode.ofByte (Bus.peek bus address)).length

/-- The lines of `n` successive instructions from `address` on. -/
def listing (bus : β) (address : UInt16) : Nat → List String
  | 0 => []
  | n + 1 => line bus address :: listing bus (next bus address) n

/-! ## Widths -/

theorem length_padTo {n : Nat} {text : List Char} (h : text.length ≤ n) :
    (padTo n text).length = n := by
  simp [padTo, List.rightpad]; omega

theorem length_bytesChars_le (length : Nat) (b₀ b₁ b₂ : UInt8) :
    (bytesChars length b₀ b₁ b₂).length ≤ 8 := by
  unfold bytesChars
  split <;> simp

theorem length_operandChars_le (mode : Mode) (address : UInt16) (lo hi : UInt8) :
    (operandChars mode address lo hi).length ≤ 12 := by
  cases mode with
  | implied => simp [operandChars]
  | accumulator => simp [operandChars]
  | address mode => cases mode <;> simp [operandChars, distanceChars]

theorem length_lineChars (address : UInt16) (b₀ b₁ b₂ : UInt8) :
    (lineChars address b₀ b₁ b₂).length = width := by
  dsimp only [lineChars]
  rw [length_padTo]
  have h₁ := length_padTo (length_bytesChars_le (Opcode.ofByte b₀).length b₀ b₁ b₂)
  have h₂ := (Opcode.ofByte b₀).length_mnemonic
  have h₃ := length_operandChars_le (Opcode.ofByte b₀).mode address b₁ b₂
  generalize Opcode.ofByte b₀ = opcode at *
  generalize operandChars opcode.mode address b₁ b₂ = operand at *
  simp only [List.length_append, List.length_cons, List.length_nil, Hex.length_wordChars, h₁, h₂,
    width]
  omega

theorem length_line (bus : β) (address : UInt16) : (line bus address).length = width := by
  rw [line, String.length_ofList, length_lineChars]

theorem length_registersChars (r : Registers) : (registersChars r).length = 25 := by
  simp only [registersChars, List.length_append, List.length_cons, List.length_nil,
    Hex.length_byteChars]

theorem length_traceLine (bus : β) (r : Registers) : (traceLine bus r).length = 65 := by
  rw [traceLine, String.length_append, length_line, String.length_ofList, length_registersChars,
    width]

end Nes.Disassembly
