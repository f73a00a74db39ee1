import Nes.Bus.Flat
import Nes.Cpu.Disassembly
import Nes.Proofs.Text.Hex

/-!
# What lines show

The parts of a line stand in fixed columns: the address in columns 1 to 4, the bytes of the
instruction from column 7 on and, in a trace, the registers from column 40 on. No operand is long
enough to move them. So a line can be read back, and equal lines show the same, whatever buses they
come from.

Results:

* `shows_line`, `shows_traceLine`: what stands in the columns of a line.
* `Shows.shown?_eq`, `shownRegisters?_traceLine`: what is read off these columns.
* `lines_read_back`: **every line on every bus.**
-/

namespace Nes.Disassembly

/-! ## Columns -/

/-- The `width` characters of a text from column `start` on. -/
def columns (start width : Nat) (text : String) : List Char := (text.toList.drop start).take width

theorem columns_append_left {start width : Nat} {text : String} (h : start + width ≤ text.length)
    (rest : String) : columns start width (text ++ rest) = columns start width text := by
  rw [← String.length_toList] at h
  rw [columns, columns, String.toList_append, List.drop_append_of_le_length (by omega),
    List.take_append_of_le_length (by rw [List.length_drop]; omega)]

theorem columns_append_right (start width : Nat) (text rest : String) :
    columns (text.length + start) width (text ++ rest) = columns start width rest := by
  rw [columns, columns, String.toList_append, ← String.length_toList, List.drop_length_add_append]

/-! ## Addresses and bytes -/

/-- The address that a text shows, and the bytes of the instruction there. -/
def shown? (text : String) : Option (UInt16 × List UInt8) :=
  (Hex.word? (columns 1 4 text)).map fun address => (address, Hex.bytes (columns 7 8 text))

/-- The text begins with an address, and has bytes in the eight columns that are meant for them:
one blank between two bytes, and blanks behind the last. -/
structure Shows (text : String) (address : UInt16) (bytes : List UInt8) : Prop where
  address : columns 0 5 text = '$' :: Hex.wordChars address
  bytes : columns 7 8 text = ([' '].intercalate (bytes.map Hex.byteChars)).rightpad 8 ' '

namespace Shows

variable {text : String} {address : UInt16} {bytes : List UInt8}

theorem append (h : Shows text address bytes) (hl : 15 ≤ text.length) (rest : String) :
    Shows (text ++ rest) address bytes where
  address := by rw [columns_append_left (by omega), h.address]
  bytes := by rw [columns_append_left (by omega), h.bytes]

theorem word?_eq (h : Shows text address bytes) : Hex.word? (columns 1 4 text) = some address := by
  have hdigits : columns 1 4 text = (columns 0 5 text).tail := by
    rw [columns, columns, List.drop_zero, ← List.drop_one, List.drop_take]
  rw [hdigits, h.address, List.tail_cons, Hex.word?_wordChars]

theorem shown?_eq (h : Shows text address bytes) : shown? text = some (address, bytes) := by
  rw [shown?, h.word?_eq, Option.map_some, h.bytes, List.rightpad, Hex.bytes_intercalate]

/-- A text shows one address and one list of bytes. -/
theorem unique (h : Shows text address bytes) {other : UInt16} {others : List UInt8}
    (h' : Shows text other others) : address = other ∧ bytes = others := by
  have hshown := h.shown?_eq
  rw [h'.shown?_eq] at hshown
  obtain ⟨haddress, hbytes⟩ := Prod.mk.inj (Option.some.inj hshown)
  exact ⟨haddress.symm, hbytes.symm⟩

end Shows

/-! ## Lines -/

variable {β γ : Type} [Bus β] [Bus γ]

/-- The bytes of the instruction at `address`, as many as its opcode asks for. The address after
`$FFFF` is `$0000`. -/
def instructionBytes (bus : β) (address : UInt16) : List UInt8 :=
  (List.range (Opcode.ofByte (Bus.peek bus address)).length).map fun i =>
    Bus.peek bus (address + UInt16.ofNat i)

theorem length_instructionBytes (bus : β) (address : UInt16) :
    (instructionBytes bus address).length = (Opcode.ofByte (Bus.peek bus address)).length := by
  rw [instructionBytes, List.length_map, List.length_range]

theorem bytesChars_eq (bus : β) (address : UInt16) :
    bytesChars (Opcode.ofByte (Bus.peek bus address)).length (Bus.peek bus address)
        (Bus.peek bus (address + 1)) (Bus.peek bus (address + 2)) =
      [' '].intercalate ((instructionBytes bus address).map Hex.byteChars) := by
  obtain ⟨h₁, h₃⟩ := Opcode.length_ofByte (Bus.peek bus address)
  unfold instructionBytes
  generalize (Opcode.ofByte (Bus.peek bus address)).length = n at h₁ h₃ ⊢
  have hn : n = 1 ∨ n = 2 ∨ n = 3 := by omega
  rcases hn with rfl | rfl | rfl <;> simp [bytesChars, List.range_succ]

theorem shows_line (bus : β) (address : UInt16) :
    Shows (line bus address) address (instructionBytes bus address) := by
  have hbytes := length_padTo (length_bytesChars_le (Opcode.ofByte (Bus.peek bus address)).length
    (Bus.peek bus address) (Bus.peek bus (address + 1)) (Bus.peek bus (address + 2)))
  constructor
  · rw [columns, line, String.toList_ofList]
    rfl
  · rw [← bytesChars_eq, columns, line, String.toList_ofList]
    dsimp only [lineChars]
    rw [padTo, List.rightpad]
    simp only [List.append_assoc]
    -- seven characters stand before the column, and the column is eight wide
    exact List.take_left' hbytes

theorem shows_traceLine (bus : β) (r : Registers) :
    Shows (traceLine bus r) r.pc (instructionBytes bus r.pc) :=
  (shows_line bus r.pc).append (by rw [length_line]; decide) _

/-! ## Without the blanks at the end -/

/-- A text that is stripped of the blanks at its end and filled up with blanks again. -/
theorem rightpad_strip (text : List Char) :
    (text.reverse.dropWhile (· == ' ')).reverse.rightpad text.length ' ' = text := by
  have hblanks : text.reverse.takeWhile (· == ' ') =
      List.replicate (text.reverse.takeWhile (· == ' ')).length ' ' :=
    List.eq_replicate_iff.2
      ⟨rfl, fun c hc => beq_iff_eq.1 (List.all_eq_true.1 List.all_takeWhile c hc)⟩
  have hsplit := congrArg List.reverse
    (List.takeWhile_append_dropWhile (p := (· == ' ')) (l := text.reverse))
  rw [hblanks, List.reverse_append, List.reverse_replicate, List.reverse_reverse] at hsplit
  have hlength := congrArg List.length hsplit
  rw [List.length_append, List.length_replicate] at hlength
  rw [List.rightpad, ← hlength, Nat.add_sub_cancel_left]
  exact hsplit

/-- The short form of a line leaves out nothing but blanks. -/
theorem padTo_shortLine (bus : β) (address : UInt16) :
    padTo width (shortLine bus address).toList = (line bus address).toList := by
  have hlength : (line bus address).toList.length = width := by
    rw [String.length_toList, length_line]
  rw [shortLine, String.toList_ofList, padTo, ← hlength, rightpad_strip]

/-! ## Registers -/

/-- The registers that a trace line shows: the program counter is the address of the line, and the
flags are those of the status byte. -/
def shownRegisters? (text : String) : Option Registers := do
  let pc ← Hex.word? (columns 1 4 text)
  let a ← Hex.byte? (columns 42 2 text)
  let x ← Hex.byte? (columns 47 2 text)
  let y ← Hex.byte? (columns 52 2 text)
  let p ← Hex.byte? (columns 57 2 text)
  let sp ← Hex.byte? (columns 63 2 text)
  return { a, x, y, sp, pc, p := Status.ofBits p }

/-- The register file as text: a name and two digits for each register but the program counter. -/
def registerFile (r : Registers) : List Char :=
  [("A:", r.a), (" X:", r.x), (" Y:", r.y), (" P:", r.p.bits), (" SP:", r.sp)].flatMap
    fun (name, value) => name.toList ++ Hex.byteChars value

theorem columns_traceLine (bus : β) (r : Registers) (start width : Nat) :
    columns (40 + start) width (traceLine bus r) = ((registerFile r).drop start).take width := by
  have h := columns_append_right start width (line bus r.pc) (String.ofList (registersChars r))
  rw [length_line] at h
  rw [traceLine]
  refine h.trans ?_
  rw [columns, String.toList_ofList]
  rfl

theorem shownRegisters?_traceLine (bus : β) (r : Registers) :
    shownRegisters? (traceLine bus r) = some r := by
  have ha : columns 42 2 (traceLine bus r) = Hex.byteChars r.a := columns_traceLine bus r 2 2
  have hx : columns 47 2 (traceLine bus r) = Hex.byteChars r.x := columns_traceLine bus r 7 2
  have hy : columns 52 2 (traceLine bus r) = Hex.byteChars r.y := columns_traceLine bus r 12 2
  have hp : columns 57 2 (traceLine bus r) = Hex.byteChars r.p.bits := columns_traceLine bus r 17 2
  have hsp : columns 63 2 (traceLine bus r) = Hex.byteChars r.sp := columns_traceLine bus r 23 2
  rw [shownRegisters?, (shows_traceLine bus r).word?_eq, ha, hx, hy, hp, hsp]
  simp only [Hex.byte?_byteChars]
  show some { r with p := Status.ofBits r.p.bits } = some r
  rw [Status.ofBits_bits]

theorem columns_traceLine_line (bus : β) (r : Registers) :
    columns 0 40 (traceLine bus r) = (line bus r.pc).toList := by
  have hl : (line bus r.pc).length = 40 := length_line bus r.pc
  rw [traceLine, columns_append_left (by rw [hl]), columns, List.drop_zero,
    List.take_of_length_le (by rw [String.length_toList, hl])]

/-- **Main theorem.** On every bus and at every address a line has 40 characters. The first five are
`$` and the digits of the address, and the column for bytes holds those of the instruction, as many
as the opcode table says, so that both are read off the line. A trace line has 65 characters: the
line for the program counter and, from column 40 on, the register file, and all registers are read
off it. So lines of any two buses that are equal show the same address and bytes, and trace lines
that are equal show the same registers too. -/
theorem lines_read_back (bus : β) (other : γ) :
    (∀ address, (line bus address).length = 40 ∧
      Shows (line bus address) address (instructionBytes bus address) ∧
      (instructionBytes bus address).length = (Opcode.ofByte (Bus.peek bus address)).length ∧
      shown? (line bus address) = some (address, instructionBytes bus address)) ∧
    (∀ a b, line bus a = line other b →
      a = b ∧ instructionBytes bus a = instructionBytes other b) ∧
    (∀ r, (traceLine bus r).length = 65 ∧
      columns 0 40 (traceLine bus r) = (line bus r.pc).toList ∧
      columns 40 25 (traceLine bus r) = registerFile r ∧
      shown? (traceLine bus r) = some (r.pc, instructionBytes bus r.pc) ∧
      shownRegisters? (traceLine bus r) = some r) ∧
    ∀ r s, traceLine bus r = traceLine other s →
      r = s ∧ instructionBytes bus r.pc = instructionBytes other s.pc := by
  refine ⟨fun address => ?_, fun a b h => ?_, fun r => ?_, fun r s h => ⟨?_, ?_⟩⟩
  · exact ⟨length_line bus address, shows_line bus address, length_instructionBytes bus address,
      (shows_line bus address).shown?_eq⟩
  · have hshows := shows_line bus a
    rw [h] at hshows
    exact hshows.unique (shows_line other b)
  · exact ⟨length_traceLine bus r, columns_traceLine_line bus r, columns_traceLine bus r 0 25,
      (shows_traceLine bus r).shown?_eq, shownRegisters?_traceLine bus r⟩
  · have hr := shownRegisters?_traceLine bus r
    rw [h, shownRegisters?_traceLine] at hr
    exact (Option.some.inj hr).symm
  · have hshows := shows_traceLine bus r
    rw [h] at hshows
    exact (hshows.unique (shows_traceLine other s)).2

/-- Two memories that differ, and a jump at the end of them that goes on at their beginning. -/
theorem lines_read_back_wrapping :
    let bus := FlatBus.filled 0x20
    let other := bus.poke 0x8000 0xEA
    let r : Registers := { pc := 0xFFFF }
    line bus 0xFFFF = "$FFFF  20 20 20  JSR $2020              " ∧
      line bus 0xFFFF = line other 0xFFFF ∧
      instructionBytes bus 0xFFFF = instructionBytes other 0xFFFF ∧
      traceLine bus r = traceLine other { r with p := Status.ofBits 0x34 } ∧
      r = { r with p := Status.ofBits 0x34 } := by
  intro bus other r
  have hbus (a : UInt16) : Bus.peek bus a = 0x20 := FlatBus.peek_filled 0x20 a
  have hother {a : UInt16} (h : 0x8000 ≠ a) : Bus.peek other a = 0x20 :=
    (FlatBus.peek_poke_of_ne bus h 0xEA).trans (hbus a)
  have hline : line bus 0xFFFF = String.ofList (lineChars 0xFFFF 0x20 0x20 0x20) := by
    rw [line, hbus, hbus, hbus]
  have heq : line bus 0xFFFF = line other 0xFFFF := by
    rw [hline, line, hother (by decide), hother (by decide), hother (by decide)]
  have htrace : traceLine bus r = traceLine other { r with p := Status.ofBits 0x34 } :=
    congrArg (· ++ String.ofList (registersChars r)) heq
  obtain ⟨-, hlines, -, htraces⟩ := lines_read_back bus other
  refine ⟨?_, heq, (hlines _ _ heq).2, htrace, (htraces _ _ htrace).1⟩
  rw [hline]
  decide

end Nes.Disassembly
