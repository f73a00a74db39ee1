import Nes.Cli.Run
import Nes.Proofs.Cpu.Lines
import Nes.Proofs.Text.Items

/-!
# What the dumps of a machine show

A dump is a heading, and behind it one row for each thing that is shown: a label and what the
machine has there. No label begins another, so every row is found by its label, and the whole dump
is read back as the state that it shows. No other line of a run is a heading, so a dump is found in
the output if it was asked for, and only then.

Results:

* `behind?_rows`: what is shown behind a label.
* `readCpu?_cpuRows`, `readPpu?_ppuRows`: the rows of a dump show the state of the machine.
* `cpuDump?_stateLines`, `ppuDump?_stateLines`: so does the output, if it was asked to.
-/

namespace Nes.Cli

/-! ## Sections -/

/-- The lines of a section: those behind its heading, up to the first that is blank. -/
def linesBehind (heading : String) (lines : List String) : List String :=
  (lines.dropWhile (· ≠ heading)).tail.takeWhile (· ≠ "")

/-- Lines before the heading are passed over. -/
theorem linesBehind_append {heading : String} {before : List String} (h : heading ∉ before)
    (lines : List String) : linesBehind heading (before ++ lines) = linesBehind heading lines := by
  have hall : ∀ line ∈ before, decide (line ≠ heading) = true := by
    intro line hl
    rw [decide_eq_true_eq]
    rintro rfl
    exact h hl
  rw [linesBehind, linesBehind, List.dropWhile_append_of_pos hall]

theorem linesBehind_of_notMem {heading : String} {lines : List String} (h : heading ∉ lines) :
    linesBehind heading lines = [] := by
  rw [← List.append_nil lines, linesBehind_append h]
  rfl

/-- A section ends with its rows, or with the blank line behind them. -/
theorem linesBehind_heading {heading : String} {rows behind : List String}
    (hrows : "" ∉ rows) (hbehind : behind.head? = none ∨ behind.head? = some "") :
    linesBehind heading (heading :: rows ++ behind) = rows := by
  have hall : ∀ row ∈ rows, decide (row ≠ "") = true := by
    intro row hr
    rw [decide_eq_true_eq]
    rintro rfl
    exact hrows hr
  rw [linesBehind, List.cons_append, List.dropWhile_cons_of_neg (by simp), List.tail_cons,
    List.takeWhile_append_of_pos hall]
  cases behind with
  | nil => simp
  | cons line rest =>
    have hline : line = "" := by simpa using hbehind
    simp [hline]

/-! ## Rows -/

/-- A label and what is shown behind it. -/
abbrev Row := String × String

/-- A row as it is printed. -/
def Row.line (row : Row) : String := row.1 ++ row.2

/-- What stands behind a label in the first line that begins with it. -/
def behind? (label : String) (lines : List String) : Option (List Char) :=
  lines.findSome? fun line => line.toList.dropPrefix? label.toList

/-- Neither label begins the other. -/
def Apart (label other : String) : Prop :=
  ¬label.toList <+: other.toList ∧ ¬other.toList <+: label.toList

/-- Both halves are about prefixes of lists of characters. -/
instance (label other : String) : Decidable (Apart label other) :=
  inferInstanceAs (Decidable (_ ∧ _))

/-- A row is recognised by its label. -/
theorem dropPrefix?_line (row : Row) :
    row.line.toList.dropPrefix? row.1.toList = some row.2.toList := by
  rw [Row.line, String.toList_append]
  exact List.dropPrefix?_eq_some_iff.2 ⟨_, rfl, beq_self_eq_true _⟩

theorem dropPrefix?_line_of_apart {row : Row} {label : String} (h : Apart row.1 label) :
    row.line.toList.dropPrefix? label.toList = none := by
  rw [Option.eq_none_iff_forall_ne_some]
  intro rest hr
  obtain ⟨start, hline, hstart⟩ := List.dropPrefix?_eq_some_iff.1 hr
  rw [beq_iff_eq] at hstart
  subst hstart
  rw [Row.line, String.toList_append] at hline
  have hrow : row.1.toList <+: label.toList ++ rest := ⟨_, hline⟩
  rcases List.prefix_or_prefix_of_prefix hrow ⟨rest, rfl⟩ with hp | hp
  · exact h.1 hp
  · exact h.2 hp

/-- What is shown of a row is found behind its label. -/
theorem behind?_rows {rows : List Row} (h : (rows.map (·.1)).Pairwise Apart) :
    ∀ row ∈ rows, behind? row.1 (rows.map Row.line) = some row.2.toList := by
  intro row hr
  obtain ⟨before, after, rfl⟩ := List.append_of_mem hr
  have hbefore : (before.map Row.line).findSome?
      (fun line => line.toList.dropPrefix? row.1.toList) = none := by
    rw [List.findSome?_eq_none_iff]
    intro line hl
    obtain ⟨other, ho, rfl⟩ := List.mem_map.1 hl
    rw [List.map_append, List.map_cons, List.pairwise_append] at h
    exact dropPrefix?_line_of_apart (h.2.2 _ (List.mem_map_of_mem ho) _ List.mem_cons_self)
  rw [behind?, List.map_append, List.findSome?_append, hbefore, Option.none_or, List.map_cons,
    List.findSome?_cons, dropPrefix?_line]

theorem line_ne (row : Row) {other : String} (h : ¬row.1.toList <+: other.toList) :
    row.line ≠ other := by
  rintro rfl
  exact h ⟨row.2.toList, by rw [Row.line, String.toList_append]⟩

theorem notMem_map_line {rows : List Row} {other : String}
    (h : ∀ label ∈ rows.map (·.1), ¬label.toList <+: other.toList) :
    other ∉ rows.map Row.line := by
  intro ho
  obtain ⟨row, hr, rfl⟩ := List.mem_map.1 ho
  exact line_ne row (h row.1 (List.mem_map_of_mem hr)) rfl

/-! ## Numbers -/

theorem isDigit_of_mem_toString {n : Nat} {c : Char} (h : c ∈ (toString n).toList) :
    c.isDigit = true := by
  rw [Nat.toString_eq_repr, Nat.toList_repr] at h
  exact Nat.isDigit_of_mem_toDigits (by decide) (by decide) h

/-- A number that is printed is read as an argument would be. -/
theorem digits?_toString (n : Nat) : digits? (toString n).toList = some n := by
  have hdigits : (toString n).toList.any (!·.isDigit) = false := by
    rw [List.any_eq_false]
    intro c hc
    simp [isDigit_of_mem_toString hc]
  have hne : (toString n).toList.isEmpty = false := by
    rw [Nat.toString_eq_repr, Nat.toList_repr, List.isEmpty_eq_false_iff]
    exact Nat.toDigits_ne_nil
  have hvalue := Nat.ofDigitChars_ten_toDigits (n := n)
  rw [digits?, hdigits, hne, Nat.toString_eq_repr, Nat.toList_repr]
  exact congrArg some hvalue

theorem isItem_toString (n : Nat) : IsItem ',' (toString n).toList := by
  constructor
  · intro h
    cases isDigit_of_mem_toString h
  · intro h
    cases isDigit_of_mem_toString h

theorem isItem_byteChars (b : UInt8) : IsItem ',' (Hex.byteChars b) := by
  revert b
  decide +kernel

/-- The numbers of a position are read back. -/
theorem numbers_position (x y : Nat) :
    (items ',' ((toString x).toList ++
      (", ".toList ++ ((toString y).toList ++ ")".toList))).dropLast).mapM digits? =
      some [x, y] := by
  have htext : ((toString x).toList ++
        (", ".toList ++ ((toString y).toList ++ ")".toList))).dropLast =
      [',', ' '].intercalate [(toString x).toList, (toString y).toList] := by
    rw [← List.append_assoc, ← List.append_assoc]
    exact (List.dropLast_concat ..).trans (by simp [List.intercalate_cons_cons])
  have hitems : ∀ part ∈ [(toString x).toList, (toString y).toList], IsItem ',' part :=
    List.forall_mem_cons.2 ⟨isItem_toString x, List.forall_mem_singleton.2 (isItem_toString y)⟩
  rw [htext, items_intercalate (by decide) (List.cons_ne_nil _ _) hitems, List.mapM_cons,
    List.mapM_cons, digits?_toString, digits?_toString]
  rfl

/-- The bytes of a list between brackets are read back. -/
theorem bytes_list {bytes : List UInt8} (h : bytes ≠ []) :
    (items ',' ((", ".intercalate (bytes.map Hex.byte)).toList ++
      "]".toList).dropLast).mapM Hex.byte? = some bytes := by
  have htext : ((", ".intercalate (bytes.map Hex.byte)).toList ++ "]".toList).dropLast =
      [',', ' '].intercalate (bytes.map Hex.byteChars) := by
    rw [String.toList_intercalate, List.map_map]
    refine (List.dropLast_concat ..).trans (congrArg _ (List.map_congr_left fun b _ => ?_))
    exact String.toList_ofList
  have hitems : ∀ part ∈ bytes.map Hex.byteChars, IsItem ',' part := by
    intro part hp
    obtain ⟨b, -, rfl⟩ := List.mem_map.1 hp
    exact isItem_byteChars b
  have hread : Hex.byte? ∘ Hex.byteChars = fun b => pure (id b) := funext Hex.byte?_byteChars
  rw [htext, items_intercalate (by decide) (by simpa using h) hitems, List.mapM_map, hread,
    List.mapM_pure, List.map_id]
  rfl

/-! ## The processor -/

/-- What a dump of the processor shows. -/
structure CpuDump where
  /-- The registers, with the flags by their letters. -/
  registers : Registers
  /-- The flags as a byte. -/
  bits : UInt8
  instructions : Nat
  /-- The line for the instruction that would be next. -/
  next : String
deriving DecidableEq

/-- What there is to show of the processor of a machine. -/
def CpuDump.ofMachine (machine : Machine) : CpuDump where
  registers := machine.cpu.registers
  bits := machine.cpu.registers.p.bits
  instructions := machine.cpu.instructions
  next := Disassembly.line machine.cpu.bus machine.cpu.registers.pc

/-- The heading of a dump of the processor. -/
def cpuHeading : String := "CPU State:"

/-- The rows of a dump of the processor. -/
def cpuRows (machine : Machine) : List Row :=
  let r := machine.cpu.registers
  [("  A:    $", Hex.byte r.a), ("  X:    $", Hex.byte r.x), ("  Y:    $", Hex.byte r.y),
    ("  PC:   $", Hex.word r.pc), ("  SP:   $", Hex.byte r.sp),
    ("  P:    $", Hex.byte r.p.bits ++ (" (" ++ (r.p.text ++ ")"))),
    ("  Instructions: ", toString machine.cpu.instructions),
    ("  Next: ", Disassembly.shortLine machine.cpu.bus r.pc)]

/-- A dump of the processor is a blank line, its heading and its rows. -/
theorem cpuLines_eq (machine : Machine) :
    cpuLines machine = "" :: cpuHeading :: (cpuRows machine).map Row.line := by
  simp only [cpuLines, cpuRows, List.map_cons, List.map_nil, Row.line, String.append_assoc]
  rfl

/-- The flag that a letter shows: a point is a flag that is clear. -/
def letter? (name c : Char) : Option Bool :=
  if c = name then some true else if c = '.' then some false else none

/-- The flags that a text shows between brackets, from `N` to `C`. -/
def letters? : List Char → Option Status
  | [' ', '(', n, v, '-', b, d, i, z, c, ')'] => do
    return {
      negative := ← letter? 'N' n, overflow := ← letter? 'V' v, brk := ← letter? 'B' b
      decimal := ← letter? 'D' d, interrupt := ← letter? 'I' i, zero := ← letter? 'Z' z
      carry := ← letter? 'C' c }
  | _ => none

/-- What the rows of a dump of the processor show. -/
def readCpu? (rows : List String) : Option CpuDump := do
  let a ← (behind? "  A:    $" rows).bind Hex.byte?
  let x ← (behind? "  X:    $" rows).bind Hex.byte?
  let y ← (behind? "  Y:    $" rows).bind Hex.byte?
  let pc ← (behind? "  PC:   $" rows).bind Hex.word?
  let sp ← (behind? "  SP:   $" rows).bind Hex.byte?
  let flags ← behind? "  P:    $" rows
  let bits ← Hex.byte? (flags.take 2)
  let p ← letters? (flags.drop 2)
  let instructions ← (behind? "  Instructions: " rows).bind digits?
  let next ← behind? "  Next: " rows
  return {
    registers := { a, x, y, sp, pc, p }
    bits := bits
    instructions := instructions
    next := String.ofList (Disassembly.padTo Disassembly.width next) }

/-- What a dump of the processor in the output shows, if there is one. -/
def cpuDump? (output : List String) : Option CpuDump := readCpu? (linesBehind cpuHeading output)

theorem letter?_eq {name : Char} (h : name ≠ '.') (flag : Bool) :
    letter? name (if flag then name else '.') = some flag := by
  cases flag <;> simp [letter?, h.symm]

/-- The letters between the brackets are read back. -/
theorem letters?_text (p : Status) : letters? (" (" ++ (p.text ++ ")")).toList = some p := by
  have htext : (" (" ++ (p.text ++ ")")).toList = ' ' :: '(' :: (p.text.toList ++ [')']) := by
    simp
  rw [htext, Status.text, String.toList_ofList]
  show letters? _ = _
  simp only [List.cons_append, List.nil_append, letters?]
  simp [letter?_eq]

/-- The labels of a dump of the processor. -/
def cpuLabels : List String :=
  ["  A:    $", "  X:    $", "  Y:    $", "  PC:   $", "  SP:   $", "  P:    $",
    "  Instructions: ", "  Next: "]

theorem labels_cpuRows (machine : Machine) : (cpuRows machine).map (·.1) = cpuLabels := rfl

theorem apart_cpuLabels : cpuLabels.Pairwise Apart := by decide

/-- The rows of a dump of the processor show its state. -/
theorem readCpu?_cpuRows (machine : Machine) :
    readCpu? ((cpuRows machine).map Row.line) = some (.ofMachine machine) := by
  have hrows := behind?_rows (labels_cpuRows machine ▸ apart_cpuLabels)
  generalize (cpuRows machine).map Row.line = rows at hrows ⊢
  simp only [cpuRows, List.forall_mem_cons, Hex.byte, Hex.word, String.toList_append,
    String.toList_ofList] at hrows
  obtain ⟨ha, hx, hy, hpc, hsp, hp, hn, hnext, -⟩ := hrows
  have hletters := letters?_text machine.cpu.registers.p
  rw [String.toList_append, String.toList_append] at hletters
  have hcount := digits?_toString machine.cpu.instructions
  simp only [readCpu?, ha, hx, hy, hpc, hsp, hp, hn, hnext, hcount, hletters, Option.bind_eq_bind,
    Option.bind_some, Hex.byte?_byteChars, Hex.word?_wordChars, Hex.take_byteChars_append,
    Hex.drop_byteChars_append, String.ofList_toList, Disassembly.padTo_shortLine, Option.pure_def]
  rfl

/-! ## The picture unit -/

/-- What a dump of the picture unit shows. -/
structure PpuDump where
  control : UInt8
  mask : UInt8
  status : UInt8
  vramAddress : UInt16
  /-- How far the picture is scrolled, to the right and down. -/
  scroll : List Nat
  oamAddress : UInt8
  palette : List UInt8
deriving DecidableEq

/-- What there is to show of the picture unit of a machine. -/
def PpuDump.ofMachine (machine : Machine) : PpuDump where
  control := machine.cpu.bus.ppu.latches.control
  mask := machine.cpu.bus.ppu.latches.mask
  status := machine.cpu.bus.ppu.status
  vramAddress := machine.cpu.bus.ppu.latches.vramAddress
  scroll := [machine.cpu.bus.ppu.latches.scrollX.toNat, machine.cpu.bus.ppu.latches.scrollY.toNat]
  oamAddress := machine.cpu.bus.ppu.latches.oamAddress
  palette := machine.cpu.bus.ppu.memory.palette.toList

/-- The heading of a dump of the picture unit. -/
def ppuHeading : String := "PPU State:"

/-- The rows of a dump of the picture unit. -/
def ppuRows (machine : Machine) : List Row :=
  let ppu := machine.cpu.bus.ppu
  let latches := ppu.latches
  [("  CTRL:   ", Ppu.controlNames.text latches.control),
    ("  MASK:   ", Ppu.maskNames.text latches.mask),
    ("  STATUS: ", Ppu.statusNames.text ppu.status),
    ("  VRAM address: $", Hex.word latches.vramAddress),
    ("  Scroll: (", toString latches.scrollX.toNat ++
      (", " ++ (toString latches.scrollY.toNat ++ ")"))),
    ("  OAM address: $", Hex.byte latches.oamAddress),
    ("  Palette: [", ", ".intercalate (ppu.memory.palette.toList.map Hex.byte) ++ "]")]

/-- The labels of a dump of the picture unit. -/
def ppuLabels : List String :=
  ["  CTRL:   ", "  MASK:   ", "  STATUS: ", "  VRAM address: $", "  Scroll: (",
    "  OAM address: $", "  Palette: ["]

theorem labels_ppuRows (machine : Machine) : (ppuRows machine).map (·.1) = ppuLabels := rfl

theorem apart_ppuLabels : ppuLabels.Pairwise Apart := by decide

/-- A dump of the picture unit is a blank line, its heading and its rows. -/
theorem ppuLines_eq (machine : Machine) :
    ppuLines machine = "" :: ppuHeading :: (ppuRows machine).map Row.line := by
  simp only [ppuLines, ppuRows, List.map_cons, List.map_nil, Row.line, String.append_assoc]
  rfl

/-- What the rows of a dump of the picture unit show. -/
def readPpu? (rows : List String) : Option PpuDump := do
  let control ← (behind? "  CTRL:   " rows).bind Ppu.controlNames.bits?
  let mask ← (behind? "  MASK:   " rows).bind Ppu.maskNames.bits?
  let status ← (behind? "  STATUS: " rows).bind Ppu.statusNames.bits?
  let vramAddress ← (behind? "  VRAM address: $" rows).bind Hex.word?
  let scroll ← behind? "  Scroll: (" rows
  let scroll ← (items ',' scroll.dropLast).mapM digits?
  let oamAddress ← (behind? "  OAM address: $" rows).bind Hex.byte?
  let palette ← behind? "  Palette: [" rows
  let palette ← (items ',' palette.dropLast).mapM Hex.byte?
  return { control, mask, status, vramAddress, scroll, oamAddress, palette }

/-- What a dump of the picture unit in the output shows, if there is one. -/
def ppuDump? (output : List String) : Option PpuDump := readPpu? (linesBehind ppuHeading output)

/-- The rows of a dump of the picture unit show its state. -/
theorem readPpu?_ppuRows (machine : Machine) :
    readPpu? ((ppuRows machine).map Row.line) = some (.ofMachine machine) := by
  have hrows := behind?_rows (labels_ppuRows machine ▸ apart_ppuLabels)
  generalize (ppuRows machine).map Row.line = rows at hrows ⊢
  simp only [ppuRows, List.forall_mem_cons, Hex.byte, Hex.word, String.toList_append,
    String.toList_ofList] at hrows
  obtain ⟨hcontrol, hmask, hstatus, haddress, hscroll, hoam, hpalette, -⟩ := hrows
  have hbytes : machine.cpu.bus.ppu.memory.palette.toList ≠ [] := by
    rw [← List.length_pos_iff, Vector.length_toList]
    decide
  have hcontrolNames : Ppu.controlNames.Readable := by decide
  have hmaskNames : Ppu.maskNames.Readable := by decide
  have hstatusNames : Ppu.statusNames.Readable := by decide
  have hlist := bytes_list hbytes
  simp only [readPpu?, hcontrol, hmask, hstatus, haddress, hscroll, hoam, hpalette,
    FlagNames.bits?_text hcontrolNames, FlagNames.bits?_text hmaskNames,
    FlagNames.bits?_text hstatusNames, Option.bind_eq_bind, Option.bind_some, Hex.byte?_byteChars,
    Hex.word?_wordChars, numbers_position, hlist, Option.pure_def]
  rfl

/-! ## Output without dumps -/

/-- No line is the heading of a dump. -/
def Headless (lines : List String) : Prop := ∀ line ∈ lines, line ∉ [cpuHeading, ppuHeading]

theorem headless_append {lines others : List String} :
    Headless (lines ++ others) ↔ Headless lines ∧ Headless others :=
  List.forall_mem_append

theorem headless_cons {line : String} {lines : List String} :
    Headless (line :: lines) ↔ line ∉ [cpuHeading, ppuHeading] ∧ Headless lines :=
  List.forall_mem_cons

theorem headless_nil : Headless [] := List.forall_mem_nil _

theorem append_notMem_headings {start : String}
    (h : ∀ heading ∈ [cpuHeading, ppuHeading], ¬start.toList <+: heading.toList) (rest : String) :
    start ++ rest ∉ [cpuHeading, ppuHeading] := by
  intro hm
  exact line_ne (start, rest) (h _ hm) rfl

theorem headless_cartridgeLines (cartridge : Cartridge) : Headless (cartridgeLines cartridge) := by
  simp only [cartridgeLines, headless_cons, String.append_assoc]
  refine ⟨by decide, ?_, ?_, ?_, ?_, ?_, headless_nil⟩ <;>
    exact append_notMem_headings (by decide) _

theorem headless_vectorLines (machine : Machine) : Headless (vectorLines machine) := by
  simp only [vectorLines, vectorLine, headless_cons, String.append_assoc]
  refine ⟨by decide, by decide, ?_, ?_, ?_, headless_nil⟩ <;>
    exact append_notMem_headings (by decide) _

/-- The lines about frames begin like no heading. -/
theorem headless_frameLines (limit k : Nat) :
    Headless ["", "Running " ++ toString limit ++ " frames...",
      "Completed " ++ toString k ++ " frames."] := by
  simp only [headless_cons, String.append_assoc]
  exact ⟨by decide, append_notMem_headings (by decide) _, append_notMem_headings (by decide) _,
    headless_nil⟩

/-! ## Output with dumps -/

theorem linesBehind_cpuLines (machine : Machine) {behind : List String}
    (h : behind.head? = none ∨ behind.head? = some "") :
    linesBehind cpuHeading (cpuLines machine ++ behind) = (cpuRows machine).map Row.line := by
  have hrows : "" ∉ (cpuRows machine).map Row.line := by
    refine notMem_map_line ?_
    rw [labels_cpuRows]
    decide
  rw [cpuLines_eq, ← List.singleton_append, List.append_assoc, linesBehind_append (by decide)]
  exact linesBehind_heading hrows h

theorem linesBehind_ppuLines (machine : Machine) :
    linesBehind ppuHeading (ppuLines machine) = (ppuRows machine).map Row.line := by
  have hrows : "" ∉ (ppuRows machine).map Row.line := by
    refine notMem_map_line ?_
    rw [labels_ppuRows]
    decide
  rw [ppuLines_eq, ← List.singleton_append, linesBehind_append (by decide)]
  have h : linesBehind ppuHeading
      (ppuHeading :: (ppuRows machine).map Row.line ++ []) = (ppuRows machine).map Row.line :=
    linesBehind_heading hrows (.inl rfl)
  rwa [List.append_nil] at h

theorem ppuHeading_notMem_cpuLines (machine : Machine) : ppuHeading ∉ cpuLines machine := by
  have hrows : ppuHeading ∉ (cpuRows machine).map Row.line := by
    refine notMem_map_line ?_
    rw [labels_cpuRows]
    decide
  rw [cpuLines_eq, List.mem_cons, List.mem_cons]
  rintro (h | h | h)
  · exact absurd h (by decide)
  · exact absurd h (by decide)
  · exact hrows h

theorem cpuHeading_notMem_ppuLines (machine : Machine) : cpuHeading ∉ ppuLines machine := by
  have hrows : cpuHeading ∉ (ppuRows machine).map Row.line := by
    refine notMem_map_line ?_
    rw [labels_ppuRows]
    decide
  rw [ppuLines_eq, List.mem_cons, List.mem_cons]
  rintro (h | h | h)
  · exact absurd h (by decide)
  · exact absurd h (by decide)
  · exact hrows h

/-- A dump of the processor is there if it was asked for, and shows the state of the machine. -/
theorem cpuDump?_stateLines {before : List String} (h : Headless before) (options : Options)
    (machine : Machine) : cpuDump? (before ++ stateLines options machine) =
      if options.dumpCpu then some (.ofMachine machine) else none := by
  have hbefore : cpuHeading ∉ before := fun hm => h _ hm List.mem_cons_self
  rw [cpuDump?, linesBehind_append hbefore, stateLines]
  split_ifs with hcpu hppu
  · rw [linesBehind_cpuLines machine (.inr rfl), readCpu?_cpuRows]
  · rw [linesBehind_cpuLines machine (.inl rfl), readCpu?_cpuRows]
  · rw [List.nil_append, linesBehind_of_notMem (cpuHeading_notMem_ppuLines machine)]
    rfl
  · rfl

/-- A dump of the picture unit is there if it was asked for, and shows the state of the machine. -/
theorem ppuDump?_stateLines {before : List String} (h : Headless before) (options : Options)
    (machine : Machine) : ppuDump? (before ++ stateLines options machine) =
      if options.dumpPpu then some (.ofMachine machine) else none := by
  have hbefore : ppuHeading ∉ before := fun hm => h _ hm (by decide)
  have hcpu : ppuHeading ∉ if options.dumpCpu then cpuLines machine else [] := by
    split_ifs
    · exact ppuHeading_notMem_cpuLines machine
    · exact List.not_mem_nil
  rw [ppuDump?, linesBehind_append hbefore, stateLines, linesBehind_append hcpu]
  split_ifs
  · rw [linesBehind_ppuLines, readPpu?_ppuRows]
  · rfl

end Nes.Cli
