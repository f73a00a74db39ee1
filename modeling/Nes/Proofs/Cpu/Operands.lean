import Mathlib.Data.List.Basic
import Nes.Proofs.Cpu.Failures
import Nes.Proofs.Cpu.Numbers

/-!
# Where modes lead

Every mode has an entry in a table that is written in numbers: how many bytes of the operand it
reads, where the pointer is that they lead to, and which address comes out. There are four ways to
wrap. Indexing in page 0 stays in page 0, a pointer's high byte comes from the page of its low byte,
indexed addresses count modulo `$10000`, and so do branches, forwards and backwards.

Results:

* `names_iff`: the rule of a mode is its entry in the table.
* `resolve_of_names`: a mode comes to an address if the bus lets the reads through.
* `seekCongruence_onlyReads`: no mode writes, even if an access of it fails.
* `resolve_eq_ok_iff`: a mode comes to what its entry says, and to nothing else.
* `resolve_by_table`: **when a mode comes to an address, to which, and by which accesses.**
-/

namespace Nes

/-! ## The table -/

namespace AddressMode

/-- How many bytes of the operand are read to find the address. The immediate operand is not: it is
what the address is for. -/
def bytesRead : AddressMode → Nat
  | immediate => 0
  | mode => mode.operandBytes

/-- Where the low and the high byte are of the pointer that the operand `w` leads to. -/
def pointerAt (r : Registers) (w : Nat) : AddressMode → List Nat
  | indirect => [w, w / 0x100 * 0x100 + (w + 1) % 0x100]
  | indirectX => [(w + r.x.toNat) % 0x100, (w + r.x.toNat + 1) % 0x100]
  | indirectY => [w, (w + 1) % 0x100]
  | immediate | zeroPage | zeroPageX | zeroPageY | absolute | absoluteX | absoluteY | relative => []

/-- The address that comes out, with the program counter of `r` at the operand. -/
def target (r : Registers) (operand pointer : List UInt8) : AddressMode → Nat
  | immediate => r.pc.toNat
  | zeroPage | absolute => littleEndian operand
  | zeroPageX => (littleEndian operand + r.x.toNat) % 0x100
  | zeroPageY => (littleEndian operand + r.y.toNat) % 0x100
  | absoluteX => (littleEndian operand + r.x.toNat) % 0x10000
  | absoluteY => (littleEndian operand + r.y.toNat) % 0x10000
  | indirect | indirectX => littleEndian pointer
  | indirectY => (littleEndian pointer + r.y.toNat) % 0x10000
  | relative => ((r.pc.toNat + 1 + twosComplement operand) % 0x10000).toNat

/-- There are as many bytes of the operand and of the pointer as the mode reads. -/
structure Takes (mode : AddressMode) (r : Registers) (operand pointer : List UInt8) : Prop where
  operand_length : operand.length = mode.bytesRead
  pointer_length : pointer.length = (mode.pointerAt r (littleEndian operand)).length

/-- The reads that find these bytes: the operand from the program counter on, then the pointer. -/
def reads (r : Registers) (operand pointer : List UInt8) (mode : AddressMode) : List Access :=
  operand.mapIdx (fun i byte => .read (r.pc + .ofNat i) byte) ++
    List.zipWith (fun place byte => .read (.ofNat place) byte)
      (mode.pointerAt r (littleEndian operand)) pointer

/-- The mode names addresses in page 0 only. -/
def inPageZero : AddressMode → Bool
  | zeroPage | zeroPageX | zeroPageY => true
  | _ => false

end AddressMode

/-! ## Numbers and addresses -/

theorem littleEndian_byte (byte : UInt8) : littleEndian [byte] = byte.toNat := by
  rw [littleEndian_cons, littleEndian_nil]
  omega

theorem littleEndian_word (lo hi : UInt8) : littleEndian [lo, hi] = (word lo hi).toNat := by
  rw [word_toNat, littleEndian_cons, littleEndian_byte]

theorem ofNat_add_mod (a b : UInt8) :
    UInt16.ofNat ((a.toNat + b.toNat) % 0x100) = (a + b).toUInt16 := by
  rw [← UInt16.ofNat_uInt8ToNat, UInt8.toNat_add]

theorem ofNat_succ_mod (a : UInt8) :
    UInt16.ofNat ((a.toNat + 1) % 0x100) = (a + 1).toUInt16 := ofNat_add_mod a 1

theorem ofNat_add_succ_mod (a b : UInt8) :
    UInt16.ofNat ((a.toNat + b.toNat + 1) % 0x100) = (a + b + 1).toUInt16 := by
  rw [← ofNat_succ_mod, UInt8.toNat_add, Nat.mod_add_mod]

theorem ofNat_index_mod (w : UInt16) (index : UInt8) :
    UInt16.ofNat ((w.toNat + index.toNat) % 0x10000) = w + index.toUInt16 := by
  rw [← UInt8.toNat_toUInt16, ← UInt16.toNat_add, UInt16.ofNat_toNat]

/-- The second byte of a pointer is looked for in the page of the first. -/
theorem nextInPage_eq_ofNat (pointer : UInt16) :
    Cpu.nextInPage pointer =
      .ofNat (pointer.toNat / 0x100 * 0x100 + (pointer.toNat + 1) % 0x100) := by
  rw [← Cpu.nextInPage_toNat, UInt16.ofNat_toNat]

/-- A signed distance is added modulo `$10000`. -/
theorem add_signExtend_toNat (pc : UInt16) (byte : UInt8) :
    (pc + 1 + signExtend byte).toNat =
      ((pc.toNat + 1 + twosComplement [byte]) % 0x10000 : Int).toNat := by
  have h := byte.toNat_lt
  rw [UInt16.toNat_add, UInt16.toNat_add, signExtend_toNat, twosComplement_eq, littleEndian_byte,
    UInt16.toNat_one, List.length_singleton]
  split <;> split <;> omega

/-! ## Rules and their entries -/

section

open AddressMode

variable {r : Registers} {mode : AddressMode} {log : List Access} {address : UInt16}

theorem reads_byte {byte : UInt8} (h : mode.pointerAt r (littleEndian [byte]) = []) :
    mode.reads r [byte] [] = [.read r.pc byte] := by
  simp [reads, h]

theorem reads_word {lo hi : UInt8} (h : mode.pointerAt r (littleEndian [lo, hi]) = []) :
    mode.reads r [lo, hi] [] = [.read r.pc lo, .read (r.pc + 1) hi] := by
  simp [reads, h]

/-- What the table gives keeps to the rule of the mode. -/
theorem names_of_takes {operand pointer : List UInt8} (h : mode.Takes r operand pointer) :
    Names r mode (mode.reads r operand pointer) (.ofNat (mode.target r operand pointer)) := by
  obtain ⟨ho, hp⟩ := h
  cases mode with
  | immediate =>
    obtain rfl := List.length_eq_zero_iff.1 ho
    obtain rfl := List.length_eq_zero_iff.1 hp
    rw [target, UInt16.ofNat_toNat]
    exact .immediate
  | zeroPage | zeroPageX | zeroPageY =>
    obtain ⟨byte, rfl⟩ := List.length_eq_one_iff.1 ho
    obtain rfl := List.length_eq_zero_iff.1 hp
    rw [reads_byte (by rfl)]
    simp only [target, littleEndian_byte, ofNat_add_mod, UInt16.ofNat_uInt8ToNat]
    constructor
  | absolute | absoluteX | absoluteY =>
    obtain ⟨lo, hi, rfl⟩ := List.length_eq_two.1 ho
    obtain rfl := List.length_eq_zero_iff.1 hp
    rw [reads_word (by rfl)]
    simp only [target, littleEndian_word, ofNat_index_mod, UInt16.ofNat_toNat]
    constructor
  | indirect =>
    obtain ⟨lo, hi, rfl⟩ := List.length_eq_two.1 ho
    obtain ⟨lo', hi', rfl⟩ := List.length_eq_two.1 hp
    simpa [reads, pointerAt, target, littleEndian_word, nextInPage_eq_ofNat]
      using Names.indirect lo hi lo' hi'
  | indirectX =>
    obtain ⟨byte, rfl⟩ := List.length_eq_one_iff.1 ho
    obtain ⟨lo, hi, rfl⟩ := List.length_eq_two.1 hp
    simpa [reads, pointerAt, target, littleEndian_byte, littleEndian_word, ofNat_add_mod,
      ofNat_add_succ_mod] using Names.indirectX byte lo hi
  | indirectY =>
    obtain ⟨byte, rfl⟩ := List.length_eq_one_iff.1 ho
    obtain ⟨lo, hi, rfl⟩ := List.length_eq_two.1 hp
    simpa [reads, pointerAt, target, littleEndian_byte, littleEndian_word, ofNat_succ_mod,
      ofNat_index_mod] using Names.indirectY byte lo hi
  | relative =>
    obtain ⟨byte, rfl⟩ := List.length_eq_one_iff.1 ho
    obtain rfl := List.length_eq_zero_iff.1 hp
    rw [reads_byte (by rfl), target, ← add_signExtend_toNat, UInt16.ofNat_toNat]
    exact .relative byte

/-- What keeps to the rule is in the table. -/
theorem takes_of_names (h : Names r mode log address) :
    ∃ operand pointer, mode.Takes r operand pointer ∧ log = mode.reads r operand pointer ∧
      address.toNat = mode.target r operand pointer := by
  cases h with
  | immediate => exact ⟨[], [], ⟨rfl, rfl⟩, rfl, rfl⟩
  | zeroPage byte | zeroPageX byte | zeroPageY byte =>
    refine ⟨[byte], [], ⟨rfl, rfl⟩, (reads_byte rfl).symm, ?_⟩
    simp [target, littleEndian_byte]
  | absolute lo hi | absoluteX lo hi | absoluteY lo hi =>
    refine ⟨[lo, hi], [], ⟨rfl, rfl⟩, (reads_word rfl).symm, ?_⟩
    simp [target, littleEndian_word]
  | indirect lo hi lo' hi' =>
    refine ⟨[lo, hi], [lo', hi'], ⟨rfl, rfl⟩, ?_, ?_⟩
    · simp [reads, pointerAt, littleEndian_word, nextInPage_eq_ofNat]
    · simp [target, littleEndian_word]
  | indirectX byte lo hi =>
    refine ⟨[byte], [lo, hi], ⟨rfl, rfl⟩, ?_, ?_⟩
    · simp [reads, pointerAt, littleEndian_byte, ofNat_add_mod, ofNat_add_succ_mod]
    · simp [target, littleEndian_word]
  | indirectY byte lo hi =>
    refine ⟨[byte], [lo, hi], ⟨rfl, rfl⟩, ?_, ?_⟩
    · simp [reads, pointerAt, littleEndian_byte, ofNat_succ_mod]
    · simp [target, littleEndian_word]
  | relative byte =>
    refine ⟨[byte], [], ⟨rfl, rfl⟩, (reads_byte rfl).symm, ?_⟩
    exact add_signExtend_toNat r.pc byte

/-- **The table and the rules of the modes say the same.** -/
theorem names_iff :
    Names r mode log address ↔ ∃ operand pointer, mode.Takes r operand pointer ∧
      log = mode.reads r operand pointer ∧ address.toNat = mode.target r operand pointer := by
  refine ⟨takes_of_names, ?_⟩
  rintro ⟨operand, pointer, h, rfl, ha⟩
  have hn := names_of_takes h
  rwa [← ha, UInt16.ofNat_toNat] at hn

end

section

variable {β : Type} [Bus β] {bus last : β}

@[simp]
theorem allows_nil : Allows bus [] last ↔ last = bus :=
  ⟨fun | .nil _ => rfl, fun h => h ▸ .nil bus⟩

/-- A log that begins with a read is allowed if the read is, and the rest after it. -/
@[simp]
theorem allows_read {address : UInt16} {value : UInt8} {rest : List Access} :
    Allows bus (.read address value :: rest) last ↔
      ∃ next, Bus.read address bus = .ok value next ∧ Allows next rest last :=
  ⟨fun | .read h hr => ⟨_, h, hr⟩, fun ⟨_, h, hr⟩ => .read h hr⟩

namespace Cpu

variable {r : Registers} {n : Nat} {lo hi byte : UInt8} {middle : β}

/-! ## Modes whose reads succeed -/

theorem fetch_of_read (h : Bus.read r.pc bus = .ok byte last) :
    fetch ⟨r, n, bus⟩ = .ok byte ⟨{ r with pc := r.pc + 1 }, n, last⟩ := by
  rw [fetch_eq, h]

theorem fetchWord_of_read (hl : Bus.read r.pc bus = .ok lo middle)
    (hh : Bus.read (r.pc + 1) middle = .ok hi last) :
    fetchWord ⟨r, n, bus⟩ = .ok (word lo hi) ⟨{ r with pc := r.pc + 2 }, n, last⟩ := by
  have h : r.pc + 1 + 1 = r.pc + 2 := UInt16.add_assoc r.pc 1 1
  have hf : fetch ⟨{ r with pc := r.pc + 1 }, n, middle⟩ = .ok hi _ := fetch_of_read hh
  simp only [fetchWord, bind, EStateM.bind, fetch_of_read hl, hf, h]
  rfl

theorem readPointer_of_read {pointer : UInt16} (hl : Bus.read pointer bus = .ok lo middle)
    (hh : Bus.read (nextInPage pointer) middle = .ok hi last) :
    readPointer pointer ⟨r, n, bus⟩ = .ok (word lo hi) ⟨r, n, last⟩ := by
  simp only [readPointer, bind, EStateM.bind, read, hl, hh]
  rfl

/-- A bus that allows the reads of a rule lets the mode find its address. -/
theorem resolve_of_names {mode : AddressMode} {log : List Access} {address : UInt16}
    (h : Names r mode log address) (ha : Allows bus log last) :
    resolve mode ⟨r, n, bus⟩ = .ok address ⟨r.skip mode, n, last⟩ := by
  cases h with
  | immediate =>
    obtain rfl := allows_nil.1 ha
    rfl
  | zeroPage byte | zeroPageX byte | zeroPageY byte | relative byte =>
    simp only [allows_read, allows_nil] at ha
    obtain ⟨_, h, rfl⟩ := ha
    simp only [resolve, bind, EStateM.bind, fetch_of_read h]
    rfl
  | absolute lo hi | absoluteX lo hi | absoluteY lo hi =>
    simp only [allows_read, allows_nil] at ha
    obtain ⟨_, hl, _, hh, rfl⟩ := ha
    simp only [resolve, bind, EStateM.bind, fetchWord_of_read hl hh]
    rfl
  | indirect lo hi lo' hi' =>
    simp only [allows_read, allows_nil] at ha
    obtain ⟨_, hl, _, hh, _, hl', _, hh', rfl⟩ := ha
    simp only [resolve, bind, EStateM.bind, fetchWord_of_read hl hh]
    exact readPointer_of_read hl' hh'
  | indirectX byte lo hi =>
    simp only [allows_read, allows_nil, ← nextInPage_toUInt16] at ha
    obtain ⟨_, h, _, hl, _, hh, rfl⟩ := ha
    simp only [resolve, bind, EStateM.bind, fetch_of_read h]
    exact readPointer_of_read hl hh
  | indirectY byte lo hi =>
    simp only [allows_read, allows_nil, ← nextInPage_toUInt16] at ha
    obtain ⟨_, h, _, hl, _, hh, rfl⟩ := ha
    simp only [resolve, bind, EStateM.bind, fetch_of_read h, readPointer_of_read hl hh]
    rfl

/-- A mode that finds its address has read what the rule says. -/
theorem names_of_resolve {mode : AddressMode} {address : UInt16} {cpu next : Cpu β}
    (h : resolve mode cpu = .ok address next) :
    ∃ log, Names cpu.registers mode log address ∧ Allows cpu.bus log next.bus ∧
      next.registers = cpu.registers.skip mode ∧ next.instructions = cpu.instructions := by
  have hs : Agree (Related Recorder.Around cpu.instructions) (resolve mode cpu.watched)
      (resolve mode cpu) :=
    (congruence_simulates (Recorder.simulation_around β)).resolve mode ⟨rfl, rfl, rfl, rfl⟩
  have hf := (follows_resolve mode).ends cpu.watched
  have ht : TracedTo cpu.watched (resolve mode cpu.watched) := congruence_traced.resolve mode _
  rw [h] at hs
  generalize resolve mode cpu.watched = p at hs hf ht
  cases hs with
  | ok _ hr =>
    obtain ⟨log, hlog, hnames, hskip⟩ := hf
    obtain ⟨done, hdone, hallows⟩ := ht
    obtain rfl : log = done := List.append_cancel_left (hlog.symm.trans hdone)
    have hbus : _ = next.bus := hr.bus
    exact ⟨log, hnames, hbus ▸ hallows, hr.registers.symm.trans hskip, hr.right_instructions⟩

/-! ## Accesses of a mode -/

/-- What the bus lets through a recorder around it lists. -/
theorem allows_recorder {log : List Access} (h : Allows bus log last) (done : Array Access) :
    Allows (⟨bus, done⟩ : Recorder β) log ⟨last, done ++ log.toArray⟩ := by
  induction h generalizing done with
  | nil => simp
  | @read bus next last address value rest h _ ih =>
    have hr : Bus.read address (⟨bus, done⟩ : Recorder β) =
        .ok value ⟨next, done.push (.read address value)⟩ := by
      simp only [Bus.read] at h ⊢
      rw [h]
    refine .read hr ?_
    simpa using ih (done.push (.read address value))
  | @write bus next last address value rest h _ ih =>
    have hw : Bus.write address value (⟨bus, done⟩ : Recorder β) =
        .ok () ⟨next, done.push (.write address value)⟩ := by
      simp only [Bus.write] at h ⊢
      rw [h]
    refine .write hw ?_
    simpa using ih (done.push (.write address value))

/-- The watched processor has written nothing, and tried to write nothing. -/
def OnlyReads (cpu : Cpu (Recorder β)) : Prop := ∀ access ∈ cpu.log, access.attempt? = none

theorem preserves_onlyReads_read (address : UInt16) :
    Preserves OnlyReads (read address : Action (Recorder β) UInt8) := by
  rintro ⟨r, n, bus, log⟩ h access hm
  rw [read_recorder] at hm
  cases hb : Bus.read address bus <;>
  · rw [hb] at hm
    obtain hm | rfl := Array.mem_push.1 (Array.mem_toList_iff.1 hm)
    · exact h access (Array.mem_toList_iff.2 hm)
    · rfl

theorem seekCongruence_onlyReads :
    @SeekCongruence (Recorder β) (Recorder β) _ _ fun _ x _ => Preserves OnlyReads x where
  pure _ _ h := h
  bind := .bind
  getRegisters _ h := h
  move _ _ h := h
  read := preserves_onlyReads_read

/-! ## Modes and the table -/

/-- With these bytes of the operand and of the pointer, the mode comes from `cpu` to `address` and
leaves `next` behind, by its entry in the table. -/
structure Finds (mode : AddressMode) (cpu next : Cpu β) (address : UInt16)
    (operand pointer : List UInt8) : Prop where
  takes : mode.Takes cpu.registers operand pointer
  allowed : Allows cpu.bus (mode.reads cpu.registers operand pointer) next.bus
  address_eq : address.toNat = mode.target cpu.registers operand pointer
  registers_eq : next.registers =
    { cpu.registers with pc := cpu.registers.pc + .ofNat mode.operandBytes }
  instructions_eq : next.instructions = cpu.instructions

variable {mode : AddressMode} {cpu next : Cpu β} {address : UInt16}

/-- A mode finds an address if and only if the table has it for bytes that the bus gives. -/
theorem resolve_eq_ok_iff :
    resolve mode cpu = .ok address next ↔
      ∃ operand pointer, Finds mode cpu next address operand pointer := by
  constructor
  · intro h
    obtain ⟨log, hnames, hallows, hregisters, hinstructions⟩ := names_of_resolve h
    obtain ⟨operand, pointer, htakes, rfl, haddress⟩ := names_iff.1 hnames
    exact ⟨operand, pointer, htakes, hallows, haddress, hregisters, hinstructions⟩
  · rintro ⟨operand, pointer, h⟩
    have hnames := names_iff.2 ⟨operand, pointer, h.takes, rfl, h.address_eq⟩
    obtain ⟨registers, instructions, bus⟩ := next
    obtain rfl : registers = _ := h.registers_eq
    obtain rfl : instructions = _ := h.instructions_eq
    exact resolve_of_names hnames h.allowed

/-- The accesses are those of the table, in its order. -/
theorem log_of_finds {operand pointer : List UInt8}
    (h : Finds mode cpu next address operand pointer) :
    (final (resolve mode cpu.watched)).log = mode.reads cpu.registers operand pointer := by
  have hnames := names_iff.2 ⟨operand, pointer, h.takes, rfl, h.address_eq⟩
  have hr : resolve mode cpu.watched = .ok address _ :=
    resolve_of_names hnames (allows_recorder h.allowed #[])
  rw [hr]
  simp [final, log]

/-- Modes of page 0 do not leave it. -/
theorem target_lt_of_inPageZero {r : Registers} {operand pointer : List UInt8}
    (hp : mode.inPageZero = true) (h : mode.Takes r operand pointer) :
    mode.target r operand pointer < 0x100 := by
  cases mode with
  | zeroPage =>
    have hl := littleEndian_lt operand
    rwa [h.operand_length] at hl
  | zeroPageX | zeroPageY => exact Nat.mod_lt _ (by decide)
  | _ => cases hp

theorem registers_skipOperand {mode : Mode} (h : skipOperand mode cpu = .ok () next) :
    next.registers = { cpu.registers with pc := cpu.registers.pc + .ofNat mode.operandBytes } := by
  cases mode with
  | implied | accumulator =>
    obtain rfl : cpu = next := by injection h
    show cpu.registers = { cpu.registers with pc := cpu.registers.pc + 0 }
    rw [UInt16.add_zero]
  | address mode =>
    have h : EStateM.bind (resolve mode) (fun _ => pure ()) cpu = .ok () next := h
    unfold EStateM.bind at h
    cases hr : resolve mode cpu with
    | error cause middle =>
      rw [hr] at h
      cases h
    | ok address middle =>
      rw [hr] at h
      obtain rfl : middle = next := by injection h
      obtain ⟨operand, pointer, hf⟩ := resolve_eq_ok_iff.1 hr
      exact hf.registers_eq

/-- **Main theorem.** On any bus a mode comes to an address if and only if the bus lets through the
reads that the table has for it, and these are all of its accesses. The address is the one in the
table, and in page 0 for the modes of that page. The program counter has moved over the operand and
no other register has changed. The two modes without an operand do nothing at all. No mode writes,
whatever comes of it. -/
theorem resolve_by_table (cpu : Cpu β) :
    (∀ mode next address, resolve mode cpu = .ok address next ↔
      ∃ operand pointer, Finds mode cpu next address operand pointer) ∧
    (∀ mode next address operand pointer, Finds mode cpu next address operand pointer →
      (final (resolve mode cpu.watched)).log = mode.reads cpu.registers operand pointer) ∧
    (∀ mode next address, mode.inPageZero = true → resolve mode cpu = .ok address next →
      address.toNat < 0x100) ∧
    (∀ mode next, skipOperand mode cpu = .ok () next → next.registers =
      { cpu.registers with pc := cpu.registers.pc + .ofNat mode.operandBytes }) ∧
    skipOperand .implied cpu = .ok () cpu ∧ skipOperand .accumulator cpu = .ok () cpu ∧
    ∀ mode, OnlyReads (final (skipOperand mode cpu.watched)) := by
  refine ⟨fun _ _ _ => resolve_eq_ok_iff, fun _ _ _ _ _ => log_of_finds, ?_,
    fun _ _ => registers_skipOperand, rfl, rfl, ?_⟩
  · intro mode next address hp h
    obtain ⟨operand, pointer, hf⟩ := resolve_eq_ok_iff.1 h
    rw [hf.address_eq]
    exact target_lt_of_inPageZero hp hf.takes
  · intro mode
    exact seekCongruence_onlyReads.skipOperand mode cpu.watched fun _ h => nomatch h

/-- At the last address an operand goes on at the first. The pointer `$FFFF` has its high byte at
`$FF00`, and `$FF` indexed by 2 is `$01`. -/
theorem resolve_by_table_wraps :
    let bus := (FlatBus.filled 0xFF).poke 0xFF00 0x12
    let cpu : Cpu FlatBus := ⟨{ pc := 0xFFFF, x := 2 }, 0, bus⟩
    let jumped : Cpu FlatBus := ⟨{ pc := 1, x := 2 }, 0, bus⟩
    let indexed : Cpu FlatBus := ⟨{ pc := 0, x := 2 }, 0, bus⟩
    (Finds .indirect cpu jumped 0x12FF [0xFF, 0xFF] [0xFF, 0x12] ∧
      resolve .indirect cpu = .ok 0x12FF jumped ∧
      (final (resolve .indirect cpu.watched)).log = [.read 0xFFFF 0xFF, .read 0x0000 0xFF,
        .read 0xFFFF 0xFF, .read 0xFF00 0x12]) ∧
    (resolve .zeroPageX cpu = .ok 1 indexed ∧ (1 : UInt16).toNat < 0x100) ∧
    skipOperand (.address .zeroPageX) cpu = .ok () indexed ∧
      indexed.registers = { cpu.registers with pc := 0xFFFF + 1 } := by
  intro bus cpu jumped indexed
  have hread (address : UInt16) (value : UInt8) (h : bus.peek address = value) :
      Bus.read address bus = .ok value bus := h ▸ rfl
  have hff (address : UInt16) (h : (0xFF00 : UInt16) ≠ address) :
      Bus.read address bus = .ok 0xFF bus :=
    hread _ _ (by rw [FlatBus.peek_poke_of_ne _ h, FlatBus.peek_filled])
  have hreads : AddressMode.indirect.reads cpu.registers [0xFF, 0xFF] [0xFF, 0x12] =
      [.read 0xFFFF 0xFF, .read 0x0000 0xFF, .read 0xFFFF 0xFF, .read 0xFF00 0x12] := by decide
  have hjump : Finds .indirect cpu jumped 0x12FF [0xFF, 0xFF] [0xFF, 0x12] := by
    refine ⟨⟨rfl, rfl⟩, ?_, by decide, by decide, rfl⟩
    rw [hreads]
    refine .read (hff _ (by decide)) (.read (hff _ (by decide)) (.read (hff _ (by decide)) ?_))
    exact .read (hread _ _ (FlatBus.peek_poke_self ..)) (.nil bus)
  have hindex : Finds .zeroPageX cpu indexed 1 [0xFF] [] :=
    ⟨⟨rfl, rfl⟩, .read (hff _ (by decide)) (.nil bus), by decide, by decide, rfl⟩
  obtain ⟨hiff, hlog, hpage, hskip, -⟩ := resolve_by_table cpu
  have hzero := (hiff _ _ _).2 ⟨_, _, hindex⟩
  have hskipped : skipOperand (.address .zeroPageX) cpu = .ok () indexed := by
    simp only [skipOperand, bind, EStateM.bind, hzero]
    rfl
  exact ⟨⟨hjump, (hiff _ _ _).2 ⟨_, _, hjump⟩, hreads ▸ hlog _ _ _ _ _ hjump⟩,
    ⟨hzero, hpage _ _ _ rfl hzero⟩, hskipped, hskip _ _ hskipped⟩

end Cpu

end

end Nes
