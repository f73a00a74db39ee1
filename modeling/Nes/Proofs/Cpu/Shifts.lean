import Mathlib.Data.Nat.ModEq
import Nes.Proofs.Cpu.Numbers
import Nes.Proofs.Cpu.Tasks

/-!
# Shifts and rotations of several bytes

A number of several bytes in memory is shifted byte by byte: the first byte is shifted or rotated,
and every other byte is rotated, with the bit that has left the byte before it coming in by the
carry. With the carry above its top bit the number is a word of `8 * n + 1` bits. A rotation to the
left turns that word, and a rotation to the right is a rotation to the left seen backwards. A shift
is a rotation with a clear carry.

Results:

* `ModifyOp.rol_toNat`, `ModifyOp.ror_toNat`: one byte.
* `turnsLeft_rol`, `turnsLeft_ror`: a number of any length.
* `word_turns`: any number of rotations, modulo `2 * 256 ^ n - 1`.
* `shifts_of_plain`: **what shifts and rotations of several bytes come to.**
-/

namespace Nes

/-! ## One byte -/

namespace ModifyOp

/-- A byte between the carries before and after it, by enumeration of byte and carry. -/
theorem rotations_toNat (v : UInt8) (c : Bool) :
    ((v <<< 1 ||| Status.bit c 0x01).toNat + 256 * (v &&& 0x80 != 0).toNat =
      2 * v.toNat + c.toNat) ∧
    2 * (v >>> 1 ||| Status.bit c 0x80).toNat + (v &&& 0x01 != 0).toNat =
      v.toNat + 256 * c.toNat := by
  revert v c
  decide +kernel

theorem rol_toNat (v : UInt8) (p : Status) :
    (rol.apply v p).1.toNat + 256 * (rol.apply v p).2.carry.toNat =
      2 * v.toNat + p.carry.toNat :=
  (rotations_toNat v p.carry).1

theorem ror_toNat (v : UInt8) (p : Status) :
    2 * (ror.apply v p).1.toNat + (ror.apply v p).2.carry.toNat =
      v.toNat + 256 * p.carry.toNat :=
  (rotations_toNat v p.carry).2

/-- A shift is a rotation that finds the carry clear. -/
theorem apply_asl (v : UInt8) (p : Status) :
    asl.apply v p = rol.apply v { p with carry := false } := by
  simp [apply, result, carryOut, Status.bit]

theorem apply_lsr (v : UInt8) (p : Status) :
    lsr.apply v p = ror.apply v { p with carry := false } := by
  simp [apply, result, carryOut, Status.bit]

end ModifyOp

/-! ## A number in memory -/

namespace Data

variable (data : Data) (es : List UInt16)

/-- The number whose bytes are at some addresses, the low byte at the first. -/
def number : Nat := littleEndian (es.map data.bytes)

/-- The carry flag. -/
def carry : Bool := data.registers.p.carry

/-- The number with the carry above its top bit. -/
def word : Nat := data.number es + 256 ^ es.length * data.carry.toNat

/-- The same data with the carry clear, as `CLC` leaves it. -/
def clearCarry : Data := { data with registers.p.carry := false }

theorem number_cons (e : UInt16) :
    data.number (e :: es) = (data.bytes e).toNat + 256 * data.number es := rfl

theorem word_cons (e : UInt16) :
    data.word (e :: es) = (data.bytes e).toNat + 256 * data.word es := by
  rw [word, word, number_cons, List.length_cons, pow_succ, mul_right_comm]
  omega

theorem number_lt : data.number es < 256 ^ es.length := by
  have h := littleEndian_lt (es.map data.bytes)
  rwa [List.length_map] at h

/-- The word tells the number and the carry apart. -/
theorem number_eq : data.number es = data.word es % 256 ^ es.length := by
  rw [word, Nat.add_mul_mod_self_left, Nat.mod_eq_of_lt (data.number_lt es)]

theorem carry_eq : data.carry = decide (256 ^ es.length ≤ data.word es) := by
  have h := data.number_lt es
  rw [word]
  cases data.carry with
  | false => simpa using h
  | true => simp

theorem word_lt : data.word es < 2 * 256 ^ es.length := by
  have h := data.number_lt es
  have hc := Nat.mul_le_mul_left (256 ^ es.length) data.carry.toNat_le
  rw [word]
  omega

variable {data es} {other : Data}

theorem number_congr (h : ∀ e ∈ es, other.bytes e = data.bytes e) :
    other.number es = data.number es := congrArg littleEndian (List.map_congr_left h)

theorem eq_of_word_eq (h : other.word es = data.word es) :
    (other.number es, other.carry) = (data.number es, data.carry) := by
  rw [number_eq, carry_eq other es, number_eq data, carry_eq data es, h]

end Data

/-- Residues up to the modulus itself, of which only the first and the last are the same. -/
theorem eq_of_modEq {m a b : Nat} (ha : a ≤ m) (hb : b ≤ m) (hzero : a = 0 ↔ b = 0)
    (h : a ≡ b [MOD m]) : a = b := by
  wlog hle : a ≤ b generalizing a b
  · exact (this hb ha hzero.symm h.symm (Nat.le_of_not_le hle)).symm
  obtain ⟨k, hk⟩ := (Nat.modEq_iff_dvd' hle).1 h
  rcases Nat.eq_zero_or_pos k with rfl | hpos
  · omega
  · have hm := Nat.le_mul_of_pos_right m hpos
    omega

/-! ## Turns -/

/-- The word of `after` is the word of `before` turned to the left: every bit has moved up, and the
carry has come in at the bottom. Nothing else in memory has changed. -/
structure TurnsLeft (es : List UInt16) (before after : Data) : Prop where
  bytes : ∀ a ∉ es, after.bytes a = before.bytes a
  word : after.word es = 2 * before.number es + before.carry.toNat

namespace TurnsLeft

variable {es : List UInt16} {before after : Data}

/-- A turn is twice the word, but that the top bit counts at the bottom again. -/
theorem word_add (h : TurnsLeft es before after) :
    after.word es + (2 * 256 ^ es.length - 1) * before.carry.toNat = 2 * before.word es := by
  have hpos : 0 < 256 ^ es.length := Nat.pow_pos (by decide)
  rw [h.word, Data.word]
  cases before.carry with
  | false =>
    rw [Bool.toNat_false]
    omega
  | true =>
    rw [Bool.toNat_true]
    omega

theorem word_eq_zero_iff (h : TurnsLeft es before after) :
    after.word es = 0 ↔ before.word es = 0 := by
  have hc : 256 ^ es.length * before.carry.toNat = 0 ↔ before.carry.toNat = 0 := by simp
  rw [h.word, Data.word]
  omega

/-- The low byte turns, and the other bytes turn with the carry that it leaves. -/
theorem cons {e : UInt16} {rest : List UInt16} {low : Data} (he : e ∉ rest)
    (h : TurnsLeft [e] before low) (hrest : TurnsLeft rest low after) :
    TurnsLeft (e :: rest) before after := by
  have hother (a : UInt16) (ha : a ≠ e) : low.bytes a = before.bytes a :=
    h.bytes a (by simpa using ha)
  have hnumber : low.number rest = before.number rest :=
    Data.number_congr fun a ha => hother a (by rintro rfl; exact he ha)
  have hbyte : (low.bytes e).toNat + 256 * low.carry.toNat =
      2 * (before.bytes e).toNat + before.carry.toNat := by
    simpa [Data.word, Data.number, littleEndian_cons] using h.word
  refine ⟨fun a ha => ?_, ?_⟩
  · rw [List.mem_cons, not_or] at ha
    exact (hrest.bytes a ha.2).trans (hother a ha.1)
  · rw [Data.word_cons, Data.number_cons, hrest.bytes e he, hrest.word, hnumber]
    omega

/-- A turn to the left, by number and carry. -/
theorem left (hn : es ≠ []) (h : TurnsLeft es before after) :
    (after.number es, after.carry) =
      ((2 * before.number es + before.carry.toNat) % 256 ^ es.length,
        (before.number es).testBit (8 * es.length - 1)) := by
  have hlen := (List.length_pos_iff.2 hn).ne'
  have hc := before.carry.toNat_le
  rw [Data.number_eq, Data.carry_eq after es, h.word, testBit_top hlen (before.number_lt es),
    Prod.mk.injEq, decide_eq_decide, two_mul_half hlen]
  omega

/-- The same turn seen backwards, which is one to the right. -/
theorem right (hn : es ≠ []) (h : TurnsLeft es after before) :
    (after.number es, after.carry) =
      ((before.number es + before.carry.toNat * 256 ^ es.length) / 2,
        decide (before.number es % 2 = 1)) := by
  have hlen := (List.length_pos_iff.2 hn).ne'
  have hc := after.carry.toNat_le
  have hw := h.word
  rw [Data.word, mul_comm (256 ^ _)] at hw
  have hcarry : after.carry.toNat = before.number es % 2 := by
    rw [two_mul_half hlen, mul_left_comm] at hw
    omega
  rw [hw, Prod.mk.injEq, Bool.eq_iff_iff, decide_eq_true_iff, ← Bool.toNat_eq_one, hcarry]
  omega

/-- Words that turn into the same are the same. -/
theorem injective {other : Data} (h : TurnsLeft es before after) (h' : TurnsLeft es other after) :
    (other.number es, other.carry) = (before.number es, before.carry) := by
  have hw := h'.word.symm.trans h.word
  have hc := before.carry.toNat_le
  have hc' := other.carry.toNat_le
  have hnumber : other.number es = before.number es := by omega
  have hcarry : other.carry.toNat = before.carry.toNat := by omega
  rw [Prod.mk.injEq, Bool.eq_iff_iff, ← Bool.toNat_eq_one, ← Bool.toNat_eq_one, hcarry]
  exact ⟨hnumber, Iff.rfl⟩

end TurnsLeft

/-! ## Chains -/

/-- Modify the byte at the first address with one operation and those at the others with another.
With the addresses of a number reversed it goes from the high byte down. -/
def chain (first others : ModifyOp) : List UInt16 → List Task
  | [] => []
  | e :: rest => .modify first e :: rest.map (.modify others)

theorem chain_self (op : ModifyOp) (es : List UInt16) : chain op op es = es.map (.modify op) := by
  cases es <;> rfl

/-- A chain that starts with a shift is one of rotations that finds the carry clear. -/
theorem effects_chain_of_clear {first others : ModifyOp}
    (h : ∀ v p, first.apply v p = others.apply v { p with carry := false }) {es : List UInt16}
    (he : es ≠ []) (data : Data) :
    Task.effects (chain first others es) data =
      Task.effects (chain others others es) data.clearCarry := by
  cases es with
  | nil => exact absurd rfl he
  | cons e rest =>
    have hfirst : Task.effect data (.modify first e) =
        Task.effect data.clearCarry (.modify others e) := by
      simp only [Task.effect, Data.clearCarry, h]
    simp only [chain, Task.effects, List.foldl_cons, hfirst]

theorem effects_append (first rest : List Task) (data : Data) :
    Task.effects (first ++ rest) data = Task.effects rest (Task.effects first data) :=
  List.foldl_append

theorem turnsLeft_modify_rol (e : UInt16) (data : Data) :
    TurnsLeft [e] data (Task.effect data (.modify .rol e)) where
  bytes a ha := Function.update_of_ne (by simpa using ha) _ _
  word := by
    simpa [Data.word, Data.number, Data.carry, littleEndian_cons, Task.effect] using
      ModifyOp.rol_toNat (data.bytes e) data.registers.p

theorem turnsLeft_modify_ror (e : UInt16) (data : Data) :
    TurnsLeft [e] (Task.effect data (.modify .ror e)) data where
  bytes a ha := (Function.update_of_ne (by simpa using ha) _ _).symm
  word := by
    simpa [Data.word, Data.number, Data.carry, littleEndian_cons, Task.effect] using
      (ModifyOp.ror_toNat (data.bytes e) data.registers.p).symm

section

variable {es : List UInt16}

/-- Rotations from the low byte up turn the word. -/
theorem turnsLeft_rol (hd : es.Nodup) (data : Data) :
    TurnsLeft es data (Task.effects (chain .rol .rol es) data) := by
  rw [chain_self]
  induction es generalizing data with
  | nil => exact ⟨fun _ _ => rfl, by simp [Task.effects, Data.word, Data.number]⟩
  | cons e rest ih =>
    rw [List.nodup_cons] at hd
    exact (turnsLeft_modify_rol e data).cons hd.1 (ih hd.2 _)

/-- Rotations from the high byte down turn it back. -/
theorem turnsLeft_ror (hd : es.Nodup) (data : Data) :
    TurnsLeft es (Task.effects (chain .ror .ror es.reverse) data) data := by
  rw [chain_self]
  -- the low byte is the last to be rotated, and seen backwards it is the first
  induction es with
  | nil => exact ⟨fun _ _ => rfl, by simp [Task.effects, Data.word, Data.number]⟩
  | cons e rest ih =>
    rw [List.nodup_cons] at hd
    rw [List.reverse_cons, List.map_append, effects_append]
    exact (turnsLeft_modify_ror e _).cons hd.1 (ih hd.2)

/-- Any number of rotations, as a multiplication of the word. -/
theorem word_turns (hd : es.Nodup) (k : Nat) (data : Data) :
    let last := Task.effects (List.replicate k (chain .rol .rol es)).flatten data
    (∀ a ∉ es, last.bytes a = data.bytes a) ∧ (last.word es = 0 ↔ data.word es = 0) ∧
      last.word es ≡ 2 ^ k * data.word es [MOD 2 * 256 ^ es.length - 1] := by
  induction k generalizing data with
  | zero => exact ⟨fun _ _ => rfl, Iff.rfl, by simp [Task.effects, Nat.ModEq.refl]⟩
  | succ k ih =>
    have hturn := turnsLeft_rol hd data
    obtain ⟨hbytes, hzero, hmod⟩ := ih (Task.effects (chain .rol .rol es) data)
    rw [List.replicate_succ, List.flatten_cons, effects_append]
    generalize Task.effects (chain .rol .rol es) data = next at *
    refine ⟨fun a ha => (hbytes a ha).trans (hturn.bytes a ha),
      hzero.trans hturn.word_eq_zero_iff, hmod.trans ?_⟩
    rw [pow_succ, mul_assoc, ← hturn.word_add]
    -- what the first turn adds to twice the word is a multiple of the modulus
    exact Nat.ModEq.mul_left _ (Nat.add_mul_mod_self_left _ _ _).symm

/-- The word comes back when each of its `8 * n + 1` bits has been at the bottom. -/
theorem word_cycle (hn : es ≠ []) (hd : es.Nodup) (data : Data) :
    (Task.effects (List.replicate (8 * es.length + 1) (chain .rol .rol es)).flatten data).word es =
      data.word es := by
  obtain ⟨-, hzero, hmod⟩ := word_turns hd (8 * es.length + 1) data
  generalize Task.effects _ data = last at *
  have hlen := List.length_pos_iff.2 hn
  have hlt := data.word_lt es
  have hlt' := last.word_lt es
  have hpow : 2 ^ (8 * es.length + 1) ≡ 1 [MOD 2 * 256 ^ es.length - 1] := by
    rw [pow_succ', pow_mul]
    exact ((Nat.modEq_iff_dvd' (by omega)).2 (dvd_refl _)).symm
  have hmod : last.word es ≡ data.word es [MOD 2 * 256 ^ es.length - 1] :=
    hmod.trans (by simpa using hpow.mul_right (data.word es))
  -- all bits clear and all bits set are the same modulo the modulus, but no turn mixes them up
  exact eq_of_modEq (by omega) (by omega) hzero hmod

end

/-! ## Code -/

namespace Cpu

variable {β : Type} [Bus β] (holds : β → Bytes → Prop)

/-- Code that has these things to do runs through, does `f` to the number at `es` and the carry, and
changes no byte elsewhere. -/
def Computes (es : List UInt16) (code : List Task) (f : Nat → Bool → Nat × Bool) : Prop :=
  Does holds code fun data data' => (∀ a ∉ es, data'.bytes a = data.bytes a) ∧
    (data'.number es, data'.carry) = f (data.number es) data.carry

end Cpu

open Cpu (Computes Does)

/-- What shifts and rotations do to the number at `es` and the carry. -/
structure Shifts {β : Type} [Bus β] (holds : β → Bytes → Prop) (es : List UInt16) : Prop where
  shiftLeft : Computes holds es (chain .asl .rol es) fun v _ =>
    (2 * v % 256 ^ es.length, v.testBit (8 * es.length - 1))
  rotateLeft : Computes holds es (chain .rol .rol es) fun v c =>
    ((2 * v + c.toNat) % 256 ^ es.length, v.testBit (8 * es.length - 1))
  shiftRight : Computes holds es (chain .lsr .ror es.reverse) fun v _ =>
    (v / 2, decide (v % 2 = 1))
  rotateRight : Computes holds es (chain .ror .ror es.reverse) fun v c =>
    ((v + c.toNat * 256 ^ es.length) / 2, decide (v % 2 = 1))
  leftRight : Computes holds es (chain .rol .rol es ++ chain .ror .ror es.reverse) Prod.mk
  rightLeft : Computes holds es (chain .ror .ror es.reverse ++ chain .rol .rol es) Prod.mk
  cycle : Computes holds es (List.replicate (8 * es.length + 1) (chain .rol .rol es)).flatten
    Prod.mk

theorem within_chain {plain : UInt16 → Prop} {es : List UInt16} (hp : ∀ e ∈ es, plain e)
    (first others : ModifyOp) : ∀ task ∈ chain first others es, task.Within plain := by
  cases es with
  | nil => simp [chain]
  | cons e rest => simpa [chain, Task.Within] using hp

/-- **Main theorem.** On any bus, shifts and rotations of a number at distinct addresses in plain
memory halve it and double it, the rotations undo each other, and a rotation by its length and one
more is none. -/
theorem shifts_of_plain {β : Type} [Bus β] {plain : UInt16 → Prop} {holds : β → Bytes → Prop}
    (hm : Bus.PlainMemory plain holds) {es : List UInt16} (hn : es ≠ []) (hd : es.Nodup)
    (hp : ∀ e ∈ es, plain e) : Shifts holds es := by
  have up := within_chain hp
  have hp' : ∀ e ∈ es.reverse, plain e := fun e he => hp e (List.mem_reverse.1 he)
  have down := within_chain hp'
  have hn' : es.reverse ≠ [] := mt List.reverse_eq_nil_iff.1 hn
  constructor
  case shiftLeft =>
    refine Does.of_effects hm (up _ _) fun data => ?_
    have h := turnsLeft_rol hd data.clearCarry
    rw [effects_chain_of_clear ModifyOp.apply_asl hn]
    exact ⟨h.bytes, h.left hn⟩
  case rotateLeft =>
    refine Does.of_effects hm (up _ _) fun data => ?_
    have h := turnsLeft_rol hd data
    exact ⟨h.bytes, h.left hn⟩
  case shiftRight =>
    refine Does.of_effects hm (down _ _) fun data => ?_
    have h := turnsLeft_ror hd data.clearCarry
    have hright := h.right hn
    have hclear : data.clearCarry.carry.toNat = 0 := rfl
    rw [hclear, Nat.zero_mul, Nat.add_zero] at hright
    rw [effects_chain_of_clear ModifyOp.apply_lsr hn']
    exact ⟨fun a ha => (h.bytes a ha).symm, hright⟩
  case rotateRight =>
    refine Does.of_effects hm (down _ _) fun data => ?_
    have h := turnsLeft_ror hd data
    exact ⟨fun a ha => (h.bytes a ha).symm, h.right hn⟩
  case leftRight =>
    refine Does.of_effects hm (List.forall_mem_append.2 ⟨up _ _, down _ _⟩) fun data => ?_
    rw [effects_append]
    have h := turnsLeft_rol hd data
    have h' := turnsLeft_ror hd (Task.effects (chain .rol .rol es) data)
    exact ⟨fun a ha => (h'.bytes a ha).symm.trans (h.bytes a ha), h.injective h'⟩
  case rightLeft =>
    refine Does.of_effects hm (List.forall_mem_append.2 ⟨down _ _, up _ _⟩) fun data => ?_
    rw [effects_append]
    have h := turnsLeft_ror hd data
    have h' := turnsLeft_rol hd (Task.effects (chain .ror .ror es.reverse) data)
    exact ⟨fun a ha => (h'.bytes a ha).trans (h.bytes a ha).symm,
      Data.eq_of_word_eq (h'.word.trans h.word.symm)⟩
  case cycle =>
    refine Does.of_effects hm (fun task htask => ?_) fun data => ?_
    · obtain ⟨code, hcode, htask⟩ := List.mem_flatten.1 htask
      exact up _ _ task (List.eq_of_mem_replicate hcode ▸ htask)
    · exact ⟨(word_turns hd _ data).1, Data.eq_of_word_eq (word_cycle hn hd data)⟩

/-! ## A shift over two pages -/

/-- `ASL $10` and `ROL $0120`, and the number that they shift. -/
def shiftCode : FlatBus :=
  ((({} : FlatBus).load 0 [0x06, 0x10, 0x2E, 0x20, 0x01]).poke 0x0010 0x81).poke 0x0120 0x80

/-- A processor that comes to that code. -/
def shifting : Cpu FlatBus := ⟨{}, 0, shiftCode⟩

theorem shifts_shiftCode :
    ∃ last, Cpu.run 2 shifting = .ok () last ∧ last.registers.p.carry = true ∧
      littleEndian [last.bus.peek 0x0010, last.bus.peek 0x0120] = 0x0102 := by
  have hd : ([0x0010, 0x0120] : List UInt16).Nodup := by decide
  have h := (shifts_of_plain (FlatBus.plainMemory fun _ => True) (List.cons_ne_nil _ _) hd
    fun _ _ => trivial).shiftLeft
  have hplans : Cpu.Plans (chain .asl .rol [0x0010, 0x0120]) shifting :=
    ⟨⟨.zeroPage, by decide +kernel, by decide +kernel⟩,
      ⟨.absolute, by decide +kernel, by decide +kernel⟩, trivial⟩
  obtain ⟨last, data, hrun, hs, -, heq⟩ :=
    h shifting ⟨shifting.registers, shiftCode.peek⟩ ⟨rfl, fun _ _ => rfl⟩ hplans
  have hv : Data.number ⟨shifting.registers, shiftCode.peek⟩ [0x0010, 0x0120] = 0x8081 := by
    decide +kernel
  rw [hv, Prod.mk.injEq] at heq
  refine ⟨last, hrun, hs.p_eq ▸ heq.2, ?_⟩
  rw [hs.bytes _ trivial, hs.bytes _ trivial]
  exact heq.1

end Nes
