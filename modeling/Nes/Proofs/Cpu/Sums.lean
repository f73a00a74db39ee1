import Nes.Proofs.Cpu.Numbers
import Nes.Proofs.Cpu.Signs
import Nes.Proofs.Cpu.Tasks

/-!
# Sums of several bytes

A number of several bytes is added to another byte by byte, low bytes first, with a load and an
addition for each. The carry goes from one addition to the next because no load touches it. What
holds of one byte then holds of a number of any length: the bytes and the last carry are the exact
sum, the last overflow flag tells that it does not fit in two's complement, and the decimal flag has
no say. A difference is the sum with the complement.

Results:

* `Registers.isSum_addWithCarry`: one byte.
* `IsSum.cons`: one byte more.
* `IsSum.isDifference`: a difference as the sum with a complement.
* `Cpu.sum_and_difference`: **what additions and what subtractions in a row come to.**
-/

namespace Nes

/-- The bytes `r` and the flags `p` are the sum of `a`, `m` and a carry `c`. -/
structure IsSum (a m r : List UInt8) (c : Bool) (p : Status) : Prop where
  value : littleEndian r + 256 ^ a.length * p.carry.toNat =
    littleEndian a + littleEndian m + c.toNat
  overflow : p.overflow = true ↔
    ¬ FitsSigned a.length (twosComplement a + twosComplement m + c.toNat)
  negative : p.negative = true ↔ twosComplement r < 0

/-- The bytes `r` and the flags `p` are the difference of `a` and `m`, with one borrowed from it if
the carry `c` is clear. -/
structure IsDifference (a m r : List UInt8) (c : Bool) (p : Status) : Prop where
  value : (littleEndian r : Int) =
    (littleEndian a - littleEndian m - (1 - c.toNat)) % 256 ^ a.length
  carry : p.carry = true ↔ littleEndian m + (1 - c.toNat) ≤ littleEndian a
  overflow : p.overflow = true ↔
    ¬ FitsSigned a.length (twosComplement a - twosComplement m - (1 - c.toNat))
  negative : (p.negative ^^ p.overflow) = true ↔
    twosComplement a - twosComplement m - (1 - c.toNat) < 0

/-! ## One byte -/

theorem signBit_eq (v : UInt8) : (v &&& 0x80 != 0) = decide (128 ≤ v.toNat) := by
  have hv := v.toNat_lt
  have hbit : (v &&& 0x80 != 0) = v.toNat.testBit 7 := Status.bit_eq_testBit v 7
  rw [hbit, Nat.testBit_eq_decide_div_mod_eq, decide_eq_decide]
  omega

theorem signBit_xor_eq_zero_iff (v w : UInt8) :
    (v ^^^ w) &&& 0x80 = 0 ↔ (128 ≤ v.toNat ↔ 128 ≤ w.toNat) := by
  have hxor : (v ^^^ w).toNat.testBit 7 = (v.toNat.testBit 7 ^^ w.toNat.testBit 7) := by
    rw [UInt8.toNat_xor, Nat.testBit_xor]
  have hbit (v : UInt8) : (v &&& 0x80 != 0) = v.toNat.testBit 7 := Status.bit_eq_testBit v 7
  rw [← hbit, ← hbit, ← hbit, signBit_eq v, signBit_eq w] at hxor
  rw [← not_iff_not, ← ne_eq, ← bne_iff_ne, hxor, bne_iff_ne, ne_eq, decide_eq_decide]

theorem twosComplement_singleton (v : UInt8) :
    twosComplement [v] = if v.toNat < 128 then (v.toNat : Int) else v.toNat - 256 := by
  have hv : littleEndian [v] = v.toNat := rfl
  rw [twosComplement_eq, hv, List.length_singleton, pow_one]
  split <;> split <;> omega

namespace Registers

variable (r : Registers) (v : UInt8)

/-- The overflow flag tells that the operands have the same sign and the result has the other. -/
theorem overflow_addWithCarry :
    (r.addWithCarry v).p.overflow = true ↔ (128 ≤ r.a.toNat ↔ 128 ≤ v.toNat) ∧
      ¬(128 ≤ r.a.toNat ↔ 128 ≤ (r.addWithCarry v).a.toNat) := by
  have hv : (r.addWithCarry v).p.overflow = ((r.a ^^^ v) &&& 0x80 == 0 &&
      (r.a ^^^ (r.addWithCarry v).a) &&& 0x80 != 0) := rfl
  rw [hv, Bool.and_eq_true, beq_iff_eq, bne_iff_ne, ne_eq, signBit_xor_eq_zero_iff,
    signBit_xor_eq_zero_iff]

theorem isSum_addWithCarry :
    IsSum [r.a] [v] [(r.addWithCarry v).a] r.p.carry (r.addWithCarry v).p := by
  have hsum := r.addWithCarry_toNat v
  have ha := r.a.toNat_lt
  have hv := v.toNat_lt
  have hr := (r.addWithCarry v).a.toNat_lt
  refine ⟨?_, ?_, ?_⟩
  · simp only [littleEndian_cons, littleEndian_nil, List.length_singleton]
    omega
  · have hhalf : (2 : Int) ^ (8 * 1 - 1) = 128 := rfl
    have hc := r.p.carry.toNat_le
    have hc' := (r.addWithCarry v).p.carry.toNat_le
    rw [overflow_addWithCarry, List.length_singleton, FitsSigned, hhalf,
      twosComplement_singleton, twosComplement_singleton]
    split <;> split <;> omega
  · have hn : (r.addWithCarry v).p.negative = ((r.addWithCarry v).a &&& 0x80 != 0) := rfl
    rw [hn, signBit_eq, decide_eq_true_iff, twosComplement_singleton]
    split <;> omega

end Registers

/-! ## One byte more -/

namespace IsSum

variable {a m r : List UInt8} {p : Status}

/-- A low byte joins numbers whose sum is known, and its own sum goes into theirs by a carry. -/
theorem cons {x y z : UInt8} {c c' : Bool} (ha : a ≠ []) (hm : m.length = a.length)
    (hr : r.length = a.length) (h : IsSum a m r c' p)
    (hz : z.toNat + 256 * c'.toNat = x.toNat + y.toNat + c.toNat) :
    IsSum (x :: a) (y :: m) (z :: r) c p := by
  have hn := List.length_pos_iff.2 ha
  have hm0 : m ≠ [] := List.length_pos_iff.1 (hm ▸ hn)
  have hr0 : r ≠ [] := List.length_pos_iff.1 (hr ▸ hn)
  have hb := z.toNat_lt
  refine ⟨?_, ?_, ?_⟩
  · have hv := h.value
    rw [littleEndian_cons, littleEndian_cons, littleEndian_cons, List.length_cons, pow_succ,
      mul_right_comm]
    omega
  · have hs : twosComplement (x :: a) + twosComplement (y :: m) + c.toNat =
        z.toNat + 256 * (twosComplement a + twosComplement m + c'.toNat) := by
      rw [twosComplement_cons x ha, twosComplement_cons y hm0]
      omega
    rw [h.overflow, hs, List.length_cons, fitsSigned_succ hn.ne']
  · rw [h.negative, twosComplement_cons z hr0]
    omega

/-- The flags of a sum tell together whether the exact sum is negative: the sign of the bytes is
right unless the exact sum does not fit. -/
theorem exact_neg_iff {c : Bool} (ha : a ≠ []) (hm : m.length = a.length)
    (hr : r.length = a.length) (h : IsSum a m r c p) :
    (p.negative ^^ p.overflow) = true ↔ twosComplement a + twosComplement m + c.toNat < 0 := by
  have hn := List.length_pos_iff.2 ha
  have hvalue := h.value
  have ha_lt := littleEndian_lt a
  have hm_lt := littleEndian_lt m
  have hr_lt := littleEndian_lt r
  have hc := c.toNat_le
  rw [bne_iff_ne, ne_eq, Bool.eq_iff_iff, h.negative, h.overflow,
    fitsSigned_iff hn.ne', twosComplement_eq a, twosComplement_eq m, twosComplement_eq r]
  rw [hm] at hm_lt ⊢
  rw [hr] at hr_lt ⊢
  -- that the modulus is even matters
  obtain ⟨half, hhalf⟩ : ∃ half, 256 ^ a.length = 2 * half := ⟨_, two_mul_half hn.ne'⟩
  rw [hhalf] at hvalue ha_lt hm_lt hr_lt ⊢
  cases hp : p.carry with
  | false =>
    rw [hp, Bool.toNat_false, Nat.mul_zero] at hvalue
    split <;> split <;> split <;> omega
  | true =>
    rw [hp, Bool.toNat_true, Nat.mul_one] at hvalue
    split <;> split <;> split <;> omega

/-- The sum of a number and a complement is a difference. -/
theorem isDifference {c : Bool} (ha : a ≠ []) (hm : m.length = a.length) (hr : r.length = a.length)
    (h : IsSum a (m.map (~~~ ·)) r c p) : IsDifference a m r c p := by
  have hn := List.length_pos_iff.2 ha
  have hm0 : m ≠ [] := List.length_pos_iff.1 (hm ▸ hn)
  have hc := c.toNat_le
  have hr_lt := littleEndian_lt r
  have hvalue := h.value
  have hcomplement := littleEndian_complement m
  have hexact : twosComplement a + twosComplement (m.map (~~~ ·)) + c.toNat =
      twosComplement a - twosComplement m - (1 - c.toNat) := by
    rw [twosComplement_complement hm0]
    omega
  rw [hr] at hr_lt
  rw [hm] at hcomplement
  refine ⟨?_, ?_, hexact ▸ h.overflow, hexact ▸ h.exact_neg_iff ha (by simpa using hm) hr⟩
  · have hs : (littleEndian a - littleEndian m - (1 - c.toNat) : Int) =
        littleEndian r + (256 ^ a.length : Nat) * (p.carry.toNat - 1 : Int) := by
      rw [mul_sub, mul_one]
      omega
    have hmod : ((256 ^ a.length : Nat) : Int) = 256 ^ a.length := by push_cast; rfl
    rw [hs, ← hmod, Int.add_mul_emod_self_left, Int.emod_eq_of_lt (by omega) (by omega)]
  · cases hp : p.carry with
    | false =>
      rw [hp, Bool.toNat_false, Nat.mul_zero] at hvalue
      simp only [Bool.false_eq_true, false_iff]
      omega
    | true =>
      rw [hp, Bool.toNat_true, Nat.mul_one] at hvalue
      simp only [true_iff]
      omega

end IsSum

/-! ## Code -/

/-- Load a byte of one number and combine it with a byte of another, column by column. -/
def columnCode (op : ReadOp) (columns : List (UInt8 × UInt8)) : List Task :=
  columns.flatMap fun (a, m) => [.use .lda a, .use op m]

namespace Cpu

variable {β : Type} [Bus β]

/-- The accumulator after every second one of `2 * n` steps. -/
def collect : Nat → Cpu β → List UInt8
  | 0, _ => []
  | n + 1, cpu => (final (run 2 cpu)).registers.a :: collect n (final (run 2 cpu))

theorem length_collect (n : Nat) (cpu : Cpu β) : (cpu.collect n).length = n := by
  induction n generalizing cpu with
  | zero => rfl
  | succ n ih => rw [collect, List.length_cons, ih]

theorem run_column {op : ReadOp} {a m : UInt8} {rest : List Task} {cpu : Cpu β}
    (h : Plans (.use .lda a :: .use op m :: rest) cpu) :
    ∃ next, run 2 cpu = .ok () next ∧ Plans rest next ∧
      next.registers.a = (op.apply m (cpu.registers.setA a)).a ∧
      next.registers.p = (op.apply m (cpu.registers.setA a)).p := by
  -- no byte of the bus is looked at
  have within (op : ReadOp) (v : UInt8) : (Task.use op v).Within fun _ => False := trivial
  have hshows : cpu.Shows (fun _ _ => True) ⟨cpu.registers, fun _ => 0⟩ := ⟨rfl, trivial⟩
  obtain ⟨hload, hop, hrest⟩ := h
  obtain ⟨loaded, hs, hd⟩ := step_of_next (Bus.plainMemory_none β) (within .lda a) hshows hload
  rw [hs] at hop hrest
  have hrest : Plans rest (final (step loaded)) := hrest
  obtain ⟨next, hs', hd'⟩ := step_of_next (Bus.plainMemory_none β) (within op m) hd hop
  rw [hs'] at hrest
  refine ⟨next, ?_, hrest, hd'.a_eq, hd'.p_eq⟩
  rw [run_succ_of_step hs, run_succ_of_step hs']
  rfl

/-- Additions in a row, each of a byte that `g` makes of the operand. -/
theorem isSum_of_plans {op : ReadOp} {g : UInt8 → UInt8}
    (hop : ∀ v r, op.apply v r = r.addWithCarry (g v)) {columns : List (UInt8 × UInt8)}
    (hc : columns ≠ []) {cpu : Cpu β} (h : Plans (columnCode op columns) cpu) :
    ∃ last, run (2 * columns.length) cpu = .ok () last ∧
      IsSum (columns.map Prod.fst) ((columns.map Prod.snd).map g) (cpu.collect columns.length)
        cpu.registers.p.carry last.registers.p := by
  induction columns generalizing cpu with
  | nil => exact absurd rfl hc
  | cons column rest ih =>
    obtain ⟨a, m⟩ := column
    obtain ⟨next, hrun, hrest, ha, hp⟩ := run_column h
    rw [hop] at ha hp
    have hcollect : cpu.collect (rest.length + 1) =
        next.registers.a :: next.collect rest.length := by
      rw [collect, hrun]
      rfl
    rw [List.length_cons, hcollect]
    cases rest with
    | nil =>
      refine ⟨next, hrun, ?_⟩
      rw [ha, hp]
      exact (cpu.registers.setA a).isSum_addWithCarry (g m)
    | cons second others =>
      obtain ⟨last, hrun', hsum⟩ := ih (List.cons_ne_nil second others) hrest
      refine ⟨last, ?_, ?_⟩
      · rw [Nat.mul_succ, Nat.add_comm, run_add_of_run hrun]
        exact hrun'
      · have hz := (cpu.registers.setA a).addWithCarry_toNat (g m)
        rw [← ha, ← hp] at hz
        exact hsum.cons (by simp) (by simp) (by rw [length_collect]; simp) hz

/-- **Main theorem.** Wherever the bytes come from, loads and additions in a row add the numbers
that the bytes stand for, and loads and subtractions take one from the other. -/
theorem sum_and_difference (cpu : Cpu β) {columns : List (UInt8 × UInt8)} (hc : columns ≠ []) :
    (Plans (columnCode .adc columns) cpu → ∃ last, run (2 * columns.length) cpu = .ok () last ∧
      IsSum (columns.map Prod.fst) (columns.map Prod.snd) (cpu.collect columns.length)
        cpu.registers.p.carry last.registers.p) ∧
    (Plans (columnCode .sbc columns) cpu → ∃ last, run (2 * columns.length) cpu = .ok () last ∧
      IsDifference (columns.map Prod.fst) (columns.map Prod.snd) (cpu.collect columns.length)
        cpu.registers.p.carry last.registers.p) := by
  refine ⟨fun h => ?_, fun h => ?_⟩
  · obtain ⟨last, hrun, hsum⟩ := isSum_of_plans (g := id) (fun _ _ => rfl) hc h
    rw [List.map_id] at hsum
    exact ⟨last, hrun, hsum⟩
  · obtain ⟨last, hrun, hsum⟩ := isSum_of_plans (g := (~~~ ·)) (fun _ _ => rfl) hc h
    exact ⟨last, hrun, hsum.isDifference (by simpa using hc) (by simp)
      (by rw [length_collect]; simp)⟩

/-- `$7FFF + $0001`, and behind it `$8000 - $0001`. -/
def sumCode : FlatBus :=
  ({} : FlatBus).load 0 [0xA9, 0xFF, 0x69, 0x01, 0xA9, 0x7F, 0x69, 0x00,
    0xA9, 0x00, 0xE9, 0x01, 0xA9, 0x80, 0xE9, 0x00]

/-- A processor that comes to some of that code, in decimal mode. -/
def summingAt (pc : UInt16) (carry : Bool) : Cpu FlatBus :=
  ⟨{ pc, p := { carry, decimal := true } }, 0, sumCode⟩

theorem sum_and_difference_sumCode :
    (∃ last, run 4 (summingAt 0x0000 false) = .ok () last ∧
      (summingAt 0x0000 false).collect 2 = [0x00, 0x80] ∧ last.registers.p.overflow = true) ∧
    ∃ last, run 4 (summingAt 0x0008 true) = .ok () last ∧
      (summingAt 0x0008 true).collect 2 = [0xFF, 0x7F] ∧ last.registers.p.overflow = true := by
  have hadd : Plans (columnCode .adc [(0xFF, 0x01), (0x7F, 0x00)]) (summingAt 0x0000 false) :=
    ⟨⟨.immediate, by decide +kernel, by decide +kernel⟩,
      ⟨.immediate, by decide +kernel, by decide +kernel⟩,
      ⟨.immediate, by decide +kernel, by decide +kernel⟩,
      ⟨.immediate, by decide +kernel, by decide +kernel⟩, trivial⟩
  have hsub : Plans (columnCode .sbc [(0x00, 0x01), (0x80, 0x00)]) (summingAt 0x0008 true) :=
    ⟨⟨.immediate, by decide +kernel, by decide +kernel⟩,
      ⟨.immediate, by decide +kernel, by decide +kernel⟩,
      ⟨.immediate, by decide +kernel, by decide +kernel⟩,
      ⟨.immediate, by decide +kernel, by decide +kernel⟩, trivial⟩
  obtain ⟨last, hrun, hsum⟩ := (sum_and_difference (summingAt 0x0000 false) (by simp)).1 hadd
  obtain ⟨last', hrun', hdiff⟩ := (sum_and_difference (summingAt 0x0008 true) (by simp)).2 hsub
  exact ⟨⟨last, hrun, by decide +kernel, hsum.overflow.2 (by decide)⟩,
    last', hrun', by decide +kernel, hdiff.overflow.2 (by decide)⟩

end Cpu

end Nes
