import Nes.Controllers
import Nes.Proofs.Bare.Arrays

/-!
# Bare pads

Both pads in one array of sixteen buttons, their numbers of reads in an array of two, and a mask
that is applied to a number of reads to find the button.

Results:

* `bare_press`, `bare_strobe`, `bare_read`, `bare_reset`: the pads are never read or written out of
  bounds, and they do what the controllers do.
-/

namespace Nes

namespace Bare

/-- Both pads. -/
structure Pads where
  states : Array Bool
  indexes : Array UInt64
  /-- 0 while the strobe is held and 7 after it has been released. -/
  mask : UInt64

/-- The number of a socket. -/
def socketIndex : Socket → Nat
  | .one => 0
  | .two => 1

namespace Pads

/-- The pads after power-on. -/
def initial : Pads where
  states := Array.replicate 16 false
  indexes := #[0, 0]
  mask := 0

/-- Press or release a button. -/
def press (pads : Pads) (socket : Socket) (button : Button) (pressed : Bool) : Option Pads := do
  let states ← put pads.states (socketIndex socket * 8 + button.line) pressed
  return { pads with states }

/-- Write to the strobe line. -/
def strobe (pads : Pads) (value : UInt8) : Pads :=
  if value &&& 0x01 != 0 then { pads with mask := 0, indexes := #[0, 0] }
  else { pads with mask := 7 }

/-- Read the next button of a socket. -/
def read (pads : Pads) (socket : Socket) : Option (UInt8 × Pads) := do
  let index ← pads.indexes[socketIndex socket]?
  let line := index &&& pads.mask
  let indexes ← put pads.indexes (socketIndex socket) (index + 1)
  let pressed ← pads.states[socketIndex socket * 8 + line.toNat]?
  return (pressed.toUInt8, { pads with indexes })

/-- Start both pads over with the strobe held. -/
def reset (pads : Pads) : Pads := { pads with indexes := #[0, 0], mask := 0 }

end Pads

end Bare

namespace Controllers

open Bare (socketIndex put put_append_left put_append_right getElem?_toArray)

/-- The buttons of both pads, eight by eight. -/
def states (c : Controllers) : Array Bool := c.one.buttons.toArray ++ c.two.buttons.toArray

/-- The numbers of reads of both pads. -/
def indexes (c : Controllers) : Array UInt64 := #[c.one.reads, c.two.reads]

/-- The controllers as bare pads. -/
def bare (c : Controllers) : Bare.Pads where
  states := c.states
  indexes := c.indexes
  mask := if c.held then 0 else 7

theorem bare_reset (c : Controllers) : c.reset.bare = c.bare.reset := rfl

theorem bare_strobe (c : Controllers) (value : UInt8) :
    (c.strobe value).bare = c.bare.strobe value := by
  unfold strobe Bare.Pads.strobe
  split <;> rfl

/-! ## One button -/

theorem getElem?_states (c : Controllers) (socket : Socket) (line : Fin 8) :
    c.states[socketIndex socket * 8 + line.val]? = some (c.pad socket).buttons[line] := by
  have h := line.isLt
  have hs : c.one.buttons.toArray.size = 8 := Vector.size_toArray _
  cases socket with
  | one =>
    show (c.one.buttons.toArray ++ c.two.buttons.toArray)[0 + line.val]? = _
    rw [Nat.zero_add, Array.getElem?_append_left (by omega), getElem?_toArray _ h]
    rfl
  | two =>
    show (c.one.buttons.toArray ++ c.two.buttons.toArray)[8 + line.val]? = _
    rw [Array.getElem?_append_right (by omega), hs, Nat.add_sub_cancel_left, getElem?_toArray _ h]
    rfl

theorem put_states (c : Controllers) (socket : Socket) (button : Button) (pressed : Bool) :
    put c.states (socketIndex socket * 8 + button.line) pressed =
      some (c.press socket button pressed).states := by
  have h := button.line.isLt
  have h₁ : c.one.buttons.toArray.size = 8 := Vector.size_toArray _
  have h₂ : c.two.buttons.toArray.size = 8 := Vector.size_toArray _
  cases socket with
  | one =>
    show put (c.one.buttons.toArray ++ c.two.buttons.toArray) (0 + button.line) pressed = _
    rw [Nat.zero_add, put_append_left _ _ (by omega), ← Vector.toArray_set h]
    rfl
  | two =>
    have hp := put_append_right c.one.buttons.toArray c.two.buttons.toArray
      (Nat.lt_of_lt_of_eq h h₂.symm) pressed
    rw [h₁, ← Vector.toArray_set h] at hp
    exact hp

theorem bare_press (c : Controllers) (socket : Socket) (button : Button) (pressed : Bool) :
    c.bare.press socket button pressed = some (c.press socket button pressed).bare := by
  show (put c.states (socketIndex socket * 8 + button.line) pressed).bind _ = _
  rw [put_states]
  cases socket <;> rfl

theorem line_eq (c : Controllers) (socket : Socket) :
    ((c.pad socket).reads &&& c.bare.mask).toNat = (c.nextLine socket).val := by
  unfold bare nextLine
  cases c.held with
  | true =>
    rw [if_pos rfl, if_pos rfl, UInt64.and_zero]
    rfl
  | false =>
    rw [if_neg Bool.false_ne_true, if_neg Bool.false_ne_true, UInt64.toNat_and]
    exact Nat.and_two_pow_sub_one_eq_mod _ 3

theorem bare_read (c : Controllers) (socket : Socket) :
    c.bare.read socket = some ((c.read socket).1, (c.read socket).2.bare) := by
  have hi : c.bare.indexes[socketIndex socket]? = some (c.pad socket).reads := by
    cases socket <;> rfl
  have hp : put c.bare.indexes (socketIndex socket) ((c.pad socket).reads + 1) =
      some (c.read socket).2.indexes := by
    cases socket <;> rfl
  have hl := getElem?_states c socket (c.nextLine socket)
  show (c.bare.indexes[socketIndex socket]?).bind _ = _
  rw [hi, Option.bind_some]
  show (put c.bare.indexes (socketIndex socket) ((c.pad socket).reads + 1)).bind _ = _
  rw [hp, Option.bind_some]
  show (c.states[_]?).bind _ = _
  rw [line_eq, hl]
  cases socket <;> rfl

end Controllers

end Nes
