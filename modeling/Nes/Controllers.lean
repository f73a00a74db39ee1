/-!
# Controllers

Two pads share one strobe line. While it is held every read gives the first button; once it is
released each read gives the next of the eight buttons, and after the last the first again. Reads
look at the buttons as they are held at that moment.

Results:

* `read_pad_other`, `press_pad_other`: what happens at one socket changes nothing at the other.
-/

namespace Nes

/-- The buttons of a pad. -/
inductive Button where
  | a | b | select | start | up | down | left | right
deriving DecidableEq

namespace Button

/-- The buttons in the order in which a pad gives them. -/
def all : Vector Button 8 := #v[a, b, select, start, up, down, left, right]

/-- The place of a button in that order. -/
def line : Button → Fin 8
  | a => 0 | b => 1 | select => 2 | start => 3 | up => 4 | down => 5 | left => 6 | right => 7

/-- The button at a place, if there is one (`from_line`). -/
def ofLine? (n : Nat) : Option Button := all[n]?

/-- The name of a button. -/
def name : Button → String
  | a => "A" | b => "B" | select => "Select" | start => "Start"
  | up => "Up" | down => "Down" | left => "Left" | right => "Right"

theorem ofLine?_line (button : Button) : ofLine? button.line = some button := by
  cases button <;> rfl

end Button

/-- The two places where a pad is plugged in. -/
inductive Socket where
  | one | two
deriving DecidableEq

/-- One pad: its buttons, and the number of reads since the strobe was last held. -/
structure Pad where
  buttons : Vector Bool 8 := Vector.replicate 8 false
  reads : UInt64 := 0
deriving DecidableEq

/-- Both pads and their strobe line. -/
structure Controllers where
  one : Pad := {}
  two : Pad := {}
  /-- The strobe is held, so that reads stay at the first button. -/
  held : Bool := true
deriving DecidableEq

namespace Controllers

/-- The pad at a socket. -/
def pad (c : Controllers) : Socket → Pad
  | .one => c.one
  | .two => c.two

/-- Put a pad at a socket. -/
def setPad (c : Controllers) (socket : Socket) (pad : Pad) : Controllers :=
  match socket with
  | .one => { c with one := pad }
  | .two => { c with two := pad }

/-- Press or release a button (`set_button`). -/
def press (c : Controllers) (socket : Socket) (button : Button) (pressed : Bool) : Controllers :=
  let pad := c.pad socket
  c.setPad socket { pad with buttons := pad.buttons.set button.line pressed }

/-- The button is held down (`is_pressed`). -/
def isPressed (c : Controllers) (socket : Socket) (button : Button) : Bool :=
  (c.pad socket).buttons[button.line]

/-- Write to the strobe line (`write_strobe`): bit 0 holds or releases it. Holding it starts both
pads over. -/
def strobe (c : Controllers) (value : UInt8) : Controllers :=
  if value &&& 0x01 != 0 then
    { one := { c.one with reads := 0 }, two := { c.two with reads := 0 }, held := true }
  else { c with held := false }

/-- The place of the button that the next read of a socket gives. -/
def nextLine (c : Controllers) (socket : Socket) : Fin 8 :=
  if c.held then 0 else Fin.ofNat 8 (c.pad socket).reads.toNat

/-- Read the next button of a socket. The read counts even while the strobe is held. -/
def read (c : Controllers) (socket : Socket) : UInt8 × Controllers :=
  let pad := c.pad socket
  let bit := pad.buttons[c.nextLine socket]
  (bit.toUInt8, c.setPad socket { pad with reads := pad.reads + 1 })

/-- Start both pads over with the strobe held. Buttons stay as they are. -/
def reset (c : Controllers) : Controllers :=
  { one := { c.one with reads := 0 }, two := { c.two with reads := 0 }, held := true }

/-! ## The sockets are apart -/

theorem pad_setPad_self (c : Controllers) (socket : Socket) (pad : Pad) :
    (c.setPad socket pad).pad socket = pad := by
  cases socket <;> rfl

theorem pad_setPad_of_ne (c : Controllers) {socket other : Socket} (h : socket ≠ other)
    (pad : Pad) : (c.setPad socket pad).pad other = c.pad other := by
  cases socket <;> cases other
  · exact absurd rfl h
  · rfl
  · rfl
  · exact absurd rfl h

theorem read_pad_other (c : Controllers) {socket other : Socket} (h : socket ≠ other) :
    (c.read socket).2.pad other = c.pad other :=
  pad_setPad_of_ne c h _

theorem press_pad_other (c : Controllers) {socket other : Socket} (h : socket ≠ other)
    (button : Button) (pressed : Bool) : (c.press socket button pressed).pad other = c.pad other :=
  pad_setPad_of_ne c h _

end Controllers

end Nes
