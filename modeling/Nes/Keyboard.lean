import Nes.Controllers

/-!
# Keys for the first pad

Eight letter keys stand for the buttons of the first pad, in the order of the buttons.
-/

namespace Nes.Keyboard

/-- A key, by its name, and the button that it stands for. -/
structure Binding where
  key : String
  button : Button

/-- The bindings, in the order of the buttons. -/
def bindings : List Binding :=
  [⟨"J", .a⟩, ⟨"K", .b⟩, ⟨"U", .select⟩, ⟨"I", .start⟩,
    ⟨"W", .up⟩, ⟨"S", .down⟩, ⟨"A", .left⟩, ⟨"D", .right⟩]

/-- The short text for a button (`button_label`). -/
def label : Button → String
  | .select => "Sel"
  | button => button.name

/-- Which of the bound keys are down (`button_states`). -/
def states (isDown : String → Bool) : List Bool := bindings.map fun binding => isDown binding.key

end Nes.Keyboard
