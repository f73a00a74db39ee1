import Nes.Proofs.Cpu.Calls

/-!
# Courses of actions

What an action of the processor does on a bus shows in the accesses that it makes. Once the bytes
that it reads are known, nothing else about the bus matters: they settle which accesses follow,
what the action ends with and which registers it leaves. Such an outcome, with the accesses that
lead to it, is a course of the action. On a bus that refuses an access the course breaks off there.

Results:

* `Follows.bind`: a course of one action and then a course of the next.
* `follows_read`, `follows_write`, `follows_fetch`, `follows_push`, `follows_pull`: the actions
  from which instructions are put together.
-/

namespace Nes

/-! ## Refused accesses -/

namespace Access

/-- The same access, refused by the bus. -/
def refused : Access → Access
  | read address _ | readFailed address => .readFailed address
  | write address value | writeFailed address value => .writeFailed address value

/-- The bus has let the access through. -/
def succeeded : Access → Bool
  | read .. | write .. => true
  | readFailed .. | writeFailed .. => false

end Access

/-- Accesses that were to be complete in the given sense, up to one that was refused. -/
def BrokenOff (complete : List Access → Prop) (log : List Access) : Prop :=
  ∃ done access rest, complete (done ++ access :: rest) ∧ log = done ++ [access.refused]

section

variable {complete complete' : List Access → Prop} {log : List Access}

theorem BrokenOff.mono (h : BrokenOff complete log) (hc : ∀ log, complete log → complete' log) :
    BrokenOff complete' log := by
  obtain ⟨done, access, rest, hd, rfl⟩ := h
  exact ⟨done, access, rest, hc _ hd, rfl⟩

/-- What breaks off before the end of some accesses breaks off before the end of longer ones. -/
theorem BrokenOff.extend (h : BrokenOff complete log)
    (hc : ∀ log, complete log → ∃ more, complete' (log ++ more)) : BrokenOff complete' log := by
  obtain ⟨done, access, rest, hd, rfl⟩ := h
  obtain ⟨more, hm⟩ := hc _ hd
  refine ⟨done, access, rest ++ more, ?_, rfl⟩
  rwa [List.append_assoc, List.cons_append] at hm

theorem BrokenOff.prepend (h : BrokenOff complete log) (first : List Access)
    (hc : ∀ log, complete log → complete' (first ++ log)) :
    BrokenOff complete' (first ++ log) := by
  obtain ⟨done, access, rest, hd, rfl⟩ := h
  refine ⟨first ++ done, access, rest, ?_, (List.append_assoc ..).symm⟩
  rw [List.append_assoc]
  exact hc _ hd

theorem BrokenOff.ne_nil (h : BrokenOff complete log) : log ≠ [] := by
  obtain ⟨done, access, rest, -, rfl⟩ := h
  exact List.concat_ne_nil _ _

end

namespace Cpu

/-! ## Courses -/

/-- What an action may come to: the registers that it starts with, the accesses that it makes, the
value that it ends with and the registers that it leaves. -/
abbrev Course (α : Type) := Registers → List Access → α → Registers → Prop

section

variable {α δ : Type} (course : Course α) (later : α → Course δ)

/-- The accesses of a course. -/
def Course.Complete (r : Registers) (log : List Access) : Prop :=
  ∃ value after, course r log value after

/-- A course, and then one that depends on what the first ended with. -/
inductive Course.Then : Course δ
  | intro {r middle after : Registers} {first rest : List Access} {value : α} {result : δ}
      (h : course r first value middle) (hl : later value middle rest result after) :
      Course.Then r (first ++ rest) result after

end

section

variable {β : Type} {α δ : Type}

/-- The accesses that a watched processor has made. -/
def log (cpu : Cpu (Recorder β)) : List Access := cpu.bus.accesses.toList

/-- Where a course leaves a watched processor, or where it breaks off. -/
def Course.Ends (course : Course α) (cpu : Cpu (Recorder β)) :
    EStateM.Result BusError (Cpu (Recorder β)) α → Prop
  | .ok value next => ∃ log, next.log = cpu.log ++ log ∧
      course cpu.registers log value next.registers
  | .error _ next => ∃ log, next.log = cpu.log ++ log ∧
      BrokenOff (course.Complete cpu.registers) log

/-- The action takes one of the courses, of which there is one for all registers to start with. -/
structure Follows (x : Action (Recorder β) α) (course : Course α) : Prop where
  possible (r : Registers) : ∃ log, course.Complete r log
  ends (cpu : Cpu (Recorder β)) : course.Ends cpu (x cpu)

namespace Follows

variable {x : Action (Recorder β) α} {f : α → Action (Recorder β) δ} {course course' : Course α}
  {later : α → Course δ}

theorem mono (h : Follows x course)
    (hc : ∀ r log value after, course r log value after → course' r log value after) :
    Follows x course' := by
  have hcomplete : ∀ r log, course.Complete r log → course'.Complete r log :=
    fun r log ⟨value, after, h⟩ => ⟨value, after, hc r log value after h⟩
  constructor
  · intro r
    obtain ⟨log, hl⟩ := h.possible r
    exact ⟨log, hcomplete r log hl⟩
  · intro cpu
    have he := h.ends cpu
    cases hx : x cpu with
    | ok value next =>
      rw [hx] at he
      obtain ⟨log, hl, hv⟩ := he
      exact ⟨log, hl, hc _ _ _ _ hv⟩
    | error cause next =>
      rw [hx] at he
      obtain ⟨log, hl, hb⟩ := he
      exact ⟨log, hl, hb.mono (hcomplete cpu.registers)⟩

theorem bind (hx : Follows x course) (hf : ∀ value, Follows (f value) (later value)) :
    Follows (x >>= f) (course.Then later) := by
  have hmore : ∀ r log, course.Complete r log →
      ∃ more, (course.Then later).Complete r (log ++ more) := by
    rintro r log ⟨value, middle, h⟩
    obtain ⟨more, result, after, hl⟩ := (hf value).possible middle
    exact ⟨more, result, after, .intro h hl⟩
  constructor
  · intro r
    obtain ⟨log, h⟩ := hx.possible r
    obtain ⟨more, hm⟩ := hmore r log h
    exact ⟨_, hm⟩
  · intro cpu
    have he := hx.ends cpu
    show (course.Then later).Ends cpu (EStateM.bind x f cpu)
    unfold EStateM.bind
    cases hc : x cpu with
    | error cause next =>
      rw [hc] at he
      obtain ⟨log, hl, hb⟩ := he
      exact ⟨log, hl, hb.extend (hmore cpu.registers)⟩
    | ok value next =>
      rw [hc] at he
      obtain ⟨first, hfirst, hv⟩ := he
      have he' := (hf value).ends next
      dsimp only
      cases hc' : f value next with
      | ok result last =>
        rw [hc'] at he'
        obtain ⟨rest, hrest, hr⟩ := he'
        refine ⟨first ++ rest, ?_, .intro hv hr⟩
        rw [hrest, hfirst, List.append_assoc]
      | error cause last =>
        rw [hc'] at he'
        obtain ⟨rest, hrest, hb⟩ := he'
        refine ⟨first ++ rest, ?_, hb.prepend first ?_⟩
        · rw [hrest, hfirst, List.append_assoc]
        · rintro log ⟨result, after, hr⟩
          exact ⟨result, after, .intro hv hr⟩

theorem pure (value : α) :
    Follows (pure value : Action (Recorder β) α)
      fun r log v after => log = [] ∧ v = value ∧ after = r :=
  ⟨fun r => ⟨[], value, r, rfl, rfl, rfl⟩,
    fun _ => ⟨[], (List.append_nil _).symm, rfl, rfl, rfl⟩⟩

end Follows

/-! ## Registers -/

theorem follows_getRegisters :
    Follows (getRegisters : Action (Recorder β) Registers)
      fun r log v after => log = [] ∧ v = r ∧ after = r :=
  ⟨fun r => ⟨[], r, r, rfl, rfl, rfl⟩, fun _ => ⟨[], (List.append_nil _).symm, rfl, rfl, rfl⟩⟩

theorem follows_update (f : Registers → Registers) :
    Follows (update f : Action (Recorder β) Unit) fun r log _ after => log = [] ∧ after = f r :=
  ⟨fun r => ⟨[], (), f r, rfl, rfl⟩, fun _ => ⟨[], (List.append_nil _).symm, rfl, rfl⟩⟩

theorem follows_jump (address : UInt16) :
    Follows (jump address : Action (Recorder β) Unit)
      fun r log _ after => log = [] ∧ after = { r with pc := address } :=
  follows_update _

end

/-! ## Accesses -/

section

variable {β : Type} [Bus β]

theorem follows_read (address : UInt16) :
    Follows (read address : Action (Recorder β) UInt8)
      fun r log v after => log = [.read address v] ∧ after = r := by
  constructor
  · exact fun r => ⟨[.read address 0], 0, r, rfl, rfl⟩
  · rintro ⟨r, n, bus, log⟩
    rw [read_recorder]
    cases Bus.read address bus with
    | ok value bus => exact ⟨[.read address value], Array.toList_push .., rfl, rfl⟩
    | error cause bus =>
      refine ⟨[.readFailed address], Array.toList_push .., ?_⟩
      exact ⟨[], .read address 0, [], ⟨0, r, rfl, rfl⟩, rfl⟩

theorem follows_write (address : UInt16) (value : UInt8) :
    Follows (write address value : Action (Recorder β) Unit)
      fun r log _ after => log = [.write address value] ∧ after = r := by
  constructor
  · exact fun r => ⟨[.write address value], (), r, rfl, rfl⟩
  · rintro ⟨r, n, bus, log⟩
    rw [write_recorder]
    cases Bus.write address value bus with
    | ok _ bus => exact ⟨[.write address value], Array.toList_push .., rfl, rfl⟩
    | error cause bus =>
      refine ⟨[.writeFailed address value], Array.toList_push .., ?_⟩
      exact ⟨[], .write address value, [], ⟨(), r, rfl, rfl⟩, rfl⟩

theorem follows_readWord (address : UInt16) :
    Follows (readWord address : Action (Recorder β) UInt16) fun r log v after =>
      ∃ lo hi, log = [.read address lo, .read (address + 1) hi] ∧ v = word lo hi ∧ after = r := by
  refine .mono (.bind (follows_read address) fun lo => .bind (follows_read (address + 1)) fun hi =>
    .pure (word lo hi)) ?_
  rintro r _ _ _ ⟨⟨rfl, rfl⟩, ⟨⟨rfl, rfl⟩, ⟨rfl, rfl, rfl⟩⟩⟩
  exact ⟨_, _, rfl, rfl, rfl⟩

/-! ## The instruction stream -/

theorem follows_fetch :
    Follows (fetch : Action (Recorder β) UInt8) fun r log v after =>
      log = [.read r.pc v] ∧ after = { r with pc := r.pc + 1 } := by
  refine .mono (.bind follows_getRegisters fun r => .bind (follows_read r.pc) fun value =>
    .bind (follows_update _) fun _ => .pure value) ?_
  rintro r _ _ _ ⟨⟨rfl, rfl, rfl⟩, ⟨⟨rfl, rfl⟩, ⟨⟨rfl, rfl⟩, ⟨rfl, rfl, rfl⟩⟩⟩⟩
  exact ⟨rfl, rfl⟩

theorem follows_fetchWord :
    Follows (fetchWord : Action (Recorder β) UInt16) fun r log v after =>
      ∃ lo hi, log = [.read r.pc lo, .read (r.pc + 1) hi] ∧ v = word lo hi ∧
        after = { r with pc := r.pc + 2 } := by
  refine .mono (.bind follows_fetch fun lo => .bind follows_fetch fun hi => .pure (word lo hi)) ?_
  rintro r _ _ _ ⟨⟨rfl, rfl⟩, ⟨⟨rfl, rfl⟩, ⟨rfl, rfl, rfl⟩⟩⟩
  refine ⟨_, _, rfl, rfl, ?_⟩
  rw [UInt16.add_assoc]
  rfl

theorem follows_readPointer (pointer : UInt16) :
    Follows (readPointer pointer : Action (Recorder β) UInt16) fun r log v after =>
      ∃ lo hi, log = [.read pointer lo, .read (nextInPage pointer) hi] ∧ v = word lo hi ∧
        after = r := by
  refine .mono (.bind (follows_read pointer) fun lo =>
    .bind (follows_read (nextInPage pointer)) fun hi => .pure (word lo hi)) ?_
  rintro r _ _ _ ⟨⟨rfl, rfl⟩, ⟨⟨rfl, rfl⟩, ⟨rfl, rfl, rfl⟩⟩⟩
  exact ⟨_, _, rfl, rfl, rfl⟩

/-! ## The stack -/

theorem follows_push (value : UInt8) :
    Follows (push value : Action (Recorder β) Unit) fun r log _ after =>
      log = [.write (stackAddress r.sp) value] ∧ after = { r with sp := r.sp - 1 } := by
  refine .mono (.bind follows_getRegisters fun r =>
    .bind (follows_write (stackAddress r.sp) value) fun _ => follows_update _) ?_
  rintro r _ _ _ ⟨⟨rfl, rfl, rfl⟩, ⟨⟨rfl, rfl⟩, ⟨rfl, rfl⟩⟩⟩
  exact ⟨rfl, rfl⟩

theorem follows_pull :
    Follows (pull : Action (Recorder β) UInt8) fun r log v after =>
      log = [.read (stackAddress (r.sp + 1)) v] ∧ after = { r with sp := r.sp + 1 } := by
  refine .mono (.bind (follows_update _) fun _ => .bind follows_getRegisters fun r =>
    follows_read (stackAddress r.sp)) ?_
  rintro r _ _ _ ⟨⟨rfl, rfl⟩, ⟨⟨rfl, rfl, rfl⟩, ⟨rfl, rfl⟩⟩⟩
  exact ⟨rfl, rfl⟩

theorem follows_pushWord (w : UInt16) :
    Follows (pushWord w : Action (Recorder β) Unit) fun r log _ after =>
      log = [.write (stackAddress r.sp) (highByte w),
          .write (stackAddress (r.sp - 1)) (lowByte w)] ∧
        after = { r with sp := r.sp - 2 } := by
  refine .mono (.bind (follows_push (highByte w)) fun _ => follows_push (lowByte w)) ?_
  rintro r _ _ _ ⟨⟨rfl, rfl⟩, ⟨rfl, rfl⟩⟩
  refine ⟨rfl, ?_⟩
  have hsp : r.sp - 1 - 1 = r.sp - 2 := by grind
  rw [hsp]

theorem follows_pullWord :
    Follows (pullWord : Action (Recorder β) UInt16) fun r log v after =>
      ∃ lo hi, log = [.read (stackAddress (r.sp + 1)) lo, .read (stackAddress (r.sp + 2)) hi] ∧
        v = word lo hi ∧ after = { r with sp := r.sp + 2 } := by
  refine .mono (.bind follows_pull fun lo => .bind follows_pull fun hi => .pure (word lo hi)) ?_
  rintro r _ _ _ ⟨⟨rfl, rfl⟩, ⟨⟨rfl, rfl⟩, ⟨rfl, rfl, rfl⟩⟩⟩
  have hsp : r.sp + 1 + 1 = r.sp + 2 := UInt8.add_assoc r.sp 1 1
  refine ⟨_, _, ?_, rfl, ?_⟩
  · rw [← hsp]
    rfl
  · rw [← hsp]

end

end Cpu

end Nes
