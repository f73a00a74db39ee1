import Nes.Controllers

/-!
# The strobe line and the order of reads

The pads are followed through a list of events. While the strobe is held every read gives the first
button, but it counts all the same, and releasing the strobe does not start the count over. So the
reads after a release begin as many buttons further on as there were reads since the strobe was
last written to hold.

Results:

* `bits_of_held`: every read while the strobe is held gives the first button.
* `bits_of_released`: the reads after the release give the buttons in order, round and round, from
  the place that the count has reached.
* `bits_after_strobe`: both together for a whole strobe, and when the reads after the release begin
  with the first button.
* `late_start_after_read`: one read while the strobe is held makes the reads after it start with the
  second button.
-/

namespace Nes.Controllers

/-! ## Events -/

/-- Something that happens to the pads. -/
inductive Event where
  | press (socket : Socket) (button : Button) (pressed : Bool)
  | strobe (value : UInt8)
  | read (socket : Socket)
  | reset
deriving DecidableEq

namespace Event

/-- The pads after an event. -/
def apply : Event → Controllers → Controllers
  | press socket button pressed, c => c.press socket button pressed
  | strobe value, c => c.strobe value
  | read socket, c => (c.read socket).2
  | reset, c => c.reset

/-- The event is a read of one of the sockets. -/
def isRead : Event → Bool
  | read _ => true
  | press .. | strobe _ | reset => false

/-- The event leaves a held strobe held and the buttons alone: a read, or a write that holds the
    strobe again. -/
def keepsHeld : Event → Bool
  | read _ => true
  | strobe value => value &&& 0x01 != 0
  | press .. | reset => false

/-- The number of reads of `socket` since the strobe was last written, one event later. -/
def countReads (socket : Socket) (n : Nat) : Event → Nat
  | read other => if other = socket then n + 1 else n
  | strobe _ => 0
  | press .. | reset => n

end Event

/-- The pads after some events. -/
def after (events : List Event) (c : Controllers) : Controllers :=
  events.foldl (fun c event => event.apply c) c

/-- What the reads of `socket` give while some events happen. -/
def bits (socket : Socket) : List Event → Controllers → List UInt8
  | [], _ => []
  | event :: rest, c =>
    if event = .read socket then (c.read socket).1 :: bits socket rest (event.apply c)
    else bits socket rest (event.apply c)

/-- The number of reads of `socket` since the strobe was last written. -/
def readsSinceStrobe (socket : Socket) (events : List Event) : Nat :=
  events.foldl (Event.countReads socket) 0

/-- The state of the button at a place of the order, which goes round after eight. -/
def buttonAt (pressed : Button → Bool) (place : Nat) : UInt8 :=
  (pressed Button.all[place % 8]).toUInt8

/-- The states of `n` buttons from a place on. -/
def report (pressed : Button → Bool) (place n : Nat) : List UInt8 :=
  (List.range n).map fun k => buttonAt pressed (place + k)

theorem buttonAt_congr (pressed : Button → Bool) {m n : Nat} (h : m % 8 = n % 8) :
    buttonAt pressed m = buttonAt pressed n := by
  simp only [buttonAt, h]

theorem report_succ (pressed : Button → Bool) (place n : Nat) :
    report pressed place (n + 1) = buttonAt pressed place :: report pressed (place + 1) n := by
  rw [report, List.range_succ_eq_map, List.map_cons, List.map_map]
  congr 1
  apply List.map_congr_left
  intro k _
  exact buttonAt_congr pressed (by simp only [Nat.succ_eq_add_one]; omega)

theorem buttonAt_isPressed (c : Controllers) (socket : Socket) (place : Nat) :
    buttonAt (c.isPressed socket) place = (c.pad socket).buttons[Fin.ofNat 8 place].toUInt8 := by
  have hline : ∀ i : Fin 8, Button.all[i].line = i := by decide
  have := hline (Fin.ofNat 8 place)
  simp only [Fin.getElem_fin, Fin.val_ofNat] at this
  simp only [buttonAt, isPressed, this]

/-! ## One event -/

@[simp] theorem held_setPad (c : Controllers) (socket : Socket) (pad : Pad) :
    (c.setPad socket pad).held = c.held := by
  cases socket <;> rfl

theorem held_read (c : Controllers) (socket : Socket) : (c.read socket).2.held = c.held :=
  held_setPad ..

/-- At `socket` the buttons in `pressed` are down and the pad has been read `n` times, as far as the
    order of the buttons can tell. The count itself is a machine word; that it wraps does not show,
    since the number of its values is a multiple of eight. -/
structure At (c : Controllers) (socket : Socket) (pressed : Button → Bool) (n : Nat) : Prop where
  isPressed_eq : c.isPressed socket = pressed
  reads_mod : (c.pad socket).reads.toNat % 8 = n % 8

section

variable {c : Controllers} {socket : Socket} {pressed : Button → Bool} {n : Nat}

theorem At.read (h : c.At socket pressed n) (other : Socket) :
    (c.read other).2.At socket pressed (if other = socket then n + 1 else n) := by
  by_cases hs : other = socket
  · subst hs
    have hn := h.reads_mod
    have hpad :
        (c.read other).2.pad other = { c.pad other with reads := (c.pad other).reads + 1 } :=
      pad_setPad_self ..
    refine ⟨?_, ?_⟩
    · rw [← h.isPressed_eq]
      funext button
      rw [isPressed, hpad, isPressed]
    · rw [hpad, if_pos rfl]
      simp only [UInt64.toNat_add, UInt64.reduceToNat]
      omega
  · have hpad : (c.read other).2.pad socket = c.pad socket := read_pad_other c hs
    rw [if_neg hs]
    refine ⟨?_, by rw [hpad]; exact h.reads_mod⟩
    rw [← h.isPressed_eq]
    funext button
    rw [isPressed, hpad, isPressed]

theorem At.strobe_odd (h : c.At socket pressed n) {value : UInt8} (hv : value &&& 0x01 ≠ 0) :
    (c.strobe value).held = true ∧ (c.strobe value).At socket pressed 0 := by
  rw [strobe, if_pos (by simpa using hv)]
  rw [← h.isPressed_eq]
  refine ⟨rfl, ?_, ?_⟩
  · cases socket <;> rfl
  · cases socket <;> rfl

theorem At.strobe_even (h : c.At socket pressed n) {value : UInt8} (hv : value &&& 0x01 = 0) :
    (c.strobe value).held = false ∧ (c.strobe value).At socket pressed n := by
  rw [strobe, if_neg (by simp [hv])]
  rw [← h.isPressed_eq]
  refine ⟨rfl, ?_, ?_⟩
  · cases socket <;> rfl
  · have := h.reads_mod
    cases socket <;> exact this

theorem At.read_of_held (h : c.At socket pressed n) (hheld : c.held = true) :
    (c.read socket).1 = buttonAt pressed 0 := by
  rw [← h.isPressed_eq, buttonAt_isPressed]
  simp only [Controllers.read, nextLine, hheld, if_true]
  rfl

theorem At.read_of_released (h : c.At socket pressed n) (hheld : c.held = false) :
    (c.read socket).1 = buttonAt pressed n := by
  rw [← h.isPressed_eq, ← buttonAt_congr _ h.reads_mod, buttonAt_isPressed]
  simp only [Controllers.read, nextLine, hheld, Bool.false_eq_true, if_false]

/-! ## While the strobe is held -/

theorem At.keepsHeld (h : c.At socket pressed n) (hheld : c.held = true) {event : Event}
    (he : event.keepsHeld = true) :
    (event.apply c).held = true ∧
      (event.apply c).At socket pressed (event.countReads socket n) := by
  cases event with
  | read other => exact ⟨by rw [Event.apply, held_read, hheld], h.read other⟩
  | strobe value => exact h.strobe_odd (by simpa [Event.keepsHeld] using he)
  | press => cases he
  | reset => cases he

/-- The strobe stays held and the count goes on: nothing but a write to the strobe starts it
    over. -/
theorem At.after_held {events : List Event} (h : c.At socket pressed n) (hheld : c.held = true)
    (hevents : ∀ event ∈ events, event.keepsHeld = true) :
    (after events c).held = true ∧
      (after events c).At socket pressed (events.foldl (Event.countReads socket) n) := by
  induction events generalizing c n with
  | nil => exact ⟨hheld, h⟩
  | cons event rest ih =>
    have ⟨h₁, h₂⟩ := h.keepsHeld hheld (hevents event (List.mem_cons_self ..))
    exact ih h₂ h₁ fun e he => hevents e (List.mem_cons_of_mem _ he)

theorem bits_of_held {events : List Event} (h : c.At socket pressed n) (hheld : c.held = true)
    (hevents : ∀ event ∈ events, event.keepsHeld = true) :
    ∀ bit ∈ bits socket events c, bit = buttonAt pressed 0 := by
  induction events generalizing c n with
  | nil => simp [bits]
  | cons event rest ih =>
    have ⟨h₁, h₂⟩ := h.keepsHeld hheld (hevents event (List.mem_cons_self ..))
    have ih := ih h₂ h₁ fun e he => hevents e (List.mem_cons_of_mem _ he)
    unfold bits
    split
    · intro bit hbit
      rcases List.mem_cons.1 hbit with rfl | hbit
      · exact h.read_of_held hheld
      · exact ih bit hbit
    · exact ih

/-! ## After the release -/

theorem bits_of_released {events : List Event} (h : c.At socket pressed n)
    (hheld : c.held = false) (hevents : ∀ event ∈ events, event.isRead = true) :
    bits socket events c = report pressed n (events.count (.read socket)) := by
  induction events generalizing c n with
  | nil => rfl
  | cons event rest ih =>
    have hrest : ∀ e ∈ rest, e.isRead = true := fun e he => hevents e (List.mem_cons_of_mem _ he)
    cases event with
    | read other =>
      have ih := ih (h.read other) (by rw [held_read, hheld]) hrest
      by_cases hs : other = socket
      · subst hs
        rw [if_pos rfl] at ih
        rw [bits, if_pos rfl, List.count_cons_self, report_succ, h.read_of_released hheld]
        exact congrArg _ ih
      · have hne : Event.read other ≠ .read socket := fun he => hs (Event.read.inj he)
        rw [if_neg hs] at ih
        rw [bits, if_neg hne, List.count_cons_of_ne hne]
        exact ih
    | press => cases hevents _ (List.mem_cons_self ..)
    | strobe => cases hevents _ (List.mem_cons_self ..)
    | reset => cases hevents _ (List.mem_cons_self ..)

end

/-! ## A whole strobe -/

/-- Reports of every length agree exactly if the buttons do, place by place. -/
theorem report_eq_iff (pressed : Button → Bool) (place : Nat) :
    (∀ n, report pressed place n = report pressed 0 n) ↔
      ∀ k, buttonAt pressed (place + k) = buttonAt pressed k := by
  constructor
  · intro h k
    have := congrArg (·[k]?) (h (k + 1))
    simpa [report] using this
  · intro h n
    apply List.map_congr_left
    intro k _
    rw [h, Nat.zero_add]

/-- **The order of reads after a strobe.** Hold the strobe, read either socket and hold the strobe
    again as often as you like, and release it. Every read up to the release gives the first
    button. The reads of a socket after the release give its buttons in order from the place
    `late`, the number of reads of that socket since the strobe was last written to hold. So they
    begin with the first button, as they should, exactly if the buttons that are down look the same
    from `late` places on. -/
theorem bits_after_strobe (c : Controllers) {hold release : UInt8} (hhold : hold &&& 0x01 ≠ 0)
    (hrelease : release &&& 0x01 = 0) {held : List Event}
    (hheld : ∀ event ∈ held, event.keepsHeld = true) (socket : Socket) :
    let pressed := c.isPressed socket
    let late := readsSinceStrobe socket held
    let released := (after held (c.strobe hold)).strobe release
    (∀ bit ∈ bits socket held (c.strobe hold), bit = buttonAt pressed 0) ∧
      (∀ later : List Event, (∀ event ∈ later, event.isRead = true) →
        bits socket later released = report pressed late (later.count (.read socket))) ∧
      ((∀ later : List Event, (∀ event ∈ later, event.isRead = true) →
          bits socket later released = report pressed 0 (later.count (.read socket))) ↔
        ∀ k, buttonAt pressed (late + k) = buttonAt pressed k) := by
  intro pressed late released
  have hstart : c.At socket pressed (c.pad socket).reads.toNat := ⟨rfl, rfl⟩
  obtain ⟨h₁, hat₁⟩ := hstart.strobe_odd hhold
  obtain ⟨h₂, hat₂⟩ := hat₁.after_held h₁ hheld
  obtain ⟨h₃, hat₃⟩ := hat₂.strobe_even hrelease
  have hlater : ∀ later : List Event, (∀ event ∈ later, event.isRead = true) →
      bits socket later released = report pressed late (later.count (.read socket)) :=
    fun later hl => bits_of_released hat₃ h₃ hl
  refine ⟨bits_of_held hat₁ h₁ hheld, hlater, ?_⟩
  rw [← report_eq_iff]
  constructor
  · intro h n
    have hreads : ∀ event ∈ List.replicate n (Event.read socket), event.isRead = true :=
      fun event he => by rw [List.eq_of_mem_replicate he]; rfl
    have := h _ hreads
    rw [hlater _ hreads, List.count_replicate_self] at this
    exact this
  · intro h later hl
    rw [hlater later hl, h]

/-- The strobe is held twice with a read of each pad after either write: the first pad was read once
    since, so its report begins with its second button and comes round to the first. -/
theorem bits_after_strobe_held_twice :
    let c : Controllers :=
      { one := { buttons := #v[true, true, false, false, false, false, false, false] } }
    let held : List Event := [.read .one, .read .two, .strobe 3, .read .two, .read .one]
    let later : List Event := List.replicate 9 (.read .one)
    bits .one held (c.strobe 1) = [1, 1] ∧
      bits .one later ((after held (c.strobe 1)).strobe 2) = [1, 0, 0, 0, 0, 0, 0, 1, 1] := by
  intro c held later
  have hhold : (1 : UInt8) &&& 0x01 ≠ 0 := by decide
  have hrelease : (2 : UInt8) &&& 0x01 = 0 := by decide
  have hheld : ∀ event ∈ held, event.keepsHeld = true := by decide
  have h := bits_after_strobe c hhold hrelease hheld .one
  exact ⟨by decide, (h.2.1 later (by decide)).trans (by decide)⟩

/-- One read while the strobe is held, with the first button down: the first read after the release
    gives the second button. -/
theorem late_start_after_read :
    let c : Controllers :=
      { one := { buttons := #v[true, false, false, false, false, false, false, false] } }
    let released := (after [.read .one] (c.strobe 1)).strobe 0
    bits .one [.read .one] released = [0] ∧ report (c.isPressed .one) 0 1 = [1] := by
  decide

end Nes.Controllers
