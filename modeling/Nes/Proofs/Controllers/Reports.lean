import Mathlib.Logic.Function.Basic
import Nes.Proofs.Controllers.Strobe

/-!
# Reports while buttons change

A report is read button by button, and things happen between two of its reads: buttons are pressed
and released, and the other pad is read. A pad keeps no copy of its buttons from the moment of the
release, so each read gives its button as it is held when it is read. A report is that of one moment
exactly if no button has changed by the time it is read, and otherwise it may show buttons that were
never down together.

What happens at the other socket is never seen. The two sockets share nothing but the strobe line.

Results:

* `getElem?_bits`: what a read gives, from the events before it.
* `bits_while_pressing`: **the report after a strobe, with anything but the strobe in between**, and
  when it is the report of the release.
* `report_of_no_moment`: a report with two buttons down that were never down together.
* `bits_filter`: a socket gives what it would give without the events of the other socket.
* `sockets_apart`: **both sockets by themselves**, and reports that come round after eight reads.
-/

namespace Nes.Controllers

/-! ## Events between reads -/

namespace Event

/-- The event leaves the strobe line alone: a read, or a button that is pressed or released. -/
def leavesStrobe : Event → Bool
  | press .. | read _ => true
  | strobe _ | reset => false

/-- The event is one of `socket` or of both sockets. -/
def concerns (socket : Socket) : Event → Bool
  | press other .. | read other => other = socket
  | strobe _ | reset => true

/-- The buttons that are down at `socket`, one event later. -/
def pressedNext (socket : Socket) (pressed : Button → Bool) : Event → Button → Bool
  | press other button down =>
    if other = socket then Function.update pressed button down else pressed
  | strobe _ | read _ | reset => pressed

end Event

/-- The buttons that are down at `socket` after some events. -/
def pressedAfter (socket : Socket) (events : List Event) (pressed : Button → Bool) :
    Button → Bool :=
  events.foldl (Event.pressedNext socket) pressed

theorem bits_append (socket : Socket) (events later : List Event) (c : Controllers) :
    bits socket (events ++ later) c =
      bits socket events c ++ bits socket later (after events c) := by
  induction events generalizing c with
  | nil => rfl
  | cons event rest ih =>
    have ih := ih (event.apply c)
    by_cases he : event = .read socket
    · simp only [List.cons_append, bits, if_pos he, ih]
      rfl
    · simp only [List.cons_append, bits, if_neg he, ih]
      rfl

theorem length_bits (socket : Socket) (events : List Event) (c : Controllers) :
    (bits socket events c).length = events.count (.read socket) := by
  induction events generalizing c with
  | nil => rfl
  | cons event rest ih =>
    by_cases he : event = .read socket
    · rw [bits, if_pos he, he, List.length_cons, ih, List.count_cons_self]
    · rw [bits, if_neg he, ih, List.count_cons_of_ne he]

/-- Every read has its place in a history. -/
theorem exists_read {socket : Socket} {events : List Event} {k : Nat}
    (h : k < events.count (.read socket)) :
    ∃ before later, events = before ++ .read socket :: later ∧ before.count (.read socket) = k := by
  induction events generalizing k with
  | nil => simp at h
  | cons event rest ih =>
    by_cases he : event = .read socket
    · subst he
      rw [List.count_cons_self] at h
      cases k with
      | zero => exact ⟨[], rest, rfl, rfl⟩
      | succ k =>
        obtain ⟨before, later, rfl, hk⟩ := ih (Nat.lt_of_succ_lt_succ h)
        refine ⟨.read socket :: before, later, rfl, ?_⟩
        rw [List.count_cons_self, hk]
    · rw [List.count_cons_of_ne he] at h
      obtain ⟨before, later, rfl, hk⟩ := ih h
      refine ⟨event :: before, later, rfl, ?_⟩
      rw [List.count_cons_of_ne he, hk]

/-! ## Buttons that change -/

theorem line_injective : Function.Injective Button.line := by
  intro button other h
  have hbutton := Button.ofLine?_line button
  rw [h, Button.ofLine?_line other] at hbutton
  exact (Option.some.inj hbutton).symm

section

variable {c : Controllers} {socket : Socket} {pressed : Button → Bool} {n : Nat}

theorem At.press (h : c.At socket pressed n) (other : Socket) (button : Button) (down : Bool) :
    (c.press other button down).At socket
      ((Event.press other button down).pressedNext socket pressed) n := by
  by_cases hs : other = socket
  · subst hs
    have hpad : (c.press other button down).pad other =
        { c.pad other with buttons := (c.pad other).buttons.set button.line down } :=
      pad_setPad_self ..
    refine ⟨?_, by rw [hpad]; exact h.reads_mod⟩
    funext key
    rw [Event.pressedNext, if_pos rfl, isPressed, hpad, ← h.isPressed_eq]
    by_cases hk : key = button
    · subst hk
      simp
    · have hne : button.line.val ≠ key.line.val := fun he => hk (line_injective (Fin.ext he)).symm
      simp only [Fin.getElem_fin, Function.update_of_ne hk, Vector.getElem_set_ne _ _ hne]
      rfl
  · have hpad : (c.press other button down).pad socket = c.pad socket :=
      press_pad_other c hs button down
    rw [Event.pressedNext, if_neg hs]
    refine ⟨?_, by rw [hpad]; exact h.reads_mod⟩
    rw [← h.isPressed_eq]
    funext key
    rw [isPressed, hpad, isPressed]

/-- One event that leaves a released strobe alone. -/
theorem At.leavesStrobe (h : c.At socket pressed n) (hheld : c.held = false) {event : Event}
    (he : event.leavesStrobe = true) :
    (event.apply c).held = false ∧
      (event.apply c).At socket (event.pressedNext socket pressed)
        (n + [event].count (.read socket)) := by
  cases event with
  | press other button down =>
    refine ⟨(held_setPad ..).trans hheld, ?_⟩
    rw [List.count_singleton, if_neg (by simp), Nat.add_zero]
    exact h.press other button down
  | read other =>
    refine ⟨by rw [Event.apply, held_read, hheld], ?_⟩
    have hread := h.read other
    by_cases hs : other = socket
    · subst hs
      simpa [Event.apply, Event.pressedNext] using hread
    · simpa [Event.apply, Event.pressedNext, hs] using hread
  | strobe => cases he
  | reset => cases he

/-- Any number of them: the strobe stays released, the buttons follow the presses, and the count
follows the reads. -/
theorem At.after_released {events : List Event} (h : c.At socket pressed n)
    (hheld : c.held = false) (hevents : ∀ event ∈ events, event.leavesStrobe = true) :
    (after events c).held = false ∧
      (after events c).At socket (pressedAfter socket events pressed)
        (n + events.count (.read socket)) := by
  induction events generalizing c pressed n with
  | nil => exact ⟨hheld, h⟩
  | cons event rest ih =>
    have ⟨h₁, h₂⟩ := h.leavesStrobe hheld (hevents event (List.mem_cons_self ..))
    have ih := ih h₂ h₁ fun e he => hevents e (List.mem_cons_of_mem _ he)
    rw [← List.singleton_append, List.count_append, ← Nat.add_assoc]
    exact ih

/-- A read gives its button as it is held by then. -/
theorem getElem?_bits {before : List Event} (h : c.At socket pressed n) (hheld : c.held = false)
    (hbefore : ∀ event ∈ before, event.leavesStrobe = true) (later : List Event) :
    (bits socket (before ++ .read socket :: later) c)[before.count (.read socket)]? =
      some (buttonAt (pressedAfter socket before pressed) (n + before.count (.read socket))) := by
  obtain ⟨h₁, h₂⟩ := h.after_released hheld hbefore
  rw [bits_append, List.getElem?_append_right (Nat.le_of_eq (length_bits ..)), length_bits,
    Nat.sub_self, bits, if_pos rfl, List.getElem?_cons_zero, h₂.read_of_released h₁]

/-! ## Reports -/

theorem getElem?_report (pressed : Button → Bool) (place : Nat) {m k : Nat} (h : k < m) :
    (report pressed place m)[k]? = some (buttonAt pressed (place + k)) := by
  rw [report, List.getElem?_map, List.getElem?_range h]
  rfl

/-- The first `m` reads give the buttons as they are held now exactly if each of these buttons is
held as it is now by the time that it is read. -/
theorem take_bits_eq_report_iff {events : List Event} (h : c.At socket pressed n)
    (hheld : c.held = false) (hevents : ∀ event ∈ events, event.leavesStrobe = true) (m : Nat) :
    (bits socket events c).take m = report pressed n (min m (events.count (.read socket))) ↔
      ∀ before later, events = before ++ .read socket :: later →
        before.count (.read socket) < m →
          buttonAt (pressedAfter socket before pressed) (n + before.count (.read socket)) =
            buttonAt pressed (n + before.count (.read socket)) := by
  have hread (before later : List Event) (he : events = before ++ .read socket :: later) :
      (bits socket events c)[before.count (.read socket)]? =
        some (buttonAt (pressedAfter socket before pressed) (n + before.count (.read socket))) := by
    subst he
    exact getElem?_bits h hheld (fun e hmem => hevents e (List.mem_append_left _ hmem)) later
  constructor
  · intro htake before later he hm
    have hcount : before.count (.read socket) < events.count (.read socket) := by
      rw [he, List.count_append, List.count_cons_self]
      omega
    have hk : (report pressed n (min m (events.count (.read socket))))[
        before.count (.read socket)]? =
          some (buttonAt (pressedAfter socket before pressed)
            (n + before.count (.read socket))) := by
      rw [← htake, List.getElem?_take_of_lt hm, hread before later he]
    rw [getElem?_report pressed n (Nat.lt_min.2 ⟨hm, hcount⟩)] at hk
    exact (Option.some.inj hk).symm
  · intro hall
    apply List.ext_getElem?
    intro k
    rcases Nat.lt_or_ge k (min m (events.count (.read socket))) with hk | hk
    · obtain ⟨hm, hcount⟩ := Nat.lt_min.1 hk
      obtain ⟨before, later, he, rfl⟩ := exists_read hcount
      rw [List.getElem?_take_of_lt hm, hread before later he, hall before later he hm,
        getElem?_report pressed n hk]
    · -- neither list is that long
      rw [List.getElem?_eq_none, List.getElem?_eq_none]
      · rw [report, List.length_map, List.length_range]
        exact hk
      · rw [List.length_take, length_bits]
        exact hk

end

/-- **Reports while buttons change.** Hold the strobe, release it, and then press and release
buttons of both pads and read both of them in any order. Every read of a socket gives the next of
its buttons, as it is held at that moment. The first eight reads therefore give the buttons as they
were held at the release, as they should, exactly if each of these buttons is held by the time that
it is read as it was at the release. -/
theorem bits_while_pressing (c : Controllers) {hold release : UInt8} (hhold : hold &&& 0x01 ≠ 0)
    (hrelease : release &&& 0x01 = 0) {events : List Event}
    (hevents : ∀ event ∈ events, event.leavesStrobe = true) (socket : Socket) :
    let pressed := c.isPressed socket
    let given := bits socket events ((c.strobe hold).strobe release)
    let reads (before : List Event) := before.count (.read socket)
    given.length = reads events ∧
      (∀ before later, events = before ++ .read socket :: later →
        given[reads before]? =
          some (buttonAt (pressedAfter socket before pressed) (reads before))) ∧
      (given.take 8 = report pressed 0 (min 8 (reads events)) ↔
        ∀ before later, events = before ++ .read socket :: later → reads before < 8 →
          buttonAt (pressedAfter socket before pressed) (reads before) =
            buttonAt pressed (reads before)) := by
  intro pressed given reads
  have hstart : c.At socket pressed (c.pad socket).reads.toNat := ⟨rfl, rfl⟩
  obtain ⟨-, hat₁⟩ := hstart.strobe_odd hhold
  obtain ⟨hheld, hat₂⟩ := hat₁.strobe_even hrelease
  refine ⟨length_bits .., ?_, ?_⟩
  · intro before later he
    have hbefore : ∀ event ∈ before, event.leavesStrobe = true := by
      intro event hmem
      exact hevents event (he ▸ List.mem_append_left _ hmem)
    have h := getElem?_bits hat₂ hheld hbefore later
    rwa [Nat.zero_add, ← he] at h
  · have h := take_bits_eq_report_iff hat₂ hheld hevents 8
    simpa only [Nat.zero_add] using h

/-- The first button is released and the second pressed after one read of the pad: the report has
the first as it was at the release and the second as it is later. -/
theorem bits_while_pressing_swapped :
    let c : Controllers :=
      { one := { buttons := #v[true, false, false, false, false, false, false, false] } }
    let before : List Event :=
      [.read .one, .press .one .a false, .read .two, .press .two .b false, .press .one .b true]
    bits .one (before ++ [.read .one]) ((c.strobe 1).strobe 0) = [1, 1] ∧
      (bits .one (before ++ [.read .one]) ((c.strobe 1).strobe 0))[1]? =
        some (buttonAt (pressedAfter .one before (c.isPressed .one)) 1) := by
  intro c before
  have hhold : (1 : UInt8) &&& 0x01 ≠ 0 := by decide
  have hrelease : (0 : UInt8) &&& 0x01 = 0 := by decide
  have hevents : ∀ event ∈ before ++ [.read .one], event.leavesStrobe = true := by decide
  have h := bits_while_pressing c hhold hrelease hevents .one
  exact ⟨by decide, h.2.1 before [] rfl⟩

/-- A report that no moment explains: it has the first two buttons down, which were never down
together, and at the release only the first was. -/
theorem report_of_no_moment :
    let c : Controllers :=
      { one := { buttons := #v[true, false, false, false, false, false, false, false] } }
    let events : List Event :=
      [.read .one, .press .one .a false, .press .one .b true] ++ List.replicate 7 (.read .one)
    bits .one events ((c.strobe 1).strobe 0) = [1, 1, 0, 0, 0, 0, 0, 0] ∧
      report (c.isPressed .one) 0 8 = [1, 0, 0, 0, 0, 0, 0, 0] := by
  decide

/-! ## Sockets -/

/-- One socket looks the same in both: its pad, and the strobe line. -/
structure SameAt (socket : Socket) (c c' : Controllers) : Prop where
  pad_eq : c.pad socket = c'.pad socket
  held_eq : c.held = c'.held

section

variable {c c' : Controllers} {socket : Socket}

theorem SameAt.read_eq (h : SameAt socket c c') : (c.read socket).1 = (c'.read socket).1 := by
  simp only [Controllers.read, nextLine, h.pad_eq, h.held_eq]

theorem SameAt.setPad (h : SameAt socket c c') (pad : Pad) :
    SameAt socket (c.setPad socket pad) (c'.setPad socket pad) := by
  refine ⟨?_, ?_⟩
  · rw [pad_setPad_self, pad_setPad_self]
  · rw [held_setPad, held_setPad, h.held_eq]

/-- What happens at one socket is not seen at the other. -/
theorem sameAt_setPad_other (c : Controllers) {other : Socket} (hs : other ≠ socket) (pad : Pad) :
    SameAt socket (c.setPad other pad) c :=
  ⟨pad_setPad_of_ne c hs pad, held_setPad ..⟩

theorem pad_strobe (c : Controllers) (value : UInt8) (socket : Socket) :
    (c.strobe value).pad socket =
      if value &&& 0x01 != 0 then { c.pad socket with reads := 0 } else c.pad socket := by
  unfold strobe
  split
  · cases socket <;> rfl
  · cases socket <;> rfl

theorem held_strobe (c : Controllers) (value : UInt8) :
    (c.strobe value).held = (value &&& 0x01 != 0) := by
  unfold strobe
  split
  next hv => exact hv.symm
  next hv => exact (eq_false_of_ne_true hv).symm

theorem pad_reset (c : Controllers) (socket : Socket) :
    c.reset.pad socket = { c.pad socket with reads := 0 } := by
  cases socket <;> rfl

theorem sameAt_of_not_concerns {event : Event} (he : event.concerns socket = false)
    (c : Controllers) : SameAt socket (event.apply c) c := by
  cases event with
  | press other button down => exact sameAt_setPad_other c (of_decide_eq_false he) _
  | read other => exact sameAt_setPad_other c (of_decide_eq_false he) _
  | strobe => cases he
  | reset => cases he

theorem SameAt.concerns (h : SameAt socket c c') {event : Event}
    (he : event.concerns socket = true) : SameAt socket (event.apply c) (event.apply c') := by
  cases event with
  | press other button down =>
    obtain rfl : other = socket := of_decide_eq_true he
    simp only [Event.apply, press, h.pad_eq]
    exact h.setPad _
  | read other =>
    obtain rfl : other = socket := of_decide_eq_true he
    simp only [Event.apply, Controllers.read, h.pad_eq]
    exact h.setPad _
  | strobe value =>
    refine ⟨?_, ?_⟩
    · simp only [Event.apply, pad_strobe, h.pad_eq]
    · simp only [Event.apply, held_strobe]
  | reset => exact ⟨by simp only [Event.apply, pad_reset, h.pad_eq], rfl⟩

/-- The events of the other socket may as well not have happened. -/
theorem bits_filter {events : List Event} (h : SameAt socket c c') :
    bits socket (events.filter (·.concerns socket)) c' = bits socket events c := by
  induction events generalizing c c' with
  | nil => rfl
  | cons event rest ih =>
    cases he : event.concerns socket with
    | false =>
      have hne : event ≠ .read socket := by
        rintro rfl
        simp [Event.concerns] at he
      have hsame := sameAt_of_not_concerns he c
      rw [List.filter_cons_of_neg (by simp [he]), bits, if_neg hne]
      exact ih ⟨hsame.pad_eq.trans h.pad_eq, hsame.held_eq.trans h.held_eq⟩
    | true =>
      have ih := ih (h.concerns he)
      rw [List.filter_cons_of_pos he, bits, bits, ih, h.read_eq]

end

/-! ## Buttons that stay as they are -/

theorem pressedAfter_of_unchanged {socket : Socket} {events : List Event}
    {pressed : Button → Bool}
    (h : ∀ button down, .press socket button down ∈ events → pressed button = down) :
    pressedAfter socket events pressed = pressed := by
  induction events with
  | nil => rfl
  | cons event rest ih =>
    have hnext : event.pressedNext socket pressed = pressed := by
      cases event with
      | press other button down =>
        by_cases hs : other = socket
        · subst hs
          rw [Event.pressedNext, if_pos rfl, ← h button down (List.mem_cons_self ..),
            Function.update_eq_self]
        · rw [Event.pressedNext, if_neg hs]
      | strobe | read | reset => rfl
    rw [pressedAfter, List.foldl_cons, hnext]
    exact ih fun button down hmem => h button down (List.mem_cons_of_mem _ hmem)

/-- **The sockets are apart.** What the reads of a socket give depends on what happens at that
socket and to the strobe line, however the events of the other socket are strewn in between. Once
the strobe is released, and as long as the buttons of a pad stay as they are, its reads come round
after eight, also where the count of reads starts over. -/
theorem sockets_apart (c : Controllers) (socket : Socket) :
    (∀ events events' : List Event,
      events.filter (·.concerns socket) = events'.filter (·.concerns socket) →
        bits socket events c = bits socket events' c) ∧
    ∀ events : List Event, c.held = false → (∀ event ∈ events, event.leavesStrobe = true) →
      (∀ button down, .press socket button down ∈ events → c.isPressed socket button = down) →
        (bits socket events c).length = events.count (.read socket) ∧
          ∀ k, k + 8 < events.count (.read socket) →
            (bits socket events c)[k + 8]? = (bits socket events c)[k]? := by
  refine ⟨?_, ?_⟩
  · intro events events' h
    have hsame : SameAt socket c c := ⟨rfl, rfl⟩
    calc
      bits socket events c = bits socket (events.filter (·.concerns socket)) c :=
        (bits_filter hsame).symm
      _ = bits socket (events'.filter (·.concerns socket)) c := by rw [h]
      _ = bits socket events' c := bits_filter hsame
  · intro events hheld hevents hunchanged
    have hat : c.At socket (c.isPressed socket) (c.pad socket).reads.toNat := ⟨rfl, rfl⟩
    have hbit {k : Nat} (hk : k < events.count (.read socket)) : (bits socket events c)[k]? =
        some (buttonAt (c.isPressed socket) ((c.pad socket).reads.toNat + k)) := by
      obtain ⟨before, later, rfl, rfl⟩ := exists_read hk
      have hbefore : ∀ event ∈ before, event.leavesStrobe = true := by
        intro event hmem
        exact hevents event (List.mem_append_left _ hmem)
      rw [getElem?_bits hat hheld hbefore, pressedAfter_of_unchanged]
      intro button down hmem
      exact hunchanged button down (List.mem_append_left _ hmem)
    refine ⟨length_bits .., ?_⟩
    intro k hk
    rw [hbit hk, hbit (by omega), buttonAt_congr]
    omega

/-- The count of reads starts over between the third read of a pad and the fourth. -/
theorem sockets_apart_wrapping :
    let c : Controllers :=
      { one := { buttons := #v[true, true, false, false, false, true, false, true]
                 reads := 0xFFFFFFFFFFFFFFFD }
        held := false }
    let events := List.replicate 12 (Event.read .one)
    let events' := .press .two .a true :: events ++ [Event.read .two]
    bits .one events c = bits .one events' c ∧
      (bits .one events c)[10]? = (bits .one events c)[2]? ∧
      bits .one events c = [1, 0, 1, 1, 1, 0, 0, 0, 1, 0, 1, 1] := by
  intro c events events'
  have h := sockets_apart c .one
  have hevents : ∀ event ∈ events, event.leavesStrobe = true := by decide
  have hunchanged : ∀ button down, .press .one button down ∈ events →
      c.isPressed .one button = down := by
    intro button down hmem
    cases List.eq_of_mem_replicate hmem
  exact ⟨h.1 events events' (by decide), (h.2 events rfl hevents hunchanged).2 2 (by decide),
    by decide⟩

end Nes.Controllers
