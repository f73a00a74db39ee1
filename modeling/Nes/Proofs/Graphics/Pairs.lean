import Nes.Proofs.Graphics.Memory

/-!
# Bytes in pairs

The scroll register and the address register take their bytes in pairs, and one toggle says for both
whether the next byte is the first or the second. A read of the status makes it the first. Which it
is after any history can be told by counting: bytes of either register, since the status was last
read or the unit reset. Nothing else moves the toggle, and only the data register and these two
change what the pairs are kept in, so a pair arrives whole whatever else is accessed between its two
bytes.

Results:

* `second_after`: the toggle after any history.
* `takesFirst_iff`, `takesSecond_iff`: what the toggle decides.
* `Harmless.pairs_eq`, `pairs_of_interleaves`: harmless accesses in between may as well not have
  happened.
* `pairs_after`: **whose turn it is after any history, and pairs that arrive whole.**
-/

namespace Nes

/-- The register takes no pairs, does not start them over and does not move an address of theirs. -/
def PpuRegister.sparesPairs : PpuRegister → Bool
  | control | mask | oamAddress | oamData => true
  | status | scroll | address | data => false

namespace Ppu

/-! ## The toggle -/

namespace Event

/-- The number of bytes of pairs since pairs were last started over, one event later. -/
def countBytes (n : Nat) : Event → Nat
  | read register => if PpuRegister.ofAddress register = .status then 0 else n
  | write register _ =>
    if PpuRegister.ofAddress register = .scroll ∨ PpuRegister.ofAddress register = .address then
      n + 1
    else n
  | writeOam _ | startVblank => n
  | reset => 0

end Event

/-- The number of bytes written to the scroll and address registers since the status was last read
or the unit reset. -/
def bytesOfPairs (events : List Event) : Nat := events.foldl Event.countBytes 0

variable {ppu : Ppu} {n : Nat}

theorem second_readRegister (register : UInt16) (ppu : Ppu) :
    (final (readRegister register ppu)).latches.second =
      if PpuRegister.ofAddress register = .status then false else ppu.latches.second := by
  unfold readRegister
  cases PpuRegister.ofAddress register <;> rfl

theorem second_writeRegister (register : UInt16) (value : UInt8) (ppu : Ppu) :
    (final (writeRegister register value ppu)).latches.second =
      if PpuRegister.ofAddress register = .scroll ∨ PpuRegister.ofAddress register = .address then
        !ppu.latches.second
      else ppu.latches.second := by
  unfold writeRegister
  cases PpuRegister.ofAddress register with
  | scroll =>
    show (writeScroll value ppu.latches).second = !ppu.latches.second
    unfold writeScroll
    cases ppu.latches.second <;> rfl
  | address =>
    show (writeAddress value ppu.latches).second = !ppu.latches.second
    unfold writeAddress
    cases ppu.latches.second <;> rfl
  | data =>
    show (final (writeData value ppu)).latches.second = ppu.latches.second
    unfold writeData
    split <;> rfl
  | _ => rfl

theorem second_apply (h : ppu.latches.second = decide (n % 2 = 1)) (event : Event) :
    (event.apply ppu).latches.second = decide (event.countBytes n % 2 = 1) := by
  cases event with
  | read register =>
    rw [Event.apply, second_readRegister, Event.countBytes]
    by_cases hs : PpuRegister.ofAddress register = .status
    · rw [if_pos hs, if_pos hs]
      rfl
    · rw [if_neg hs, if_neg hs, h]
  | write register value =>
    rw [Event.apply, second_writeRegister, Event.countBytes]
    by_cases hp : PpuRegister.ofAddress register = .scroll ∨
        PpuRegister.ofAddress register = .address
    · rw [if_pos hp, if_pos hp, h, ← decide_not, decide_eq_decide]
      omega
    · rw [if_neg hp, if_neg hp, h]
  | writeOam value => exact h
  | startVblank => exact h
  | reset => rfl

theorem second_after (pattern : Array UInt8) (mirroring : Mirroring) (events : List Event) :
    (after events (ofPattern pattern mirroring)).latches.second =
      decide (bytesOfPairs events % 2 = 1) := by
  have key : ∀ (ppu : Ppu) (n : Nat), ppu.latches.second = decide (n % 2 = 1) →
      (after events ppu).latches.second = decide (events.foldl Event.countBytes n % 2 = 1) := by
    induction events with
    | nil =>
      intro ppu n h
      exact h
    | cons event rest ih =>
      intro ppu n h
      exact ih _ _ (second_apply h event)
  exact key _ 0 rfl

/-! ## First and second bytes -/

/-- The next byte of a pair is taken as the first: a scroll byte is horizontal, and an address byte
is the high one. -/
structure TakesFirst (ppu : Ppu) : Prop where
  scroll {register : UInt16} (h : PpuRegister.ofAddress register = .scroll) (value : UInt8) :
    ∃ next, writeRegister register value ppu = .ok () next ∧
      next.latches.scrollX = value ∧ next.latches.scrollY = ppu.latches.scrollY
  address {register : UInt16} (h : PpuRegister.ofAddress register = .address) (value : UInt8) :
    ∃ next, writeRegister register value ppu = .ok () next ∧
      next.latches.vramAddress.toNat = 256 * value.toNat + ppu.latches.vramAddress.toNat % 256

/-- The next byte of a pair is taken as the second: a scroll byte is vertical, and an address byte
is the low one. -/
structure TakesSecond (ppu : Ppu) : Prop where
  scroll {register : UInt16} (h : PpuRegister.ofAddress register = .scroll) (value : UInt8) :
    ∃ next, writeRegister register value ppu = .ok () next ∧
      next.latches.scrollX = ppu.latches.scrollX ∧ next.latches.scrollY = value
  address {register : UInt16} (h : PpuRegister.ofAddress register = .address) (value : UInt8) :
    ∃ next, writeRegister register value ppu = .ok () next ∧
      next.latches.vramAddress.toNat = 256 * (ppu.latches.vramAddress.toNat / 256) + value.toNat

theorem writeRegister_scroll {register : UInt16} (h : PpuRegister.ofAddress register = .scroll)
    (value : UInt8) (ppu : Ppu) :
    writeRegister register value ppu =
      .ok () { ppu with latches := writeScroll value ppu.latches } := by
  simp only [writeRegister, h]

theorem writeRegister_address {register : UInt16} (h : PpuRegister.ofAddress register = .address)
    (value : UInt8) (ppu : Ppu) :
    writeRegister register value ppu =
      .ok () { ppu with latches := writeAddress value ppu.latches } := by
  simp only [writeRegister, h]

theorem takesFirst_of_second (h : ppu.latches.second = false) : TakesFirst ppu := by
  refine ⟨fun hr value => ?_, fun hr value => ?_⟩
  · refine ⟨_, writeRegister_scroll hr value ppu, ?_⟩
    simp only [writeScroll, h, Bool.false_eq_true, if_false, and_self]
  · refine ⟨_, writeRegister_address hr value ppu, ?_⟩
    simp only [writeAddress, h, Bool.false_eq_true, if_false, word_toNat, lowByte_toNat]
    omega

theorem takesSecond_of_second (h : ppu.latches.second = true) : TakesSecond ppu := by
  refine ⟨fun hr value => ?_, fun hr value => ?_⟩
  · refine ⟨_, writeRegister_scroll hr value ppu, ?_⟩
    simp only [writeScroll, h, if_true, and_self]
  · refine ⟨_, writeRegister_address hr value ppu, ?_⟩
    simp only [writeAddress, h, if_true, word_toNat, highByte_toNat]
    omega

theorem TakesFirst.not_takesSecond (h₁ : TakesFirst ppu) : ¬TakesSecond ppu := by
  intro h₂
  have hr : PpuRegister.ofAddress 0x2005 = .scroll := by decide
  obtain ⟨next, hnext, hx, -⟩ := h₁.scroll hr (ppu.latches.scrollX + 1)
  obtain ⟨next', hnext', hx', -⟩ := h₂.scroll hr (ppu.latches.scrollX + 1)
  rw [hnext] at hnext'
  cases hnext'
  have hlt := ppu.latches.scrollX.toNat_lt
  have he := congrArg UInt8.toNat (hx.symm.trans hx')
  rw [UInt8.toNat_add] at he
  simp only [UInt8.reduceToNat] at he
  omega

theorem takesFirst_iff : TakesFirst ppu ↔ ppu.latches.second = false := by
  refine ⟨fun h => ?_, takesFirst_of_second⟩
  cases hs : ppu.latches.second with
  | false => rfl
  | true => exact absurd (takesSecond_of_second hs) h.not_takesSecond

theorem takesSecond_iff : TakesSecond ppu ↔ ppu.latches.second = true := by
  refine ⟨fun h => ?_, takesSecond_of_second⟩
  cases hs : ppu.latches.second with
  | false => exact absurd h (takesFirst_of_second hs).not_takesSecond
  | true => rfl

/-! ## Accesses in between -/

/-- What the pairs are kept in, and the toggle. -/
structure Pairs where
  scrollX : UInt8
  scrollY : UInt8
  vramAddress : UInt16
  second : Bool

/-- What the pairs of a unit are kept in. -/
def pairs (ppu : Ppu) : Pairs where
  scrollX := ppu.latches.scrollX
  scrollY := ppu.latches.scrollY
  vramAddress := ppu.latches.vramAddress
  second := ppu.latches.second

/-- The event has nothing to do with pairs: it goes to another register or fails. -/
inductive Harmless (ppu : Ppu) : Event → Prop
  | read {register : UInt16} (h : (PpuRegister.ofAddress register).sparesPairs = true) :
    Harmless ppu (.read register)
  | write {register : UInt16} (h : (PpuRegister.ofAddress register).sparesPairs = true)
    (value : UInt8) : Harmless ppu (.write register value)
  | readFails {register : UInt16} {cause : BusError} {next : Ppu}
    (h : readRegister register ppu = .error cause next) : Harmless ppu (.read register)
  | writeFails {register : UInt16} {value : UInt8} {cause : BusError} {next : Ppu}
    (h : writeRegister register value ppu = .error cause next) :
    Harmless ppu (.write register value)
  | writeOam (value : UInt8) : Harmless ppu (.writeOam value)
  | startVblank : Harmless ppu .startVblank

theorem Harmless.pairs_eq {event : Event} (h : Harmless ppu event) :
    (event.apply ppu).pairs = ppu.pairs := by
  cases h with
  | @read register h =>
    show (final (readRegister register ppu)).pairs = ppu.pairs
    unfold readRegister
    cases hr : PpuRegister.ofAddress register with
    | control | mask | oamAddress | oamData => rfl
    | status | scroll | address | data =>
      rw [hr] at h
      cases h
  | @write register h value =>
    show (final (writeRegister register value ppu)).pairs = ppu.pairs
    unfold writeRegister
    cases hr : PpuRegister.ofAddress register with
    | control | mask | oamAddress | oamData => rfl
    | status | scroll | address | data =>
      rw [hr] at h
      cases h
  | readFails h =>
    rw [Event.apply, h]
    exact congrArg pairs (readRegister_error h).2
  | writeFails h =>
    rw [Event.apply, h]
    exact congrArg pairs (writeRegister_error h)
  | writeOam value => rfl
  | startVblank => rfl

/-- The accesses happen in order, with harmless events strewn in between. -/
inductive Interleaves : List Event → List Event → Ppu → Prop
  | nil (ppu : Ppu) : Interleaves [] [] ppu
  | access {event : Event} {accesses events : List Event} {ppu : Ppu}
    (rest : Interleaves accesses events (event.apply ppu)) :
    Interleaves (event :: accesses) (event :: events) ppu
  | harmless {event : Event} {accesses events : List Event} {ppu : Ppu}
    (h : Harmless ppu event) (rest : Interleaves accesses events (event.apply ppu)) :
    Interleaves accesses (event :: events) ppu

/-- The event starts pairs over or brings a byte of one. -/
def Event.IsOfPair : Event → Prop
  | read register => PpuRegister.ofAddress register = .status
  | write register _ =>
    PpuRegister.ofAddress register = .scroll ∨ PpuRegister.ofAddress register = .address
  | writeOam _ | startVblank | reset => False

/-- What such an event makes of pairs depends on nothing else. -/
theorem pairs_congr {ppu' : Ppu} (h : ppu'.pairs = ppu.pairs) {event : Event}
    (he : event.IsOfPair) : (event.apply ppu').pairs = (event.apply ppu).pairs := by
  have hx : ppu'.latches.scrollX = ppu.latches.scrollX := congrArg Pairs.scrollX h
  have hy : ppu'.latches.scrollY = ppu.latches.scrollY := congrArg Pairs.scrollY h
  have hv : ppu'.latches.vramAddress = ppu.latches.vramAddress := congrArg Pairs.vramAddress h
  have hs : ppu'.latches.second = ppu.latches.second := congrArg Pairs.second h
  cases event with
  | read register =>
    have he : PpuRegister.ofAddress register = .status := he
    simp only [Event.apply, readRegister, he, final, pairs, hx, hy, hv]
  | write register value =>
    rcases he with he | he
    · simp only [Event.apply, writeRegister_scroll he, final, pairs, writeScroll, hs]
      split <;> simp only [hx, hy, hv]
    · simp only [Event.apply, writeRegister_address he, final, pairs, writeAddress, hs]
      split <;> simp only [hx, hy, hv]
  | writeOam value => exact he.elim
  | startVblank => exact he.elim
  | reset => exact he.elim

/-- Harmless events in between may as well not have happened. -/
theorem pairs_of_interleaves {accesses events : List Event} (h : Interleaves accesses events ppu)
    (hpairs : ∀ event ∈ accesses, event.IsOfPair) {start : Ppu} (hstart : ppu.pairs = start.pairs) :
    (after events ppu).pairs = (after accesses start).pairs := by
  induction h generalizing start with
  | nil ppu => exact hstart
  | access rest ih =>
    have he := hpairs _ (List.mem_cons_self ..)
    exact ih (fun event hmem => hpairs event (List.mem_cons_of_mem _ hmem))
      (pairs_congr hstart he)
  | harmless h rest ih => exact ih hpairs (h.pairs_eq.trans hstart)

/-! ## Whole pairs -/

section

variable {status first second : UInt16} {a b : UInt8}

/-- A pair on its own: the status is read and two bytes are written. -/
theorem vramAddress_of_pair (hs : PpuRegister.ofAddress status = .status)
    (h₁ : PpuRegister.ofAddress first = .address) (h₂ : PpuRegister.ofAddress second = .address)
    (ppu : Ppu) :
    (after [.read status, .write first a, .write second b] ppu).pairs =
      { ppu.pairs with vramAddress := word b a, second := false } := by
  simp only [after, List.foldl_cons, List.foldl_nil, Event.apply, readRegister, hs,
    writeRegister_address h₁, writeRegister_address h₂, final, writeAddress, Bool.false_eq_true,
    if_false, if_true, highByte_word, pairs]

theorem scroll_of_pair (hs : PpuRegister.ofAddress status = .status)
    (h₁ : PpuRegister.ofAddress first = .scroll) (h₂ : PpuRegister.ofAddress second = .scroll)
    (ppu : Ppu) :
    (after [.read status, .write first a, .write second b] ppu).pairs =
      { ppu.pairs with scrollX := a, scrollY := b, second := false } := by
  simp only [after, List.foldl_cons, List.foldl_nil, Event.apply, readRegister, hs,
    writeRegister_scroll h₁, writeRegister_scroll h₂, final, writeScroll, Bool.false_eq_true,
    if_false, if_true, pairs]

end

/-- **Main theorem.** After any history of a picture unit, the next byte of a pair is taken as the
first exactly if an even number of bytes has been written to the scroll and address registers since
the status was last read or the unit reset, and as the second if the number is odd. So a pair
arrives whole if the status is read before it, whatever other registers are accessed and whatever
fails in between: the address register points where its two bytes say, and the scroll position is
the one that its two bytes give, with the address as it was. -/
theorem pairs_after (pattern : Array UInt8) (mirroring : Mirroring) (events : List Event) :
    let ppu := after events (ofPattern pattern mirroring)
    (TakesFirst ppu ↔ bytesOfPairs events % 2 = 0) ∧
    (TakesSecond ppu ↔ bytesOfPairs events % 2 = 1) ∧
    ∀ (status first second : UInt16) (a b : UInt8) (later : List Event),
      PpuRegister.ofAddress status = .status →
      Interleaves [.read status, .write first a, .write second b] later ppu →
      let next := after later ppu
      (PpuRegister.ofAddress first = .address → PpuRegister.ofAddress second = .address →
        next.latches.vramAddress.toNat = 256 * a.toNat + b.toNat) ∧
      (PpuRegister.ofAddress first = .scroll → PpuRegister.ofAddress second = .scroll →
        next.latches.scrollX = a ∧ next.latches.scrollY = b ∧
          next.latches.vramAddress = ppu.latches.vramAddress) := by
  intro ppu
  have hsecond : ppu.latches.second = decide (bytesOfPairs events % 2 = 1) :=
    second_after pattern mirroring events
  refine ⟨?_, ?_, ?_⟩
  · rw [takesFirst_iff, hsecond, decide_eq_false_iff_not]
    omega
  · rw [takesSecond_iff, hsecond, decide_eq_true_iff]
  · intro status first second a b later hs hlater next
    have hpairs (h₁ : (Event.write first a).IsOfPair) (h₂ : (Event.write second b).IsOfPair) :
        next.pairs = (after [.read status, .write first a, .write second b] ppu).pairs := by
      refine pairs_of_interleaves hlater ?_ rfl
      simp only [List.forall_mem_cons, List.not_mem_nil, false_imp_iff, implies_true, and_true]
      exact ⟨hs, h₁, h₂⟩
    refine ⟨fun h₁ h₂ => ?_, fun h₁ h₂ => ?_⟩
    · have h := hpairs (.inr h₁) (.inr h₂)
      rw [vramAddress_of_pair hs h₁ h₂] at h
      have hv : next.latches.vramAddress = word b a := congrArg Pairs.vramAddress h
      rw [hv, word_toNat]
      omega
    · have h := hpairs (.inl h₁) (.inl h₂)
      rw [scroll_of_pair hs h₁ h₂] at h
      exact ⟨congrArg Pairs.scrollX h, congrArg Pairs.scrollY h, congrArg Pairs.vramAddress h⟩

/-- Half a pair is left over from before. Between the two bytes of the next one, the control
register is written through a mirror, a read fails, and so does a write to pattern memory. -/
theorem pairs_after_interrupted :
    let events : List Event := [.write 0x2005 0x77]
    let later : List Event := [.read 0x200A, .write 0x2006 0x01, .write 0x3FF8 0x84, .read 0x2000,
      .write 0x2007 0x55, .write 0x3FFE 0x08]
    let ppu := after events (ofPattern #[0xAA] .vertical)
    bytesOfPairs events % 2 = 1 ∧ TakesSecond ppu ∧
      (after later ppu).latches.vramAddress.toNat = 0x108 := by
  intro events later ppu
  have h := pairs_after #[0xAA] .vertical events
  let half := after [.read 0x200A, .write 0x2006 0x01, .write 0x3FF8 0x84, .read 0x2000] ppu
  have hfails : writeRegister 0x2007 0x55 half = .error (.patternRomWrite 0x100 0x55) half := by
    show writeData 0x55 half = _
    rw [writeData, if_neg (by decide)]
    rfl
  have hlater : Interleaves [.read 0x200A, .write 0x2006 0x01, .write 0x3FFE 0x08] later ppu :=
    .access <| .access <| .harmless (.write (by decide) _) <| .harmless (.read (by decide)) <|
      .harmless (.writeFails hfails) <| .access <| .nil _
  exact ⟨by decide, h.2.1.2 (by decide),
    (h.2.2 _ _ _ _ _ later (by decide) hlater).1 (by decide) (by decide)⟩

end Ppu

end Nes
