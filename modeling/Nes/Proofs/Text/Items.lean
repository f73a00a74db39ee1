import Mathlib.Data.List.Basic
import Nes.Proofs.Text.Hex
import Nes.Text.FlagSet

/-!
# Items read back

What is shown as a list has one separator between two items, with or without blanks beside it. No
item holds a blank or a separator, so the items are found again: drop the blanks and split the text
at every separator. The flags of a register are such a list. What a register holds is then the sum
of the bits that the names stand for and of the number behind them, if there is one.

Results:

* `items_intercalate`: the items of a list are read back.
* `FlagNames.bits?_text`: so are the bits of a register that is shown by its flags.
-/

namespace Nes

/-! ## Items -/

/-- The items of a list that has `separator` between two of them. -/
def items (separator : Char) (text : List Char) : List (List Char) :=
  (text.filter (· ≠ ' ')).splitOn separator

theorem filter_intercalate {α : Type} (p : α → Bool) (glue : List α) (parts : List (List α)) :
    (glue.intercalate parts).filter p = (glue.filter p).intercalate (parts.map (·.filter p)) := by
  induction parts with
  | nil => rfl
  | cons part rest ih =>
    cases rest with
    | nil => simp only [List.map_cons, List.map_nil, List.intercalate_singleton]
    | cons next rest =>
      rw [List.map_cons] at ih
      rw [List.map_cons, List.map_cons, List.intercalate_cons_cons, List.intercalate_cons_cons,
        List.filter_append, List.filter_append, ih]

/-- The text can be an item: it holds no blank and no separator. -/
def IsItem (separator : Char) (part : List Char) : Prop := ' ' ∉ part ∧ separator ∉ part

/-- Membership of characters is decidable. -/
instance (separator : Char) (part : List Char) : Decidable (IsItem separator part) :=
  inferInstanceAs (Decidable (_ ∧ _))

/-- What is printed with a separator, and blanks around it, is read as the parts that it is made of.
-/
theorem items_intercalate {separator : Char} {glue : List Char} {parts : List (List Char)}
    (hglue : glue.filter (· ≠ ' ') = [separator]) (hparts : parts ≠ [])
    (hitem : ∀ part ∈ parts, IsItem separator part) :
    items separator (glue.intercalate parts) = parts := by
  have hblanks : parts.map (·.filter (· ≠ ' ')) = parts := by
    refine (List.map_congr_left fun part hp => ?_).trans (List.map_id parts)
    rw [List.filter_eq_self.2, id]
    intro c hc
    rw [decide_eq_true_eq]
    rintro rfl
    exact (hitem part hp).1 hc
  rw [items, filter_intercalate, hglue, hblanks]
  exact List.splitOn_intercalate separator (fun part hp => (hitem part hp).2) hparts

/-! ## Bits -/

/-- All bits that are set in one of the bytes. -/
def allBits (bytes : List UInt8) : UInt8 := bytes.foldl (· ||| ·) 0

theorem or_or_and_not (covered mask rest : UInt8) :
    (covered ||| mask) ||| (rest &&& ~~~mask) = (covered ||| rest) ||| mask := by
  rw [← UInt8.toBitVec_inj]
  ext i hi
  simp only [UInt8.toBitVec_or, UInt8.toBitVec_and, UInt8.toBitVec_not, BitVec.getElem_or,
    BitVec.getElem_and, BitVec.getElem_not]
  cases mask.toBitVec[i] <;> simp

theorem or_eq_left_of_and_eq {bits mask : UInt8} (h : bits &&& mask = mask) :
    bits ||| mask = bits := by
  rw [← h, ← UInt8.toBitVec_inj]
  ext i hi
  simp only [UInt8.toBitVec_or, UInt8.toBitVec_and, BitVec.getElem_or, BitVec.getElem_and]
  cases bits.toBitVec[i] <;> simp

/-- What is covered and what is left make up the bits, as one mask after the other is taken. -/
theorem foldl_or_foldl_and_not {bits : UInt8} {masks : List UInt8}
    (h : ∀ mask ∈ masks, bits &&& mask = mask) {covered rest : UInt8}
    (hbits : covered ||| rest = bits) :
    masks.foldl (· ||| ·) covered ||| masks.foldl (fun rest mask => rest &&& ~~~mask) rest =
      bits := by
  induction masks generalizing covered rest with
  | nil => exact hbits
  | cons mask masks ih =>
    rw [List.foldl_cons, List.foldl_cons]
    refine ih (fun m hm => h m (List.mem_cons_of_mem mask hm)) ?_
    rw [or_or_and_not, hbits]
    exact or_eq_left_of_and_eq (h mask List.mem_cons_self)

/-! ## Flags -/

namespace FlagNames

/-- A text of flags can be read: the flags have different names, each name is an item of the list,
and none begins as a number does. -/
def Readable (names : FlagNames) : Prop :=
  (names.flags.map (·.1)).Nodup ∧
    ∀ flag ∈ names.flags, IsItem '|' flag.1.toList ∧ flag.1.toList.head? ≠ some '0'

/-- There are eight flags at most to look at, so a set of names is checked by evaluation. -/
instance (names : FlagNames) : Decidable names.Readable :=
  inferInstanceAs (Decidable (_ ∧ _))

/-- The bits that one item stands for: those of a number, or those of the flag of that name. -/
def itemBits? (names : FlagNames) : List Char → Option UInt8
  | '0' :: 'x' :: digits => Hex.byte? (digits.map Char.toUpper)
  | name => names.flags.lookup (String.ofList name)

/-- The bits that a text shows between the name of the register and the last character. -/
def bits? (names : FlagNames) (text : List Char) : Option UInt8 := do
  let shown ← text.dropPrefix? (names.register ++ "(").toList
  let bits ← (items '|' shown.dropLast).mapM names.itemBits?
  return allBits bits

/-- The items of the text of a register. -/
def parts (names : FlagNames) (bits : UInt8) : List String :=
  let named := (names.present bits).map (·.1)
  if names.remaining bits == 0 && !named.isEmpty then named
  else named ++ [hexNumber (names.remaining bits).toNat]

variable {names : FlagNames} {bits : UInt8}

theorem toList_text (names : FlagNames) (bits : UInt8) :
    (names.text bits).toList = (names.register ++ "(").toList ++
      ([' ', '|', ' '].intercalate ((names.parts bits).map String.toList) ++ [')']) := by
  have htext : names.text bits =
      names.register ++ "(" ++ " | ".intercalate (names.parts bits) ++ ")" := rfl
  rw [htext, String.toList_append, String.toList_append, String.toList_intercalate,
    List.append_assoc]
  rfl

/-- A number in hexadecimal is read back, and cannot be taken for two items. -/
theorem itemBits?_hexNumber (names : FlagNames) (b : UInt8) :
    names.itemBits? (hexNumber b.toNat).toList = some b ∧
      IsItem '|' (hexNumber b.toNat).toList := by
  have hdigits : ∀ b : UInt8,
      Hex.byte? ((Nat.toDigits 16 b.toNat).map Char.toUpper) = some b ∧
        IsItem '|' (Nat.toDigits 16 b.toNat) := by decide +kernel
  obtain ⟨hbyte, hblank, hbar⟩ := hdigits b
  have hchars : (hexNumber b.toNat).toList = '0' :: 'x' :: Nat.toDigits 16 b.toNat := by
    simp [hexNumber]
  rw [hchars]
  refine ⟨?_, ?_, ?_⟩
  · rw [itemBits?, hbyte]
  · simpa using hblank
  · simpa using hbar

theorem lookup_of_mem {α β : Type} [DecidableEq α] {entries : List (α × β)} {entry : α × β}
    (hnodup : (entries.map (·.1)).Nodup) (h : entry ∈ entries) :
    entries.lookup entry.1 = some entry.2 := by
  obtain ⟨before, behind, rfl⟩ := List.append_of_mem h
  rw [List.lookup_eq_some_iff]
  refine ⟨before, behind, rfl, fun other ho => ?_⟩
  rw [List.map_append, List.map_cons, List.nodup_append] at hnodup
  have hne := hnodup.2.2 other.1 (List.mem_map_of_mem ho) entry.1 List.mem_cons_self
  simpa using hne.symm

theorem itemBits?_name (h : names.Readable) {flag : String × UInt8} (hf : flag ∈ names.flags) :
    names.itemBits? flag.1.toList = some flag.2 := by
  have hhead := (h.2 flag hf).2
  have hlookup := lookup_of_mem h.1 hf
  unfold itemBits?
  split
  next digits hd => simp [hd] at hhead
  next => rw [String.ofList_toList, hlookup]

theorem mapM_itemBits? (h : names.Readable) {flags : List (String × UInt8)}
    (hflags : ∀ flag ∈ flags, flag ∈ names.flags) :
    ((flags.map (·.1)).map String.toList).mapM names.itemBits? = some (flags.map (·.2)) := by
  induction flags with
  | nil => rfl
  | cons flag rest ih =>
    rw [List.map_cons, List.map_cons, List.mapM_cons,
      itemBits?_name h (hflags flag List.mem_cons_self),
      ih fun f hf => hflags f (List.mem_cons_of_mem flag hf)]
    rfl

/-- The flags that are named and the number that is left make up the register. -/
theorem allBits_present (names : FlagNames) (bits : UInt8) :
    allBits ((names.present bits).map (·.2)) ||| names.remaining bits = bits := by
  have hmasks : ∀ mask ∈ (names.present bits).map (·.2), bits &&& mask = mask := by
    intro mask hm
    obtain ⟨flag, hf, rfl⟩ := List.mem_map.1 hm
    exact beq_iff_eq.1 (List.mem_filter.1 hf).2
  have hremaining : names.remaining bits =
      ((names.present bits).map (·.2)).foldl (fun rest mask => rest &&& ~~~mask) bits := by
    rw [List.foldl_map, remaining]
  rw [hremaining]
  exact foldl_or_foldl_and_not hmasks (UInt8.zero_or)

theorem mem_flags_of_mem_present {flag : String × UInt8} (h : flag ∈ names.present bits) :
    flag ∈ names.flags :=
  (List.mem_filter.1 h).1

/-- The items of the text of a register are items, and their bits make up what it holds. -/
theorem parts_spec (h : names.Readable) (bits : UInt8) :
    (∀ part ∈ (names.parts bits).map String.toList, IsItem '|' part) ∧
      ∃ masks, ((names.parts bits).map String.toList).mapM names.itemBits? = some masks ∧
        allBits masks = bits := by
  have hnamed := mapM_itemBits? h fun flag (hf : flag ∈ names.present bits) =>
    mem_flags_of_mem_present hf
  have hitems : ∀ part ∈ ((names.present bits).map (·.1)).map String.toList,
      IsItem '|' part := by
    intro part hp
    obtain ⟨name, hn, rfl⟩ := List.mem_map.1 hp
    obtain ⟨flag, hf, rfl⟩ := List.mem_map.1 hn
    exact (h.2 flag (mem_flags_of_mem_present hf)).1
  have hall := allBits_present names bits
  obtain ⟨hnumber, hitem⟩ := itemBits?_hexNumber names (names.remaining bits)
  unfold parts
  dsimp only
  split_ifs with hrest
  · rw [Bool.and_eq_true, beq_iff_eq] at hrest
    refine ⟨hitems, _, hnamed, ?_⟩
    rw [hrest.1, UInt8.or_zero] at hall
    exact hall
  · rw [List.map_append, List.map_singleton]
    refine ⟨?_, (names.present bits).map (·.2) ++ [names.remaining bits], ?_, ?_⟩
    · intro part hp
      rcases List.mem_append.1 hp with hp | hp
      · exact hitems part hp
      · rw [List.mem_singleton.1 hp]
        exact hitem
    · rw [List.mapM_append, hnamed]
      simp [hnumber]
    · rw [allBits, List.foldl_append]
      exact hall

theorem parts_ne_nil (names : FlagNames) (bits : UInt8) : names.parts bits ≠ [] := by
  unfold parts
  dsimp only
  split_ifs with h
  · intro hnil
    rw [hnil] at h
    simp at h
  · simp

/-- What a register holds is read off its text. -/
theorem bits?_text (h : names.Readable) (bits : UInt8) :
    names.bits? (names.text bits).toList = some bits := by
  obtain ⟨hitems, masks, hmasks, hall⟩ := parts_spec h bits
  have hne : (names.parts bits).map String.toList ≠ [] := by
    rw [Ne, List.map_eq_nil_iff]
    exact parts_ne_nil names bits
  have hglue : [' ', '|', ' '].filter (· ≠ ' ') = ['|'] := by decide
  rw [bits?, toList_text, List.dropPrefix?_eq_some_iff.2 ⟨_, rfl, beq_self_eq_true _⟩]
  simp only [Option.bind_eq_bind, Option.bind_some, List.dropLast_concat,
    items_intercalate hglue hne hitems, hmasks, hall, Option.pure_def]

end FlagNames

end Nes
