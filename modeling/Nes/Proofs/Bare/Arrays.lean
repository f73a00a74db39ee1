/-!
# Bare arrays

The machine has its bounds in its types. In the bare machine they are left out: an array is used
at a number, and nothing says that it reaches so far; what would go wrong there is `none`. Arrays
that come out of vectors reach as far as the vectors do.

Results:

* `getElem?_toArray`, `put_toArray`, `slice?_toArray`: inside a vector's bounds nothing goes wrong.
-/

namespace Nes.Bare

/-- The end of an action with its state seen through `f`. -/
def mapState {ε σ τ α : Type} (f : σ → τ) : EStateM.Result ε σ α → EStateM.Result ε τ α
  | .ok value state => .ok value (f state)
  | .error cause state => .error cause (f state)

variable {α : Type} {n : Nat}

/-- Store at a place of an array. -/
def put (xs : Array α) (i : Nat) (x : α) : Option (Array α) :=
  if h : i < xs.size then some (xs.set i x h) else none

/-- `length` elements of an array from a place on. -/
def slice? (xs : Array α) (start length : Nat) : Option (Array α) :=
  if start + length ≤ xs.size then some (xs.extract start (start + length)) else none

/-- The difference of two numbers that have no sign. -/
def minus? (m n : Nat) : Option Nat := if n ≤ m then some (m - n) else none

theorem getElem?_toArray (xs : Vector α n) {i : Nat} (h : i < n) :
    xs.toArray[i]? = some xs[i] := by
  rw [Vector.getElem?_toArray, Vector.getElem?_eq_getElem h]

theorem put_toArray (xs : Vector α n) {i : Nat} (h : i < n) (x : α) :
    put xs.toArray i x = some (xs.set i x).toArray := by
  rw [put, dif_pos (by rwa [Vector.size_toArray]), Vector.toArray_set]

theorem put_append_left (xs ys : Array α) {i : Nat} (h : i < xs.size) (x : α) :
    put (xs ++ ys) i x = some (xs.set i x ++ ys) := by
  rw [put, dif_pos (by rw [Array.size_append]; omega), Array.set_append_left h]

theorem put_append_right (xs ys : Array α) {i : Nat} (h : i < ys.size) (x : α) :
    put (xs ++ ys) (xs.size + i) x = some (xs ++ ys.set i x) := by
  have hlt : xs.size + i < (xs ++ ys).size := by rw [Array.size_append]; omega
  rw [put, dif_pos hlt, Array.set_append_right hlt (Nat.le_add_right ..)]
  simp only [Nat.add_sub_cancel_left]

theorem slice?_toArray (xs : Vector α n) {start length : Nat} (h : start + length ≤ n)
    {ys : Vector α length}
    (hy : ∀ i (hi : i < length), ys[i] = xs[start + i]) :
    slice? xs.toArray start length = some ys.toArray := by
  rw [slice?, if_pos (by rwa [Vector.size_toArray]), Option.some_inj]
  apply Array.ext
  · rw [Array.size_extract, Vector.size_toArray, Vector.size_toArray]
    omega
  · intro i _ hi
    rw [Vector.size_toArray] at hi
    rw [Array.getElem_extract, Vector.getElem_toArray, Vector.getElem_toArray, hy i hi]

theorem minus?_of_le {m k : Nat} (h : k ≤ m) : minus? m k = some (m - k) := if_pos h

end Nes.Bare
