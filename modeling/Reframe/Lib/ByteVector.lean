import Mathlib.Data.List.Basic
import Mathlib.Tactic

/-! Growable vectors with a fill value: bounds-checked slices and the plain
write and resize operations. A read past the end gives the fill value, so two vectors of
one length agree as soon as all their reads do. -/
namespace ByteVector

variable {α : Type*}

/-- The elements at `[lo, hi)`; `none` is the slice-index panic. -/
def slice? (xs : List α) (lo hi : ℕ) : Option (List α) :=
  if lo ≤ hi ∧ hi ≤ xs.length then some ((xs.take hi).drop lo) else none

/-- Overwrite `dst` with `src` from position `pos` on. -/
def splice (dst : List α) (pos : ℕ) (src : List α) : List α :=
  dst.take pos ++ src ++ dst.drop (pos + src.length)

/-- `dst[pos..pos + src.len()].copy_from_slice(src)`; `none` is its panic. -/
def copyAt? (dst : List α) (pos : ℕ) (src : List α) : Option (List α) :=
  if pos + src.length ≤ dst.length then some (splice dst pos src) else none

/-- Truncate to `size`, or extend to it with the fill value. -/
def resize (z : α) (xs : List α) (size : ℕ) : List α :=
  xs.take size ++ List.replicate (size - xs.length) z

/-- Write `data` at `pos`, filling any gap; an empty write changes nothing. -/
def write (z : α) (xs : List α) (pos : ℕ) (data : List α) : List α :=
  if data = [] then xs
  else splice (resize z xs (max xs.length (pos + data.length))) pos data

theorem slice?_eq_some {xs : List α} {lo hi : ℕ} (h : lo ≤ hi) (hh : hi ≤ xs.length) :
    slice? xs lo hi = some ((xs.take hi).drop lo) := by
  simp [slice?, h, hh]

theorem copyAt?_eq_some {dst src : List α} {pos : ℕ} (h : pos + src.length ≤ dst.length) :
    copyAt? dst pos src = some (splice dst pos src) := by
  simp [copyAt?, h]

theorem length_slice {xs : List α} (lo : ℕ) {hi : ℕ} (h : hi ≤ xs.length) :
    ((xs.take hi).drop lo).length = hi - lo := by
  simp [Nat.min_eq_left h]

@[simp] theorem length_splice {dst src : List α} {pos : ℕ}
    (h : pos + src.length ≤ dst.length) : (splice dst pos src).length = dst.length := by
  simp only [splice, List.length_append, List.length_take, List.length_drop]
  omega

@[simp] theorem length_resize (z : α) (xs : List α) (size : ℕ) :
    (resize z xs size).length = size := by
  simp only [resize, List.length_append, List.length_take, List.length_replicate]
  omega

theorem length_write (z : α) (xs : List α) (pos : ℕ) {data : List α} (h : data ≠ []) :
    (write z xs pos data).length = max xs.length (pos + data.length) := by
  rw [write, if_neg h, length_splice (by rw [length_resize]; omega), length_resize]

@[simp] theorem write_nil (z : α) (xs : List α) (pos : ℕ) : write z xs pos [] = xs := by
  simp [write]

/-- A read inside a slice. -/
theorem getD_slice (z : α) (xs : List α) {lo hi i : ℕ} (h : i < hi - lo) :
    ((xs.take hi).drop lo).getD i z = xs.getD (lo + i) z := by
  rw [List.getD_eq_getElem?_getD, List.getD_eq_getElem?_getD, List.getElem?_drop,
    List.getElem?_take_of_lt (by omega)]

theorem getD_splice (z : α) {dst src : List α} {pos : ℕ} (h : pos + src.length ≤ dst.length)
    (i : ℕ) : (splice dst pos src).getD i z =
      if pos ≤ i ∧ i < pos + src.length then src.getD (i - pos) z else dst.getD i z := by
  have hp : pos ≤ dst.length := by omega
  simp only [splice, List.append_assoc, List.getD_eq_getElem?_getD]
  by_cases h₁ : i < pos
  · rw [List.getElem?_append_left (by simpa using ⟨h₁, by omega⟩),
      List.getElem?_take_of_lt h₁, if_neg (by omega)]
  · rw [List.getElem?_append_right (by simp; omega), List.length_take, Nat.min_eq_left hp]
    by_cases h₂ : i < pos + src.length
    · rw [List.getElem?_append_left (by omega), if_pos (by omega)]
    · rw [List.getElem?_append_right (by omega), List.getElem?_drop, if_neg (by omega)]
      congr 2
      omega

@[simp] theorem getD_replicate_fill (z : α) (n i : ℕ) : (List.replicate n z).getD i z = z := by
  rw [List.getD_eq_getElem?_getD, List.getElem?_replicate]
  split <;> rfl

theorem getD_of_length_le (z : α) {xs : List α} {i : ℕ} (h : xs.length ≤ i) :
    xs.getD i z = z := by
  simp [List.getD_eq_getElem?_getD, h]

theorem getD_append (z : α) (xs ys : List α) (i : ℕ) : (xs ++ ys).getD i z =
    if i < xs.length then xs.getD i z else ys.getD (i - xs.length) z := by
  simp only [List.getD_eq_getElem?_getD, List.getElem?_append]
  split <;> rfl

theorem getD_resize (z : α) (xs : List α) (size i : ℕ) :
    (resize z xs size).getD i z = if i < size then xs.getD i z else z := by
  rw [resize, getD_append, getD_replicate_fill, List.length_take]
  by_cases h : i < size
  · rw [if_pos h]
    split
    · rw [List.getD_eq_getElem?_getD, List.getElem?_take_of_lt h, List.getD_eq_getElem?_getD]
    · rw [getD_of_length_le z (by omega)]
  · rw [if_neg h, if_neg (by omega)]

/-- Reading after a write: the data where it was written, the old vector elsewhere. -/
theorem getD_write (z : α) (xs : List α) (pos : ℕ) (data : List α) (i : ℕ) :
    (write z xs pos data).getD i z =
      if pos ≤ i ∧ i < pos + data.length then data.getD (i - pos) z else xs.getD i z := by
  by_cases hd : data = []
  · subst hd
    simp only [write_nil, List.length_nil]
    rw [if_neg (by omega)]
  · rw [write, if_neg hd, getD_splice z (by rw [length_resize]; omega), getD_resize]
    split
    · rfl
    · split
      · rfl
      · rw [getD_of_length_le z (by omega)]

theorem ext_getD (z : α) {xs ys : List α} (hl : xs.length = ys.length)
    (h : ∀ i < xs.length, xs.getD i z = ys.getD i z) : xs = ys := by
  apply List.ext_getElem hl
  intro i hx hy
  have hi := h i hx
  rwa [List.getD_eq_getElem?_getD, List.getD_eq_getElem?_getD, List.getElem?_eq_getElem hx,
    List.getElem?_eq_getElem hy] at hi

/-- Reads determine a table built from them. -/
theorem getD_map_range (z : α) (f : ℕ → α) (n i : ℕ) :
    ((List.range n).map f).getD i z = if i < n then f i else z := by
  rw [List.getD_eq_getElem?_getD, List.getElem?_map]
  by_cases h : i < n
  · simp [h]
  · simp [h]

theorem eq_map_range (z : α) {xs : List α} {n : ℕ} {f : ℕ → α} (hl : xs.length = n)
    (h : ∀ i < n, xs.getD i z = f i) : xs = (List.range n).map f := by
  apply ext_getD z (by simp [hl])
  intro i hi
  rw [getD_map_range, if_pos (hl ▸ hi), h i (hl ▸ hi)]

theorem grow_eq_resize (z : α) (xs : List α) (size : ℕ) :
    (if xs.length < size then resize z xs size else xs) = resize z xs (max xs.length size) := by
  split
  · rw [Nat.max_eq_right (by omega)]
  · rw [Nat.max_eq_left (by omega)]
    simp [resize]

/-- A resize that drops nothing is absorbed by the next one. -/
theorem resize_resize (z : α) {xs : List α} {first : ℕ} (h : xs.length ≤ first) (last : ℕ) :
    resize z (resize z xs first) last = resize z xs last := by
  apply ext_getD z (by simp)
  intro i _
  simp only [getD_resize]
  split
  · split
    · rfl
    · exact (getD_of_length_le z (by omega)).symm
  · rfl

/-- Copying a range of one vector over another, both in bounds. -/
theorem copy_slice_spec (z : α) (src dst : List α) (lo hi pos : ℕ) (hlo : lo ≤ hi)
    (hsrc : hi ≤ src.length) (hdst : pos + (hi - lo) ≤ dst.length) :
    ∃ out, (slice? src lo hi).bind (copyAt? dst pos) = some out ∧
      out.length = dst.length ∧ ∀ i, out.getD i z =
        if pos ≤ i ∧ i < pos + (hi - lo) then src.getD (lo + (i - pos)) z else dst.getD i z := by
  have hlen := length_slice lo hsrc
  refine ⟨splice dst pos ((src.take hi).drop lo), ?_, ?_, fun i => ?_⟩
  · rw [slice?_eq_some hlo hsrc, Option.bind_some, copyAt?_eq_some (by rw [hlen]; exact hdst)]
  · exact length_splice (by rw [hlen]; exact hdst)
  · rw [getD_splice z (by rw [hlen]; exact hdst), hlen]
    split
    · rw [getD_slice z src (by omega)]
    · rfl

end ByteVector
