import Mathlib.Data.List.Basic

/-!
# Buffers

A buffer is a list that is written in place: `blit` overwrites a region, and `slice` reads one.  A
write is seen by the reads of its own region alone, and a prefix that ends with it is the prefix
before it with the data behind.
-/

namespace Buffer

variable {α : Type*}

/-- The `n` elements from `off` on. -/
def slice (buf : List α) (off n : ℕ) : List α := (buf.drop off).take n

/-- Overwrites the elements from `off` on. -/
def blit (buf : List α) (off : ℕ) (data : List α) : List α :=
  buf.take off ++ data ++ buf.drop (off + data.length)

variable (buf data : List α) (off a m n : ℕ)

theorem slice_add : slice buf off (m + n) = slice buf off m ++ slice buf (off + m) n := by
  rw [slice, List.take_add, List.drop_drop]
  rfl

theorem take_add_slice : buf.take (off + n) = buf.take off ++ slice buf off n := by
  rw [List.take_add]
  rfl

@[simp] theorem slice_zero : slice buf off 0 = [] := rfl

variable {buf data off a m n}

theorem length_slice (inside : off + n ≤ buf.length) : (slice buf off n).length = n := by
  rw [slice, List.length_take, List.length_drop]
  omega

theorem length_blit (inside : off + data.length ≤ buf.length) :
    (blit buf off data).length = buf.length := by
  rw [blit, List.length_append, List.length_append, List.length_take, List.length_drop]
  omega

theorem le_length_blit (inside : off ≤ buf.length) :
    off + data.length ≤ (blit buf off data).length := by
  rw [blit, List.length_append, List.length_append, List.length_take]
  omega

/-- A prefix before the write does not see it. -/
theorem take_blit_of_le (before : n ≤ off) (inside : off ≤ buf.length) :
    (blit buf off data).take n = buf.take n := by
  rw [blit, List.append_assoc, List.take_append_of_le_length (by rw [List.length_take]; omega),
    List.take_take, Nat.min_eq_left before]

/-- The prefix that ends with the write. -/
theorem take_blit (inside : off ≤ buf.length) :
    (blit buf off data).take (off + data.length) = buf.take off ++ data := by
  rw [blit, List.take_append_of_le_length (by rw [List.length_append, List.length_take]; omega)]
  refine List.take_of_length_le ?_
  rw [List.length_append, List.length_take]
  omega

@[simp] theorem take_blit_zero (buf data : List α) : (blit buf 0 data).take data.length = data := by
  rw [blit, List.take_zero, List.nil_append, List.take_left]

theorem drop_blit (inside : off ≤ buf.length) :
    (blit buf off data).drop off = data ++ buf.drop (off + data.length) := by
  rw [blit, List.append_assoc]
  refine List.drop_left' ?_
  rw [List.length_take]
  omega

/-- The write is what its region holds. -/
theorem slice_blit (inside : off ≤ buf.length) :
    slice (blit buf off data) off data.length = data := by
  rw [slice, drop_blit inside, List.take_left]

/-- A region behind the write does not see it. -/
theorem slice_blit_of_le (behind : off + data.length ≤ a) (inside : off ≤ buf.length) :
    slice (blit buf off data) a n = slice buf a n := by
  have split : a = off + (a - off) := by omega
  rw [slice, slice, split, ← List.drop_drop, drop_blit inside, List.drop_append,
    List.drop_eq_nil_of_le (by omega), List.nil_append, List.drop_drop]
  congr 2
  omega

/-- A write in the middle of a concatenation. -/
theorem blit_append {l m r : List α} (same : data.length = m.length) :
    blit (l ++ m ++ r) l.length data = l ++ data ++ r := by
  rw [blit, same, List.append_assoc l m r, List.take_left, ← List.drop_drop, List.drop_left,
    List.drop_left]

/-- A region before the write does not see it. -/
theorem slice_blit_before (before : a + n ≤ off) (inside : off ≤ buf.length) :
    slice (blit buf off data) a n = slice buf a n := by
  have same := @take_blit_of_le _ buf data off _ before inside
  have drop (l : List α) : slice l a n = (l.take (a + n)).drop a := by
    rw [slice, List.drop_take, Nat.add_sub_cancel_left]
  rw [drop, drop, same]

theorem slice_slice {k : ℕ} (within : k + m ≤ n) :
    slice (slice buf a n) k m = slice buf (a + k) m := by
  rw [slice, slice, List.drop_take, List.take_take, List.drop_drop, Nat.min_eq_left (by omega)]
  rfl

/-- A write inside a region is a write to what the region holds. -/
theorem slice_blit_inside {k : ℕ} (within : k + data.length ≤ n) (inside : a + n ≤ buf.length) :
    slice (blit buf (a + k) data) a n = blit (slice buf a n) k data := by
  have before : (buf.take (a + k)).drop a = (slice buf a n).take k := by
    rw [slice, List.take_take, Nat.min_eq_left (by omega), List.drop_take, Nat.add_sub_cancel_left]
  have behind : (buf.drop (a + k + data.length)).take (n - (k + data.length)) =
      (slice buf a n).drop (k + data.length) := by
    rw [slice, List.drop_take, List.drop_drop]
    congr 2
    omega
  have skip : (buf.take (a + k)).length = a + k := List.length_take_of_le (by omega)
  have first : ((slice buf a n).take k).length = k :=
    List.length_take_of_le (by rw [length_slice inside]; omega)
  have head : ((slice buf a n).take k).take n = (slice buf a n).take k :=
    List.take_of_length_le (by omega)
  have middle : data.take (n - k) = data := List.take_of_length_le (by omega)
  have remaining : n - k - data.length = n - (k + data.length) := by omega
  rw [slice, blit, List.append_assoc, List.drop_append_of_le_length (by omega), before, blit,
    ← behind, List.take_append, List.take_append, head, first, middle, remaining,
    List.append_assoc]

end Buffer
