import RemoteFile.Core.Octets

/-! Putting a part into a list and taking a part out, at a position: how the two undo
each other, and how they relate to reading and to overwriting a range. -/
namespace Octets

/-- `ys` put in at position `i`. -/
def insertAt (xs : List α) (i : Nat) (ys : List α) : List α := xs.take i ++ ys ++ xs.drop i

/-- The `n` elements from position `i` on taken out. -/
def removeAt (xs : List α) (i n : Nat) : List α := xs.take i ++ xs.drop (i + n)

/-- A range inside a list splits it into three parts. -/
theorem exists_split {xs : List α} (inside : i + n ≤ xs.length) :
    ∃ pre mid post, xs = pre ++ mid ++ post ∧ i = pre.length ∧ n = mid.length := by
  refine ⟨xs.take i, (xs.drop i).take n, xs.drop (i + n), ?_, ?_, ?_⟩
  · rw [← List.drop_drop, List.append_assoc, List.take_append_drop, List.take_append_drop]
  · rw [List.length_take_of_le (Nat.le_trans (Nat.le_add_right i n) inside)]
  · rw [List.length_take_of_le]
    rw [List.length_drop]
    omega

theorem insertAt_split (pre post ys : List α) : insertAt (pre ++ post) pre.length ys = pre ++ ys ++ post := by
  rw [insertAt, List.take_left, List.drop_left]

theorem removeAt_split (pre mid post : List α) :
    removeAt (pre ++ mid ++ post) pre.length mid.length = pre ++ post := by
  rw [removeAt, ← List.length_append, List.drop_left, List.append_assoc, List.take_left]

theorem overwrite_split {mid ys : List α} (pre post : List α) (width : ys.length = mid.length) :
    overwrite (pre ++ mid ++ post) pre.length ys = pre ++ ys ++ post := by
  rw [overwrite, width, ← List.length_append, List.drop_left, List.append_assoc pre, List.take_left]

theorem insertAt_length (xs : List α) (i : Nat) (ys : List α) :
    (insertAt xs i ys).length = xs.length + ys.length := by
  simp only [insertAt, List.length_append, List.length_take, List.length_drop]
  omega

theorem removeAt_length {xs : List α} (inside : i + n ≤ xs.length) :
    (removeAt xs i n).length = xs.length - n := by
  obtain ⟨pre, mid, post, rfl, rfl, rfl⟩ := exists_split inside
  rw [removeAt_split]
  simp only [List.length_append]
  omega

/-- What was put in is read back. -/
theorem window_insertAt {xs : List α} (inside : i ≤ xs.length) (ys : List α) :
    window (insertAt xs i ys) i (i + ys.length) = ys := by
  obtain ⟨pre, mid, post, rfl, rfl, _⟩ := @exists_split _ i 0 xs inside
  rw [List.append_assoc, insertAt_split]
  exact window_middle rfl rfl rfl

theorem removeAt_insertAt {xs : List α} (inside : i ≤ xs.length) (ys : List α) :
    removeAt (insertAt xs i ys) i ys.length = xs := by
  obtain ⟨pre, mid, post, rfl, rfl, _⟩ := @exists_split _ i 0 xs inside
  rw [List.append_assoc, insertAt_split, removeAt_split]

/-- Putting back what was taken out. -/
theorem insertAt_removeAt {xs : List α} (inside : i + n ≤ xs.length) :
    insertAt (removeAt xs i n) i (window xs i (i + n)) = xs := by
  obtain ⟨pre, mid, post, rfl, rfl, rfl⟩ := exists_split inside
  rw [removeAt_split, window_middle rfl rfl rfl, insertAt_split]

/-- Overwriting a range is taking it out and putting something of its length in. -/
theorem overwrite_eq_insertAt {xs ys : List α} (room : i + ys.length ≤ xs.length) :
    overwrite xs i ys = insertAt (removeAt xs i ys.length) i ys := by
  obtain ⟨pre, mid, post, rfl, rfl, width⟩ := exists_split room
  rw [overwrite_split pre post width, width, removeAt_split, insertAt_split]

end Octets
