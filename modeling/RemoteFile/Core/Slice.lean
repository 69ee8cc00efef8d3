import RemoteFile.Core.Octets

/-! Go slices and the parts of Go's runtime that can panic. A panic is `none`.
A slice sees the first `len` elements of its backing array; slice expressions
are checked against the capacity, so they may reach elements past the length. -/
namespace Go
open Octets

structure Slice (α : Type) where
  elems : List α
  /-- The backing array from the length up to the capacity. -/
  spare : List α
  deriving DecidableEq

namespace Slice

def len (s : Slice α) : Nat := s.elems.length

def cap (s : Slice α) : Nat := s.elems.length + s.spare.length

/-- `s[lo:hi]` -/
def slice? (s : Slice α) (lo hi : Nat) : Option (Slice α) :=
  if lo ≤ hi ∧ hi ≤ s.cap then
    some ⟨window (s.elems ++ s.spare) lo hi, (s.elems ++ s.spare).drop hi⟩
  else none

/-- `s[lo:]` -/
def tail? (s : Slice α) (lo : Nat) : Option (Slice α) := s.slice? lo s.len

/-- `copy(s[lo:hi], src)` on a slice without spare capacity. -/
def copy? (s : List α) (lo hi : Nat) (src : List α) : Option (List α) :=
  if lo ≤ hi ∧ hi ≤ s.length then some (overwrite s lo (src.take (hi - lo))) else none

theorem slice?_within {s : Slice α} (order : lo ≤ hi) (inside : hi ≤ s.len) :
    s.slice? lo hi = some ⟨window s.elems lo hi, s.elems.drop hi ++ s.spare⟩ := by
  have fits : hi ≤ s.cap := Nat.le_trans inside (Nat.le_add_right _ _)
  rw [slice?, if_pos ⟨order, fits⟩, window_append_left inside, List.drop_append_of_le_length inside]

theorem slice?_bounds {s t : Slice α} (cut : s.slice? lo hi = some t) : lo ≤ hi ∧ hi ≤ s.cap := by
  unfold slice? at cut
  split at cut
  · assumption
  · contradiction

theorem slice?_elems {s t : Slice α} (cut : s.slice? lo hi = some t) (inside : hi ≤ s.len) :
    t.elems = window s.elems lo hi := by
  rw [slice?_within (slice?_bounds cut).1 inside] at cut
  cases cut
  rfl

theorem tail?_within {s : Slice α} (inside : lo ≤ s.len) :
    s.tail? lo = some ⟨s.elems.drop lo, s.spare⟩ := by
  rw [tail?, slice?_within inside (Nat.le_refl _)]
  simp only [len, window_to_end, List.drop_length, List.nil_append]

theorem copy?_within {s : List α} (order : lo ≤ hi) (inside : hi ≤ s.length) (src : List α) :
    copy? s lo hi src = some (overwrite s lo (src.take (hi - lo))) := if_pos ⟨order, inside⟩

/-- Copying into the unwritten part of a fresh buffer extends the written part, by
as much of the source as the range takes. -/
theorem copy?_filled_take {written : List α} (start : lo = written.length) (order : lo ≤ hi)
    (room : hi ≤ total) (src : List α) :
    copy? (filled fill total written) lo hi src =
      some (filled fill total (written ++ src.take (hi - lo))) := by
  rw [copy?_within order (by rw [filled_length (by omega)]; exact room), overwrite_filled start]

theorem copy?_filled {written src : List α} (start : lo = written.length)
    (stop : hi = lo + src.length) (room : hi ≤ total) :
    copy? (filled fill total written) lo hi src = some (filled fill total (written ++ src)) := by
  have whole : src.take (hi - lo) = src := List.take_of_length_le (by omega)
  rw [copy?_filled_take start (by omega) room, whole]

/-- Outside the buffer, or with its ends reversed, a range is a panic. -/
theorem copy?_filled_none {written : List α} (room : written.length ≤ total)
    (outside : ¬ (lo ≤ hi ∧ hi ≤ total)) (src : List α) :
    copy? (filled fill total written) lo hi src = none := by
  rw [copy?, filled_length room, if_neg outside]

end Slice

/-- `binary.BigEndian.Uint32`; it panics on fewer than four bytes. -/
def bigEndianUint32 (b : Slice UInt8) : Option UInt32 :=
  if 4 ≤ b.len then some (UInt32.ofNat (value (b.elems.take 4))) else none

theorem bigEndianUint32_four {b : Slice UInt8} (four : b.len = 4) :
    bigEndianUint32 b = some (UInt32.ofNat (value b.elems)) := by
  rw [bigEndianUint32, if_pos (by omega), List.take_of_length_le (Nat.le_of_eq four)]

/-- Reading the word at `s[lo:lo+4]` of bytes inside the length. -/
theorem readUint32 {s : Slice UInt8} (four : hi = lo + 4) (inside : hi ≤ s.len) :
    (s.slice? lo hi >>= bigEndianUint32) = some (UInt32.ofNat (value (window s.elems lo hi))) := by
  have width : (window s.elems lo hi).length = 4 := by
    rw [window_length, Nat.min_eq_left (show hi ≤ s.elems.length from inside)]
    omega
  rw [Slice.slice?_within (by omega) inside, Option.bind_eq_bind, Option.bind_some]
  exact bigEndianUint32_four width

end Go
