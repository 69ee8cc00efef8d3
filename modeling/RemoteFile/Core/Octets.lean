import Mathlib.Data.List.Basic
import Mathlib.Tactic.Ring

/-! Byte strings: big-endian numbers of any width, windows cut out of a string,
and a buffer of fixed size that is filled from the left. -/
namespace Octets

abbrev Bytes := List UInt8

/-- The bytes of an ASCII text. -/
def text (s : String) : Bytes := s.toList.map fun c => UInt8.ofNat c.toNat

/-- The number a string of base-256 digits denotes, most significant first. -/
def value : Bytes → Nat
  | [] => 0
  | b :: bs => b.toNat * 256 ^ bs.length + value bs

/-- The `width` low-order base-256 digits of a number, most significant first. -/
def bigEndian : (width n : Nat) → Bytes
  | 0, _ => []
  | width + 1, n => UInt8.ofNat (n / 256 ^ width) :: bigEndian width n

@[simp] theorem bigEndian_length (width n : Nat) : (bigEndian width n).length = width := by
  induction width with
  | zero => rfl
  | succ width ih => simp only [bigEndian, List.length_cons, ih]

theorem value_lt (bs : Bytes) : value bs < 256 ^ bs.length := by
  induction bs with
  | nil => simp [value]
  | cons b bs ih =>
    have digit : b.toNat + 1 ≤ 256 := b.toNat_lt
    calc value (b :: bs) < b.toNat * 256 ^ bs.length + 256 ^ bs.length := by
          simpa only [value, Nat.add_lt_add_iff_left] using ih
      _ = (b.toNat + 1) * 256 ^ bs.length := by ring
      _ ≤ 256 * 256 ^ bs.length := Nat.mul_le_mul_right _ digit
      _ = 256 ^ (b :: bs).length := by rw [List.length_cons, Nat.pow_succ, Nat.mul_comm]

/-- Encoding keeps exactly the digits that fit in the width. -/
theorem value_bigEndian (width n : Nat) : value (bigEndian width n) = n % 256 ^ width := by
  induction width with
  | zero => simp [bigEndian, value, Nat.mod_one]
  | succ width ih =>
    have split : n % 256 ^ (width + 1) = n % 256 ^ width + 256 ^ width * (n / 256 ^ width % 256) := by
      rw [Nat.pow_succ, Nat.mod_mul]
    simp only [bigEndian, value, bigEndian_length, ih, UInt8.toNat_ofNat']
    rw [split, Nat.mul_comm, Nat.add_comm]

theorem value_bigEndian_four (fits : n < 2 ^ 32) : value (bigEndian 4 n) = n := by
  rw [value_bigEndian]
  exact Nat.mod_eq_of_lt fits

theorem bigEndian_mod (width n : Nat) : bigEndian width (n % 256 ^ width) = bigEndian width n := by
  induction width generalizing n with
  | zero => rfl
  | succ width ih =>
    have head : n % 256 ^ (width + 1) / 256 ^ width % 256 = n / 256 ^ width % 256 := by
      rw [Nat.pow_succ, Nat.mod_mul_right_div_self, Nat.mod_mod]
    have rest : n % 256 ^ (width + 1) % 256 ^ width = n % 256 ^ width :=
      Nat.mod_mod_of_dvd n ⟨256, Nat.pow_succ _ _⟩
    simp only [bigEndian, List.cons.injEq]
    constructor
    · apply UInt8.toNat_inj.mp
      simpa only [UInt8.toNat_ofNat'] using head
    · rw [← ih (n % 256 ^ (width + 1)), rest, ih]

/-- Every digit string is the encoding of the number it denotes. -/
theorem bigEndian_value (bs : Bytes) : bigEndian bs.length (value bs) = bs := by
  induction bs with
  | nil => rfl
  | cons b bs ih =>
    have low := value_lt bs
    have head : value (b :: bs) / 256 ^ bs.length = b.toNat := by
      rw [value, Nat.mul_comm, Nat.mul_add_div (Nat.pow_pos (by decide)), Nat.div_eq_of_lt low,
        Nat.add_zero]
    have rest : value (b :: bs) % 256 ^ bs.length = value bs := by
      rw [value, Nat.mul_comm, Nat.mul_add_mod, Nat.mod_eq_of_lt low]
    rw [List.length_cons, bigEndian, head, ← bigEndian_mod, rest, ih]
    simp

theorem value_append (as bs : Bytes) : value (as ++ bs) = value as * 256 ^ bs.length + value bs := by
  induction as with
  | nil => simp [value]
  | cons a as ih =>
    simp only [List.cons_append, value, ih, List.length_append, pow_add]
    ring

theorem bigEndian_add (high low n : Nat) :
    bigEndian (high + low) n = bigEndian high (n / 256 ^ low) ++ bigEndian low n := by
  induction high with
  | zero => rw [Nat.zero_add, bigEndian, List.nil_append]
  | succ high ih =>
    rw [Nat.add_right_comm, bigEndian, ih, bigEndian, Nat.div_div_eq_div_mul, ← pow_add, Nat.add_comm low high,
      List.cons_append]

/-- Four digits round-trip through a 32-bit word. -/
theorem uint32_bigEndian (x : UInt32) : UInt32.ofNat (value (bigEndian 4 x.toNat)) = x := by
  rw [value_bigEndian_four x.toNat_lt]
  simp

theorem bigEndian_uint32 {bs : Bytes} (four : bs.length = 4) :
    bigEndian 4 (UInt32.ofNat (value bs)).toNat = bs := by
  have bound := value_lt bs
  rw [four] at bound
  rw [UInt32.toNat_ofNat_of_lt' bound, ← four, bigEndian_value]

/-! ### Windows -/

/-- The elements at positions `lo, …, hi - 1`. -/
def window (xs : List α) (lo hi : Nat) : List α := (xs.take hi).drop lo

@[simp] theorem window_length (xs : List α) (lo hi : Nat) :
    (window xs lo hi).length = min hi xs.length - lo := by
  simp [window]

theorem window_append (xs : List α) (left : lo ≤ mid) (right : mid ≤ hi) :
    window xs lo mid ++ window xs mid hi = window xs lo hi := by
  have cut : (xs.take hi).take mid = xs.take mid := by
    rw [List.take_take, Nat.min_eq_left right]
  unfold window
  rw [← cut, List.drop_take, ← Nat.add_sub_cancel' left, ← List.drop_drop,
    Nat.add_sub_cancel_left, List.take_append_drop]

theorem window_to_end (xs : List α) (lo : Nat) : window xs lo xs.length = xs.drop lo := by
  simp [window]

theorem take_drop_window (xs : List α) (lo n : Nat) : (xs.drop lo).take n = window xs lo (lo + n) := by
  rw [window, List.drop_take, Nat.add_sub_cancel_left]

/-- A window that falls on a known middle part is that part. -/
theorem window_middle {xs pre mid post : List α} (split : xs = pre ++ mid ++ post)
    (start : lo = pre.length) (stop : hi = pre.length + mid.length) : window xs lo hi = mid := by
  subst split start stop
  rw [window, ← List.length_append, List.take_left, List.drop_left]

theorem window_window (xs : List α) (inner : b ≤ hi - lo) :
    window (window xs lo hi) a b = window xs (lo + a) (lo + b) := by
  unfold window
  by_cases order : lo ≤ hi
  · rw [List.take_drop, List.take_take, List.drop_drop, Nat.min_eq_left (by omega)]
  · have none : b = 0 := by omega
    subst none
    simp

theorem window_append_left {xs ys : List α} (inside : hi ≤ xs.length) :
    window (xs ++ ys) lo hi = window xs lo hi := by
  rw [window, List.take_append_of_le_length inside, window]

/-! ### Buffers -/

/-- The buffer after `src` has been stored at position `pos`. -/
def overwrite (buf : List α) (pos : Nat) (src : List α) : List α :=
  buf.take pos ++ src ++ buf.drop (pos + src.length)

theorem overwrite_length {buf src : List α} (room : pos + src.length ≤ buf.length) :
    (overwrite buf pos src).length = buf.length := by
  simp only [overwrite, List.length_append, List.length_take, List.length_drop]
  omega

/-- Storing the same again changes nothing. -/
theorem overwrite_again {buf src : List α} (room : pos + src.length ≤ buf.length) :
    overwrite (overwrite buf pos src) pos src = overwrite buf pos src := by
  have start : (buf.take pos).length = pos := by
    rw [List.length_take]
    omega
  have stop : (buf.take pos ++ src).length = pos + src.length := by
    rw [List.length_append, start]
  have before : (overwrite buf pos src).take pos = buf.take pos := by
    rw [overwrite, List.append_assoc, List.take_left' start]
  have after : (overwrite buf pos src).drop (pos + src.length) = buf.drop (pos + src.length) := by
    rw [overwrite, List.drop_left' stop]
  rw [overwrite, before, after, overwrite]

/-- Moving later elements down shows nothing new. -/
theorem overwrite_visible (xs : List α) {i len total : Nat} (inside : len ≤ total)
    (within : i ≤ xs.length) : (overwrite xs i (window xs (i + 1) len)).take total ⊆ xs.take total := by
  intro x member
  have width : (xs.take i ++ window xs (i + 1) len).length = i + (window xs (i + 1) len).length := by
    rw [List.length_append, List.length_take_of_le within]
  rw [overwrite, List.take_append, List.take_append, width, List.mem_append, List.mem_append] at member
  rcases member with (before | moved) | after
  · rw [List.take_take] at before
    exact List.take_subset_take_left xs (Nat.min_le_left _ _) before
  · have shown := List.mem_of_mem_drop (List.mem_of_mem_take moved)
    exact List.take_subset_take_left xs inside shown
  · rcases Nat.le_total total (i + (window xs (i + 1) len).length) with past | room
    · rw [Nat.sub_eq_zero_of_le past, List.take_zero] at after
      contradiction
    · rw [List.take_drop, Nat.add_sub_cancel' room] at after
      exact List.mem_of_mem_drop after

/-- A buffer of `total` elements whose first part has been written; the rest
still holds the fill element. -/
def filled (fill : α) (total : Nat) (written : List α) : List α :=
  written ++ List.replicate (total - written.length) fill

theorem filled_nil (fill : α) (total : Nat) :
    filled fill total [] = List.replicate total fill := by simp [filled]

theorem filled_full {written : List α} (all : written.length = total) :
    filled fill total written = written := by simp [filled, all]

theorem filled_length {written : List α} (room : written.length ≤ total) :
    (filled fill total written).length = total := by
  simp only [filled, List.length_append, List.length_replicate]
  omega

/-- Storing at the end of the written part extends it. -/
theorem overwrite_filled {written : List α} (next : pos = written.length) (src : List α) :
    overwrite (filled fill total written) pos src = filled fill total (written ++ src) := by
  subst next
  simp only [overwrite, filled, List.take_left, List.drop_length_add_append,
    List.drop_replicate, List.length_append, Nat.sub_sub]

end Octets
