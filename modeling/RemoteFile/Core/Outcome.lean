import RemoteFile.Core.Octets

/-! Outcomes of C++ code that reads byte vectors: a value, an exception, or
undefined behaviour, which an unchecked access outside the vector causes. -/
namespace Cpp
open Octets

inductive Exception where
  | invalidArgument (what : String)
  | outOfRange (what : String)
  deriving DecidableEq

inductive Outcome (α : Type) where
  | returns (a : α)
  | throws (e : Exception)
  | undefined
  deriving DecidableEq

namespace Outcome

def bind (x : Outcome α) (f : α → Outcome β) : Outcome β :=
  match x with
  | returns a => f a
  | throws e => throws e
  | undefined => undefined

instance : Monad Outcome where
  pure := returns
  bind := bind

@[simp] theorem returns_bind (a : α) (f : α → Outcome β) : (returns a >>= f) = f a := rfl
@[simp] theorem throws_bind (e : Exception) (f : α → Outcome β) : (throws e >>= f) = throws e := rfl
@[simp] theorem undefined_bind (f : α → Outcome β) : (undefined >>= f) = undefined := rfl

theorem bind_returns_iff {x : Outcome α} {f : α → Outcome β} :
    (x >>= f) = returns b ↔ ∃ a, x = returns a ∧ f a = returns b := by
  cases x <;> simp

end Outcome

open Outcome

/-- `v[i]` -/
def element (v : List α) (i : Nat) : Outcome α :=
  match v[i]? with
  | some a => returns a
  | none => undefined

theorem element_append (pre post : List α) (a : α) (here : i = pre.length) :
    element (pre ++ a :: post) i = returns a := by
  simp [element, here]

/-- The range `[v.begin() + n, v.end())`. -/
def rangeFrom (v : List α) (n : Nat) : Outcome (List α) :=
  if n ≤ v.length then returns (v.drop n) else undefined

/-- `std::memcpy(buf.data() + pos, src, srcLen)` into a vector. -/
def memcpy (buf : List α) (pos : Nat) (src : List α) : Outcome (List α) :=
  if pos + src.length ≤ buf.length then returns (overwrite buf pos src) else undefined

theorem memcpy_filled {written src : List α} (next : pos = written.length)
    (room : pos + src.length ≤ total) :
    memcpy (filled fill total written) pos src = returns (filled fill total (written ++ src)) := by
  rw [memcpy, filled_length (by omega), if_pos room, overwrite_filled next]

/-- `data.substr(pos, count)` -/
def substr (data : Bytes) (pos count : Nat) : Outcome Bytes :=
  if pos ≤ data.length then returns ((data.drop pos).take count)
  else throws (.outOfRange "basic_string::substr")

/-- `acc = (acc << 8) | b` in a 64-bit unsigned word. -/
def shiftIn (acc : UInt64) (b : UInt8) : UInt64 := (acc <<< 8) ||| b.toUInt64

/-- `for (i = start; i < start + count; i++) acc = (acc << 8) | v[i];` -/
def shiftInRange (v : Bytes) (acc : UInt64) (start : Nat) : (count : Nat) → Outcome UInt64
  | 0 => returns acc
  | count + 1 => do
    let b ← element v start
    shiftInRange v (shiftIn acc b) (start + 1) count

theorem shiftIn_toNat {acc : UInt64} (small : acc.toNat < 2 ^ 56) (b : UInt8) :
    (shiftIn acc b).toNat = acc.toNat * 256 + b.toNat := by
  have shifted : acc.toNat <<< 8 % 2 ^ 64 = acc.toNat <<< 8 := by
    apply Nat.mod_eq_of_lt
    rw [Nat.shiftLeft_eq]
    omega
  have joined := Nat.shiftLeft_add_eq_or_of_lt (i := 8) b.toNat_lt acc.toNat
  simp only [shiftIn, UInt64.toNat_or, UInt64.toNat_shiftLeft, UInt8.toNat_toUInt64]
  change acc.toNat <<< 8 % 2 ^ 64 ||| b.toNat = acc.toNat * 256 + b.toNat
  rw [shifted, ← joined, Nat.shiftLeft_eq]

/-- The loop reads a big-endian number, as long as the number fits in 64 bits. -/
theorem shiftInRange_returns (pre mid post : Bytes) (acc : UInt64) (here : start = pre.length)
    (fits : acc.toNat * 256 ^ mid.length + value mid < 2 ^ 64) :
    ∃ word, shiftInRange (pre ++ mid ++ post) acc start mid.length = returns word ∧
      word.toNat = acc.toNat * 256 ^ mid.length + value mid := by
  induction mid generalizing pre acc start with
  | nil => exact ⟨acc, rfl, by simp [value]⟩
  | cons b mid ih =>
    have unfold : acc.toNat * 256 ^ (b :: mid).length + value (b :: mid) =
        (acc.toNat * 256 + b.toNat) * 256 ^ mid.length + value mid := by
      rw [value, List.length_cons, Nat.pow_succ]
      ring
    have low : acc.toNat * 256 + b.toNat < 2 ^ 64 := by
      have step := Nat.le_mul_of_pos_right (acc.toNat * 256 + b.toNat)
        (Nat.pow_pos (n := mid.length) (show 0 < 256 by decide))
      omega
    have next := shiftIn_toNat (show acc.toNat < 2 ^ 56 by omega) b
    obtain ⟨word, read, number⟩ := ih (pre ++ [b]) (shiftIn acc b)
      (show start + 1 = (pre ++ [b]).length by simp [here]) (by rw [next, ← unfold]; exact fits)
    refine ⟨word, ?_, by rw [number, next, unfold]⟩
    have at_b : element (pre ++ (b :: mid) ++ post) start = returns b := by
      rw [List.append_assoc, List.cons_append]
      exact element_append _ _ _ here
    rw [List.length_cons, shiftInRange, at_b, returns_bind]
    simpa only [List.append_assoc, List.cons_append, List.nil_append] using read

end Cpp
