import Mathlib.Data.List.Basic
import Mathlib.Data.List.Infix

/-! A list that is read piece by piece. A read takes a beginning of what is left, which is
not empty unless nothing is left; from the end on the reads are empty. The lines of a list
are such pieces, and so are the lines cut at a width. -/
namespace Pieces

variable {α : Type}

/-- A way of taking the next piece. -/
structure Reader (α : Type) where
  next : List α → List α
  beginning : ∀ xs, next xs <+: xs
  progress : ∀ {xs}, xs ≠ [] → next xs ≠ []

namespace Reader

variable (r : Reader α)

/-- What is left after a read. -/
def rest (xs : List α) : List α := xs.drop (r.next xs).length

theorem next_append_rest (xs : List α) : r.next xs ++ r.rest xs = xs := by
  obtain ⟨after, whole⟩ := r.beginning xs
  have left : r.rest xs = after := by
    rw [rest]
    nth_rewrite 2 [← whole]
    exact List.drop_left
  rw [left, whole]

theorem next_nil : r.next [] = [] := List.prefix_nil.mp (r.beginning [])

theorem rest_nil : r.rest [] = [] := List.drop_nil

theorem rest_length_lt {xs : List α} (left : xs ≠ []) : (r.rest xs).length < xs.length := by
  have taken := List.length_pos_iff.mpr (r.progress left)
  have present := List.length_pos_iff.mpr left
  rw [rest, List.length_drop]
  omega

def pieces (xs : List α) : List (List α) :=
  match xs with
  | [] => []
  | x :: xs => r.next (x :: xs) :: pieces (r.rest (x :: xs))
termination_by xs.length
decreasing_by exact r.rest_length_lt (List.cons_ne_nil x xs)

theorem pieces_nil : r.pieces [] = [] := by
  rw [pieces]

theorem pieces_of_ne_nil {xs : List α} (left : xs ≠ []) : r.pieces xs = r.next xs :: r.pieces (r.rest xs) := by
  cases xs with
  | nil => contradiction
  | cons x xs => rw [pieces]

/-- Every element stands in one of the pieces, in order. -/
theorem pieces_flatten (xs : List α) : (r.pieces xs).flatten = xs := by
  induction xs using Reader.pieces.induct r with
  | case1 => rw [pieces_nil, List.flatten_nil]
  | case2 x xs ih =>
    rw [r.pieces_of_ne_nil (List.cons_ne_nil x xs), List.flatten_cons, ih, next_append_rest]

theorem exists_next (member : p ∈ r.pieces xs) : ∃ ys, p = r.next ys := by
  induction xs using Reader.pieces.induct r with
  | case1 =>
    rw [pieces_nil] at member
    contradiction
  | case2 x xs ih =>
    rw [r.pieces_of_ne_nil (List.cons_ne_nil x xs)] at member
    rcases List.mem_cons.mp member with first | later
    · exact ⟨_, first⟩
    · exact ih later

theorem mem_of_mem_pieces (member : p ∈ r.pieces xs) (inside : x ∈ p) : x ∈ xs := by
  rw [← r.pieces_flatten xs]
  exact List.mem_flatten.mpr ⟨p, member, inside⟩

end Reader

/-! ### Several reads -/

/-- The reads one after another, and what they leave. -/
inductive Reads (r : Reader α) : List α → List (List α) → List α → Prop where
  | done : Reads r xs [] xs
  | next : Reads r (r.rest xs) ps ys → Reads r xs (r.next xs :: ps) ys

variable {r : Reader α} {xs ys zs : List α} {ps qs : List (List α)}

theorem Reads.single (r : Reader α) (xs : List α) : Reads r xs [r.next xs] (r.rest xs) := .next .done

theorem Reads.append (first : Reads r xs ps ys) (last : Reads r ys qs zs) : Reads r xs (ps ++ qs) zs := by
  induction first with
  | done => exact last
  | next _ ih => exact .next (ih last)

theorem Reads.split (reads : Reads r xs (ps ++ qs) zs) : ∃ ys, Reads r xs ps ys ∧ Reads r ys qs zs := by
  induction ps generalizing xs with
  | nil => exact ⟨xs, .done, reads⟩
  | cons p ps ih =>
    cases reads with
    | next reads =>
      obtain ⟨ys, first, last⟩ := ih reads
      exact ⟨ys, .next first, last⟩

/-- What holds of every read holds of all that is read. -/
theorem Reads.forall_mem {P : List α → Prop} (holds : ∀ xs, P (r.next xs)) (reads : Reads r xs ps ys) :
    ∀ p ∈ ps, P p := by
  induction reads with
  | done =>
    intro p member
    exact absurd member List.not_mem_nil
  | next _ ih =>
    intro p member
    rcases List.mem_cons.mp member with rfl | member
    · exact holds _
    · exact ih p member

/-- At the end all reads are empty. -/
theorem Reads.of_nil (reads : Reads r [] ps ys) : ps = List.replicate ps.length [] ∧ ys = [] := by
  induction ps with
  | nil =>
    cases reads
    exact ⟨rfl, rfl⟩
  | cons p ps ih =>
    cases reads with
    | next reads =>
      rw [r.rest_nil] at reads
      obtain ⟨same, left⟩ := ih reads
      exact ⟨by rw [r.next_nil, List.length_cons, List.replicate_succ, ← same], left⟩

theorem exists_reads_nil (r : Reader α) (n : Nat) : Reads r [] (List.replicate n []) [] := by
  induction n with
  | zero => exact .done
  | succ n ih =>
    have later : Reads r (r.rest []) (List.replicate n []) [] := by rwa [r.rest_nil]
    have step := Reads.next later
    rwa [r.next_nil] at step

/-- Reads are the pieces, and empty ones from the end on. -/
theorem reads_iff : (∃ ys, Reads r xs ps ys) ↔ ∃ n, ps <+: r.pieces xs ++ List.replicate n [] := by
  induction ps generalizing xs with
  | nil => exact iff_of_true ⟨xs, .done⟩ ⟨0, List.nil_prefix⟩
  | cons p ps ih =>
    rcases eq_or_ne xs [] with rfl | left
    · rw [r.pieces_nil]
      constructor
      · rintro ⟨ys, reads⟩
        refine ⟨(p :: ps).length, ?_⟩
        rw [List.nil_append, ← reads.of_nil.1]
      · rintro ⟨n, after, whole⟩
        have same : p :: ps = List.replicate (p :: ps).length [] := by
          apply List.eq_replicate_length.mpr
          intro q member
          exact List.eq_of_mem_replicate (whole ▸ List.mem_append_left _ member)
        rw [same]
        exact ⟨[], exists_reads_nil r _⟩
    · rw [r.pieces_of_ne_nil left]
      constructor
      · rintro ⟨ys, reads⟩
        cases reads with
        | next reads =>
          obtain ⟨n, before⟩ := ih.mp ⟨ys, reads⟩
          exact ⟨n, List.cons_prefix_cons.mpr ⟨rfl, before⟩⟩
      · rintro ⟨n, before⟩
        obtain ⟨rfl, later⟩ := List.cons_prefix_cons.mp before
        obtain ⟨ys, reads⟩ := ih.mpr ⟨n, later⟩
        exact ⟨ys, .next reads⟩

theorem exists_reads (pieces : ps <+: r.pieces xs) : ∃ ys, Reads r xs ps ys :=
  reads_iff.mpr ⟨0, by rwa [List.replicate_zero, List.append_nil]⟩

/-! ### Lines -/

section Lines

variable [DecidableEq α] (newline : α)

/-- The first line with its newline, if it has one. -/
def line : List α → List α
  | [] => []
  | x :: xs => if x = newline then [x] else x :: line xs

theorem line_prefix (xs : List α) : line newline xs <+: xs := by
  induction xs with
  | nil => exact List.nil_prefix
  | cons x xs ih =>
    rw [line]
    split
    · exact List.cons_prefix_cons.mpr ⟨rfl, List.nil_prefix⟩
    · exact List.cons_prefix_cons.mpr ⟨rfl, ih⟩

/-- A newline stands at the end of a line only. -/
theorem line_cases (xs : List α) :
    ∃ body stop, line newline xs = body ++ stop ∧ newline ∉ body ∧ (stop = [] ∨ stop = [newline]) := by
  induction xs with
  | nil => exact ⟨[], [], rfl, List.not_mem_nil, .inl rfl⟩
  | cons x xs ih =>
    by_cases last : x = newline
    · refine ⟨[], [newline], ?_, List.not_mem_nil, .inr rfl⟩
      rw [line, if_pos last, last, List.nil_append]
    · obtain ⟨body, stop, whole, absent, ends⟩ := ih
      refine ⟨x :: body, stop, ?_, List.not_mem_cons_of_ne_of_not_mem (Ne.symm last) absent, ends⟩
      rw [line, if_neg last, whole, List.cons_append]

def lines : Reader α where
  next := line newline
  beginning := line_prefix newline
  progress := by
    intro xs left
    cases xs with
    | nil => contradiction
    | cons x xs =>
      rw [line]
      split <;> exact List.cons_ne_nil _ _

end Lines

/-- The pieces of another reader, each cut at a width. -/
def Reader.atMost (width : Nat) (positive : 0 < width) (r : Reader α) : Reader α where
  next xs := (r.next xs).take width
  beginning xs := (List.take_prefix _ _).trans (r.beginning xs)
  progress := by
    intro xs left
    rw [Ne, List.take_eq_nil_iff]
    rintro (zero | nothing)
    · exact positive.ne' zero
    · exact r.progress left nothing

/-- Pieces that are not too long are read whole. -/
theorem prefix_atMost {width : Nat} {positive : 0 < width} (pieces : ps <+: r.pieces xs)
    (short : ∀ p ∈ ps, p.length ≤ width) : ps <+: (r.atMost width positive).pieces xs := by
  induction ps generalizing xs with
  | nil => exact List.nil_prefix
  | cons p ps ih =>
    rcases eq_or_ne xs [] with rfl | left
    · rw [r.pieces_nil] at pieces
      cases List.prefix_nil.mp pieces
    · rw [r.pieces_of_ne_nil left] at pieces
      obtain ⟨rfl, later⟩ := List.cons_prefix_cons.mp pieces
      have whole : (r.atMost width positive).next xs = r.next xs :=
        List.take_of_length_le (short _ List.mem_cons_self)
      have same : (r.atMost width positive).rest xs = r.rest xs := by
        rw [Reader.rest, whole, Reader.rest]
      rw [Reader.pieces_of_ne_nil _ left, whole, same]
      apply List.cons_prefix_cons.mpr
      exact ⟨rfl, ih later (fun p member => short p (List.mem_cons_of_mem _ member))⟩

theorem next_atMost_length (width : Nat) (positive : 0 < width) (r : Reader α) (xs : List α) :
    ((r.atMost width positive).next xs).length ≤ width := by
  rw [Reader.atMost, List.length_take]
  exact Nat.min_le_left _ _

end Pieces
