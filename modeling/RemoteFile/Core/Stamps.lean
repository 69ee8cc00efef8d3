import Mathlib.Data.List.Basic
import Mathlib.Order.Basic

/-! Stores whose values carry stamps. When every change of a value raises its
stamp, equal stamps at two moments mean that nothing happened in between. -/
namespace Stamps

variable {κ α τ : Type}

/-- Every value is kept, or replaced by one with a higher stamp. -/
def Advances [LT τ] (stamp : α → τ) (s t : κ → Option α) : Prop :=
  ∀ key, t key = s key ∨ ∃ a b, s key = some a ∧ t key = some b ∧ stamp a < stamp b

/-- No value is lost, or replaced by one with a lower stamp. -/
def Grows [LE τ] (stamp : α → τ) (s t : κ → Option α) : Prop :=
  ∀ key a, s key = some a → ∃ b, t key = some b ∧ stamp a ≤ stamp b

variable [Preorder τ] {stamp : α → τ} {s t u : κ → Option α} {key : κ} {a b : α}

theorem Advances.refl (s : κ → Option α) : Advances stamp s s := fun _ => .inl rfl

theorem Advances.trans (first : Advances stamp s t) (second : Advances stamp t u) :
    Advances stamp s u := by
  intro key
  rcases first key with kept | ⟨a, b, before, after, raised⟩
  · rw [← kept]
    exact second key
  · rcases second key with kept | ⟨b', c, before', after', raised'⟩
    · exact .inr ⟨a, b, before, kept.trans after, raised⟩
    · obtain rfl := Option.some.inj (after.symm.trans before')
      exact .inr ⟨a, c, before, after', lt_trans raised raised'⟩

theorem Advances.stamp_le (advances : Advances stamp s t) (before : s key = some a)
    (after : t key = some b) : stamp a ≤ stamp b := by
  rcases advances key with kept | ⟨a', b', before', after', raised⟩
  · obtain rfl := Option.some.inj (before.symm.trans (kept.symm.trans after))
    exact le_refl _
  · obtain rfl := Option.some.inj (before.symm.trans before')
    obtain rfl := Option.some.inj (after.symm.trans after')
    exact le_of_lt raised

/-- A value present in the end is the same, or it was present and has been raised. -/
theorem Advances.before (advances : Advances stamp s t) (after : t key = some b) :
    s key = some b ∨ ∃ a, s key = some a ∧ stamp a < stamp b := by
  rcases advances key with kept | ⟨a, b', before, after', raised⟩
  · exact .inl (kept.symm.trans after)
  · obtain rfl := Option.some.inj (after.symm.trans after')
    exact .inr ⟨a, before, raised⟩

/-- Equal stamps: the same value. -/
theorem Advances.same (advances : Advances stamp s t) (before : s key = some a)
    (after : t key = some b) (equal : stamp a = stamp b) : b = a := by
  rcases advances.before after with kept | ⟨a', before', raised⟩
  · exact Option.some.inj (kept.symm.trans before)
  · obtain rfl := Option.some.inj (before.symm.trans before')
    exact absurd equal (ne_of_lt raised)

/-- Equal stamps: the same value at every moment in between. -/
theorem Advances.between (first : Advances stamp s t) (second : Advances stamp t u)
    (before : s key = some a) (after : u key = some b) (equal : stamp a = stamp b) :
    t key = some b := by
  rcases second.before after with kept | ⟨m, middle, raised⟩
  · exact kept
  · have order := first.stamp_le before middle
    exact absurd (equal ▸ lt_of_le_of_lt order raised) (lt_irrefl _)

theorem Grows.refl (s : κ → Option α) : Grows stamp s s := fun _ a present => ⟨a, present, le_refl _⟩

theorem Grows.trans (first : Grows stamp s t) (second : Grows stamp t u) : Grows stamp s u := by
  intro key a present
  obtain ⟨b, middle, raised⟩ := first key a present
  obtain ⟨c, later, raised'⟩ := second key b middle
  exact ⟨c, later, le_trans raised raised'⟩

/-! ### Histories -/

variable {R : α → α → Prop} {past : List α} {x y : α} {i j : Nat}

/-- A history whose moments are related to all later ones grows by a step from its
last moment. -/
theorem pairwise_concat (trans : ∀ {a b c}, R a b → R b c → R a c) (related : (past ++ [x]).Pairwise R)
    (step : R x y) : (past ++ [x] ++ [y]).Pairwise R := by
  refine List.pairwise_append.mpr ⟨related, List.pairwise_singleton R y, ?_⟩
  intro a member b last
  obtain rfl := List.mem_singleton.mp last
  rcases List.mem_append.mp member with before | now
  · exact trans ((List.pairwise_append.mp related).2.2 a before x (List.mem_singleton.mpr rfl)) step
  · obtain rfl := List.mem_singleton.mp now
    exact step

theorem pairwise_at (refl : ∀ a, R a a) (related : past.Pairwise R) (order : i ≤ j)
    (early : past[i]? = some x) (late : past[j]? = some y) : R x y := by
  obtain ⟨left, rfl⟩ := List.getElem?_eq_some_iff.mp early
  obtain ⟨right, rfl⟩ := List.getElem?_eq_some_iff.mp late
  rcases Nat.eq_or_lt_of_le order with same | before
  · subst same
    exact refl _
  · exact List.pairwise_iff_getElem.mp related i j left right before

end Stamps
