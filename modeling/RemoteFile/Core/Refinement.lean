import RemoteFile.Core.Run

/-! Runs of a machine as runs of a more abstract one, which may do several things in one
state and tells them apart by labels. -/
namespace Refinement
open Transition

variable {σ ε ω α ℓ : Type} {A : α → ℓ → α → Prop} {a b c : α} {ls ms : List ℓ}

/-- A run of the abstract machine, by its labels. -/
inductive Trace (A : α → ℓ → α → Prop) : α → List ℓ → α → Prop where
  | nil (a : α) : Trace A a [] a
  | cons {a b c : α} {l : ℓ} {ls : List ℓ} (first : A a l b) (rest : Trace A b ls c) :
    Trace A a (l :: ls) c

theorem Trace.append (first : Trace A a ls b) (second : Trace A b ms c) :
    Trace A a (ls ++ ms) c := by
  induction first with
  | nil => exact second
  | cons head rest ih => exact .cons head (ih second)

theorem Trace.labels {Q : ℓ → Prop} (each : ∀ a l b, A a l b → Q l) (trace : Trace A a ls b) : ∀ l ∈ ls, Q l := by
  induction trace with
  | nil => nofun
  | cons first rest ih => exact List.forall_mem_cons.mpr ⟨each _ _ _ first, ih⟩

/-- Where each step of a machine is a labelled step of the abstract one, a run is a trace;
the label at a position explains the step that is taken there. -/
theorem trace_of_run {step : σ → ε → Option (σ × ω)} {R : σ → α → Prop} {P : ε → Prop}
    {X : σ → ε → ω → ℓ → Prop}
    (simulates : ∀ s e t o a, R s a → P e → step s e = some (t, o) →
      ∃ l b, A a l b ∧ R t b ∧ X s e o l)
    {s t : σ} {es : List ε} {os : List ω} (initial : R s a) (fine : ∀ e ∈ es, P e)
    (ran : run step s es = some (t, os)) :
    ∃ ls b, Trace A a ls b ∧ R t b ∧ ls.length = es.length ∧
      ∀ (i : Nat) (e : ε), es[i]? = some e → ∃ l o s' before, ls[i]? = some l ∧ os[i]? = some o ∧
        run step s (es.take i) = some (s', before) ∧ X s' e o l := by
  induction es generalizing s a os with
  | nil =>
    obtain ⟨rfl, _⟩ := run_nil_iff.mp ran
    exact ⟨[], a, .nil a, initial, rfl, fun i e here => nomatch here⟩
  | cons e es ih =>
    obtain ⟨m, o, rest, head, tail, rfl⟩ := run_cons_iff.mp ran
    obtain ⟨here, later⟩ := List.forall_mem_cons.mp fine
    obtain ⟨l, b, taken, next, explained⟩ := simulates s e m o a initial here head
    obtain ⟨ls, c, trace, final, length, all⟩ := ih next later tail
    refine ⟨l :: ls, c, .cons taken trace, final, by rw [List.length_cons, length, List.length_cons], ?_⟩
    intro i e' at_i
    cases i with
    | zero =>
      obtain rfl := Option.some.inj at_i
      exact ⟨l, o, s, [], rfl, rfl, rfl, explained⟩
    | succ i =>
      obtain ⟨l', o', s', before, label, output, left, reason⟩ := all i e' at_i
      exact ⟨l', o', s', o :: before, label, output, run_cons_iff.mpr ⟨m, o, before, head, left, rfl⟩, reason⟩

/-! ### One component of a machine -/

variable {step : σ → ε → Option (σ × ω)} {R : σ → σ → Prop} {relevant : ε → Bool}

/-- The outputs of the events that concern a component. -/
def observed (relevant : ε → Bool) (es : List ε) (os : List ω) : List ω :=
  ((es.zip os).filter (relevant ·.1)).map Prod.snd

end Refinement
