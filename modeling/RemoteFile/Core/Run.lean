import Mathlib.Data.List.Basic

/-! Runs of a machine given by a partial step function. A step consumes one
event and emits one output; a run that gets stuck has no result. -/
namespace Transition

variable {σ ε ω : Type}

def run (step : σ → ε → Option (σ × ω)) : σ → List ε → Option (σ × List ω)
  | s, [] => some (s, [])
  | s, e :: es => do
    let (t, o) ← step s e
    let (u, os) ← run step t es
    some (u, o :: os)

variable {step : σ → ε → Option (σ × ω)}

theorem run_cons_iff {s u : σ} {e : ε} {es : List ε} {os : List ω} :
    run step s (e :: es) = some (u, os) ↔
      ∃ t o rest, step s e = some (t, o) ∧ run step t es = some (u, rest) ∧ os = o :: rest := by
  constructor
  · intro h
    simp only [run, Option.bind_eq_bind, Option.bind_eq_some_iff] at h
    obtain ⟨⟨t, o⟩, first, ⟨u', rest⟩, later, same⟩ := h
    cases same
    exact ⟨t, o, rest, first, later, rfl⟩
  · rintro ⟨t, o, rest, first, later, rfl⟩
    simp [run, first, later]

theorem run_nil_iff {s u : σ} {os : List ω} : run step s [] = some (u, os) ↔ u = s ∧ os = [] := by
  simp only [run, Option.some.injEq, Prod.mk.injEq, eq_comm]

theorem run_append_iff {s u : σ} {es es' : List ε} {os : List ω} :
    run step s (es ++ es') = some (u, os) ↔
      ∃ t before after, run step s es = some (t, before) ∧ run step t es' = some (u, after) ∧
        os = before ++ after := by
  induction es generalizing s os with
  | nil =>
    constructor
    · intro h
      exact ⟨s, [], os, rfl, h, rfl⟩
    · rintro ⟨t, before, after, first, second, rfl⟩
      obtain ⟨rfl, rfl⟩ := run_nil_iff.mp first
      exact second
  | cons e es ih =>
    rw [List.cons_append]
    constructor
    · intro h
      obtain ⟨m, o, rest, head, tail, rfl⟩ := run_cons_iff.mp h
      obtain ⟨t, before, after, first, second, rfl⟩ := ih.mp tail
      exact ⟨t, o :: before, after, run_cons_iff.mpr ⟨m, o, before, head, first, rfl⟩, second, rfl⟩
    · rintro ⟨t, before, after, first, second, rfl⟩
      obtain ⟨m, o, rest, head, tail, rfl⟩ := run_cons_iff.mp first
      exact run_cons_iff.mpr ⟨m, o, rest ++ after, head, ih.mpr ⟨t, rest, after, tail, second, rfl⟩, rfl⟩

/-- The step that a run takes at a position, with the run before and after it. -/
theorem run_at {s u : σ} {es : List ε} {os : List ω} {e : ε} (h : run step s es = some (u, os))
    (here : es[i]? = some e) :
    ∃ t o t' before after, run step s (es.take i) = some (t, before) ∧ step t e = some (t', o) ∧
      run step t' (es.drop (i + 1)) = some (u, after) ∧ os = before ++ o :: after ∧
      before.length = i := by
  induction es generalizing s os i with
  | nil => simp at here
  | cons first es ih =>
    obtain ⟨m, o, rest, head, tail, rfl⟩ := run_cons_iff.mp h
    cases i with
    | zero =>
      cases here
      exact ⟨s, o, m, [], rest, rfl, head, tail, rfl, rfl⟩
    | succ i =>
      obtain ⟨t, o', t', before, after, left, step_here, right, rfl, length⟩ := ih tail here
      exact ⟨t, o', t', o :: before, after, run_cons_iff.mpr ⟨m, o, before, head, left, rfl⟩,
        step_here, right, rfl, by rw [List.length_cons, length]⟩

/-- Every event of a run is taken in a state that meets a condition. -/
def Along (step : σ → ε → Option (σ × ω)) (ok : σ → ε → Prop) : σ → List ε → Prop
  | _, [] => True
  | s, e :: es => ok s e ∧ ∀ t o, step s e = some (t, o) → Along step ok t es

/-- A condition on the events alone. -/
theorem along_of_forall {ok : ε → Prop} {s : σ} {es : List ε} (all : ∀ e ∈ es, ok e) :
    Along step (fun _ e => ok e) s es := by
  induction es generalizing s with
  | nil => trivial
  | cons e es ih =>
    obtain ⟨here, later⟩ := List.forall_mem_cons.mp all
    exact ⟨here, fun _ _ _ => ih later⟩

theorem along_and {ok ok' : σ → ε → Prop} {s : σ} {es : List ε} (first : Along step ok s es)
    (second : Along step ok' s es) : Along step (fun s e => ok s e ∧ ok' s e) s es := by
  induction es generalizing s with
  | nil => trivial
  | cons e es ih =>
    refine ⟨⟨first.1, second.1⟩, ?_⟩
    intro t o head
    exact ih (first.2 t o head) (second.2 t o head)

/-- A run gets through exactly if each of its steps does. -/
theorem run_returns_iff {s : σ} {es : List ε} : (∃ u os, run step s es = some (u, os)) ↔
    Along step (fun s e => ∃ t o, step s e = some (t, o)) s es := by
  induction es generalizing s with
  | nil => exact ⟨fun _ => trivial, fun _ => ⟨s, [], rfl⟩⟩
  | cons e es ih =>
    constructor
    · rintro ⟨u, os, ran⟩
      obtain ⟨t, o, rest, head, tail, rfl⟩ := run_cons_iff.mp ran
      refine ⟨⟨t, o, head⟩, ?_⟩
      intro t' o' head'
      cases head.symm.trans head'
      exact ih.mp ⟨u, rest, tail⟩
    · rintro ⟨⟨t, o, head⟩, later⟩
      obtain ⟨u, rest, tail⟩ := ih.mpr (later t o head)
      exact ⟨u, o :: rest, run_cons_iff.mpr ⟨t, o, rest, head, tail, rfl⟩⟩

/-- Conditions that mean the same where an invariant holds mean the same along a run. -/
theorem along_iff {P : σ → Prop} {ok ok' : σ → ε → Prop} {s : σ} {es : List ε}
    (preserves : ∀ s e t o, P s → step s e = some (t, o) → P t) (same : ∀ s e, P s → (ok s e ↔ ok' s e))
    (initial : P s) : Along step ok s es ↔ Along step ok' s es := by
  induction es generalizing s with
  | nil => exact Iff.rfl
  | cons e es ih =>
    have later (t : σ) (o : ω) (head : step s e = some (t, o)) : Along step ok t es ↔ Along step ok' t es :=
      ih (preserves s e t o initial head)
    constructor
    · rintro ⟨here, rest⟩
      exact ⟨(same s e initial).mp here, fun t o head => (later t o head).mp (rest t o head)⟩
    · rintro ⟨here, rest⟩
      exact ⟨(same s e initial).mpr here, fun t o head => (later t o head).mpr (rest t o head)⟩

/-- The condition on the steps of a run, evaluated. -/
def checkAlong (step : σ → ε → Option (σ × ω)) (check : σ → ε → Bool) : σ → List ε → Bool
  | _, [] => true
  | s, e :: es => check s e && match step s e with
    | none => true
    | some (t, _) => checkAlong step check t es

theorem along_of_check {ok : σ → ε → Prop} {check : σ → ε → Bool} {s : σ} {es : List ε}
    (sound : ∀ s e, check s e = true → ok s e) (checked : checkAlong step check s es = true) :
    Along step ok s es := by
  induction es generalizing s with
  | nil => trivial
  | cons e es ih =>
    obtain ⟨here, later⟩ := Bool.and_eq_true_iff.mp checked
    refine ⟨sound s e here, fun t o stepped => ih ?_⟩
    rw [stepped] at later
    exact later

/-- An invariant that every permitted step preserves holds wherever a run of
permitted steps arrives. -/
theorem run_invariant {P : σ → Prop} {ok : σ → ε → Prop} {s u : σ} {es : List ε} {os : List ω}
    (preserves : ∀ s e t o, P s → ok s e → step s e = some (t, o) → P t)
    (initial : P s) (along : Along step ok s es) (h : run step s es = some (u, os)) : P u := by
  induction es generalizing s os with
  | nil =>
    obtain ⟨rfl, _⟩ := run_nil_iff.mp h
    exact initial
  | cons e es ih =>
    obtain ⟨t, o, rest, head, tail, _⟩ := run_cons_iff.mp h
    exact ih (preserves s e t o initial along.1 head) (along.2 t o head) tail

/-- Without a condition on the steps. -/
theorem run_always {P : σ → Prop} {s u : σ} {es : List ε} {os : List ω}
    (preserves : ∀ s e t o, P s → step s e = some (t, o) → P t)
    (initial : P s) (h : run step s es = some (u, os)) : P u := by
  induction es generalizing s os with
  | nil =>
    obtain ⟨rfl, _⟩ := run_nil_iff.mp h
    exact initial
  | cons e es ih =>
    obtain ⟨t, o, rest, head, tail, _⟩ := run_cons_iff.mp h
    exact ih (preserves s e t o initial head) tail

/-- A condition on outputs that each step establishes for its own output, and no
later step breaks, holds of all outputs of a run. -/
theorem run_emits {P : σ → Prop} {Q : σ → ω → Prop} {ok : σ → ε → Prop} {s u : σ} {es : List ε}
    {os : List ω} (preserves : ∀ s e t o, P s → ok s e → step s e = some (t, o) → P t ∧ Q t o)
    (kept : ∀ s e t o o', step s e = some (t, o) → Q s o' → Q t o')
    (initial : P s) (along : Along step ok s es) (h : run step s es = some (u, os)) :
    ∀ o ∈ os, Q u o := by
  have later : ∀ (s : σ) (es : List ε) (os : List ω) (o : ω), run step s es = some (u, os) → Q s o →
      Q u o := by
    intro s es os o ran
    induction es generalizing s os with
    | nil => exact (run_nil_iff.mp ran).1 ▸ id
    | cons e es ih =>
      obtain ⟨t, o', rest, head, tail, _⟩ := run_cons_iff.mp ran
      exact fun holds => ih t rest tail (kept s e t o' o head holds)
  induction es generalizing s os with
  | nil =>
    obtain ⟨_, rfl⟩ := run_nil_iff.mp h
    intro o member
    exact absurd member List.not_mem_nil
  | cons e es ih =>
    obtain ⟨t, o, rest, head, tail, rfl⟩ := run_cons_iff.mp h
    obtain ⟨next, own⟩ := preserves s e t o initial along.1 head
    intro o' member
    rcases List.mem_cons.mp member with rfl | member
    · exact later t es rest o' tail own
    · exact ih next (along.2 t o head) tail o' member

/-- An invariant of the state together with the outputs so far. -/
theorem run_record {P : σ → List ω → Prop} {ok : σ → ε → Prop} {s u : σ} {es : List ε} {os : List ω}
    (preserves : ∀ s e t o past, P s past → ok s e → step s e = some (t, o) → P t (past ++ [o]))
    (initial : P s []) (along : Along step ok s es) (h : run step s es = some (u, os)) : P u os := by
  suffices from_here : ∀ past, P s past → P u (past ++ os) from from_here [] initial
  clear initial
  induction es generalizing s os with
  | nil =>
    obtain ⟨rfl, rfl⟩ := run_nil_iff.mp h
    intro past here
    rwa [List.append_nil]
  | cons e es ih =>
    obtain ⟨t, o, rest, head, tail, rfl⟩ := run_cons_iff.mp h
    intro past here
    have next := preserves s e t o past here along.1 head
    have final := ih (along.2 t o head) tail (past ++ [o]) next
    rwa [List.append_assoc] at final

/-- Where nothing brings the dead back, and fatal steps alone kill, a run ends alive exactly if
none of its steps is fatal. -/
theorem alive_iff {P Dead : σ → Prop} {ok fatal : σ → ε → Prop} {s u : σ} {es : List ε} {os : List ω}
    (preserves : ∀ s e t o, P s → ok s e → step s e = some (t, o) → P t)
    (dies : ∀ s e t o, P s → ok s e → step s e = some (t, o) → ¬ Dead s → (Dead t ↔ fatal s e))
    (stays : ∀ s e t o, Dead s → step s e = some (t, o) → Dead t)
    (initial : P s) (alive : ¬ Dead s) (along : Along step ok s es) (h : run step s es = some (u, os)) :
    ¬ Dead u ↔ Along step (fun s e => ¬ fatal s e) s es := by
  induction es generalizing s os with
  | nil =>
    obtain ⟨rfl, _⟩ := run_nil_iff.mp h
    exact ⟨fun _ => trivial, fun _ => alive⟩
  | cons e es ih =>
    obtain ⟨t, o, rest, head, tail, _⟩ := run_cons_iff.mp h
    have kills := dies s e t o initial along.1 head alive
    have next := preserves s e t o initial along.1 head
    by_cases dead : Dead t
    · have ends : Dead u := run_always (P := Dead) stays dead tail
      exact ⟨fun lives => absurd ends lives, fun harmless => absurd (kills.mp dead) harmless.1⟩
    · have later := ih next dead (along.2 t o head) tail
      constructor
      · intro lives
        refine ⟨fun fatal => dead (kills.mpr fatal), ?_⟩
        intro t' o' head'
        cases head.symm.trans head'
        exact later.mp lives
      · intro harmless
        exact later.mpr (harmless.2 t o head)

/-- Two machines that step alike, up to what happens to the events, run alike. -/
theorem run_map {δ : Type} {other : σ → δ → Option (σ × ω)} (f : ε → δ)
    (same : ∀ s e, step s e = other s (f e)) (s : σ) (es : List ε) :
    run step s es = run other s (es.map f) := by
  induction es generalizing s with
  | nil => rfl
  | cons e es ih => simp only [run, List.map_cons, same, ih]

/-- A machine whose steps are the image of another machine's steps runs as the
image of its runs. -/
theorem run_image {τ χ : Type} {other : τ → ε → Option (τ × χ)} (f : σ → τ) (g : ω → χ)
    (same : ∀ s e, other (f s) e = (step s e).map (Prod.map f g)) (s : σ) (es : List ε) :
    run other (f s) es = (run step s es).map (Prod.map f (List.map g)) := by
  induction es generalizing s with
  | nil => rfl
  | cons e es ih =>
    rw [run, run, same]
    cases step s e with
    | none => rfl
    | some result =>
      obtain ⟨t, o⟩ := result
      simp only [Option.map_some, Option.bind_eq_bind, Option.bind_some, Prod.map, ih]
      cases run step t es <;> rfl

end Transition
