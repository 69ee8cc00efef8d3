import RemoteFile.Core.Run
import Mathlib.Logic.Function.Basic

/-! Duplicate suppression. A machine executes requests that carry a key; a table
in front of it answers a request whose key it has already seen with the stored
reply. The filtered machine does what the bare machine does on the first
request of each key. -/
namespace OnceOnly
open Transition

/-- What the table does with an event. -/
inductive Tag (κ : Type) where
  /-- Not a request; it steps the machine and is never suppressed. -/
  | background
  /-- It has no effect and no answer. -/
  | dropped
  /-- A request without a key: it is refused. -/
  | anonymous
  /-- A request that is refused unless its key has a stored reply. -/
  | refused (key : κ)
  /-- A request that is executed unless its key has a stored reply. -/
  | keyed (key : κ)

structure Machine (σ ε κ ρ : Type) where
  tag : ε → Tag κ
  background : σ → ε → Option σ
  execute : σ → ε → Option (σ × ρ)
  refusal : ε → ρ

variable {σ ε κ ρ : Type} [DecidableEq κ]

/-- One event in front of which the table stands. -/
def filtered (m : Machine σ ε κ ρ) (s : σ × (κ → Option ρ)) (e : ε) :
    Option ((σ × (κ → Option ρ)) × Option ρ) :=
  match m.tag e with
  | .background => (m.background s.1 e).map fun t => ((t, s.2), none)
  | .dropped => some (s, none)
  | .anonymous => some (s, some (m.refusal e))
  | .refused key => some (s, some ((s.2 key).getD (m.refusal e)))
  | .keyed key =>
    match s.2 key with
    | some stored => some (s, some stored)
    | none => (m.execute s.1 e).map fun (t, reply) =>
        ((t, Function.update s.2 key (some reply)), some reply)

/-- One event without the table: every keyed request is executed. -/
def bare (m : Machine σ ε κ ρ) (s : σ) (e : ε) : Option (σ × Option ρ) :=
  match m.tag e with
  | .background => (m.background s e).map fun t => (t, none)
  | .dropped => some (s, none)
  | .anonymous | .refused _ => some (s, some (m.refusal e))
  | .keyed _ => (m.execute s e).map fun (t, reply) => (t, some reply)

/-- The background events and, for each key, the first request that carries it. -/
def firsts (m : Machine σ ε κ ρ) (seen : List κ) : List ε → List ε
  | [] => []
  | e :: es =>
    match m.tag e with
    | .background => e :: firsts m seen es
    | .dropped | .anonymous | .refused _ => firsts m seen es
    | .keyed key => if key ∈ seen then firsts m seen es else e :: firsts m (key :: seen) es

/-- The table knows exactly the keys seen. -/
def Knows (table : κ → Option ρ) (seen : List κ) : Prop := ∀ key, (table key).isSome ↔ key ∈ seen

theorem Knows.update {table : κ → Option ρ} {seen : List κ} (knows : Knows table seen) (key : κ)
    (reply : ρ) : Knows (Function.update table key (some reply)) (key :: seen) := by
  intro other
  by_cases same : other = key
  · subst same
    simp
  · simp only [Function.update_of_ne same, List.mem_cons, same, false_or]
    exact knows other

/-- What one event can do to the filtered machine. -/
theorem filtered_cases {m : Machine σ ε κ ρ} {s t : σ} {table table' : κ → Option ρ} {e : ε}
    {o : Option ρ} (h : filtered m (s, table) e = some ((t, table'), o)) :
    (m.tag e = .background ∧ m.background s e = some t ∧ table' = table ∧ o = none) ∨
    (t = s ∧ table' = table ∧ m.tag e ≠ .background ∧
      ∀ key, m.tag e = .keyed key → table key = o ∧ o.isSome) ∨
    (∃ key reply, m.tag e = .keyed key ∧ table key = none ∧ m.execute s e = some (t, reply) ∧
      table' = Function.update table key (some reply) ∧ o = some reply) := by
  unfold filtered at h
  cases kind : m.tag e with
  | background =>
    simp only [kind, Option.map_eq_some_iff] at h
    obtain ⟨u, stepped, same⟩ := h
    cases same
    exact .inl ⟨rfl, stepped, rfl, rfl⟩
  | dropped | anonymous | refused key =>
    simp only [kind, Option.some.injEq] at h
    cases h
    exact .inr (.inl ⟨rfl, rfl, nofun, nofun⟩)
  | keyed key =>
    simp only [kind] at h
    cases known : table key with
    | some stored =>
      simp only [known, Option.some.injEq] at h
      cases h
      refine .inr (.inl ⟨rfl, rfl, nofun, ?_⟩)
      rintro other ⟨⟩
      exact ⟨known, rfl⟩
    | none =>
      simp only [known, Option.map_eq_some_iff] at h
      obtain ⟨⟨u, reply⟩, executed, same⟩ := h
      cases same
      exact .inr (.inr ⟨key, reply, rfl, known, executed, rfl, rfl⟩)

/-- An event that the filtered machine neither steps on nor executes is not a
first request. -/
theorem firsts_skip {m : Machine σ ε κ ρ} {table : κ → Option ρ} {seen : List κ} {e : ε}
    (knows : Knows table seen) (kind : m.tag e ≠ .background)
    (stored : ∀ key, m.tag e = .keyed key → (table key).isSome) (es : List ε) :
    firsts m seen (e :: es) = firsts m seen es := by
  rw [firsts]
  cases tagged : m.tag e with
  | background => exact absurd tagged kind
  | dropped | anonymous | refused key => rfl
  | keyed key => exact if_pos ((knows key).mp (stored key tagged))

/-- The filtered run does to the machine what the bare run of the first requests
does; and keeping only these changes nothing for the filtered machine either. -/
theorem filtered_run_firsts {m : Machine σ ε κ ρ} {s t : σ} {table table' : κ → Option ρ}
    {seen : List κ} {es : List ε} {os : List (Option ρ)} (knows : Knows table seen)
    (h : run (filtered m) (s, table) es = some ((t, table'), os)) :
    ∃ os', run (filtered m) (s, table) (firsts m seen es) = some ((t, table'), os') ∧
      run (bare m) s (firsts m seen es) = some (t, os') := by
  induction es generalizing s table seen os with
  | nil =>
    obtain ⟨same, _⟩ := run_nil_iff.mp h
    cases same
    exact ⟨[], rfl, rfl⟩
  | cons e es ih =>
    obtain ⟨⟨u, table₁⟩, o, rest, head, tail, _⟩ := run_cons_iff.mp h
    obtain ⟨kind, stepped, rfl, rfl⟩ | ⟨rfl, rfl, kind, stored⟩ |
      ⟨key, reply, kind, unknown, executed, rfl, rfl⟩ := filtered_cases head
    · obtain ⟨os', filteredRest, bareRest⟩ := ih knows tail
      refine ⟨none :: os', ?_⟩
      rw [firsts, kind]
      exact ⟨run_cons_iff.mpr ⟨_, none, os', head, filteredRest, rfl⟩,
        run_cons_iff.mpr ⟨u, none, os', by simp [bare, kind, stepped], bareRest, rfl⟩⟩
    · rw [firsts_skip knows kind fun key tagged => (stored key tagged).1 ▸ (stored key tagged).2]
      exact ih knows tail
    · have new : key ∉ seen := fun member => by
        have := (knows key).mpr member
        simp [unknown] at this
      obtain ⟨os', filteredRest, bareRest⟩ := ih (knows.update key reply) tail
      refine ⟨some reply :: os', ?_⟩
      rw [firsts, kind]
      simp only [if_neg new]
      exact ⟨run_cons_iff.mpr ⟨_, some reply, os', head, filteredRest, rfl⟩,
        run_cons_iff.mpr ⟨u, some reply, os', by simp [bare, kind, executed], bareRest, rfl⟩⟩

/-- After a run the table knows what it knew and the keys of the requests seen. -/
theorem run_knows {m : Machine σ ε κ ρ} {s t : σ} {table table' : κ → Option ρ} {es : List ε}
    {os : List (Option ρ)} (h : run (filtered m) (s, table) es = some ((t, table'), os)) (key : κ) :
    (table' key).isSome ↔ (table key).isSome ∨ ∃ e ∈ es, m.tag e = .keyed key := by
  induction es generalizing s table os with
  | nil =>
    obtain ⟨same, _⟩ := run_nil_iff.mp h
    cases same
    simp
  | cons e es ih =>
    obtain ⟨⟨u, table₁⟩, o, rest, head, tail, _⟩ := run_cons_iff.mp h
    rw [ih tail]
    have next : (table₁ key).isSome ↔ (table key).isSome ∨ m.tag e = .keyed key := by
      obtain ⟨kind, _, rfl, _⟩ | ⟨_, rfl, _, stored⟩ | ⟨other, reply, kind, _, _, rfl, _⟩ :=
        filtered_cases head
      · simp [kind]
      · constructor
        · exact .inl
        · rintro (known | tagged)
          · exact known
          · obtain ⟨same, some⟩ := stored key tagged
            exact same ▸ some
      · by_cases same : key = other
        · simp [same, kind]
        · have different : other ≠ key := fun h => same h.symm
          simp [Function.update_of_ne same, kind, different]
    simp only [next, List.mem_cons, or_assoc, exists_eq_or_imp]

/-- The request carries the key, whether or not it would be executed. -/
def Carries (m : Machine σ ε κ ρ) (e : ε) (key : κ) : Prop :=
  m.tag e = .keyed key ∨ m.tag e = .refused key

/-- A stored reply is never replaced, and it answers every later request that
carries its key. -/
theorem stored_answers {m : Machine σ ε κ ρ} {s t : σ} {table table' : κ → Option ρ} {key : κ}
    {reply : ρ} {es : List ε} {os : List (Option ρ)} (stored : table key = some reply)
    (h : run (filtered m) (s, table) es = some ((t, table'), os)) :
    table' key = some reply ∧
      ∀ (i : Nat) (e : ε), es[i]? = some e → Carries m e key → os[i]? = some (some reply) := by
  induction es generalizing s table os with
  | nil =>
    obtain ⟨same, rfl⟩ := run_nil_iff.mp h
    cases same
    exact ⟨stored, fun i e here => by simp at here⟩
  | cons e es ih =>
    obtain ⟨⟨u, table₁⟩, o, rest, head, tail, rfl⟩ := run_cons_iff.mp h
    have kept : table₁ key = some reply := by
      rcases filtered_cases head with ⟨_, _, rfl, _⟩ | ⟨_, rfl, _⟩ | ⟨other, _, _, unknown, _, rfl, _⟩
      · exact stored
      · exact stored
      · have different : key ≠ other := by
          rintro rfl
          simp [stored] at unknown
        rw [Function.update_of_ne different, stored]
    obtain ⟨final, later⟩ := ih kept tail
    refine ⟨final, fun i e' here carries => ?_⟩
    cases i with
    | succ i => exact later i e' here carries
    | zero =>
      obtain rfl := Option.some.inj here
      rcases carries with tagged | tagged <;>
        simp only [filtered, tagged, stored, Option.getD_some, Option.some.injEq] at head <;>
        cases head <;> rfl

/-- An executed request stores its reply, so every later request that carries
its key receives the same one. -/
theorem later_answers {m : Machine σ ε κ ρ} {s : σ × (κ → Option ρ)} {u : σ × (κ → Option ρ)}
    {es : List ε} {os : List (Option ρ)} {i j : Nat} {e e' : ε} {key : κ}
    (h : run (filtered m) s es = some (u, os)) (first : es[i]? = some e)
    (tagged : m.tag e = .keyed key) (order : i < j) (second : es[j]? = some e')
    (carries : Carries m e' key) : ∃ reply, os[i]? = some (some reply) ∧ os[j]? = os[i]? := by
  obtain ⟨⟨t, table⟩, o, ⟨t', table'⟩, before, after, _, here, rest, rfl, length⟩ := run_at h first
  have stored : ∃ reply, o = some reply ∧ table' key = some reply := by
    obtain ⟨other, _⟩ | ⟨rfl, rfl, _, known⟩ | ⟨key', reply, same, _, _, rfl, rfl⟩ :=
      filtered_cases here
    · rw [tagged] at other
      contradiction
    · obtain ⟨same, some⟩ := known key tagged
      obtain ⟨reply, rfl⟩ := Option.isSome_iff_exists.mp some
      exact ⟨reply, rfl, same⟩
    · obtain rfl := Tag.keyed.inj (tagged.symm.trans same)
      exact ⟨reply, rfl, Function.update_self ..⟩
  obtain ⟨reply, rfl, stored⟩ := stored
  have answer : (before ++ some reply :: after)[i]? = some (some reply) := by
    rw [← length, List.getElem?_append_right (Nat.le_refl _), Nat.sub_self]
    rfl
  have later := (stored_answers stored rest).2 (j - (i + 1)) e' (by
    rw [List.getElem?_drop]
    rw [show i + 1 + (j - (i + 1)) = j by omega]
    exact second) carries
  refine ⟨reply, answer, ?_⟩
  rw [answer, ← later, List.getElem?_append_right (by omega), length,
    show j - i = (j - (i + 1)) + 1 by omega, List.getElem?_cons_succ]

end OnceOnly
