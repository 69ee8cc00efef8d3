import RemoteFile.Client.Prompts

/-! When prompting comes to an end. The prompts swallow every answer that is no number, the
empty ones after the end of the input included, and so does the menu; whether they return is
decided by the pieces that `fgets` cuts the input into. -/
namespace RemoteFile.Client
open Octets

variable {c d : Console} {xs ys ps : List Bytes} {n : UInt32}

/-- The reads of an input: its pieces, and empty ones from its end on. -/
def CanRead (stdin : Bytes) (xs : List Bytes) : Prop :=
  ∃ n, xs <+: fgets.pieces stdin ++ List.replicate n []

theorem canRead_iff : CanRead c.stdin xs ↔ ∃ d, c.Reads xs d := by
  rw [CanRead, ← Pieces.reads_iff]
  constructor
  · rintro ⟨stdin, taken⟩
    exact ⟨⟨stdin, c.answers ++ xs⟩, taken, rfl⟩
  · rintro ⟨d, reads⟩
    exact ⟨d.stdin, reads.taken⟩

/-- A prompting function returns exactly if the input can answer it. -/
theorem Console.Specified.returns_iff {ask : Nat → Console → Option (ρ × Console)}
    {Answers : List Bytes → ρ → Prop} (spec : Specified ask Answers) :
    (∃ fuel r, ask fuel c = some r) ↔ ∃ xs r, Answers xs r ∧ CanRead c.stdin xs := by
  constructor
  · rintro ⟨fuel, ⟨r, d⟩, asked⟩
    obtain ⟨xs, answers, reads⟩ := spec.sound asked
    exact ⟨xs, r, answers, canRead_iff.mpr ⟨d, reads⟩⟩
  · rintro ⟨xs, r, answers, readable⟩
    obtain ⟨d, reads⟩ := canRead_iff.mp readable
    exact ⟨xs.length, (r, d), spec.complete answers reads (Nat.le_refl _)⟩

/-! ### Numbers among the pieces -/

def isNumber (answer : Bytes) : Bool := (number? answer).isSome

theorem Number.countP (number : Number xs n) : xs.countP isNumber = 1 := by
  induction number with
  | accepted answer => simp [isNumber, answer]
  | refused answer _ ih => simp [isNumber, answer, ih]

/-- The answers up to the first one that is accepted. -/
theorem exists_number (enough : k + 1 ≤ ps.countP isNumber) :
    ∃ xs n rest, ps = xs ++ rest ∧ Number xs n ∧ k ≤ rest.countP isNumber := by
  induction ps with
  | nil => contradiction
  | cons x ps ih =>
    cases answer : number? x with
    | some n =>
      have one : isNumber x = true := by rw [isNumber, answer]; rfl
      rw [List.countP_cons_of_pos one] at enough
      exact ⟨[x], n, ps, rfl, .accepted answer, Nat.le_of_succ_le_succ enough⟩
    | none =>
      have other : ¬ isNumber x = true := by rw [isNumber, answer]; exact Bool.noConfusion
      rw [List.countP_cons_of_neg other] at enough
      obtain ⟨xs, n, rest, rfl, number, later⟩ := ih enough
      exact ⟨x :: xs, n, rest, rfl, .refused answer number, later⟩

/-- The reads after the first hold no more numbers than the pieces after the first. -/
theorem CanRead.countP_le {x : Bytes} (readable : CanRead stdin (x :: xs)) :
    xs.countP isNumber ≤ (fgets.pieces stdin).tail.countP isNumber := by
  obtain ⟨n, before⟩ := readable
  have empty : ∀ n, (List.replicate n ([] : Bytes)).countP isNumber = 0 := by
    intro n
    rw [List.countP_replicate]
    rfl
  cases pieces : fgets.pieces stdin with
  | nil =>
    rw [pieces, List.nil_append] at before
    have none := (List.tail_sublist (x :: xs)).trans before.sublist |>.countP_le (p := isNumber)
    rw [empty] at none
    exact none
  | cons p ps =>
    rw [pieces, List.cons_append] at before
    have later := (List.cons_prefix_cons.mp before).2.sublist.countP_le (p := isNumber)
    rw [List.countP_append, empty] at later
    exact later

/-- An input with a number behind its first piece has a first piece. -/
theorem exists_first (enough : k + 1 ≤ (fgets.pieces stdin).tail.countP isNumber) :
    ∃ p xs n rest, fgets.pieces stdin = p :: (xs ++ rest) ∧ Number xs n ∧ k ≤ rest.countP isNumber := by
  obtain ⟨xs, n, rest, later, number, more⟩ := exists_number enough
  cases pieces : fgets.pieces stdin with
  | nil =>
    rw [pieces] at enough
    contradiction
  | cons p ps =>
    rw [pieces] at later
    exact ⟨p, xs, n, rest, congrArg (List.cons p) later, number, more⟩

/-! ### The prompts of a request -/

namespace Console

theorem askInterval_returns_iff (make : Bytes → UInt32 → ρ) :
    (∃ fuel r, askInterval make fuel c = some r) ↔ 1 ≤ (fgets.pieces c.stdin).tail.countP isNumber := by
  rw [(askInterval_specified make).returns_iff]
  constructor
  · rintro ⟨_, _, ⟨number⟩, readable⟩
    have counted := readable.countP_le
    rwa [number.countP] at counted
  · intro enough
    obtain ⟨p, xs, n, rest, pieces, number, _⟩ := exists_first enough
    refine ⟨p :: xs, _, .intro number, 0, ?_⟩
    rw [pieces, List.replicate_zero, List.append_nil]
    exact List.cons_prefix_cons.mpr ⟨rfl, List.prefix_append _ _⟩

theorem askEdit_returns_iff (make : Bytes → UInt32 → Bytes → ρ) :
    (∃ fuel r, askEdit make fuel c = some r) ↔ 1 ≤ (fgets.pieces c.stdin).tail.countP isNumber := by
  rw [(askEdit_specified make).returns_iff]
  constructor
  · rintro ⟨_, _, ⟨number⟩, readable⟩
    have counted := readable.countP_le
    rw [List.countP_append, number.countP] at counted
    exact Nat.le_trans (Nat.le_add_right _ _) counted
  · intro enough
    obtain ⟨p, xs, n, rest, pieces, number, _⟩ := exists_first enough
    -- The content is the next piece, or empty at the end of the input.
    refine ⟨p :: (xs ++ [rest.headD []]), _, .intro number, 1, ?_⟩
    rw [pieces, List.cons_append, List.append_assoc]
    apply List.cons_prefix_cons.mpr
    refine ⟨rfl, List.prefix_append_right_inj _ |>.mpr ?_⟩
    cases rest with
    | nil => exact List.prefix_rfl
    | cons content rest => exact List.cons_prefix_cons.mpr ⟨rfl, List.nil_prefix⟩

theorem askRange_returns_iff (make : Bytes → UInt32 → UInt32 → ρ) :
    (∃ fuel r, askRange make fuel c = some r) ↔ 2 ≤ (fgets.pieces c.stdin).tail.countP isNumber := by
  rw [(askRange_specified make).returns_iff]
  constructor
  · rintro ⟨_, _, ⟨first, second⟩, readable⟩
    have counted := readable.countP_le
    rwa [List.countP_append, first.countP, second.countP] at counted
  · intro enough
    obtain ⟨p, xs, m, rest, pieces, first, more⟩ := exists_first enough
    obtain ⟨ys, n, rest, rfl, second, _⟩ := exists_number more
    refine ⟨p :: (xs ++ ys), _, .intro first second, 0, ?_⟩
    rw [pieces, List.replicate_zero, List.append_nil, ← List.append_assoc]
    exact List.cons_prefix_cons.mpr ⟨rfl, List.prefix_append _ _⟩

end Console

/-! ### The loop of `main` -/

variable {σ : Type} {exchange : σ → Command → Option σ}

/-- The loop has ended after complete dialogs, after the last of which the program was over. -/
theorem menu_sound {fuel : Nat} {s : σ} (ended : menu exchange fuel s c = some d) :
    ∃ dialogs : List (List Bytes × Command), (∀ dialog ∈ dialogs, Dialog dialog.1 dialog.2) ∧
      c.Reads (dialogs.flatMap Prod.fst) d ∧
      (dialogs.map Prod.snd).foldlM (proceed exchange) s = none := by
  induction fuel generalizing s c with
  | zero => contradiction
  | succ fuel ih =>
    obtain ⟨⟨command, e⟩, chose, later⟩ := Option.bind_eq_some_iff.mp ended
    obtain ⟨xs, dialog, reads⟩ := choose_specified.sound chose
    cases next : proceed exchange s command with
    | none =>
      simp only [next, Option.some.injEq] at later
      subst later
      refine ⟨[(xs, command)], ?_, ?_, ?_⟩
      · simpa using dialog
      · simpa using reads
      · simp [next]
    | some t =>
      simp only [next] at later
      obtain ⟨dialogs, complete, rest, last⟩ := ih later
      refine ⟨(xs, command) :: dialogs, ?_, ?_, ?_⟩
      · exact List.forall_mem_cons.mpr ⟨dialog, complete⟩
      · rw [List.flatMap_cons]
        exact reads.append rest
      · rw [List.map_cons, List.foldlM_cons, next]
        exact last

/-- Such dialogs bring the loop to its end. -/
theorem menu_complete {fuel : Nat} {s : σ} {dialogs : List (List Bytes × Command)}
    (complete : ∀ dialog ∈ dialogs, Dialog dialog.1 dialog.2)
    (reads : c.Reads (dialogs.flatMap Prod.fst) d)
    (finishes : (dialogs.map Prod.snd).foldlM (proceed exchange) s = none)
    (enough : (dialogs.flatMap Prod.fst).length < fuel) : ∃ e, menu exchange fuel s c = some e := by
  induction dialogs generalizing s c fuel with
  | nil => contradiction
  | cons dialog dialogs ih =>
    obtain ⟨first, complete⟩ := List.forall_mem_cons.mp complete
    rw [List.flatMap_cons] at reads enough
    rw [List.length_append] at enough
    obtain ⟨e, reads, rest⟩ := reads.split
    cases fuel with
    | zero => contradiction
    | succ fuel =>
      have taken : 0 < dialog.1.length := first.length_pos
      have chose : choose fuel c = some (dialog.2, e) := choose_specified.complete first reads (by omega)
      rw [List.map_cons, List.foldlM_cons] at finishes
      cases next : proceed exchange s dialog.2 with
      | none => exact ⟨e, by simp only [menu, chose, Option.bind_eq_bind, Option.bind_some, next]⟩
      | some t =>
        rw [next] at finishes
        have left : (dialogs.flatMap Prod.fst).length < fuel := by omega
        obtain ⟨last, ended⟩ := ih complete rest finishes left
        exact ⟨last, by simp only [menu, chose, Option.bind_eq_bind, Option.bind_some, next, ended]⟩

theorem menu_returns_iff {s : σ} :
    (∃ fuel d, menu exchange fuel s c = some d) ↔
      ∃ dialogs : List (List Bytes × Command), (∀ dialog ∈ dialogs, Dialog dialog.1 dialog.2) ∧
        CanRead c.stdin (dialogs.flatMap Prod.fst) ∧
        (dialogs.map Prod.snd).foldlM (proceed exchange) s = none := by
  constructor
  · rintro ⟨fuel, d, ended⟩
    obtain ⟨dialogs, complete, reads, finishes⟩ := menu_sound ended
    exact ⟨dialogs, complete, canRead_iff.mpr ⟨d, reads⟩, finishes⟩
  · rintro ⟨dialogs, complete, readable, finishes⟩
    obtain ⟨d, reads⟩ := canRead_iff.mp readable
    exact ⟨_, menu_complete complete reads finishes (Nat.lt_succ_self _)⟩

/-- The prompts of each request, and the loop of `main` around them, come to an end exactly
on these inputs: enough numbers stand behind the pathname, and the input begins with
complete dialogs after the last of which the program is over. -/
theorem prompting_ends_iff (exchange : σ → Command → Option σ) (s : σ) (c : Console) :
    ((∃ fuel r, prepareReadRequest fuel c = some r) ↔
      2 ≤ (fgets.pieces c.stdin).tail.countP isNumber) ∧
    ((∃ fuel r, prepareWriteRequest fuel c = some r) ↔
      1 ≤ (fgets.pieces c.stdin).tail.countP isNumber) ∧
    ((∃ fuel r, prepareReplaceRequest fuel c = some r) ↔
      1 ≤ (fgets.pieces c.stdin).tail.countP isNumber) ∧
    ((∃ fuel r, prepareDeleteRequest fuel c = some r) ↔
      2 ≤ (fgets.pieces c.stdin).tail.countP isNumber) ∧
    ((∃ fuel r, prepareSubscribeRequest fuel c = some r) ↔
      1 ≤ (fgets.pieces c.stdin).tail.countP isNumber) ∧
    ((∃ fuel d, menu exchange fuel s c = some d) ↔
      ∃ dialogs : List (List Bytes × Command), (∀ dialog ∈ dialogs, Dialog dialog.1 dialog.2) ∧
        CanRead c.stdin (dialogs.flatMap Prod.fst) ∧
        (dialogs.map Prod.snd).foldlM (proceed exchange) s = none) :=
  ⟨Console.askRange_returns_iff _, Console.askEdit_returns_iff _, Console.askEdit_returns_iff _,
    Console.askRange_returns_iff _, Console.askInterval_returns_iff _, menu_returns_iff⟩

/-! ### At the end of the input -/

theorem Console.prompt_at_end (ended : c.stdin = []) : c.prompt.2.stdin = [] := by
  rw [Console.prompt, ended, Pieces.Reader.rest_nil]

/-- The menu is shown for ever. -/
theorem menu_at_end {s : σ} (ended : c.stdin = []) (fuel : Nat) : menu exchange fuel s c = none := by
  induction fuel generalizing c with
  | zero => rfl
  | succ fuel ih =>
    have chose : choose fuel c = some (.invalid, c.prompt.2) := by
      simp only [choose, Console.prompt, choice_filled, ended, Pieces.Reader.next_nil]
      rfl
    simp only [menu, chose, proceed, Option.bind_eq_bind, Option.bind_some]
    exact ih (Console.prompt_at_end ended)

/-- Nothing is typed: none of the prompts of a request returns, and the menu does not end. -/
theorem prompting_fails :
    (¬ ∃ fuel r, prepareReadRequest fuel (.start []) = some r) ∧
    (¬ ∃ fuel r, prepareWriteRequest fuel (.start []) = some r) ∧
    (¬ ∃ fuel r, prepareReplaceRequest fuel (.start []) = some r) ∧
    (¬ ∃ fuel r, prepareDeleteRequest fuel (.start []) = some r) ∧
    (¬ ∃ fuel r, prepareSubscribeRequest fuel (.start []) = some r) ∧
    ¬ ∃ fuel d, menu (fun s _ => some s) fuel () (.start []) = some d := by
  have numbers : (fgets.pieces (Console.start []).stdin).tail.countP isNumber = 0 := by
    rw [Console.start, Pieces.Reader.pieces_nil]
    rfl
  refine ⟨?_, ?_, ?_, ?_, ?_, ?_⟩
  · rw [prepareReadRequest, Console.askRange_returns_iff, numbers]
    exact Nat.not_succ_le_zero _
  · rw [prepareWriteRequest, Console.askEdit_returns_iff, numbers]
    exact Nat.not_succ_le_zero _
  · rw [prepareReplaceRequest, Console.askEdit_returns_iff, numbers]
    exact Nat.not_succ_le_zero _
  · rw [prepareDeleteRequest, Console.askRange_returns_iff, numbers]
    exact Nat.not_succ_le_zero _
  · rw [prepareSubscribeRequest, Console.askInterval_returns_iff, numbers]
    exact Nat.not_succ_le_zero _
  · rintro ⟨fuel, d, ended⟩
    rw [menu_at_end rfl] at ended
    contradiction

end RemoteFile.Client
