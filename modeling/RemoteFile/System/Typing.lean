import Mathlib.Data.List.TakeWhile
import RemoteFile.Client.Prompts
import RemoteFile.Server.Edits

/-! From the lines that a user types to the bytes that are written: what the prompts of a
write or a replacement make of the line for the content, and what the server inserts. -/
namespace RemoteFile.System
open Octets Client

/-- The lines of the standard input, each with its newline. -/
def lines : Pieces.Reader UInt8 := Pieces.lines newline

/-- A line without its terminating newline. -/
def unterminated (line : Bytes) : Bytes := line.takeWhile (· ≠ newline)

/-- Each prompt has read one line, and the content is the last of them as it was typed. -/
structure TakenAsTyped (stdin : Bytes) (answers : List Bytes) (content : Bytes) : Prop where
  lines : answers <+: lines.pieces stdin
  content : ∃ line, answers.getLast? = some line ∧ content = unterminated line

/-- The input begins with a line for a pathname, lines up to one with a number, and a line for
a content. None of them is longer than `fgets` reads, and the last one has no whitespace
in it. -/
def Typeable (stdin : Bytes) : Prop :=
  ∃ pathname numbers offset content, Number numbers offset ∧
    pathname :: (numbers ++ [content]) <+: lines.pieces stdin ∧
    (∀ line ∈ pathname :: (numbers ++ [content]), line.length ≤ promptLength) ∧
    ∀ b ∈ content, isspace b → b = newline

/-! ### The line for the content -/

theorem typed_of_noNul {answer : Bytes} (noNul : 0 ∉ answer) : typed answer = answer := by
  apply List.takeWhile_eq_self_iff.mpr
  intro b member
  exact decide_eq_true (fun zero => noNul (zero ▸ member))

/-- Of a line nothing is erased but its newline exactly if it has no other whitespace. -/
theorem erased_eq_unterminated_iff {line : Bytes} (whole : ∃ ys, line = lines.next ys) :
    eraseSpaces line = unterminated line ↔ ∀ b ∈ line, isspace b → b = newline := by
  obtain ⟨ys, rfl⟩ := whole
  obtain ⟨body, stop, split, absent, ends⟩ := Pieces.line_cases newline ys
  have before : ∀ b ∈ body, decide (b ≠ newline) = true := fun b member =>
    decide_eq_true (fun same => absent (same ▸ member))
  have stops : ∀ b ∈ stop, b = newline := by
    rcases ends with rfl | rfl <;> simp
  have cut : unterminated (body ++ stop) = body := by
    rw [unterminated, List.takeWhile_append_of_pos before]
    rcases ends with rfl | rfl <;> exact List.append_nil body
  have erased : eraseSpaces (body ++ stop) = eraseSpaces body := by
    rw [eraseSpaces, List.filter_append]
    rcases ends with rfl | rfl <;> exact List.append_nil _
  rw [show lines.next ys = body ++ stop from split, cut, erased, eraseSpaces, List.filter_eq_self]
  constructor
  · intro kept b member space
    rcases List.mem_append.mp member with inside | last
    · have other := kept b inside
      rw [space] at other
      contradiction
    · exact stops b last
  · intro only b inside
    cases space : isspace b with
    | false => rfl
    | true =>
      have same := only b (List.mem_append_left _ inside) space
      exact absurd (same ▸ inside) absent

theorem mem_stdin {stdin line : Bytes} {ls : List Bytes} {b : UInt8} (before : ls <+: lines.pieces stdin)
    (member : line ∈ ls) (inside : b ∈ line) : b ∈ stdin :=
  lines.mem_of_mem_pieces (before.subset member) inside

/-! ### The prompts for a content -/

/-- The prompts for a pathname, an offset and a content take what was typed exactly on the
inputs that can be typed in. -/
theorem askEdit_typed_iff {stdin : Bytes} (make : Bytes → UInt32 → Bytes → ρ) (content : ρ → Bytes)
    (made : ∀ pathname offset bytes, content (make pathname offset bytes) = bytes) (noNul : 0 ∉ stdin) :
    (∃ fuel r d, Console.askEdit make fuel (.start stdin) = some (r, d) ∧
      TakenAsTyped stdin d.answers (content r)) ↔ Typeable stdin := by
  constructor
  · rintro ⟨fuel, r, d, asked, before, last⟩
    obtain ⟨xs, answers, reads⟩ := (Console.askEdit_specified make).sound asked
    cases answers with
    | @intro numbers offset pathname line number =>
      rw [reads.answers, Console.start, List.nil_append] at before last
      have member : line ∈ pathname :: (numbers ++ [line]) := by simp
      have whole := lines.exists_next (before.subset member)
      obtain ⟨_, same, taken⟩ := last
      rw [← List.cons_append, List.getLast?_concat, Option.some.injEq] at same
      rw [made, ← same, typed_of_noNul fun nul => noNul (mem_stdin before member nul)] at taken
      exact ⟨pathname, numbers, offset, line, number, before, reads.short,
        (erased_eq_unterminated_iff whole).mp taken⟩
  · rintro ⟨pathname, numbers, offset, line, number, before, short, plain⟩
    have pieces : pathname :: (numbers ++ [line]) <+: fgets.pieces stdin := Pieces.prefix_atMost before short
    obtain ⟨rest, taken⟩ := Pieces.exists_reads pieces
    have reads : (Console.start stdin).Reads (pathname :: (numbers ++ [line]))
        ⟨rest, pathname :: (numbers ++ [line])⟩ := ⟨taken, rfl⟩
    have asked := (Console.askEdit_specified make).complete (.intro number) reads (Nat.le_refl _)
    have member : line ∈ pathname :: (numbers ++ [line]) := by simp
    have whole := lines.exists_next (before.subset member)
    refine ⟨_, _, _, asked, before, line, ?_, ?_⟩
    · rw [← List.cons_append, List.getLast?_concat]
    · rw [made, typed_of_noNul fun nul => noNul (mem_stdin before member nul)]
      exact (erased_eq_unterminated_iff whole).mpr plain

/-- Every `Write` of this request that reports success inserts its content, and nothing
else, into a file that exists. -/
def Inserts (req : WriteRequest) : Prop :=
  ∀ {Disk κ : Type} {locate : Bytes → κ} {contents : Disk → κ → Option Bytes} {env : Server.Env Disk}
    {path f : Bytes} {s t : Server.Store Disk} {res : WriteResponse},
    env.os.Working locate contents → s.WellFormed →
    contents s.disk (locate (Server.concatenatePaths path req.pathname)) = some f →
    Server.write env path req s = some (t, res) → res.success = true →
    contents t.disk (locate (Server.concatenatePaths path req.pathname)) =
      some (insertAt f req.offset.toNat req.content)

theorem prepareWriteRequest_inserts {fuel : Nat} {c d : Console} {req : WriteRequest}
    (prepared : prepareWriteRequest fuel c = some (req, d)) : Inserts req := by
  intro _ _ _ _ _ _ _ _ _ _ works sound file wrote success
  obtain ⟨xs, answers, reads⟩ := (Console.askEdit_specified _).sound prepared
  cases answers with
  | @intro numbers offset pathname line number =>
    have offset := number.lt
    have content := (erased_length line).trans (reads.short line (by simp))
    refine Server.write_success works sound file ?_ wrote success
    simp only [promptLength] at content ⊢
    omega

/-- What the user types is what is written, one line a prompt, exactly on the inputs that can
be typed in. -/
theorem typed_is_written_iff {stdin : Bytes} (noNul : 0 ∉ stdin) :
    ((∃ fuel req d, prepareWriteRequest fuel (.start stdin) = some (req, d) ∧
        TakenAsTyped stdin d.answers req.content ∧ Inserts req) ↔ Typeable stdin) ∧
    ((∃ fuel req d, prepareReplaceRequest fuel (.start stdin) = some (req, d) ∧
        TakenAsTyped stdin d.answers req.content) ↔ Typeable stdin) := by
  refine ⟨?_, askEdit_typed_iff _ ReplaceRequest.content (fun _ _ _ => rfl) noNul⟩
  rw [← askEdit_typed_iff WriteRequest.mk WriteRequest.content (fun _ _ _ => rfl) noNul]
  constructor
  · rintro ⟨fuel, req, d, prepared, taken, _⟩
    exact ⟨fuel, req, d, prepared, taken⟩
  · rintro ⟨fuel, req, d, prepared, taken⟩
    exact ⟨fuel, req, d, prepared, taken, prepareWriteRequest_inserts prepared⟩

/-- The blank of the content is erased with its newline. -/
theorem typed_is_written_fails :
    prepareWriteRequest 1 (.start (text "a\n0\nhello world\n")) =
      some (⟨text "a", 0, text "helloworld"⟩,
        ⟨[], [text "a\n", text "0\n", text "hello world\n"]⟩) := by
  decide +kernel

theorem typed_is_written_iff_word :
    ∃ fuel req d, prepareWriteRequest fuel (.start (text "a\n0\nhello\n")) = some (req, d) ∧
      TakenAsTyped (text "a\n0\nhello\n") d.answers req.content ∧ Inserts req := by
  refine (typed_is_written_iff (by decide)).1.mpr
    ⟨text "a\n", [text "0\n"], 0, text "hello\n", .accepted (by decide +kernel), ?_, by decide +kernel, by decide +kernel⟩
  rw [lines.pieces_of_ne_nil (by decide), lines.pieces_of_ne_nil (by decide), lines.pieces_of_ne_nil (by decide)]
  exact List.cons_prefix_cons.mpr ⟨rfl, List.cons_prefix_cons.mpr ⟨rfl, List.cons_prefix_cons.mpr
    ⟨rfl, List.nil_prefix⟩⟩⟩

end RemoteFile.System
