import RemoteFile.Wire.RoundTrip

/-! On which vectors the client's unmarshallers stay inside the vector, and which of the
vectors that they accept the server can have sent. -/
namespace RemoteFile
open Octets Cpp Cpp.Outcome

namespace Client

/-! ### Reading inside the vector -/

/-- A vector that is taken for a failure has its whole length field, unless its size
alone is refused. Only read responses have this checked before the field is read. -/
def LengthPresent : MessageType → Bytes → Prop
  | .read, _ => True
  | .getLastModifiedTime, bs => bs = [] ∨ bs.head? = some 1 ∨ 5 ≤ bs.length
  | _, bs => bs.length ≤ 1 ∨ bs.head? = some 1 ∨ 5 ≤ bs.length

/-- The outcome is a response or the exception that the validators throw. -/
def Defined (x : Outcome α) : Prop := (∃ a, x = returns a) ∨ ∃ what, x = throws (.invalidArgument what)

theorem defined_returns (a : α) : Defined (returns a) := .inl ⟨a, rfl⟩
theorem defined_throws (what : String) : Defined (throws (.invalidArgument what) : Outcome α) := .inr ⟨what, rfl⟩

theorem not_defined_undefined : ¬ Defined (undefined : Outcome α) := by
  rintro (⟨_, returned⟩ | ⟨_, thrown⟩) <;> contradiction

/-- Wrapping a response changes nothing. -/
theorem defined_wrap {β : Type} (x : Outcome α) (wrap : α → β) :
    Defined (x >>= fun a => returns (wrap a)) ↔ Defined x := by
  cases x with
  | returns a => exact iff_of_true (defined_returns _) (defined_returns _)
  | throws e => simp [Defined]
  | undefined => exact iff_of_false not_defined_undefined not_defined_undefined

theorem StatusDecoded.defined_iff {bs : Bytes} {x : Outcome StatusResponse} (decoded : StatusDecoded bs x) :
    Defined x ↔ bs.length ≤ 1 ∨ bs.head? = some 1 ∨ 5 ≤ bs.length := by
  cases decoded with
  | empty => exact iff_of_true (defined_throws _) (.inl (Nat.zero_le _))
  | success => exact iff_of_true (defined_returns _) (.inl (Nat.le_refl _))
  | bare failure => exact iff_of_true (defined_throws _) (.inl (Nat.le_refl _))
  | long more => exact iff_of_true (defined_throws _) (.inr (.inl rfl))
  | @cut flag rest failure more short =>
    have present := List.length_pos_iff.mpr more
    refine iff_of_false not_defined_undefined ?_
    simp only [List.length_cons, List.head?_cons, Option.some.injEq, failure, false_or]
    omega
  | message failure fits =>
    refine iff_of_true (defined_returns _) (.inr (.inr ?_))
    rw [List.length_cons, counted_length]
    omega
  | mismatch failure long =>
    refine iff_of_true (defined_throws _) (.inr (.inr ?_))
    rw [List.length_cons]
    omega

theorem ReadDecoded.defined {bs : Bytes} {x : Outcome ReadResponse} (decoded : ReadDecoded bs x) :
    Defined x := by
  cases decoded with
  | short | mismatch => exact defined_throws _
  | whole => exact defined_returns _

theorem TimeDecoded.defined_iff {bs : Bytes} {x : Outcome GetLastModifiedTimeResponse}
    (decoded : TimeDecoded bs x) : Defined x ↔ bs = [] ∨ bs.head? = some 1 ∨ 5 ≤ bs.length := by
  cases decoded with
  | empty => exact iff_of_true (defined_throws _) (.inl rfl)
  | success t => exact iff_of_true (defined_returns _) (.inr (.inl rfl))
  | wrongSize size => exact iff_of_true (defined_throws _) (.inr (.inl rfl))
  | @cut flag rest failure short =>
    refine iff_of_false not_defined_undefined ?_
    simp only [reduceCtorEq, List.head?_cons, Option.some.injEq, failure, List.length_cons, false_or]
    omega
  | message failure fits =>
    refine iff_of_true (defined_returns _) (.inr (.inr ?_))
    rw [List.length_cons, counted_length]
    omega
  | mismatch failure long =>
    refine iff_of_true (defined_throws _) (.inr (.inr ?_))
    rw [List.length_cons]
    omega

end Client

/-- Every vector makes an unmarshaller return a response or throw
`invalid_argument`, except those that end inside the length field of a failure. -/
theorem response_inBounds_iff (kind : MessageType) (bs : Bytes) :
    Client.Defined (Client.unmarshalResponse kind bs) ↔ Client.LengthPresent kind bs := by
  cases kind with
  | write | subscribe | replace | delete =>
    exact (Client.defined_wrap _ _).trans (Client.unmarshalStatusResponse_decoded bs).defined_iff
  | read => exact iff_of_true ((Client.defined_wrap _ _).mpr (Client.unmarshalReadResponse_decoded bs).defined) trivial
  | getLastModifiedTime => exact (Client.defined_wrap _ _).trans (Client.unmarshalGetLastModifiedTimeResponse_decoded bs).defined_iff

/-- A failure flag and one more byte, the first of a plain text. -/
theorem response_inBounds_fails :
    Client.unmarshalResponse .write [105, 110] = undefined ∧
      ¬ Client.Defined (Client.unmarshalResponse .write [105, 110]) := by
  have leaves : Client.unmarshalResponse .write [105, 110] = undefined := by decide
  refine ⟨leaves, ?_⟩
  rw [leaves]
  exact Client.not_defined_undefined

/-! ### Accepting what the server encodes -/

/-- The server's structure with the fields of a response that the client returns. -/
def Client.Response.atServer : Client.Response → Server.Response
  | .read res => .read res
  | .write res => .write res
  | .subscribe res => .subscribe res
  | .replace res => .replace res
  | .delete res => .delete res
  | .getLastModifiedTime res => .getLastModifiedTime
      ⟨res.success, res.lastModifiedUnixTime.toInt64, res.errorMessage⟩

/-- The first byte is one of the two flags that the server sends. -/
def Flagged (bs : Bytes) : Prop := bs.head? = some 0 ∨ bs.head? = some 1

instance (bs : Bytes) : Decidable (Flagged bs) := inferInstanceAs (Decidable (_ ∨ _))

/-- A failure is marshalled with flag 0. -/
theorem failure_encoded_iff {flag : UInt8} {str : Bytes} (failure : flag ≠ 1) :
    some (0 :: counted str) = some (flag :: counted str) ↔ Flagged (flag :: counted str) := by
  simp only [Option.some.injEq, List.cons.injEq, and_true, Flagged, List.head?_cons, failure, or_false]
  exact eq_comm

theorem Client.StatusDecoded.encoded_iff {bs : Bytes} {res : StatusResponse}
    (decoded : StatusDecoded bs (returns res)) :
    Server.marshalStatusResponse res = some bs ↔ Flagged bs := by
  cases decoded with
  | success => exact iff_of_true rfl (.inr rfl)
  | message failure fits =>
    rw [Server.marshalStatusResponse, if_neg Bool.false_ne_true, Server.marshalSingleStringResponse_eq]
    exact failure_encoded_iff failure

theorem Client.ReadDecoded.encoded_iff {bs : Bytes} {res : ReadResponse}
    (decoded : ReadDecoded bs (returns res)) :
    Server.Read.marshalResponse res = some bs ↔ Flagged bs := by
  cases decoded with
  | @whole flag str fits =>
    by_cases success : flag = 1
    · subst success
      exact iff_of_true (Server.marshalSingleStringResponse_eq 1 str) (.inr rfl)
    · rw [if_neg (by simpa using success), Server.Read.marshalResponse, if_neg Bool.false_ne_true,
        Server.marshalSingleStringResponse_eq]
      exact failure_encoded_iff success

theorem Client.TimeDecoded.encoded_iff {bs : Bytes} {res : Client.GetLastModifiedTimeResponse}
    (decoded : TimeDecoded bs (returns res)) :
    Server.GetLastModifiedTime.marshalResponse
      ⟨res.success, res.lastModifiedUnixTime.toInt64, res.errorMessage⟩ = some bs ↔ Flagged bs := by
  cases decoded with
  | success t =>
    refine iff_of_true ?_ (.inr rfl)
    rw [Server.GetLastModifiedTime.marshalResponse, if_pos rfl, Server.marshalSuccessResponse_eq]
    simp
  | message failure fits =>
    rw [Server.GetLastModifiedTime.marshalResponse, if_neg Bool.false_ne_true,
      Server.GetLastModifiedTime.marshalErrorResponse, Server.marshalSingleStringResponse_eq]
    exact failure_encoded_iff failure

/-- What the client accepts as a response of a kind is what the server marshals for
that response of that kind, exactly when its first byte is 0 or 1. -/
theorem accepted_encoded_iff {kind : MessageType} {bs : Bytes} {res : Client.Response}
    (accepted : Client.unmarshalResponse kind bs = returns res) :
    res.atServer.messageType = kind ∧ (res.atServer.marshal = some bs ↔ Flagged bs) := by
  cases kind with
  | write | subscribe | replace | delete =>
    obtain ⟨inner, unmarshalled, made⟩ := bind_returns_iff.mp accepted
    cases made
    have decoded := Client.unmarshalStatusResponse_decoded bs
    rw [show Client.unmarshalStatusResponse bs = returns inner from unmarshalled] at decoded
    exact ⟨rfl, decoded.encoded_iff⟩
  | read =>
    obtain ⟨inner, unmarshalled, made⟩ := bind_returns_iff.mp accepted
    cases made
    exact ⟨rfl, (unmarshalled ▸ Client.unmarshalReadResponse_decoded bs).encoded_iff⟩
  | getLastModifiedTime =>
    obtain ⟨inner, unmarshalled, made⟩ := bind_returns_iff.mp accepted
    cases made
    exact ⟨rfl, (unmarshalled ▸ Client.unmarshalGetLastModifiedTimeResponse_decoded bs).encoded_iff⟩

/-- A file that starts with `x` and four zero bytes, received as a notification. -/
theorem accepted_encoded_fails :
    Client.unmarshalResponse .write [120, 0, 0, 0, 0] = returns (.write ⟨false, []⟩) ∧
      (Client.Response.write ⟨false, []⟩).atServer.marshal = some [0, 0, 0, 0, 0] := by
  decide

theorem accepted_encoded_iff_failure :
    (Client.Response.delete ⟨false, text "no"⟩).atServer.marshal = some (0 :: counted (text "no")) := by
  have accepted : Client.unmarshalResponse .delete (0 :: counted (text "no")) =
      returns (.delete ⟨false, text "no"⟩) := by decide
  exact (accepted_encoded_iff accepted).2.mpr (by decide)

end RemoteFile
