import RemoteFile.Client.Program
import RemoteFile.Server.FileService
import RemoteFile.Wire.Decoded

/-! A reply does not say what it replies to. What a client takes an answer for is up to the
request that it waits for; some answers can be taken for others, and the rest end the client. -/
namespace RemoteFile.System
open Octets Cpp Cpp.Outcome Server Client

/-! ### Answers as replies of each layout -/

def asStatus : Answer → Option StatusResponse
  | .failed message => some ⟨false, message⟩
  | .done => some ⟨true, []⟩
  | .content _ | .time _ => none

/-- The upper half of a time is taken for a length, and the lower half for the content. -/
def asRead : Answer → Option ReadResponse
  | .failed message => some ⟨false, [], message⟩
  | .done => none
  | .content bytes => some ⟨true, bytes, []⟩
  | .time seconds =>
    if seconds.toUInt64.toNat / 2 ^ 32 = 4 then some ⟨true, bigEndian 4 seconds.toUInt64.toNat, []⟩ else none

/-- The length of a content is taken for the upper half of a time. -/
def asTime : Answer → Option Client.GetLastModifiedTimeResponse
  | .failed message => some ⟨false, 0, message⟩
  | .done => none
  | .content bytes => if bytes.length = 4 then some ⟨true, UInt64.ofNat (4 * 2 ^ 32 + value bytes), []⟩ else none
  | .time seconds => some ⟨true, seconds.toUInt64, []⟩

/-- What a client that waits for a reply of the kind takes the answer for. -/
def takenAs (kind : MessageType) (answer : Answer) : Option Client.Response :=
  match kind with
  | .read => (asRead answer).map .read
  | .write => (asStatus answer).map .write
  | .subscribe => (asStatus answer).map .subscribe
  | .replace => (asStatus answer).map .replace
  | .delete => (asStatus answer).map .delete
  | .getLastModifiedTime => (asTime answer).map .getLastModifiedTime

/-- A length field can hold the length of the string. -/
def Sendable : Answer → Prop
  | .failed str | .content str => str.length < 2 ^ 32
  | .done | .time _ => True

/-- A value, or else an exception of the validators. -/
def Yields {α : Type} (x : Outcome α) : Option α → Prop
  | some a => x = returns a
  | none => ∃ what, x = throws (.invalidArgument what)

theorem Yields.wrap {α β : Type} {x : Outcome α} {o : Option α} (yields : Yields x o) (wrap : α → β) :
    Yields (x >>= fun a => returns (wrap a)) (o.map wrap) := by
  cases o with
  | some a => exact congrArg (· >>= _) yields
  | none =>
    obtain ⟨what, rfl⟩ := yields
    exact ⟨what, rfl⟩

variable {answer : Answer} {rest str : Bytes} {kind : MessageType}

/-! ### Replies that arrive whole -/

theorem unmarshalStatusResponse_long (more : rest ≠ []) :
    unmarshalStatusResponse (1 :: rest) = throws successfulWithUnknownBytes := by
  have decoded := unmarshalStatusResponse_decoded (1 :: rest)
  generalize unmarshalStatusResponse (1 :: rest) = x at decoded ⊢
  cases decoded with
  | success => contradiction
  | long => rfl
  | bare failure | cut failure | message failure | mismatch failure => exact absurd rfl failure

theorem unmarshalGetLastModifiedTimeResponse_long (size : rest.length ≠ 8) :
    Yields (unmarshalGetLastModifiedTimeResponse (1 :: rest)) none := by
  have decoded := unmarshalGetLastModifiedTimeResponse_decoded (1 :: rest)
  generalize unmarshalGetLastModifiedTimeResponse (1 :: rest) = x at decoded ⊢
  cases decoded with
  | success => exact absurd (bigEndian_length _ _) size
  | wrongSize => exact ⟨_, rfl⟩
  | cut failure | message failure | mismatch failure => exact absurd rfl failure

theorem asStatus_taken (fits : Sendable answer) : Yields (unmarshalStatusResponse answer.bytes) (asStatus answer) := by
  cases answer with
  | failed message => exact unmarshalStatusResponse_failure fits
  | done => exact unmarshalStatusResponse_success
  | content bytes => exact ⟨_, unmarshalStatusResponse_long (by simp [counted, bigEndian])⟩
  | time seconds => exact ⟨_, unmarshalStatusResponse_long (by simp [bigEndian])⟩

theorem asRead_taken (fits : Sendable answer) : Yields (unmarshalReadResponse answer.bytes) (asRead answer) := by
  cases answer with
  | failed message => exact unmarshalReadResponse_counted 0 fits
  | done => exact ⟨_, rfl⟩
  | content bytes => exact unmarshalReadResponse_counted 1 fits
  | time seconds =>
    have halves := bigEndian_add 4 4 seconds.toUInt64.toNat
    rw [asRead]
    split
    case isTrue four =>
      have same : Answer.bytes (.time seconds) = 1 :: counted (bigEndian 4 seconds.toUInt64.toNat) := by
        rw [Answer.bytes, halves, counted, bigEndian_length]
        rw [show seconds.toUInt64.toNat / 256 ^ 4 = 4 from four]
      rw [same]
      exact unmarshalReadResponse_counted 1 (by simp)
    case isFalse other =>
      have decoded := unmarshalReadResponse_decoded (Answer.bytes (.time seconds))
      generalize same : Answer.bytes (.time seconds) = bs at decoded ⊢
      generalize unmarshalReadResponse bs = x at decoded ⊢
      have size : bs.length = 9 := by
        simp [← same, Answer.bytes]
      cases decoded with
      | short less => omega
      | mismatch => exact ⟨_, rfl⟩
      | @whole flag str small =>
        -- the length field would be the upper half of the time
        have tail : bigEndian 4 (seconds.toUInt64.toNat / 2 ^ 32) ++ bigEndian 4 seconds.toUInt64.toNat = counted str :=
          halves.symm.trans (List.cons.inj same).2
        have field := (List.append_inj tail (by simp)).1
        have upper : seconds.toUInt64.toNat / 2 ^ 32 < 2 ^ 32 := by
          have := seconds.toUInt64.toNat_lt
          omega
        have equal := congrArg value field
        rw [value_bigEndian_four upper, value_bigEndian_four small] at equal
        simp only [List.length_cons, counted_length] at size
        omega

theorem asTime_taken (fits : Sendable answer) :
    Yields (unmarshalGetLastModifiedTimeResponse answer.bytes) (asTime answer) := by
  cases answer with
  | failed message => exact unmarshalGetLastModifiedTimeResponse_failure fits
  | done => exact ⟨_, rfl⟩
  | content bytes =>
    rw [asTime]
    split
    case isTrue four =>
      have number : value (counted bytes) = 4 * 2 ^ 32 + value bytes := by
        rw [counted, value_append, four]
        rfl
      have small := value_lt (counted bytes)
      rw [counted_length, four, number] at small
      have word : (UInt64.ofNat (4 * 2 ^ 32 + value bytes)).toNat = 4 * 2 ^ 32 + value bytes :=
        UInt64.toNat_ofNat_of_lt' small
      have digits := bigEndian_value (counted bytes)
      rw [counted_length, four, number, ← word] at digits
      rw [Answer.bytes, ← digits]
      exact unmarshalGetLastModifiedTimeResponse_success _
    case isFalse other =>
      apply unmarshalGetLastModifiedTimeResponse_long
      rw [counted_length]
      omega
  | time seconds => exact unmarshalGetLastModifiedTimeResponse_success _

theorem answer_taken (kind : MessageType) (sendable : Sendable answer) :
    Yields (unmarshalResponse kind answer.bytes) (takenAs kind answer) := by
  cases kind with
  | read => exact (asRead_taken sendable).wrap _
  | write | subscribe | replace | delete => exact (asStatus_taken sendable).wrap _
  | getLastModifiedTime => exact (asTime_taken sendable).wrap _

/-! ### Replies that are cut off -/

/-- A flag and a counted string that lost some of its last bytes. -/
structure CutOff (flag : UInt8) (str bs : Bytes) : Prop where
  fits : str.length < 2 ^ 32
  part : bs <+: flag :: counted str
  field : 5 ≤ bs.length
  short : bs.length < 5 + str.length

theorem cutOff_take {flag : UInt8} {k : Nat} (fits : str.length < 2 ^ 32) (start : 5 ≤ k) (cut : k < 5 + str.length) :
    CutOff flag str ((flag :: counted str).take k) := by
  have size : ((flag :: counted str).take k).length = k := by
    apply List.length_take_of_le
    simp only [List.length_cons, counted_length]
    omega
  exact ⟨fits, List.take_prefix _ _, size.symm ▸ start, size.symm ▸ cut⟩

namespace CutOff

variable {flag : UInt8} {bs : Bytes}

/-- It is not a flag and a counted string. -/
theorem not_counted {flag' : UInt8} {str' : Bytes} (cut : CutOff flag str (flag' :: counted str'))
    (fits : str'.length < 2 ^ 32) : False := by
  obtain ⟨rest, whole⟩ := (List.cons_prefix_cons.mp cut.part).2
  obtain ⟨rfl, _⟩ := counted_prefix fits cut.fits whole
  have short := cut.short
  simp only [List.length_cons, counted_length] at short
  omega

/-- It begins with the flag, and has a length field. -/
theorem cons (cut : CutOff flag str bs) : ∃ rest, bs = flag :: rest ∧ 4 ≤ rest.length := by
  have field := cut.field
  cases bs with
  | nil => contradiction
  | cons b rest =>
    obtain rfl := (List.cons_prefix_cons.mp cut.part).1
    exact ⟨rest, rfl, Nat.le_of_succ_le_succ field⟩

theorem status_refused (cut : CutOff flag str bs) : Yields (unmarshalStatusResponse bs) none := by
  obtain ⟨rest, rfl, long⟩ := cut.cons
  have decoded := unmarshalStatusResponse_decoded (flag :: rest)
  generalize unmarshalStatusResponse (flag :: rest) = x at decoded ⊢
  cases decoded with
  | success | bare => contradiction
  | long | mismatch => exact ⟨_, rfl⟩
  | cut _ _ short => exact absurd long (Nat.not_le_of_lt short)
  | message _ fits => exact (cut.not_counted fits).elim

theorem read_refused (cut : CutOff flag str bs) : Yields (unmarshalReadResponse bs) none := by
  have decoded := unmarshalReadResponse_decoded bs
  generalize unmarshalReadResponse bs = x at decoded ⊢
  cases decoded with
  | short | mismatch => exact ⟨_, rfl⟩
  | whole fits => exact (cut.not_counted fits).elim

/-- Unless it has the size of a time. -/
theorem time_refused (cut : CutOff flag str bs) (size : bs.length ≠ 9) :
    Yields (unmarshalGetLastModifiedTimeResponse bs) none := by
  obtain ⟨rest, rfl, long⟩ := cut.cons
  have decoded := unmarshalGetLastModifiedTimeResponse_decoded (flag :: rest)
  generalize unmarshalGetLastModifiedTimeResponse (flag :: rest) = x at decoded ⊢
  cases decoded with
  | success => simp at size
  | wrongSize | mismatch => exact ⟨_, rfl⟩
  | cut _ short => exact absurd long (Nat.not_le_of_lt short)
  | message _ fits => exact (cut.not_counted fits).elim

theorem refused (cut : CutOff flag str bs) (size : bs.length ≠ 9) (kind : MessageType) :
    Yields (unmarshalResponse kind bs) none := by
  cases kind with
  | read => exact cut.read_refused.wrap _
  | write | subscribe | replace | delete => exact cut.status_refused.wrap _
  | getLastModifiedTime => exact (cut.time_refused size).wrap _

end CutOff

/-- Whatever a client waits for, an answer that fits into its receive vector is taken as the
table says, or refused with an exception; one that does not is refused. No answer makes the
client read outside of the vector. -/
theorem received_taken (kind : MessageType) (sendable : Sendable answer) :
    Yields (unmarshalResponse kind (answer.bytes.take msgLength))
      (if answer.bytes.length ≤ msgLength then takenAs kind answer else none) := by
  split
  case isTrue fits =>
    rw [List.take_of_length_le fits]
    exact answer_taken kind sendable
  case isFalse exceeds =>
    cases answer with
    | done => simp [Answer.bytes, msgLength] at exceeds
    | time seconds => simp [Answer.bytes, msgLength] at exceeds
    | failed str | content str =>
      simp only [Answer.bytes, List.length_cons, counted_length, msgLength] at exceeds
      apply CutOff.refused (cutOff_take sendable (by decide) (by simp only [msgLength]; omega))
      simp only [List.length_take, List.length_cons, counted_length, msgLength]
      omega

/-- Four bytes of a file, taken for a time. -/
theorem received_taken_digits :
    unmarshalResponse .getLastModifiedTime ((Answer.content (text "1234")).bytes.take msgLength) =
      returns (.getLastModifiedTime ⟨true, 18005242676, []⟩) := by
  have sendable : Sendable (.content (text "1234")) := by
    show (text "1234").length < 2 ^ 32
    decide
  exact received_taken .getLastModifiedTime sendable

end RemoteFile.System
