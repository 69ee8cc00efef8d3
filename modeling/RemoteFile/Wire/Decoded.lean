import RemoteFile.Wire.Responses

/-! What the client's unmarshallers do with arbitrary vectors: which they accept,
which they refuse with an exception, and on which they read past the end. -/
namespace RemoteFile
open Octets Cpp Cpp.Outcome

namespace Client

/-! ### The length field of an arbitrary vector -/

theorem element_beyond {v : List α} {i : Nat} (beyond : v.length ≤ i) : element v i = undefined := by
  rw [element, List.getElem?_eq_none beyond]

/-- The loop over a length field leaves a vector that ends inside the field. -/
theorem shiftInRange_beyond {v : Bytes} {acc : UInt64} {start count : Nat} (positive : 0 < count)
    (beyond : v.length < start + count) : shiftInRange v acc start count = undefined := by
  induction count generalizing acc start with
  | zero => contradiction
  | succ count ih =>
    unfold shiftInRange
    by_cases last : v.length ≤ start
    · rw [element_beyond last, undefined_bind]
    · have inside : start < v.length := Nat.lt_of_not_le last
      have here : element v start = returns v[start] := by
        rw [element, List.getElem?_eq_getElem inside]
      rw [here, returns_bind]
      apply ih
      · omega
      · omega

/-- The length that a vector announces, if it has a length field. -/
inductive Announced (flag : UInt8) : (rest : Bytes) → Prop where
  | cut {rest : Bytes} (short : rest.length < 4) (read : readLength (flag :: rest) = undefined) :
      Announced flag rest
  | exact {str : Bytes} {n : UInt64} (fits : str.length < 2 ^ 32)
      (read : readLength (flag :: counted str) = returns n) (size : n.toNat = str.length) :
      Announced flag (counted str)
  | other {rest : Bytes} {n : UInt64} (long : 4 ≤ rest.length)
      (read : readLength (flag :: rest) = returns n) (size : rest.length ≠ 4 + n.toNat) :
      Announced flag rest

theorem announced_cases (flag : UInt8) (rest : Bytes) : Announced flag rest := by
  by_cases long : 4 ≤ rest.length
  · have four : (rest.take 4).length = 4 := List.length_take_of_le long
    obtain ⟨n, read, number⟩ := readLength_returns flag (rest.drop 4) four
    rw [List.take_append_drop] at read
    by_cases size : rest.length = 4 + n.toNat
    · rw [number] at size
      obtain ⟨str, fits, rfl⟩ := counted_of_tail long size
      obtain ⟨m, read', length⟩ := readLength_counted flag fits
      exact .exact fits read' length
    · exact .other long read size
  · have short : rest.length < 4 := Nat.lt_of_not_le long
    apply Announced.cut short
    apply shiftInRange_beyond
    · decide
    · simp only [List.length_cons, boolByteLength, uint32ByteLength]
      omega

/-- The failure branch: the announced length is compared with the size of the
vector, and what follows the length field is the error message. -/
def failureBranch (refusal : Exception) (made : Bytes → α) (res : Bytes) : Outcome α := do
  let errMsgLen ← readLength res
  if res.length ≠ boolByteLength + uint32ByteLength + errMsgLen.toNat then throws refusal
  else do
    let errMsg ← rangeFrom res (boolByteLength + uint32ByteLength)
    returns (made errMsg)

theorem failureBranch_cases (refusal : Exception) (made : Bytes → α) (flag : UInt8) (rest : Bytes) :
    (rest.length < 4 ∧ failureBranch refusal made (flag :: rest) = undefined) ∨
    (∃ str, str.length < 2 ^ 32 ∧ rest = counted str ∧
      failureBranch refusal made (flag :: rest) = returns (made str)) ∨
    (4 ≤ rest.length ∧ failureBranch refusal made (flag :: rest) = throws refusal) := by
  unfold failureBranch
  cases announced_cases flag rest with
  | cut short read =>
    rw [read]
    exact .inl ⟨short, rfl⟩
  | @exact str n fits read length =>
    have total : (flag :: counted str).length = boolByteLength + uint32ByteLength + n.toNat := by
      simp only [List.length_cons, counted_length, boolByteLength, uint32ByteLength, length]
      omega
    rw [read, returns_bind, if_neg (not_not_intro total), rangeFrom_counted]
    exact .inr (.inl ⟨str, fits, rfl, rfl⟩)
  | @other _ n long read length =>
    have total : (flag :: rest).length ≠ boolByteLength + uint32ByteLength + n.toNat := by
      simp only [List.length_cons, boolByteLength, uint32ByteLength]
      omega
    rw [read, returns_bind, if_pos total]
    exact .inr (.inr ⟨long, rfl⟩)

/-! ### The three layouts -/

/-- What the unmarshallers of write, replace, delete and subscribe responses do. -/
inductive StatusDecoded : Bytes → Outcome StatusResponse → Prop where
  | empty : StatusDecoded [] (throws responseTooShort)
  | success : StatusDecoded [1] (returns ⟨true, []⟩)
  | bare {flag : UInt8} (failure : flag ≠ 1) : StatusDecoded [flag] (throws unsuccessfulWithoutMessage)
  | long {rest : Bytes} (more : rest ≠ []) : StatusDecoded (1 :: rest) (throws successfulWithUnknownBytes)
  | cut {flag : UInt8} {rest : Bytes} (failure : flag ≠ 1) (more : rest ≠ []) (short : rest.length < 4) :
      StatusDecoded (flag :: rest) undefined
  | message {flag : UInt8} {str : Bytes} (failure : flag ≠ 1) (fits : str.length < 2 ^ 32) :
      StatusDecoded (flag :: counted str) (returns ⟨false, str⟩)
  | mismatch {flag : UInt8} {rest : Bytes} (failure : flag ≠ 1) (long : 4 ≤ rest.length) :
      StatusDecoded (flag :: rest) (throws incorrectVectorLength)

theorem unmarshalStatusResponse_decoded (bs : Bytes) : StatusDecoded bs (unmarshalStatusResponse bs) := by
  cases bs with
  | nil => exact .empty
  | cons flag rest =>
    by_cases lone : rest = []
    · subst lone
      by_cases success : flag = 1
      · subst success
        exact .success
      · have refused : unmarshalStatusResponse [flag] = throws unsuccessfulWithoutMessage := by
          simp [unmarshalStatusResponse, validateMarshalledStatusResponse, element_head, boolByteLength, success]
        rw [refused]
        exact .bare success
    · have size : (flag :: rest).length ≠ boolByteLength := by
        simpa [boolByteLength] using lone
      by_cases success : flag = 1
      · subst success
        have refused : unmarshalStatusResponse (1 :: rest) = throws successfulWithUnknownBytes := by
          simp [unmarshalStatusResponse, validateMarshalledStatusResponse, element_head, boolByteLength, lone]
        rw [refused]
        exact .long lone
      · have course : unmarshalStatusResponse (flag :: rest) =
            failureBranch incorrectVectorLength (StatusResponse.mk false) (flag :: rest) := by
          simp only [unmarshalStatusResponse, validateMarshalledStatusResponse, failureBranch, element_head,
            returns_bind, if_neg size, beq_eq_false_iff_ne.mpr success]
          rw [if_neg (by simp)]
          cases readLength (flag :: rest) with
          | returns n =>
            simp only [returns_bind, Bool.false_eq_true, if_false]
            split <;> rfl
          | throws e => rfl
          | undefined => rfl
        rw [course]
        rcases failureBranch_cases incorrectVectorLength (StatusResponse.mk false) flag rest with
          ⟨short, result⟩ | ⟨str, fits, rfl, result⟩ | ⟨long, result⟩
        · rw [result]
          exact .cut success lone short
        · rw [result]
          exact .message success fits
        · rw [result]
          exact .mismatch success long

/-- What the unmarshaller of read responses does. -/
inductive ReadDecoded : Bytes → Outcome ReadResponse → Prop where
  | short {bs : Bytes} (size : bs.length < 5) : ReadDecoded bs (throws responseTooShort)
  | whole {flag : UInt8} {str : Bytes} (fits : str.length < 2 ^ 32) :
      ReadDecoded (flag :: counted str) (returns (if flag == 1 then ⟨true, str, []⟩ else ⟨false, [], str⟩))
  | mismatch {bs : Bytes} (long : 5 ≤ bs.length) : ReadDecoded bs (throws incorrectVectorLength)

theorem unmarshalReadResponse_decoded (bs : Bytes) : ReadDecoded bs (unmarshalReadResponse bs) := by
  by_cases short : bs.length < 5
  · have refused : unmarshalReadResponse bs = throws responseTooShort := by
      simp [unmarshalReadResponse, validateMarshalledReadResponse, boolByteLength, uint32ByteLength, short]
    rw [refused]
    exact .short short
  · cases bs with
    | nil => exact absurd (by decide) short
    | cons flag rest =>
      cases announced_cases flag rest with
      | cut tooShort read =>
        rw [List.length_cons] at short
        omega
      | exact fits read length =>
        rw [unmarshalReadResponse_counted flag fits]
        exact .whole fits
      | @other _ n long read length =>
        have refused : unmarshalReadResponse (flag :: rest) = throws incorrectVectorLength := by
          simp only [unmarshalReadResponse, validateMarshalledReadResponse, boolByteLength, uint32ByteLength,
            Nat.reduceAdd, if_neg short, element_head, returns_bind, read]
          rw [if_pos (by rw [List.length_cons]; omega), throws_bind]
        rw [refused]
        exact .mismatch (Nat.le_of_not_lt short)

/-- What the unmarshaller of time responses does. -/
inductive TimeDecoded : Bytes → Outcome GetLastModifiedTimeResponse → Prop where
  | empty : TimeDecoded [] (throws responseTooShort)
  | success (t : UInt64) : TimeDecoded (1 :: bigEndian 8 t.toNat) (returns ⟨true, t, []⟩)
  | wrongSize {rest : Bytes} (size : rest.length ≠ 8) :
      TimeDecoded (1 :: rest) (throws incorrectVectorLengthSuccess)
  | cut {flag : UInt8} {rest : Bytes} (failure : flag ≠ 1) (short : rest.length < 4) :
      TimeDecoded (flag :: rest) undefined
  | message {flag : UInt8} {str : Bytes} (failure : flag ≠ 1) (fits : str.length < 2 ^ 32) :
      TimeDecoded (flag :: counted str) (returns ⟨false, 0, str⟩)
  | mismatch {flag : UInt8} {rest : Bytes} (failure : flag ≠ 1) (long : 4 ≤ rest.length) :
      TimeDecoded (flag :: rest) (throws incorrectVectorLengthUnsuccessful)

theorem bigEndian_uint64 {bs : Bytes} (eight : bs.length = 8) : ∃ t : UInt64, bs = bigEndian 8 t.toNat := by
  have bound := value_lt bs
  rw [eight] at bound
  refine ⟨UInt64.ofNat (value bs), ?_⟩
  rw [UInt64.toNat_ofNat_of_lt' bound, ← eight, bigEndian_value]

theorem unmarshalGetLastModifiedTimeResponse_decoded (bs : Bytes) :
    TimeDecoded bs (unmarshalGetLastModifiedTimeResponse bs) := by
  cases bs with
  | nil => exact .empty
  | cons flag rest =>
    have present : ¬ (flag :: rest).length < boolByteLength := by simp [boolByteLength]
    by_cases success : flag = 1
    · subst success
      by_cases size : rest.length = 8
      · obtain ⟨t, rfl⟩ := bigEndian_uint64 size
        rw [unmarshalGetLastModifiedTimeResponse_success]
        exact .success t
      · have refused : unmarshalGetLastModifiedTimeResponse (1 :: rest) =
            throws incorrectVectorLengthSuccess := by
          simp [unmarshalGetLastModifiedTimeResponse, validateMarshalledGetLastModifiedTimeResponse,
            element_head, boolByteLength, uint64ByteLength, size]
        rw [refused]
        exact .wrongSize size
    · have course : unmarshalGetLastModifiedTimeResponse (flag :: rest) =
          failureBranch incorrectVectorLengthUnsuccessful (GetLastModifiedTimeResponse.mk false 0) (flag :: rest) := by
        simp only [unmarshalGetLastModifiedTimeResponse, validateMarshalledGetLastModifiedTimeResponse,
          failureBranch, if_neg present, element_head, returns_bind, beq_eq_false_iff_ne.mpr success,
          Bool.false_and, Bool.not_false, Bool.false_eq_true, if_false, if_true]
        cases readLength (flag :: rest) with
        | returns n =>
          simp only [returns_bind]
          split <;> rfl
        | throws e => rfl
        | undefined => rfl
      rw [course]
      rcases failureBranch_cases incorrectVectorLengthUnsuccessful (GetLastModifiedTimeResponse.mk false 0) flag rest with
        ⟨short, result⟩ | ⟨str, fits, rfl, result⟩ | ⟨long, result⟩
      · rw [result]
        exact .cut success short
      · rw [result]
        exact .message success fits
      · rw [result]
        exact .mismatch success long

/-! ### What the client accepts -/

/-- An accepted read response is a flag and a counted string. -/
theorem unmarshalReadResponse_ok {bs : Bytes} {res : ReadResponse}
    (accepted : unmarshalReadResponse bs = returns res) :
    ∃ flag str, bs = flag :: counted str ∧ str.length < 2 ^ 32 ∧
      res = if flag == 1 then ⟨true, str, []⟩ else ⟨false, [], str⟩ := by
  have decoded := unmarshalReadResponse_decoded bs
  rw [accepted] at decoded
  cases decoded with
  | whole fits => exact ⟨_, _, rfl, fits, rfl⟩

/-- A read response that was cut off in transit is not accepted. -/
theorem unmarshalReadResponse_received {flag : UInt8} {str : Bytes} {res : ReadResponse} {k : Nat}
    (fits : str.length < 2 ^ 32) (accepted : unmarshalReadResponse ((flag :: counted str).take k) = returns res) :
    res = if flag == 1 then ⟨true, str, []⟩ else ⟨false, [], str⟩ := by
  obtain ⟨flag', str', same, fits', rfl⟩ := unmarshalReadResponse_ok accepted
  cases k with
  | zero => contradiction
  | succ k =>
    rw [List.take_succ_cons] at same
    obtain ⟨rfl, rest⟩ := List.cons.inj same
    have whole : counted str' ++ (counted str).drop k = counted str := by
      rw [← rest, List.take_append_drop]
    obtain ⟨rfl, _⟩ := counted_prefix fits' fits whole
    rfl

/-- A response cut inside its string is refused. -/
theorem unmarshalReadResponse_cut {flag : UInt8} {str : Bytes} {k : Nat} (fits : str.length < 2 ^ 32)
    (start : 5 ≤ k) (cut : k < 5 + str.length) :
    unmarshalReadResponse ((flag :: counted str).take k) = throws incorrectVectorLength := by
  have size : ((flag :: counted str).take k).length = k := by
    rw [List.length_take_of_le]
    rw [List.length_cons, counted_length]
    omega
  have part : (flag :: counted str).take k <+: flag :: counted str := List.take_prefix _ _
  have decoded := unmarshalReadResponse_decoded ((flag :: counted str).take k)
  generalize unmarshalReadResponse ((flag :: counted str).take k) = x at decoded ⊢
  generalize (flag :: counted str).take k = bs at decoded size part
  cases decoded with
  | short less => omega
  | mismatch => rfl
  | @whole flag' str' fits' =>
    -- It would be the whole string, which is longer.
    obtain ⟨rest, whole⟩ := (List.cons_prefix_cons.mp part).2
    obtain ⟨rfl, _⟩ := counted_prefix fits' fits whole
    rw [List.length_cons, counted_length] at size
    omega

/-- The success flag is the first byte. -/
theorem unmarshalReadResponse_flag {flag : UInt8} {rest : Bytes} {res : ReadResponse}
    (accepted : unmarshalReadResponse (flag :: rest) = returns res) : res.success = (flag == 1) := by
  obtain ⟨flag', str, same, _, rfl⟩ := unmarshalReadResponse_ok accepted
  obtain ⟨rfl, _⟩ := List.cons.inj same
  split <;> simp_all

theorem unmarshalStatusResponse_flag {flag : UInt8} {rest : Bytes} {res : StatusResponse}
    (accepted : unmarshalStatusResponse (flag :: rest) = returns res) : res.success = (flag == 1) := by
  have decoded := unmarshalStatusResponse_decoded (flag :: rest)
  rw [accepted] at decoded
  cases decoded with
  | success => rfl
  | message failure => exact (beq_eq_false_iff_ne.mpr failure).symm

theorem unmarshalGetLastModifiedTimeResponse_flag {flag : UInt8} {rest : Bytes}
    {res : GetLastModifiedTimeResponse}
    (accepted : unmarshalGetLastModifiedTimeResponse (flag :: rest) = returns res) :
    res.success = (flag == 1) := by
  have decoded := unmarshalGetLastModifiedTimeResponse_decoded (flag :: rest)
  rw [accepted] at decoded
  cases decoded with
  | success => rfl
  | message failure => exact (beq_eq_false_iff_ne.mpr failure).symm

end Client
end RemoteFile
