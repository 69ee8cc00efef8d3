import RemoteFile.Core.Slice
import RemoteFile.Core.Outcome
import RemoteFile.Wire.Format

/-! Response structures, the server's marshallers and the client's validators
and unmarshallers. The three layouts are a lone success flag, a flag with a
counted string, and a flag with a 64-bit time. -/
namespace RemoteFile
open Octets Go Cpp Cpp.Outcome

/-- Write, replace, delete and subscribe responses. -/
structure StatusResponse where
  success : Bool
  errorMessage : Bytes
  deriving DecidableEq

abbrev WriteResponse := StatusResponse
abbrev SubscribeResponse := StatusResponse
abbrev ReplaceResponse := StatusResponse
abbrev DeleteResponse := StatusResponse

structure ReadResponse where
  success : Bool
  content : Bytes
  errorMessage : Bytes
  deriving DecidableEq

namespace Server

structure GetLastModifiedTimeResponse where
  success : Bool
  lastModifiedUnixTime : Int64
  errorMessage : Bytes
  deriving DecidableEq

/-- `binary.BigEndian.PutUint32(buf[lo:hi], v)` -/
def putUint32 (buf : Bytes) (lo hi : Nat) (v : UInt32) : Option Bytes :=
  Slice.copy? buf lo hi (bigEndian 4 v.toNat)

/-- `binary.BigEndian.PutUint64(buf[lo:hi], v)` -/
def putUint64 (buf : Bytes) (lo hi : Nat) (v : UInt64) : Option Bytes :=
  Slice.copy? buf lo hi (bigEndian 8 v.toNat)

def marshalSingleStringResponse (success : UInt8) (str : Bytes) : Option Bytes := do
  let strLen := str.length
  let buf := List.replicate (boolByteLength + uint32ByteLength + strLen) 0
  let buf ← Slice.copy? buf 0 boolByteLength [success]
  let buf ← putUint32 buf boolByteLength (boolByteLength + uint32ByteLength) (UInt32.ofNat strLen)
  Slice.copy? buf (boolByteLength + uint32ByteLength) (boolByteLength + uint32ByteLength + strLen) str

/-- `MarshalResponse` of write, replace, delete and subscribe: no error message
if successful. -/
def marshalStatusResponse (res : StatusResponse) : Option Bytes :=
  if res.success then some [1] else marshalSingleStringResponse 0 res.errorMessage

def Write.marshalResponse (res : WriteResponse) : Option Bytes := marshalStatusResponse res
def Subscribe.marshalResponse (res : SubscribeResponse) : Option Bytes := marshalStatusResponse res
def Replace.marshalResponse (res : ReplaceResponse) : Option Bytes := marshalStatusResponse res
def Delete.marshalResponse (res : DeleteResponse) : Option Bytes := marshalStatusResponse res

def Read.marshalResponse (res : ReadResponse) : Option Bytes :=
  if res.success then marshalSingleStringResponse 1 res.content
  else marshalSingleStringResponse 0 res.errorMessage

namespace GetLastModifiedTime

def marshalSuccessResponse (lastModifiedUnixTime : Int64) : Option Bytes := do
  let buf := List.replicate (boolByteLength + uint64ByteLength) 0
  let buf ← Slice.copy? buf 0 boolByteLength [1]
  putUint64 buf boolByteLength (boolByteLength + uint64ByteLength) lastModifiedUnixTime.toUInt64

def marshalErrorResponse (errMsg : Bytes) : Option Bytes := marshalSingleStringResponse 0 errMsg

def marshalResponse (res : GetLastModifiedTimeResponse) : Option Bytes :=
  if res.success then marshalSuccessResponse res.lastModifiedUnixTime
  else marshalErrorResponse res.errorMessage

end GetLastModifiedTime

theorem marshalSingleStringResponse_eq (success : UInt8) (str : Bytes) :
    marshalSingleStringResponse success str = some (success :: counted str) := by
  have digits : bigEndian 4 (UInt32.ofNat str.length).toNat = bigEndian 4 str.length := by
    rw [UInt32.toNat_ofNat']
    exact bigEndian_mod 4 str.length
  have start : List.replicate (5 + str.length) 0 = filled (0 : UInt8) (5 + str.length) [] :=
    (filled_nil _ _).symm
  simp only [marshalSingleStringResponse, putUint32, digits, boolByteLength, uint32ByteLength,
    Nat.reduceAdd, start]
  rw [Slice.copy?_filled (show 0 = ([] : Bytes).length from rfl)
      (show 1 = 0 + [success].length from rfl) (by omega), Option.bind_eq_bind, Option.bind_some,
    Slice.copy?_filled (by simp) (by simp) (by omega), Option.bind_some,
    Slice.copy?_filled (by simp) rfl (by omega), filled_full (by simp; omega)]
  rfl

theorem marshalSuccessResponse_eq (t : Int64) :
    GetLastModifiedTime.marshalSuccessResponse t = some (1 :: bigEndian 8 t.toUInt64.toNat) := by
  have start : List.replicate 9 0 = filled (0 : UInt8) 9 [] := (filled_nil _ _).symm
  simp only [GetLastModifiedTime.marshalSuccessResponse, putUint64, boolByteLength, uint64ByteLength,
    Nat.reduceAdd, start]
  rw [Slice.copy?_filled (show 0 = ([] : Bytes).length from rfl)
      (show 1 = 0 + [(1 : UInt8)].length from rfl) (by omega), Option.bind_eq_bind, Option.bind_some,
    Slice.copy?_filled (by simp) (by simp) (by omega), filled_full (by simp)]
  rfl

end Server

namespace Client

structure GetLastModifiedTimeResponse where
  success : Bool
  lastModifiedUnixTime : UInt64
  errorMessage : Bytes
  deriving DecidableEq

def responseTooShort : Exception :=
  .invalidArgument "invalid response: byte vector length is too short"
def unsuccessfulWithoutMessage : Exception :=
  .invalidArgument "invalid response: unsuccessful without error message"
def successfulWithUnknownBytes : Exception :=
  .invalidArgument "invalid response: successful with additional unknown bytes"
def incorrectVectorLength : Exception :=
  .invalidArgument "invalid response: incorrect byte vector length"
def incorrectVectorLengthSuccess : Exception :=
  .invalidArgument "invalid response: incorrect byte vector length (success)"
def incorrectVectorLengthUnsuccessful : Exception :=
  .invalidArgument "invalid response: incorrect byte vector length (unsuccessful)"

/-- The loop over `res[1] … res[4]` that reads a string length. -/
def readLength (res : Bytes) : Outcome UInt64 :=
  shiftInRange res 0 boolByteLength uint32ByteLength

/-- The validator of write, replace, delete and subscribe responses. -/
def validateMarshalledStatusResponse (res : Bytes) : Outcome Bool :=
  if res.length = 0 then throws responseTooShort
  else do
    let success := (← element res 0) == 1
    if res.length = boolByteLength then
      if !success then throws unsuccessfulWithoutMessage else returns true
    else if success then throws successfulWithUnknownBytes
    else do
      let errMsgLen ← readLength res
      if res.length ≠ boolByteLength + uint32ByteLength + errMsgLen.toNat then
        throws incorrectVectorLength
      else returns success

def unmarshalStatusResponse (res : Bytes) : Outcome StatusResponse := do
  if ← validateMarshalledStatusResponse res then returns ⟨true, []⟩
  else do
    let errMsg ← rangeFrom res (boolByteLength + uint32ByteLength)
    returns ⟨false, errMsg⟩

def unmarshalWriteResponse (res : Bytes) : Outcome WriteResponse := unmarshalStatusResponse res
def unmarshalSubscribeResponse (res : Bytes) : Outcome SubscribeResponse := unmarshalStatusResponse res
def unmarshalReplaceResponse (res : Bytes) : Outcome ReplaceResponse := unmarshalStatusResponse res
def unmarshalDeleteResponse (res : Bytes) : Outcome DeleteResponse := unmarshalStatusResponse res

def validateMarshalledReadResponse (res : Bytes) : Outcome Bool :=
  if res.length < boolByteLength + uint32ByteLength then throws responseTooShort
  else do
    let success := (← element res 0) == 1
    let strLen ← readLength res
    if res.length ≠ boolByteLength + uint32ByteLength + strLen.toNat then
      throws incorrectVectorLength
    else returns success

def unmarshalReadResponse (res : Bytes) : Outcome ReadResponse := do
  let success ← validateMarshalledReadResponse res
  let str ← rangeFrom res (boolByteLength + uint32ByteLength)
  if success then returns ⟨true, str, []⟩ else returns ⟨false, [], str⟩

/-- The length of the failure branch is read before the size is compared. -/
def validateMarshalledGetLastModifiedTimeResponse (res : Bytes) : Outcome Bool :=
  if res.length < boolByteLength then throws responseTooShort
  else do
    let success := (← element res 0) == 1
    if success && res.length ≠ boolByteLength + uint64ByteLength then
      throws incorrectVectorLengthSuccess
    else if !success then do
      let errMsgLen ← readLength res
      if res.length ≠ boolByteLength + uint32ByteLength + errMsgLen.toNat then
        throws incorrectVectorLengthUnsuccessful
      else returns success
    else returns success

def unmarshalGetLastModifiedTimeResponse (res : Bytes) : Outcome GetLastModifiedTimeResponse := do
  if ← validateMarshalledGetLastModifiedTimeResponse res then do
    let lastModifiedUnixTime ← shiftInRange res 0 boolByteLength uint64ByteLength
    returns ⟨true, lastModifiedUnixTime, []⟩
  else do
    let errMsg ← rangeFrom res (boolByteLength + uint32ByteLength)
    returns ⟨false, 0, errMsg⟩

/-! ### Evaluation on the three layouts -/

/-- The length loop on a vector of at least five bytes. -/
theorem readLength_returns (flag : UInt8) {len : Bytes} (str : Bytes) (four : len.length = 4) :
    ∃ n, readLength (flag :: (len ++ str)) = returns n ∧ n.toNat = value len := by
  have bound := value_lt len
  rw [four] at bound
  obtain ⟨n, read, number⟩ := shiftInRange_returns [flag] len str 0 (show 1 = [flag].length from rfl)
    (by simp only [UInt64.toNat_zero, Nat.zero_mul, Nat.zero_add]; omega)
  rw [four] at read
  exact ⟨n, read, by rw [number, UInt64.toNat_zero, Nat.zero_mul, Nat.zero_add]⟩

theorem readLength_counted (flag : UInt8) {str : Bytes} (fits : str.length < 2 ^ 32) :
    ∃ n, readLength (flag :: counted str) = returns n ∧ n.toNat = str.length := by
  obtain ⟨n, read, number⟩ := readLength_returns flag str (bigEndian_length 4 str.length)
  refine ⟨n, read, ?_⟩
  rw [number, value_bigEndian_four fits]

theorem rangeFrom_counted (flag : UInt8) (str : Bytes) :
    rangeFrom (flag :: counted str) (boolByteLength + uint32ByteLength) = returns str := by
  have tail : (flag :: counted str).drop 5 = str := by
    rw [List.drop_succ_cons, counted, List.drop_left' (bigEndian_length _ _)]
  have long : 5 ≤ (flag :: counted str).length := by simp
  simp only [boolByteLength, uint32ByteLength, rangeFrom, Nat.reduceAdd]
  rw [if_pos long, tail]

theorem element_head (flag : UInt8) (rest : Bytes) : element (flag :: rest) 0 = returns flag := rfl

theorem unmarshalStatusResponse_success : unmarshalStatusResponse [1] = returns ⟨true, []⟩ := by
  decide

theorem unmarshalStatusResponse_failure {str : Bytes} (fits : str.length < 2 ^ 32) :
    unmarshalStatusResponse (0 :: counted str) = returns ⟨false, str⟩ := by
  obtain ⟨n, read, number⟩ := readLength_counted 0 fits
  have size : (0 :: counted str).length = 5 + str.length := by simp; omega
  have valid : validateMarshalledStatusResponse (0 :: counted str) = returns false := by
    simp only [validateMarshalledStatusResponse, size, element_head, returns_bind, read, number,
      boolByteLength, uint32ByteLength]
    rw [if_neg (by omega), if_neg (by omega)]
    simp
  rw [unmarshalStatusResponse, valid, returns_bind, if_neg (by decide), rangeFrom_counted, returns_bind]

theorem unmarshalReadResponse_counted (flag : UInt8) {str : Bytes} (fits : str.length < 2 ^ 32) :
    unmarshalReadResponse (flag :: counted str) =
      returns (if flag == 1 then ⟨true, str, []⟩ else ⟨false, [], str⟩) := by
  obtain ⟨n, read, number⟩ := readLength_counted flag fits
  have size : (flag :: counted str).length = 5 + str.length := by simp; omega
  have valid : validateMarshalledReadResponse (flag :: counted str) = returns (flag == 1) := by
    simp only [validateMarshalledReadResponse, size, element_head, returns_bind, read, number,
      boolByteLength, uint32ByteLength]
    rw [if_neg (by omega), if_neg (by omega)]
  rw [unmarshalReadResponse, valid, returns_bind, rangeFrom_counted, returns_bind]
  split <;> rfl

theorem unmarshalGetLastModifiedTimeResponse_success (t : UInt64) :
    unmarshalGetLastModifiedTimeResponse (1 :: bigEndian 8 t.toNat) = returns ⟨true, t, []⟩ := by
  have size : (1 :: bigEndian 8 t.toNat).length = 9 := by simp
  have valid : validateMarshalledGetLastModifiedTimeResponse (1 :: bigEndian 8 t.toNat) =
      returns true := by
    simp only [validateMarshalledGetLastModifiedTimeResponse, size, element_head, returns_bind,
      boolByteLength, uint64ByteLength]
    rfl
  have number : value (bigEndian 8 t.toNat) = t.toNat := by
    rw [value_bigEndian, Nat.mod_eq_of_lt (show _ < 256 ^ 8 from t.toNat_lt)]
  obtain ⟨word, read, same⟩ := shiftInRange_returns [1] (bigEndian 8 t.toNat) [] 0
    (show 1 = [1].length from rfl)
    (by rw [number, UInt64.toNat_zero, Nat.zero_mul, Nat.zero_add]; exact t.toNat_lt)
  rw [bigEndian_length, List.append_nil] at read
  rw [number, UInt64.toNat_zero, Nat.zero_mul, Nat.zero_add] at same
  obtain rfl := UInt64.toNat_inj.mp same
  rw [unmarshalGetLastModifiedTimeResponse, valid, returns_bind, if_pos rfl]
  exact congrArg (· >>= _) read

theorem unmarshalGetLastModifiedTimeResponse_failure {str : Bytes} (fits : str.length < 2 ^ 32) :
    unmarshalGetLastModifiedTimeResponse (0 :: counted str) = returns ⟨false, 0, str⟩ := by
  obtain ⟨n, read, number⟩ := readLength_counted 0 fits
  have size : (0 :: counted str).length = 5 + str.length := by simp; omega
  have valid : validateMarshalledGetLastModifiedTimeResponse (0 :: counted str) = returns false := by
    simp only [validateMarshalledGetLastModifiedTimeResponse, size, element_head, returns_bind, read,
      number, boolByteLength, uint32ByteLength, uint64ByteLength]
    rw [if_neg (by omega)]
    simp
  rw [unmarshalGetLastModifiedTimeResponse, valid, returns_bind, if_neg (by decide),
    rangeFrom_counted, returns_bind]

end Client
end RemoteFile
