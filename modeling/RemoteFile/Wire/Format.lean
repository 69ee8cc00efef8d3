import RemoteFile.Core.Octets

/-! Message types, request structures and the byte format of a request datagram.
The format is stated once, independently of the client's marshallers and the
server's unmarshallers, which are both compared with it. -/
namespace RemoteFile
open Octets

abbrev uint64ByteLength : Nat := 8
abbrev uint32ByteLength : Nat := 4
abbrev boolByteLength : Nat := 1
abbrev messageTypeLength : Nat := 1

inductive MessageType where
  | read | write | subscribe | replace | delete | getLastModifiedTime
  deriving DecidableEq

/-- `READ = 0b000001` up to `GET_LAST_MODIFIED_TIME = 0b100000` -/
def MessageType.code : MessageType → UInt8
  | read => 1
  | write => 2
  | subscribe => 4
  | replace => 8
  | delete => 16
  | getLastModifiedTime => 32

/-- The cases of the server's switch; `none` is its default branch. -/
def MessageType.ofCode? (code : UInt8) : Option MessageType :=
  if code = 1 then some read
  else if code = 2 then some write
  else if code = 4 then some subscribe
  else if code = 8 then some replace
  else if code = 16 then some delete
  else if code = 32 then some getLastModifiedTime
  else none

@[simp] theorem MessageType.ofCode?_code (kind : MessageType) : ofCode? kind.code = some kind := by
  cases kind <;> rfl

theorem MessageType.code_of_ofCode? {byte : UInt8} {kind : MessageType}
    (known : ofCode? byte = some kind) : byte = kind.code := by
  unfold ofCode? at known
  repeat' split at known
  all_goals cases known
  all_goals assumption

structure ReadRequest where
  pathname : Bytes
  offset : UInt32
  numBytes : UInt32
  deriving DecidableEq

structure WriteRequest where
  pathname : Bytes
  offset : UInt32
  content : Bytes
  deriving DecidableEq

structure SubscribeRequest where
  pathname : Bytes
  monitorIntervalSeconds : UInt32
  deriving DecidableEq

structure ReplaceRequest where
  pathname : Bytes
  offset : UInt32
  content : Bytes
  deriving DecidableEq

structure DeleteRequest where
  pathname : Bytes
  offset : UInt32
  numBytes : UInt32
  deriving DecidableEq

structure GetLastModifiedTimeRequest where
  pathname : Bytes
  deriving DecidableEq

inductive Request where
  | read (req : ReadRequest)
  | write (req : WriteRequest)
  | subscribe (req : SubscribeRequest)
  | replace (req : ReplaceRequest)
  | delete (req : DeleteRequest)
  | getLastModifiedTime (req : GetLastModifiedTimeRequest)
  deriving DecidableEq

namespace Request

def messageType : Request → MessageType
  | read _ => .read
  | write _ => .write
  | subscribe _ => .subscribe
  | replace _ => .replace
  | delete _ => .delete
  | getLastModifiedTime _ => .getLastModifiedTime

def pathname : Request → Bytes
  | read req => req.pathname
  | write req => req.pathname
  | subscribe req => req.pathname
  | replace req => req.pathname
  | delete req => req.pathname
  | getLastModifiedTime req => req.pathname

/-- The second variable-length field, where the kind has one. -/
def content : Request → Bytes
  | write req => req.content
  | replace req => req.content
  | _ => []

/-- The number fields. -/
def numbers : Request → List UInt32
  | read req => [req.offset, req.numBytes]
  | write req => [req.offset]
  | subscribe req => [req.monitorIntervalSeconds]
  | replace req => [req.offset]
  | delete req => [req.offset, req.numBytes]
  | getLastModifiedTime _ => []

/-- Whether the request is for a change of the file. -/
def updates : Request → Bool
  | write _ | replace _ | delete _ => true
  | _ => false

end Request

/-- A four-byte big-endian field. -/
def word (x : UInt32) : Bytes := bigEndian 4 x.toNat

/-- A length field followed by the bytes it announces. -/
def counted (bs : Bytes) : Bytes := bigEndian 4 bs.length ++ bs

@[simp] theorem word_length (x : UInt32) : (word x).length = 4 := bigEndian_length _ _

@[simp] theorem counted_length (bs : Bytes) : (counted bs).length = 4 + bs.length := by
  simp [counted]

/-- What follows the pathname. -/
def Request.fields : Request → Bytes
  | read req => word req.offset ++ word req.numBytes
  | write req => word req.offset ++ counted req.content
  | subscribe req => word req.monitorIntervalSeconds
  | replace req => word req.offset ++ counted req.content
  | delete req => word req.offset ++ word req.numBytes
  | getLastModifiedTime _ => []

/-- What follows the message id. -/
def Request.body (req : Request) : Bytes := counted req.pathname ++ req.fields

def Request.datagram (id : UInt32) (req : Request) : Bytes :=
  req.messageType.code :: (word id ++ req.body)

/-- Both variable-length fields have a length that a length field can hold. -/
structure Request.Encodable (req : Request) : Prop where
  pathname : req.pathname.length < 2 ^ 32
  content : req.content.length < 2 ^ 32

/-! ### The format is self-delimiting -/

theorem word_inj (same : word a ++ restA = word b ++ restB) : a = b ∧ restA = restB := by
  obtain ⟨words, rest⟩ := List.append_inj same (by simp)
  refine ⟨?_, rest⟩
  rw [← uint32_bigEndian a, ← uint32_bigEndian b]
  exact congrArg (fun bs => UInt32.ofNat (value bs)) words

/-- The length of a counted field is determined by its first four bytes. -/
theorem counted_inj {a b : Bytes} (fitsA : a.length < 2 ^ 32) (fitsB : b.length < 2 ^ 32)
    (same : counted a ++ restA = counted b ++ restB) : a = b ∧ restA = restB := by
  simp only [counted, List.append_assoc] at same
  obtain ⟨lengths, rest⟩ := List.append_inj same (by simp)
  have number := congrArg value lengths
  rw [value_bigEndian_four fitsA, value_bigEndian_four fitsB] at number
  exact List.append_inj rest number

/-- A string that announces its own length is a counted field. -/
theorem counted_of_tail {bs : Bytes} (long : 4 ≤ bs.length)
    (size : bs.length = 4 + value (bs.take 4)) : ∃ c, c.length < 2 ^ 32 ∧ bs = counted c := by
  have four : (bs.take 4).length = 4 := by simp [long]
  have bound := value_lt (bs.take 4)
  rw [four] at bound
  have rest : (bs.drop 4).length = value (bs.take 4) := by rw [List.length_drop]; omega
  refine ⟨bs.drop 4, by rw [rest]; exact bound, ?_⟩
  have digits := bigEndian_value (bs.take 4)
  rw [four] at digits
  rw [counted, rest, digits, List.take_append_drop]

theorem word_prefix (same : word a ++ rest = word b) : a = b ∧ rest = [] := by
  apply word_inj
  rw [List.append_nil, same]

theorem counted_prefix {a b : Bytes} (fitsA : a.length < 2 ^ 32) (fitsB : b.length < 2 ^ 32)
    (same : counted a ++ rest = counted b) : a = b ∧ rest = [] := by
  apply counted_inj fitsA fitsB
  rw [List.append_nil, same]

/-- With the pathname known, the remaining fields determine the request. -/
theorem Request.fields_prefix {a b : Request} (kind : a.messageType = b.messageType)
    (path : a.pathname = b.pathname) (fitsA : a.content.length < 2 ^ 32)
    (fitsB : b.content.length < 2 ^ 32) (same : a.fields ++ rest = b.fields) :
    a = b ∧ rest = [] := by
  cases a <;> cases b <;> cases kind <;> rename_i a b <;> cases a <;> cases b <;> cases path <;>
    simp only [fields, List.append_assoc] at same
  case read.read.refl | delete.delete.refl =>
    obtain ⟨rfl, afterOffset⟩ := word_inj same
    obtain ⟨rfl, none⟩ := word_prefix afterOffset
    exact ⟨rfl, none⟩
  case write.write.refl | replace.replace.refl =>
    obtain ⟨rfl, afterOffset⟩ := word_inj same
    obtain ⟨rfl, none⟩ := counted_prefix fitsA fitsB afterOffset
    exact ⟨rfl, none⟩
  case subscribe.subscribe.refl =>
    obtain ⟨rfl, none⟩ := word_prefix same
    exact ⟨rfl, none⟩
  case getLastModifiedTime.getLastModifiedTime.refl => exact ⟨rfl, same⟩

/-- One body is never a proper beginning of another of the same kind. -/
theorem Request.body_prefix {a b : Request} (kind : a.messageType = b.messageType)
    (fitsA : a.Encodable) (fitsB : b.Encodable) (same : a.body ++ rest = b.body) :
    a = b ∧ rest = [] := by
  simp only [body, List.append_assoc] at same
  obtain ⟨path, fields⟩ := counted_inj fitsA.pathname fitsB.pathname same
  exact fields_prefix kind path fitsA.content fitsB.content fields

/-- Nor is one datagram a proper beginning of another. -/
theorem Request.datagram_prefix {idA idB : UInt32} {a b : Request} (fitsA : a.Encodable)
    (fitsB : b.Encodable) (cut : a.datagram idA <+: b.datagram idB) : idA = idB ∧ a = b := by
  obtain ⟨rest, whole⟩ := cut
  simp only [datagram, List.cons_append, List.append_assoc] at whole
  obtain ⟨codes, tail⟩ := List.cons.inj whole
  obtain ⟨ids, bodies⟩ := word_inj tail
  have kinds : a.messageType = b.messageType := by
    have known := MessageType.ofCode?_code b.messageType
    rw [← codes, MessageType.ofCode?_code] at known
    exact Option.some.inj known
  obtain ⟨same, _⟩ := Request.body_prefix kinds fitsA fitsB bodies
  exact ⟨ids, same⟩

end RemoteFile
