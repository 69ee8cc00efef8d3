import RemoteFile.Core.Outcome
import RemoteFile.Wire.Format

/-! The client's request marshallers. Each allocates a zeroed vector and stores
the fields at offsets computed by hand; every store is checked against the size
of the vector. -/
namespace RemoteFile.Client
open Octets Cpp Cpp.Outcome

/-- `std::vector<uint8_t> buf(bufSize)` -/
def allocate (bufSize : Nat) : Bytes := List.replicate bufSize 0

/-- `x = htonl(v); std::memcpy(…, &x, sizeof(uint32_t))` stores these bytes. -/
def htonl (v : UInt32) : Bytes := bigEndian uint32ByteLength v.toNat

/-- The stores that all six marshallers begin with: type, id, pathname length
and pathname. -/
def marshalHead (messageType : MessageType) (reqID pathnameLen : UInt32) (pathnameBytes buf : Bytes) :
    Outcome Bytes := do
  let buf ← memcpy buf 0 [messageType.code]
  let buf ← memcpy buf messageTypeLength (htonl reqID)
  let buf ← memcpy buf (messageTypeLength + uint32ByteLength) (htonl pathnameLen)
  memcpy buf (messageTypeLength + 2 * uint32ByteLength) (pathnameBytes.take pathnameLen.toNat)

/-- `marshalReadRequest` and `marshalDeleteRequest` differ in the type byte only. -/
def marshalRangeRequest (messageType : MessageType) (reqID : UInt32) (pathname : Bytes)
    (offset numBytes : UInt32) : Outcome Bytes := do
  let pathnameLen := UInt32.ofNat pathname.length
  let bufSize := messageTypeLength + pathnameLen.toNat + 4 * uint32ByteLength
  let buf ← marshalHead messageType reqID pathnameLen pathname (allocate bufSize)
  let buf ← memcpy buf (messageTypeLength + 2 * uint32ByteLength + pathnameLen.toNat) (htonl offset)
  memcpy buf (messageTypeLength + 3 * uint32ByteLength + pathnameLen.toNat) (htonl numBytes)

/-- `marshalWriteRequest` and `marshalReplaceRequest` differ in the type byte only. -/
def marshalContentRequest (messageType : MessageType) (reqID : UInt32) (pathname : Bytes)
    (offset : UInt32) (content : Bytes) : Outcome Bytes := do
  let pathnameLen := UInt32.ofNat pathname.length
  let contentLen := UInt32.ofNat content.length
  let bufSize := messageTypeLength + pathnameLen.toNat + contentLen.toNat + 4 * uint32ByteLength
  let buf ← marshalHead messageType reqID pathnameLen pathname (allocate bufSize)
  let buf ← memcpy buf (messageTypeLength + 2 * uint32ByteLength + pathnameLen.toNat) (htonl offset)
  let buf ← memcpy buf (messageTypeLength + 3 * uint32ByteLength + pathnameLen.toNat)
    (htonl contentLen)
  memcpy buf (messageTypeLength + 4 * uint32ByteLength + pathnameLen.toNat)
    (content.take contentLen.toNat)

def marshalReadRequest (reqID : UInt32) (req : ReadRequest) : Outcome Bytes :=
  marshalRangeRequest .read reqID req.pathname req.offset req.numBytes

def marshalDeleteRequest (reqID : UInt32) (req : DeleteRequest) : Outcome Bytes :=
  marshalRangeRequest .delete reqID req.pathname req.offset req.numBytes

def marshalWriteRequest (reqID : UInt32) (req : WriteRequest) : Outcome Bytes :=
  marshalContentRequest .write reqID req.pathname req.offset req.content

def marshalReplaceRequest (reqID : UInt32) (req : ReplaceRequest) : Outcome Bytes :=
  marshalContentRequest .replace reqID req.pathname req.offset req.content

def marshalSubscribeRequest (reqID : UInt32) (req : SubscribeRequest) : Outcome Bytes := do
  let pathnameLen := UInt32.ofNat req.pathname.length
  let bufSize := messageTypeLength + pathnameLen.toNat + 3 * uint32ByteLength
  let buf ← marshalHead .subscribe reqID pathnameLen req.pathname (allocate bufSize)
  memcpy buf (messageTypeLength + 2 * uint32ByteLength + pathnameLen.toNat)
    (htonl req.monitorIntervalSeconds)

def marshalGetLastModifiedTimeRequest (reqID : UInt32) (req : GetLastModifiedTimeRequest) :
    Outcome Bytes :=
  let pathnameLen := UInt32.ofNat req.pathname.length
  let bufSize := messageTypeLength + 2 * uint32ByteLength + pathnameLen.toNat
  marshalHead .getLastModifiedTime reqID pathnameLen req.pathname (allocate bufSize)

/-- The marshaller that `main` calls for a request. -/
def marshalRequest (reqID : UInt32) : Request → Outcome Bytes
  | .read req => marshalReadRequest reqID req
  | .write req => marshalWriteRequest reqID req
  | .subscribe req => marshalSubscribeRequest reqID req
  | .replace req => marshalReplaceRequest reqID req
  | .delete req => marshalDeleteRequest reqID req
  | .getLastModifiedTime req => marshalGetLastModifiedTimeRequest reqID req

/-! ### The marshallers produce the format -/

theorem htonl_eq_word (v : UInt32) : htonl v = word v := rfl

theorem htonl_ofNat (fits : n < 2 ^ 32) : htonl (UInt32.ofNat n) = bigEndian 4 n := by
  rw [htonl, UInt32.toNat_ofNat_of_lt' fits, uint32ByteLength]

/-- The part of the vector the first four stores fill. -/
def head (messageType : MessageType) (reqID : UInt32) (pathname : Bytes) : Bytes :=
  messageType.code :: (word reqID ++ counted pathname)

theorem datagram_eq_head (reqID : UInt32) (req : Request) :
    req.datagram reqID = head req.messageType reqID req.pathname ++ req.fields := by
  simp only [Request.datagram, Request.body, head, List.cons_append, List.append_assoc]

theorem head_length (messageType : MessageType) (reqID : UInt32) (pathname : Bytes) :
    (head messageType reqID pathname).length = 9 + pathname.length := by
  simp only [head, List.length_cons, List.length_append, word_length, counted_length]
  omega

theorem marshalHead_returns (messageType : MessageType) (reqID : UInt32) {pathname : Bytes}
    (fits : pathname.length < 2 ^ 32) (room : 9 + pathname.length ≤ total) :
    marshalHead messageType reqID (UInt32.ofNat pathname.length) pathname (allocate total) =
      returns (filled 0 total (head messageType reqID pathname)) := by
  have start : allocate total = filled 0 total [] := (filled_nil _ _).symm
  have length := UInt32.toNat_ofNat_of_lt' fits
  simp only [marshalHead, htonl_eq_word, length, List.take_length, start, messageTypeLength,
    uint32ByteLength]
  rw [memcpy_filled (show 0 = ([] : Bytes).length from rfl) (by simp; omega), returns_bind,
    memcpy_filled (by simp) (by simp; omega), returns_bind,
    memcpy_filled (by simp) (by simp; omega), returns_bind,
    memcpy_filled (by simp) (by simp; omega)]
  simp only [head, counted, ← htonl_ofNat fits, htonl_eq_word, List.nil_append,
    List.append_assoc, List.cons_append]

theorem marshalRangeRequest_returns (messageType : MessageType) (reqID : UInt32) {pathname : Bytes}
    (offset numBytes : UInt32) (fits : pathname.length < 2 ^ 32) :
    marshalRangeRequest messageType reqID pathname offset numBytes =
      returns (head messageType reqID pathname ++ word offset ++ word numBytes) := by
  have length := UInt32.toNat_ofNat_of_lt' fits
  have used := head_length messageType reqID pathname
  simp only [marshalRangeRequest, length, messageTypeLength, uint32ByteLength, htonl_eq_word]
  rw [marshalHead_returns messageType reqID fits (by omega), returns_bind,
    memcpy_filled (by rw [used]) (by simp; omega), returns_bind,
    memcpy_filled (by simp [used]; omega) (by simp; omega),
    filled_full (by simp [used]; omega)]

theorem marshalContentRequest_returns (messageType : MessageType) (reqID : UInt32)
    {pathname content : Bytes} (offset : UInt32) (fits : pathname.length < 2 ^ 32)
    (contentFits : content.length < 2 ^ 32) :
    marshalContentRequest messageType reqID pathname offset content =
      returns (head messageType reqID pathname ++ word offset ++ counted content) := by
  have length := UInt32.toNat_ofNat_of_lt' fits
  have contentLength := UInt32.toNat_ofNat_of_lt' contentFits
  have used := head_length messageType reqID pathname
  simp only [marshalContentRequest, length, contentLength, messageTypeLength, uint32ByteLength,
    htonl_eq_word, List.take_length]
  rw [marshalHead_returns messageType reqID fits (by omega), returns_bind,
    memcpy_filled (by rw [used]) (by simp; omega), returns_bind,
    memcpy_filled (by simp [used]; omega) (by simp; omega), returns_bind,
    memcpy_filled (by simp [used]; omega) (by simp; omega),
    filled_full (by simp [used]; omega)]
  simp only [counted, ← htonl_ofNat contentFits, htonl_eq_word, List.append_assoc]

/-- Every store of every marshaller stays inside its vector, and the vector
returned is the datagram of the format. -/
theorem marshalRequest_returns (reqID : UInt32) {req : Request} (encodable : req.Encodable) :
    marshalRequest reqID req = returns (req.datagram reqID) := by
  have path := encodable.pathname
  have content := encodable.content
  rw [datagram_eq_head]
  cases req with
  | read req | delete req =>
    exact (marshalRangeRequest_returns _ _ _ _ path).trans (by rw [List.append_assoc]; rfl)
  | write req | replace req =>
    exact (marshalContentRequest_returns _ _ _ path content).trans (by rw [List.append_assoc]; rfl)
  | subscribe req =>
    have length := UInt32.toNat_ofNat_of_lt' path
    have used := head_length .subscribe reqID req.pathname
    simp only [Request.pathname] at length path
    simp only [marshalRequest, marshalSubscribeRequest, length, messageTypeLength, uint32ByteLength,
      htonl_eq_word]
    rw [marshalHead_returns _ _ path (by omega), returns_bind,
      memcpy_filled (by rw [used]) (by simp; omega), filled_full (by simp [used]; omega)]
    rfl
  | getLastModifiedTime req =>
    have length := UInt32.toNat_ofNat_of_lt' path
    have used := head_length .getLastModifiedTime reqID req.pathname
    simp only [Request.pathname] at length path
    simp only [marshalRequest, marshalGetLastModifiedTimeRequest, length, messageTypeLength,
      uint32ByteLength]
    rw [marshalHead_returns _ _ path (by omega), filled_full (by rw [used])]
    exact congrArg returns (List.append_nil _).symm

/-! ### Longer fields

A length is kept in 32 bits, so of a longer field the marshallers store the part
that the kept length announces. -/

def kept (bs : Bytes) : Bytes := bs.take (bs.length % 2 ^ 32)

theorem kept_length (bs : Bytes) : (kept bs).length = bs.length % 2 ^ 32 := by
  rw [kept, List.length_take, Nat.min_eq_left (Nat.mod_le _ _)]

theorem kept_short (bs : Bytes) : (kept bs).length < 2 ^ 32 := by
  rw [kept_length]
  exact Nat.mod_lt _ (by decide)

theorem kept_uint32 (bs : Bytes) : UInt32.ofNat (kept bs).length = UInt32.ofNat bs.length := by
  apply UInt32.toNat_inj.mp
  rw [kept_length, UInt32.toNat_ofNat', UInt32.toNat_ofNat', Nat.mod_mod]

theorem kept_take (bs : Bytes) :
    (kept bs).take (UInt32.ofNat bs.length).toNat = bs.take (UInt32.ofNat bs.length).toNat := by
  rw [kept, UInt32.toNat_ofNat', List.take_take, Nat.min_self]

/-- The request with each field as a marshaller stores it. -/
def keptRequest : Request → Request
  | .read req => .read { req with pathname := kept req.pathname }
  | .write req => .write { req with pathname := kept req.pathname, content := kept req.content }
  | .subscribe req => .subscribe { req with pathname := kept req.pathname }
  | .replace req => .replace { req with pathname := kept req.pathname, content := kept req.content }
  | .delete req => .delete { req with pathname := kept req.pathname }
  | .getLastModifiedTime req => .getLastModifiedTime { req with pathname := kept req.pathname }

theorem keptRequest_encodable (req : Request) : (keptRequest req).Encodable := by
  cases req <;> constructor <;> first | exact kept_short _ | exact Nat.two_pow_pos 32

/-- Whatever the lengths of its fields, a marshaller returns the datagram of the
request that has them cut off. -/
theorem marshalRequest_kept (reqID : UInt32) (req : Request) :
    marshalRequest reqID req = returns ((keptRequest req).datagram reqID) := by
  rw [← marshalRequest_returns reqID (keptRequest_encodable req)]
  cases req <;>
    simp only [marshalRequest, keptRequest, marshalReadRequest, marshalDeleteRequest, marshalWriteRequest,
      marshalReplaceRequest, marshalSubscribeRequest, marshalGetLastModifiedTimeRequest,
      marshalRangeRequest, marshalContentRequest, marshalHead, kept_uint32, kept_take]

end RemoteFile.Client
