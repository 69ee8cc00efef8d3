import RemoteFile.Wire.ClientRequests
import RemoteFile.Wire.ServerRequests
import RemoteFile.Wire.Decoded

/-! The client's and the server's hand-written codecs agree: requests both ways,
and responses from the server to the client. -/
namespace RemoteFile
open Octets Go Cpp Cpp.Outcome

/-! ### Requests -/

/-- Splitting a datagram as the router does and unmarshalling its data gives
back what the client marshalled; and what the server accepts is, byte for byte,
what the client would have marshalled for it. The datagram may be followed by
arbitrary bytes within the capacity of its slice. -/
theorem request_roundTrip :
    (∀ (id : UInt32) (r : Request) (spare : Bytes), r.Encodable →
      ∃ bytes, Client.marshalRequest id r = returns bytes ∧
        Server.validateRequest ⟨bytes, spare⟩ = .ok () ∧
        Server.getMessageType ⟨bytes, spare⟩ = some r.messageType.code ∧
        Server.getMessageId ⟨bytes, spare⟩ = some id ∧
        (Server.getData ⟨bytes, spare⟩ >>= Server.unmarshalRequest r.messageType) =
          some (.ok r)) ∧
    (∀ (d : Slice UInt8) (kind : MessageType) (id : UInt32) (r : Request),
      Server.validateRequest d = .ok () → Server.getMessageType d = some kind.code →
      Server.getMessageId d = some id →
      (Server.getData d >>= Server.unmarshalRequest kind) = some (.ok r) →
      Client.marshalRequest id r = returns d.elems) := by
  constructor
  · intro id r spare encodable
    obtain ⟨type, number, data⟩ := Server.header_datagram id r spare
    refine ⟨r.datagram id, Client.marshalRequest_returns id encodable, ?_, type, number, ?_⟩
    · have long : ¬ Slice.len ⟨r.datagram id, spare⟩ < messageTypeLength + uint32ByteLength := by
        simp [Slice.len, Request.datagram, messageTypeLength, uint32ByteLength]
      rw [Server.validateRequest, if_neg long]
    · rw [data, Option.bind_eq_bind, Option.bind_some]
      exact Server.unmarshalRequest_ok.mpr ⟨rfl, encodable, rfl⟩
  · intro d kind id r long type number accepted
    have five : 5 ≤ d.len := by
      unfold Server.validateRequest at long
      split at long
      · cases long
      · simp only [messageTypeLength, uint32ByteLength] at *
        omega
    obtain ⟨code, x, data, hasType, hasId, hasData, split⟩ := Server.header_split five
    obtain rfl := Option.some.inj (hasType.symm.trans type)
    obtain rfl := Option.some.inj (hasId.symm.trans number)
    rw [hasData, Option.bind_eq_bind, Option.bind_some] at accepted
    obtain ⟨rfl, encodable, same⟩ := Server.unmarshalRequest_ok.mp accepted
    rw [Client.marshalRequest_returns x encodable, split, Request.datagram, ← same]

theorem request_roundTrip_write :
    (∃ bytes, Client.marshalRequest 7 (.write ⟨[97], 3, [98, 99]⟩) = returns bytes ∧
      (Server.getData ⟨bytes, [0, 0]⟩ >>= Server.unmarshalRequest .write) =
        some (.ok (.write ⟨[97], 3, [98, 99]⟩))) ∧
    Client.marshalRequest 7 (.getLastModifiedTime ⟨[97]⟩) = returns [32, 0, 0, 0, 7, 0, 0, 0, 1, 97] := by
  constructor
  · obtain ⟨bytes, marshalled, _, _, _, accepted⟩ :=
      request_roundTrip.1 7 (.write ⟨[97], 3, [98, 99]⟩) [0, 0] ⟨by decide, by decide⟩
    exact ⟨bytes, marshalled, accepted⟩
  · exact request_roundTrip.2 ⟨[32, 0, 0, 0, 7, 0, 0, 0, 1, 97], [5]⟩ .getLastModifiedTime 7
      (.getLastModifiedTime ⟨[97]⟩) (by decide) (by decide) (by decide) (by decide)

/-- What the server reads from a socket holds at most this many bytes. -/
def receiveBufferLength : Nat := 1024

/-- A received beginning of a datagram decodes to nothing but the request that
the whole datagram encodes. -/
theorem unmarshalRequest_received {id : UInt32} {r r' : Request} {kind : MessageType} {d : Slice UInt8}
    (encodable : r.Encodable) (received : d.elems <+: r.datagram id) (long : 5 ≤ d.len)
    (type : Server.getMessageType d = some kind.code)
    (accepted : (Server.getData d >>= Server.unmarshalRequest kind) = some (.ok r')) :
    r' = r ∧ d.elems = r.datagram id := by
  obtain ⟨code, x, data, hasType, _, hasData, split⟩ := Server.header_split long
  obtain rfl := Option.some.inj (hasType.symm.trans type)
  rw [hasData, Option.bind_eq_bind, Option.bind_some] at accepted
  obtain ⟨rfl, encodable', same⟩ := Server.unmarshalRequest_ok.mp accepted
  have whole : d.elems = r'.datagram x := by
    rw [split, Request.datagram, ← same]
  rw [whole] at received
  obtain ⟨rfl, rfl⟩ := Request.datagram_prefix encodable' encodable received
  exact ⟨rfl, whole⟩

/-! ### Responses -/

/-- A response value of one of the six kinds, as the server's services build it. -/
inductive Server.Response where
  | read (res : ReadResponse)
  | write (res : WriteResponse)
  | subscribe (res : SubscribeResponse)
  | replace (res : ReplaceResponse)
  | delete (res : DeleteResponse)
  | getLastModifiedTime (res : Server.GetLastModifiedTimeResponse)

/-- A response of one of the six kinds, as the client's unmarshallers return it. -/
inductive Client.Response where
  | read (res : ReadResponse)
  | write (res : WriteResponse)
  | subscribe (res : SubscribeResponse)
  | replace (res : ReplaceResponse)
  | delete (res : DeleteResponse)
  | getLastModifiedTime (res : Client.GetLastModifiedTimeResponse)
  deriving DecidableEq

namespace Server.Response

def messageType : Server.Response → MessageType
  | read _ => .read
  | write _ => .write
  | subscribe _ => .subscribe
  | replace _ => .replace
  | delete _ => .delete
  | getLastModifiedTime _ => .getLastModifiedTime

/-- The `MarshalResponse` of the response's package. -/
def marshal : Server.Response → Option Bytes
  | read res => Read.marshalResponse res
  | write res => Write.marshalResponse res
  | subscribe res => Subscribe.marshalResponse res
  | replace res => Replace.marshalResponse res
  | delete res => Delete.marshalResponse res
  | getLastModifiedTime res => GetLastModifiedTime.marshalResponse res

/-- Both strings have a length that a length field can hold. -/
def Encodable : Server.Response → Prop
  | read res => res.content.length < 2 ^ 32 ∧ res.errorMessage.length < 2 ^ 32
  | write res | subscribe res | replace res | delete res => res.errorMessage.length < 2 ^ 32
  | getLastModifiedTime res => res.errorMessage.length < 2 ^ 32

/-- A status response without the message that a success does not carry. -/
def seenStatus (res : StatusResponse) : StatusResponse :=
  if res.success then ⟨true, []⟩ else ⟨false, res.errorMessage⟩

/-- The response without the fields that its outcome makes irrelevant. -/
def seen : Server.Response → Client.Response
  | read res => .read (if res.success then ⟨true, res.content, []⟩ else ⟨false, [], res.errorMessage⟩)
  | write res => .write (seenStatus res)
  | subscribe res => .subscribe (seenStatus res)
  | replace res => .replace (seenStatus res)
  | delete res => .delete (seenStatus res)
  | getLastModifiedTime res => .getLastModifiedTime
      (if res.success then ⟨true, res.lastModifiedUnixTime.toUInt64, []⟩
       else ⟨false, 0, res.errorMessage⟩)

end Server.Response

/-- The unmarshaller that the client calls for a kind. -/
def Client.unmarshalResponse (kind : MessageType) (res : Bytes) : Outcome Client.Response :=
  match kind with
  | .read => do returns (.read (← unmarshalReadResponse res))
  | .write => do returns (.write (← unmarshalWriteResponse res))
  | .subscribe => do returns (.subscribe (← unmarshalSubscribeResponse res))
  | .replace => do returns (.replace (← unmarshalReplaceResponse res))
  | .delete => do returns (.delete (← unmarshalDeleteResponse res))
  | .getLastModifiedTime => do
    returns (.getLastModifiedTime (← unmarshalGetLastModifiedTimeResponse res))

theorem status_seen {res : StatusResponse} (fits : res.errorMessage.length < 2 ^ 32) :
    ∃ bytes, Server.marshalStatusResponse res = some bytes ∧
      Client.unmarshalStatusResponse bytes = returns (Server.Response.seenStatus res) := by
  obtain ⟨success, errorMessage⟩ := res
  cases success with
  | true => exact ⟨[1], rfl, Client.unmarshalStatusResponse_success⟩
  | false =>
    exact ⟨_, Server.marshalSingleStringResponse_eq 0 errorMessage,
      Client.unmarshalStatusResponse_failure fits⟩

/-- The client reads back every response the server marshals, without throwing
and without leaving the vector; times included, so two times are equal to the
client exactly when they were equal to the server. -/
theorem response_roundTrip :
    (∀ res : Server.Response, res.Encodable →
      ∃ bytes, res.marshal = some bytes ∧
        Client.unmarshalResponse res.messageType bytes = returns res.seen) ∧
    (∀ s t : Int64, s.toUInt64.toInt64 = t.toUInt64.toInt64 ↔ s = t) := by
  constructor
  · intro res encodable
    cases res with
    | write res | subscribe res | replace res | delete res =>
      obtain ⟨bytes, marshalled, read⟩ := status_seen encodable
      exact ⟨bytes, marshalled, congrArg (· >>= _) read⟩
    | read res =>
      obtain ⟨success, content, errorMessage⟩ := res
      cases success with
      | true =>
        exact ⟨_, Server.marshalSingleStringResponse_eq 1 content,
          congrArg (· >>= _) (Client.unmarshalReadResponse_counted 1 encodable.1)⟩
      | false =>
        exact ⟨_, Server.marshalSingleStringResponse_eq 0 errorMessage,
          congrArg (· >>= _) (Client.unmarshalReadResponse_counted 0 encodable.2)⟩
    | getLastModifiedTime res =>
      obtain ⟨success, t, errorMessage⟩ := res
      cases success with
      | true =>
        exact ⟨_, Server.marshalSuccessResponse_eq t,
          congrArg (· >>= _) (Client.unmarshalGetLastModifiedTimeResponse_success t.toUInt64)⟩
      | false =>
        exact ⟨_, Server.marshalSingleStringResponse_eq 0 errorMessage,
          congrArg (· >>= _) (Client.unmarshalGetLastModifiedTimeResponse_failure encodable)⟩
  · intro s t
    simp

theorem response_roundTrip_time :
    ∃ bytes, (Server.Response.getLastModifiedTime ⟨true, -1, [120]⟩).marshal = some bytes ∧
      Client.unmarshalResponse .getLastModifiedTime bytes =
        returns (.getLastModifiedTime ⟨true, 18446744073709551615, []⟩) :=
  response_roundTrip.1 (.getLastModifiedTime ⟨true, -1, [120]⟩)
    (show ([120] : Bytes).length < 2 ^ 32 by decide)

/-- A success that the client accepts, after the reply may have been cut off, is
the success that the server reported, with its content. -/
theorem read_received {res : ReadResponse} {reply content message : Bytes} {k : Nat}
    (fits : res.success = true → res.content.length < 2 ^ 32)
    (marshalled : Server.Read.marshalResponse res = some reply)
    (accepted : Client.unmarshalReadResponse (reply.take (k + 1)) = returns ⟨true, content, message⟩) :
    res.success = true ∧ content = res.content := by
  unfold Server.Read.marshalResponse at marshalled
  split at marshalled
  case isTrue success =>
    rw [Server.marshalSingleStringResponse_eq] at marshalled
    cases marshalled
    cases Client.unmarshalReadResponse_received (fits success) accepted
    exact ⟨success, rfl⟩
  case isFalse =>
    rw [Server.marshalSingleStringResponse_eq] at marshalled
    cases marshalled
    have flag := Client.unmarshalReadResponse_flag accepted
    contradiction

end RemoteFile
