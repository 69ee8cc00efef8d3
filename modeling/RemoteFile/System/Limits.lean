import RemoteFile.Client.Exchanges
import RemoteFile.Server.Decoding
import RemoteFile.Server.FileSystem
import Mathlib.Data.List.TakeDrop

/-! Sizes that client and server fix independently: what the prompts take and
what the server's receive buffer holds, what a read may ask for and what the
client's receive vector holds. -/
namespace RemoteFile.System
open Octets Go Cpp Cpp.Outcome Server Client

variable {Disk : Type}

/-! ### Requests and the receive buffer -/

/-- The number of bytes of a request's datagram. -/
def datagramLength : Request → Nat
  | .read req => 17 + req.pathname.length
  | .write req => 17 + req.pathname.length + req.content.length
  | .subscribe req => 13 + req.pathname.length
  | .replace req => 17 + req.pathname.length + req.content.length
  | .delete req => 17 + req.pathname.length
  | .getLastModifiedTime req => 9 + req.pathname.length

theorem datagram_length (id : UInt32) (r : Request) : (r.datagram id).length = datagramLength r := by
  cases r <;>
    simp only [Request.datagram, Request.body, Request.fields, Request.pathname, datagramLength,
      List.length_cons, List.length_append, List.length_nil, word_length, counted_length] <;>
    omega

theorem pathname_in_datagram (r : Request) : 9 + r.pathname.length ≤ datagramLength r := by
  cases r <;> simp only [datagramLength, Request.pathname] <;> omega

/-- A request arrives whole exactly when its datagram fits in the receive buffer. -/
theorem decode_received_iff {id : UInt32} {r : Request} (encodable : r.Encodable) :
    decode (received (r.datagram id)) = some (.ok (id, r)) ↔ datagramLength r ≤ receiveBufferLength := by
  rw [decode_ok_iff, ← datagram_length id]
  simp only [received, List.take_eq_self_iff]
  exact and_iff_right encodable

/-- A request composed at the prompts reaches its service intact exactly when its
datagram fits in the receive buffer. -/
theorem composed_arrives_iff {id : UInt32} {r : Request} (prompted : Prompted r) :
    (∃ bytes, marshalRequest id r = returns bytes ∧ decode (received bytes) = some (.ok (id, r))) ↔
      datagramLength r ≤ receiveBufferLength := by
  have encodable := prompted.encodable
  have arrives : decode (received (r.datagram id)) = some (.ok (id, r)) ↔ _ := decode_received_iff encodable
  rw [← arrives, marshalRequest_returns id encodable]
  constructor
  · rintro ⟨bytes, ⟨⟩, decoded⟩
    exact decoded
  · intro decoded
    exact ⟨_, rfl, decoded⟩

/-- A write to a file whose name has 1016 letters. -/
def longName : Request := .write ⟨List.replicate 1016 97, 0, []⟩

/-- The router panics on it: the second length field lies beyond the buffer. -/
theorem composed_arrives_fails :
    Prompted longName ∧ ¬ ∃ bytes, marshalRequest 0 longName = returns bytes ∧
      decode (received bytes) = some (.ok (0, longName)) := by
  have name : longName.pathname.length = 1016 := List.length_replicate
  have prompted : Prompted longName := by
    refine ⟨by rw [name]; decide, Nat.zero_le _, ?_⟩
    intro x member
    obtain rfl := List.mem_singleton.mp member
    decide
  refine ⟨prompted, ?_⟩
  rintro ⟨bytes, marshalled, decoded⟩
  rw [marshalRequest_returns 0 prompted.encodable] at marshalled
  cases marshalled
  have fits := (decode_received_iff prompted.encodable).mp decoded
  have long := pathname_in_datagram longName
  rw [receiveBufferLength] at fits
  omega

theorem composed_arrives_iff_write :
    ∃ bytes, marshalRequest 7 (.write ⟨text "a", 1, text "xy"⟩) = returns bytes ∧
      decode (received bytes) = some (.ok (7, .write ⟨text "a", 1, text "xy"⟩)) :=
  (composed_arrives_iff ⟨by decide, by decide, by simp [Request.numbers]⟩).mpr (by decide)

/-! ### Replies and the receive vector -/

/-- What a granted read returns has the length that was asked for. -/
theorem granted_length {env : Env Disk} {path : Bytes} {req : ReadRequest} {s t : Store Disk}
    {res : ReadResponse} (granted : read env path req s = some (t, res)) (success : res.success = true) :
    res.content.length = req.numBytes.toNat := by
  obtain ⟨_, failure | ⟨fileContent, bytes, _, segment, rfl⟩⟩ := read_cases granted
  · rw [success] at failure
    contradiction
  · obtain ⟨_, inside, rfl⟩ := Read.segment_ok_iff.mp segment
    have shorter : fileContent.len % 2 ^ 32 ≤ fileContent.elems.length := Nat.mod_le _ _
    rw [window_length, Nat.min_eq_left (by omega)]
    omega

/-- A read that the server grants is consumed by the client exactly when it asks for
no more bytes than the receive vector holds besides the flag and the length. -/
theorem granted_consumed_iff {env : Env Disk} {path : Bytes} {req : ReadRequest} {s t : Store Disk}
    {res : ReadResponse} {reply : Bytes} (granted : read env path req s = some (t, res))
    (success : res.success = true) (marshalled : Server.Read.marshalResponse res = some reply) :
    unmarshalReadResponse (reply.take msgLength) = returns ⟨true, res.content, []⟩ ↔
      req.numBytes.toNat ≤ 4995 := by
  have length := granted_length granted success
  have fits : res.content.length < 2 ^ 32 := length ▸ req.numBytes.toNat_lt
  rw [Server.Read.marshalResponse, if_pos success, marshalSingleStringResponse_eq] at marshalled
  cases marshalled
  rw [← length, msgLength]
  constructor
  · intro consumed
    by_contra long
    rw [unmarshalReadResponse_cut fits (by decide) (by omega)] at consumed
    contradiction
  · intro short
    have whole : (1 :: counted res.content).take 5000 = 1 :: counted res.content :=
      List.take_of_length_le (by simp; omega)
    rw [whole]
    exact unmarshalReadResponse_counted 1 fits

theorem granted_reply (content : Bytes) :
    Server.Read.marshalResponse ⟨true, content, []⟩ = some (1 :: counted content) :=
  marshalSingleStringResponse_eq 1 content

/-- Reading a whole file from the server over one file. -/
theorem whole_granted (content : Bytes) (n : UInt32) (whole : content.length = n.toNat) :
    ∃ t, read (FileSystem.env Faults.none 0) [] ⟨text "a", 0, n⟩
      (Store.fresh (FileSystem.single (text "/a") content 0)) = some (t, ⟨true, content, []⟩) := by
  have small := n.toNat_lt
  have file : (FileSystem.env Faults.none 0).os.readFile (FileSystem.single (text "/a") content 0)
      (concatenatePaths [] (text "a")) = .ok ⟨content, []⟩ := rfl
  refine (read_success_iff file).mpr (Read.segment_ok_iff.mpr ?_)
  simp only [Slice.len, UInt32.toNat_zero, Nat.zero_add, whole, Nat.mod_eq_of_lt small]
  exact ⟨small, le_refl _, by rw [← whole, window_to_end, List.drop_zero]⟩

/-- A file that the server sends in 5001 bytes. -/
def largeFile : Bytes := List.replicate 4996 97

theorem granted_consumed_fails :
    ∃ t reply, read (FileSystem.env Faults.none 0) [] ⟨text "a", 0, 4996⟩
        (Store.fresh (FileSystem.single (text "/a") largeFile 0)) = some (t, ⟨true, largeFile, []⟩) ∧
      Server.Read.marshalResponse ⟨true, largeFile, []⟩ = some reply ∧ reply.length ≤ 65507 ∧
      unmarshalReadResponse (reply.take msgLength) = throws incorrectVectorLength := by
  have length : largeFile.length = 4996 := List.length_replicate
  obtain ⟨t, granted⟩ := whole_granted largeFile 4996 length
  refine ⟨t, _, granted, granted_reply largeFile, ?_, ?_⟩
  · rw [List.length_cons, counted_length, length]
    decide
  · refine unmarshalReadResponse_cut ?_ (by decide) ?_
    · rw [length]
      decide
    · rw [length]
      decide

theorem granted_consumed_iff_small :
    ∃ reply, Server.Read.marshalResponse ⟨true, text "123", []⟩ = some reply ∧
      unmarshalReadResponse (reply.take msgLength) = returns ⟨true, text "123", []⟩ := by
  obtain ⟨t, granted⟩ := whole_granted (text "123") 3 rfl
  exact ⟨_, granted_reply _, (granted_consumed_iff granted rfl (granted_reply _)).mpr (by decide)⟩

end RemoteFile.System
