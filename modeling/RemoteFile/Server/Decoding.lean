import RemoteFile.Server.Router

/-! Decoding: what the router and the handler that it selects do to a datagram
before any service runs. Only the second length field of write and replace is
read at a position that the sender chooses, so only there can decoding leave the
receive buffer. -/
namespace RemoteFile.Server
open Octets Go Cpp Cpp.Outcome

variable {Disk : Type}

/-- `RouteRequest` up to the call of a service, without the table of responses. -/
def decode (udpRequest : Slice UInt8) : Option (Except Bytes (UInt32 × Request)) :=
  match validateRequest udpRequest with
  | .error err => some (.error err)
  | .ok () => do
    let messageID ← getMessageId udpRequest
    let code ← getMessageType udpRequest
    let data ← getData udpRequest
    match MessageType.ofCode? code with
    | none => some (.error unsupportedType)
    | some messageType => (unmarshalRequest messageType data).map (·.map (messageID, ·))

theorem decode_eq (d : Slice UInt8) :
    decode d = match header d with
      | none => some (.error tooShort)
      | some (code, id, data) =>
        match MessageType.ofCode? code with
        | none => some (.error unsupportedType)
        | some kind => (unmarshalRequest kind data).map (·.map (id, ·)) := by
  by_cases short : d.len < 5
  · rw [header_short short, decode, validateRequest_short short]
  · obtain ⟨code, id, data, head, type, number, rest, valid, _⟩ := header_long (Nat.le_of_not_lt short)
    simp only [decode, valid, number, type, rest, head, Option.bind_eq_bind, Option.bind_some]

/-! ### Where decoding panics -/

theorem validateFixedRequest_returns (positive : 1 ≤ words) (req : Slice UInt8) :
    ∃ result, validateFixedRequest words req = some result := by
  unfold validateFixedRequest
  simp only [uint32ByteLength]
  split
  case isTrue => exact ⟨_, rfl⟩
  case isFalse long =>
    have four : 4 ≤ req.len := by omega
    have length : (req.slice? 0 4 >>= bigEndianUint32) = _ := read_announced four
    rw [length]
    simp only [Option.bind_eq_bind, Option.bind_some]
    split <;> exact ⟨_, rfl⟩

/-- The word at a position is there exactly when it ends inside the capacity. -/
theorem slice_word_iff {req : Slice UInt8} (four : hi = lo + 4) :
    (∃ x, (req.slice? lo hi >>= bigEndianUint32) = some x) ↔ hi ≤ req.cap := by
  constructor
  · rintro ⟨x, read⟩
    obtain ⟨part, cut, _⟩ := Option.bind_eq_some_iff.mp read
    exact (Slice.slice?_bounds cut).2
  · intro inside
    have cut : req.slice? lo hi = some ⟨window (req.elems ++ req.spare) lo hi,
        (req.elems ++ req.spare).drop hi⟩ := if_pos ⟨by omega, inside⟩
    have width : (window (req.elems ++ req.spare) lo hi).length = 4 := by
      rw [window_length, List.length_append]
      rw [Slice.cap] at inside
      omega
    rw [cut, Option.bind_eq_bind, Option.bind_some]
    exact ⟨_, bigEndianUint32_four width⟩

theorem validateContentRequest_returns_iff {req : Slice UInt8} :
    (∃ result, validateContentRequest req = some result) ↔
      (12 ≤ req.len → 12 + announced req ≤ req.cap) := by
  unfold validateContentRequest
  simp only [uint32ByteLength, Nat.reduceMul]
  by_cases short : req.len < 12
  · rw [if_pos short]
    constructor
    · intro _ long
      omega
    · intro _
      exact ⟨_, rfl⟩
  · have long : 4 ≤ req.len := by omega
    have length : (req.slice? 0 4 >>= bigEndianUint32) = _ := read_announced long
    have second : (∃ x, ((req.slice? (8 + announced req) (12 + announced req)).bind bigEndianUint32) =
        some x) ↔ 12 + announced req ≤ req.cap := slice_word_iff (by omega)
    rw [if_neg short, length]
    simp only [Option.bind_eq_bind, Option.bind_some, announced_toNat]
    constructor
    · rintro ⟨result, read⟩ _
      obtain ⟨contentLen, word, _⟩ := Option.bind_eq_some_iff.mp read
      exact second.mp ⟨contentLen, word⟩
    · intro inside
      obtain ⟨contentLen, word⟩ := second.mpr (inside (Nat.le_of_not_lt short))
      rw [word, Option.bind_some]
      split <;> exact ⟨_, rfl⟩

theorem unmarshalRangeRequest_returns (req : Slice UInt8) :
    ∃ result, unmarshalRangeRequest req = some result := by
  obtain ⟨checked, valid⟩ := validateFixedRequest_returns (show 1 ≤ 3 by decide) req
  cases checked with
  | error err => exact ⟨.error err, by simp only [unmarshalRangeRequest, valid]; rfl⟩
  | ok n =>
    obtain ⟨p, tail, fits, size, split⟩ := counted_of_fixed (by decide) valid
    have eight : tail.length = 8 := by omega
    obtain ⟨x, y, rfl⟩ := words_of_eight eight
    exact ⟨_, unmarshalRangeRequest_body split fits⟩

theorem Subscribe.unmarshalRequest_returns (req : Slice UInt8) :
    ∃ result, Subscribe.unmarshalRequest req = some result := by
  obtain ⟨checked, valid⟩ := validateFixedRequest_returns (show 1 ≤ 2 by decide) req
  cases checked with
  | error err => exact ⟨.error err, by simp only [Subscribe.unmarshalRequest, valid]; rfl⟩
  | ok n =>
    obtain ⟨p, tail, fits, size, split⟩ := counted_of_fixed (by decide) valid
    have four : tail.length = 4 := by omega
    obtain ⟨x, rfl⟩ := word_of_four four
    exact ⟨_, Subscribe.unmarshalRequest_body split fits⟩

theorem GetLastModifiedTime.unmarshalRequest_returns (req : Slice UInt8) :
    ∃ result, GetLastModifiedTime.unmarshalRequest req = some result := by
  obtain ⟨checked, valid⟩ := validateFixedRequest_returns (show 1 ≤ 1 by decide) req
  cases checked with
  | error err => exact ⟨.error err, by simp only [GetLastModifiedTime.unmarshalRequest, valid]; rfl⟩
  | ok n =>
    obtain ⟨p, tail, fits, size, split⟩ := counted_of_fixed (by decide) valid
    have none : tail.length = 0 := by omega
    obtain rfl := List.length_eq_zero_iff.mp none
    rw [List.append_nil] at split
    exact ⟨_, GetLastModifiedTime.unmarshalRequest_body split fits⟩

/-- Past its length check an unmarshaller does not panic. -/
theorem unmarshalContentRequest_returns_iff {req : Slice UInt8} :
    (∃ result, unmarshalContentRequest req = some result) ↔
      (12 ≤ req.len → 12 + announced req ≤ req.cap) := by
  rw [← validateContentRequest_returns_iff]
  constructor
  · rintro ⟨result, returned⟩
    obtain ⟨checked, valid, _⟩ := Option.bind_eq_some_iff.mp returned
    exact ⟨checked, valid⟩
  · rintro ⟨checked, valid⟩
    cases checked with
    | error err => exact ⟨.error err, by simp only [unmarshalContentRequest, valid]; rfl⟩
    | ok n =>
      obtain ⟨p, x, c, fits, contentFits, split⟩ := counted_of_content valid
      exact ⟨_, unmarshalContentRequest_body split fits contentFits⟩

/-- The message types whose requests have two variable-length fields. -/
def HasContent (kind : MessageType) : Prop := kind = .write ∨ kind = .replace

theorem unmarshalRequest_returns_iff {kind : MessageType} {req : Slice UInt8} :
    (∃ result, unmarshalRequest kind req = some result) ↔
      (HasContent kind → 12 ≤ req.len → 12 + announced req ≤ req.cap) := by
  cases kind with
  | write | replace =>
    rw [forall_prop_of_true (by simp [HasContent]), ← unmarshalContentRequest_returns_iff]
    simp only [unmarshalRequest, Write.unmarshalRequest, Replace.unmarshalRequest,
      ← Option.isSome_iff_exists, Option.isSome_map]
  | read | delete =>
    obtain ⟨result, returned⟩ := unmarshalRangeRequest_returns req
    simp [unmarshalRequest, Read.unmarshalRequest, Delete.unmarshalRequest, returned, HasContent]
  | subscribe =>
    obtain ⟨result, returned⟩ := Subscribe.unmarshalRequest_returns req
    simp [unmarshalRequest, returned, HasContent]
  | getLastModifiedTime =>
    obtain ⟨result, returned⟩ := GetLastModifiedTime.unmarshalRequest_returns req
    simp [unmarshalRequest, returned, HasContent]

/-- A write or replace datagram of at least the minimum length announces a
pathname whose following fields end inside the receive buffer. -/
def PathnameInBuffer (bytes : Bytes) : Prop :=
  bytes[0]? = some MessageType.write.code ∨ bytes[0]? = some MessageType.replace.code →
    17 ≤ bytes.length → 17 + value (window bytes 5 9) ≤ receiveBufferLength

instance (bytes : Bytes) : Decidable (PathnameInBuffer bytes) :=
  inferInstanceAs (Decidable (_ → _ → _))

theorem hasContent_iff {code : UInt8} {kind : MessageType} (known : MessageType.ofCode? code = some kind) :
    HasContent kind ↔ some code = some MessageType.write.code ∨ some code = some MessageType.replace.code := by
  obtain rfl := MessageType.code_of_ofCode? known
  cases kind <;> simp [HasContent, MessageType.code]

/-- Decoding a datagram that fits in the receive buffer panics exactly when a
write or replace request announces a pathname that does not. -/
theorem decode_returns_iff {bytes : Bytes} (fits : bytes.length ≤ receiveBufferLength) :
    (∃ result, decode (received bytes) = some result) ↔ PathnameInBuffer bytes := by
  have whole : (received bytes).elems = bytes := List.take_of_length_le fits
  rw [decode_eq]
  by_cases short : (received bytes).len < 5
  · rw [header_short short]
    rw [Slice.len, whole] at short
    simp only [PathnameInBuffer]
    constructor
    · intro _ _ long
      omega
    · intro _
      exact ⟨_, rfl⟩
  · obtain ⟨code, id, data, head, _, _, _, _, split⟩ := header_long (Nat.le_of_not_lt short)
    rw [whole] at split
    have parts : bytes = (code :: word id) ++ data := split
    have size : bytes.length = 5 + data.length := by
      rw [split, List.length_cons, List.length_append, word_length]
      omega
    have length : announced ⟨data, (received bytes).spare⟩ = value (window bytes 5 9) := by
      have tail : window bytes 5 9 = window data 0 4 := by
        rw [parts, window, List.take_append, List.drop_append]
        simp [window]
      rw [announced, tail]
    have capacity : Slice.cap ⟨data, (received bytes).spare⟩ + 5 = receiveBufferLength := by
      simp only [Slice.cap, received, List.length_replicate]
      omega
    have first : bytes[0]? = some code := by rw [split]; rfl
    rw [head, PathnameInBuffer, first]
    dsimp only
    cases known : MessageType.ofCode? code with
    | none =>
      have other : ¬ (some code = some MessageType.write.code ∨ some code = some MessageType.replace.code) := by
        rintro (same | same) <;> cases same <;> simp at known
      constructor
      · intro _ content
        exact absurd content other
      · intro _
        exact ⟨_, rfl⟩
    | some kind =>
      rw [← hasContent_iff known, ← length]
      simp only [← Option.isSome_iff_exists, Option.isSome_map]
      rw [Option.isSome_iff_exists, unmarshalRequest_returns_iff]
      have minimum : 12 ≤ Slice.len ⟨data, (received bytes).spare⟩ ↔ 17 ≤ bytes.length := by
        simp only [Slice.len]
        omega
      rw [minimum]
      constructor
      · intro inside content long
        have := inside content long
        omega
      · intro inside content long
        have := inside content long
        omega

/-- A write request whose first length field is the largest number. -/
def hugePathname : Bytes := [2, 0, 0, 0, 1, 255, 255, 255, 255, 0, 0, 0, 0, 0, 0, 0, 0]

theorem decode_hugePathname :
    hugePathname.length ≤ receiveBufferLength ∧ ¬ ∃ result, decode (received hugePathname) = some result := by
  refine ⟨by decide, ?_⟩
  rintro ⟨result, returned⟩
  have panics : decode (received hugePathname) = none := by decide +kernel
  rw [panics] at returned
  contradiction

theorem decode_returns_iff_write :
    ∃ result, decode (received (Request.datagram 5 (.write ⟨text "a", 1, text "xy"⟩))) = some result :=
  (decode_returns_iff (by decide)).mpr (by decide)

/-! ### Decoding and the router -/

/-- The course of one handler, when its failure response is a flag and the error. -/
theorem handle_eq {Req Res : Type} {unmarshal : Slice UInt8 → Option (Except Bytes Req)}
    {failure : Bytes → Res} {service : Req → Store Disk → Option (Store Disk × Res)}
    {marshal : Res → Option Bytes} {wrap : Req → Request} {serve : Request → Option (Store Disk × Bytes)}
    {data : Slice UInt8} {s : Store Disk}
    (refusal : ∀ err, marshal (failure err) = some (0 :: counted err))
    (served : ∀ req, ((service req s).bind fun (t, res) => (marshal res).map (t, ·)) = serve (wrap req)) :
    handle unmarshal failure service marshal data s =
      ((unmarshal data).map (·.map wrap)).bind fun result =>
        match result with
        | .error err => some (s, 0 :: counted err)
        | .ok r => serve r := by
  rw [handle]
  cases unmarshal data with
  | none => rfl
  | some result =>
    cases result with
    | error err =>
      simp only [Option.bind_eq_bind, Option.bind_some, refusal]
      rfl
    | ok req =>
      refine Eq.trans ?_ (served req)
      simp only [Option.map_eq_bind, Option.bind_eq_bind]
      rfl

/-- A handler refuses what it cannot decode and serves what it can. -/
theorem dispatch_eq (kind : MessageType) (env : Env Disk) (path : Bytes) (addr : UDPAddr)
    (data : Slice UInt8) (s : Store Disk) :
    dispatch kind env path addr data s =
      (unmarshalRequest kind data).bind fun result =>
        match result with
        | .error err => some (s, 0 :: counted err)
        | .ok r => serveRequest env path addr s r := by
  have refusal := marshalSingleStringResponse_eq 0
  cases kind <;> apply handle_eq <;> intro x
  case read.refusal | write.refusal | subscribe.refusal | replace.refusal | delete.refusal |
      getLastModifiedTime.refusal => exact refusal x
  case subscribe.served | getLastModifiedTime.served =>
    simp only [serveRequest, Option.bind_some, Option.map_eq_bind, Option.bind_eq_bind]
    rfl
  case read.served | write.served | replace.served | delete.served =>
    simp only [serveRequest, Option.map_eq_bind, Option.bind_eq_bind]
    rfl

/-! ### What decodes -/

/-- Exactly the datagrams of requests decode, whatever follows them in the buffer. -/
theorem decode_ok_iff {d : Slice UInt8} {id : UInt32} {r : Request} :
    decode d = some (.ok (id, r)) ↔ r.Encodable ∧ d.elems = r.datagram id := by
  rw [decode_eq]
  by_cases short : d.len < 5
  · rw [header_short short]
    constructor
    · intro decoded
      cases decoded
    · rintro ⟨_, same⟩
      simp only [Slice.len, same, Request.datagram, List.length_cons, List.length_append, word_length] at short
      omega
  · obtain ⟨code, number, data, head, _, _, _, _, split⟩ := header_long (Nat.le_of_not_lt short)
    rw [head, split]
    dsimp only
    constructor
    · intro decoded
      cases known : MessageType.ofCode? code with
      | none =>
        rw [known] at decoded
        cases decoded
      | some kind =>
        rw [known] at decoded
        obtain ⟨r', accepted, same⟩ := map_map_ok.mp decoded
        cases same
        obtain ⟨rfl, encodable, body⟩ := unmarshalRequest_ok.mp accepted
        obtain rfl := MessageType.code_of_ofCode? known
        exact ⟨encodable, by rw [Request.datagram, ← body]⟩
    · rintro ⟨encodable, same⟩
      obtain ⟨rfl, rest⟩ := List.cons.inj same
      obtain ⟨rfl, body⟩ := word_inj rest
      rw [MessageType.ofCode?_code]
      exact map_map_ok.mpr ⟨r, unmarshalRequest_ok.mpr ⟨rfl, encodable, body⟩, rfl⟩

/-- The router has a service answer a request that decodes, unless an answer is
stored for its id. -/
theorem routeRequest_decoded {sem : InvocationSemantic} {env : Env Disk} {path : Bytes} {addr : UDPAddr}
    {d : Slice UInt8} {id : UInt32} {r : Request} (decoded : decode d = some (.ok (id, r)))
    (s : State Disk) :
    routeRequest sem env path addr d s =
      match s.storedResponse sem id with
      | some response => some (s, response)
      | none => (serveRequest env path addr s.store r).map fun (store, response) =>
          (⟨store, Function.update s.messageResponses id (some response)⟩, response) := by
  rw [decode_eq] at decoded
  rw [routeRequest_eq]
  cases head : header d with
  | none =>
    rw [head] at decoded
    cases decoded
  | some fields =>
    obtain ⟨code, number, data⟩ := fields
    rw [head] at decoded
    cases known : MessageType.ofCode? code with
    | none =>
      simp only [known] at decoded
      cases decoded
    | some kind =>
      simp only [known] at decoded
      obtain ⟨r', accepted, same⟩ := map_map_ok.mp decoded
      cases same
      dsimp only
      cases s.storedResponse sem id with
      | some response => rfl
      | none =>
        dsimp only
        rw [known]
        dsimp only
        rw [dispatch_eq, accepted, Option.bind_some]

/-- What does not decode reaches no service. -/
theorem routeRequest_undecoded {sem : InvocationSemantic} {env : Env Disk} {path : Bytes} {addr : UDPAddr}
    {d : Slice UInt8} {s : State Disk} (undecoded : ∀ id r, decode d ≠ some (.ok (id, r))) :
    (∀ t response, routeRequest sem env path addr d s = some (t, response) → t.store = s.store) ∧
      (routeRequest sem env path addr d s = none → decode d = none) := by
  rw [routeRequest_eq]
  rw [decode_eq] at undecoded ⊢
  cases head : header d with
  | none =>
    refine ⟨?_, nofun⟩
    rintro t response ⟨⟩
    rfl
  | some fields =>
    obtain ⟨code, id, data⟩ := fields
    simp only [head] at undecoded ⊢
    cases s.storedResponse sem id with
    | some reply =>
      refine ⟨?_, nofun⟩
      rintro t response ⟨⟩
      rfl
    | none =>
      cases known : MessageType.ofCode? code with
      | none =>
        refine ⟨?_, nofun⟩
        rintro t response ⟨⟩
        rfl
      | some kind =>
        simp only [known] at undecoded ⊢
        rw [dispatch_eq]
        cases accepted : unmarshalRequest kind data with
        | none => exact ⟨nofun, fun _ => rfl⟩
        | some result =>
          cases result with
          | ok r => exact absurd (map_map_ok.mpr ⟨r, accepted, rfl⟩) (undecoded id r)
          | error err =>
            refine ⟨?_, nofun⟩
            rintro t response ⟨⟩
            rfl

/-! ### Truncated requests -/

theorem truncated_undecoded {id : UInt32} {r : Request} {whole bytes : Bytes}
    (marshalled : Client.marshalRequest id r = returns whole) (cut : bytes <+: whole)
    (proper : bytes ≠ whole) (id' : UInt32) (r' : Request) :
    decode (received bytes) ≠ some (.ok (id', r')) := by
  intro decoded
  rw [Client.marshalRequest_kept] at marshalled
  cases marshalled
  obtain ⟨encodable, elems⟩ := decode_ok_iff.mp decoded
  have part : r'.datagram id' <+: bytes := elems ▸ received_part bytes
  obtain ⟨rfl, rfl⟩ := Request.datagram_prefix encodable (Client.keptRequest_encodable r) (part.trans cut)
  exact proper (cut.eq_of_length (Nat.le_antisymm cut.length_le part.length_le))

/-- A proper beginning of a marshalled request does not decode to any request, so
the router leaves the store as it is, or panics before any service is called. -/
theorem truncated_executes_nothing {id : UInt32} {r : Request} {whole bytes : Bytes}
    (marshalled : Client.marshalRequest id r = returns whole) (cut : bytes <+: whole)
    (proper : bytes ≠ whole) :
    (∀ id' r', decode (received bytes) ≠ some (.ok (id', r'))) ∧
    ∀ (sem : InvocationSemantic) (env : Env Disk) (path : Bytes) (addr : UDPAddr) (s : State Disk),
      (∀ t response, routeRequest sem env path addr (received bytes) s = some (t, response) →
        t.store = s.store) ∧
      (routeRequest sem env path addr (received bytes) s = none → decode (received bytes) = none) := by
  have undecoded := truncated_undecoded marshalled cut proper
  exact ⟨undecoded, fun sem env path addr s => routeRequest_undecoded undecoded⟩

/-- A write of two bytes, cut after the first, is not a write of one byte. -/
theorem truncated_executes_nothing_write :
    decode (received [2, 0, 0, 0, 5, 0, 0, 0, 1, 97, 0, 0, 0, 1, 0, 0, 0, 2, 120]) ≠
      some (.ok (5, .write ⟨text "a", 1, text "x"⟩)) := by
  have marshalled : Client.marshalRequest 5 (.write ⟨text "a", 1, text "xy"⟩) =
      returns [2, 0, 0, 0, 5, 0, 0, 0, 1, 97, 0, 0, 0, 1, 0, 0, 0, 2, 120, 121] := by decide
  exact (@truncated_executes_nothing Unit _ _ _ _ marshalled ⟨[121], rfl⟩ (by decide)).1 _ _

end RemoteFile.Server
