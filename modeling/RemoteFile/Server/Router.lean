import RemoteFile.Core.Run
import RemoteFile.Server.Services
import RemoteFile.Wire.RoundTrip

/-! The server from a datagram to its answer: the six handlers, the router with
its table of responses, and one turn of the main loop. A turn is one packet, or
one expiry goroutine that gets to run between two packets. -/
namespace RemoteFile.Server
open Octets Go

variable {Disk : Type}

/-- The course that all handlers share. -/
def handle {Req Res : Type} (unmarshal : Slice UInt8 → Option (Except Bytes Req))
    (failure : Bytes → Res) (service : Req → Store Disk → Option (Store Disk × Res))
    (marshal : Res → Option Bytes) (data : Slice UInt8) (s : Store Disk) :
    Option (Store Disk × Bytes) := do
  match ← unmarshal data with
  | .error err => some (s, ← marshal (failure err))
  | .ok req =>
    let (s, res) ← service req s
    some (s, ← marshal res)

def Read.handler (env : Env Disk) (fileStorePath : Bytes) (data : Slice UInt8) (s : Store Disk) :
    Option (Store Disk × Bytes) :=
  handle unmarshalRequest (⟨false, [], ·⟩) (read env fileStorePath) marshalResponse data s

def Write.handler (env : Env Disk) (fileStorePath : Bytes) (data : Slice UInt8) (s : Store Disk) :
    Option (Store Disk × Bytes) :=
  handle unmarshalRequest (⟨false, ·⟩) (write env fileStorePath) marshalResponse data s

def Subscribe.handler (env : Env Disk) (fileStorePath : Bytes) (clientAddr : UDPAddr)
    (data : Slice UInt8) (s : Store Disk) : Option (Store Disk × Bytes) :=
  handle unmarshalRequest (⟨false, ·⟩)
    (fun req s => some (subscribe env clientAddr (concatenatePaths fileStorePath req.pathname) req s))
    marshalResponse data s

def Replace.handler (env : Env Disk) (fileStorePath : Bytes) (data : Slice UInt8) (s : Store Disk) :
    Option (Store Disk × Bytes) :=
  handle unmarshalRequest (⟨false, ·⟩) (replace env fileStorePath) marshalResponse data s

def Delete.handler (env : Env Disk) (fileStorePath : Bytes) (data : Slice UInt8) (s : Store Disk) :
    Option (Store Disk × Bytes) :=
  handle unmarshalRequest (⟨false, ·⟩) (delete env fileStorePath) marshalResponse data s

def GetLastModifiedTime.handler (env : Env Disk) (fileStorePath : Bytes) (data : Slice UInt8)
    (s : Store Disk) : Option (Store Disk × Bytes) :=
  handle unmarshalRequest (⟨false, 0, ·⟩) (fun req s => some (getLastModifiedTime env fileStorePath req s))
    marshalResponse data s

/-- The cases of the router's switch. -/
def dispatch (messageType : MessageType) (env : Env Disk) (fileStorePath : Bytes)
    (clientAddr : UDPAddr) (data : Slice UInt8) (s : Store Disk) : Option (Store Disk × Bytes) :=
  match messageType with
  | .read => Read.handler env fileStorePath data s
  | .write => Write.handler env fileStorePath data s
  | .subscribe => Subscribe.handler env fileStorePath clientAddr data s
  | .replace => Replace.handler env fileStorePath data s
  | .delete => Delete.handler env fileStorePath data s
  | .getLastModifiedTime => GetLastModifiedTime.handler env fileStorePath data s

inductive InvocationSemantic where
  | atLeastOnce | atMostOnce
  deriving DecidableEq

structure State (Disk : Type) where
  store : Store Disk
  messageResponses : UInt32 → Option Bytes

def unsupportedType : Bytes := text "invalid request: not a supported message type"

/-- The stored response that a repeated request is answered with. -/
def State.storedResponse (s : State Disk) (sem : InvocationSemantic) (messageID : UInt32) :
    Option Bytes :=
  match sem with
  | .atLeastOnce => none
  | .atMostOnce => s.messageResponses messageID

def routeRequest (sem : InvocationSemantic) (env : Env Disk) (fileStorePath : Bytes)
    (clientAddr : UDPAddr) (udpRequest : Slice UInt8) (s : State Disk) :
    Option (State Disk × Bytes) :=
  match validateRequest udpRequest with
  | .error err => some (s, err)
  | .ok () => do
    let messageID ← getMessageId udpRequest
    match s.storedResponse sem messageID with
    | some response => some (s, response)
    | none =>
      let code ← getMessageType udpRequest
      let data ← getData udpRequest
      match MessageType.ofCode? code with
      | none => some (s, unsupportedType)
      | some messageType => do
        let (store, response) ← dispatch messageType env fileStorePath clientAddr data s.store
        let messageResponses := Function.update s.messageResponses messageID (some response)
        some ({ store, messageResponses }, response)

/-- A datagram at the server's socket, and what happens around its handling. -/
structure Packet where
  clientAddress : UDPAddr
  bytes : Bytes
  readFails : Bool
  simulateReqLoss : Bool
  simulateReplyLoss : Bool
  sendFails : Bool
  deriving DecidableEq

/-- `buffer[:n]` of a zeroed buffer that a datagram was read into. -/
def received (bytes : Bytes) : Slice UInt8 :=
  ⟨bytes.take receiveBufferLength, List.replicate (receiveBufferLength - bytes.length) 0⟩

def readFromClient (p : Packet) : Option (Slice UInt8 × UDPAddr) :=
  if p.readFails then none else some (received p.bytes, p.clientAddress)

/-- The response computed for a packet, and whether it reached the network. -/
structure Handled where
  response : Option Bytes
  sent : Bool
  deriving DecidableEq

def handlePacket (sem : InvocationSemantic) (env : Env Disk) (fileStorePath : Bytes) (p : Packet)
    (s : State Disk) : Option (State Disk × Handled) :=
  match readFromClient p with
  | none => some (s, ⟨none, false⟩)
  | some (data, clientAddress) =>
    if p.simulateReqLoss then some (s, ⟨none, false⟩)
    else do
      let (s, response) ← routeRequest sem env fileStorePath clientAddress data s
      if p.simulateReplyLoss then some (s, ⟨some response, false⟩)
      else some (s, ⟨some response, !p.sendFails⟩)

inductive Event (Disk : Type) where
  | packet (env : Env Disk) (p : Packet)
  | timer (k : Nat)

def serverStep (sem : InvocationSemantic) (fileStorePath : Bytes) (s : State Disk) :
    Event Disk → Option (State Disk × Handled)
  | .packet env p => handlePacket sem env fileStorePath p s
  | .timer k => (fireTimer s.store k).map fun store => ({ s with store }, ⟨none, false⟩)

/-! ### The branches of the router -/

/-- The header of a packet that is long enough to have one. -/
def header (udpRequest : Slice UInt8) : Option (UInt8 × UInt32 × Slice UInt8) :=
  match validateRequest udpRequest with
  | .error _ => none
  | .ok () => do some (← getMessageType udpRequest, ← getMessageId udpRequest, ← getData udpRequest)

theorem header_long {d : Slice UInt8} (long : 5 ≤ d.len) :
    ∃ code id data, header d = some (code, id, ⟨data, d.spare⟩) ∧ getMessageType d = some code ∧
      getMessageId d = some id ∧ getData d = some ⟨data, d.spare⟩ ∧
      validateRequest d = .ok () ∧ d.elems = code :: (word id ++ data) := by
  obtain ⟨code, id, data, type, number, rest, split⟩ := header_split long
  have valid : validateRequest d = .ok () := by
    rw [validateRequest, if_neg]
    simp only [messageTypeLength, uint32ByteLength]
    omega
  refine ⟨code, id, data, ?_, type, number, rest, valid, split⟩
  simp only [header, valid, type, number, rest, Option.bind_eq_bind, Option.bind_some]

theorem validateRequest_short {d : Slice UInt8} (short : d.len < 5) :
    validateRequest d = .error tooShort := if_pos short

theorem header_short {d : Slice UInt8} (short : d.len < 5) : header d = none := by
  simp only [header, validateRequest_short short]

/-- What the router does, said once: a datagram without a header and one that is
neither stored nor supported are refused, and nothing is recorded for them. -/
theorem routeRequest_eq (sem : InvocationSemantic) (env : Env Disk) (path : Bytes) (addr : UDPAddr)
    (d : Slice UInt8) (s : State Disk) :
    routeRequest sem env path addr d s =
      match header d with
      | none => some (s, tooShort)
      | some (code, id, data) =>
        match s.storedResponse sem id, MessageType.ofCode? code with
        | some response, _ => some (s, response)
        | none, none => some (s, unsupportedType)
        | none, some kind => (dispatch kind env path addr data s.store).map fun (store, response) =>
            (⟨store, Function.update s.messageResponses id (some response)⟩, response) := by
  by_cases short : d.len < 5
  · rw [header_short short, routeRequest, validateRequest_short short]
  · obtain ⟨code, id, data, head, type, number, rest, valid, _⟩ := header_long (Nat.le_of_not_lt short)
    simp only [routeRequest, valid, number, type, rest, head, Option.bind_eq_bind, Option.bind_some]
    cases s.storedResponse sem id with
    | some response => rfl
    | none =>
      cases MessageType.ofCode? code with
      | none => rfl
      | some kind => exact Option.map_eq_bind.symm

/-- A request datagram keeps its header when it is cut to the receive buffer. -/
theorem header_received (id : UInt32) (r : Request) :
    ∃ data, header (received (r.datagram id)) = some (r.messageType.code, id, data) := by
  have start : (received (r.datagram id)).elems =
      r.messageType.code :: (word id ++ r.body.take (receiveBufferLength - 5)) := by
    simp only [received, Request.datagram, receiveBufferLength, List.take_succ_cons, List.take_append,
      word_length, Nat.reduceSub]
    rw [List.take_of_length_le (by simp)]
  obtain ⟨code, id', data, head, _, _, _, _, split⟩ := header_long
    (show 5 ≤ (received (r.datagram id)).len by simp [Slice.len, start])
  rw [start] at split
  obtain ⟨rfl, rest⟩ := List.cons.inj split
  obtain ⟨rfl, _⟩ := word_inj rest
  exact ⟨_, head⟩

/-- The message id under which the router runs a handler, and the request that
the handler decodes. -/
def handled (sem : InvocationSemantic) (udpRequest : Slice UInt8) (s : State Disk) :
    Option (UInt32 × Option Request) := do
  let (code, id, data) ← header udpRequest
  let kind ← MessageType.ofCode? code
  match s.storedResponse sem id with
  | some _ => none
  | none => some (id, (unmarshalRequest kind data).bind Except.toOption)

theorem marshalSingleStringResponse_head {str bytes : Bytes}
    (marshalled : marshalSingleStringResponse 0 str = some bytes) : bytes.head? = some 0 := by
  rw [marshalSingleStringResponse_eq] at marshalled
  cases marshalled
  rfl

/-- The service of a decoded request, with its response marshalled. -/
def serveRequest (env : Env Disk) (path : Bytes) (addr : UDPAddr) (s : Store Disk) :
    Request → Option (Store Disk × Bytes)
  | .read req => do
    let (s, res) ← read env path req s
    some (s, ← Read.marshalResponse res)
  | .write req => do
    let (s, res) ← write env path req s
    some (s, ← Write.marshalResponse res)
  | .subscribe req => do
    let (s, res) := subscribe env addr (concatenatePaths path req.pathname) req s
    some (s, ← Subscribe.marshalResponse res)
  | .replace req => do
    let (s, res) ← replace env path req s
    some (s, ← Replace.marshalResponse res)
  | .delete req => do
    let (s, res) ← delete env path req s
    some (s, ← Delete.marshalResponse res)
  | .getLastModifiedTime req => do
    let (s, res) := getLastModifiedTime env path req s
    some (s, ← GetLastModifiedTime.marshalResponse res)

theorem answered_iff {Res : Type} {m : Option (Store Disk × Res)} {marshal : Res → Option Bytes}
    {t : Store Disk} {reply : Bytes} :
    (do let (t, res) ← m; some (t, ← marshal res)) = some (t, reply) ↔
      ∃ res, m = some (t, res) ∧ marshal res = some reply := by
  constructor
  · intro answered
    obtain ⟨⟨u, res⟩, served, rest⟩ := Option.bind_eq_some_iff.mp answered
    obtain ⟨bytes, marshalled, made⟩ := Option.bind_eq_some_iff.mp rest
    cases made
    exact ⟨res, served, marshalled⟩
  · rintro ⟨res, served, marshalled⟩
    rw [served, Option.bind_eq_bind, Option.bind_some]
    dsimp only
    rw [marshalled, Option.bind_eq_bind, Option.bind_some]

/-- The three updates are served alike. -/
theorem serveRequest_update {env : Env Disk} {path : Bytes} {addr : UDPAddr} {s t : Store Disk}
    {r : Request} {reply : Bytes} (updates : r.updates = true)
    (served : serveRequest env path addr s r = some (t, reply)) :
    ∃ res, update env path r.pathname (requestedEdit r) s = some (t, res) ∧
      marshalStatusResponse res = some reply := by
  cases r with
  | write req | replace req | delete req => exact answered_iff.mp served
  | read | subscribe | getLastModifiedTime => contradiction

theorem serveRequest_timeQuery {env : Env Disk} {path : Bytes} {addr : UDPAddr} {s t : Store Disk}
    {req : GetLastModifiedTimeRequest} {reply : Bytes}
    (served : serveRequest env path addr s (.getLastModifiedTime req) = some (t, reply)) :
    t = s.did (.stat (concatenatePaths path req.pathname)) ∧
      GetLastModifiedTime.marshalResponse (getLastModifiedTime env path req s).2 = some reply := by
  have store := (getLastModifiedTime_cases env path req s).1
  obtain ⟨bytes, marshalled, made⟩ := Option.bind_eq_some_iff.mp served
  obtain ⟨rfl, rfl⟩ := Prod.mk.inj (Option.some.inj made)
  exact ⟨store, marshalled⟩

theorem serveRequest_subscription {env : Env Disk} {path : Bytes} {addr : UDPAddr} {s t : Store Disk}
    {req : SubscribeRequest} {reply : Bytes}
    (served : serveRequest env path addr s (.subscribe req) = some (t, reply)) :
    t = (subscribe env addr (concatenatePaths path req.pathname) req s).1 := by
  obtain ⟨bytes, _, made⟩ := Option.bind_eq_some_iff.mp served
  exact (congrArg Prod.fst (Option.some.inj made)).symm

theorem handle_cases {Req Res : Type} {unmarshal : Slice UInt8 → Option (Except Bytes Req)}
    {failure : Bytes → Res} {service : Req → Store Disk → Option (Store Disk × Res)}
    {marshal : Res → Option Bytes} {data : Slice UInt8} {s t : Store Disk} {reply : Bytes}
    (answered : handle unmarshal failure service marshal data s = some (t, reply)) :
    (∃ err, unmarshal data = some (.error err) ∧ t = s ∧ marshal (failure err) = some reply) ∨
    (∃ req, unmarshal data = some (.ok req) ∧ (do
      let (s, res) ← service req s
      some (s, ← marshal res)) = some (t, reply)) := by
  obtain ⟨result, decoded, rest⟩ := Option.bind_eq_some_iff.mp answered
  cases result with
  | error err =>
    obtain ⟨bytes, marshalled, made⟩ := Option.bind_eq_some_iff.mp rest
    cases made
    exact .inl ⟨err, decoded, rfl, marshalled⟩
  | ok req => exact .inr ⟨req, decoded, rest⟩

/-- A handler answers a request it cannot decode with a failure, and otherwise
serves it. -/
theorem dispatch_cases {kind : MessageType} {env : Env Disk} {path : Bytes} {addr : UDPAddr}
    {data : Slice UInt8} {s t : Store Disk} {reply : Bytes}
    (answered : dispatch kind env path addr data s = some (t, reply)) :
    (t = s ∧ reply.head? = some 0) ∨
    ∃ r, unmarshalRequest kind data = some (.ok r) ∧ serveRequest env path addr s r = some (t, reply) := by
  cases kind <;>
    simp only [dispatch, Read.handler, Write.handler, Subscribe.handler, Replace.handler,
      Delete.handler, GetLastModifiedTime.handler] at answered <;>
    rcases handle_cases answered with ⟨err, _, same, marshalled⟩ | ⟨req, decoded, served⟩
  case read.inl | write.inl | subscribe.inl | replace.inl | delete.inl | getLastModifiedTime.inl =>
    exact .inl ⟨same, marshalSingleStringResponse_head marshalled⟩
  case read.inr => exact .inr ⟨.read req, map_map_ok.mpr ⟨req, decoded, rfl⟩, served⟩
  case write.inr => exact .inr ⟨.write req, map_map_ok.mpr ⟨req, decoded, rfl⟩, served⟩
  case subscribe.inr => exact .inr ⟨.subscribe req, map_map_ok.mpr ⟨req, decoded, rfl⟩, served⟩
  case replace.inr => exact .inr ⟨.replace req, map_map_ok.mpr ⟨req, decoded, rfl⟩, served⟩
  case delete.inr => exact .inr ⟨.delete req, map_map_ok.mpr ⟨req, decoded, rfl⟩, served⟩
  case getLastModifiedTime.inr =>
    exact .inr ⟨.getLastModifiedTime req, map_map_ok.mpr ⟨req, decoded, rfl⟩, served⟩

theorem dispatch_success {kind : MessageType} {env : Env Disk} {path : Bytes} {addr : UDPAddr}
    {data : Slice UInt8} {s t : Store Disk} {response : Bytes}
    (answered : dispatch kind env path addr data s = some (t, response))
    (success : response.head? = some 1) : ∃ r, unmarshalRequest kind data = some (.ok r) := by
  rcases dispatch_cases answered with ⟨_, failure⟩ | ⟨r, decoded, _⟩
  · rw [success] at failure
    contradiction
  · exact ⟨r, decoded⟩

/-- What a call of the router can do: a handler runs and its response is recorded,
or nothing changes and the answer is a stored response or a refusal. -/
theorem routeRequest_cases {sem : InvocationSemantic} {env : Env Disk} {path : Bytes} {addr : UDPAddr}
    {d : Slice UInt8} {s t : State Disk} {response : Bytes}
    (routed : routeRequest sem env path addr d s = some (t, response)) :
    (handled sem d s = none ∧ t = s ∧ (response.head? ≠ some 1 ∨
      ∃ code id data, header d = some (code, id, data) ∧ s.storedResponse sem id = some response)) ∨
    (∃ id decoded, handled sem d s = some (id, decoded) ∧
      t.messageResponses = Function.update s.messageResponses id (some response) ∧
      (response.head? = some 1 → decoded.isSome)) := by
  rw [routeRequest_eq] at routed
  cases head : header d with
  | none =>
    rw [head] at routed
    cases routed
    exact .inl ⟨by simp [handled, head], rfl, .inl (by decide)⟩
  | some fields =>
    obtain ⟨code, id, data⟩ := fields
    simp only [head] at routed
    cases stored : s.storedResponse sem id with
    | some reply =>
      rw [stored] at routed
      cases routed
      refine .inl ⟨?_, rfl, .inr ⟨code, id, data, rfl, stored⟩⟩
      cases known : MessageType.ofCode? code <;> simp [handled, head, stored, known]
    | none =>
      cases known : MessageType.ofCode? code with
      | none =>
        rw [stored, known] at routed
        cases routed
        exact .inl ⟨by simp [handled, head, known], rfl, .inl (by decide)⟩
      | some kind =>
        rw [stored, known] at routed
        obtain ⟨⟨store, reply⟩, answered, made⟩ := Option.map_eq_some_iff.mp routed
        cases made
        refine .inr ⟨id, (unmarshalRequest kind data).bind Except.toOption,
          by simp [handled, head, known, stored], rfl, fun success => ?_⟩
        obtain ⟨r, decoded⟩ := dispatch_success answered success
        simp [decoded, Except.toOption]

theorem received_part (bytes : Bytes) : (received bytes).elems <+: bytes := List.take_prefix _ _

/-- From a client's datagram the router reads the client's id, and a handler
decodes nothing but the client's request. -/
theorem handled_received {sem : InvocationSemantic} {id id' : UInt32} {r : Request} {s : State Disk}
    {decoded : Option Request} (encodable : r.Encodable)
    (ran : handled sem (received (r.datagram id)) s = some (id', decoded)) :
    id' = id ∧ ∀ r', decoded = some r' → r' = r := by
  obtain ⟨data, head⟩ := header_received id r
  obtain ⟨⟨code, id'', data'⟩, head', rest⟩ := Option.bind_eq_some_iff.mp ran
  cases head.symm.trans head'
  obtain ⟨kind, known, run⟩ := Option.bind_eq_some_iff.mp rest
  split at run
  case h_1 => contradiction
  case h_2 =>
    cases run
    refine ⟨rfl, fun r' accepted => ?_⟩
    by_cases short : (received (r.datagram id)).len < 5
    · rw [header_short short] at head
      contradiction
    · obtain ⟨code, number, body, head', type, _, hasData, _, _⟩ :=
        header_long (Nat.le_of_not_lt short)
      cases head.symm.trans head'
      obtain ⟨result, unmarshalled, ok⟩ := Option.bind_eq_some_iff.mp accepted
      cases result with
      | error err => contradiction
      | ok r'' =>
        cases ok
        rw [MessageType.code_of_ofCode? known] at type
        refine (unmarshalRequest_received encodable (received_part _) (Nat.le_of_not_lt short) type ?_).1
        rw [hasData]
        exact unmarshalled

end RemoteFile.Server
