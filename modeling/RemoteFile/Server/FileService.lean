import RemoteFile.Core.Refinement
import RemoteFile.Server.AtMostOnce
import RemoteFile.Server.Decoding
import RemoteFile.Server.Edits

/-! What the server is for: files of bytes under names, and requests that are answered one
after the other, each by looking at one file or changing it. Every run of the server is a
history of this service; at most one request of each message id is in it where the
semantics is at-most-once. -/
namespace RemoteFile.Server
open Octets Go Transition Refinement

variable {Disk κ : Type}

/-! ### The service -/

inductive Answer where
  | failed (message : Bytes)
  | done
  | content (bytes : Bytes)
  | time (seconds : Int64)
  deriving DecidableEq

/-- How an answer is sent. -/
def Answer.bytes : Answer → Bytes
  | failed message => 0 :: counted message
  | done => [1]
  | content bytes => 1 :: counted bytes
  | time seconds => 1 :: bigEndian 8 seconds.toUInt64.toNat

/-- The lone success flag is how an update or a subscription is answered. -/
theorem Answer.eq_done {answer : Answer} (flag : answer.bytes = [1]) : answer = done := by
  have size := congrArg List.length flag
  cases answer with
  | done => rfl
  | failed message | content bytes | time seconds =>
    simp only [Answer.bytes, List.length_cons, counted_length, bigEndian_length, List.length_nil] at size
    omega

/-- One file takes a content, the others keep theirs. -/
structure Takes (files : κ → Option Bytes) (file : κ) (content : Bytes) (files' : κ → Option Bytes) :
    Prop where
  own : files' file = some content
  others : ∀ other, other ≠ file → files' other = files other

/-- The answers that a request about a file may get, and the files afterwards. Any request
may fail, and then it changes nothing. -/
inductive Serves (files : κ → Option Bytes) (file : κ) : Request → Answer → (κ → Option Bytes) → Prop where
  | failed (r : Request) (message : Bytes) : Serves files file r (.failed message) files
  | read {req : ReadRequest} {f : Bytes} (found : files file = some f)
      (inside : req.offset.toNat + req.numBytes.toNat ≤ f.length) : Serves files file (.read req)
        (.content (window f req.offset.toNat (req.offset.toNat + req.numBytes.toNat))) files
  | write {req : WriteRequest} {f : Bytes} {files' : κ → Option Bytes}
      (found : files file = some f) (inside : req.offset.toNat ≤ f.length)
      (takes : Takes files file (insertAt f req.offset.toNat req.content) files') :
      Serves files file (.write req) .done files'
  | replace {req : ReplaceRequest} {f : Bytes} {files' : κ → Option Bytes}
      (found : files file = some f) (inside : req.offset.toNat + req.content.length ≤ f.length)
      (takes : Takes files file (overwrite f req.offset.toNat req.content) files') :
      Serves files file (.replace req) .done files'
  | delete {req : DeleteRequest} {f : Bytes} {files' : κ → Option Bytes}
      (found : files file = some f) (inside : req.offset.toNat + req.numBytes.toNat ≤ f.length)
      (takes : Takes files file (removeAt f req.offset.toNat req.numBytes.toNat) files') :
      Serves files file (.delete req) .done files'
  | subscribe (req : SubscribeRequest) : Serves files file (.subscribe req) .done files
  | time (req : GetLastModifiedTimeRequest) (seconds : Int64) :
      Serves files file (.getLastModifiedTime req) (.time seconds) files

structure Operation where
  request : Request
  answer : Answer
  deriving DecidableEq

/-- A step of the service, at the paths of a server: an operation, or nothing. -/
def Accepts (locate : Bytes → κ) (path : Bytes) (files : κ → Option Bytes) :
    Option Operation → (κ → Option Bytes) → Prop
  | some op, files' =>
    Serves files (locate (concatenatePaths path op.request.pathname)) op.request op.answer files'
  | none, files' => files' = files

/-! ### The edits -/

variable {locate : Bytes → κ} {contents : Disk → κ → Option Bytes} {files files' : κ → Option Bytes} {file : κ}

/-- The end of a range to delete is not counted past `2^32`. -/
def Unwrapped : Request → Prop
  | .delete req => req.offset.toNat + req.numBytes.toNat < 2 ^ 32
  | _ => True

/-- A write whose stop wraps is a panic. -/
theorem Write.edit_wrapped {fileContent : Slice UInt8} {req : WriteRequest}
    (inside : req.offset.toNat ≤ fileContent.len % 2 ^ 32) (short : req.content.length < 2 ^ 32)
    (wraps : 2 ^ 32 ≤ req.offset.toNat + req.content.length) : Write.edit fileContent req = none := by
  have within : req.offset.toNat ≤ fileContent.len := inside.trans (Nat.mod_le _ _)
  have stop : (req.offset + UInt32.ofNat req.content.length).toNat < req.offset.toNat := by
    have bound := req.offset.toNat_lt
    rw [UInt32.toNat_add, UInt32.toNat_ofNat']
    omega
  have start : List.replicate (fileContent.len + req.content.length) 0 =
      filled (0 : UInt8) (fileContent.len + req.content.length) [] := (filled_nil _ _).symm
  have before : (fileContent.elems.take req.offset.toNat).length = req.offset.toNat := List.length_take_of_le within
  have first := @Slice.copy?_filled _ 0 req.offset.toNat (fileContent.len + req.content.length) 0 []
    (fileContent.elems.take req.offset.toNat) List.length_nil.symm (by rw [before, Nat.zero_add]) (by omega)
  unfold Write.edit
  simp only [gt_iff_lt, UInt32.lt_iff_toNat_lt, UInt32.toNat_ofNat', start]
  rw [if_neg (Nat.not_lt_of_le inside), Slice.slice?_within (Nat.zero_le _) within]
  simp only [Option.bind_eq_bind, Option.bind_some, window, List.drop_zero, first, List.nil_append]
  rw [Slice.copy?_filled_none (by omega) (fun order => absurd order.1 (Nat.not_le_of_lt stop))]
  rfl

theorem Write.edit_ok {fileContent : Slice UInt8} {req : WriteRequest} {buf : Bytes}
    (short : req.content.length < 2 ^ 32) (edited : Write.edit fileContent req = some (.ok buf)) :
    req.offset.toNat ≤ fileContent.len ∧ buf = insertAt fileContent.elems req.offset.toNat req.content := by
  rcases Nat.lt_or_ge (fileContent.len % 2 ^ 32) req.offset.toNat with outside | inside
  · cases (Write.edit_exceeds outside).symm.trans edited
  · refine ⟨inside.trans (Nat.mod_le _ _), ?_⟩
    rcases Nat.lt_or_ge (req.offset.toNat + req.content.length) (2 ^ 32) with fits | wraps
    · cases (Write.edit_within inside fits).symm.trans edited
      rfl
    · cases (Write.edit_wrapped inside short wraps).symm.trans edited

theorem Replace.edit_ok {fileContent : Slice UInt8} {req : ReplaceRequest} {buf : Bytes}
    (short : req.content.length < 2 ^ 32) (edited : Replace.edit fileContent req = some (.ok buf)) :
    req.offset.toNat + req.content.length ≤ fileContent.len ∧
      buf = overwrite fileContent.elems req.offset.toNat req.content := by
  obtain ⟨_, order, within, rfl⟩ := Replace.edit_ok_iff.mp edited
  have stop : Replace.stop req = req.offset.toNat + req.content.length := by
    have bound := req.offset.toNat_lt
    unfold Replace.stop at order ⊢
    rw [UInt32.toNat_add, UInt32.toNat_ofNat'] at order ⊢
    omega
  rw [stop] at within ⊢
  exact ⟨within, by rw [List.take_of_length_le (by omega)]⟩

theorem Delete.edit_ok {fileContent : Slice UInt8} {req : DeleteRequest} {buf : Bytes}
    (fits : req.offset.toNat + req.numBytes.toNat < 2 ^ 32)
    (edited : Delete.edit fileContent req = some (.ok buf)) :
    req.offset.toNat + req.numBytes.toNat ≤ fileContent.len ∧
      buf = removeAt fileContent.elems req.offset.toNat req.numBytes.toNat := by
  have stop : (req.offset + req.numBytes).toNat = req.offset.toNat + req.numBytes.toNat := by
    rw [UInt32.toNat_add]
    omega
  unfold Delete.edit at edited
  simp only [gt_iff_lt, UInt32.lt_iff_toNat_lt, UInt32.toNat_ofNat', stop] at edited
  split at edited
  · cases edited
  · split at edited
    · cases edited
    · rename_i inside within
      have bound : req.offset.toNat + req.numBytes.toNat ≤ fileContent.len :=
        (Nat.le_of_not_lt within).trans (Nat.mod_le _ _)
      rw [Slice.slice?_within (Nat.zero_le _) ((Nat.le_add_right _ _).trans bound), Option.bind_eq_bind,
        Option.bind_some, Slice.tail?_within bound] at edited
      cases edited
      exact ⟨bound, rfl⟩

/-- An update that computes a new content for its file is the operation that it asks for. -/
theorem requestedEdit_serves {r : Request} {fileContent : Slice UInt8} {buf : Bytes}
    (short : r.content.length < 2 ^ 32) (unwrapped : Unwrapped r)
    (found : files file = some fileContent.elems) (edited : requestedEdit r fileContent = some (.ok buf))
    (takes : Takes files file buf files') : Serves files file r .done files' := by
  cases r with
  | write req =>
    obtain ⟨inside, rfl⟩ := Write.edit_ok short edited
    exact .write found inside takes
  | replace req =>
    obtain ⟨inside, rfl⟩ := Replace.edit_ok short edited
    exact .replace found inside takes
  | delete req =>
    obtain ⟨inside, rfl⟩ := Delete.edit_ok unwrapped edited
    exact .delete found inside takes
  | read | subscribe | getLastModifiedTime => contradiction

/-! ### Requests -/

variable {sem : InvocationSemantic} {env : Env Disk} {path : Bytes} {addr : UDPAddr}

theorem update_serves {s t : Store Disk} {r : Request} {res : StatusResponse}
    (lawful : env.os.Lawful locate contents) (short : r.content.length < 2 ^ 32) (unwrapped : Unwrapped r)
    (updated : update env path r.pathname (requestedEdit r) s = some (t, res)) :
    ∃ answer, marshalStatusResponse res = some answer.bytes ∧
      Serves (contents s.disk) (locate (concatenatePaths path r.pathname)) r answer (contents t.disk) := by
  cases update_cases updated with
  | unread err failed store response | refused fileContent err file edited store response =>
    subst store response
    exact ⟨.failed err, marshalSingleStringResponse_eq 0 err, .failed r err⟩
  | unwritten fileContent buf err disk file edited failed store response =>
    subst store response
    refine ⟨.failed err, marshalSingleStringResponse_eq 0 err, ?_⟩
    have same : contents disk = contents s.disk := lawful.failed failed
    simp only [same]
    exact .failed r err
  | written fileContent buf disk file edited wrote notified response =>
    subst response
    refine ⟨.done, rfl, requestedEdit_serves short unwrapped (lawful.read file) edited ?_⟩
    obtain ⟨own, others⟩ := lawful.written wrote
    rw [handleNotification_disk notified]
    exact ⟨own, others⟩

theorem serveRequest_subscribed {s t : Store Disk} {req : SubscribeRequest} {reply : Bytes}
    (served : serveRequest env path addr s (.subscribe req) = some (t, reply)) :
    ∃ res, marshalStatusResponse res = some reply := by
  obtain ⟨bytes, marshalled, made⟩ := Option.bind_eq_some_iff.mp served
  obtain ⟨_, rfl⟩ := Prod.mk.inj (Option.some.inj made)
  exact ⟨_, marshalled⟩

theorem serveRequest_serves {s t : Store Disk} {r : Request} {reply : Bytes}
    (lawful : env.os.Lawful locate contents) (short : r.content.length < 2 ^ 32) (unwrapped : Unwrapped r)
    (served : serveRequest env path addr s r = some (t, reply)) :
    ∃ answer : Answer, reply = answer.bytes ∧
      Serves (contents s.disk) (locate (concatenatePaths path r.pathname)) r answer (contents t.disk) := by
  cases r with
  | write req | replace req | delete req =>
    obtain ⟨res, updated, marshalled⟩ := serveRequest_update rfl served
    obtain ⟨answer, bytes, serves⟩ := update_serves lawful short unwrapped updated
    exact ⟨answer, Option.some.inj (marshalled.symm.trans bytes), serves⟩
  | read req =>
    obtain ⟨res, answered, marshalled⟩ := answered_iff.mp served
    obtain ⟨rfl, failed | ⟨fileContent, bytes, opened, segment, rfl⟩⟩ := read_cases answered
    · simp only [Read.marshalResponse, failed, Bool.false_eq_true, if_false,
        marshalSingleStringResponse_eq, Option.some.injEq] at marshalled
      exact ⟨.failed res.errorMessage, marshalled.symm, .failed _ _⟩
    · obtain ⟨_, inside, rfl⟩ := Read.segment_ok_iff.mp segment
      simp only [Read.marshalResponse, if_true, marshalSingleStringResponse_eq, Option.some.injEq] at marshalled
      exact ⟨.content _, marshalled.symm, .read (lawful.read opened) (inside.trans (Nat.mod_le _ _))⟩
  | subscribe req =>
    obtain ⟨res, marshalled⟩ := serveRequest_subscribed served
    rw [serveRequest_subscription served, subscribe_disk]
    simp only [marshalStatusResponse, marshalSingleStringResponse_eq] at marshalled
    split at marshalled
    · exact ⟨.done, (Option.some.inj marshalled).symm, .subscribe req⟩
    · exact ⟨.failed _, (Option.some.inj marshalled).symm, .failed _ _⟩
  | getLastModifiedTime req =>
    obtain ⟨rfl, marshalled⟩ := serveRequest_timeQuery served
    obtain ⟨err, failed⟩ | ⟨modTime, _, answered⟩ := (getLastModifiedTime_cases env path req s).2
    · rw [failed] at marshalled
      cases (marshalSingleStringResponse_eq 0 err).symm.trans marshalled
      exact ⟨.failed err, rfl, .failed _ _⟩
    · rw [answered] at marshalled
      cases (marshalSuccessResponse_eq _).symm.trans marshalled
      exact ⟨.time (unix modTime), rfl, .time req _⟩

/-! ### Steps -/

/-- The message id and the request that the server decodes from an event. -/
def Event.request? : Event Disk → Option (UInt32 × Request)
  | .timer _ => none
  | .packet _ p => p.routed.bind fun (d, _) => (decode d).bind Except.toOption

/-- How a step comes by its answer, in the state before it. -/
inductive Explains (sem : InvocationSemantic) (s : State Disk) (e : Event Disk) (o : Handled) :
    Option Operation → Prop where
  | executed (id : UInt32) (op : Operation) (request : e.request? = some (id, op.request))
      (fresh : s.storedResponse sem id = none) (response : o.response = some op.answer.bytes) :
      Explains sem s e o (some op)
  | repeated (id : UInt32) (response : Bytes) (carries : e.Carries id)
      (stored : s.storedResponse sem id = some response) (same : o.response = some response) :
      Explains sem s e o none
  /-- Nothing is decoded. -/
  | refused (unrequested : e.request? = none) (fails : ∀ reply, o.response = some reply → reply.head? ≠ some 1) :
      Explains sem s e o none

theorem decoded_iff {d : Slice UInt8} {id : UInt32} {r : Request} :
    (decode d).bind Except.toOption = some (id, r) ↔ decode d = some (.ok (id, r)) := by
  cases decode d with
  | none => simp
  | some result => cases result <;> simp [Except.toOption]

theorem decode_carries {d : Slice UInt8} {id : UInt32} {r : Request} (decoded : decode d = some (.ok (id, r))) :
    ∃ code data, header d = some (code, id, data) := by
  rw [decode_eq] at decoded
  split at decoded
  · cases decoded
  · rename_i code id' data head
    split at decoded
    · cases decoded
    · obtain ⟨result, _, made⟩ := Option.map_eq_some_iff.mp decoded
      cases result with
      | error err => contradiction
      | ok r' =>
        cases made
        exact ⟨code, data, head⟩

/-- Where the router decodes no request, its answer is a stored one or no success. -/
theorem undecoded_cases {d : Slice UInt8} {s t : State Disk} {response : Bytes}
    (undecoded : (decode d).bind Except.toOption = none)
    (routed : routeRequest sem env path addr d s = some (t, response)) :
    t.store = s.store ∧ (response.head? ≠ some 1 ∨
      ∃ code id data, header d = some (code, id, data) ∧ s.storedResponse sem id = some response) := by
  have none_decoded : ∀ id r, decode d ≠ some (.ok (id, r)) := by
    intro id r decoded
    rw [decoded] at undecoded
    contradiction
  refine ⟨(routeRequest_undecoded none_decoded).1 t response routed, ?_⟩
  rcases routeRequest_cases routed with ⟨_, _, origin⟩ | ⟨id, decoded, ran, _, success⟩
  · exact origin
  · left
    intro head
    obtain ⟨⟨code, id', data⟩, header, rest⟩ := Option.bind_eq_some_iff.mp ran
    obtain ⟨kind, known, run⟩ := Option.bind_eq_some_iff.mp rest
    split at run
    · contradiction
    · cases run
      obtain ⟨r, accepted⟩ := Option.isSome_iff_exists.mp (success head)
      obtain ⟨result, unmarshalled, ok⟩ := Option.bind_eq_some_iff.mp accepted
      cases result with
      | error err => contradiction
      | ok r' => exact none_decoded id r' (by rw [decode_eq, header]; simp [known, unmarshalled, Except.map])

/-- Every step of the server is a step of the service. -/
theorem serverStep_serves {s t : State Disk} {e : Event Disk} {o : Handled}
    (lawful : ∀ env p, e = .packet env p → env.os.Lawful locate contents)
    (unwrapped : ∀ id r, e.request? = some (id, r) → Unwrapped r)
    (stepped : serverStep sem path s e = some (t, o)) :
    ∃ label, Accepts locate path (contents s.store.disk) label (contents t.store.disk) ∧
      Explains sem s e o label := by
  cases e with
  | timer k =>
    obtain ⟨store, fired, made⟩ := Option.map_eq_some_iff.mp stepped
    cases made
    exact ⟨none, congrArg contents (fireTimer_disk fired), .refused rfl nofun⟩
  | packet env p =>
    rw [serverStep, handlePacket_eq] at stepped
    cases routed : p.routed with
    | none =>
      rw [routed] at stepped
      cases stepped
      exact ⟨none, rfl, .refused (by rw [Event.request?, routed]; rfl) nofun⟩
    | some arrival =>
      obtain ⟨d, addr⟩ := arrival
      rw [routed] at stepped
      obtain ⟨⟨server, response⟩, answered, made⟩ := Option.map_eq_some_iff.mp stepped
      cases made
      have carries {code id data} (head : header d = some (code, id, data)) : (Event.packet env p).Carries id :=
        ⟨code, by simp [Event.header?, routed, head]⟩
      cases decoded : (decode d).bind Except.toOption with
      | none =>
        obtain ⟨same, origin⟩ := undecoded_cases decoded answered
        refine ⟨none, congrArg (fun store : Store Disk => contents store.disk) same, ?_⟩
        rcases origin with failure | ⟨code, id, data, head, stored⟩
        · refine .refused (by rw [Event.request?, routed]; exact decoded) ?_
          intro reply sent
          cases sent
          exact failure
        · exact .repeated id response (carries head) stored rfl
      | some found =>
        obtain ⟨id, r⟩ := found
        have request : (Event.packet env p).request? = some (id, r) := by
          rw [Event.request?, routed]
          exact decoded
        have accepted := decoded_iff.mp decoded
        rw [routeRequest_decoded accepted] at answered
        cases stored : s.storedResponse sem id with
        | some reply =>
          rw [stored] at answered
          cases answered
          obtain ⟨code, data, head⟩ := decode_carries accepted
          exact ⟨none, rfl, .repeated id _ (carries head) stored rfl⟩
        | none =>
          rw [stored] at answered
          obtain ⟨⟨store, reply⟩, served, made⟩ := Option.map_eq_some_iff.mp answered
          cases made
          obtain ⟨answer, rfl, serves⟩ := serveRequest_serves (lawful env p rfl)
            (decode_ok_iff.mp accepted).1.content (unwrapped id r request) served
          exact ⟨some ⟨r, answer⟩, serves, .executed id ⟨r, answer⟩ request stored rfl⟩

/-! ### What a packet executes -/

/-- The request that a handler runs with is the one decoded, unless an answer is stored. -/
theorem handled_decoded {d : Slice UInt8} {s : State Disk} {r : Request} :
    (handled sem d s).bind Prod.snd = some r ↔
      ∃ id, (decode d).bind Except.toOption = some (id, r) ∧ s.storedResponse sem id = none := by
  unfold handled
  rw [decode_eq]
  cases head : header d with
  | none => simp [Except.toOption]
  | some fields =>
    obtain ⟨code, id', data⟩ := fields
    cases known : MessageType.ofCode? code with
    | none => simp [Except.toOption, known]
    | some kind =>
      cases stored : s.storedResponse sem id' <;> cases unmarshalled : unmarshalRequest kind data with
      | none => simp [stored, known, unmarshalled]
      | some result => cases result <;> simp [stored, known, unmarshalled, Except.toOption, Except.map]

theorem Packet.routed_eq {p : Packet} {d : Slice UInt8} {addr : UDPAddr} (routed : p.routed = some (d, addr)) :
    d = received p.bytes ∧ addr = p.clientAddress := by
  unfold Packet.routed readFromClient at routed
  split at routed
  · contradiction
  · split at routed <;> cases routed
    exact ⟨rfl, rfl⟩

/-- What the router runs a handler for. -/
def Packet.handled (sem : InvocationSemantic) (p : Packet) (s : State Disk) : Option (UInt32 × Option Request) :=
  p.routed.bind fun (d, _) => Server.handled sem d s

/-- The table of responses changes when a handler runs. -/
theorem handlePacket_table {env : Env Disk} {p : Packet} {s t : State Disk} {o : Handled}
    (done : handlePacket sem env path p s = some (t, o)) :
    (p.handled sem s = none ∧ t.messageResponses = s.messageResponses) ∨
    ∃ id decoded response, p.handled sem s = some (id, decoded) ∧ o.response = some response ∧
      t.messageResponses = Function.update s.messageResponses id (some response) ∧
      (response.head? = some 1 → decoded.isSome) := by
  rw [handlePacket_eq] at done
  unfold Packet.handled
  cases routed : p.routed with
  | none =>
    rw [routed] at done
    cases done
    exact .inl ⟨rfl, rfl⟩
  | some arrival =>
    obtain ⟨d, addr⟩ := arrival
    rw [routed] at done
    obtain ⟨⟨server, response⟩, answered, made⟩ := Option.map_eq_some_iff.mp done
    cases made
    rcases routeRequest_cases answered with ⟨idle, rfl, _⟩ | ⟨id, decoded, ran, table, success⟩
    · exact .inl ⟨idle, rfl⟩
    · exact .inr ⟨id, decoded, response, ran, rfl, table, success⟩

/-- The request executed is the operation that explains the step. -/
theorem explained_request {env : Env Disk} {p : Packet} {s : State Disk} {o : Handled}
    {label : Option Operation} (explained : Explains sem s (.packet env p) o label) :
    (p.handled sem s).bind Prod.snd = label.map Operation.request := by
  unfold Packet.handled
  cases explained with
  | executed id op request fresh response =>
    obtain ⟨⟨d, addr⟩, routed, decoded⟩ := Option.bind_eq_some_iff.mp request
    rw [routed]
    exact handled_decoded.mpr ⟨id, decoded, fresh⟩
  | repeated id response carries stored same =>
    obtain ⟨code, head⟩ := carries
    obtain ⟨⟨d, addr⟩, routed, rest⟩ := Option.bind_eq_some_iff.mp head
    obtain ⟨⟨code', id', data⟩, header, made⟩ := Option.bind_eq_some_iff.mp rest
    cases made
    rw [routed]
    apply Option.eq_none_iff_forall_ne_some.mpr
    intro r ran
    obtain ⟨id', decoded, fresh⟩ := handled_decoded.mp ran
    obtain ⟨_, _, header'⟩ := decode_carries (decoded_iff.mp decoded)
    cases header.symm.trans header'
    rw [stored] at fresh
    contradiction
  | refused unrequested fails =>
    cases routed : p.routed with
    | none => rfl
    | some arrival =>
      obtain ⟨d, addr⟩ := arrival
      rw [Event.request?, routed] at unrequested
      apply Option.eq_none_iff_forall_ne_some.mpr
      intro r ran
      obtain ⟨id, decoded, _⟩ := handled_decoded.mp ran
      cases decoded.symm.trans unrequested

/-! ### Runs -/

theorem Event.tagged_requests {e : Event Disk} {id : UInt32} (tagged : e.tag = .keyed id) : e.Requests id := by
  cases e with
  | timer k => cases tagged
  | packet env p =>
    simp only [Event.tag] at tagged
    split at tagged
    · cases tagged
    · cases tagged
    · rename_i code id' _ head
      split at tagged
      · rename_i supported
        cases tagged
        exact ⟨code, head, supported⟩
      · cases tagged

/-- Under at-most-once an answer is stored for exactly the message ids requested so far. -/
theorem stored_iff {s t : State Disk} {es : List (Event Disk)} {os : List Handled}
    (empty : s.messageResponses = fun _ => none)
    (ran : run (serverStep .atMostOnce path) s es = some (t, os)) (id : UInt32) :
    (t.messageResponses id).isSome ↔ ∃ e ∈ es, e.Requests id := by
  have filteredRun : run (OnceOnly.filtered (machine path)) s.parts es =
      some (t.parts, os.map Handled.response) := by
    rw [run_image State.parts Handled.response (serverStep_filtered path), ran]
    rfl
  have known := OnceOnly.run_knows filteredRun id
  simp only [empty, Option.isSome_none, Bool.false_eq_true, false_or] at known
  rw [known]
  constructor
  · rintro ⟨e, member, tagged⟩
    exact ⟨e, member, Event.tagged_requests tagged⟩
  · rintro ⟨e, member, requests⟩
    exact ⟨e, member, requests.tagged⟩

/-- How the answer at a position of a run is accounted for. -/
inductive Accounted (sem : InvocationSemantic) (es : List (Event Disk)) (os : List Handled) (i : Nat)
    (e : Event Disk) (o : Handled) : Option Operation → Prop where
  /-- The request is an operation of the history. Under at-most-once it is the first of its id. -/
  | executed (id : UInt32) (op : Operation) (request : e.request? = some (id, op.request))
      (response : o.response = some op.answer.bytes)
      (first : sem = .atMostOnce → ∀ e' ∈ es.take i, ¬ e'.Requests id) : Accounted sem es os i e o (some op)
  /-- Under at-most-once: the answer that the first request of the id was given. -/
  | repeated (id : UInt32) (j : Nat) (e' : Event Disk) (semantic : sem = .atMostOnce) (earlier : j < i)
      (there : es[j]? = some e') (requests : e'.Requests id) (first : ∀ e'' ∈ es.take j, ¬ e''.Requests id)
      (carries : e.Carries id) (same : os[j]?.map Handled.response = some o.response) :
      Accounted sem es os i e o none
  | refused (unrequested : e.request? = none) (fails : ∀ reply, o.response = some reply → reply.head? ≠ some 1) :
      Accounted sem es os i e o none

/-- Of the elements with a property there is a first one. -/
theorem exists_first {α : Type} {P : α → Prop} {xs : List α} (present : ∃ x ∈ xs, P x) :
    ∃ (j : Nat) (x : α), j < xs.length ∧ xs[j]? = some x ∧ P x ∧ ∀ y ∈ xs.take j, ¬ P y := by
  classical
  have bound : xs.findIdx (fun x => decide (P x)) < xs.length :=
    List.findIdx_lt_length_of_exists (by simpa using present)
  have here := List.findIdx_getElem (w := bound)
  refine ⟨_, _, bound, List.getElem?_eq_getElem bound, of_decide_eq_true here, ?_⟩
  intro y member holds
  obtain ⟨k, early, rfl⟩ := List.mem_take_iff_getElem.mp member
  have before := List.not_of_lt_findIdx (lt_of_lt_of_le early (Nat.min_le_left _ _))
  simp [holds] at before

/-- Every run of the server, on any file system that keeps byte strings and with requests
whose ranges are not counted past `2^32`, is a history of the file service: requests are
executed in the order of arrival, each as one step, and answered with what that step
answers; what is not executed is refused, or under at-most-once repeats the answer to the
first request with its message id, the only one that is executed. -/
theorem run_serves {s t : State Disk} {es : List (Event Disk)} {os : List Handled}
    (lawful : ∀ env p, .packet env p ∈ es → env.os.Lawful locate contents)
    (unwrapped : ∀ e ∈ es, ∀ id r, e.request? = some (id, r) → Unwrapped r)
    (empty : s.messageResponses = fun _ => none)
    (ran : run (serverStep sem path) s es = some (t, os)) :
    ∃ history : List (Option Operation), history.length = es.length ∧
      Trace (Accepts locate path) (contents s.store.disk) history (contents t.store.disk) ∧
      ∀ (i : Nat) (e : Event Disk), es[i]? = some e → ∃ label o, history[i]? = some label ∧
        os[i]? = some o ∧ Accounted sem es os i e o label := by
  obtain ⟨history, final, trace, rfl, length, all⟩ := trace_of_run (A := Accepts locate path)
    (R := fun s files => files = contents s.store.disk)
    (P := fun e => (∀ env p, e = .packet env p → env.os.Lawful locate contents) ∧
      ∀ id r, e.request? = some (id, r) → Unwrapped r)
    (X := Explains sem) (fun s e t o files related fine stepped => by
      subst related
      obtain ⟨label, accepts, explained⟩ := serverStep_serves fine.1 fine.2 stepped
      exact ⟨label, _, accepts, rfl, explained⟩)
    rfl (fun e member => ⟨fun env p same => lawful env p (same ▸ member), unwrapped e member⟩) ran
  refine ⟨history, length, trace, ?_⟩
  intro i e here
  obtain ⟨label, o, s', before, at_history, output, left, reason⟩ := all i e here
  refine ⟨label, o, at_history, output, ?_⟩
  cases reason with
  | refused unrequested fails => exact .refused unrequested fails
  | executed id op request fresh response =>
    refine .executed id op request response ?_
    rintro rfl e' member requests
    have stored := (stored_iff empty left id).mpr ⟨e', member, requests⟩
    rw [State.storedResponse] at fresh
    rw [fresh] at stored
    contradiction
  | repeated id response carries stored same =>
    cases sem with
    | atLeastOnce => contradiction
    | atMostOnce =>
      have known : (s'.messageResponses id).isSome := Option.isSome_iff_exists.mpr ⟨response, stored⟩
      obtain ⟨j, e', bound, there, requests, first⟩ := exists_first ((stored_iff empty left id).mp known)
      have earlier : j < i := lt_of_lt_of_le bound (List.length_take_le _ _)
      rw [List.getElem?_take_of_lt earlier] at there
      rw [List.take_take, Nat.min_eq_left (le_of_lt earlier)] at first
      refine .repeated id j e' rfl earlier there requests first carries ?_
      obtain ⟨reply, first_reply, second_reply⟩ :=
        (atMostOnce_execution empty ran).2.1 j i e' e id there requests earlier here carries
      rw [output] at second_reply
      rw [first_reply]
      exact second_reply.symm

theorem run_serves_repeatedWrite : ∃ (t : State FileSystem) (os : List Handled) (history : List (Option Operation)),
    run (serverStep .atMostOnce []) oneFile repeatedWrite = some (t, os) ∧ history.length = 2 ∧
    Trace (Accepts id []) (FileSystem.bytes oneFile.store.disk) history (FileSystem.bytes t.store.disk) ∧
    FileSystem.bytes t.store.disk (text "/a") = some (text "1xy23") := by
  have content : (run (serverStep .atMostOnce []) oneFile repeatedWrite).map
      (fun (t, _) => FileSystem.bytes t.store.disk (text "/a")) = some (some (text "1xy23")) := by
    decide +kernel
  have requests : repeatedWrite.map Event.request? =
      List.replicate 2 (some (5, .write ⟨text "a", 1, text "xy"⟩)) := by
    decide +kernel
  obtain ⟨⟨t, os⟩, ran, file⟩ := Option.map_eq_some_iff.mp content
  obtain ⟨history, length, trace, _⟩ := @run_serves _ _ id FileSystem.bytes _ _ _ _ _ _ (by
      intro env p member
      simp only [repeatedWrite, List.mem_cons, Event.packet.injEq, List.not_mem_nil, or_false] at member
      rcases member with ⟨rfl, _⟩ | ⟨rfl, _⟩ <;> exact FileSystem.lawful rfl) (by
      intro e member id r request
      have same := List.eq_of_mem_replicate (requests ▸ List.mem_map_of_mem member)
      cases request.symm.trans same
      trivial) rfl ran
  exact ⟨t, os, history, ran, length, trace, file⟩

end RemoteFile.Server
