import RemoteFile.Server.FileService
import RemoteFile.System.OwnReplies

/-! The files behind a network of clients. Whatever is lost, delayed, reordered or sent
again, the files are what the executed requests have made of them one after the other, and
a success in flight is the answer of one of them. -/
namespace RemoteFile.System
open Octets Go Transition Refinement Server Client

variable {Disk κ : Type} {sem : InvocationSemantic} {path : Bytes} {locate : Bytes → κ}
  {contents : Disk → κ → Option Bytes} {w w' : World Disk} {a : Action Disk}

/-! ### What a step can do -/

/-- A step of the network lets the server handle a request in flight, or leaves the files
and the table of responses as they are: an expiry goroutine may run, or a client goes on. -/
inductive World.Moved (sem : InvocationSemantic) (path : Bytes) (w : World Disk) (a : Action Disk)
    (w' : World Disk) : Prop where
  | quiet (store : w'.server.store = w.server.store ∨
        ∃ k, fireTimer w.server.store k = some w'.server.store)
      (responses : w'.server.messageResponses = w.server.messageResponses)
      (executed : w'.executed = w.executed) (toClients : w'.toClients ⊆ w.toClients)
      (toServer : ∀ s ∈ w'.toServer, s ∈ w.toServer ∨ (w.clients s.client).exchange? = some s.exchange)
      (clients : ∀ c, (w.clients c).Stays (w'.clients c) ∨ (w.clients c).Moves (w'.clients c))
  | delivers (i : Nat) (env : Env Disk) (readFails simulateReqLoss simulateReplyLoss sendFails : Bool)
      (action : a = .deliver i env readFails simulateReqLoss simulateReplyLoss sendFails) (sent : Sent)
      (inFlight : sent ∈ w.toServer)
      (delivery : { w with toServer := w.toServer.eraseIdx i }.deliver sem path env sent readFails
        simulateReqLoss simulateReplyLoss sendFails = some w')

theorem quiet_disk {s t : Store Disk} (store : t = s ∨ ∃ k, fireTimer s k = some t) : t.disk = s.disk := by
  rcases store with rfl | ⟨k, fired⟩
  · rfl
  · exact fireTimer_disk fired

theorem setClient_moves {client : UDPAddr} {p : Program}
    (own : (w.clients client).Stays p ∨ (w.clients client).Moves p) (c : UDPAddr) :
    (w.clients c).Stays ((w.setClient client p).clients c) ∨
      (w.clients c).Moves ((w.setClient client p).clients c) := by
  by_cases same : c = client
  · subst same
    simpa only [World.setClient, Function.update_self] using own
  · rw [setClient_clients same]
    exact .inl (Program.stays _)

theorem networkStep_moved {t : Option Taken} (valid : ∀ c e, (w.clients c).exchange? = some e → e.Valid)
    (stepped : networkStep sem path w a = some (w', t)) : w.Moved sem path a w' := by
  cases a with
  | command client now input =>
    obtain ⟨p, commanded, made⟩ := Option.bind_eq_some_iff.mp stepped
    cases made
    exact .quiet (.inl rfl) rfl rfl (List.Subset.refl _) (fun _ => .inl)
      (setClient_moves (.inr (Program.command_moves commanded)))
  | transmit client sendFails =>
    obtain ⟨⟨p, sent⟩, transmitted, made⟩ := Option.bind_eq_some_iff.mp stepped
    cases made
    obtain ⟨same, requests, current⟩ := Program.transmit_cases transmitted
    refine .quiet (.inl rfl) rfl rfl (List.Subset.refl _) ?_ (setClient_moves (.inl ⟨same, requests⟩))
    intro s member
    rcases List.mem_append.mp member with before | new
    · exact .inl before
    · obtain ⟨e, among, rfl⟩ := List.mem_map.mp new
      exact .inr (current e (Option.mem_toList.mp among))
  | timeout client =>
    obtain ⟨p, timedOut, made⟩ := Option.bind_eq_some_iff.mp stepped
    cases made
    obtain ⟨same, requests⟩ := Program.timeout_same timedOut
    exact .quiet (.inl rfl) rfl rfl (List.Subset.refl _) (fun _ => .inl) (setClient_moves (.inl ⟨same, requests⟩))
  | deliver i env readFails simulateReqLoss simulateReplyLoss sendFails =>
    obtain ⟨sent, inFlight, rest⟩ := Option.bind_eq_some_iff.mp stepped
    obtain ⟨v, delivery, made⟩ := Option.bind_eq_some_iff.mp rest
    cases made
    exact .delivers i env readFails simulateReqLoss simulateReplyLoss sendFails rfl sent
      (List.mem_of_getElem? inFlight) delivery
  | loseRequest i =>
    cases stepped
    exact .quiet (.inl rfl) rfl rfl (List.Subset.refl _) (fun s member => .inl (List.mem_of_mem_eraseIdx member))
      fun c => .inl (Program.stays _)
  | loseDatagram i =>
    cases stepped
    exact .quiet (.inl rfl) rfl rfl List.eraseIdx_subset (fun _ => .inl) fun c => .inl (Program.stays _)
  | take client now i =>
    obtain ⟨d, arrived, rest⟩ := Option.bind_eq_some_iff.mp stepped
    obtain ⟨e, current, rest⟩ := Option.bind_eq_some_iff.mp rest
    obtain ⟨p, took, made⟩ := Option.bind_eq_some_iff.mp rest
    cases made
    have moves := (Program.take_spec (valid _ e current) (Program.take_waiting current took) took).1
    exact .quiet (.inl rfl) rfl rfl List.eraseIdx_subset (fun _ => .inl) (setClient_moves (.inr moves))
  | listen client now i =>
    cases i with
    | none =>
      obtain ⟨p, listened, made⟩ := Option.bind_eq_some_iff.mp stepped
      cases made
      exact .quiet (.inl rfl) rfl rfl (List.Subset.refl _) (fun _ => .inl)
        (setClient_moves (.inr (.inl (Program.listen_ends listened).2)))
    | some i =>
      obtain ⟨d, _, rest⟩ := Option.bind_eq_some_iff.mp stepped
      obtain ⟨p, listened, made⟩ := Option.bind_eq_some_iff.mp rest
      cases made
      exact .quiet (.inl rfl) rfl rfl List.eraseIdx_subset (fun _ => .inl)
        (setClient_moves (.inr (.inl (Program.listen_ends listened).2)))
  | expire k =>
    obtain ⟨store, fired, made⟩ := Option.bind_eq_some_iff.mp stepped
    cases made
    exact .quiet (.inr ⟨k, fired⟩) rfl rfl (List.Subset.refl _) (fun _ => .inl) fun c => .inl (Program.stays _)

/-- The only step that emits something takes a reply. -/
theorem networkStep_taken {t : Taken} (stepped : networkStep sem path w a = some (w', some t)) :
    ∃ d e now p, d ∈ w.toClients ∧ (w.clients d.client).exchange? = some e ∧
      (w.clients d.client).take now d.bytes = some p ∧
      t = ⟨d.client, e, d.origin, d.bytes, p.screen.drop (w.clients d.client).screen.length⟩ := by
  cases a with
  | take client now i =>
    obtain ⟨d, arrived, rest⟩ := Option.bind_eq_some_iff.mp stepped
    obtain ⟨e, current, rest⟩ := Option.bind_eq_some_iff.mp rest
    obtain ⟨p, took, made⟩ := Option.bind_eq_some_iff.mp rest
    cases made
    obtain ⟨inFlight, rfl⟩ := World.arriving_iff.mp arrived
    exact ⟨d, e, now, p, List.mem_of_getElem? inFlight, current, took, rfl⟩
  | command | transmit | timeout | deliver | expire | loseRequest | loseDatagram =>
    simp [networkStep, Option.bind_eq_some_iff] at stepped
  | listen client now i =>
    cases i with
    | none | some => simp [networkStep, Option.bind_eq_some_iff] at stepped

/-- The requests on their way are the clients' own. -/
structure Genuine (w : World Disk) : Prop where
  current : ∀ c e, (w.clients c).exchange? = some e → e.Valid
  sent : ∀ s ∈ w.toServer, s.exchange.Valid

theorem World.Initial.genuine (initial : w.Initial) : Genuine w where
  current c e current := by
    rw [initial.clients c] at current
    contradiction
  sent s member := by
    rw [initial.toServer] at member
    contradiction

theorem Settled.genuine (settled : Settled w) : Genuine w where
  current := settled.exchanges
  sent s member := (settled.inFlight s member).1

theorem World.deliver_kept {env : Env Disk} {sent : Sent}
    {readFails simulateReqLoss simulateReplyLoss sendFails : Bool}
    (delivery : w.deliver sem path env sent readFails simulateReqLoss simulateReplyLoss sendFails = some w') :
    w'.clients = w.clients ∧ w'.toServer = w.toServer := by
  obtain ⟨_, _, made⟩ := Option.bind_eq_some_iff.mp delivery
  cases made
  exact ⟨rfl, rfl⟩

theorem Genuine.preserved (genuine : Genuine w) (moved : w.Moved sem path a w') : Genuine w' := by
  cases moved with
  | quiet _ _ _ _ toServer clients =>
    constructor
    · intro c e next
      rcases clients c with stays | ends | ⟨e', begins⟩
      · exact genuine.current c e (stays.exchange ▸ next)
      · rw [ends.exchange] at next
        contradiction
      · obtain rfl := Option.some.inj (begins.exchange.symm.trans next)
        exact begins.valid
    · intro s member
      rcases toServer s member with before | own
      · exact genuine.sent s before
      · exact genuine.current s.client s.exchange own
  | delivers i env _ _ _ _ _ sent inFlight delivery =>
    obtain ⟨clients, toServer⟩ := World.deliver_kept delivery
    constructor
    · rw [clients]
      exact genuine.current
    · rw [toServer]
      exact fun s member => genuine.sent s (List.mem_of_mem_eraseIdx member)

/-! ### The clients' requests -/

/-- From a client's datagram nothing but the client's request is decoded. -/
theorem request_own {env : Env Disk} {p : Packet} {e : Exchange} (valid : e.Valid)
    (bytes : p.bytes = e.marshalled) {id : UInt32} {r : Request}
    (request : (Event.packet env p).request? = some (id, r)) : id = wireId e.number ∧ r = e.request := by
  obtain ⟨⟨d, addr⟩, routed, decoded⟩ := Option.bind_eq_some_iff.mp request
  obtain ⟨encodable, elems⟩ := decode_ok_iff.mp (decoded_iff.mp decoded)
  rw [(Packet.routed_eq routed).1, bytes, valid.marshalled] at elems
  exact Request.datagram_prefix encodable valid.prompted.encodable (elems ▸ received_part _)

theorem carries_own {env : Env Disk} {p : Packet} {e : Exchange} (valid : e.Valid)
    (bytes : p.bytes = e.marshalled) {id : UInt32} (carries : (Event.packet env p).Carries id) :
    id = wireId e.number := by
  obtain ⟨code, head⟩ := carries
  obtain ⟨⟨d, addr⟩, routed, rest⟩ := Option.bind_eq_some_iff.mp head
  obtain ⟨⟨code', id', data⟩, found, made⟩ := Option.bind_eq_some_iff.mp rest
  cases made
  rw [(Packet.routed_eq routed).1, bytes, valid.marshalled] at found
  obtain ⟨_, own⟩ := header_received (wireId e.number) e.request
  cases own.symm.trans found
  rfl

theorem handled_own {p : Packet} {e : Exchange} {s : State Disk} (valid : e.Valid) (bytes : p.bytes = e.marshalled)
    {id : UInt32} {decoded : Option Request} (ran : p.handled sem s = some (id, decoded)) :
    id = wireId e.number := by
  obtain ⟨⟨d, addr⟩, routed, handles⟩ := Option.bind_eq_some_iff.mp ran
  rw [(Packet.routed_eq routed).1, bytes, valid.marshalled] at handles
  exact (handled_received valid.prompted.encodable handles).1

/-- What is executed for a client's datagram is the client's request. -/
theorem executed_own {p : Packet} {e : Exchange} {s : State Disk} (valid : e.Valid) (bytes : p.bytes = e.marshalled)
    {r : Request} (executed : (p.handled sem s).bind Prod.snd = some r) : r = e.request := by
  obtain ⟨⟨id, decoded⟩, ran, accepted⟩ := Option.bind_eq_some_iff.mp executed
  obtain ⟨⟨d, addr⟩, routed, handles⟩ := Option.bind_eq_some_iff.mp ran
  rw [(Packet.routed_eq routed).1, bytes, valid.marshalled] at handles
  exact (handled_received valid.prompted.encodable handles).2 r accepted

theorem prompted_unwrapped {r : Request} (prompted : Prompted r) : Unwrapped r := by
  cases r with
  | delete req =>
    have offset := prompted.numbers req.offset (by simp [Request.numbers])
    have numBytes := prompted.numbers req.numBytes (by simp [Request.numbers])
    show req.offset.toNat + req.numBytes.toNat < 2 ^ 32
    omega
  | read | write | subscribe | replace | getLastModifiedTime => trivial

/-! ### Deliveries -/

/-- What the handling of a packet does to the table of responses. -/
theorem handlePacket_stores {env : Env Disk} {p : Packet} {s t : State Disk} {out : Handled}
    (done : handlePacket sem env path p s = some (t, out)) :
    (∀ id, (s.messageResponses id).isSome → (t.messageResponses id).isSome) ∧
    (∀ id response, t.messageResponses id = some response → response.head? = some 1 →
      s.messageResponses id = some response ∨
        ∃ r, p.handled sem s = some (id, some r) ∧ out.response = some response) ∧
    ∀ id decoded, p.handled sem s = some (id, decoded) → (t.messageResponses id).isSome := by
  rcases handlePacket_table done with ⟨idle, same⟩ | ⟨id', decoded, reply, ran, output, table, success⟩
  · rw [same, idle]
    refine ⟨fun _ => id, fun _ _ stored _ => .inl stored, ?_⟩
    intro id decoded ran
    contradiction
  · rw [table, ran]
    refine ⟨?_, ?_, ?_⟩
    · intro id stored
      by_cases same : id = id'
      · rw [same, Function.update_self, Option.isSome_some]
      · rwa [Function.update_of_ne same]
    · intro id response stored head
      by_cases same : id = id'
      · subst same
        rw [Function.update_self, Option.some.injEq] at stored
        subst stored
        obtain ⟨r, rfl⟩ := Option.isSome_iff_exists.mp (success head)
        exact .inr ⟨r, rfl, output⟩
      · rw [Function.update_of_ne same] at stored
        exact .inl stored
    · rintro id _ ⟨⟩
      rw [Function.update_self, Option.isSome_some]

theorem mem_notifications_send {effects : List Effect} {d : Datagram} (member : d ∈ notifications effects) :
    .send d.client d.bytes true ∈ effects := by
  obtain ⟨effect, among, made⟩ := List.mem_filterMap.mp member
  split at made
  · cases made
    exact among
  · contradiction

/-- What a delivery does: the packet is handled, what is executed is recorded, and a datagram in
flight was there before, or is the answer given or a notification just sent. -/
structure Delivered (sem : InvocationSemantic) (path : Bytes) (env : Env Disk) (sent : Sent) (p : Packet)
    (w w' : World Disk) (out : Handled) : Prop where
  address : p.clientAddress = sent.client
  done : handlePacket sem env path p w.server = some (w'.server, out)
  executed : w'.executed = w.executed ++ ((p.handled sem w.server).bind Prod.snd).toList.map
    (⟨sent.client, sent.exchange.number, ·⟩)
  replies : ∀ d ∈ w'.toClients, ∀ n, d.origin = .reply n → d ∈ w.toClients ∨
    d.client = sent.client ∧ n = sent.exchange.number ∧ out.response = some d.bytes
  notified : ∀ d ∈ w'.toClients, d.origin = .notification → d ∈ w.toClients ∨
    .send d.client d.bytes true ∈ w'.server.store.trace.drop w.server.store.trace.length

theorem deliver_delivered {env : Env Disk} {sent : Sent} {requests : List Sent}
    {readFails simulateReqLoss simulateReplyLoss sendFails : Bool}
    (delivery : { w with toServer := requests }.deliver sem path env sent readFails simulateReqLoss
      simulateReplyLoss sendFails = some w') :
    ∃ p out, p.bytes = sent.exchange.marshalled ∧ Delivered sem path env sent p w w' out := by
  obtain ⟨⟨server, out⟩, done, made⟩ := Option.bind_eq_some_iff.mp delivery
  cases made
  refine ⟨_, out, rfl, rfl, done, rfl, ?_, ?_⟩
  · intro d member n origin
    rcases List.mem_append.mp member with early | new
    · rcases List.mem_append.mp early with before | notified
      · exact .inl before
      · rw [mem_notifications notified] at origin
        contradiction
    · split at new
      · obtain ⟨response, among, rfl⟩ := List.mem_map.mp new
        cases origin
        exact .inr ⟨rfl, rfl, Option.mem_toList.mp among⟩
      · contradiction
  · intro d member origin
    rcases List.mem_append.mp member with early | reply
    · exact (List.mem_append.mp early).imp_right mem_notifications_send
    · split at reply
      · obtain ⟨response, _, rfl⟩ := List.mem_map.mp reply
        contradiction
      · contradiction

/-! ### Histories -/

/-- An executed request, and its answer. -/
structure Performed where
  execution : Execution
  answer : Answer
  deriving DecidableEq

/-- The message id of the request. -/
def Performed.id (x : Performed) : UInt32 := wireId x.execution.number

/-- What an operation for a client's datagram adds to the history. -/
def Sent.performed (sent : Sent) (op : Operation) : Performed :=
  ⟨⟨sent.client, sent.exchange.number, op.request⟩, op.answer⟩

/-- An executed request as a step of the service. -/
def Performs (locate : Bytes → κ) (path : Bytes) (files : κ → Option Bytes) (x : Performed)
    (files' : κ → Option Bytes) : Prop :=
  Serves files (locate (concatenatePaths path x.execution.request.pathname)) x.execution.request x.answer files'

/-- The history of a network whose files once were `files`. -/
structure Chronicle (sem : InvocationSemantic) (locate : Bytes → κ) (contents : Disk → κ → Option Bytes)
    (path : Bytes) (files : κ → Option Bytes) (w : World Disk) (history : List Performed) : Prop where
  executed : history.map Performed.execution = w.executed
  trace : Trace (Performs locate path) files history (contents w.server.store.disk)
  stored : ∀ x ∈ history, (w.server.messageResponses x.id).isSome
  /-- A stored success is the answer of an executed request with the message id. -/
  responses : ∀ id response, w.server.messageResponses id = some response → response.head? = some 1 →
    ∃ x ∈ history, x.id = id ∧ response = x.answer.bytes
  /-- So is a success in flight, and at least once it is that of the very request. -/
  replies : ∀ d ∈ w.toClients, ∀ n, d.origin = .reply n → d.bytes.head? = some 1 →
    ∃ x ∈ history, x.id = wireId n ∧ d.bytes = x.answer.bytes ∧
      (sem = .atLeastOnce → x.execution.client = d.client ∧ x.execution.number = n)
  once : sem = .atMostOnce → (history.map Performed.id).Nodup

variable {files : κ → Option Bytes} {history : List Performed}

theorem World.Initial.chronicle (initial : w.Initial) :
    Chronicle sem locate contents path (contents w.server.store.disk) w [] where
  executed := initial.executed.symm
  trace := .nil _
  stored := nofun
  responses id response stored := by
    rw [initial.responses] at stored
    contradiction
  replies d member := by
    rw [initial.toClients] at member
    contradiction
  once _ := List.nodup_nil

namespace Chronicle

theorem kept (chronicle : Chronicle sem locate contents path files w history)
    (disk : w'.server.store.disk = w.server.store.disk)
    (responses : w'.server.messageResponses = w.server.messageResponses)
    (executed : w'.executed = w.executed) (toClients : w'.toClients ⊆ w.toClients) :
    Chronicle sem locate contents path files w' history where
  executed := chronicle.executed.trans executed.symm
  trace := disk ▸ chronicle.trace
  stored := responses ▸ chronicle.stored
  responses := responses ▸ chronicle.responses
  replies d member := chronicle.replies d (toClients member)
  once := chronicle.once

/-- A request is executed: it is the last of the history. -/
theorem extended {env : Env Disk} {p : Packet} {sent : Sent} {out : Handled} {op : Operation}
    (chronicle : Chronicle sem locate contents path files w history) (valid : sent.exchange.Valid)
    (bytes : p.bytes = sent.exchange.marshalled) (delivered : Delivered sem path env sent p w w' out)
    (accepts : Accepts locate path (contents w.server.store.disk) (some op) (contents w'.server.store.disk))
    (explained : Explains sem w.server (.packet env p) out (some op)) :
    Chronicle sem locate contents path files w'
      (history ++ [sent.performed op]) := by
  have executed : (p.handled sem w.server).bind Prod.snd = some op.request := explained_request explained
  obtain ⟨⟨id, decoded⟩, ran, _⟩ := Option.bind_eq_some_iff.mp executed
  obtain ⟨grows, successes, storing⟩ := handlePacket_stores delivered.done
  cases explained with
  | executed id' op request fresh response =>
    obtain ⟨rfl, same⟩ := request_own valid bytes request
    obtain rfl := handled_own valid bytes ran
    constructor
    case executed =>
      rw [List.map_append, chronicle.executed, delivered.executed, executed]
      rfl
    case trace => exact chronicle.trace.append (.cons accepts (.nil _))
    case stored =>
      refine List.forall_mem_append.mpr ⟨fun x member => grows _ (chronicle.stored x member), ?_⟩
      exact List.forall_mem_singleton.mpr (storing _ _ ran)
    case responses =>
      intro id reply stored head
      rcases successes id reply stored head with before | ⟨r, ran', output⟩
      · obtain ⟨x, among, rest⟩ := chronicle.responses id reply before head
        exact ⟨x, List.mem_append_left _ among, rest⟩
      · obtain rfl := handled_own valid bytes ran'
        obtain rfl := Option.some.inj (response.symm.trans output)
        exact ⟨_, List.mem_append_right _ (List.mem_singleton.mpr rfl), rfl, rfl⟩
    case replies =>
      intro d member n origin head
      rcases delivered.replies d member n origin with before | ⟨client, rfl, output⟩
      · obtain ⟨x, among, rest⟩ := chronicle.replies d before n origin head
        exact ⟨x, List.mem_append_left _ among, rest⟩
      · have answer := Option.some.inj (output.symm.trans response)
        exact ⟨_, List.mem_append_right _ (List.mem_singleton.mpr rfl), rfl, answer, fun _ => ⟨client.symm, rfl⟩⟩
    case once =>
      rintro rfl
      rw [List.map_append]
      refine List.nodup_append.mpr ⟨chronicle.once rfl, List.pairwise_singleton _ _, ?_⟩
      rintro id before _ last rfl
      obtain ⟨x, among, rfl⟩ := List.mem_map.mp before
      have known := chronicle.stored x among
      rw [List.mem_singleton.mp last] at known
      rw [State.storedResponse] at fresh
      rw [Performed.id, Sent.performed, fresh] at known
      contradiction

/-- Nothing is executed: a success is one that was stored before. -/
theorem repeated {env : Env Disk} {p : Packet} {sent : Sent} {out : Handled}
    (chronicle : Chronicle sem locate contents path files w history) (valid : sent.exchange.Valid)
    (bytes : p.bytes = sent.exchange.marshalled) (delivered : Delivered sem path env sent p w w' out)
    (accepts : Accepts locate path (contents w.server.store.disk) none (contents w'.server.store.disk))
    (explained : Explains sem w.server (.packet env p) out none) :
    Chronicle sem locate contents path files w' history := by
  have executed : (p.handled sem w.server).bind Prod.snd = none := explained_request explained
  obtain ⟨grows, successes, _⟩ := handlePacket_stores delivered.done
  constructor
  case executed =>
    rw [chronicle.executed, delivered.executed, executed]
    exact (List.append_nil _).symm
  case trace => exact accepts ▸ chronicle.trace
  case stored => exact fun x member => grows _ (chronicle.stored x member)
  case once => exact chronicle.once
  case responses =>
    intro id response stored head
    rcases successes id response stored head with before | ⟨r, ran, _⟩
    · exact chronicle.responses id response before head
    · rw [ran] at executed
      contradiction
  case replies =>
    intro d member n origin head
    rcases delivered.replies d member n origin with before | ⟨client, rfl, response⟩
    · exact chronicle.replies d before n origin head
    · cases explained with
      | refused _ fails => exact absurd head (fails _ response)
      | repeated id reply carries stored same =>
        obtain rfl := carries_own valid bytes carries
        cases sem with
        | atLeastOnce => contradiction
        | atMostOnce =>
          obtain rfl := Option.some.inj (same.symm.trans response)
          obtain ⟨x, among, id, answer⟩ := chronicle.responses _ _ stored head
          refine ⟨x, among, id, answer, ?_⟩
          intro least
          contradiction

/-- The server handles a request datagram: the request is added to the history if it is executed. -/
theorem delivered {env : Env Disk} {p : Packet} {sent : Sent} {out : Handled}
    (chronicle : Chronicle sem locate contents path files w history) (valid : sent.exchange.Valid)
    (lawful : env.os.Lawful locate contents) (bytes : p.bytes = sent.exchange.marshalled)
    (delivered : Delivered sem path env sent p w w' out) :
    ∃ label : Option Operation,
      Accepts locate path (contents w.server.store.disk) label (contents w'.server.store.disk) ∧
      Explains sem w.server (.packet env p) out label ∧
      Chronicle sem locate contents path files w' (history ++ label.toList.map sent.performed) := by
  have fine : ∀ env' p', Event.packet env p = .packet env' p' → env'.os.Lawful locate contents := by
    rintro _ _ ⟨⟩
    exact lawful
  have unwrapped : ∀ id r, (Event.packet env p).request? = some (id, r) → Unwrapped r := by
    intro id r request
    rw [(request_own valid bytes request).2]
    exact prompted_unwrapped valid.prompted
  obtain ⟨label, accepts, explained⟩ := serverStep_serves fine unwrapped delivered.done
  refine ⟨label, accepts, explained, ?_⟩
  cases label with
  | none =>
    rw [Option.toList_none, List.map_nil, List.append_nil]
    exact chronicle.repeated valid bytes delivered accepts explained
  | some op => exact chronicle.extended valid bytes delivered accepts explained

end Chronicle

/-- What a step adds to the history: nothing, or what is executed for a request datagram. -/
inductive Recorded (sem : InvocationSemantic) (locate : Bytes → κ) (contents : Disk → κ → Option Bytes)
    (path : Bytes) (w w' : World Disk) : List Performed → Prop where
  | quiet (store : w'.server.store = w.server.store ∨ ∃ k, fireTimer w.server.store k = some w'.server.store)
      (responses : w'.server.messageResponses = w.server.messageResponses) (toClients : w'.toClients ⊆ w.toClients) :
      Recorded sem locate contents path w w' []
  | delivers (env : Env Disk) (sent : Sent) (p : Packet) (out : Handled) (label : Option Operation)
      (valid : sent.exchange.Valid) (lawful : env.os.Lawful locate contents)
      (bytes : p.bytes = sent.exchange.marshalled) (delivered : Delivered sem path env sent p w w' out)
      (accepts : Accepts locate path (contents w.server.store.disk) label (contents w'.server.store.disk))
      (explained : Explains sem w.server (.packet env p) out label) :
      Recorded sem locate contents path w w' (label.toList.map sent.performed)

theorem Chronicle.step {o : Option Taken} (chronicle : Chronicle sem locate contents path files w history)
    (genuine : Genuine w)
    (lawful : ∀ i env readFails simulateReqLoss simulateReplyLoss sendFails,
      a = .deliver i env readFails simulateReqLoss simulateReplyLoss sendFails → env.os.Lawful locate contents)
    (stepped : networkStep sem path w a = some (w', o)) :
    ∃ more, Recorded sem locate contents path w w' more ∧
      Chronicle sem locate contents path files w' (history ++ more) := by
  cases networkStep_moved genuine.current stepped with
  | quiet store responses executed toClients =>
    refine ⟨[], .quiet store responses toClients, ?_⟩
    rw [List.append_nil]
    exact chronicle.kept (quiet_disk store) responses executed toClients
  | delivers i env _ _ _ _ action sent inFlight delivery =>
    have valid := genuine.sent sent inFlight
    have fine := lawful _ _ _ _ _ _ action
    obtain ⟨p, out, bytes, delivered⟩ := deliver_delivered delivery
    obtain ⟨label, accepts, explained, after⟩ := chronicle.delivered valid fine bytes delivered
    exact ⟨_, .delivers env sent p out label valid fine bytes delivered accepts explained, after⟩

theorem along_lawful {start : World Disk} {as : List (Action Disk)}
    (lawful : ∀ i env readFails simulateReqLoss simulateReplyLoss sendFails,
      .deliver i env readFails simulateReqLoss simulateReplyLoss sendFails ∈ as → env.os.Lawful locate contents) :
    Along (networkStep sem path) (fun _ a => ∀ i env readFails simulateReqLoss simulateReplyLoss sendFails,
      a = .deliver i env readFails simulateReqLoss simulateReplyLoss sendFails → env.os.Lawful locate contents)
      start as := by
  apply along_of_forall
  rintro a member i env readFails simulateReqLoss simulateReplyLoss sendFails rfl
  exact lawful _ _ _ _ _ _ member

/-- In every network, under either semantics, with clients that send what is typed at their
prompts: the files are what the executed requests, one after the other and each with the
effect that its answer tells, have made of the files at the start. A success in flight is
the answer of an executed request with the same message id, at least once that of the very
request. At most once no message id is executed twice. -/
theorem network_serves {start : World Disk} {as : List (Action Disk)} {outs : List (Option Taken)}
    (initial : start.Initial)
    (lawful : ∀ i env readFails simulateReqLoss simulateReplyLoss sendFails,
      .deliver i env readFails simulateReqLoss simulateReplyLoss sendFails ∈ as → env.os.Lawful locate contents)
    (ran : run (networkStep sem path) start as = some (w, outs)) :
    ∃ history : List Performed, history.map Performed.execution = w.executed ∧
      Trace (Performs locate path) (contents start.server.store.disk) history (contents w.server.store.disk) ∧
      (∀ d ∈ w.toClients, ∀ n, d.origin = .reply n → d.bytes.head? = some 1 →
        ∃ x ∈ history, x.id = wireId n ∧ d.bytes = x.answer.bytes ∧
          (sem = .atLeastOnce → x.execution.client = d.client ∧ x.execution.number = n)) ∧
      (sem = .atMostOnce → (history.map Performed.id).Nodup) := by
  suffices invariant : Genuine w ∧ ∃ history,
      Chronicle sem locate contents path (contents start.server.store.disk) w history by
    obtain ⟨_, history, chronicle⟩ := invariant
    exact ⟨history, chronicle.executed, chronicle.trace, chronicle.replies, chronicle.once⟩
  refine run_invariant (P := fun w => Genuine w ∧ ∃ history,
    Chronicle sem locate contents path (contents start.server.store.disk) w history) ?_
    ⟨initial.genuine, [], initial.chronicle⟩ (along_lawful lawful) ran
  rintro v a v' o ⟨genuine, history, chronicle⟩ fine stepped
  obtain ⟨more, _, after⟩ := chronicle.step genuine fine stepped
  exact ⟨genuine.preserved (networkStep_moved genuine.current stepped), history ++ more, after⟩

/-- The file system keeps byte strings while the action is carried out. -/
def Action.Lawful (locate : Bytes → κ) (contents : Disk → κ → Option Bytes) : Action Disk → Prop
  | .deliver _ env _ _ _ _ => env.os.Lawful locate contents
  | _ => True

theorem lawful_of_forall {as : List (Action Disk)} (all : as.Forall (Action.Lawful locate contents)) :
    ∀ i env readFails simulateReqLoss simulateReplyLoss sendFails,
      .deliver i env readFails simulateReqLoss simulateReplyLoss sendFails ∈ as → env.os.Lawful locate contents := by
  intro i env readFails simulateReqLoss simulateReplyLoss sendFails member
  exact List.forall_iff_forall_mem.mp all _ member

theorem env_lawful (clock : Int) : (FileSystem.env Faults.none clock).os.Lawful id FileSystem.bytes :=
  FileSystem.lawful rfl

theorem lateDuplicate_lawful : ∀ i env readFails simulateReqLoss simulateReplyLoss sendFails,
    Action.deliver i env readFails simulateReqLoss simulateReplyLoss sendFails ∈ lateDuplicate →
    env.os.Lawful id FileSystem.bytes :=
  lawful_of_forall (by simp [lateDuplicate, arrives, Action.Lawful, env_lawful])

/-- The first write is executed once, though it is delivered twice; the second one is lost. -/
theorem network_serves_lateDuplicate : ∃ (w : World FileSystem) (outs : List (Option Taken)) (history : List Performed),
    run (networkStep .atMostOnce []) idleWorld lateDuplicate = some (w, outs) ∧
    history.map Performed.execution = [⟨soleClient, 0, .write ⟨text "a", 0, text "x"⟩⟩] ∧
    Trace (Performs id []) (FileSystem.bytes idleWorld.server.store.disk) history
      (FileSystem.bytes w.server.store.disk) ∧
    FileSystem.bytes w.server.store.disk (text "/a") = some (text "x123") := by
  have outcome : (run (networkStep .atMostOnce []) idleWorld lateDuplicate).map (fun (w, _) =>
      (w.executed, FileSystem.bytes w.server.store.disk (text "/a"))) =
      some ([⟨soleClient, 0, .write ⟨text "a", 0, text "x"⟩⟩], some (text "x123")) := by
    decide +kernel
  obtain ⟨⟨w, outs⟩, ran, made⟩ := Option.map_eq_some_iff.mp outcome
  obtain ⟨executed, file⟩ := Prod.mk.inj made
  obtain ⟨history, same, trace, _⟩ := network_serves idleWorld_initial lateDuplicate_lawful ran
  exact ⟨w, outs, history, ran, same.trans executed, trace, file⟩

end RemoteFile.System
