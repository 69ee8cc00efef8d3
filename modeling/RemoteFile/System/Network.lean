import RemoteFile.Client.Exchanges
import RemoteFile.Server.AtMostOnce

/-! The server, its clients and the datagrams between them. A datagram in flight
may be delivered at any time, in any order, or never; retransmissions put further
copies in flight. Datagrams carry, for the record only, the request they belong
to: the wire format has no such field in a reply. -/
namespace RemoteFile.System
open Octets Go Transition Server Client

variable {Disk : Type}

/-- A request datagram, with the exchange that sent it. -/
structure Sent where
  client : UDPAddr
  exchange : Exchange
  deriving DecidableEq

inductive Origin where
  /-- `RouteRequest` returned it for the client's request with this number. -/
  | reply (number : Nat)
  | notification
  deriving DecidableEq

/-- A datagram on its way to a client's socket. -/
structure Datagram where
  client : UDPAddr
  bytes : Bytes
  origin : Origin
  deriving DecidableEq

/-- A call of a service with a client's request. -/
structure Execution where
  client : UDPAddr
  number : Nat
  request : Request
  deriving DecidableEq

def Sent.execution (s : Sent) : Execution := ⟨s.client, s.exchange.number, s.exchange.request⟩

structure World (Disk : Type) where
  server : State Disk
  clients : UDPAddr → Program
  toServer : List Sent
  toClients : List Datagram
  executed : List Execution
  /-- Whose response is stored under a message id. -/
  recorded : UInt32 → Option Sent

inductive Action (Disk : Type) where
  | command (client : UDPAddr) (now : Int) (input : Input)
  | transmit (client : UDPAddr) (sendFails : Bool)
  | timeout (client : UDPAddr)
  | deliver (i : Nat) (env : Env Disk) (readFails simulateReqLoss simulateReplyLoss sendFails : Bool)
  | loseRequest (i : Nat)
  | loseDatagram (i : Nat)
  | take (client : UDPAddr) (now : Int) (i : Nat)
  | listen (client : UDPAddr) (now : Int) (i : Option Nat)
  | expire (k : Nat)

/-- A datagram that a client took as the reply of an exchange, and what it told
its user then. -/
structure Taken where
  client : UDPAddr
  exchange : Exchange
  origin : Origin
  bytes : Bytes
  notices : List Notice
  deriving DecidableEq

def World.setClient (w : World Disk) (client : UDPAddr) (p : Program) : World Disk :=
  { w with clients := Function.update w.clients client p }

/-- A datagram in flight to the client's socket. -/
def World.arriving (w : World Disk) (client : UDPAddr) (i : Nat) : Option Datagram :=
  w.toClients[i]?.filter fun d => d.client = client

def notifications (effects : List Effect) : List Datagram :=
  effects.filterMap fun
    | .send addr content true => some ⟨addr, content, .notification⟩
    | _ => none

/-- The server handles a request datagram. -/
def World.deliver (sem : InvocationSemantic) (path : Bytes) (env : Env Disk) (sent : Sent)
    (readFails simulateReqLoss simulateReplyLoss sendFails : Bool) (w : World Disk) :
    Option (World Disk) := do
  let p : Packet := { clientAddress := sent.client, bytes := sent.exchange.marshalled,
                      readFails, simulateReqLoss, simulateReplyLoss, sendFails }
  let (server, out) ← handlePacket sem env path p w.server
  let ran := p.routed.bind fun (d, _) => handled sem d w.server
  let reply := if out.sent then out.response.toList.map
    (⟨sent.client, ·, .reply sent.exchange.number⟩) else []
  some { w with
    server
    toClients := w.toClients ++
      notifications (server.store.trace.drop w.server.store.trace.length) ++ reply
    executed := w.executed ++ (ran.bind Prod.snd).toList.map
      (⟨sent.client, sent.exchange.number, ·⟩)
    recorded := match ran with
      | some (id, _) => Function.update w.recorded id (some sent)
      | none => w.recorded }

def networkStep (sem : InvocationSemantic) (path : Bytes) (w : World Disk) :
    Action Disk → Option (World Disk × Option Taken)
  | .command client now input => do
    let p ← (w.clients client).command now input.command
    some (w.setClient client p, none)
  | .transmit client sendFails => do
    let (p, sent) ← (w.clients client).transmit sendFails
    some ({ w.setClient client p with toServer := w.toServer ++ sent.toList.map (⟨client, ·⟩) }, none)
  | .timeout client => do
    let p ← (w.clients client).timeout
    some (w.setClient client p, none)
  | .deliver i env readFails simulateReqLoss simulateReplyLoss sendFails => do
    let sent ← w.toServer[i]?
    let w ← { w with toServer := w.toServer.eraseIdx i }.deliver sem path env sent
      readFails simulateReqLoss simulateReplyLoss sendFails
    some (w, none)
  | .loseRequest i => some ({ w with toServer := w.toServer.eraseIdx i }, none)
  | .loseDatagram i => some ({ w with toClients := w.toClients.eraseIdx i }, none)
  | .take client now i => do
    let d ← w.arriving client i
    let e ← (w.clients client).exchange?
    let p ← (w.clients client).take now d.bytes
    some ({ w.setClient client p with toClients := w.toClients.eraseIdx i },
      some ⟨client, e, d.origin, d.bytes, p.screen.drop (w.clients client).screen.length⟩)
  | .listen client now none => do
    let p ← (w.clients client).listen now none
    some (w.setClient client p, none)
  | .listen client now (some i) => do
    let d ← w.arriving client i
    let p ← (w.clients client).listen now (some d.bytes)
    some ({ w.setClient client p with toClients := w.toClients.eraseIdx i }, none)
  | .expire k => do
    let store ← fireTimer w.server.store k
    some ({ w with server := { w.server with store } }, none)

theorem World.arriving_iff {w : World Disk} {client : UDPAddr} {i : Nat} {d : Datagram} :
    w.arriving client i = some d ↔ w.toClients[i]? = some d ∧ d.client = client := by
  simp [World.arriving, Option.filter_eq_some_iff]

/-- Nothing has happened yet; the server may hold any files and subscriptions. -/
structure World.Initial (w : World Disk) : Prop where
  responses : w.server.messageResponses = fun _ => none
  clients : ∀ c, w.clients c = Program.start (w.clients c).fInterval
  toServer : w.toServer = []
  toClients : w.toClients = []
  executed : w.executed = []
  recorded : w.recorded = fun _ => none

/-- A step after which leftovers of earlier requests cannot reach a waiting
client. A client begins a request only when none of its datagrams is in flight,
either way; no notification is in flight to a client during an exchange; and
under at-most-once no request arrives under an id recorded for another one. -/
structure Undisturbed (sem : InvocationSemantic) (path : Bytes) (w : World Disk) (a : Action Disk) :
    Prop where
  begins : ∀ w' t, networkStep sem path w a = some (w', t) → ∀ c,
    (w'.clients c).requests ≠ (w.clients c).requests →
    (∀ s ∈ w'.toServer, s.client ≠ c) ∧ ∀ d ∈ w'.toClients, d.client ≠ c
  notified : ∀ w' t, networkStep sem path w a = some (w', t) →
    ∀ d ∈ w'.toClients, d.origin = .notification → (w'.clients d.client).exchange? = none
  stored : ∀ i env readFails simulateReqLoss simulateReplyLoss sendFails s other,
    a = .deliver i env readFails simulateReqLoss simulateReplyLoss sendFails →
    sem = .atMostOnce → w.toServer[i]? = some s →
    w.recorded (wireId s.exchange.number) = some other → other = s

/-- The client that a step may begin an exchange for. -/
def Action.asker? : Action Disk → Option UDPAddr
  | command client _ _ | take client _ _ => some client
  | _ => none

theorem setClient_clients {w : World Disk} {client c : UDPAddr} {p : Program} (other : c ≠ client) :
    (w.setClient client p).clients c = w.clients c := Function.update_of_ne other ..

theorem setClient_requests {w : World Disk} {client : UDPAddr} {p : Program}
    (same : p.requests = (w.clients client).requests) (c : UDPAddr) :
    ((w.setClient client p).clients c).requests = (w.clients c).requests := by
  by_cases own : c = client
  · subst own
    simpa only [World.setClient, Function.update_self] using same
  · rw [setClient_clients own]

theorem networkStep_requests {sem : InvocationSemantic} {path : Bytes} {w w' : World Disk}
    {a : Action Disk} {t : Option Taken} (stepped : networkStep sem path w a = some (w', t))
    {c : UDPAddr} (other : a.asker? ≠ some c) : (w'.clients c).requests = (w.clients c).requests := by
  cases a with
  | command client now input =>
    obtain ⟨p, _, made⟩ := Option.bind_eq_some_iff.mp stepped
    cases made
    rw [setClient_clients fun same => other (congrArg some same.symm)]
  | take client now i =>
    obtain ⟨d, _, rest⟩ := Option.bind_eq_some_iff.mp stepped
    obtain ⟨e, _, rest⟩ := Option.bind_eq_some_iff.mp rest
    obtain ⟨p, _, made⟩ := Option.bind_eq_some_iff.mp rest
    cases made
    exact congrArg Program.requests (setClient_clients fun same => other (congrArg some same.symm))
  | transmit client sendFails =>
    obtain ⟨⟨p, sent⟩, transmitted, made⟩ := Option.bind_eq_some_iff.mp stepped
    cases made
    exact setClient_requests (Program.transmit_cases transmitted).2.1 c
  | timeout client =>
    obtain ⟨p, timedOut, made⟩ := Option.bind_eq_some_iff.mp stepped
    cases made
    exact setClient_requests (Program.timeout_same timedOut).2 c
  | deliver i env readFails simulateReqLoss simulateReplyLoss sendFails =>
    obtain ⟨sent, _, rest⟩ := Option.bind_eq_some_iff.mp stepped
    obtain ⟨v, delivery, made⟩ := Option.bind_eq_some_iff.mp rest
    obtain ⟨_, _, unchanged⟩ := Option.bind_eq_some_iff.mp delivery
    cases made
    cases unchanged
    rfl
  | loseRequest i | loseDatagram i =>
    cases stepped
    rfl
  | expire k =>
    obtain ⟨store, _, made⟩ := Option.bind_eq_some_iff.mp stepped
    cases made
    rfl
  | listen client now i =>
    cases i with
    | none =>
      obtain ⟨p, listened, made⟩ := Option.bind_eq_some_iff.mp stepped
      cases made
      exact setClient_requests (Program.listen_ends listened).2.requests c
    | some i =>
      obtain ⟨d, _, rest⟩ := Option.bind_eq_some_iff.mp stepped
      obtain ⟨p, listened, made⟩ := Option.bind_eq_some_iff.mp rest
      cases made
      exact setClient_requests (Program.listen_ends listened).2.requests c

/-- Whether a step is undisturbed, evaluated. -/
def undisturbed (sem : InvocationSemantic) (path : Bytes) (w : World Disk) (a : Action Disk) : Bool :=
  (match networkStep sem path w a with
    | none => true
    | some (w', _) =>
      (match a.asker? with
        | none => true
        | some c => decide ((w'.clients c).requests = (w.clients c).requests) ||
            (w'.toServer.all (fun s => decide (s.client ≠ c)) &&
              w'.toClients.all fun d => decide (d.client ≠ c))) &&
      w'.toClients.all fun d =>
        decide (d.origin ≠ .notification) || (w'.clients d.client).exchange?.isNone) &&
  match a with
  | .deliver i _ _ _ _ _ =>
    match w.toServer[i]? with
    | none => true
    | some s => decide (sem = .atLeastOnce) ||
        (w.recorded (wireId s.exchange.number)).all fun other => decide (other = s)
  | _ => true

theorem undisturbed_sound {sem : InvocationSemantic} {path : Bytes} {w : World Disk} {a : Action Disk}
    (checked : undisturbed sem path w a = true) : Undisturbed sem path w a := by
  obtain ⟨steps, stored⟩ := Bool.and_eq_true_iff.mp checked
  constructor
  · intro w' t stepped c different
    rw [stepped] at steps
    obtain ⟨begins, _⟩ := Bool.and_eq_true_iff.mp steps
    by_cases asks : a.asker? = some c
    · simpa [asks, different] using begins
    · exact absurd (networkStep_requests stepped asks) different
  · intro w' t stepped d member notification
    rw [stepped] at steps
    obtain ⟨_, silent⟩ := Bool.and_eq_true_iff.mp steps
    simpa [notification] using List.all_eq_true.mp silent d member
  · rintro i env readFails simulateReqLoss simulateReplyLoss sendFails s other rfl rfl inFlight recorded
    simpa [inFlight, recorded] using stored

/-- What holds between the steps of an undisturbed run. -/
structure Settled (w : World Disk) : Prop where
  exchanges : ∀ c e, (w.clients c).exchange? = some e → e.Valid
  inFlight : ∀ s ∈ w.toServer, s.exchange.Valid ∧
    ∀ e, (w.clients s.client).exchange? = some e → s.exchange = e
  replies : ∀ d ∈ w.toClients, ∀ e, (w.clients d.client).exchange? = some e →
    d.origin = .reply e.number ∧
      (d.bytes.head? = some 1 → ⟨d.client, e.number, e.request⟩ ∈ w.executed)
  recorded : ∀ id response, w.server.messageResponses id = some response →
    response.head? = some 1 → ∃ s, w.recorded id = some s ∧ s.execution ∈ w.executed

theorem World.Initial.settled {w : World Disk} (start : w.Initial) : Settled w where
  exchanges c e current := by
    rw [start.clients c] at current
    contradiction
  inFlight s member := by
    rw [start.toServer] at member
    contradiction
  replies d member := by
    rw [start.toClients] at member
    contradiction
  recorded id response stored := by
    rw [start.responses] at stored
    contradiction

/-- What a delivery to the server can do: a datagram that it sends is a
notification or the answer to this request, and a success rests on a call of the
service with this request, unless it was stored before. -/
structure Delivery (sem : InvocationSemantic) (w : World Disk) (sent : Sent) (w' : World Disk) : Prop where
  clients : w'.clients = w.clients
  toServer : w'.toServer = w.toServer
  executed : w.executed ⊆ w'.executed
  datagrams : ∀ d ∈ w'.toClients, d ∈ w.toClients ∨ d.origin = .notification ∨
    (d.client = sent.client ∧ d.origin = .reply sent.exchange.number ∧
      (d.bytes.head? = some 1 → sent.execution ∈ w'.executed ∨
        (sem = .atMostOnce ∧ w.server.messageResponses (wireId sent.exchange.number) = some d.bytes)))
  recorded : ∀ id response, w'.server.messageResponses id = some response → response.head? = some 1 →
    (w.server.messageResponses id = some response ∧ w'.recorded id = w.recorded id) ∨
      (w'.recorded id = some sent ∧ sent.execution ∈ w'.executed)

theorem mem_notifications {effects : List Effect} {d : Datagram} (member : d ∈ notifications effects) :
    d.origin = .notification := by
  obtain ⟨effect, _, made⟩ := List.mem_filterMap.mp member
  split at made
  · cases made
    rfl
  · contradiction

theorem deliver_spec {sem : InvocationSemantic} {path : Bytes} {env : Env Disk} {sent : Sent}
    {readFails simulateReqLoss simulateReplyLoss sendFails : Bool} {w w' : World Disk}
    (valid : sent.exchange.Valid)
    (delivery : w.deliver sem path env sent readFails simulateReqLoss simulateReplyLoss sendFails =
      some w') : Delivery sem w sent w' := by
  obtain ⟨⟨server, out⟩, ran, made⟩ := Option.bind_eq_some_iff.mp delivery
  rw [handlePacket_eq] at ran
  dsimp only at ran made
  cases routed : Packet.routed ⟨sent.client, sent.exchange.marshalled, readFails, simulateReqLoss,
      simulateReplyLoss, sendFails⟩ with
  | none =>
    rw [routed] at ran made
    cases ran
    cases made
    refine ⟨rfl, rfl, List.subset_append_left _ _, ?_, fun id response kept _ => .inl ⟨kept, rfl⟩⟩
    intro d member
    left
    simpa [notifications] using member
  | some arrival =>
    obtain ⟨d, addr⟩ := arrival
    have whole : d = received sent.exchange.marshalled := by
      simp only [Packet.routed, readFromClient] at routed
      split at routed <;> try contradiction
      split at routed <;> cases routed
      rfl
    rw [valid.marshalled] at whole
    subst whole
    rw [routed] at ran made
    obtain ⟨⟨t, response⟩, answered, same⟩ := Option.map_eq_some_iff.mp ran
    cases same
    have answer : ∀ (d : Datagram) (flag : Bool), d ∈ (if flag then (some response).toList.map
        (⟨sent.client, ·, .reply sent.exchange.number⟩) else [] : List Datagram) →
        d = ⟨sent.client, response, .reply sent.exchange.number⟩ := by
      intro d flag member
      cases flag with
      | true => simpa using member
      | false => contradiction
    rcases routeRequest_cases answered with ⟨idle, rfl, head⟩ | ⟨id, decoded, ran, table, success⟩
    · rw [Option.bind_some, idle] at made
      cases made
      refine ⟨rfl, rfl, List.subset_append_left _ _, ?_, fun id response kept _ => .inl ⟨kept, rfl⟩⟩
      intro d member
      rcases List.mem_append.mp member with early | new
      · exact (List.mem_append.mp early).imp_right fun new => .inl (mem_notifications new)
      · obtain rfl := answer d _ new
        refine .inr (.inr ⟨rfl, rfl, fun one => ?_⟩)
        rcases head with no | ⟨code, id, data, header, stored⟩
        · exact absurd one no
        · obtain ⟨_, own⟩ := header_received (wireId sent.exchange.number) sent.exchange.request
          cases own.symm.trans header
          cases sem with
          | atLeastOnce => contradiction
          | atMostOnce => exact .inr ⟨rfl, stored⟩
    · rw [Option.bind_some, ran] at made
      obtain ⟨rfl, own⟩ := handled_received valid.prompted.encodable ran
      cases made
      have executed : response.head? = some 1 → sent.execution ∈ w.executed ++
          (((some (wireId sent.exchange.number, decoded)).bind Prod.snd).toList.map
            (⟨sent.client, sent.exchange.number, ·⟩)) := by
        intro one
        obtain ⟨r, decodes⟩ := Option.isSome_iff_exists.mp (success one)
        rw [decodes, own r decodes]
        simp [Sent.execution]
      refine ⟨rfl, rfl, List.subset_append_left _ _, ?_, ?_⟩
      · intro d member
        rcases List.mem_append.mp member with early | new
        · exact (List.mem_append.mp early).imp_right fun new => .inl (mem_notifications new)
        · obtain rfl := answer d _ new
          exact .inr (.inr ⟨rfl, rfl, fun one => .inl (executed one)⟩)
      · intro id reply kept one
        by_cases same : id = wireId sent.exchange.number
        · subst same
          rw [table, Function.update_self] at kept
          cases kept
          exact .inr ⟨Function.update_self .., executed one⟩
        · rw [table, Function.update_of_ne same] at kept
          exact .inl ⟨kept, Function.update_of_ne same ..⟩

namespace Settled

variable {w : World Disk} {client : UDPAddr} {p : Program}

/-- A client's exchange begins or ends, and it may have taken a datagram. -/
theorem moved {rest : List Datagram} (settled : Settled w) (moves : (w.clients client).Moves p)
    (fewer : rest ⊆ w.toClients)
    (quiet : p.requests ≠ (w.clients client).requests →
      (∀ s ∈ w.toServer, s.client ≠ client) ∧ ∀ d ∈ rest, d.client ≠ client) :
    Settled { w.setClient client p with toClients := rest } := by
  have own : ∀ e, p.exchange? = some e → e.Valid ∧ p.requests ≠ (w.clients client).requests := by
    intro e current
    rcases moves with ⟨ended, _⟩ | ⟨e', begun, requests, _, valid⟩
    · rw [ended] at current
      contradiction
    · obtain rfl := Option.some.inj (current.symm.trans begun)
      exact ⟨valid, by omega⟩
  constructor
  · intro c e current
    by_cases same : c = client
    · subst same
      simp only [World.setClient, Function.update_self] at current
      exact (own e current).1
    · simp only [World.setClient, Function.update_of_ne same] at current
      exact settled.exchanges c e current
  · intro s member
    obtain ⟨valid, matching⟩ := settled.inFlight s member
    refine ⟨valid, fun e current => ?_⟩
    by_cases same : s.client = client
    · simp only [World.setClient, same, Function.update_self] at current
      exact absurd same ((quiet (own e current).2).1 s member)
    · simp only [World.setClient, Function.update_of_ne same] at current
      exact matching e current
  · intro d member e current
    by_cases same : d.client = client
    · simp only [World.setClient, same, Function.update_self] at current
      exact absurd same ((quiet (own e current).2).2 d member)
    · simp only [World.setClient, Function.update_of_ne same] at current
      exact settled.replies d (fewer member) e current
  · exact settled.recorded

/-- A client goes round a retry loop. -/
theorem retried (settled : Settled w) (same : p.exchange? = (w.clients client).exchange?) :
    Settled (w.setClient client p) := by
  have unchanged : ∀ c, ((w.setClient client p).clients c).exchange? = (w.clients c).exchange? := by
    intro c
    by_cases equal : c = client
    · subst equal
      simp only [World.setClient, Function.update_self, same]
    · simp only [World.setClient, Function.update_of_ne equal]
  constructor
  · intro c e current
    exact settled.exchanges c e (unchanged c ▸ current)
  · intro s member
    refine ⟨(settled.inFlight s member).1, fun e current => ?_⟩
    exact (settled.inFlight s member).2 e (unchanged s.client ▸ current)
  · intro d member e current
    exact settled.replies d member e (unchanged d.client ▸ current)
  · exact settled.recorded

theorem transmitted (settled : Settled w) {sent : Option Exchange}
    (current : ∀ e, sent = some e → (w.clients client).exchange? = some e) :
    Settled { w with toServer := w.toServer ++ sent.toList.map (⟨client, ·⟩) } := by
  refine ⟨settled.exchanges, ?_, settled.replies, settled.recorded⟩
  intro s member
  rcases List.mem_append.mp member with before | new
  · exact settled.inFlight s before
  · obtain ⟨e, among, rfl⟩ := List.mem_map.mp new
    have own := current e (Option.mem_toList.mp among)
    exact ⟨settled.exchanges client e own, fun e' also => Option.some.inj (own.symm.trans also)⟩

theorem lost (settled : Settled w) {requests : List Sent} {datagrams : List Datagram}
    (fewer : requests ⊆ w.toServer) (fewer' : datagrams ⊆ w.toClients) :
    Settled { w with toServer := requests, toClients := datagrams } :=
  ⟨settled.exchanges, fun s member => settled.inFlight s (fewer member),
    fun d member => settled.replies d (fewer' member), settled.recorded⟩

/-- The server answers a request datagram. -/
theorem delivered {sem : InvocationSemantic} {sent : Sent} {w' : World Disk} (settled : Settled w)
    (matching : ∀ e, (w.clients sent.client).exchange? = some e → sent.exchange = e)
    (stored : ∀ other, sem = .atMostOnce → w.recorded (wireId sent.exchange.number) = some other →
      other = sent)
    (notified : ∀ d ∈ w'.toClients, d.origin = .notification → (w'.clients d.client).exchange? = none)
    (delivery : Delivery sem w sent w') : Settled w' := by
  constructor
  · rw [delivery.clients]
    exact settled.exchanges
  · rw [delivery.clients, delivery.toServer]
    exact settled.inFlight
  · intro d member e current
    rcases delivery.datagrams d member with old | notification | ⟨client, origin, success⟩
    · rw [delivery.clients] at current
      obtain ⟨origin, success⟩ := settled.replies d old e current
      exact ⟨origin, fun head => delivery.executed (success head)⟩
    · rw [notified d member notification] at current
      contradiction
    · rw [delivery.clients, client] at current
      obtain rfl := matching e current
      refine ⟨origin, fun head => ?_⟩
      rw [client]
      rcases success head with executed | ⟨amo, response⟩
      · exact executed
      · -- the stored response is this very request's
        obtain ⟨other, recorded, executed⟩ := settled.recorded _ _ response head
        obtain rfl := stored other amo recorded
        exact delivery.executed executed
  · intro id response kept head
    rcases delivery.recorded id response kept head with ⟨old, same⟩ | ⟨new, executed⟩
    · obtain ⟨other, recorded, executed⟩ := settled.recorded id response old head
      exact ⟨other, same.trans recorded, delivery.executed executed⟩
    · exact ⟨sent, new, executed⟩

end Settled

end RemoteFile.System
