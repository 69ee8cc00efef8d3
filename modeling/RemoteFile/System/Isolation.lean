import RemoteFile.Client.Program
import RemoteFile.Server.AtMostOnce

/-! Several clients at an at-most-once server. Each numbers its own requests from
0, and the table of responses is keyed by the number alone, so one client's
request can be answered with the response stored for another's. -/
namespace RemoteFile.System
open Octets Go Transition OnceOnly Server Client

variable {Disk : Type}

/-- A client's request reaches the router (for the first time or again), or an
expiry goroutine runs. -/
inductive Arrival (Disk : Type) where
  | request (env : Env Disk) (client : UDPAddr) (number : Nat) (simulateReplyLoss sendFails : Bool)
  | timer (k : Nat)

/-- The sender and number of a request. -/
def Arrival.origin : Arrival Disk → Option (UDPAddr × Nat)
  | request _ client number _ _ => some (client, number)
  | timer _ => none

variable (requests : UDPAddr → Nat → Request)

/-- The turn of the server; a request arrives as its client marshals it. -/
def Arrival.event : Arrival Disk → Event Disk
  | request env client number simulateReplyLoss sendFails =>
    .packet env
      { clientAddress := client, bytes := (requests client number).datagram (wireId number),
        readFails := false, simulateReqLoss := false, simulateReplyLoss, sendFails }
  | timer k => .timer k

/-- The router runs a handler for the datagram. -/
def Executes (s : State Disk) (e : Event Disk) : Prop :=
  ∃ id, e.Requests id ∧ s.storedResponse .atMostOnce id = none

/-- What the handler for a client's request makes of a store: the new store, and
the response of that very request. -/
def Arrival.result (path : Bytes) (a : Arrival Disk) (store : Store Disk) :
    Option (Store Disk × Bytes) :=
  match a with
  | request env client number _ _ => do
    let (_, _, data) ← header (received ((requests client number).datagram (wireId number)))
    dispatch (requests client number).messageType env path client data store
  | timer _ => none

/-- The server keeps the clients apart: it runs a handler for a request exactly
when it is the first arrival of that client's request. Store and response are
then the handler's for this request; a later arrival changes no store, and all
arrivals of one request are answered alike. -/
structure Isolated (path : Bytes) (s : State Disk) (es : List (Arrival Disk)) (os : List Handled) :
    Prop where
  executed : ∀ (i : Nat) (a : Arrival Disk) (origin : UDPAddr × Nat) (t : State Disk)
    (before : List Handled), es[i]? = some a → a.origin = some origin →
    run (serverStep .atMostOnce path) s ((es.take i).map (Arrival.event requests)) = some (t, before) →
    (Executes t (a.event requests) ↔ ∀ b ∈ es.take i, b.origin ≠ some origin)
  served : ∀ (i : Nat) (a : Arrival Disk) (origin : UDPAddr × Nat) (t : State Disk)
    (before : List Handled), es[i]? = some a → a.origin = some origin →
    run (serverStep .atMostOnce path) s ((es.take i).map (Arrival.event requests)) = some (t, before) →
    (∀ b ∈ es.take i, b.origin ≠ some origin) →
    ∃ u out reply, serverStep .atMostOnce path t (a.event requests) = some (u, out) ∧
      os[i]? = some out ∧ a.result requests path t.store = some (u.store, reply) ∧
      out.response = some reply
  repeated : ∀ (i : Nat) (a : Arrival Disk) (origin : UDPAddr × Nat) (t : State Disk)
    (before : List Handled), es[i]? = some a → a.origin = some origin →
    run (serverStep .atMostOnce path) s ((es.take i).map (Arrival.event requests)) = some (t, before) →
    (∃ b ∈ es.take i, b.origin = some origin) →
    ∃ u out, serverStep .atMostOnce path t (a.event requests) = some (u, out) ∧
      os[i]? = some out ∧ u.store = t.store
  answered : ∀ (i j : Nat) (a b : Arrival Disk), es[i]? = some a → es[j]? = some b →
    a.origin.isSome → a.origin = b.origin →
    os[i]?.map Handled.response = os[j]?.map Handled.response

/-- No two requests of the run have the same message id. -/
def DistinctIds (es : List (Arrival Disk)) : Prop :=
  ∀ a ∈ es, ∀ b ∈ es, ∀ client number client' number', a.origin = some (client, number) →
    b.origin = some (client', number') → wireId number = wireId number' →
    (client, number) = (client', number')

variable {requests} {path : Bytes} {s u : State Disk} {es : List (Arrival Disk)} {os : List Handled}

theorem Arrival.requested {a : Arrival Disk} (sent : a.origin = some (client, number)) :
    (a.event requests).Requests (wireId number) := by
  cases a with
  | timer k => cases sent
  | request env client number simulateReplyLoss sendFails =>
    cases sent
    obtain ⟨data, head⟩ := header_received (wireId number) (requests client number)
    refine ⟨(requests client number).messageType.code, ?_, by rw [MessageType.ofCode?_code]; rfl⟩
    simp only [Arrival.event, Event.header?, Packet.routed, readFromClient, Bool.false_eq_true, if_false,
      Option.bind_eq_bind, Option.bind_some, head]

theorem Arrival.tag_eq (requests : UDPAddr → Nat → Request) (a : Arrival Disk) :
    (a.event requests).tag = match a.origin with
      | some (_, number) => .keyed (wireId number)
      | none => .background := by
  cases a with
  | timer k => rfl
  | request env client number simulateReplyLoss sendFails =>
    exact Event.Requests.tagged (Arrival.requested rfl)

/-- A handler runs for a request exactly when no response is stored under its id. -/
theorem executes_iff_unstored {a : Arrival Disk} (sent : a.origin = some (client, number))
    (t : State Disk) : Executes t (a.event requests) ↔ t.messageResponses (wireId number) = none := by
  have request : (a.event requests).Requests (wireId number) := Arrival.requested sent
  constructor
  · rintro ⟨id, requested, new⟩
    obtain rfl := Tag.keyed.inj (requested.tagged.symm.trans request.tagged)
    exact new
  · exact fun new => ⟨_, request, new⟩

/-- The two courses of the router for a client's request: the handler's store
and response, or the old store. -/
theorem request_step {a : Arrival Disk} {t v : State Disk} {out : Handled}
    (sent : a.origin = some (client, number))
    (stepped : serverStep .atMostOnce path t (a.event requests) = some (v, out)) :
    (Executes t (a.event requests) ∧ ∃ reply,
      a.result requests path t.store = some (v.store, reply) ∧ out.response = some reply) ∨
    (¬ Executes t (a.event requests) ∧ v.store = t.store) := by
  rw [executes_iff_unstored sent]
  cases a with
  | timer k => cases sent
  | request env client number simulateReplyLoss sendFails =>
    cases sent
    obtain ⟨data, head⟩ := header_received (wireId number) (requests client number)
    simp only [Arrival.event, serverStep, handlePacket_eq, Packet.routed, readFromClient,
      Bool.false_eq_true, if_false] at stepped
    obtain ⟨⟨w, response⟩, routed, same⟩ := Option.map_eq_some_iff.mp stepped
    cases same
    simp only [routeRequest_eq, head, State.storedResponse, MessageType.ofCode?_code] at routed
    cases stored : t.messageResponses (wireId number) with
    | some old =>
      rw [stored] at routed
      cases routed
      exact .inr ⟨Option.some_ne_none _, rfl⟩
    | none =>
      rw [stored] at routed
      obtain ⟨⟨store, reply⟩, dispatched, made⟩ := Option.map_eq_some_iff.mp routed
      cases made
      refine .inl ⟨rfl, reply, ?_, rfl⟩
      simp only [Arrival.result, head, Option.bind_eq_bind, Option.bind_some, dispatched]

/-- A handler runs for a request exactly when its message id is new. -/
theorem executes_iff (empty : s.messageResponses = fun _ => none) {a : Arrival Disk}
    {prior : List (Arrival Disk)} {t : State Disk} {before : List Handled}
    (sent : a.origin = some (client, number))
    (ran : run (serverStep .atMostOnce path) s (prior.map (Arrival.event requests)) = some (t, before)) :
    Executes t (a.event requests) ↔
      ∀ b ∈ prior, ∀ client' number', b.origin = some (client', number') →
        wireId number' ≠ wireId number := by
  have table : run (filtered (machine path)) s.parts (prior.map (Arrival.event requests)) =
      some (t.parts, before.map Handled.response) := by
    rw [run_image State.parts Handled.response (serverStep_filtered path), ran]
    rfl
  have known := run_knows table (wireId number)
  rw [executes_iff_unstored sent, ← Option.isNone_iff_eq_none, ← Option.isSome_eq_false_iff,
    Bool.eq_false_iff]
  constructor
  · intro new b member client' number' sentBefore same
    apply new
    refine known.mpr (.inr ⟨b.event requests, List.mem_map_of_mem member, ?_⟩)
    exact (Arrival.requested sentBefore).tagged.trans (congrArg Tag.keyed same)
  · intro different seen
    obtain old | ⟨e, member, tagged⟩ := known.mp seen
    · simp [empty] at old
    · obtain ⟨b, earlier, rfl⟩ := List.mem_map.mp member
      have kind := Arrival.tag_eq requests b
      cases origin : b.origin with
      | none =>
        rw [origin] at kind
        cases tagged.symm.trans kind
      | some sender =>
        rw [origin] at kind
        exact different b earlier sender.1 sender.2 origin (Tag.keyed.inj (kind.symm.trans tagged))

theorem map_event_take (i : Nat) :
    (es.map (Arrival.event requests)).take i = (es.take i).map (Arrival.event requests) :=
  List.map_take.symm

/-- The turn of the server at a position of the run. -/
theorem turn_at {i : Nat} {a : Arrival Disk} {t : State Disk} {before : List Handled}
    (returned : run (serverStep .atMostOnce path) s (es.map (Arrival.event requests)) = some (u, os))
    (here : es[i]? = some a)
    (ran : run (serverStep .atMostOnce path) s ((es.take i).map (Arrival.event requests)) =
      some (t, before)) :
    ∃ v out, serverStep .atMostOnce path t (a.event requests) = some (v, out) ∧ os[i]? = some out := by
  have event : (es.map (Arrival.event requests))[i]? = some (a.event requests) := by
    rw [List.getElem?_map, here, Option.map_some]
  obtain ⟨t', out, v, before', after, ran', stepped, _, outcomes, length⟩ := run_at returned event
  rw [map_event_take, ran] at ran'
  cases ran'
  refine ⟨v, out, stepped, ?_⟩
  rw [outcomes, List.getElem?_append_right length.le, length, Nat.sub_self, List.getElem?_cons_zero]

/-- Isolation leaves no room for two requests with one message id. -/
theorem Isolated.distinct (empty : s.messageResponses = fun _ => none)
    (returned : run (serverStep .atMostOnce path) s (es.map (Arrival.event requests)) = some (u, os))
    (isolated : Isolated requests path s es os) (j : Nat) :
    ∀ (i : Nat) (a b : Arrival Disk) client number client' number', i < j → es[i]? = some a →
      es[j]? = some b → a.origin = some (client, number) → b.origin = some (client', number') →
      wireId number = wireId number' → (client, number) = (client', number') := by
  induction j using Nat.strong_induction_on with
  | _ j ih =>
    intro i a b client number client' number' order first second sentA sentB same
    have here : (es.map (Arrival.event requests))[j]? = some (b.event requests) := by
      rw [List.getElem?_map, second, Option.map_some]
    obtain ⟨t, _, _, before, _, ran, _⟩ := run_at returned here
    rw [map_event_take] at ran
    have member : a ∈ es.take j := by
      refine List.mem_of_getElem? (i := i) ?_
      rw [List.getElem?_take, if_pos order, first]
    -- the second request is not executed, so isolation shows it an earlier arrival of its own
    have refused : ¬ Executes t (b.event requests) := by
      intro executed
      exact (executes_iff empty sentB ran).mp executed a member client number sentA same
    rw [isolated.executed j b _ t before second sentB ran] at refused
    push Not at refused
    obtain ⟨c, earlier, sentC⟩ := refused
    obtain ⟨k, position⟩ := List.mem_iff_getElem?.mp earlier
    rw [List.getElem?_take] at position
    split at position
    case isFalse => contradiction
    case isTrue before_j =>
      obtain less | equal | greater := Nat.lt_trichotomy i k
      · exact ih k before_j i a c client number client' number' less first position sentA sentC same
      · subst equal
        obtain rfl := Option.some.inj (first.symm.trans position)
        exact Option.some.inj (sentA.symm.trans sentC)
      · exact (ih i order k c a client' number' client number greater position first sentC sentA
          same.symm).symm

/-- With distinct message ids the first arrivals of the requests are executed and no others. -/
theorem DistinctIds.executed (empty : s.messageResponses = fun _ => none) (distinct : DistinctIds es)
    {i : Nat} {a : Arrival Disk} {origin : UDPAddr × Nat} {t : State Disk} {before : List Handled}
    (here : es[i]? = some a) (sent : a.origin = some origin)
    (ran : run (serverStep .atMostOnce path) s ((es.take i).map (Arrival.event requests)) =
      some (t, before)) :
    Executes t (a.event requests) ↔ ∀ b ∈ es.take i, b.origin ≠ some origin := by
  obtain ⟨client, number⟩ := origin
  rw [executes_iff empty sent ran]
  constructor
  · intro new b member same
    exact new b member client number same rfl
  · intro first b member client' number' sentB same
    have equal := distinct b (List.mem_of_mem_take member) a (List.mem_of_getElem? here)
      client' number' client number sentB sent same
    exact first b member (sentB.trans (congrArg some equal))

/-- A later arrival of a request is answered like an earlier one. -/
theorem answered_later {i j : Nat} {a b : Arrival Disk}
    (returned : run (serverStep .atMostOnce path) s (es.map (Arrival.event requests)) = some (u, os))
    (order : i < j) (first : es[i]? = some a) (second : es[j]? = some b) (sent : a.origin.isSome)
    (same : a.origin = b.origin) : os[i]?.map Handled.response = os[j]?.map Handled.response := by
  obtain ⟨⟨client, number⟩, sentA⟩ := Option.isSome_iff_exists.mp sent
  have firstEvent : (es.map (Arrival.event requests))[i]? = some (a.event requests) := by
    rw [List.getElem?_map, first, Option.map_some]
  have secondEvent : (es.map (Arrival.event requests))[j]? = some (b.event requests) := by
    rw [List.getElem?_map, second, Option.map_some]
  have filteredRun : run (filtered (machine path)) s.parts (es.map (Arrival.event requests)) =
      some (u.parts, os.map Handled.response) := by
    rw [run_image State.parts Handled.response (serverStep_filtered path), returned]
    rfl
  obtain ⟨response, _, equal⟩ := later_answers filteredRun firstEvent
    (Arrival.requested sentA).tagged order secondEvent
    (.inl (Arrival.requested (same ▸ sentA)).tagged)
  rw [List.getElem?_map, List.getElem?_map] at equal
  exact equal.symm

/-- Requests with distinct message ids are kept apart. -/
theorem DistinctIds.isolated (empty : s.messageResponses = fun _ => none)
    (returned : run (serverStep .atMostOnce path) s (es.map (Arrival.event requests)) = some (u, os))
    (distinct : DistinctIds es) : Isolated requests path s es os := by
  constructor
  case executed =>
    intro i a origin t before here sent ran
    exact distinct.executed empty here sent ran
  case served =>
    intro i a origin t before here sent ran first
    obtain ⟨v, out, stepped, taken⟩ := turn_at returned here ran
    obtain ⟨_, reply, result, response⟩ | ⟨refused, _⟩ := request_step sent stepped
    · exact ⟨v, out, reply, stepped, taken, result, response⟩
    · exact absurd ((distinct.executed empty here sent ran).mpr first) refused
  case repeated =>
    intro i a origin t before here sent ran ⟨b, member, same⟩
    obtain ⟨v, out, stepped, taken⟩ := turn_at returned here ran
    obtain ⟨executes, _⟩ | ⟨_, kept⟩ := request_step sent stepped
    · exact absurd same ((distinct.executed empty here sent ran).mp executes b member)
    · exact ⟨v, out, stepped, taken, kept⟩
  case answered =>
    intro i j a b first second sent same
    obtain less | equal | greater := Nat.lt_trichotomy i j
    · exact answered_later returned less first second sent same
    · rw [equal]
    · exact (answered_later returned greater second first (same ▸ sent) same.symm).symm

/-- The clients are kept apart exactly in the runs in which no two requests, of
whichever clients, share a message id. -/
theorem clients_isolated_iff (empty : s.messageResponses = fun _ => none)
    (returned : run (serverStep .atMostOnce path) s (es.map (Arrival.event requests)) = some (u, os)) :
    Isolated requests path s es os ↔ DistinctIds es := by
  refine ⟨fun isolated => ?_, DistinctIds.isolated empty returned⟩
  intro a memberA b memberB client number client' number' sentA sentB same
  obtain ⟨i, first⟩ := List.mem_iff_getElem?.mp memberA
  obtain ⟨j, second⟩ := List.mem_iff_getElem?.mp memberB
  obtain less | equal | greater := Nat.lt_trichotomy i j
  · exact isolated.distinct empty returned j i a b client number client' number' less first second
      sentA sentB same
  · subst equal
    obtain rfl := Option.some.inj (first.symm.trans second)
    exact Option.some.inj (sentA.symm.trans sentB)
  · exact (isolated.distinct empty returned i j b a client' number' client number greater second first
      sentB sentA same.symm).symm

/-! ### Two writers -/

/-- Every client's every request writes at the start of the same file, the client
on port 1 an x and the others a y. -/
def writers (client : UDPAddr) (_ : Nat) : Request :=
  .write ⟨text "a", 0, if client.port = 1 then text "x" else text "y"⟩

/-- The request with a number of the client on a port. -/
def sends (port : UInt16) (number : Nat) : Arrival FileSystem :=
  .request (FileSystem.env Faults.none 0) ⟨[], port⟩ number false false

/-- Both clients send their request 0: both are told that their write succeeded,
and only the first one is in the file. -/
theorem clients_isolated_fails :
    ∃ (u : State FileSystem) (os : List Handled),
      run (serverStep .atMostOnce []) oneFile ([sends 1 0, sends 2 0].map (Arrival.event writers)) =
        some (u, os) ∧
      os.map Handled.response = [some [1], some [1]] ∧
      (u.store.disk.files (text "/a")).map File.content = some (text "x123") ∧
      ¬ Isolated writers [] oneFile [sends 1 0, sends 2 0] os := by
  have outcome : (run (serverStep .atMostOnce []) oneFile
      ([sends 1 0, sends 2 0].map (Arrival.event writers))).map
        (fun (u, os) => ((u.store.disk.files (text "/a")).map File.content, os.map Handled.response)) =
      some (some (text "x123"), [some [1], some [1]]) := by decide +kernel
  obtain ⟨⟨u, os⟩, returned, same⟩ := Option.map_eq_some_iff.mp outcome
  obtain ⟨content, answers⟩ := Prod.mk.inj same
  refine ⟨u, os, returned, answers, content, fun isolated => ?_⟩
  have confused := isolated.distinct rfl returned 1 0 (sends 1 0) (sends 2 0) ⟨[], 1⟩ 0 ⟨[], 2⟩ 0
    (by decide) rfl rfl rfl rfl rfl
  exact absurd confused (by decide)

/-- Numbers that do not collide: the second client has sent a request before. -/
theorem clients_isolated_distinct :
    ∃ (u : State FileSystem) (os : List Handled),
      (u.store.disk.files (text "/a")).map File.content = some (text "yx123") ∧
      Isolated writers [] oneFile [sends 1 0, sends 2 1, sends 1 0] os := by
  have outcome : (run (serverStep .atMostOnce []) oneFile
      ([sends 1 0, sends 2 1, sends 1 0].map (Arrival.event writers))).map
        (fun (u, _) => (u.store.disk.files (text "/a")).map File.content) =
      some (some (text "yx123")) := by decide +kernel
  obtain ⟨⟨u, os⟩, returned, content⟩ := Option.map_eq_some_iff.mp outcome
  refine ⟨u, os, content, (clients_isolated_iff rfl returned).mpr ?_⟩
  intro a memberA b memberB client number client' number' sentA sentB same
  simp only [List.mem_cons, List.not_mem_nil, or_false] at memberA memberB
  obtain rfl | rfl | rfl := memberA <;> obtain rfl | rfl | rfl := memberB <;>
    cases sentA <;> cases sentB <;> first | rfl | exact absurd same (by decide)

end RemoteFile.System
