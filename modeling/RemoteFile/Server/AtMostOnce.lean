import RemoteFile.Core.OnceOnly
import RemoteFile.Server.FileSystem
import RemoteFile.Server.Router

/-! At-most-once execution. The router with its table of responses is the
duplicate filter over the machine that executes every request: a message id is
the key, a datagram too short to have one is anonymous, and one of an
unsupported type is refused. -/
namespace RemoteFile.Server
open Octets Go Transition OnceOnly

variable {Disk : Type}

/-- What a packet hands to the router, unless it is lost before. -/
def Packet.routed (p : Packet) : Option (Slice UInt8 × UDPAddr) :=
  if p.simulateReqLoss then none else readFromClient p

/-- The message type byte and the message id that the router reads. -/
def Event.header? : Event Disk → Option (UInt8 × UInt32)
  | .timer _ => none
  | .packet _ p => do
    let (data, _) ← p.routed
    let (code, id, _) ← header data
    some (code, id)

/-- A processed datagram of at least five bytes that carries the message id. -/
def Event.Carries (e : Event Disk) (id : UInt32) : Prop := ∃ code, e.header? = some (code, id)

/-- One whose message type is supported. -/
def Event.Requests (e : Event Disk) (id : UInt32) : Prop :=
  ∃ code, e.header? = some (code, id) ∧ (MessageType.ofCode? code).isSome

def Event.tag (e : Event Disk) : Tag UInt32 :=
  match e with
  | .timer _ => .background
  | .packet _ p =>
    match p.routed, e.header? with
    | none, _ => .dropped
    | some _, none => .anonymous
    | some _, some (code, id) => if (MessageType.ofCode? code).isSome then .keyed id else .refused id

/-- The server without its table of responses. -/
def machine (path : Bytes) : Machine (Store Disk) (Event Disk) UInt32 Bytes where
  tag := Event.tag
  background
    | s, .timer k => fireTimer s k
    | _, .packet _ _ => none
  execute
    | _, .timer _ => none
    | s, .packet env p => do
      let (d, addr) ← p.routed
      let (code, _, data) ← header d
      let kind ← MessageType.ofCode? code
      dispatch kind env path addr data s
  refusal e := if e.header?.isSome then unsupportedType else tooShort

/-- The server with the table and the store as a pair. -/
def State.parts (s : State Disk) : Store Disk × (UInt32 → Option Bytes) := (s.store, s.messageResponses)

theorem handlePacket_eq (sem : InvocationSemantic) (env : Env Disk) (path : Bytes) (p : Packet)
    (s : State Disk) :
    handlePacket sem env path p s =
      match p.routed with
      | none => some (s, ⟨none, false⟩)
      | some (d, addr) => (routeRequest sem env path addr d s).map fun (s, response) =>
          (s, ⟨some response, !p.simulateReplyLoss && !p.sendFails⟩) := by
  unfold handlePacket Packet.routed
  cases readFromClient p with
  | none => cases p.simulateReqLoss <;> rfl
  | some arrival =>
    obtain ⟨d, addr⟩ := arrival
    cases p.simulateReqLoss with
    | true => rfl
    | false =>
      simp only [Bool.false_eq_true, if_false, Option.map_eq_bind]
      cases p.simulateReplyLoss <;> rfl

/-- Under at-most-once the server is the filtered machine. -/
theorem serverStep_filtered (path : Bytes) (s : State Disk) (e : Event Disk) :
    filtered (machine path) s.parts e =
      (serverStep .atMostOnce path s e).map (Prod.map State.parts Handled.response) := by
  cases e with
  | timer k =>
    cases fired : fireTimer s.store k <;>
      simp [filtered, machine, Event.tag, serverStep, State.parts, fired]
  | packet env p =>
    rw [serverStep, handlePacket_eq]
    cases routed : p.routed with
    | none => simp [filtered, machine, Event.tag, routed, State.parts]
    | some arrival =>
      obtain ⟨d, addr⟩ := arrival
      simp only [routeRequest_eq, Option.map_map]
      cases head : header d with
      | none => simp [filtered, machine, Event.tag, Event.header?, routed, head, State.parts]
      | some fields =>
        obtain ⟨code, id, data⟩ := fields
        cases stored : s.messageResponses id <;> cases known : MessageType.ofCode? code <;>
          simp [filtered, machine, Event.tag, Event.header?, routed, head, known, State.parts, stored,
            State.storedResponse, Function.comp_def]

/-- Under at-least-once it is the machine itself. -/
theorem serverStep_bare (path : Bytes) (s : State Disk) (e : Event Disk) :
    bare (machine path) s.store e =
      (serverStep .atLeastOnce path s e).map (Prod.map State.store Handled.response) := by
  cases e with
  | timer k => cases fired : fireTimer s.store k <;> simp [bare, machine, Event.tag, serverStep, fired]
  | packet env p =>
    rw [serverStep, handlePacket_eq]
    cases routed : p.routed with
    | none => simp [bare, machine, Event.tag, routed]
    | some arrival =>
      obtain ⟨d, addr⟩ := arrival
      simp only [routeRequest_eq, Option.map_map]
      cases head : header d with
      | none => simp [bare, machine, Event.tag, Event.header?, routed, head]
      | some fields =>
        obtain ⟨code, id, data⟩ := fields
        cases known : MessageType.ofCode? code <;>
          simp [bare, machine, Event.tag, Event.header?, routed, head, known, State.storedResponse,
            Function.comp_def]

/-- The events left when, for each message id, only the first processed request
of a supported type is delivered. -/
def firstDeliveries (path : Bytes) (es : List (Event Disk)) : List (Event Disk) :=
  firsts (machine path) [] es

/-- The event with its reply neither dropped nor failing to be sent. -/
def Event.replySent : Event Disk → Event Disk
  | .packet env p => .packet env { p with simulateReplyLoss := false, sendFails := false }
  | .timer k => .timer k

/-- What the server answers, whether or not the answer is lost. -/
def answerStep (sem : InvocationSemantic) (path : Bytes) (s : State Disk) (e : Event Disk) :
    Option (State Disk × Option Bytes) :=
  (serverStep sem path s e).map (Prod.map id Handled.response)

theorem answerStep_replySent (sem : InvocationSemantic) (path : Bytes) (s : State Disk)
    (e : Event Disk) : answerStep sem path s e = answerStep sem path s e.replySent := by
  cases e with
  | timer k => rfl
  | packet env p =>
    have same : ({ p with simulateReplyLoss := false, sendFails := false } : Packet).routed =
        p.routed := rfl
    simp only [answerStep, serverStep, Event.replySent, handlePacket_eq, same]
    cases p.routed with
    | none => rfl
    | some arrival => simp only [Option.map_map, Function.comp_def, Prod.map]

theorem run_answers (sem : InvocationSemantic) (path : Bytes) (s : State Disk)
    (es : List (Event Disk)) : run (answerStep sem path) s es =
      (run (serverStep sem path) s es).map (Prod.map id (List.map Handled.response)) :=
  run_image id Handled.response (fun _ _ => rfl) s es

theorem run_replySent {sem : InvocationSemantic} {path : Bytes} {s u : State Disk}
    {es es' : List (Event Disk)} {os : List Handled}
    (same : es'.map Event.replySent = es.map Event.replySent)
    (returned : run (serverStep sem path) s es = some (u, os)) :
    ∃ os', run (serverStep sem path) s es' = some (u, os') ∧
      os'.map Handled.response = os.map Handled.response := by
  have answers : run (answerStep sem path) s es' = some (u, os.map Handled.response) := by
    rw [run_map Event.replySent (answerStep_replySent sem path), same,
      ← run_map Event.replySent (answerStep_replySent sem path), run_answers, returned]
    rfl
  rw [run_answers] at answers
  obtain ⟨⟨v, os'⟩, ran, image⟩ := Option.map_eq_some_iff.mp answers
  obtain ⟨rfl, outputs⟩ := Prod.mk.inj image
  exact ⟨os', ran, outputs⟩

theorem Event.Requests.tagged {e : Event Disk} (requests : e.Requests messageID) :
    e.tag = .keyed messageID := by
  obtain ⟨code, head, supported⟩ := requests
  cases e with
  | timer k => contradiction
  | packet env p =>
    obtain ⟨_, routed, _⟩ := Option.bind_eq_some_iff.mp head
    simp only [Event.tag, routed, head, supported, if_true]

theorem Event.Carries.carries {e : Event Disk} (carries : e.Carries messageID)
    (path : Bytes) : OnceOnly.Carries (machine path) e messageID := by
  obtain ⟨code, head⟩ := carries
  cases supported : (MessageType.ofCode? code).isSome with
  | true => exact .inl (Event.Requests.tagged ⟨code, head, supported⟩)
  | false =>
    right
    cases e with
    | timer k => contradiction
    | packet env p =>
      obtain ⟨_, routed, _⟩ := Option.bind_eq_some_iff.mp head
      simp only [machine, Event.tag, routed, head, supported, Bool.false_eq_true, if_false]

/-- At-most-once execution, from an empty table of responses. The run leaves the
store (disk, subscriptions, notifications sent) that the first deliveries alone
leave, even with every request executed; a request is answered with the bytes
that the first one with its id was answered with; and which replies are lost
changes neither. -/
theorem atMostOnce_execution {path : Bytes} {s u : State Disk} {es : List (Event Disk)}
    {os : List Handled} (empty : s.messageResponses = fun _ => none)
    (returned : run (serverStep .atMostOnce path) s es = some (u, os)) :
    (∀ sem, ∃ v os', run (serverStep sem path) s (firstDeliveries path es) = some (v, os') ∧
      v.store = u.store) ∧
    (∀ (i j : Nat) (e e' : Event Disk) (id : UInt32), es[i]? = some e → e.Requests id → i < j →
      es[j]? = some e' → e'.Carries id →
      ∃ response, os[i]?.map Handled.response = some (some response) ∧
        os[j]?.map Handled.response = some (some response)) ∧
    (∀ es', es'.map Event.replySent = es.map Event.replySent →
      ∃ os', run (serverStep .atMostOnce path) s es' = some (u, os') ∧
        os'.map Handled.response = os.map Handled.response) := by
  have knows : Knows s.messageResponses [] := by
    intro id
    simp [empty]
  have filteredRun : run (filtered (machine path)) s.parts es =
      some (u.parts, os.map Handled.response) := by
    rw [run_image State.parts Handled.response (serverStep_filtered path), returned]
    rfl
  refine ⟨?_, ?_, fun es' same => run_replySent same returned⟩
  · obtain ⟨os', filteredFirsts, bareFirsts⟩ := filtered_run_firsts knows filteredRun
    intro sem
    cases sem with
    | atMostOnce =>
      have image := run_image State.parts Handled.response (serverStep_filtered path) s
        (firstDeliveries path es)
      obtain ⟨⟨v, outputs⟩, ran, parts⟩ := Option.map_eq_some_iff.mp (image.symm.trans filteredFirsts)
      exact ⟨v, outputs, ran, congrArg (fun r => r.1.1) parts⟩
    | atLeastOnce =>
      have image := run_image State.store Handled.response (serverStep_bare path) s
        (firstDeliveries path es)
      obtain ⟨⟨v, outputs⟩, ran, store⟩ := Option.map_eq_some_iff.mp (image.symm.trans bareFirsts)
      exact ⟨v, outputs, ran, congrArg Prod.fst store⟩
  · intro i j e e' id first requests order second carries
    obtain ⟨response, here, later⟩ := later_answers filteredRun first requests.tagged order second
      (carries.carries path)
    rw [List.getElem?_map] at here later
    rw [List.getElem?_map] at later
    exact ⟨response, here, later.trans here⟩

/-- A server over one file, before its first packet. -/
def oneFile : State FileSystem :=
  ⟨Store.fresh (FileSystem.single (text "/a") (text "123") 0), fun _ => none⟩

/-- The same write request twice, its first reply lost. -/
def repeatedWrite : List (Event FileSystem) :=
  let bytes := Request.datagram 5 (.write ⟨text "a", 1, text "xy"⟩)
  let env := FileSystem.env Faults.none 0
  [.packet env ⟨⟨[], 7⟩, bytes, false, false, true, false⟩,
   .packet env ⟨⟨[], 7⟩, bytes, false, false, false, false⟩]

theorem atMostOnce_execution_repeatedWrite :
    ∃ (u : State FileSystem) (os : List Handled),
      (u.store.disk.files (text "/a")).map File.content = some (text "1xy23") ∧
      os.map Handled.response = [some [1], some [1]] ∧
      (∀ sem, ∃ v os', run (serverStep sem []) oneFile (firstDeliveries [] repeatedWrite) =
        some (v, os') ∧ v.store = u.store) := by
  have content : (run (serverStep .atMostOnce []) oneFile repeatedWrite).map
      (fun (u, os) => ((u.store.disk.files (text "/a")).map File.content, os.map Handled.response)) =
      some (some (text "1xy23"), [some [1], some [1]]) := by decide +kernel
  obtain ⟨⟨u, os⟩, returned, same⟩ := Option.map_eq_some_iff.mp content
  obtain ⟨file, answers⟩ := Prod.mk.inj same
  exact ⟨u, os, file, answers, (atMostOnce_execution rfl returned).1⟩

end RemoteFile.Server
