import RemoteFile.Client.Survival
import RemoteFile.System.Linearization

/-! Whether the client programs of a network survive. Where leftovers of earlier requests stay
away, a client is ended by an exception in two cases only: a reply is longer than what it
receives, or it shows a cached part of a file from beyond the length of this part. -/
namespace RemoteFile.System
open Octets Go Cpp Cpp.Outcome Transition Refinement Server Client

variable {Disk κ : Type} {sem : InvocationSemantic} {path : Bytes} {locate : Bytes → κ}
  {contents : Disk → κ → Option Bytes} {w w' : World Disk} {a : Action Disk} {c : UDPAddr}

/-! ### Replies are answers -/

/-- A success, or a failure with its message. -/
def Plain (bytes : Bytes) : Prop := bytes.head? = some 1 ∨ ∃ message, bytes = (Answer.failed message).bytes

theorem Answer.plain (answer : Answer) : Plain answer.bytes := by
  cases answer with
  | failed message => exact .inr ⟨message, rfl⟩
  | done | content | time => exact .inl rfl

/-- Where the router finds a header but no request, it answers with the handler's failure. -/
theorem undecoded_fails {env : Env Disk} {addr : UDPAddr} {d : Slice UInt8} {s t : State Disk} {response : Bytes}
    {code : UInt8} {id : UInt32} {data : Slice UInt8} {kind : MessageType} (head : header d = some (code, id, data))
    (known : MessageType.ofCode? code = some kind) (undecoded : (decode d).bind Except.toOption = none)
    (answered : routeRequest sem env path addr d s = some (t, response)) :
    s.storedResponse sem id = some response ∨ ∃ message, response = (Answer.failed message).bytes := by
  rw [routeRequest_eq, head] at answered
  cases stored : s.storedResponse sem id with
  | some reply =>
    simp only [stored] at answered
    cases answered
    exact .inl rfl
  | none =>
    simp only [stored, known] at answered
    obtain ⟨⟨store, reply⟩, ran, made⟩ := Option.map_eq_some_iff.mp answered
    cases made
    rw [dispatch_eq] at ran
    obtain ⟨result, decoded, rest⟩ := Option.bind_eq_some_iff.mp ran
    cases result with
    | error err =>
      cases rest
      exact .inr ⟨err, rfl⟩
    | ok r =>
      rw [decode_eq, head] at undecoded
      simp [known, decoded, Except.map, Except.toOption] at undecoded

/-- What is stored is plain, and so are the replies in flight. -/
structure Answered (w : World Disk) : Prop where
  responses : ∀ id response, w.server.messageResponses id = some response → Plain response
  replies : ∀ d ∈ w.toClients, ∀ n, d.origin = .reply n → Plain d.bytes

theorem World.Initial.answered (initial : w.Initial) : Answered w where
  responses id response stored := by
    rw [initial.responses] at stored
    contradiction
  replies d member := by
    rw [initial.toClients] at member
    contradiction

theorem storedResponse_plain {id : UInt32} {response : Bytes} (answered : Answered w)
    (stored : w.server.storedResponse sem id = some response) : Plain response := by
  cases sem with
  | atLeastOnce => contradiction
  | atMostOnce => exact answered.responses id response stored

/-- A client's datagram gets a plain answer. -/
theorem Answered.response {env : Env Disk} {sent : Sent} {p : Packet} {out : Handled} {response : Bytes}
    {label : Option Operation} (answered : Answered w) (valid : sent.exchange.Valid)
    (bytes : p.bytes = sent.exchange.marshalled) (delivered : Delivered sem path env sent p w w' out)
    (explained : Explains sem w.server (.packet env p) out label) (output : out.response = some response) :
    Plain response := by
  cases explained with
  | executed id op request fresh same =>
    cases same.symm.trans output
    exact Answer.plain op.answer
  | repeated id reply carries stored same =>
    cases same.symm.trans output
    exact storedResponse_plain answered stored
  | refused unrequested fails =>
    have done := delivered.done
    rw [handlePacket_eq] at done
    cases routed : p.routed with
    | none =>
      rw [routed] at done
      obtain ⟨_, rfl⟩ := Prod.mk.inj (Option.some.inj done)
      contradiction
    | some arrival =>
      obtain ⟨d, addr⟩ := arrival
      rw [routed] at done
      obtain ⟨⟨server, reply⟩, ran, made⟩ := Option.map_eq_some_iff.mp done
      obtain ⟨_, rfl⟩ := Prod.mk.inj made
      cases output
      have undecoded : (decode d).bind Except.toOption = none := by
        rw [Event.request?, routed] at unrequested
        exact unrequested
      rw [(Packet.routed_eq routed).1, bytes, valid.marshalled] at ran undecoded
      obtain ⟨data, head⟩ := header_received (wireId sent.exchange.number) sent.exchange.request
      rcases undecoded_fails head (MessageType.ofCode?_code _) undecoded ran with stored | failed
      · exact storedResponse_plain answered stored
      · exact .inr failed

theorem Answered.step {more : List Performed} (answered : Answered w)
    (recorded : Recorded sem locate contents path w w' more) : Answered w' := by
  cases recorded with
  | quiet _ responses toClients =>
    exact ⟨responses ▸ answered.responses, fun d member => answered.replies d (toClients member)⟩
  | delivers env sent p out label valid _ bytes delivered _ explained =>
    constructor
    · intro id response stored
      rcases handlePacket_table delivered.done with ⟨_, same⟩ | ⟨id', _, reply, _, output, table, _⟩
      · exact answered.responses id response (same ▸ stored)
      · rw [table] at stored
        by_cases own : id = id'
        · rw [own, Function.update_self, Option.some.injEq] at stored
          exact answered.response valid bytes delivered explained (stored ▸ output)
        · rw [Function.update_of_ne own] at stored
          exact answered.responses id response stored
    · intro d member n origin
      rcases delivered.replies d member n origin with before | ⟨_, _, output⟩
      · exact answered.replies d before n origin
      · exact answered.response valid bytes delivered explained output

/-! ### Replies of the very request -/

variable {files : κ → Option Bytes} {history : List Performed}

/-- The reply that a client takes for its request is refused exactly if it is cut off. -/
theorem own_accepted_iff {d : Datagram} {e : Exchange} (settled : Settled w) (numbered : Numbered w)
    (chronicle : Chronicle sem locate contents path files w history) (answered : Answered w)
    (inFlight : d ∈ w.toClients) (current : (w.clients d.client).exchange? = some e) (size : d.bytes.length < 2 ^ 16) :
    Accepted (unmarshalResponse e.request.messageType (d.bytes.take msgLength)) ↔ d.bytes.length ≤ msgLength := by
  have own : ∃ answer, d.bytes = answer.bytes ∧ Sendable answer ∧ (takenAs e.request.messageType answer).isSome := by
    rcases answered.replies d inFlight _ (settled.replies d inFlight e current).1 with success | ⟨message, bytes⟩
    · obtain ⟨answer, _, bytes, grants⟩ := own_grants settled numbered chronicle inFlight current success
      refine ⟨answer, bytes, grants.sendable, ?_⟩
      generalize e.request = r at grants
      cases r <;> cases answer <;> first | contradiction | rfl
    · refine ⟨.failed message, bytes, ?_, ?_⟩
      · rw [bytes, Answer.bytes, List.length_cons, counted_length] at size
        rw [Sendable]
        omega
      · cases e.request.messageType <;> rfl
  obtain ⟨answer, bytes, sendable, fits⟩ := own
  obtain ⟨resp, taken⟩ := Option.isSome_iff_exists.mp fits
  have yields := received_taken e.request.messageType sendable
  rw [bytes]
  by_cases short : answer.bytes.length ≤ msgLength
  · rw [if_pos short, taken] at yields
    exact iff_of_true ⟨resp, yields⟩ short
  · rw [if_neg short] at yields
    obtain ⟨what, refused⟩ := yields
    refine iff_of_false ?_ short
    rintro ⟨resp', accepted⟩
    cases refused.symm.trans accepted

/-! ### Fatal steps -/

/-- The step hands the client a reply longer than it receives, or has it show a cached content from
beyond the end. -/
def Fatal (c : UDPAddr) (w : World Disk) : Action Disk → Prop
  | .command client now input => client = c ∧ ∃ req, input.command = .read req ∧ (w.clients c).ShowsBeyond now req
  | .take client _ i => client = c ∧ ∃ d e, w.arriving c i = some d ∧ (w.clients c).exchange? = some e ∧
      (msgLength < d.bytes.length ∨ (w.clients c).ConfirmsBeyond e.pending d.bytes)
  | _ => False

/-- What a step can do to the program of a client. -/
inductive World.Acts (w : World Disk) (a : Action Disk) (w' : World Disk) (c : UDPAddr) : Prop where
  | idle (same : w'.clients c = w.clients c) (harmless : ¬ Fatal c w a)
  | commands (now : Int) (input : Input) (action : a = .command c now input)
      (commanded : (w.clients c).command now input.command = some (w'.clients c))
  | takes (now : Int) (i : Nat) (d : Datagram) (e : Exchange) (action : a = .take c now i)
      (arrived : w.arriving c i = some d) (current : (w.clients c).exchange? = some e)
      (took : (w.clients c).take now d.bytes = some (w'.clients c))
  /-- It sends a request, waits for a reply no longer, or monitors. -/
  | goesOn (before : (w.clients c).phase ≠ .terminated) (after : (w'.clients c).phase ≠ .terminated)
      (harmless : ¬ Fatal c w a)

/-- Of the clients the one that acts goes on. -/
theorem setClient_acts {client : UDPAddr} {p : Program} (clients : w'.clients = (w.setClient client p).clients)
    (own : c = client → w'.clients c = p → w.Acts a w' c) (other : client ≠ c → ¬ Fatal c w a) : w.Acts a w' c := by
  by_cases same : c = client
  · apply own same
    rw [clients, same]
    exact Function.update_self ..
  · refine .idle ?_ (other (Ne.symm same))
    rw [clients, setClient_clients same]

theorem networkStep_acts {t : Option Taken} (stepped : networkStep sem path w a = some (w', t)) (c : UDPAddr) :
    w.Acts a w' c := by
  cases a with
  | command client now input =>
    obtain ⟨p, commanded, made⟩ := Option.bind_eq_some_iff.mp stepped
    cases made
    refine setClient_acts rfl ?_ (fun other fatal => other fatal.1)
    rintro rfl same
    exact .commands now input rfl (commanded.trans (congrArg some same.symm))
  | transmit client sendFails =>
    obtain ⟨⟨p, sent⟩, transmitted, made⟩ := Option.bind_eq_some_iff.mp stepped
    cases made
    refine setClient_acts rfl ?_ (fun _ => id)
    rintro rfl same
    obtain ⟨before, after⟩ := Program.transmit_alive transmitted
    exact .goesOn before ((congrArg Program.phase same).trans_ne after) id
  | timeout client =>
    obtain ⟨p, timedOut, made⟩ := Option.bind_eq_some_iff.mp stepped
    cases made
    refine setClient_acts rfl ?_ (fun _ => id)
    rintro rfl same
    obtain ⟨before, after⟩ := Program.timeout_alive timedOut
    exact .goesOn before ((congrArg Program.phase same).trans_ne after) id
  | take client now i =>
    obtain ⟨d, arrived, rest⟩ := Option.bind_eq_some_iff.mp stepped
    obtain ⟨e, current, rest⟩ := Option.bind_eq_some_iff.mp rest
    obtain ⟨p, took, made⟩ := Option.bind_eq_some_iff.mp rest
    cases made
    refine setClient_acts rfl ?_ (fun other fatal => other fatal.1)
    rintro rfl same
    exact .takes now i d e rfl arrived current (took.trans (congrArg some same.symm))
  | listen client now i =>
    cases i with
    | none =>
      obtain ⟨p, listened, made⟩ := Option.bind_eq_some_iff.mp stepped
      cases made
      refine setClient_acts rfl ?_ (fun _ => id)
      rintro rfl same
      obtain ⟨before, after⟩ := Program.listen_alive listened
      exact .goesOn before ((congrArg Program.phase same).trans_ne after) id
    | some i =>
      obtain ⟨d, _, rest⟩ := Option.bind_eq_some_iff.mp stepped
      obtain ⟨p, listened, made⟩ := Option.bind_eq_some_iff.mp rest
      cases made
      refine setClient_acts rfl ?_ (fun _ => id)
      rintro rfl same
      obtain ⟨before, after⟩ := Program.listen_alive listened
      exact .goesOn before ((congrArg Program.phase same).trans_ne after) id
  | deliver i env readFails simulateReqLoss simulateReplyLoss sendFails =>
    obtain ⟨sent, _, rest⟩ := Option.bind_eq_some_iff.mp stepped
    obtain ⟨v, delivery, made⟩ := Option.bind_eq_some_iff.mp rest
    cases made
    exact .idle (congrFun (World.deliver_kept delivery).1 c) id
  | loseRequest | loseDatagram =>
    cases stepped
    exact .idle rfl id
  | expire k =>
    obtain ⟨store, _, made⟩ := Option.bind_eq_some_iff.mp stepped
    cases made
    exact .idle rfl id

/-- The program of the client has been ended by an exception. -/
def World.Terminated (c : UDPAddr) (w : World Disk) : Prop := (w.clients c).phase = .terminated

theorem networkStep_stays {t : Option Taken} (ended : w.Terminated c)
    (stepped : networkStep sem path w a = some (w', t)) : w'.Terminated c := by
  cases networkStep_acts stepped c with
  | idle same => exact (congrArg Program.phase same).trans ended
  | commands now input action commanded => exact absurd ended (Program.command_alive commanded)
  | takes now i d e action arrived current took => exact absurd ended (Program.take_alive took)
  | goesOn before => exact absurd ended before

/-- Fatal steps are those that end the program of the client. -/
theorem networkStep_fatal_iff {t : Option Taken} (settled : Settled w) (numbered : Numbered w)
    (chronicle : Chronicle sem locate contents path files w history) (answered : Answered w)
    (sizes : ∀ d ∈ w.toClients, d.bytes.length < 2 ^ 16) (stepped : networkStep sem path w a = some (w', t))
    (alive : ¬ w.Terminated c) : w'.Terminated c ↔ Fatal c w a := by
  cases networkStep_acts stepped c with
  | idle same harmless => exact iff_of_false (fun ended => alive ((congrArg Program.phase same).symm.trans ended)) harmless
  | goesOn before after harmless => exact iff_of_false after harmless
  | commands now input action commanded =>
    subst action
    exact (Program.command_terminated_iff commanded).trans (and_iff_right rfl).symm
  | takes now i d e action arrived current took =>
    subst action
    obtain ⟨inFlight, rfl⟩ := World.arriving_iff.mp arrived
    have member := List.mem_of_getElem? inFlight
    have waiting := Program.take_waiting current took
    have short := own_accepted_iff settled numbered chronicle answered member current (sizes d member)
    refine (Program.take_terminated_iff (settled.exchanges _ e current) waiting took).trans ?_
    rw [short, Nat.not_le]
    constructor
    · exact fun fatal => ⟨rfl, d, e, arrived, current, fatal⟩
    · rintro ⟨_, d', e', arrived', current', fatal⟩
      cases arrived.symm.trans arrived'
      cases current.symm.trans current'
      exact fatal

/-! ### Runs -/

/-- What holds between the steps, with the answers that the clients wait for. -/
structure Sound (sem : InvocationSemantic) (locate : Bytes → κ) (contents : Disk → κ → Option Bytes)
    (path : Bytes) (files : κ → Option Bytes) (w : World Disk) : Prop where
  settled : Settled w
  numbered : Numbered w
  answered : Answered w
  chronicle : ∃ history, Chronicle sem locate contents path files w history

theorem World.Initial.sound (initial : w.Initial) :
    Sound sem locate contents path (contents w.server.store.disk) w :=
  ⟨initial.settled, initial.numbered, initial.answered, [], initial.chronicle⟩

theorem Sound.step {t : Option Taken} (sound : Sound sem locate contents path files w)
    (undisturbed : Undisturbed sem path w a)
    (lawful : ∀ i env readFails simulateReqLoss simulateReplyLoss sendFails,
      a = .deliver i env readFails simulateReqLoss simulateReplyLoss sendFails → env.os.Lawful locate contents)
    (stepped : networkStep sem path w a = some (w', t)) : Sound sem locate contents path files w' := by
  obtain ⟨settled, numbered, answered, history, chronicle⟩ := sound
  obtain ⟨more, recorded, after⟩ := chronicle.step settled.genuine lawful stepped
  exact ⟨(settled.step undisturbed stepped).1, numbered.preserved settled (networkStep_moved settled.exchanges stepped),
    answered.step recorded, _, after⟩

/-- In undisturbed networks the program of a client gets through exactly if none of the steps is fatal
for it: no reply longer than the 5000 bytes that it receives reaches it, and it does not show from the
cache, fresh or found unchanged, what starts beyond the length of the cached content. -/
theorem clients_survive_iff {start : World Disk} {as : List (Action Disk)} {outs : List (Option Taken)}
    (initial : start.Initial)
    (lawful : ∀ i env readFails simulateReqLoss simulateReplyLoss sendFails,
      .deliver i env readFails simulateReqLoss simulateReplyLoss sendFails ∈ as → env.os.Lawful locate contents)
    (undisturbed : Along (networkStep sem path) (Undisturbed sem path) start as)
    (sizes : Along (networkStep sem path) (fun w _ => ∀ d ∈ w.toClients, d.bytes.length < 2 ^ 16) start as)
    (ran : run (networkStep sem path) start as = some (w, outs)) (c : UDPAddr) :
    (w.clients c).phase ≠ .terminated ↔ Along (networkStep sem path) (fun v a => ¬ Fatal c v a) start as := by
  have alive : ¬ start.Terminated c := by
    rw [World.Terminated, initial.clients c]
    exact nofun
  refine alive_iff (P := Sound sem locate contents path (contents start.server.store.disk)) ?_ ?_
    (fun _ _ _ _ => networkStep_stays) initial.sound alive
    (along_and (along_and undisturbed (along_lawful lawful)) sizes) ran
  · rintro v a v' o sound ⟨⟨ok, fine⟩, _⟩ stepped
    exact sound.step ok fine stepped
  · rintro v a v' o sound ⟨_, small⟩ stepped alive
    obtain ⟨history, chronicle⟩ := sound.chronicle
    exact networkStep_fatal_iff sound.settled sound.numbered chronicle sound.answered small stepped alive

/-! ### The last byte, twice -/

def lastByte : Input := .read ⟨text "a", 2, 1⟩ ⟨by decide, by decide, by simp [Request.numbers]⟩

/-- A client reads the last byte of the file, and then reads it again. -/
def lastByteTwice : List (Action FileSystem) :=
  [.command soleClient 0 lastByte, .transmit soleClient false, arrives, .take soleClient 0 0,
   .transmit soleClient false, arrives, .take soleClient 0 0, .command soleClient 1 lastByte]

/-- The byte is cached alone, and the second read begins at position 2 of it. -/
theorem clients_survive_iff_lastByteTwice :
    ∃ (w : World FileSystem) (outs : List (Option Taken)),
      run (networkStep .atMostOnce []) idleWorld lastByteTwice = some (w, outs) ∧
      (w.clients soleClient).screen = [.lastModified 0, .content (text "3")] ∧
      (w.clients soleClient).phase = .terminated ∧
      ¬ Along (networkStep .atMostOnce []) (fun v a => ¬ Fatal soleClient v a) idleWorld lastByteTwice := by
  have outcome : (run (networkStep .atMostOnce []) idleWorld lastByteTwice).map (fun (w, _) =>
      ((w.clients soleClient).screen, (w.clients soleClient).phase)) =
      some ([.lastModified 0, .content (text "3")], .terminated) := by
    decide +kernel
  have checked : checkAlong (networkStep .atMostOnce []) (undisturbed .atMostOnce []) idleWorld lastByteTwice = true := by
    decide +kernel
  have small : checkAlong (networkStep .atMostOnce []) (fun w _ => w.toClients.all fun d => decide (d.bytes.length < 2 ^ 16))
      idleWorld lastByteTwice = true := by
    decide +kernel
  have lawful : lastByteTwice.Forall (Action.Lawful id FileSystem.bytes) := by
    simp [lastByteTwice, arrives, Action.Lawful, env_lawful]
  have sizes : Along (networkStep .atMostOnce []) (fun w _ => ∀ d ∈ w.toClients, d.bytes.length < 2 ^ 16) idleWorld
      lastByteTwice := by
    refine along_of_check ?_ small
    intro w a fits
    simpa using fits
  obtain ⟨⟨w, outs⟩, ran, made⟩ := Option.map_eq_some_iff.mp outcome
  obtain ⟨screen, ended⟩ := Prod.mk.inj made
  have iff := clients_survive_iff idleWorld_initial (lawful_of_forall lawful) (along_of_check (fun _ _ => undisturbed_sound) checked) sizes
    ran soleClient
  exact ⟨w, outs, ran, screen, ended, fun harmless => iff.mpr harmless ended⟩

end RemoteFile.System
