import RemoteFile.System.Linearization

/-! What a reported failure is worth where leftovers of earlier requests stay away. At most once it
is final: the request has not succeeded and will not, whatever copies of it are still on their way.
At least once an earlier copy may have succeeded. -/
namespace RemoteFile.System
open Octets Go Cpp Cpp.Outcome Transition Refinement Server Client

variable {Disk κ : Type} {sem : InvocationSemantic} {path : Bytes} {locate : Bytes → κ}
  {contents : Disk → κ → Option Bytes} {w w' : World Disk} {a : Action Disk}

/-! ### The table of responses -/

variable {env : Env Disk} {p : Packet} {s t : State Disk} {out : Handled} {id : UInt32} {response : Bytes}

theorem handled_fresh {decoded : Option Request} (ran : p.handled sem s = some (id, decoded)) :
    s.storedResponse sem id = none := by
  obtain ⟨⟨d, addr⟩, _, handles⟩ := Option.bind_eq_some_iff.mp ran
  obtain ⟨⟨code, id', data⟩, _, rest⟩ := Option.bind_eq_some_iff.mp handles
  obtain ⟨kind, _, answered⟩ := Option.bind_eq_some_iff.mp rest
  split at answered
  case h_1 => contradiction
  case h_2 unknown =>
    cases answered
    exact unknown

/-- At most once a stored response stays. -/
theorem handlePacket_keeps (done : handlePacket .atMostOnce env path p s = some (t, out))
    (stored : s.messageResponses id = some response) : t.messageResponses id = some response := by
  rcases handlePacket_table done with ⟨_, same⟩ | ⟨id', decoded, reply, ran, _, table, _⟩
  · rw [same, stored]
  · have other : id ≠ id' := by
      rintro rfl
      cases stored.symm.trans (handled_fresh ran)
    rw [table, Function.update_of_ne other, stored]

/-- And what a client's datagram is answered with is what the table has for it. -/
theorem handlePacket_records {e : Exchange} (valid : e.Valid) (bytes : p.bytes = e.marshalled)
    (done : handlePacket .atMostOnce env path p s = some (t, out)) (answered : out.response = some response) :
    t.messageResponses (wireId e.number) = some response := by
  rw [handlePacket_eq] at done
  cases routed : p.routed with
  | none =>
    rw [routed] at done
    cases done
    contradiction
  | some arrival =>
    obtain ⟨d, addr⟩ := arrival
    rw [routed] at done
    obtain ⟨⟨server, reply⟩, ran, made⟩ := Option.map_eq_some_iff.mp done
    cases made
    cases answered
    obtain ⟨data, head⟩ := header_received (wireId e.number) e.request
    rw [(Packet.routed_eq routed).1, bytes, valid.marshalled, routeRequest_eq, head] at ran
    cases stored : s.messageResponses (wireId e.number) with
    | some known =>
      simp only [State.storedResponse, stored] at ran
      cases ran
      exact stored
    | none =>
      simp only [State.storedResponse, stored, MessageType.ofCode?_code] at ran
      obtain ⟨⟨store, reply⟩, _, made⟩ := Option.map_eq_some_iff.mp ran
      cases made
      exact Function.update_self ..

/-- The table has the answers of the executed requests, and the replies in flight. -/
structure Tabled (w : World Disk) (history : List Performed) : Prop where
  performed : ∀ x ∈ history, w.server.messageResponses x.id = some x.answer.bytes
  replies : ∀ d ∈ w.toClients, ∀ n, d.origin = .reply n →
    w.server.messageResponses (wireId n) = some d.bytes

variable {files : κ → Option Bytes} {history : List Performed}

theorem World.Initial.tabled (initial : w.Initial) : Tabled w [] where
  performed _ member := absurd member List.not_mem_nil
  replies d member := by
    rw [initial.toClients] at member
    contradiction

theorem Tabled.step {more : List Performed} (tabled : Tabled w history)
    (recorded : Recorded .atMostOnce locate contents path w w' more) : Tabled w' (history ++ more) := by
  cases recorded with
  | quiet _ responses toClients =>
    rw [List.append_nil]
    exact ⟨responses ▸ tabled.performed, fun d member => responses ▸ tabled.replies d (toClients member)⟩
  | delivers env sent p out label valid _ bytes delivered _ explained =>
    constructor
    · intro x member
      rcases List.mem_append.mp member with before | new
      · exact handlePacket_keeps delivered.done (tabled.performed x before)
      · obtain ⟨op, among, rfl⟩ := List.mem_map.mp new
        obtain rfl := Option.mem_toList.mp among
        cases explained with
        | executed id op request fresh response => exact handlePacket_records valid bytes delivered.done response
    · intro d member n origin
      rcases delivered.replies d member n origin with before | ⟨_, rfl, answered⟩
      · exact handlePacket_keeps delivered.done (tabled.replies d before n origin)
      · exact handlePacket_records valid bytes delivered.done answered

/-- A step keeps what the table has. -/
theorem Recorded.keeps {more : List Performed} (recorded : Recorded .atMostOnce locate contents path w w' more)
    (stored : w.server.messageResponses id = some response) : w'.server.messageResponses id = some response := by
  cases recorded with
  | quiet _ responses => rw [responses, stored]
  | delivers _ _ _ _ _ _ _ _ delivered => exact handlePacket_keeps delivered.done stored

/-! ### Failures -/

/-- The user has been told of a failure. -/
def Taken.Failed (t : Taken) : Prop := ∃ message, .errorMessage message ∈ t.notices

/-- A client tells its user of a failure if it takes a reply for one. -/
theorem take_fails {now : Int} {p q : Program} {e : Exchange} {datagram : Bytes} (valid : e.Valid)
    (waiting : p.phase = .waiting e) (took : p.take now datagram = some q) :
    ∃ new, q.screen = p.screen ++ new ∧ ∀ message, .errorMessage message ∈ new → datagram.head? ≠ some 1 := by
  rcases Program.take_shows valid waiting took with same | ⟨resp, accepted, shown⟩
  · exact ⟨[], same.trans (List.append_nil _).symm, nofun⟩
  · have failure (message : Bytes) (member : .errorMessage message ∈ resp.notices) : datagram.head? ≠ some 1 := by
      intro head
      have flagged : (datagram.take msgLength).head? = some 1 := by
        rw [← head]
        cases datagram <;> rfl
      have success := (accepted_head_iff accepted).mpr flagged
      rw [Response.error_shown member] at success
      contradiction
    rcases shown with screen | ⟨data, _, _, _, screen⟩
    · exact ⟨resp.notices, screen, failure⟩
    · refine ⟨resp.notices ++ [.content data], by rw [screen, List.append_assoc], ?_⟩
      intro message member
      apply failure message
      simpa using member

/-- The table has a failure for the request. -/
def Refused (w : World Disk) (t : Taken) : Prop :=
  ∃ response, w.server.messageResponses (wireId t.exchange.number) = some response ∧ response.head? ≠ some 1

theorem networkStep_refused {t : Taken} (settled : Settled w) (tabled : Tabled w history)
    (stepped : networkStep sem path w a = some (w', some t)) (failed : t.Failed) : Refused w t := by
  obtain ⟨d, e, now, p, inFlight, current, took, rfl⟩ := networkStep_taken stepped
  obtain ⟨new, screen, failure⟩ := take_fails (settled.exchanges _ e current)
    (Program.take_waiting current took) took
  obtain ⟨message, member⟩ := failed
  rw [screen, List.drop_left] at member
  exact ⟨d.bytes, tabled.replies d inFlight _ (settled.replies d inFlight e current).1, failure message member⟩

/-- What is refused has not been executed with success. -/
theorem Tabled.refused {t : Taken} {answer : Answer} (tabled : Tabled w history) (refused : Refused w t)
    (among : ⟨t.execution, answer⟩ ∈ history) : ∃ message, answer = .failed message := by
  obtain ⟨response, stored, failure⟩ := refused
  cases (tabled.performed _ among).symm.trans stored
  cases answer with
  | failed message => exact ⟨message, rfl⟩
  | done | content | time => exact absurd rfl failure

/-! ### Runs -/

/-- What holds between the steps, with the failures told so far. -/
structure Final (locate : Bytes → κ) (contents : Disk → κ → Option Bytes) (path : Bytes) (files : κ → Option Bytes)
    (w : World Disk) (outs : List (Option Taken)) : Prop where
  settled : Settled w
  known : ∃ history, Chronicle .atMostOnce locate contents path files w history ∧ Tabled w history
  refused : ∀ t, some t ∈ outs → t.Failed → Refused w t

theorem World.Initial.final (initial : w.Initial) :
    Final locate contents path (contents w.server.store.disk) w [] where
  settled := initial.settled
  known := ⟨[], initial.chronicle, initial.tabled⟩
  refused _ member := absurd member List.not_mem_nil

theorem Final.step {outs : List (Option Taken)} {o : Option Taken}
    (final : Final locate contents path files w outs) (undisturbed : Undisturbed .atMostOnce path w a)
    (lawful : ∀ i env readFails simulateReqLoss simulateReplyLoss sendFails,
      a = .deliver i env readFails simulateReqLoss simulateReplyLoss sendFails → env.os.Lawful locate contents)
    (stepped : networkStep .atMostOnce path w a = some (w', o)) :
    Final locate contents path files w' (outs ++ [o]) := by
  obtain ⟨settled, ⟨history, chronicle, tabled⟩, refused⟩ := final
  obtain ⟨more, recorded, after⟩ := chronicle.step settled.genuine lawful stepped
  refine ⟨(settled.step undisturbed stepped).1, ⟨_, after, tabled.step recorded⟩, ?_⟩
  intro t member failed
  suffices before : Refused w t by
    obtain ⟨response, stored, failure⟩ := before
    exact ⟨response, recorded.keeps stored, failure⟩
  rcases List.mem_append.mp member with earlier | now
  · exact refused t earlier failed
  · obtain rfl := List.mem_singleton.mp now
    exact networkStep_refused settled tabled stepped failed

/-- At most once failures are final. The executed requests of an undisturbed network are one history
of the file service, and a request of whose failure a client has been told is in it with no other
answer than a failure, be it from before the client was told or after. -/
theorem failures_final {start : World Disk} {as : List (Action Disk)} {outs : List (Option Taken)}
    (initial : start.Initial)
    (lawful : ∀ i env readFails simulateReqLoss simulateReplyLoss sendFails,
      .deliver i env readFails simulateReqLoss simulateReplyLoss sendFails ∈ as → env.os.Lawful locate contents)
    (undisturbed : Along (networkStep .atMostOnce path) (Undisturbed .atMostOnce path) start as)
    (ran : run (networkStep .atMostOnce path) start as = some (w, outs)) :
    ∃ history : List Performed, history.map Performed.execution = w.executed ∧
      Trace (Performs locate path) (contents start.server.store.disk) history (contents w.server.store.disk) ∧
      ∀ t, some t ∈ outs → t.Failed → ∀ answer, ⟨t.execution, answer⟩ ∈ history → ∃ message, answer = .failed message := by
  have final : Final locate contents path (contents start.server.store.disk) w outs := by
    refine run_record ?_ initial.final (along_and undisturbed (along_lawful lawful)) ran
    rintro v a v' o told final ⟨ok, fine⟩ stepped
    exact final.step ok fine stepped
  obtain ⟨history, chronicle, tabled⟩ := final.known
  refine ⟨history, chronicle.executed, chronicle.trace, ?_⟩
  intro t member failed answer among
  exact tabled.refused (final.refused t member failed) among

/-! ### A delete, twice -/

def deleteTwo : Input where
  command := .delete ⟨text "a", 1, 2⟩
  prompted := by
    rintro r ⟨⟩
    exact ⟨by decide, by decide, by simp [Request.numbers]⟩

def deleteBeyond : Input where
  command := .delete ⟨text "a", 9, 1⟩
  prompted := by
    rintro r ⟨⟩
    exact ⟨by decide, by decide, by simp [Request.numbers]⟩

/-- Both copies of a delete arrive, the second one after the client was told of the failure. -/
def refusedTwice : List (Action FileSystem) :=
  [.command soleClient 0 deleteBeyond, .transmit soleClient false, .timeout soleClient,
   .transmit soleClient false, arrives, .take soleClient 0 0, arrives]

theorem failures_final_refusedTwice :
    ∃ (w : World FileSystem) (outs : List (Option Taken)) (history : List Performed) (t : Taken),
      run (networkStep .atMostOnce []) idleWorld refusedTwice = some (w, outs) ∧ some t ∈ outs ∧ t.Failed ∧
      ∃ message, history = [⟨t.execution, .failed message⟩] := by
  have outcome : (run (networkStep .atMostOnce []) idleWorld refusedTwice).map (fun (w, outs) =>
      (w.executed, outs[5]?.join.map fun t => (t.execution, t.notices))) =
      some ([⟨soleClient, 0, .delete ⟨text "a", 9, 1⟩⟩], some (⟨soleClient, 0, .delete ⟨text "a", 9, 1⟩⟩,
        [.success .delete false, .errorMessage (text "offset exceeds file length")])) := by
    decide +kernel
  have checked : checkAlong (networkStep .atMostOnce []) (undisturbed .atMostOnce []) idleWorld refusedTwice = true := by
    decide +kernel
  have lawful : refusedTwice.Forall (Action.Lawful id FileSystem.bytes) := by
    simp [refusedTwice, arrives, Action.Lawful, env_lawful]
  obtain ⟨⟨w, outs⟩, ran, made⟩ := Option.map_eq_some_iff.mp outcome
  obtain ⟨executed, taken⟩ := Prod.mk.inj made
  obtain ⟨t, here, made⟩ := Option.map_eq_some_iff.mp taken
  obtain ⟨execution, notices⟩ := Prod.mk.inj made
  have member : some t ∈ outs := List.mem_of_getElem? (Option.join_eq_some_iff.mp here)
  have failed : t.Failed := ⟨text "offset exceeds file length", by simp [notices]⟩
  obtain ⟨history, same, _, final⟩ := failures_final idleWorld_initial (lawful_of_forall lawful)
    (along_of_check (fun _ _ => undisturbed_sound) checked) ran
  rw [executed, ← execution] at same
  obtain ⟨⟨request, answer⟩, rfl, rfl⟩ := List.map_eq_singleton_iff.mp same
  obtain ⟨message, rfl⟩ := final t member failed answer (List.mem_singleton.mpr rfl)
  exact ⟨w, outs, _, t, ran, member, failed, message, rfl⟩

/-- At least once the first copy may succeed, its reply get lost, and the second one fail. -/
def deletedTwice : List (Action FileSystem) :=
  [.command soleClient 0 deleteTwo, .transmit soleClient false, .timeout soleClient, .transmit soleClient false,
   .deliver 0 (FileSystem.env Faults.none 0) false false true false, arrives, .take soleClient 0 0]

theorem deletedTwice_fails :
    Along (networkStep .atLeastOnce []) (Undisturbed .atLeastOnce []) idleWorld deletedTwice ∧
    ∃ (w : World FileSystem) (outs : List (Option Taken)) (t : Taken),
      run (networkStep .atLeastOnce []) idleWorld deletedTwice = some (w, outs) ∧ some t ∈ outs ∧ t.Failed ∧
      FileSystem.bytes w.server.store.disk (text "/a") = some (text "1") := by
  have checked : checkAlong (networkStep .atLeastOnce []) (undisturbed .atLeastOnce []) idleWorld deletedTwice = true := by
    decide +kernel
  have outcome : (run (networkStep .atLeastOnce []) idleWorld deletedTwice).map (fun (w, outs) =>
      (FileSystem.bytes w.server.store.disk (text "/a"), outs[6]?.join.map Taken.notices)) =
      some (some (text "1"), some [.success .delete false, .errorMessage (text "segment to delete exceeds file length")]) := by
    decide +kernel
  refine ⟨along_of_check (fun _ _ => undisturbed_sound) checked, ?_⟩
  obtain ⟨⟨w, outs⟩, ran, made⟩ := Option.map_eq_some_iff.mp outcome
  obtain ⟨file, taken⟩ := Prod.mk.inj made
  obtain ⟨t, here, notices⟩ := Option.map_eq_some_iff.mp taken
  exact ⟨w, outs, t, ran, List.mem_of_getElem? (Option.join_eq_some_iff.mp here),
    ⟨text "segment to delete exceeds file length", by simp [notices]⟩, file⟩

end RemoteFile.System
