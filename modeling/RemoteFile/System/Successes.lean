import RemoteFile.Client.Notices
import RemoteFile.System.Histories

/-! What a reported success is worth when replies may be late or repeated: some update or
subscription has been executed for it, though perhaps not the one that the client reports. -/
namespace RemoteFile.Client
open Octets Cpp Cpp.Outcome

variable {kind k : MessageType} {msg : Bytes}

theorem status_success {resp : StatusResponse} (accepted : unmarshalStatusResponse msg = returns resp)
    (success : resp.success = true) : msg = [1] := by
  have decoded := unmarshalStatusResponse_decoded msg
  rw [accepted] at decoded
  cases decoded with
  | success => rfl
  | message => contradiction

theorem statusNotices_success {resp : StatusResponse} (member : .success kind true ∈ statusNotices k resp) :
    kind = k ∧ resp.success = true := by
  cases success : resp.success with
  | true => simpa [statusNotices, success] using member
  | false => simp [statusNotices, success] at member

/-- A success is shown of the lone success flag, taken for a reply of its kind. -/
theorem accepted_success {resp : Client.Response} (accepted : unmarshalResponse k msg = returns resp)
    (member : .success kind true ∈ resp.notices) : kind = k ∧ msg = [1] := by
  cases k with
  | write | subscribe | replace | delete =>
    obtain ⟨status, decoded, made⟩ := bind_returns_iff.mp accepted
    cases made
    obtain ⟨same, success⟩ := statusNotices_success member
    exact ⟨same, status_success decoded success⟩
  | read | getLastModifiedTime =>
    obtain ⟨resp, _, made⟩ := bind_returns_iff.mp accepted
    cases made
    rw [Response.notices] at member
    split at member <;> simp at member

/-- A client reports a success when it takes the lone success flag for a reply. -/
theorem Program.take_announces {now : Int} {p q : Program} {e : Exchange} {datagram : Bytes} (valid : e.Valid)
    (waiting : p.phase = .waiting e) (took : p.take now datagram = some q) :
    ∃ new, q.screen = p.screen ++ new ∧ ∀ kind, .success kind true ∈ new →
      kind = e.request.messageType ∧ datagram = [1] := by
  have whole : datagram.take msgLength = [1] → datagram = [1] := by
    intro flag
    have size := congrArg List.length flag
    simp only [List.length_take, List.length_singleton, msgLength] at size
    rwa [List.take_of_length_le (by simp only [msgLength]; omega)] at flag
  rcases take_shows valid waiting took with same | ⟨resp, accepted, shown⟩
  · exact ⟨[], same.trans (List.append_nil _).symm, nofun⟩
  · have announced (kind : MessageType) (member : .success kind true ∈ resp.notices) :=
      (accepted_success accepted member).imp_right whole
    rcases shown with screen | ⟨data, _, _, _, screen⟩
    · exact ⟨resp.notices, screen, announced⟩
    · refine ⟨resp.notices ++ [.content data], by rw [screen, List.append_assoc], ?_⟩
      intro kind member
      apply announced kind
      simpa using member

end RemoteFile.Client

namespace RemoteFile.System
open Octets Go Transition Refinement Server Client

variable {Disk κ : Type} {sem : InvocationSemantic} {path : Bytes} {locate : Bytes → κ}
  {contents : Disk → κ → Option Bytes} {w w' : World Disk} {history : List Performed}

/-- What stands behind a success that a client reports: an executed request that was answered
with success, under the message id of the reply, or else a notification that a file consists of
this one byte. -/
inductive Backed (sem : InvocationSemantic) (history : List Performed) (t : Taken) : Prop where
  | performed (x : Performed) (n : Nat) (among : x ∈ history) (answer : x.answer = .done)
      (origin : t.origin = .reply n) (id : x.id = wireId n)
      (own : sem = .atLeastOnce → x.execution.client = t.client ∧ x.execution.number = n)
  | notified (origin : t.origin = .notification) (single : t.bytes = [1])

theorem Backed.later {t : Taken} {more : List Performed} (backed : Backed sem history t) :
    Backed sem (history ++ more) t := by
  cases backed with
  | performed x n among answer origin id own =>
    exact .performed x n (List.mem_append_left _ among) answer origin id own
  | notified origin single => exact .notified origin single

/-- Each success that has been reported. -/
def Reported (sem : InvocationSemantic) (history : List Performed) (t : Taken) : Prop :=
  ∀ kind, .success kind true ∈ t.notices → kind = t.exchange.request.messageType ∧ Backed sem history t

theorem networkStep_reported {files : κ → Option Bytes} {a : Action Disk} {t : Taken}
    (chronicle : Chronicle sem locate contents path files w history) (genuine : Genuine w)
    (stepped : networkStep sem path w a = some (w', some t)) : Reported sem history t := by
  obtain ⟨d, e, now, p, inFlight, current, took, rfl⟩ := networkStep_taken stepped
  obtain ⟨new, screen, announces⟩ := Program.take_announces (genuine.current _ e current)
    (Program.take_waiting current took) took
  intro kind member
  rw [screen, List.drop_left] at member
  obtain ⟨kind, flag⟩ := announces kind member
  refine ⟨kind, ?_⟩
  cases origin : d.origin with
  | notification => exact .notified rfl flag
  | reply n =>
    obtain ⟨x, among, id, bytes, own⟩ := chronicle.replies d inFlight n origin (by rw [flag]; rfl)
    exact .performed x n among (Answer.eq_done (flag ▸ bytes).symm) rfl id own

/-- In every network, with any losses, delays and repetitions: a success that a client reports
is of the kind of its request, and behind it stands an executed update or subscription with the
message id of the reply, or a notification. The executed requests are a history of the service. -/
theorem successes_backed {start : World Disk} {as : List (Action Disk)} {outs : List (Option Taken)}
    (initial : start.Initial)
    (lawful : ∀ i env readFails simulateReqLoss simulateReplyLoss sendFails,
      .deliver i env readFails simulateReqLoss simulateReplyLoss sendFails ∈ as → env.os.Lawful locate contents)
    (ran : run (networkStep sem path) start as = some (w, outs)) :
    ∃ history : List Performed, history.map Performed.execution = w.executed ∧
      Trace (Performs locate path) (contents start.server.store.disk) history (contents w.server.store.disk) ∧
      ∀ t, some t ∈ outs → ∀ kind, .success kind true ∈ t.notices →
        kind = t.exchange.request.messageType ∧ Backed sem history t := by
  suffices invariant : Genuine w ∧ ∃ history,
      Chronicle sem locate contents path (contents start.server.store.disk) w history ∧
        ∀ t, some t ∈ outs → Reported sem history t by
    obtain ⟨_, history, chronicle, reported⟩ := invariant
    exact ⟨history, chronicle.executed, chronicle.trace, reported⟩
  refine run_record (P := fun w outs => Genuine w ∧ ∃ history,
    Chronicle sem locate contents path (contents start.server.store.disk) w history ∧
      ∀ t, some t ∈ outs → Reported sem history t) ?_ ?_ (along_lawful lawful) ran
  · rintro v a v' o past ⟨genuine, history, chronicle, reported⟩ fine stepped
    obtain ⟨more, _, after⟩ := chronicle.step genuine fine stepped
    refine ⟨genuine.preserved (networkStep_moved genuine.current stepped), history ++ more, after, ?_⟩
    intro t member kind success
    rcases List.mem_append.mp member with before | now
    · exact (reported t before kind success).imp_right Backed.later
    · cases List.mem_singleton.mp now
      exact (networkStep_reported chronicle genuine stepped kind success).imp_right Backed.later
  · exact ⟨initial.genuine, [], initial.chronicle, nofun⟩

/-- The second write, which never arrives, is reported on the strength of the first one. -/
theorem successes_backed_lateDuplicate : ∃ (w : World FileSystem) (outs : List (Option Taken))
    (history : List Performed) (t : Taken),
    run (networkStep .atMostOnce []) idleWorld lateDuplicate = some (w, outs) ∧ some t ∈ outs ∧
    t.exchange.number = 1 ∧ Backed .atMostOnce history t ∧
    history.map Performed.execution = [⟨soleClient, 0, .write ⟨text "a", 0, text "x"⟩⟩] := by
  have outcome : (run (networkStep .atMostOnce []) idleWorld lateDuplicate).map (fun (w, outs) =>
      (w.executed, outs.getLast?.join.map fun t => (t.exchange.number, t.notices))) =
      some ([⟨soleClient, 0, .write ⟨text "a", 0, text "x"⟩⟩], some (1, [.success .write true])) := by
    decide +kernel
  obtain ⟨⟨w, outs⟩, ran, same⟩ := Option.map_eq_some_iff.mp outcome
  obtain ⟨executed, last⟩ := Prod.mk.inj same
  obtain ⟨t, last, told⟩ := Option.map_eq_some_iff.mp last
  obtain ⟨number, notices⟩ := Prod.mk.inj told
  have member : some t ∈ outs := List.mem_of_getLast? (Option.join_eq_some_iff.mp last)
  obtain ⟨history, executions, _, backed⟩ := successes_backed idleWorld_initial lateDuplicate_lawful ran
  have success : .success .write true ∈ t.notices := by simp [notices]
  exact ⟨w, outs, history, t, ran, member, number, (backed t member .write success).2, executions.trans executed⟩

end RemoteFile.System
