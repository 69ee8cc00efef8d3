import RemoteFile.Server.Enlisting
import RemoteFile.System.Histories

/-! Monitoring in a network of clients. Whatever is lost, delayed, reordered or sent again, a
client is sent no notification but what a file has become by an update, under a pathname that
the client has asked to monitor before. -/
namespace RemoteFile.System
open Octets Go Transition Refinement Server Client

variable {Disk κ : Type} {sem : InvocationSemantic} {path : Bytes} {locate : Bytes → κ}
  {contents : Disk → κ → Option Bytes} {w w' : World Disk} {a : Action Disk}
  {files now later : κ → Option Bytes} {history more : List Performed} {client : UDPAddr} {pathname bytes : Bytes}

/-! ### What a notification tells -/

/-- The client has subscribed with the pathname. -/
def Watches (history : List Performed) (client : UDPAddr) (pathname : Bytes) : Prop :=
  ∃ x ∈ history, x.execution.client = client ∧ x.execution.request.messageType = .subscribe ∧
    x.execution.request.pathname = pathname ∧ x.answer = .done

theorem Watches.append (watches : Watches history client pathname) (more : List Performed) :
    Watches (history ++ more) client pathname := by
  obtain ⟨x, member, rest⟩ := watches
  exact ⟨x, List.mem_append_left more member, rest⟩

/-- Once in the history, a file took these bytes by an update under a pathname that the client had
subscribed with. -/
def Announces (locate : Bytes → κ) (path : Bytes) (files now : κ → Option Bytes) (history : List Performed)
    (client : UDPAddr) (bytes : Bytes) : Prop :=
  ∃ before x after files', history = before ++ x :: after ∧
    Trace (Performs locate path) files (before ++ [x]) files' ∧ Trace (Performs locate path) files' after now ∧
    x.execution.request.updates = true ∧ x.answer = .done ∧
    files' (locate (concatenatePaths path x.execution.request.pathname)) = some bytes ∧
    Watches before client x.execution.request.pathname

theorem Announces.append (announces : Announces locate path files now history client bytes)
    (trace : Trace (Performs locate path) now more later) :
    Announces locate path files later (history ++ more) client bytes := by
  obtain ⟨before, x, after, files', rfl, first, second, rest⟩ := announces
  exact ⟨before, x, after ++ more, files', by simp, first, second.append trace, rest⟩

/-! ### What a delivery tells -/

theorem accepts_trace {sent : Sent} {label : Option Operation} (accepts : Accepts locate path now label later) :
    Trace (Performs locate path) now (label.toList.map sent.performed) later := by
  cases label with
  | none =>
    cases accepts
    exact .nil _
  | some op => exact .cons accepts (.nil _)

/-- The table lists subscribers only, and notifications in flight tell what files have become. -/
structure Monitored (locate : Bytes → κ) (contents : Disk → κ → Option Bytes) (path : Bytes)
    (files : κ → Option Bytes) (w : World Disk) (history : List Performed) : Prop where
  listed : w.server.store.Enlists fun pathname client => Watches history client pathname
  notifications : ∀ d ∈ w.toClients, d.origin = .notification →
    Announces locate path files (contents w.server.store.disk) history d.client d.bytes

namespace Monitored

theorem quiet (monitored : Monitored locate contents path files w history)
    (store : w'.server.store = w.server.store ∨ ∃ k, fireTimer w.server.store k = some w'.server.store)
    (toClients : w'.toClients ⊆ w.toClients) : Monitored locate contents path files w' history where
  listed := by
    rcases store with same | ⟨k, fired⟩
    · exact same ▸ monitored.listed
    · exact fireTimer_enlists monitored.listed fired
  notifications d member origin := by
    rw [quiet_disk store]
    exact monitored.notifications d (toClients member) origin

/-- A request is served: the notifications sent tell what it has made of its file. -/
theorem served {env : Env Disk} {sent : Sent} {p : Packet} {out : Handled} {op : Operation}
    (monitored : Monitored locate contents path files w history)
    (chronicle : Chronicle sem locate contents path files w history) (lawful : env.os.Lawful locate contents)
    (delivered : Delivered sem path env sent p w w' out)
    (accepts : Accepts locate path (contents w.server.store.disk) (some op) (contents w'.server.store.disk))
    (served : serveRequest env path p.clientAddress w.server.store op.request =
      some (w'.server.store, op.answer.bytes)) :
    Monitored locate contents path files w' (history ++ [sent.performed op]) := by
  have told := serveRequest_tells lawful monitored.listed served
  have performs : Trace (Performs locate path) (contents w.server.store.disk) [sent.performed op]
    (contents w'.server.store.disk) := accepts_trace accepts
  constructor
  · refine told.listed.mono ?_
    rintro pathname client (watches | ⟨subscribes, reply, rfl, rfl⟩)
    · exact watches.append _
    · refine ⟨_, List.mem_append_right _ (List.mem_singleton.mpr rfl), delivered.address.symm, subscribes, rfl, ?_⟩
      exact Answer.eq_done reply
  · intro d member origin
    rcases delivered.notified d member origin with before | new
    · exact (monitored.notifications d before origin).append performs
    · obtain ⟨updates, reply, holds, watches⟩ := told.since new
      exact ⟨history, sent.performed op, [], _, rfl, chronicle.trace.append performs, .nil _, updates,
        Answer.eq_done reply, holds, watches⟩

theorem delivered {env : Env Disk} {sent : Sent} {p : Packet} {out : Handled} {label : Option Operation}
    (monitored : Monitored locate contents path files w history)
    (chronicle : Chronicle sem locate contents path files w history) (lawful : env.os.Lawful locate contents)
    (delivered : Delivered sem path env sent p w w' out)
    (accepts : Accepts locate path (contents w.server.store.disk) label (contents w'.server.store.disk))
    (explained : Explains sem w.server (.packet env p) out label) :
    Monitored locate contents path files w' (history ++ label.toList.map sent.performed) := by
  rcases handlePacket_served delivered.done with same | ⟨r, reply, executed, served, response⟩
  · constructor
    · rw [same]
      exact monitored.listed.mono fun p c watches => watches.append _
    · intro d member origin
      rcases delivered.notified d member origin with before | new
      · exact (monitored.notifications d before origin).append (accepts_trace accepts)
      · rw [same, List.drop_length] at new
        contradiction
  · rw [explained_request explained] at executed
    obtain ⟨op, rfl, rfl⟩ := Option.map_eq_some_iff.mp executed
    cases explained with
    | executed id op request fresh answered =>
      obtain rfl := Option.some.inj (response.symm.trans answered)
      exact monitored.served chronicle lawful delivered accepts served

theorem step {more : List Performed} (monitored : Monitored locate contents path files w history)
    (chronicle : Chronicle sem locate contents path files w history)
    (recorded : Recorded sem locate contents path w w' more) :
    Monitored locate contents path files w' (history ++ more) := by
  cases recorded with
  | quiet store _ toClients => exact (List.append_nil history).symm ▸ monitored.quiet store toClients
  | delivers env sent p out label _ lawful _ delivered accepts explained =>
    exact monitored.delivered chronicle lawful delivered accepts explained

end Monitored

/-! ### Runs -/

/-- In every network whose server starts without subscriptions, under either semantics, the
executed requests form one history of the file service, and every notification in flight tells a
client the whole content that a file had after an update of the history, which was asked for with a
pathname that the client had subscribed with before. -/
theorem notifications_backed {start : World Disk} {as : List (Action Disk)} {outs : List (Option Taken)}
    (initial : start.Initial) (unsubscribed : start.server.store.subscriptions = fun _ => none)
    (lawful : ∀ i env readFails simulateReqLoss simulateReplyLoss sendFails,
      .deliver i env readFails simulateReqLoss simulateReplyLoss sendFails ∈ as → env.os.Lawful locate contents)
    (ran : run (networkStep sem path) start as = some (w, outs)) :
    ∃ history : List Performed, history.map Performed.execution = w.executed ∧
      Trace (Performs locate path) (contents start.server.store.disk) history (contents w.server.store.disk) ∧
      ∀ d ∈ w.toClients, d.origin = .notification →
        Announces locate path (contents start.server.store.disk) (contents w.server.store.disk) history
          d.client d.bytes := by
  suffices invariant : Genuine w ∧ ∃ history,
      Chronicle sem locate contents path (contents start.server.store.disk) w history ∧
      Monitored locate contents path (contents start.server.store.disk) w history by
    obtain ⟨_, history, chronicle, monitored⟩ := invariant
    exact ⟨history, chronicle.executed, chronicle.trace, monitored.notifications⟩
  have begun : Monitored locate contents path (contents start.server.store.disk) start [] := by
    refine ⟨.empty unsubscribed, fun d member => ?_⟩
    rw [initial.toClients] at member
    contradiction
  refine run_invariant (P := fun w => Genuine w ∧ ∃ history,
    Chronicle sem locate contents path (contents start.server.store.disk) w history ∧
    Monitored locate contents path (contents start.server.store.disk) w history) ?_
    ⟨initial.genuine, [], initial.chronicle, begun⟩ (along_lawful lawful) ran
  rintro v a v' o ⟨genuine, history, chronicle, monitored⟩ fine stepped
  obtain ⟨more, recorded, after⟩ := chronicle.step genuine fine stepped
  exact ⟨genuine.preserved (networkStep_moved genuine.current stepped), history ++ more, after,
    monitored.step chronicle recorded⟩

/-! ### A subscriber and a writer -/

def watcher : UDPAddr := ⟨[], 8⟩

def watchFile : Input where
  command := .subscribe ⟨text "a", 9⟩
  prompted := by
    rintro r ⟨⟩
    exact ⟨by decide, by decide, by simp [Request.numbers]⟩

/-- A client subscribes, and another one writes to the file. -/
def watchedWrite : List (Action FileSystem) :=
  [.command watcher 0 watchFile, .transmit watcher false, arrives, .take watcher 0 0,
   .command soleClient 0 firstWrite, .transmit soleClient false, arrives]

theorem notifications_backed_watchedWrite :
    ∃ (w : World FileSystem) (outs : List (Option Taken)) (history : List Performed),
      run (networkStep .atLeastOnce []) idleWorld watchedWrite = some (w, outs) ∧
      ⟨watcher, text "x123", .notification⟩ ∈ w.toClients ∧
      Announces id [] (FileSystem.bytes idleWorld.server.store.disk) (FileSystem.bytes w.server.store.disk) history
        watcher (text "x123") := by
  have outcome : (run (networkStep .atLeastOnce []) idleWorld watchedWrite).map (fun (w, _) =>
      decide (⟨watcher, text "x123", .notification⟩ ∈ w.toClients)) = some true := by
    decide +kernel
  have lawful : watchedWrite.Forall (Action.Lawful id FileSystem.bytes) := by
    simp [watchedWrite, arrives, Action.Lawful, env_lawful]
  obtain ⟨⟨w, outs⟩, ran, made⟩ := Option.map_eq_some_iff.mp outcome
  have inFlight := of_decide_eq_true made
  obtain ⟨history, _, _, announced⟩ := notifications_backed idleWorld_initial rfl (lawful_of_forall lawful) ran
  exact ⟨w, outs, history, ran, inFlight, announced _ inFlight rfl⟩

end RemoteFile.System
