import Mathlib.Data.List.ReduceOption
import RemoteFile.System.Network

/-! Whether a client takes only replies to its own pending request. A reply names
no request, so this rests on nothing else being in flight to a waiting client:
runs in which leftovers stay away are safe, and a late duplicate is not. -/
namespace RemoteFile.System
open Octets Go Transition Server Client

variable {Disk : Type} {sem : InvocationSemantic} {path : Bytes} {w w' : World Disk}

/-- The datagram taken for a reply is the router's answer to the pending request,
and a success that the client then reports is of a request that the server has
executed. -/
structure OwnReply (w : World Disk) (t : Taken) : Prop where
  origin : t.origin = .reply t.exchange.number
  success : ∀ kind, .success kind true ∈ t.notices → kind = t.exchange.request.messageType ∧
    ⟨t.client, t.exchange.number, t.exchange.request⟩ ∈ w.executed

theorem networkStep_executed {a : Action Disk} {t : Option Taken}
    (stepped : networkStep sem path w a = some (w', t)) : w.executed ⊆ w'.executed := by
  cases a with
  | deliver i env readFails simulateReqLoss simulateReplyLoss sendFails =>
    obtain ⟨sent, _, rest⟩ := Option.bind_eq_some_iff.mp stepped
    obtain ⟨v, delivery, made⟩ := Option.bind_eq_some_iff.mp rest
    cases made
    obtain ⟨_, _, made⟩ := Option.bind_eq_some_iff.mp delivery
    cases made
    exact List.subset_append_left _ _
  | loseRequest i | loseDatagram i =>
    cases stepped
    exact List.Subset.refl _
  | command client now input | transmit client sendFails | timeout client | expire k =>
    obtain ⟨_, _, made⟩ := Option.bind_eq_some_iff.mp stepped
    cases made
    exact List.Subset.refl _
  | take client now i =>
    obtain ⟨_, _, rest⟩ := Option.bind_eq_some_iff.mp stepped
    obtain ⟨_, _, rest⟩ := Option.bind_eq_some_iff.mp rest
    obtain ⟨_, _, made⟩ := Option.bind_eq_some_iff.mp rest
    cases made
    exact List.Subset.refl _
  | listen client now i =>
    cases i with
    | none =>
      obtain ⟨_, _, made⟩ := Option.bind_eq_some_iff.mp stepped
      cases made
      exact List.Subset.refl _
    | some i =>
      obtain ⟨_, _, rest⟩ := Option.bind_eq_some_iff.mp stepped
      obtain ⟨_, _, made⟩ := Option.bind_eq_some_iff.mp rest
      cases made
      exact List.Subset.refl _

theorem setClient_changes {client : UDPAddr} {p : Program}
    (different : p.requests ≠ (w.clients client).requests) :
    ((w.setClient client p).clients client).requests ≠ (w.clients client).requests := by
  simpa only [World.setClient, Function.update_self] using different

theorem Settled.command {client : UDPAddr} {now : Int} {input : Input} {t : Option Taken}
    (settled : Settled w) (ok : Undisturbed sem path w (.command client now input))
    (stepped : networkStep sem path w (.command client now input) = some (w', t)) :
    Settled w' ∧ t = none := by
  obtain ⟨p, commanded, made⟩ := Option.bind_eq_some_iff.mp stepped
  cases made
  refine ⟨?_, rfl⟩
  refine settled.moved (Program.command_moves commanded) (List.Subset.refl _) fun different => ?_
  exact ok.begins _ _ stepped client (setClient_changes different)

theorem Settled.take {client : UDPAddr} {now : Int} {i : Nat} {t : Option Taken}
    (settled : Settled w) (ok : Undisturbed sem path w (.take client now i))
    (stepped : networkStep sem path w (.take client now i) = some (w', t)) :
    Settled w' ∧ ∃ taken, t = some taken ∧ OwnReply w' taken := by
  obtain ⟨d, arrived, rest⟩ := Option.bind_eq_some_iff.mp stepped
  obtain ⟨e, current, rest⟩ := Option.bind_eq_some_iff.mp rest
  obtain ⟨p, took, made⟩ := Option.bind_eq_some_iff.mp rest
  obtain ⟨inFlight, rfl⟩ := World.arriving_iff.mp arrived
  cases made
  have valid := settled.exchanges _ e current
  have waiting := Program.take_waiting current took
  obtain ⟨moves, new, screen, reports⟩ := Program.take_spec valid waiting took
  obtain ⟨origin, executed⟩ := settled.replies d (List.mem_of_getElem? inFlight) e current
  refine ⟨?_, _, rfl, origin, fun kind member => ?_⟩
  · refine settled.moved moves List.eraseIdx_subset fun different => ?_
    exact ok.begins _ _ stepped d.client (setClient_changes different)
  · rw [screen, List.drop_left] at member
    obtain ⟨same, success⟩ := reports kind member
    exact ⟨same, executed success⟩

theorem none_taken (w : World Disk) : ∀ taken, (none : Option Taken) = some taken → OwnReply w taken := by
  intro taken same
  contradiction

/-- An undisturbed step keeps the world settled, and a reply it takes is the
client's own. -/
theorem Settled.step {a : Action Disk} {t : Option Taken} (settled : Settled w)
    (ok : Undisturbed sem path w a) (stepped : networkStep sem path w a = some (w', t)) :
    Settled w' ∧ ∀ taken, t = some taken → OwnReply w' taken := by
  cases a with
  | command client now input =>
    obtain ⟨next, rfl⟩ := settled.command ok stepped
    exact ⟨next, none_taken _⟩
  | take client now i =>
    obtain ⟨next, taken, rfl, own⟩ := settled.take ok stepped
    exact ⟨next, fun _ same => Option.some.inj same ▸ own⟩
  | transmit client sendFails =>
    obtain ⟨⟨p, sent⟩, transmitted, made⟩ := Option.bind_eq_some_iff.mp stepped
    cases made
    obtain ⟨same, _, current⟩ := Program.transmit_cases transmitted
    refine ⟨?_, none_taken _⟩
    refine (settled.retried same).transmitted fun e sending => ?_
    simp only [World.setClient, Function.update_self, same]
    exact current e sending
  | timeout client =>
    obtain ⟨p, timedOut, made⟩ := Option.bind_eq_some_iff.mp stepped
    cases made
    exact ⟨settled.retried (Program.timeout_same timedOut).1, none_taken _⟩
  | deliver i env readFails simulateReqLoss simulateReplyLoss sendFails =>
    obtain ⟨sent, inFlight, rest⟩ := Option.bind_eq_some_iff.mp stepped
    obtain ⟨v, delivery, made⟩ := Option.bind_eq_some_iff.mp rest
    cases made
    obtain ⟨valid, matching⟩ := settled.inFlight sent (List.mem_of_getElem? inFlight)
    refine ⟨?_, none_taken _⟩
    refine (settled.lost List.eraseIdx_subset (List.Subset.refl _)).delivered matching ?_
      (ok.notified _ _ stepped) (deliver_spec valid delivery)
    intro other amo recorded
    exact ok.stored _ _ _ _ _ _ sent other rfl amo inFlight recorded
  | loseRequest i =>
    cases stepped
    exact ⟨settled.lost List.eraseIdx_subset (List.Subset.refl _), none_taken _⟩
  | loseDatagram i =>
    cases stepped
    exact ⟨settled.lost (List.Subset.refl _) List.eraseIdx_subset, none_taken _⟩
  | expire k =>
    obtain ⟨store, _, made⟩ := Option.bind_eq_some_iff.mp stepped
    cases made
    exact ⟨⟨settled.exchanges, settled.inFlight, settled.replies, settled.recorded⟩, none_taken _⟩
  | listen client now i =>
    cases i with
    | none =>
      obtain ⟨p, listened, made⟩ := Option.bind_eq_some_iff.mp stepped
      cases made
      obtain ⟨outside, ends⟩ := Program.listen_ends listened
      exact ⟨settled.retried (ends.exchange.trans outside.symm), none_taken _⟩
    | some i =>
      obtain ⟨d, _, rest⟩ := Option.bind_eq_some_iff.mp stepped
      obtain ⟨p, listened, made⟩ := Option.bind_eq_some_iff.mp rest
      cases made
      obtain ⟨_, ends⟩ := Program.listen_ends listened
      refine ⟨settled.moved (.inl ends) List.eraseIdx_subset fun different => ?_, none_taken _⟩
      exact absurd ends.requests different

/-- In every run whose steps are undisturbed, under either semantics, a datagram
that a client takes for the reply to its k-th request is the router's answer to
that request, and whenever the client reports a success the server has executed
that very request. -/
theorem takes_own_replies {start : World Disk} {as : List (Action Disk)} {outs : List (Option Taken)}
    (initial : start.Initial) (undisturbed : Along (networkStep sem path) (Undisturbed sem path) start as)
    (ran : run (networkStep sem path) start as = some (w, outs)) :
    ∀ t, some t ∈ outs → OwnReply w t := by
  intro t member
  refine run_emits (Q := fun w o => ∀ t, o = some t → OwnReply w t) ?_ ?_ initial.settled undisturbed
    ran (some t) member t rfl
  · intro v a v' o settled ok stepped
    exact settled.step ok stepped
  · intro v a v' o o' stepped own t same
    obtain ⟨origin, success⟩ := own t same
    refine ⟨origin, fun kind reported => ?_⟩
    obtain ⟨kinds, executed⟩ := success kind reported
    exact ⟨kinds, networkStep_executed stepped executed⟩

/-- Once a leftover is in flight to a waiting client nothing keeps the client from
taking it. -/
theorem leftover_taken {client : UDPAddr} {e : Exchange} {d : Datagram} {i : Nat}
    (waiting : (w.clients client).phase = .waiting e) (inFlight : w.toClients[i]? = some d)
    (here : d.client = client) (leftover : d.origin ≠ .reply e.number) (now : Int) :
    ∃ w' t, networkStep sem path w (.take client now i) = some (w', some t) ∧ ¬ OwnReply w' t := by
  have current : (w.clients client).exchange? = some e := by
    simp only [Program.exchange?, waiting]
  have arrives := World.arriving_iff.mpr ⟨inFlight, here⟩
  obtain ⟨p, took⟩ : ∃ p, (w.clients client).take now d.bytes = some p := by
    simp only [Program.take, waiting]
    exact ⟨_, rfl⟩
  refine ⟨{ w.setClient client p with toClients := w.toClients.eraseIdx i },
    ⟨client, e, d.origin, d.bytes, p.screen.drop (w.clients client).screen.length⟩, ?_,
    fun own => leftover own.origin⟩
  simp only [networkStep, arrives, current, took, Option.bind_eq_bind, Option.bind_some]

/-! ### One client, two writes -/

def soleClient : UDPAddr := ⟨[], 7⟩

def idleWorld : World FileSystem :=
  ⟨oneFile, fun _ => Program.start 1000, [], [], [], fun _ => none⟩

theorem idleWorld_initial : idleWorld.Initial :=
  ⟨rfl, fun _ => rfl, rfl, rfl, rfl, rfl⟩

def firstWrite : Input := .write ⟨text "a", 0, text "x"⟩ ⟨by decide, by decide, by simp [Request.numbers]⟩
def secondWrite : Input := .write ⟨text "a", 0, text "y"⟩ ⟨by decide, by decide, by simp [Request.numbers]⟩

def arrives : Action FileSystem := .deliver 0 (FileSystem.env Faults.none 0) false false false false

/-- The first write is transmitted twice, and its second copy is answered while
the client waits for the reply to its second write, which is lost. -/
def lateDuplicate : List (Action FileSystem) :=
  [.command soleClient 0 firstWrite, .transmit soleClient false, .timeout soleClient,
   .transmit soleClient false, arrives, .take soleClient 0 0,
   .command soleClient 0 secondWrite, .transmit soleClient false, arrives, .loseRequest 0,
   .take soleClient 0 0]

/-- The client reports that its second write succeeded; the server never saw it. -/
theorem takes_own_replies_fails :
    idleWorld.Initial ∧ ∃ (w : World FileSystem) (outs : List (Option Taken)) (t : Taken),
      run (networkStep .atMostOnce []) idleWorld lateDuplicate = some (w, outs) ∧ some t ∈ outs ∧
      t.exchange.number = 1 ∧ t.origin = .reply 0 ∧ .success .write true ∈ t.notices ∧
      (w.server.store.disk.files (text "/a")).map File.content = some (text "x123") ∧
      ¬ OwnReply w t := by
  have outcome : (run (networkStep .atMostOnce []) idleWorld lateDuplicate).map (fun (w, outs) =>
      (((w.server.store.disk.files (text "/a")).map File.content, outs.getLast?.join.map Taken.origin),
        outs.getLast?.join.map fun t => (t.exchange.number, t.notices))) =
      some ((some (text "x123"), some (.reply 0)), some (1, [.success .write true])) := by
    decide +kernel
  obtain ⟨⟨w, outs⟩, ran, same⟩ := Option.map_eq_some_iff.mp outcome
  obtain ⟨first, second⟩ := Prod.mk.inj same
  obtain ⟨content, third⟩ := Prod.mk.inj first
  obtain ⟨t, last, origin⟩ := Option.map_eq_some_iff.mp third
  rw [last] at second
  obtain ⟨number, notices⟩ := Prod.mk.inj (Option.some.inj second)
  have member : some t ∈ outs := List.mem_of_getLast? (Option.join_eq_some_iff.mp last)
  refine ⟨idleWorld_initial, w, outs, t, ran, member, number, origin, ?_, content, ?_⟩
  · rw [notices]
    exact List.mem_singleton.mpr rfl
  · intro own
    have same := own.origin
    rw [origin, number] at same
    exact absurd same (by decide)

/-- The reply to the first write is lost and its retransmission answered from the
table; then comes the second write. -/
def lostReply : List (Action FileSystem) :=
  [.command soleClient 0 firstWrite, .transmit soleClient false,
   .deliver 0 (FileSystem.env Faults.none 0) false false true false, .timeout soleClient,
   .transmit soleClient false, arrives, .take soleClient 0 0,
   .command soleClient 0 secondWrite, .transmit soleClient false, arrives, .take soleClient 0 0]

theorem takes_own_replies_retransmitted :
    ∃ (w : World FileSystem) (outs : List (Option Taken)) (first second : Taken),
      some first ∈ outs ∧ first.exchange.number = 0 ∧ first.notices = [.success .write true] ∧
      some second ∈ outs ∧ second.exchange.number = 1 ∧ second.notices = [.success .write true] ∧
      OwnReply w first ∧ OwnReply w second ∧
      (w.server.store.disk.files (text "/a")).map File.content = some (text "yx123") := by
  have outcome : (run (networkStep .atMostOnce []) idleWorld lostReply).map (fun (w, outs) =>
      ((w.server.store.disk.files (text "/a")).map File.content,
        outs.reduceOption.map fun t => (t.exchange.number, t.notices))) =
      some (some (text "yx123"), [(0, [.success .write true]), (1, [.success .write true])]) := by
    decide +kernel
  have checked : checkAlong (networkStep .atMostOnce []) (undisturbed .atMostOnce []) idleWorld
      lostReply = true := by decide +kernel
  obtain ⟨⟨w, outs⟩, ran, same⟩ := Option.map_eq_some_iff.mp outcome
  obtain ⟨content, taken⟩ := Prod.mk.inj same
  obtain ⟨first, rest, both, told, taken⟩ := List.map_eq_cons_iff.mp taken
  obtain ⟨second, rfl, told'⟩ := List.map_eq_singleton_iff.mp taken
  have member : some first ∈ outs := List.reduceOption_mem_iff.mp (by simp [both])
  have member' : some second ∈ outs := List.reduceOption_mem_iff.mp (by simp [both])
  have own := takes_own_replies idleWorld_initial (along_of_check (fun _ _ => undisturbed_sound) checked) ran
  obtain ⟨number, notices⟩ := Prod.mk.inj told
  obtain ⟨number', notices'⟩ := Prod.mk.inj told'
  exact ⟨w, outs, first, second, member, number, notices, member', number', notices', own first member,
    own second member', content⟩

end RemoteFile.System
