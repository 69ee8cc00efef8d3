import RemoteFile.Server.Survival

/-! The two invocation semantics beside each other. While no message id comes twice they are
the same; a request that is delivered several times is executed as often at least once, and
once at most once. -/
namespace RemoteFile.Server
open Octets Go Transition

variable {Disk κ : Type} {locate : Bytes → κ} {contents : Disk → κ → Option Bytes}
  {sem : InvocationSemantic} {path : Bytes} {s t : State Disk} {e : Event Disk} {o : Handled}

/-! ### Without repetitions -/

theorem handled_requests {env : Env Disk} {p : Packet} {id : UInt32} {decoded : Option Request}
    (ran : p.handled sem s = some (id, decoded)) : (Event.packet env p).Requests id := by
  obtain ⟨⟨d, addr⟩, routed, handles⟩ := Option.bind_eq_some_iff.mp ran
  obtain ⟨⟨code, id', data⟩, head, rest⟩ := Option.bind_eq_some_iff.mp handles
  obtain ⟨kind, known, run⟩ := Option.bind_eq_some_iff.mp rest
  split at run
  · contradiction
  · cases run
    exact ⟨code, by simp [Event.header?, routed, head], by rw [known]; rfl⟩

/-- A response is stored for the ids requested only. -/
theorem serverStep_stores (stepped : serverStep sem path s e = some (t, o)) {id : UInt32}
    (unrequested : ¬ e.Requests id) : t.messageResponses id = s.messageResponses id := by
  cases e with
  | timer k =>
    obtain ⟨store, _, made⟩ := Option.map_eq_some_iff.mp stepped
    cases made
    rfl
  | packet env p =>
    rcases handlePacket_table stepped with ⟨_, same⟩ | ⟨id', decoded, reply, ran, _, table, _⟩
    · rw [same]
    · have other : id ≠ id' := by
        rintro rfl
        exact unrequested (handled_requests ran)
      rw [table, Function.update_of_ne other]

/-- A step on an id without a stored response. -/
theorem serverStep_agrees (unknown : ∀ id, e.Carries id → s.messageResponses id = none) :
    serverStep .atMostOnce path s e = serverStep .atLeastOnce path s e := by
  cases e with
  | timer k => rfl
  | packet env p =>
    rw [serverStep, serverStep, handlePacket_eq, handlePacket_eq]
    cases routed : p.routed with
    | none => rfl
    | some arrival =>
      obtain ⟨d, addr⟩ := arrival
      have same : routeRequest .atMostOnce env path addr d s = routeRequest .atLeastOnce env path addr d s := by
        rw [routeRequest_eq, routeRequest_eq]
        cases head : header d with
        | none => rfl
        | some fields =>
          obtain ⟨code, id, data⟩ := fields
          have fresh := unknown id ⟨code, by simp [Event.header?, routed, head]⟩
          simp only [State.storedResponse, fresh]
      simp only [same]

/-- On every run in which no message id comes again after it has been requested, the two
semantics do the same: they answer alike, leave the same files, subscriptions and responses,
and panic on the same packet. -/
theorem semantics_agree {es : List (Event Disk)} (empty : s.messageResponses = fun _ => none)
    (distinct : es.Pairwise fun e e' => ∀ id, e.Requests id → ¬ e'.Carries id) :
    run (serverStep .atMostOnce path) s es = run (serverStep .atLeastOnce path) s es := by
  have unknown : ∀ e ∈ es, ∀ id, e.Carries id → s.messageResponses id = none := by
    intro e _ id _
    rw [empty]
  clear empty
  induction es generalizing s with
  | nil => rfl
  | cons e es ih =>
    obtain ⟨apart, rest⟩ := List.pairwise_cons.mp distinct
    obtain ⟨here, later⟩ := List.forall_mem_cons.mp unknown
    rw [run, run, serverStep_agrees here]
    cases stepped : serverStep .atLeastOnce path s e with
    | none => rfl
    | some result =>
      obtain ⟨t, o⟩ := result
      have next : ∀ e' ∈ es, ∀ id, e'.Carries id → t.messageResponses id = none := by
        intro e' member id carries
        rw [serverStep_stores stepped fun requests => apart e' member id requests carries]
        exact later e' member id carries
      simp only [Option.bind_eq_bind, Option.bind_some, ih rest next]

/-- A write and a read of what it has written. -/
def writeAndRead : List (Event FileSystem) :=
  let env := FileSystem.env Faults.none 0
  [.packet env ⟨⟨[], 7⟩, Request.datagram 5 (.write ⟨text "a", 1, text "xy"⟩), false, false, false, false⟩,
   .packet env ⟨⟨[], 7⟩, Request.datagram 6 (.read ⟨text "a", 0, 5⟩), false, false, true, false⟩]

theorem semantics_agree_writeAndRead : run (serverStep .atMostOnce []) oneFile writeAndRead =
    run (serverStep .atLeastOnce []) oneFile writeAndRead := by
  apply semantics_agree rfl
  have headers : writeAndRead.map Event.header? = [some (2, 5), some (1, 6)] := by decide +kernel
  obtain ⟨first, second⟩ := List.cons.inj headers
  refine List.pairwise_pair.mpr ?_
  rintro id ⟨code, here, _⟩ ⟨code', there⟩
  cases here.symm.trans first
  cases there.symm.trans (List.cons.inj second).1

/-! ### With repetitions -/

section

variable {env : Env Disk} {addr : UDPAddr} {r : Request} {id : UInt32} {f : Bytes}

/-- An event that requests nothing under the id and updates no such file. -/
structure Event.Elsewhere (e : Event Disk) (locate : Bytes → κ) (path : Bytes) (file : κ) (id : UInt32) :
    Prop where
  id : ¬ e.Requests id
  file : ∀ id r, e.request? = some (id, r) → r.updates = true →
    locate (concatenatePaths path r.pathname) ≠ file

theorem OS.Lawful.frame {os : OS Disk} (lawful : os.Lawful locate contents) {file : κ} (d : Disk) (p content : Bytes)
    (other : locate p ≠ file) : contents (os.writeFile d p content).1 file = contents d file := by
  cases wrote : os.writeFile d p content with
  | mk disk err =>
    cases err with
    | none => exact (lawful.written wrote).2 file other.symm
    | some err => exact congrFun (lawful.failed wrote) file

/-- How often an update is executed that is delivered `n` times. -/
def executions (sem : InvocationSemantic) (n : Nat) : Nat :=
  match sem with
  | .atLeastOnce => n
  | .atMostOnce => min n 1

/-- Each event delivers the update, on a file system that works, or has nothing to do with it. -/
structure Delivers (locate : Bytes → κ) (contents : Disk → κ → Option Bytes) (path : Bytes) (id : UInt32)
    (r : Request) (es : List (Event Disk)) : Prop where
  each : ∀ e ∈ es, e.request? = some (id, r) ∨
    e.Elsewhere locate path (locate (concatenatePaths path r.pathname)) id
  lawful : ∀ env p, .packet env p ∈ es → env.os.Lawful locate contents
  works : ∀ env p, .packet env p ∈ es → (Event.packet env p).request? = some (id, r) →
    env.os.Working locate contents

theorem Delivers.tail {es : List (Event Disk)} (delivers : Delivers locate contents path id r (e :: es)) :
    Delivers locate contents path id r es where
  each e' member := delivers.each e' (List.mem_cons_of_mem _ member)
  lawful env p member := delivers.lawful env p (List.mem_cons_of_mem _ member)
  works env p member := delivers.works env p (List.mem_cons_of_mem _ member)

end

end RemoteFile.Server
