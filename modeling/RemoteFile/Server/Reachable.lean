import RemoteFile.Server.Notification
import RemoteFile.Server.Router

/-! Every state that the server reaches has a table of subscriptions that notifications get
through, whatever fails on the way. So an update panics in its own slice expressions or not
at all. -/
namespace RemoteFile.Server
open Octets Go

variable {Disk : Type} {env : Env Disk} {sem : InvocationSemantic} {path pathname : Bytes} {s t : Store Disk}

/-! ### The services -/

theorem notified_wellFormed {content : Bytes} (sound : s.WellFormed)
    (notified : handleNotification env pathname content s = some t) : t.WellFormed := by
  obtain ⟨u, returned, after⟩ := handleNotification_returns sound env pathname content
  rw [returned] at notified
  exact Option.some.inj notified ▸ after

theorem update_wellFormed {edit : Slice UInt8 → Option (Except Bytes Bytes)} {res : StatusResponse}
    (sound : s.WellFormed) (updated : update env path pathname edit s = some (t, res)) : t.WellFormed := by
  cases update_cases updated with
  | unread err failed store | refused fileContent err file edited store =>
    subst store
    exact sound.frame rfl rfl
  | unwritten fileContent buf err disk file edited failed store =>
    subst store
    exact sound.frame rfl rfl
  | written fileContent buf disk file edited wrote notified response =>
    apply notified_wellFormed _ notified
    exact sound.frame rfl rfl

/-- An update panics exactly if its edit of the file does. -/
theorem update_panics_iff {edit : Slice UInt8 → Option (Except Bytes Bytes)} (sound : s.WellFormed) :
    update env path pathname edit s = none ↔
      ∃ fileContent, env.os.readFile s.disk (concatenatePaths path pathname) = .ok fileContent ∧
        edit fileContent = none := by
  simp only [update, Store.did_disk]
  cases opened : env.os.readFile s.disk (concatenatePaths path pathname) with
  | error err => simp
  | ok fileContent =>
    cases edited : edit fileContent with
    | none => simp [edited]
    | some result =>
      cases result with
      | error err => simp [edited]
      | ok buf =>
        cases wrote : env.os.writeFile s.disk (concatenatePaths path pathname) buf with | mk disk err
        cases err with
        | some err => simp [edited, wrote]
        | none =>
          obtain ⟨u, returned, _⟩ := @handleNotification_returns _
            { (s.did (.readFile (concatenatePaths path pathname))).did
              (.writeFile (concatenatePaths path pathname) buf) with disk } (sound.frame rfl rfl) env pathname buf
          simp [edited, wrote, returned]

theorem serveRequest_wellFormed {addr : UDPAddr} {r : Request} {reply : Bytes} (sound : s.WellFormed)
    (served : serveRequest env path addr s r = some (t, reply)) : t.WellFormed := by
  cases r with
  | read req =>
    obtain ⟨res, answered, _⟩ := answered_iff.mp served
    rw [(read_cases answered).1]
    exact sound.frame rfl rfl
  | write req | replace req | delete req =>
    obtain ⟨res, updated, _⟩ := serveRequest_update rfl served
    exact update_wellFormed sound updated
  | subscribe req =>
    rw [serveRequest_subscription served]
    exact subscribe_wellFormed sound env addr _ req
  | getLastModifiedTime req =>
    rw [(serveRequest_timeQuery served).1]
    exact sound.frame rfl rfl

/-! ### Runs -/

theorem dispatch_wellFormed {kind : MessageType} {addr : UDPAddr} {data : Slice UInt8} {reply : Bytes}
    (sound : s.WellFormed) (answered : dispatch kind env path addr data s = some (t, reply)) : t.WellFormed := by
  rcases dispatch_cases answered with ⟨same, _⟩ | ⟨r, _, served⟩
  · exact same ▸ sound
  · exact serveRequest_wellFormed sound served

theorem routeRequest_wellFormed {addr : UDPAddr} {d : Slice UInt8} {s t : State Disk} {response : Bytes}
    (sound : s.store.WellFormed) (routed : routeRequest sem env path addr d s = some (t, response)) :
    t.store.WellFormed := by
  rw [routeRequest_eq] at routed
  split at routed
  · cases routed
    exact sound
  · split at routed
    · cases routed
      exact sound
    · cases routed
      exact sound
    · obtain ⟨⟨store, reply⟩, answered, made⟩ := Option.map_eq_some_iff.mp routed
      cases made
      exact dispatch_wellFormed sound answered

theorem handlePacket_wellFormed {p : Packet} {s t : State Disk} {handled : Handled} (sound : s.store.WellFormed)
    (done : handlePacket sem env path p s = some (t, handled)) : t.store.WellFormed := by
  unfold handlePacket at done
  split at done
  · cases done
    exact sound
  · split at done
    · cases done
      exact sound
    · obtain ⟨⟨u, response⟩, routed, rest⟩ := Option.bind_eq_some_iff.mp done
      have after := routeRequest_wellFormed sound routed
      dsimp only at rest
      split at rest <;> cases rest <;> exact after

theorem serverStep_wellFormed {e : Event Disk} {s t : State Disk} {handled : Handled} (sound : s.store.WellFormed)
    (stepped : serverStep sem path s e = some (t, handled)) : t.store.WellFormed := by
  cases e with
  | packet env p => exact handlePacket_wellFormed sound stepped
  | timer k =>
    obtain ⟨store, fired, made⟩ := Option.map_eq_some_iff.mp stepped
    cases made
    exact fireTimer_wellFormed sound fired

/-- Any packets and timers, and any failures. -/
theorem reached_wellFormed {es : List (Event Disk)} {s t : State Disk} {handled : List Handled}
    (sound : s.store.WellFormed) (ran : Transition.run (serverStep sem path) s es = some (t, handled)) :
    t.store.WellFormed :=
  Transition.run_always (P := fun s => s.store.WellFormed) (fun _ _ _ _ => serverStep_wellFormed) sound ran

end RemoteFile.Server
