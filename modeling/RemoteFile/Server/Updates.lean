import RemoteFile.Server.FileSystem
import RemoteFile.Server.Services

/-! Updates are all or nothing, and what the subscribers are told is what the file
holds. The file system is any that keeps byte strings under names: `locate` gives
the file that a path denotes, `contents` the bytes of each file. -/
namespace RemoteFile.Server
open Octets Go

variable {Disk κ : Type} {locate : Bytes → κ} {contents : Disk → κ → Option Bytes} {env : Env Disk}
  {path : Bytes} {s t : Store Disk} {r : Request} {res : StatusResponse}

/-- `os.ReadFile` reads a file's bytes, and `os.WriteFile` replaces the bytes of one
file or fails and leaves all as they are. -/
structure OS.Lawful (os : OS Disk) (locate : Bytes → κ) (contents : Disk → κ → Option Bytes) : Prop where
  read : ∀ {d path fileContent}, os.readFile d path = .ok fileContent →
    contents d (locate path) = some fileContent.elems
  written : ∀ {d path content d'}, os.writeFile d path content = (d', none) →
    contents d' (locate path) = some content ∧ ∀ file, file ≠ locate path → contents d' file = contents d file
  failed : ∀ {d path content d' err}, os.writeFile d path content = (d', some err) →
    contents d' = contents d

/-- Calls of the file system, as opposed to notifications. -/
def Effect.isFileAccess : Effect → Bool
  | .readFile _ | .stat _ | .writeFile _ _ => true
  | .notify _ _ | .send _ _ _ => false

/-- An update that reports a failure has changed no file and notified nobody. One
that reports success has changed no file but the one it names, and after the write
`NotifySubscribers` was called once, with the request's pathname and the content
that the file has in the end. -/
theorem update_allOrNothing (lawful : env.os.Lawful locate contents) (updates : r.updates = true)
    (returned : updateService env path s r = some (t, res)) :
    (res.success = false → contents t.disk = contents s.disk ∧
      ∃ calls, t.trace = s.trace ++ calls ∧ ∀ e ∈ calls, e.isFileAccess = true) ∧
    (res.success = true →
      (∀ file, file ≠ locate (concatenatePaths path r.pathname) →
        contents t.disk file = contents s.disk file) ∧
      ∃ content sends, contents t.disk (locate (concatenatePaths path r.pathname)) = some content ∧
        t.trace = s.trace ++ .readFile (concatenatePaths path r.pathname) ::
          .writeFile (concatenatePaths path r.pathname) content :: .notify r.pathname content :: sends ∧
        ∀ e ∈ sends, e.Sends content) := by
  rw [updateService_eq updates] at returned
  cases update_cases returned with
  | unread err failed store response | refused fileContent err file edited store response =>
    subst store response
    refine ⟨fun _ => ⟨rfl, [.readFile (concatenatePaths path r.pathname)], rfl, ?_⟩, fun success => absurd success Bool.false_ne_true⟩
    intro e member
    obtain rfl := List.mem_singleton.mp member
    rfl
  | unwritten fileContent buf err disk file edited failed store response =>
    subst store response
    refine ⟨fun _ => ⟨lawful.failed failed, [.readFile (concatenatePaths path r.pathname),
      .writeFile (concatenatePaths path r.pathname) buf], ?_, ?_⟩, fun success => absurd success Bool.false_ne_true⟩
    · simp only [Store.did, List.append_assoc, List.cons_append, List.nil_append]
    · intro e member
      simp only [List.mem_cons, List.not_mem_nil, or_false] at member
      rcases member with rfl | rfl <;> rfl
  | written fileContent buf disk file edited wrote notified response =>
    subst response
    have kept := handleNotification_disk notified
    obtain ⟨named, others⟩ := lawful.written wrote
    obtain ⟨sends, trace, all⟩ := handleNotification_trace notified
    refine ⟨fun failure => absurd failure.symm Bool.false_ne_true, fun _ => ⟨fun file other => ?_, buf, sends, ?_, ?_, all⟩⟩
    · rw [kept]
      exact others file other
    · rw [kept]
      exact named
    · rw [trace]
      simp only [Store.did, List.append_assoc, List.cons_append, List.nil_append]

/-! ### The file system with a clock -/

/-- The files of the disk, each known by its path. -/
def FileSystem.bytes (d : FileSystem) (path : Bytes) : Option Bytes := (d.files path).map File.content

theorem FileSystem.lawful {faults : Faults} (sound : faults.write = none) :
    (FileSystem.os faults).Lawful id FileSystem.bytes := by
  constructor
  · intro d path fileContent read
    simp only [FileSystem.os] at read
    split at read <;> cases read
    rename_i file _ found
    simp [FileSystem.bytes, found]
  · intro d path content d' wrote
    simp only [FileSystem.os, sound] at wrote
    cases wrote
    refine ⟨by simp [FileSystem.bytes, FileSystem.store_self], fun file other => ?_⟩
    exact congrArg (Option.map File.content) (FileSystem.store_other d content other)
  · intro d path content d' err wrote
    simp only [FileSystem.os, sound] at wrote
    cases wrote

theorem update_allOrNothing_write :
    ∃ t content, updateService (FileSystem.env Faults.none 0) []
        (Store.fresh (FileSystem.single (text "/a") (text "123") 0)) (.write ⟨text "a", 1, text "xy"⟩) =
        some (t, ⟨true, []⟩) ∧
      FileSystem.bytes t.disk (text "/a") = some content ∧
      t.trace = [.readFile (text "/a"), .writeFile (text "/a") content, .notify (text "a") content] := by
  have returns : (updateService (FileSystem.env Faults.none 0) []
      (Store.fresh (FileSystem.single (text "/a") (text "123") 0))
      (.write ⟨text "a", 1, text "xy"⟩)).map (fun (t, res) => (res, t.trace.length)) =
      some (⟨true, []⟩, 3) := by decide +kernel
  obtain ⟨⟨t, res⟩, returned, same⟩ := Option.map_eq_some_iff.mp returns
  obtain ⟨rfl, three⟩ := Prod.mk.inj same
  obtain ⟨_, content, sends, file, trace, _⟩ :=
    (update_allOrNothing (FileSystem.lawful rfl) rfl returned).2 rfl
  refine ⟨t, content, returned, file, ?_⟩
  have none : sends = [] := by
    rw [trace] at three
    simpa [Store.fresh] using three
  rw [trace, none]
  rfl

end RemoteFile.Server
