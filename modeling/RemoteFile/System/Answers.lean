import RemoteFile.Client.CacheSteps
import RemoteFile.Server.FileSystem
import RemoteFile.Server.Router

/-! What the server's answer to a request tells the client about the disk at that
moment, and what answering does to the disk. -/
namespace RemoteFile.System
open Octets Go Cpp Cpp.Outcome Server Client

/-- Surroundings whose file system is the disk, up to faults. -/
def onDisk (env : Env FileSystem) (faults : Faults) : Env FileSystem :=
  { env with os := FileSystem.os faults }

/-- A file of the server by the pathname that clients use. -/
def FileSystem.file? (path : Bytes) (d : FileSystem) (pathname : Bytes) : Option File :=
  d.files (concatenatePaths path pathname)

variable {env : Env FileSystem} {faults : Faults} {path : Bytes} {addr : UDPAddr}
  {s t : Store FileSystem} {reply : Bytes}

theorem readFile_file {d : FileSystem} {name : Bytes} {content : Slice UInt8}
    (read : (FileSystem.os faults).readFile d name = .ok content) :
    ∃ file, d.files name = some file ∧ content = ⟨file.content, faults.spare⟩ := by
  simp only [FileSystem.os] at read
  split at read <;> cases read
  rename_i file _ found
  exact ⟨file, found, rfl⟩

theorem stat_file {d : FileSystem} {name : Bytes} {modTime : Int}
    (stat : (FileSystem.os faults).stat d name = .ok modTime) :
    ∃ file, d.files name = some file ∧ modTime = file.modTime := by
  simp only [FileSystem.os] at stat
  split at stat <;> cases stat
  rename_i file _ found
  exact ⟨file, found, rfl⟩

/-- A write stores the content, or what its fault leaves behind. -/
theorem writeFile_store {d d' : FileSystem} {name content : Bytes} {err : Option Bytes}
    (wrote : (FileSystem.os faults).writeFile d name content = (d', err)) :
    ∃ left, d' = d.store name left := by
  simp only [FileSystem.os] at wrote
  split at wrote <;> cases wrote
  · exact ⟨_, rfl⟩
  · exact ⟨content, rfl⟩

/-- An update writes at most the one file that it has read. -/
theorem update_disk {pathname : Bytes} {edit : Slice UInt8 → Option (Except Bytes Bytes)}
    {res : StatusResponse} (updated : update (onDisk env faults) path pathname edit s = some (t, res)) :
    t.disk = s.disk ∨ ∃ file content, FileSystem.file? path s.disk pathname = some file ∧
      t.disk = s.disk.store (concatenatePaths path pathname) content := by
  cases update_cases updated with
  | unread err failed store response | refused fileContent err content edited store response =>
    subst store
    exact .inl rfl
  | unwritten fileContent buf err disk read edited failed store response =>
    obtain ⟨file, found, _⟩ := readFile_file read
    obtain ⟨left, rfl⟩ := writeFile_store failed
    subst store
    exact .inr ⟨file, left, found, rfl⟩
  | written fileContent buf disk read edited wrote notified response =>
    obtain ⟨file, found, _⟩ := readFile_file read
    obtain ⟨left, rfl⟩ := writeFile_store wrote
    exact .inr ⟨file, left, found, handleNotification_disk notified⟩

/-- Only an update changes the disk, and only the file that it names. -/
theorem serveRequest_disk {r : Request}
    (served : serveRequest (onDisk env faults) path addr s r = some (t, reply)) :
    t.disk = s.disk ∨ r.updates = true ∧ ∃ file content,
      FileSystem.file? path s.disk r.pathname = some file ∧
      t.disk = s.disk.store (concatenatePaths path r.pathname) content := by
  cases r with
  | write req | replace req | delete req =>
    obtain ⟨res, updated, _⟩ := serveRequest_update rfl served
    exact (update_disk updated).imp_right fun changed => ⟨rfl, changed⟩
  | read req =>
    obtain ⟨res, answered, _⟩ := answered_iff.mp served
    exact .inl (read_disk answered)
  | subscribe req =>
    rw [serveRequest_subscription served]
    exact .inl (subscribe_disk ..)
  | getLastModifiedTime req =>
    rw [(serveRequest_timeQuery served).1]
    exact .inl rfl

/-- The content that a reply to a read reports is the file's. -/
theorem serveRequest_content {req : ReadRequest} {content : Bytes}
    (served : serveRequest (onDisk env faults) path addr s (.read req) = some (t, reply))
    (reports : ReportsContent reply content) :
    ∃ file, FileSystem.file? path s.disk req.pathname = some file ∧
      req.offset.toNat + req.numBytes.toNat < 2 ^ 32 ∧
      req.offset.toNat + req.numBytes.toNat ≤ file.content.length ∧
      content = window file.content req.offset.toNat (req.offset.toNat + req.numBytes.toNat) := by
  obtain ⟨res, answered, marshalled⟩ := answered_iff.mp served
  obtain ⟨message, accepted⟩ := reports
  rcases (read_cases answered).2 with failed | ⟨fileContent, data, read, segment, rfl⟩
  · obtain ⟨success, _⟩ := read_received (k := 4999) (by simp [failed]) marshalled accepted
    rw [failed] at success
    contradiction
  · obtain ⟨file, found, rfl⟩ := readFile_file read
    obtain ⟨small, inside, rfl⟩ := Read.segment_ok_iff.mp segment
    have fits : (window file.content req.offset.toNat
        (req.offset.toNat + req.numBytes.toNat)).length < 2 ^ 32 := by
      have count := req.numBytes.toNat_lt
      rw [window_length]
      omega
    obtain ⟨_, rfl⟩ := read_received (k := 4999) (fun _ => fits) marshalled accepted
    exact ⟨file, found, small, Nat.le_trans inside (Nat.mod_le _ _), rfl⟩

/-- The time that a reply to a time query reports is the file's, in seconds. -/
theorem serveRequest_time {req : GetLastModifiedTimeRequest} {x : UInt64}
    (served : serveRequest (onDisk env faults) path addr s (.getLastModifiedTime req) = some (t, reply))
    (reports : ReportsTime reply x) :
    ∃ file, FileSystem.file? path s.disk req.pathname = some file ∧ x.toInt64 = unix file.modTime := by
  have marshalled := (serveRequest_timeQuery served).2
  obtain ⟨message, accepted⟩ := reports
  obtain ⟨err, failed⟩ | ⟨modTime, stat, answered⟩ :=
    (getLastModifiedTime_cases (onDisk env faults) path req s).2
  · have failure := (congrArg GetLastModifiedTime.marshalResponse failed).symm.trans marshalled
    cases (marshalSingleStringResponse_eq 0 err).symm.trans failure
    have flag := unmarshalGetLastModifiedTimeResponse_flag accepted
    contradiction
  · obtain ⟨file, found, rfl⟩ := stat_file stat
    have success := (congrArg GetLastModifiedTime.marshalResponse answered).symm.trans marshalled
    cases (marshalSuccessResponse_eq _).symm.trans success
    rw [List.take_of_length_le (by simp [msgLength]), unmarshalGetLastModifiedTimeResponse_success] at accepted
    cases accepted
    exact ⟨file, found, by simp⟩

/-- What a reply to a request tells the client of the disk. -/
structure Truthful (path : Bytes) (d : FileSystem) (r : Request) (reply : Bytes) : Prop where
  content : ∀ req content, r = .read req → ReportsContent reply content →
    ∃ file, FileSystem.file? path d req.pathname = some file ∧
      req.offset.toNat + req.numBytes.toNat < 2 ^ 32 ∧
      req.offset.toNat + req.numBytes.toNat ≤ file.content.length ∧
      content = window file.content req.offset.toNat (req.offset.toNat + req.numBytes.toNat)
  time : ∀ pathname x, r = .getLastModifiedTime ⟨pathname⟩ → ReportsTime reply x →
    ∃ file, FileSystem.file? path d pathname = some file ∧ x.toInt64 = unix file.modTime

/-- The router runs a handler for the datagram of a valid exchange: the reply is
truthful about the disk, which at most the named file's update changes. -/
theorem routeRequest_truthful {sem : InvocationSemantic} {e : Exchange} {server server' : State FileSystem}
    (valid : e.Valid) (ran : (handled sem (received e.marshalled) server).isSome)
    (routed : routeRequest sem (onDisk env faults) path addr (received e.marshalled) server =
      some (server', reply)) :
    Truthful path server.store.disk e.request reply ∧
      (server'.store.disk = server.store.disk ∨ e.request.updates = true ∧ ∃ file content,
        FileSystem.file? path server.store.disk e.request.pathname = some file ∧
        server'.store.disk = server.store.disk.store (concatenatePaths path e.request.pathname) content) := by
  obtain ⟨⟨id, decoded⟩, ran⟩ := Option.isSome_iff_exists.mp ran
  rw [valid.marshalled] at ran routed
  obtain ⟨_, own⟩ := handled_received valid.prompted.encodable ran
  obtain ⟨⟨code, id', data⟩, head, rest⟩ := Option.bind_eq_some_iff.mp ran
  obtain ⟨kind, known, run⟩ := Option.bind_eq_some_iff.mp rest
  split at run
  case h_1 => contradiction
  case h_2 unstored =>
    simp only [routeRequest_eq, head, unstored, known] at routed
    obtain ⟨⟨store, response⟩, answered, made⟩ := Option.map_eq_some_iff.mp routed
    cases made
    rcases dispatch_cases answered with ⟨rfl, failure⟩ | ⟨r, accepted, served⟩
    · refine ⟨⟨?_, ?_⟩, .inl rfl⟩
      · intro req content _ reports
        rw [reports.head] at failure
        contradiction
      · intro pathname x _ reports
        rw [reports.head] at failure
        contradiction
    · cases run
      obtain rfl : r = e.request := own r (by rw [accepted]; rfl)
      refine ⟨⟨?_, ?_⟩, serveRequest_disk served⟩
      · intro req content request reports
        rw [request] at served
        exact serveRequest_content served reports
      · intro pathname x request reports
        rw [request] at served
        exact serveRequest_time served reports

end RemoteFile.System
