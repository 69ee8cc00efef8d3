import RemoteFile.Core.Paths
import RemoteFile.Server.AtMostOnce
import RemoteFile.Server.Decoding

/-! Which files a datagram can reach. Every pathname is appended to the path of the
server's file directory as it comes, so a pathname that climbs leads out of it. -/
namespace RemoteFile.Server
open Octets Go Paths

variable {Disk : Type} {env : Env Disk} {path : Bytes} {addr : UDPAddr} {s t : Store Disk} {r : Request}

/-- The path in a call of package `os`. -/
def Effect.path? : Effect → Option Bytes
  | .readFile path | .stat path | .writeFile path _ => some path
  | .notify _ _ | .send _ _ _ => none

/-- The paths that the service of a request passes to package `os`, also when it
panics afterwards. -/
def accessedPaths (env : Env Disk) (fileStorePath : Bytes) (s : Store Disk) (r : Request) : List Bytes :=
  let filePath := concatenatePaths fileStorePath r.pathname
  match r with
  | .read _ | .subscribe _ | .getLastModifiedTime _ => [filePath]
  | .write _ | .replace _ | .delete _ =>
    match (env.os.readFile s.disk filePath).toOption.bind (requestedEdit r) with
    | some (.ok _) => [filePath, filePath]
    | _ => [filePath]

/-- The paths passed to package `os` while a datagram is processed. -/
def accesses (sem : InvocationSemantic) (env : Env Disk) (fileStorePath : Bytes) (udpRequest : Slice UInt8)
    (s : State Disk) : List Bytes :=
  match decode udpRequest with
  | some (.ok (messageID, r)) =>
    match s.storedResponse sem messageID with
    | some _ => []
    | none => accessedPaths env fileStorePath s.store r
  | _ => []

theorem accessedPaths_eq (env : Env Disk) (path : Bytes) (s : Store Disk) (r : Request) :
    concatenatePaths path r.pathname ∈ accessedPaths env path s r ∧
      ∀ p ∈ accessedPaths env path s r, p = concatenatePaths path r.pathname := by
  unfold accessedPaths
  cases r <;> dsimp only
  case read | subscribe | getLastModifiedTime => simp
  case write | replace | delete => split <;> simp

/-! ### The recorded calls -/

/-- The paths of the calls recorded so far. -/
def Store.paths (s : Store Disk) : List Bytes := s.trace.filterMap Effect.path?

theorem Store.paths_did (s : Store Disk) {e : Effect} {p : Bytes} (call : e.path? = some p) :
    (s.did e).paths = s.paths ++ [p] := by
  simp [Store.paths, Store.did, List.filterMap_append, call]

theorem handleNotification_paths {pathname content : Bytes}
    (h : handleNotification env pathname content s = some t) : t.paths = s.paths := by
  obtain ⟨sends, trace, all⟩ := handleNotification_trace h
  have silent : sends.filterMap Effect.path? = [] := by
    rw [List.filterMap_eq_nil_iff]
    intro e member
    obtain ⟨addr, delivered, rfl⟩ := all e member
    rfl
  rw [Store.paths, trace, List.filterMap_append, List.filterMap_cons, silent]
  exact List.append_nil _

theorem read_write_paths (s : Store Disk) (p content : Bytes) :
    ((s.did (.readFile p)).did (.writeFile p content)).paths = s.paths ++ [p, p] := by
  rw [@Store.paths_did _ _ (.writeFile p content) p rfl, @Store.paths_did _ _ (.readFile p) p rfl,
    List.append_assoc, List.singleton_append]

theorem update_paths {pathname : Bytes} {edit : Slice UInt8 → Option (Except Bytes Bytes)}
    {res : StatusResponse} (updated : update env path pathname edit s = some (t, res)) :
    t.paths = s.paths ++
      match (env.os.readFile s.disk (concatenatePaths path pathname)).toOption.bind edit with
      | some (.ok _) => [concatenatePaths path pathname, concatenatePaths path pathname]
      | _ => [concatenatePaths path pathname] := by
  cases update_cases updated with
  | unread err failed store response =>
    rw [store, failed]
    exact Store.paths_did s rfl
  | refused fileContent err file edited store response =>
    rw [store, file, Except.toOption, Option.bind_some, edited]
    exact Store.paths_did s rfl
  | unwritten fileContent buf err disk file edited failed store response =>
    rw [store, file, Except.toOption, Option.bind_some, edited]
    exact read_write_paths s _ _
  | written fileContent buf disk file edited wrote notified response =>
    rw [handleNotification_paths notified, file, Except.toOption, Option.bind_some, edited]
    exact read_write_paths s _ _

/-- A service that returns has made the calls that `accessedPaths` lists. -/
theorem serveRequest_paths {reply : Bytes} (served : serveRequest env path addr s r = some (t, reply)) :
    t.paths = s.paths ++ accessedPaths env path s r := by
  cases r with
  | read req =>
    obtain ⟨res, answered, _⟩ := answered_iff.mp served
    rw [(read_cases answered).1]
    exact Store.paths_did s rfl
  | write req | replace req | delete req =>
    obtain ⟨res, updated, _⟩ := serveRequest_update rfl served
    exact update_paths updated
  | subscribe req =>
    rw [serveRequest_subscription served, Store.paths, subscribe_trace, List.filterMap_append]
    rfl
  | getLastModifiedTime req =>
    rw [(serveRequest_timeQuery served).1]
    exact Store.paths_did s rfl

/-- A call of the router that returns has made the calls that `accesses` lists. -/
theorem routeRequest_paths {sem : InvocationSemantic} {d : Slice UInt8} {s t : State Disk}
    {response : Bytes} (routed : routeRequest sem env path addr d s = some (t, response)) :
    t.store.paths = s.store.paths ++ accesses sem env path d s := by
  unfold accesses
  split
  case h_1 id r decoded =>
    rw [routeRequest_decoded decoded] at routed
    cases stored : s.storedResponse sem id with
    | some reply =>
      rw [stored] at routed
      cases routed
      exact (List.append_nil _).symm
    | none =>
      rw [stored] at routed
      obtain ⟨⟨store, reply⟩, served, made⟩ := Option.map_eq_some_iff.mp routed
      cases made
      exact serveRequest_paths served
  case h_2 undecoded =>
    rw [(routeRequest_undecoded fun id r decoded => undecoded id r decoded).1 t response routed,
      List.append_nil]

/-! ### Confinement -/

/-- The pathname does not climb, or every level that it climbs it enters again by
the name that the server's file directory has there. -/
def Confined (fileStorePath pathname : Bytes) : Prop :=
  let relative := normalize (parts pathname)
  (resolve fileStorePath).drop ((resolve fileStorePath).length - relative.up) <+: relative.down

instance (fileStorePath pathname : Bytes) : Decidable (Confined fileStorePath pathname) :=
  inferInstanceAs (Decidable (_ <+: _))

theorem accesses_inside {sem : InvocationSemantic} {d : Slice UInt8} {s : State Disk} :
    (∀ p ∈ accesses sem env path d s, Inside path p) ↔
      ∀ id r, decode d = some (.ok (id, r)) → s.storedResponse sem id = none → Confined path r.pathname := by
  have joined : ∀ pathname, concatenatePaths path pathname = path ++ slash :: pathname :=
    fun pathname => List.append_assoc ..
  unfold accesses
  split
  case h_1 id r decoded =>
    cases stored : s.storedResponse sem id with
    | some response =>
      constructor
      · intro _ id' r' decoded' miss
        cases decoded.symm.trans decoded'
        rw [stored] at miss
        contradiction
      · intro _ p member
        exact absurd member List.not_mem_nil
    | none =>
      obtain ⟨accessed, only⟩ := accessedPaths_eq env path s.store r
      constructor
      · intro inside id' r' decoded' _
        cases decoded.symm.trans decoded'
        have here := inside _ accessed
        rwa [joined, inside_iff] at here
      · intro confined p member
        rw [only p member, joined, inside_iff]
        exact confined id r decoded stored
  case h_2 undecoded =>
    constructor
    · intro _ id r decoded
      exact absurd decoded (undecoded id r)
    · intro _ p member
      exact absurd member List.not_mem_nil

/-- The calls of package `os` that a datagram leads to, which are those recorded when
its processing returns, all stay inside the server's file directory exactly when its
pathname is confined or no request is executed for it: it does not decode, or its
message id has a stored response. -/
theorem access_confined_iff (sem : InvocationSemantic) (env : Env Disk) (path : Bytes) (addr : UDPAddr)
    (bytes : Bytes) (s : State Disk) :
    (∀ t response, routeRequest sem env path addr (received bytes) s = some (t, response) →
      t.store.paths = s.store.paths ++ accesses sem env path (received bytes) s) ∧
    ((∀ p ∈ accesses sem env path (received bytes) s, Inside path p) ↔
      ∀ id r, decode (received bytes) = some (.ok (id, r)) → s.storedResponse sem id = none →
        Confined path r.pathname) :=
  ⟨fun _ _ => routeRequest_paths, accesses_inside⟩

/-- A read of a file beside the server's file directory. -/
theorem access_confined_fails :
    decode (received (Request.datagram 5 (.read ⟨text "../main.go", 0, 1⟩))) =
        some (.ok (5, .read ⟨text "../main.go", 0, 1⟩)) ∧
      accesses .atLeastOnce (FileSystem.env Faults.none 0) (text "/server/disk")
        (received (Request.datagram 5 (.read ⟨text "../main.go", 0, 1⟩))) oneFile =
        [text "/server/disk/../main.go"] ∧
      ¬ Inside (text "/server/disk") (text "/server/disk/../main.go") := by
  have decoded : decode (received (Request.datagram 5 (.read ⟨text "../main.go", 0, 1⟩))) =
      some (.ok (5, .read ⟨text "../main.go", 0, 1⟩)) := by decide +kernel
  refine ⟨decoded, ?_, by decide +kernel⟩
  rw [accesses, decoded]
  rfl

example : Confined (text "/server/disk") (text "./a//../../disk/b") := by decide +kernel

end RemoteFile.Server
