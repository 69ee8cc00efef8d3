import RemoteFile.Core.Paths
import RemoteFile.Server.AtMostOnce
import RemoteFile.Server.Decoding
import RemoteFile.Server.Delivery
import RemoteFile.Server.Updates

/-! Monitoring. Files are found by their paths, but the subscription table is keyed by
the pathname as the client has spelled it: an update reaches the subscriptions with
its own spelling. -/
namespace RemoteFile.Server
open Octets Go Transition

variable {Disk : Type} {env : Env Disk} {path pathname : Bytes} {addr : UDPAddr} {s t : Store Disk}
  {history : List Subscription} {clock ends : Int} {lists : Bytes → List Subscription}

/-- The paths differ in repeated slashes and `.` components at most. -/
def SameFile (fileStorePath p q : Bytes) : Prop :=
  Paths.parts (concatenatePaths fileStorePath p) = Paths.parts (concatenatePaths fileStorePath q)

/-- All sends succeed, and the clock goes on. -/
structure Attended (env : Env Disk) (clock ends : Int) : Prop where
  sent : ∀ turn, env.sendError turn = none
  readings : ∀ turn, clock ≤ env.now turn ∧ env.now turn ≤ ends

theorem Attended.order (attended : Attended env clock ends) : clock ≤ ends :=
  (attended.readings 0).1.trans (attended.readings 0).2

/-! ### One update -/

/-- A successful update sends what it writes to the active subscriptions that were
made with its own pathname. -/
theorem update_notifies {edit : Slice UInt8 → Option (Except Bytes Bytes)} {res : StatusResponse}
    (recorded : Recorded s history clock lists) (attended : Attended env clock ends)
    (updated : update env path pathname edit s = some (t, res)) :
    t.timers = s.timers ∧ (∃ lists', Recorded t history ends lists') ∧
      (res.success = true → ∃ content, t.trace = s.trace ++
        (.readFile (concatenatePaths path pathname) :: .writeFile (concatenatePaths path pathname) content ::
          .notify pathname content :: (concerned history (s.momentOf env) pathname).map fun sub =>
            .send sub.clientAddr content true)) := by
  cases update_cases updated with
  | unread err failed store response | refused fileContent err file edited store response =>
    subst store response
    have kept : Recorded (s.did (.readFile (concatenatePaths path pathname))) history clock lists :=
      recorded.frame rfl rfl rfl rfl
    exact ⟨rfl, ⟨lists, kept.later attended.order⟩, fun success => absurd success Bool.false_ne_true⟩
  | unwritten fileContent buf err disk file edited failed store response =>
    subst store response
    have kept : Recorded { (s.did (.readFile (concatenatePaths path pathname))).did
        (.writeFile (concatenatePaths path pathname) buf) with disk } history clock lists :=
      recorded.frame rfl rfl rfl rfl
    exact ⟨rfl, ⟨lists, kept.later attended.order⟩, fun success => absurd success Bool.false_ne_true⟩
  | written fileContent buf disk file edited wrote notified response =>
    obtain ⟨⟨u, err⟩, called, same⟩ := Option.map_eq_some_iff.mp notified
    obtain rfl : u = t := same
    have kept : Recorded (Store.did { (s.did (.readFile (concatenatePaths path pathname))).did
        (.writeFile (concatenatePaths path pathname) buf) with disk } (.notify pathname buf)) history clock lists :=
      recorded.frame rfl rfl rfl rfl
    obtain ⟨v, lists', returned, _, timers, after, sends⟩ :=
      kept.notify_sent buf (kept.examines attended.readings pathname) attended.order attended.sent
    cases called.symm.trans returned
    refine ⟨timers, ⟨lists', after⟩, fun _ => ⟨buf, ?_⟩⟩
    rw [sends]
    simp only [Store.did, List.append_assoc, List.cons_append, List.nil_append]
    rfl

theorem marshalStatusResponse_success {res : StatusResponse}
    (marshalled : marshalStatusResponse res = some [1]) : res.success = true := by
  by_contra failed
  rw [marshalStatusResponse, if_neg failed, marshalSingleStringResponse_eq] at marshalled
  cases marshalled

/-! ### Runs of the server -/

/-- What a step of the server adds to the history. -/
def subscribedSince (t s : Store Disk) : List Subscription := t.timers.drop s.timers.length

theorem subscribedSince_same (timers : t.timers = s.timers) : subscribedSince t s = [] := by
  rw [subscribedSince, timers, List.drop_length]

theorem Recorded.unwatched (recorded : Recorded s history clock lists) (order : clock ≤ ends)
    (arrays : t.arrays = s.arrays) (map : t.subscriptions = s.subscriptions) (timers : t.timers = s.timers)
    (allocated : t.allocated = s.allocated) :
    ∃ lists', Recorded t (history ++ subscribedSince t s) ends lists' := by
  rw [subscribedSince_same timers, List.append_nil]
  exact ⟨lists, (recorded.frame arrays map timers allocated).later order⟩

theorem serveRequest_recorded {r : Request} {reply : Bytes} (recorded : Recorded s history clock lists)
    (attended : Attended env clock ends) (served : serveRequest env path addr s r = some (t, reply)) :
    ∃ lists', Recorded t (history ++ subscribedSince t s) ends lists' := by
  cases updates : r.updates with
  | true =>
    obtain ⟨res, updated, _⟩ := serveRequest_update updates served
    obtain ⟨timers, after, _⟩ := update_notifies recorded attended updated
    rw [subscribedSince_same timers, List.append_nil]
    exact after
  | false =>
    cases r with
    | write | replace | delete => contradiction
    | read req =>
      obtain ⟨res, answered, _⟩ := answered_iff.mp served
      rw [(read_cases answered).1]
      exact recorded.unwatched attended.order rfl rfl rfl rfl
    | getLastModifiedTime req =>
      rw [(serveRequest_timeQuery served).1]
      exact recorded.unwatched attended.order rfl rfl rfl rfl
    | subscribe req =>
      rw [serveRequest_subscription served]
      exact recorded.subscribed (attended.readings 0).1 (attended.readings 0).2

theorem routeRequest_recorded {sem : InvocationSemantic} {d : Slice UInt8} {s t : State Disk}
    {response : Bytes} (recorded : Recorded s.store history clock lists) (attended : Attended env clock ends)
    (routed : routeRequest sem env path addr d s = some (t, response)) :
    ∃ lists', Recorded t.store (history ++ subscribedSince t.store s.store) ends lists' := by
  by_cases decodes : ∃ id r, decode d = some (.ok (id, r))
  · obtain ⟨id, r, decoded⟩ := decodes
    rw [routeRequest_decoded decoded] at routed
    cases stored : s.storedResponse sem id with
    | some reply =>
      rw [stored] at routed
      cases routed
      exact recorded.unwatched attended.order rfl rfl rfl rfl
    | none =>
      rw [stored] at routed
      obtain ⟨⟨store, reply⟩, served, made⟩ := Option.map_eq_some_iff.mp routed
      cases made
      exact serveRequest_recorded recorded attended served
  · have undecoded : ∀ id r, decode d ≠ some (.ok (id, r)) := fun id r decoded => decodes ⟨id, r, decoded⟩
    rw [(routeRequest_undecoded undecoded).1 t response routed]
    exact recorded.unwatched attended.order rfl rfl rfl rfl

/-- The server, the subscriptions made so far, and the latest time. -/
structure Observed (Disk : Type) where
  server : State Disk
  history : List Subscription
  clock : Int

/-- An event with the time at its end. -/
def observedStep (sem : InvocationSemantic) (path : Bytes) (s : Observed Disk) (e : Event Disk × Int) :
    Option (Observed Disk × Handled) :=
  (serverStep sem path s.server e.1).map fun (server, handled) =>
    (⟨server, s.history ++ subscribedSince server.store s.server.store, e.2⟩, handled)

def Timely (s : Observed Disk) (e : Event Disk × Int) : Prop :=
  match e.1 with
  | .packet env _ => Attended env s.clock e.2
  | .timer k => s.clock ≤ e.2 ∧ ∃ sub, s.server.store.timers[k]? = some sub ∧ sub.expireTime ≤ e.2

theorem observedStep_recorded {sem : InvocationSemantic} {s t : Observed Disk} {e : Event Disk × Int}
    {o : Handled} (recorded : Recorded s.server.store s.history s.clock lists) (timely : Timely s e)
    (stepped : observedStep sem path s e = some (t, o)) :
    ∃ lists', Recorded t.server.store t.history t.clock lists' := by
  obtain ⟨event, ends⟩ := e
  obtain ⟨⟨server, handled⟩, moved, made⟩ := Option.map_eq_some_iff.mp stepped
  cases made
  cases event with
  | timer k =>
    obtain ⟨order, sub, waiting, expired⟩ := timely
    obtain ⟨store, fired, _, after⟩ := recorded.fireTimer waiting expired order
    simp only [serverStep, fired, Option.map_some] at moved
    cases moved
    have none : subscribedSince store s.server.store = [] := by
      rw [subscribedSince, fireTimer_timers fired]
      exact List.drop_eq_nil_of_le (List.length_eraseIdx_le _ _)
    rw [none, List.append_nil]
    exact ⟨_, after⟩
  | packet env p =>
    have attended : Attended env s.clock ends := timely
    simp only [serverStep, handlePacket_eq] at moved
    cases arrival : p.routed with
    | none =>
      rw [arrival] at moved
      cases moved
      exact recorded.unwatched attended.order rfl rfl rfl rfl
    | some arrived =>
      rw [arrival] at moved
      obtain ⟨⟨state, response⟩, routed, same⟩ := Option.map_eq_some_iff.mp moved
      cases same
      exact routeRequest_recorded recorded attended routed

/-- Before the first subscription. -/
def Observed.Fresh (s : Observed Disk) : Prop := Watched.Fresh ⟨s.server.store, s.history, s.clock⟩

theorem observed_recorded {sem : InvocationSemantic} {s u : Observed Disk} {es : List (Event Disk × Int)}
    {outs : List Handled} (fresh : s.Fresh) (along : Along (observedStep sem path) Timely s es)
    (returned : run (observedStep sem path) s es = some (u, outs)) :
    ∃ lists, Recorded u.server.store u.history u.clock lists := by
  refine run_invariant (P := fun (s : Observed Disk) => ∃ lists, Recorded s.server.store s.history s.clock lists) ?_
    ⟨_, Watched.Fresh.recorded fresh⟩ along returned
  rintro s e t o ⟨lists, recorded⟩ timely stepped
  exact observedStep_recorded recorded timely stepped

/-- The subscription is active when a notification of its pathname examines it, or
would examine it. -/
def Active (s : Store Disk) (env : Env Disk) (sub : Subscription) : Prop := s.momentOf env sub < sub.expireTime

/-- The router has a service execute this request for the packet. -/
def Executes (sem : InvocationSemantic) (s : State Disk) (p : Packet) (r : Request) : Prop :=
  ∃ d addr id, p.routed = some (d, addr) ∧ decode d = some (.ok (id, r)) ∧ s.storedResponse sem id = none

/-- In every run: when an update succeeds, an active subscriber to the same file, by
whatever spelling, is sent the content exactly when it also has an active
subscription with the pathname of the update. -/
theorem monitored_iff {sem : InvocationSemantic} {start s t : Observed Disk} {es : List (Event Disk × Int)}
    {outs : List Handled} {p : Packet} {r : Request} {o : Handled} (fresh : start.Fresh)
    (along : Along (observedStep sem path) Timely start es)
    (returned : run (observedStep sem path) start es = some (s, outs))
    (timely : Timely s (.packet env p, ends)) (executes : Executes sem s.server p r)
    (updates : r.updates = true) (stepped : observedStep sem path s (.packet env p, ends) = some (t, o))
    (success : o.response = some [1]) :
    ∃ content, .writeFile (concatenatePaths path r.pathname) content ∈
        t.server.store.trace.drop s.server.store.trace.length ∧
      ∀ sub ∈ s.history, Active s.server.store env sub → SameFile path sub.pathname r.pathname →
        ((sub.clientAddr, content) ∈ t.server.store.sentSince s.server.store ↔
          ∃ own ∈ s.history, own.clientAddr = sub.clientAddr ∧ own.pathname = r.pathname ∧
            Active s.server.store env own) := by
  obtain ⟨lists, recorded⟩ := observed_recorded fresh along returned
  have attended : Attended env s.clock ends := timely
  obtain ⟨d, addr, id, arrival, decoded, unanswered⟩ := executes
  obtain ⟨⟨server, handled⟩, moved, made⟩ := Option.map_eq_some_iff.mp stepped
  cases made
  simp only [serverStep, handlePacket_eq, arrival] at moved
  obtain ⟨⟨state, response⟩, routed, same⟩ := Option.map_eq_some_iff.mp moved
  cases same
  rw [routeRequest_decoded decoded, unanswered] at routed
  obtain ⟨⟨store, reply⟩, served, same⟩ := Option.map_eq_some_iff.mp routed
  cases same
  cases success
  obtain ⟨res, updated, marshalled⟩ := serveRequest_update updates served
  obtain ⟨_, _, notifies⟩ := update_notifies recorded attended updated
  obtain ⟨content, trace⟩ := notifies (marshalStatusResponse_success marshalled)
  have sends : store.sentSince s.server.store = (concerned s.history (s.server.store.momentOf env) r.pathname).map
      fun sub => (sub.clientAddr, content) := by
    refine sentSince_sends [_, _, _] ?_ trace
    simp [Effect.datagram?]
  refine ⟨content, ?_, fun sub _ _ _ => ?_⟩
  · rw [trace, List.drop_left]
    exact List.mem_cons_of_mem _ List.mem_cons_self
  · rw [sends]
    constructor
    · intro sent
      obtain ⟨own, listed, same⟩ := List.mem_map.mp sent
      obtain ⟨named, alive⟩ := List.mem_filter.mp listed
      obtain ⟨made, named⟩ := List.mem_filter.mp named
      have alive : s.server.store.momentOf env own < own.expireTime := of_decide_eq_true alive
      exact ⟨own, made, (Prod.mk.inj same).1, of_decide_eq_true named, alive⟩
    · rintro ⟨own, made, client, named, alive⟩
      have alive : s.server.store.momentOf env own < own.expireTime := alive
      refine List.mem_map.mpr ⟨own, ?_, by rw [client]⟩
      exact List.mem_filter.mpr ⟨List.mem_filter.mpr ⟨made, decide_eq_true named⟩, decide_eq_true alive⟩

/-! ### Two spellings -/

/-- The path without repeated slashes and `.` components. -/
def plainPath (path : Bytes) : Bytes :=
  (Paths.parts path).flatMap fun part =>
    match part with
    | .up => text "/.."
    | .enter name => text "/" ++ name

/-- The file system finds a file by any spelling of its path. -/
def FileSystem.resolving : OS FileSystem where
  readFile d path := (FileSystem.os Faults.none).readFile d (plainPath path)
  writeFile d path content := (FileSystem.os Faults.none).writeFile d (plainPath path) content
  stat d path := (FileSystem.os Faults.none).stat d (plainPath path)

def resolvingEnv : Env FileSystem := { FileSystem.env Faults.none 0 with os := FileSystem.resolving }

theorem resolving_attended : Attended resolvingEnv 0 0 :=
  ⟨fun _ => rfl, fun _ => ⟨le_refl _, le_refl _⟩⟩

def unobserved : Observed FileSystem := ⟨oneFile, [], 0⟩

theorem unobserved_fresh : unobserved.Fresh := ⟨rfl, rfl, rfl, rfl⟩

/-- A client subscribes to a. -/
def subscribing : Event FileSystem × Int :=
  (.packet resolvingEnv ⟨⟨[], 1⟩, Request.datagram 1 (.subscribe ⟨text "a", 100⟩), false, false, false, false⟩, 0)

/-- Another client writes to it, as it spells the name. -/
def writing (pathname : Bytes) : Packet :=
  ⟨⟨[], 2⟩, Request.datagram 2 (.write ⟨pathname, 1, text "xy"⟩), false, false, false, false⟩

theorem subscribing_timely : Along (observedStep .atLeastOnce []) Timely unobserved [subscribing] :=
  ⟨resolving_attended, fun _ _ _ => trivial⟩

/-- The subscriptions at the time of a write, and what becomes of it. -/
structure Observation where
  clock : Int
  history : List Subscription
  response : Option Bytes
  sent : List (UDPAddr × Bytes)
  content : Option Bytes
  deriving DecidableEq

/-- The write by this spelling after the subscription. -/
def observation (pathname : Bytes) : Option Observation := do
  let (s, _) ← run (observedStep .atLeastOnce []) unobserved [subscribing]
  let (t, o) ← observedStep .atLeastOnce [] s (.packet resolvingEnv (writing pathname), 0)
  some ⟨s.clock, s.history, o.response, t.server.store.sentSince s.server.store,
    FileSystem.bytes t.server.store.disk (text "/a")⟩

theorem observation_steps {pathname : Bytes} {seen : Observation} (observed : observation pathname = some seen) :
    ∃ s outs t o, run (observedStep .atLeastOnce []) unobserved [subscribing] = some (s, outs) ∧
      observedStep .atLeastOnce [] s (.packet resolvingEnv (writing pathname), 0) = some (t, o) ∧
      seen = ⟨s.clock, s.history, o.response, t.server.store.sentSince s.server.store,
        FileSystem.bytes t.server.store.disk (text "/a")⟩ := by
  simp only [observation, Option.bind_eq_bind, Option.bind_eq_some_iff] at observed
  obtain ⟨⟨s, outs⟩, returned, ⟨t, o⟩, stepped, made⟩ := observed
  exact ⟨s, outs, t, o, returned, stepped, (Option.some.inj made).symm⟩

/-- The file changes, the subscriber to it is active, and nobody is told. -/
theorem monitored_fails :
    unobserved.Fresh ∧ Along (observedStep .atLeastOnce []) Timely unobserved [subscribing] ∧
      ∃ s outs t o, run (observedStep .atLeastOnce []) unobserved [subscribing] = some (s, outs) ∧
        observedStep .atLeastOnce [] s (.packet resolvingEnv (writing (text "./a")), 0) = some (t, o) ∧
        o.response = some [1] ∧ FileSystem.bytes t.server.store.disk (text "/a") = some (text "1xy23") ∧
        (∃ sub ∈ s.history, Active s.server.store resolvingEnv sub ∧ SameFile [] sub.pathname (text "./a")) ∧
        t.server.store.sentSince s.server.store = [] := by
  have observed : observation (text "./a") = some ⟨0, [⟨0, ⟨[], 1⟩, text "a", 100000000000⟩], some [1], [],
      some (text "1xy23")⟩ := by decide +kernel
  obtain ⟨s, outs, t, o, returned, stepped, seen⟩ := observation_steps observed
  obtain ⟨_, history, response, sent, content⟩ := Observation.mk.inj seen.symm
  refine ⟨unobserved_fresh, subscribing_timely, s, outs, t, o, returned, stepped, response, content, ?_, sent⟩
  refine ⟨⟨0, ⟨[], 1⟩, text "a", 100000000000⟩, by simp [history], ?_, ?_⟩
  · exact (show (0 : Int) < 100000000000 by decide)
  · unfold SameFile
    decide +kernel

/-- With the subscriber's own spelling the content is sent. -/
theorem monitored_iff_spelled :
    ∃ s t o content, observedStep .atLeastOnce [] s (.packet resolvingEnv (writing (text "a")), 0) =
      some (t, o) ∧ (⟨[], 1⟩, content) ∈ t.server.store.sentSince s.server.store := by
  have observed : observation (text "a") = some ⟨0, [⟨0, ⟨[], 1⟩, text "a", 100000000000⟩], some [1],
      [(⟨[], 1⟩, text "1xy23")], some (text "1xy23")⟩ := by decide +kernel
  obtain ⟨s, outs, t, o, returned, stepped, seen⟩ := observation_steps observed
  obtain ⟨clock, history, response, _, _⟩ := Observation.mk.inj seen.symm
  have timely : Timely s (.packet resolvingEnv (writing (text "a")), 0) := by
    rw [Timely, clock]
    exact resolving_attended
  have decoded : decode (received (Request.datagram 2 (.write ⟨text "a", 1, text "xy"⟩))) =
      some (.ok (2, .write ⟨text "a", 1, text "xy"⟩)) := by decide +kernel
  have executes : Executes .atLeastOnce s.server (writing (text "a")) (.write ⟨text "a", 1, text "xy"⟩) :=
    ⟨_, _, _, rfl, decoded, rfl⟩
  obtain ⟨content, _, sent⟩ := monitored_iff unobserved_fresh subscribing_timely returned timely executes rfl stepped response
  have alive : Active s.server.store resolvingEnv ⟨0, ⟨[], 1⟩, text "a", 100000000000⟩ :=
    (show (0 : Int) < 100000000000 by decide)
  have member : ⟨0, ⟨[], 1⟩, text "a", 100000000000⟩ ∈ s.history := by simp [history]
  exact ⟨s, t, o, content, stepped, (sent _ member alive rfl).mpr ⟨_, member, rfl, rfl, alive⟩⟩

end RemoteFile.Server
