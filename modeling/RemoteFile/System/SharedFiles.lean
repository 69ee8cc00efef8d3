import RemoteFile.System.Answers

/-! One client reading files that others update. Each reply that the client takes
answers the request it has just sent; requests may be repeated and delayed, and
the server may execute late copies. The client and the server have clocks of their
own. Every step keeps the disk as it was before, so that past moments can be spoken
of: moment `i` is the disk after `i` steps. -/
namespace RemoteFile.System
open Octets Go Cpp Cpp.Outcome Transition Server Client

/-- The server executed a request at a moment. -/
structure Served where
  exchange : Exchange
  instant : Nat
  reply : Bytes
  deriving DecidableEq

structure FileWorld where
  server : State FileSystem
  client : Program
  /-- The client's clock, in nanoseconds; the server's is that of its disk. -/
  clock : Int
  /-- The request datagrams sent so far; any of them may yet arrive. -/
  sent : List Exchange
  served : List Served
  history : List FileSystem
  /-- The moment after the client's last command or reply. -/
  began : Nat
  /-- For a file in the cache: when the exchange began whose reply last changed its
  entry, and when that reply was taken. -/
  stamped : Bytes → Nat × Nat

def FileWorld.disk (w : FileWorld) : FileSystem := w.server.store.disk

def FileWorld.moment (w : FileWorld) (i : Nat) : Option FileSystem := (w.history ++ [w.disk])[i]?

/-- The steps taken so far. -/
def FileWorld.now (w : FileWorld) : Nat := w.history.length

inductive FileAction where
  /-- Time passes, on both clocks. -/
  | tick (nanoseconds : Nat)
  /-- The client's clock is set. -/
  | adjust (clock : Int)
  /-- Another client's update takes effect. -/
  | update (pathname content : Bytes)
  | command (input : Input)
  | transmit (sendFails : Bool)
  | timeout
  | serve (i : Nat) (env : Env FileSystem) (faults : Faults)
  | take (i : Nat)
  | listen (datagram : Option Bytes)
  | expire (k : Nat)

/-- The exchange whose request a step lets the server handle. -/
def FileAction.arrives (w : FileWorld) : FileAction → Option Exchange
  | serve i _ _ => w.sent[i]?
  | _ => none

/-- The file that a step may change. -/
def FileAction.target (w : FileWorld) : FileAction → Option Bytes
  | update pathname _ => some pathname
  | serve i _ _ =>
    (w.sent[i]?).bind fun e => if e.request.updates then some e.request.pathname else none
  | _ => none

/-- Where content shown to the user comes from: the server, or an entry of the
cache, which was fresh or has just been validated. -/
inductive Source where
  | server
  | validated (entry : Entry)
  | fresh (entry : Entry)
  deriving DecidableEq

structure Display where
  req : ReadRequest
  data : Bytes
  source : Source
  deriving DecidableEq

/-- What a step shows: the reply taken, and content shown to the user. -/
structure Seen where
  reply : Option Bytes
  display : Option Display
  deriving DecidableEq

def Seen.nothing : Seen := ⟨none, none⟩

def milliseconds (t : Int) : Int := t / 1000000

/-- Seconds that an `int64` can count. -/
def Representable (t : Int) : Prop := -(2 ^ 63) ≤ t / 1000000000 ∧ t / 1000000000 < 2 ^ 63

def onServer (s : State FileSystem) (d : FileSystem) : State FileSystem :=
  { s with store := { s.store with disk := d } }

/-- The content that a command shows, if it is a hit. -/
def displayFresh (p q : Program) : Command → Option Display
  | .read req => (p.shown q).map (⟨req, ·, .fresh (p.cache.at req.pathname)⟩)
  | _ => none

/-- The content that a reply lets the client show. -/
def displayTaken (p q : Program) : Pending → Option Display
  | .read req _ => (p.shown q).map (⟨req, ·, .server⟩)
  | .time _ req => (p.shown q).map (⟨req, ·, .validated (p.cache.at req.pathname)⟩)
  | _ => none

variable (sem : InvocationSemantic) (path : Bytes) (addr : UDPAddr)

/-- The steps are taken under three assumptions. A reply taken answers the request just sent,
though in the program a late one of another request would be taken too. The updates of other
clients do not go through the router, so that their message ids meet none of this client's. The
clock of the server does not go back; that of the client may be anything. -/
def fileStep (w : FileWorld) : FileAction → Option (FileWorld × Seen)
  | .tick nanoseconds =>
    let clock := w.disk.clock + nanoseconds
    if clock / 1000000000 < 2 ^ 63 then
      some ({ w with server := onServer w.server { w.disk with clock }, clock := w.clock + nanoseconds,
                     history := w.history ++ [w.disk] }, .nothing)
    else none
  | .adjust clock => some ({ w with clock, history := w.history ++ [w.disk] }, .nothing)
  | .update pathname content =>
    if (FileSystem.file? path w.disk pathname).isSome then
      some ({ w with server := onServer w.server (w.disk.store (concatenatePaths path pathname) content),
                     history := w.history ++ [w.disk] }, .nothing)
    else none
  | .command input => do
    let client ← w.client.command (milliseconds w.clock) input.command
    some ({ w with client, began := w.now + 1, history := w.history ++ [w.disk] },
      ⟨none, displayFresh w.client client input.command⟩)
  | .transmit sendFails => do
    let (client, exchange) ← w.client.transmit sendFails
    some ({ w with client, sent := w.sent ++ exchange.toList, history := w.history ++ [w.disk] }, .nothing)
  | .timeout => do
    let client ← w.client.timeout
    some ({ w with client, history := w.history ++ [w.disk] }, .nothing)
  | .serve i env faults => do
    let exchange ← w.sent[i]?
    let d := received exchange.marshalled
    -- a response stored before is a reply already among the served ones
    let _ ← handled sem d w.server
    let (server, reply) ← routeRequest sem (onDisk env faults) path addr d w.server
    some ({ w with server, served := w.served ++ [⟨exchange, w.now, reply⟩],
                   history := w.history ++ [w.disk] }, .nothing)
  | .take i => do
    let s ← w.served[i]?
    let exchange ← w.client.exchange?
    -- the reply answers the request just sent
    if s.exchange = exchange then
      let client ← w.client.take (milliseconds w.clock) s.reply
      let stamped := fun pathname =>
        if client.cache pathname = w.client.cache pathname then w.stamped pathname else (w.began, w.now)
      some ({ w with client, began := w.now + 1, stamped, history := w.history ++ [w.disk] },
        ⟨some s.reply, displayTaken w.client client exchange.pending⟩)
    else none
  | .listen datagram => do
    let client ← w.client.listen (milliseconds w.clock) datagram
    some ({ w with client, history := w.history ++ [w.disk] }, .nothing)
  | .expire k => do
    let store ← fireTimer w.server.store k
    some ({ w with server := { w.server with store }, history := w.history ++ [w.disk] }, .nothing)

/-- Nothing has been sent yet, and the times on the disk are times that the server
can report. -/
structure FileWorld.Initial (w : FileWorld) : Prop where
  client : w.client = Program.start w.client.fInterval
  sent : w.sent = []
  served : w.served = []
  history : w.history = []
  began : w.began = 0
  clock : Representable w.disk.clock
  modTimes : ∀ name file, w.disk.files name = some file → Representable file.modTime

variable {sem path addr} {w w' : FileWorld} {seen : Seen}

/-- What a step can do to the disk: the clock moves on, or the file that it may
change gets a new content and the time of the clock. -/
inductive Drift (path : Bytes) (w : FileWorld) (a : FileAction) (d : FileSystem) : Prop where
  | passes (files : d.files = w.disk.files) (clock : w.disk.clock ≤ d.clock)
      (representable : Representable w.disk.clock → Representable d.clock)
  | changes (pathname : Bytes) (file : File) (content : Bytes) (target : a.target w = some pathname)
      (found : FileSystem.file? path w.disk pathname = some file)
      (stored : d = w.disk.store (concatenatePaths path pathname) content)

/-- What a step can do to the rest of the world. -/
inductive Move (path : Bytes) (w : FileWorld) (a : FileAction) (w' : FileWorld) (seen : Seen) : Prop where
  | quiet (cache : w'.client.cache = w.client.cache) (exchange : w'.client.exchange? = w.client.exchange?)
      (requests : w'.client.requests = w.client.requests)
      (sent : ∀ e ∈ w'.sent, e ∈ w.sent ∨ w.client.exchange? = some e)
      (served : w'.served = w.served) (began : w'.began = w.began) (stamped : w'.stamped = w.stamped)
      (sees : seen = .nothing)
  | serves (s : Served) (arrives : a.arrives w = some s.exchange) (arrived : s.exchange ∈ w.sent)
      (instant : s.instant = w.now) (truthful : Truthful path w.disk s.exchange.request s.reply)
      (client : w'.client = w.client) (sent : w'.sent = w.sent) (served : w'.served = w.served ++ [s])
      (began : w'.began = w.began) (stamped : w'.stamped = w.stamped) (sees : seen = .nothing)
  | commands (input : Input) (action : a = .command input)
      (did : w.client.Did (milliseconds w.clock) w'.client input.command)
      (moves : w.client.Moves w'.client) (sent : w'.sent = w.sent) (served : w'.served = w.served)
      (began : w'.began = w.now + 1) (stamped : w'.stamped = w.stamped)
      (sees : seen = ⟨none, displayFresh w.client w'.client input.command⟩)
  | takes (s : Served) (among : s ∈ w.served) (current : w.client.exchange? = some s.exchange)
      (took : w.client.Took (milliseconds w.clock) w'.client s.exchange s.reply)
      (moves : w.client.Moves w'.client) (sent : w'.sent = w.sent) (served : w'.served = w.served)
      (began : w'.began = w.now + 1)
      (stamped : ∀ pathname, w'.stamped pathname =
        if w'.client.cache pathname = w.client.cache pathname then w.stamped pathname
        else (w.began, w.now))
      (sees : seen = ⟨some s.reply, displayTaken w.client w'.client s.exchange.pending⟩)

structure FileStep (path : Bytes) (w : FileWorld) (a : FileAction) (w' : FileWorld) (seen : Seen) :
    Prop where
  history : w'.history = w.history ++ [w.disk]
  drift : Drift path w a w'.disk
  answers : ∀ e, a.arrives w = some e →
    ∃ s, w'.served = w.served ++ [s] ∧ s.exchange = e ∧ s.instant = w.now
  move : Move path w a w' seen

theorem Drift.refl {a : FileAction} : Drift path w a w.disk := .passes rfl (le_refl _) id

theorem no_arrival {P : Exchange → Prop} {a : FileAction} (idle : a.arrives w = none) :
    ∀ e, a.arrives w = some e → P e := by
  intro e arrives
  rw [idle] at arrives
  contradiction

theorem fileStep_spec {a : FileAction} (sentValid : ∀ e ∈ w.sent, e.Valid)
    (currentValid : ∀ e, w.client.exchange? = some e → e.Valid)
    (stepped : fileStep sem path addr w a = some (w', seen)) : FileStep path w a w' seen := by
  cases a with
  | tick nanoseconds =>
    simp only [fileStep] at stepped
    split at stepped <;> cases stepped
    rename_i small
    have passed : w.disk.clock ≤ w.disk.clock + nanoseconds :=
      le_add_of_nonneg_right (Int.natCast_nonneg _)
    refine ⟨rfl, .passes rfl passed ?_, no_arrival rfl, .quiet rfl rfl rfl (fun _ => .inl) rfl rfl rfl rfl⟩
    intro before
    exact ⟨le_trans before.1 (Int.ediv_le_ediv (by decide) passed), small⟩
  | adjust clock =>
    cases stepped
    exact ⟨rfl, .refl, no_arrival rfl, .quiet rfl rfl rfl (fun _ => .inl) rfl rfl rfl rfl⟩
  | update pathname content =>
    simp only [fileStep] at stepped
    split at stepped <;> cases stepped
    rename_i exists_
    obtain ⟨file, found⟩ := Option.isSome_iff_exists.mp exists_
    exact ⟨rfl, .changes pathname file content rfl found rfl, no_arrival rfl,
      .quiet rfl rfl rfl (fun _ => .inl) rfl rfl rfl rfl⟩
  | command input =>
    obtain ⟨client, commanded, made⟩ := Option.bind_eq_some_iff.mp stepped
    cases made
    exact ⟨rfl, .refl, no_arrival rfl, .commands input rfl (Program.command_did commanded)
      (Program.command_moves commanded) rfl rfl rfl rfl rfl⟩
  | transmit sendFails =>
    obtain ⟨⟨client, exchange⟩, transmitted, made⟩ := Option.bind_eq_some_iff.mp stepped
    cases made
    obtain ⟨same, requests, current⟩ := Program.transmit_cases transmitted
    refine ⟨rfl, .refl, no_arrival rfl, .quiet (Program.transmit_cache transmitted) same requests ?_ rfl rfl rfl rfl⟩
    intro e member
    rcases List.mem_append.mp member with before | new
    · exact .inl before
    · exact .inr (current e (Option.mem_toList.mp new))
  | timeout =>
    obtain ⟨client, timedOut, made⟩ := Option.bind_eq_some_iff.mp stepped
    cases made
    obtain ⟨same, requests⟩ := Program.timeout_same timedOut
    exact ⟨rfl, .refl, no_arrival rfl, .quiet (Program.timeout_cache timedOut) same requests (fun _ => .inl)
      rfl rfl rfl rfl⟩
  | listen datagram =>
    obtain ⟨client, listened, made⟩ := Option.bind_eq_some_iff.mp stepped
    cases made
    obtain ⟨outside, ends⟩ := Program.listen_ends listened
    exact ⟨rfl, .refl, no_arrival rfl, .quiet (Program.listen_cache listened) (ends.exchange.trans outside.symm)
      ends.requests (fun _ => .inl) rfl rfl rfl rfl⟩
  | expire k =>
    obtain ⟨store, fired, made⟩ := Option.bind_eq_some_iff.mp stepped
    cases made
    have same : store.disk = w.disk := fireTimer_disk fired
    refine ⟨rfl, .passes (congrArg FileSystem.files same) (le_of_eq (congrArg FileSystem.clock same.symm))
      ?_, no_arrival rfl, .quiet rfl rfl rfl (fun _ => .inl) rfl rfl rfl rfl⟩
    exact fun before => (congrArg FileSystem.clock same) ▸ before
  | serve i env faults =>
    obtain ⟨exchange, arrived, rest⟩ := Option.bind_eq_some_iff.mp stepped
    obtain ⟨ran, handles, rest⟩ := Option.bind_eq_some_iff.mp rest
    obtain ⟨⟨server, reply⟩, routed, made⟩ := Option.bind_eq_some_iff.mp rest
    cases made
    have member := List.mem_of_getElem? arrived
    obtain ⟨truthful, disk⟩ := routeRequest_truthful (sentValid exchange member)
      (Option.isSome_iff_exists.mpr ⟨ran, handles⟩) routed
    refine ⟨rfl, ?_, ?_,
      .serves ⟨exchange, w.now, reply⟩ arrived member rfl truthful rfl rfl rfl rfl rfl rfl⟩
    case refine_2 =>
      intro e arrives
      cases arrived.symm.trans arrives
      exact ⟨_, rfl, rfl, rfl⟩
    rcases disk with same | ⟨updates, file, content, found, stored⟩
    · exact .passes (congrArg FileSystem.files same) (le_of_eq (congrArg FileSystem.clock same.symm))
        fun before => (congrArg FileSystem.clock same) ▸ before
    · refine .changes exchange.request.pathname file content ?_ found stored
      simp only [FileAction.target, arrived, Option.bind_some, updates, if_true]
  | take i =>
    obtain ⟨s, among, rest⟩ := Option.bind_eq_some_iff.mp stepped
    obtain ⟨exchange, current, rest⟩ := Option.bind_eq_some_iff.mp rest
    dsimp only at rest
    split at rest
    case isFalse => contradiction
    case isTrue same =>
      subst same
      obtain ⟨client, took, made⟩ := Option.bind_eq_some_iff.mp rest
      cases made
      have valid := currentValid _ current
      have waiting := Program.take_waiting current took
      exact ⟨rfl, .refl, no_arrival rfl, .takes s (List.mem_of_getElem? among) current
        (Program.take_took valid current took) (Program.take_spec valid waiting took).1 rfl rfl rfl
        (fun _ => rfl) rfl⟩

end RemoteFile.System
