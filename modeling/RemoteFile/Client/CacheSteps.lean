import RemoteFile.Client.Exchanges

/-! What one step of the client program can do to its cache, and what it shows of
a file. A reply either leaves the cache alone, fills an entry with the content
just read, or refreshes the validation time of an entry. -/
namespace RemoteFile.Client
open Octets Cpp Cpp.Outcome

/-- The file content among new notices. -/
def Notice.content? : Notice → Option Bytes
  | content bytes => some bytes
  | _ => none

/-- What a step newly shows of a file. -/
def Program.shown (p q : Program) : Option Bytes :=
  (q.screen.drop p.screen.length).findSome? Notice.content?

theorem Program.shown_of {p q : Program} (new : List Notice) (screen : q.screen = p.screen ++ new) :
    p.shown q = new.findSome? Notice.content? := by
  rw [Program.shown, screen, List.drop_left]

theorem Program.shown_one {p q : Program} (n : Notice) (screen : q.screen = p.screen ++ [n]) :
    p.shown q = n.content? := by
  rw [Program.shown_of [n] screen]
  cases n <;> rfl

/-- A success that the reply carries for the client. -/
def ReportsTime (reply : Bytes) (t : UInt64) : Prop :=
  ∃ message, unmarshalGetLastModifiedTimeResponse (reply.take msgLength) = returns ⟨true, t, message⟩

def ReportsContent (reply content : Bytes) : Prop :=
  ∃ message, unmarshalReadResponse (reply.take msgLength) = returns ⟨true, content, message⟩

theorem ReportsContent.head {reply content : Bytes} (reports : ReportsContent reply content) :
    reply.head? = some 1 := by
  obtain ⟨message, accepted⟩ := reports
  cases reply with
  | nil => contradiction
  | cons flag rest =>
    have success := unmarshalReadResponse_flag accepted
    rw [List.head?_cons, beq_iff_eq.mp success.symm]

theorem ReportsTime.head {reply : Bytes} {x : UInt64} (reports : ReportsTime reply x) : reply.head? = some 1 := by
  obtain ⟨message, accepted⟩ := reports
  cases reply with
  | nil => contradiction
  | cons flag rest =>
    have success := unmarshalGetLastModifiedTimeResponse_flag accepted
    rw [List.head?_cons, beq_iff_eq.mp success.symm]

/-- What taking a reply can do. -/
inductive Program.Took (now : Int) (p q : Program) (e : Exchange) (reply : Bytes) : Prop where
  /-- The exchange is over; nothing of a file is shown. -/
  | ended (cache : q.cache = p.cache) (exchange : q.exchange? = none) (shown : p.shown q = none)
  /-- The read that a time query precedes is sent. -/
  | asked (expired : Bool) (req : ReadRequest) (t : UInt64) (pending : e.pending = .time expired req)
      (reports : ReportsTime reply t) (cache : q.cache = p.cache)
      (exchange : q.exchange? = some ⟨.read req t.toInt64, p.requests, .read req,
        (Request.read req).datagram (wireId p.requests)⟩)
      (shown : p.shown q = none)
  /-- Content read from the server is shown and cached. -/
  | filled (req : ReadRequest) (tmserver : Int64) (content : Bytes)
      (pending : e.pending = .read req tmserver) (reports : ReportsContent reply content)
      (cache : q.cache = Function.update p.cache req.pathname
        (some (Entry.stamped (p.cache.timestamps req.pathname now tmserver).1 content
          (p.cache.timestamps req.pathname now tmserver).2 req.offset)))
      (exchange : q.exchange? = none) (shown : p.shown q = some content)
  /-- An expired entry is found unchanged, and its content is shown. -/
  | refreshed (req : ReadRequest) (t : UInt64) (entry : Entry) (data : Bytes)
      (pending : e.pending = .time true req) (reports : ReportsTime reply t)
      (cached : p.cache req.pathname = some entry) (same : entry.tmclient = t.toInt64)
      (cache : q.cache = Function.update p.cache req.pathname (some { entry with tc := now }))
      (exchange : q.exchange? = none)
      (read : cacheRead p.cache req.pathname req.offset req.numBytes = returns data)
      (shown : p.shown q = some data)

def Command.updates : Command → Bool
  | write _ | replace _ | delete _ => true
  | _ => false

/-- What a command can do. -/
inductive Program.Did (now : Int) (p q : Program) (c : Command) : Prop where
  /-- Nothing of a file is shown. -/
  | idle (cache : q.cache = p.cache) (exchange : q.exchange? = none) (shown : p.shown q = none)
  /-- A first request is made. -/
  | asked (e : Exchange) (cache : q.cache = p.cache) (exchange : q.exchange? = some e)
      (first : ∀ req tmserver, e.pending ≠ .read req tmserver)
      (expired : ∀ req, e.pending = .time true req →
        fileInCache p.cache req.pathname req.offset req.numBytes = true)
      (updates : e.request.updates = c.updates) (shown : p.shown q = none)
  /-- A fresh entry is shown. -/
  | hit (req : ReadRequest) (entry : Entry) (data : Bytes) (command : c = .read req)
      (cached : p.cache req.pathname = some entry)
      (inCache : fileInCache p.cache req.pathname req.offset req.numBytes = true)
      (fresh : now - entry.tc < p.fInterval)
      (read : cacheRead p.cache req.pathname req.offset req.numBytes = returns data)
      (cache : q.cache = p.cache) (exchange : q.exchange? = none) (shown : p.shown q = some data)

namespace Program

variable {now : Int} {p q : Program} {e : Exchange} {msg reply : Bytes}

/-- No command changes the cache. -/
theorem Did.cache_same {c : Command} (did : p.Did now q c) : q.cache = p.cache := by
  cases did with
  | idle cache | asked _ cache => exact cache
  | hit _ _ _ _ _ _ _ _ cache => exact cache

/-- Refreshing the validation time changes no content. -/
theorem cacheRead_refreshed {cache : Cache} {filename : Bytes} {entry : Entry} (t : Int)
    (cached : cache filename = some entry) (offset bytesToRead : UInt32) :
    cacheRead (Function.update cache filename (some { entry with tc := t })) filename offset bytesToRead =
      cacheRead cache filename offset bytesToRead := by
  simp only [cacheRead, Function.update_self, cached]

theorem showCached_cases {req : ReadRequest} (shown : p.showCached req = returns q) :
    ∃ data, cacheRead p.cache req.pathname req.offset req.numBytes = returns data ∧
      q = (p.shows (.content data)).atMenu := by
  obtain ⟨data, read, made⟩ := bind_returns_iff.mp shown
  exact ⟨data, read, (Outcome.returns.inj made).symm⟩

theorem afterTime_took {expired : Bool} {req : ReadRequest} (prompted : Prompted (.read req))
    (pending : e.pending = .time expired req)
    (took : p.afterTime now expired req (reply.take msgLength) = returns q) :
    p.Took now q e reply := by
  obtain ⟨⟨success, t, message⟩, accepted, rest⟩ := bind_returns_iff.mp took
  cases success with
  | false =>
    cases rest
    exact .ended rfl rfl (shown_one (.errorMessage message) rfl)
  | true =>
    have reports : ReportsTime reply t := ⟨message, accepted⟩
    simp only [Bool.not_true, Bool.false_eq_true, if_false] at rest
    cases expired with
    | false =>
      simp only [Bool.false_eq_true, if_false] at rest
      rw [ask_eq prompted] at rest
      cases rest
      exact .asked false req t pending reports rfl rfl (shown_one (.lastModified t) rfl)
    | true =>
      simp only [if_true] at rest
      cases cached : p.cache req.pathname with
      | none =>
        simp only [fileChangedAtServer, shows, cached, if_true] at rest
        rw [ask_eq prompted] at rest
        cases rest
        exact .asked true req t pending reports rfl rfl (shown_one (.lastModified t) rfl)
      | some entry =>
        simp only [fileChangedAtServer, shows, cached] at rest
        by_cases same : entry.tmclient = t.toInt64
        · simp only [if_pos same, Bool.false_eq_true, if_false] at rest
          obtain ⟨data, read, rfl⟩ := showCached_cases rest
          rw [cacheRead_refreshed now cached] at read
          refine .refreshed req t entry data pending reports cached same rfl rfl read ?_
          exact shown_of [.lastModified t, .content data] (by simp [shows, atMenu])
        · simp only [if_neg same, if_true] at rest
          rw [ask_eq prompted] at rest
          cases rest
          exact .asked true req t pending reports rfl rfl (shown_one (.lastModified t) rfl)

theorem afterRead_took {req : ReadRequest} {tmserver : Int64} (pending : e.pending = .read req tmserver)
    (took : p.afterRead now req tmserver (reply.take msgLength) = returns q) :
    p.Took now q e reply := by
  obtain ⟨⟨success, content, message⟩, accepted, rest⟩ := bind_returns_iff.mp took
  cases success with
  | false =>
    cases rest
    exact .ended rfl rfl (shown_one (.errorMessage message) rfl)
  | true =>
    cases rest
    refine .filled req tmserver content pending ⟨message, accepted⟩ ?_ rfl (shown_one (.content content) rfl)
    exact cacheWrite_eq ..

theorem afterStatus_took {kind : MessageType} {unmarshal : Bytes → Outcome StatusResponse}
    (took : p.afterStatus kind unmarshal msg = returns q) : p.Took now q e reply := by
  obtain ⟨resp, _, rest⟩ := bind_returns_iff.mp took
  dsimp only at rest
  split at rest <;> cases rest
  · refine .ended rfl rfl ?_
    exact shown_of [.success kind resp.success, .errorMessage resp.errorMessage]
      (by simp [shows, atMenu])
  · exact .ended rfl rfl (shown_one (.success kind resp.success) rfl)

theorem afterSubscribe_took {seconds : UInt32} (took : p.afterSubscribe now seconds msg = returns q) :
    p.Took now q e reply := by
  obtain ⟨resp, _, rest⟩ := bind_returns_iff.mp took
  dsimp only at rest
  split at rest <;> cases rest
  · refine .ended rfl rfl ?_
    exact shown_of [.success .subscribe resp.success, .errorMessage resp.errorMessage]
      (by simp [shows, atMenu])
  · exact .ended rfl rfl (shown_one (.success .subscribe resp.success) rfl)

theorem take_took (valid : e.Valid) (current : p.exchange? = some e)
    (took : p.take now reply = some q) : p.Took now q e reply := by
  unfold take at took
  split at took
  case h_2 => contradiction
  case h_1 e' phase =>
    simp only [exchange?, phase, Option.some.injEq] at current
    subst current
    obtain rfl := Option.some.inj took
    obtain ⟨pending, number, request, marshalled⟩ := e'
    obtain ⟨_, asks, _⟩ := valid
    cases result : p.after now pending (reply.take msgLength) with
    | throws error | undefined =>
      refine .ended rfl rfl ?_
      exact shown_of [] (List.append_nil _).symm
    | returns q =>
      cases asks with
      | time prompted => exact afterTime_took prompted rfl result
      | read => exact afterRead_took rfl result
      | write | replace | delete => exact afterStatus_took result
      | subscribe => exact afterSubscribe_took result

theorem startRead_did {req : ReadRequest} (prompted : Prompted (.read req))
    (ran : p.startRead now req = returns q) : p.Did now q (.read req) := by
  have asks (expired : Bool) (p' : Program) (same : p'.cache = p.cache) (screen : p'.screen = p.screen)
      (inCache : expired = true → fileInCache p.cache req.pathname req.offset req.numBytes = true)
      (asked : p'.ask (.time expired req) (.getLastModifiedTime ⟨req.pathname⟩) = returns q) :
      p.Did now q (.read req) := by
    have exchange := (ask_begins (Prompted.time prompted) (.time prompted) asked).exchange
    have shown : p.shown q = none := shown_of [] (by rw [ask_screen asked, screen, List.append_nil])
    rw [ask_eq (Prompted.time prompted)] at asked
    refine .asked _ (by cases asked; exact same) exchange nofun ?_ rfl shown
    intro req' pending
    cases pending
    exact inCache rfl
  unfold startRead at ran
  split at ran
  · exact asks false p rfl rfl nofun ran
  · rename_i found
    have inCache : fileInCache p.cache req.pathname req.offset req.numBytes = true := by
      simpa using found
    obtain ⟨entry, cached, _⟩ := fileInCache_iff.mp inCache
    simp only [cacheExpired_cache cached] at ran
    split at ran
    · exact asks true p rfl rfl (fun _ => inCache) ran
    · rename_i fresh
      obtain ⟨data, read, rfl⟩ := showCached_cases ran
      exact .hit req entry data rfl cached inCache (by simpa using fresh) read rfl rfl
        (shown_one (.content data) rfl)

theorem ask_did (pending : Pending) {r : Request} {c : Command} (prompted : Prompted r)
    (asks : pending.Asks r) (first : ∀ req tmserver, pending ≠ .read req tmserver)
    (unread : ∀ req, pending ≠ .time true req) (updates : r.updates = c.updates)
    (asked : p.ask pending r = returns q) : p.Did now q c := by
  have exchange := (ask_begins prompted asks asked).exchange
  have shown : p.shown q = none := shown_of [] (by rw [ask_screen asked, List.append_nil])
  rw [ask_eq prompted] at asked
  cases asked
  exact .asked _ rfl exchange first (fun req pending => absurd pending (unread req)) updates shown

theorem caught_did {c : Command} {x : Outcome Program} (did : ∀ q, x = returns q → p.Did now q c)
    (same : p.caught x = q) : p.Did now q c := by
  subst same
  cases x with
  | returns q => exact did q rfl
  | throws e | undefined => exact .idle rfl rfl (shown_of [] (List.append_nil _).symm)

theorem command_did {c : Input} (commanded : p.command now c.command = some q) :
    p.Did now q c.command := by
  obtain ⟨c, prompted⟩ := c
  unfold command at commanded
  split at commanded
  case h_2 => contradiction
  case h_1 atMenu =>
    refine caught_did ?_ (Option.some.inj commanded)
    intro q ran
    cases c with
    | read req => exact startRead_did (prompted _ rfl) ran
    | write req => exact ask_did .write (prompted _ rfl) .write nofun nofun rfl ran
    | replace req => exact ask_did .replace (prompted _ rfl) .replace nofun nofun rfl ran
    | delete req => exact ask_did .delete (prompted _ rfl) .delete nofun nofun rfl ran
    | subscribe req =>
      exact ask_did (.subscribe req.monitorIntervalSeconds) (prompted _ rfl) .subscribe nofun nofun rfl
        ran
    | terminate =>
      cases ran
      exact .idle rfl rfl (shown_of [] (List.append_nil _).symm)
    | invalid =>
      cases ran
      exact .idle rfl (by rw [exchange?, atMenu]) (shown_of [] (List.append_nil _).symm)

/-! ### No step sets the freshness interval -/

theorem ask_interval {pending : Pending} {r : Request} (asked : p.ask pending r = returns q) :
    q.fInterval = p.fInterval := by
  obtain ⟨_, _, made⟩ := bind_returns_iff.mp asked
  cases made
  rfl

theorem showCached_interval {req : ReadRequest} (shown : p.showCached req = returns q) :
    q.fInterval = p.fInterval := by
  obtain ⟨_, _, rfl⟩ := showCached_cases shown
  rfl

theorem caught_interval {x : Outcome Program} (same : ∀ q, x = returns q → q.fInterval = p.fInterval)
    (result : p.caught x = q) : q.fInterval = p.fInterval := by
  subst result
  cases x with
  | returns q => exact same q rfl
  | throws | undefined => rfl

theorem startRead_interval {req : ReadRequest} (started : p.startRead now req = returns q) :
    q.fInterval = p.fInterval := by
  unfold startRead at started
  split at started
  · exact (ask_interval started :)
  · dsimp only at started
    split at started
    · exact (ask_interval started :)
    · exact (showCached_interval started :)

theorem command_interval {c : Command} (commanded : p.command now c = some q) : q.fInterval = p.fInterval := by
  unfold command at commanded
  split at commanded
  case h_2 => contradiction
  case h_1 =>
    apply caught_interval _ (Option.some.inj commanded)
    intro q ran
    cases c with
    | read req => exact startRead_interval ran
    | write | subscribe | replace | delete => exact ask_interval ran
    | terminate | invalid =>
      cases ran
      rfl

theorem after_interval {pending : Pending} {msg : Bytes} (took : p.after now pending msg = returns q) :
    q.fInterval = p.fInterval := by
  cases pending with
  | time expired req =>
    obtain ⟨resp, _, rest⟩ := bind_returns_iff.mp took
    dsimp only at rest
    split at rest
    · cases rest
      rfl
    · split at rest
      · split at rest
        · exact (ask_interval rest :)
        · exact (showCached_interval rest :)
      · exact (ask_interval rest :)
  | read | write | replace | delete | subscribe =>
    obtain ⟨resp, _, rest⟩ := bind_returns_iff.mp took
    dsimp only at rest
    split at rest <;> cases rest <;> rfl

theorem take_interval {datagram : Bytes} (took : p.take now datagram = some q) : q.fInterval = p.fInterval := by
  unfold take at took
  split at took
  case h_2 => contradiction
  case h_1 => exact caught_interval (fun _ => after_interval) (Option.some.inj took)

theorem transmit_interval {sendFails : Bool} {sent : Option Exchange}
    (transmitted : p.transmit sendFails = some (q, sent)) : q.fInterval = p.fInterval := by
  unfold transmit at transmitted
  split at transmitted
  case h_2 => contradiction
  case h_1 => split at transmitted <;> cases transmitted <;> rfl

theorem timeout_interval (timedOut : p.timeout = some q) : q.fInterval = p.fInterval := by
  unfold timeout at timedOut
  split at timedOut <;> cases timedOut
  rfl

theorem listen_interval {datagram : Option Bytes} (listened : p.listen now datagram = some q) :
    q.fInterval = p.fInterval := by
  obtain ⟨_, _, monitoring⟩ := listen_monitoring listened
  rcases listen_cases monitoring listened with ⟨_, rfl⟩ | ⟨_, _, rfl⟩ <;> rfl

end Program

end RemoteFile.Client
