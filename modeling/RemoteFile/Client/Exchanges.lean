import RemoteFile.Client.Program

/-! What one step of the client program can do to its exchanges: begin the next
one, with the next number, or end the current one. Everything that a run of
clients preserves is derived from the lemmas of this module. -/
namespace RemoteFile.Client
open Octets Cpp Cpp.Outcome

theorem Prompted.encodable {r : Request} (prompted : Prompted r) : r.Encodable := by
  have pathname := prompted.pathname
  have content := prompted.content
  simp only [promptLength] at pathname content
  exact ⟨by omega, by omega⟩

/-- The request that a pending exchange has sent. -/
inductive Pending.Asks : Pending → Request → Prop where
  | time : Prompted (.read req) →
      Asks (.time expired req) (.getLastModifiedTime ⟨req.pathname⟩)
  | read : Asks (.read req tmserver) (.read req)
  | write : Asks .write (.write req)
  | subscribe : Asks (.subscribe seconds) (.subscribe req)
  | replace : Asks .replace (.replace req)
  | delete : Asks .delete (.delete req)

structure Exchange.Valid (e : Exchange) : Prop where
  marshalled : e.marshalled = e.request.datagram (wireId e.number)
  asks : e.pending.Asks e.request
  prompted : Prompted e.request

theorem Exchange.Valid.timeQuery {e : Exchange} (valid : e.Valid)
    (pending : e.pending = .time expired req) :
    e.request = .getLastModifiedTime ⟨req.pathname⟩ ∧ Prompted (.read req) := by
  obtain ⟨_, _, request, _⟩ := e
  subst pending
  obtain ⟨_, asks, _⟩ := valid
  cases asks with
  | time prompted => exact ⟨rfl, prompted⟩

theorem Exchange.Valid.readRequest {e : Exchange} (valid : e.Valid)
    (pending : e.pending = .read req tmserver) : e.request = .read req := by
  obtain ⟨_, _, request, _⟩ := e
  subst pending
  obtain ⟨_, asks, _⟩ := valid
  cases asks
  rfl

/-- An exchange has begun. -/
structure Program.Begins (p q : Program) (e : Exchange) : Prop where
  exchange : q.exchange? = some e
  requests : q.requests = p.requests + 1
  number : e.number = p.requests
  valid : e.Valid

/-- The program is outside of any exchange. -/
structure Program.Ends (p q : Program) : Prop where
  exchange : q.exchange? = none
  requests : q.requests = p.requests

def Program.Moves (p q : Program) : Prop := p.Ends q ∨ ∃ e, p.Begins q e

/-- The program is in the exchange that it was in, if any. -/
structure Program.Stays (p q : Program) : Prop where
  exchange : q.exchange? = p.exchange?
  requests : q.requests = p.requests

theorem Program.stays (p : Program) : p.Stays p := ⟨rfl, rfl⟩

namespace Program

theorem ask_eq {pending : Pending} {r : Request} (prompted : Prompted r) (p : Program) :
    p.ask pending r = returns { p with
      requests := p.requests + 1
      phase := .sending ⟨pending, p.requests, r, r.datagram (wireId p.requests)⟩ } := by
  rw [ask, marshalRequest_returns _ prompted.encodable, returns_bind]

theorem ask_begins {pending : Pending} {r : Request} {p q : Program} (prompted : Prompted r)
    (asks : pending.Asks r) (asked : p.ask pending r = returns q) :
    p.Begins q ⟨pending, p.requests, r, r.datagram (wireId p.requests)⟩ := by
  rw [ask_eq prompted] at asked
  cases asked
  exact ⟨rfl, rfl, rfl, rfl, asks, prompted⟩

theorem showCached_ends {req : ReadRequest} {p q : Program} (shown : p.showCached req = returns q) :
    p.Ends q := by
  obtain ⟨data, _, made⟩ := bind_returns_iff.mp shown
  cases made
  exact ⟨rfl, rfl⟩

theorem Prompted.time {req : ReadRequest} (prompted : Prompted (.read req)) :
    Prompted (.getLastModifiedTime ⟨req.pathname⟩) :=
  ⟨prompted.pathname, Nat.zero_le _, fun _ member => absurd member List.not_mem_nil⟩

theorem startRead_moves {now : Int} {req : ReadRequest} {p q : Program}
    (prompted : Prompted (.read req)) (started : p.startRead now req = returns q) : p.Moves q := by
  unfold startRead at started
  split at started
  · exact .inr ⟨_, ask_begins (Prompted.time prompted) (.time prompted) started⟩
  · dsimp only at started
    split at started
    · obtain ⟨exchange, requests, number, valid⟩ :=
        ask_begins (Prompted.time prompted) (.time prompted) started
      exact .inr ⟨_, exchange, requests, number, valid⟩
    · obtain ⟨exchange, requests⟩ := showCached_ends started
      exact .inl ⟨exchange, requests⟩

theorem caught_moves {p q : Program} {x : Outcome Program}
    (moves : ∀ q, x = returns q → p.Moves q) (same : p.caught x = q) : p.Moves q := by
  subst same
  cases x with
  | returns q => exact moves q rfl
  | throws e | undefined => exact .inl ⟨rfl, rfl⟩

/-- A command begins an exchange or leaves the program outside of any. -/
theorem command_moves {now : Int} {c : Input} {p q : Program}
    (commanded : p.command now c.command = some q) : p.Moves q := by
  obtain ⟨c, prompted⟩ := c
  unfold command at commanded
  split at commanded
  case h_2 => contradiction
  case h_1 atMenu =>
    refine caught_moves ?_ (Option.some.inj commanded)
    intro q ran
    cases c with
    | read req => exact startRead_moves (prompted _ rfl) ran
    | write req | replace req | delete req | subscribe req =>
      exact .inr ⟨_, ask_begins (prompted _ rfl) (by constructor) ran⟩
    | terminate =>
      cases ran
      exact .inl ⟨rfl, rfl⟩
    | invalid =>
      cases ran
      exact .inl ⟨by rw [exchange?, atMenu], rfl⟩

theorem transmit_cases {sendFails : Bool} {p q : Program} {sent : Option Exchange}
    (transmitted : p.transmit sendFails = some (q, sent)) :
    q.exchange? = p.exchange? ∧ q.requests = p.requests ∧ ∀ e, sent = some e → p.exchange? = some e := by
  unfold transmit at transmitted
  split at transmitted
  case h_2 => contradiction
  case h_1 exchange phase =>
    split at transmitted
    · cases transmitted
      exact ⟨rfl, rfl, nofun⟩
    · cases transmitted
      refine ⟨?_, rfl, ?_⟩
      · simp only [exchange?, phase]
      · rintro e ⟨⟩
        simp only [exchange?, phase]

theorem timeout_same {p q : Program} (timedOut : p.timeout = some q) :
    q.exchange? = p.exchange? ∧ q.requests = p.requests := by
  unfold timeout at timedOut
  split at timedOut
  case h_2 => contradiction
  case h_1 exchange phase =>
    cases timedOut
    refine ⟨?_, rfl⟩
    simp only [exchange?, phase, shows]

theorem writeOut_receive (datagram : Option Bytes) :
    writeOut (receive datagram).1 (receive datagram).2 = (datagram.getD []).take updateLength := by
  cases datagram with
  | none => rfl
  | some bytes =>
    have counted : ¬ ((bytes.take updateLength).length : Int) < 0 := Int.not_lt.mpr (Int.natCast_nonneg _)
    rw [receive, writeOut, if_neg counted, Int.toNat_natCast, filled, List.take_left]
    rfl

/-- A turn in time shows the first bytes of what arrived, or nothing at all as an update. -/
theorem listen_cases {now startTime : Int} {seconds : UInt32} {datagram : Option Bytes} {p q : Program}
    (monitoring : p.phase = .monitoring startTime seconds) (listened : p.listen now datagram = some q) :
    (now - startTime < seconds.toNat * 1000 ∧
      q = p.shows (.update ((datagram.getD []).take updateLength))) ∨
    (¬ now - startTime < seconds.toNat * 1000 ∧ datagram = none ∧ q = p.atMenu) := by
  rw [← writeOut_receive]
  simp only [listen, monitoring] at listened
  by_cases inTime : now - startTime < seconds.toNat * 1000
  · rw [if_pos inTime] at listened
    exact .inl ⟨inTime, (Option.some.inj listened).symm⟩
  · rw [if_neg inTime] at listened
    cases datagram with
    | none => exact .inr ⟨inTime, rfl, (Option.some.inj listened).symm⟩
    | some bytes => contradiction

theorem listen_monitoring {now : Int} {datagram : Option Bytes} {p q : Program}
    (listened : p.listen now datagram = some q) :
    ∃ startTime seconds, p.phase = .monitoring startTime seconds := by
  unfold listen at listened
  split at listened
  case h_2 => contradiction
  case h_1 startTime seconds phase => exact ⟨startTime, seconds, phase⟩

theorem listen_ends {now : Int} {datagram : Option Bytes} {p q : Program}
    (listened : p.listen now datagram = some q) : p.exchange? = none ∧ p.Ends q := by
  obtain ⟨startTime, seconds, monitoring⟩ := listen_monitoring listened
  have outside : p.exchange? = none := by simp only [exchange?, monitoring]
  refine ⟨outside, ?_⟩
  rcases listen_cases monitoring listened with ⟨_, rfl⟩ | ⟨_, _, rfl⟩
  · exact ⟨outside, rfl⟩
  · exact ⟨rfl, rfl⟩

theorem transmit_cache {sendFails : Bool} {p q : Program} {sent : Option Exchange}
    (transmitted : p.transmit sendFails = some (q, sent)) : q.cache = p.cache := by
  unfold transmit at transmitted
  split at transmitted
  case h_2 => contradiction
  case h_1 => split at transmitted <;> cases transmitted <;> rfl

theorem timeout_cache {p q : Program} (timedOut : p.timeout = some q) : q.cache = p.cache := by
  unfold timeout at timedOut
  split at timedOut <;> cases timedOut
  rfl

theorem listen_cache {now : Int} {datagram : Option Bytes} {p q : Program}
    (listened : p.listen now datagram = some q) : q.cache = p.cache := by
  obtain ⟨startTime, seconds, monitoring⟩ := listen_monitoring listened
  rcases listen_cases monitoring listened with ⟨_, rfl⟩ | ⟨_, _, rfl⟩ <;> rfl

/-- The new notices of a step, and what a reported success rests on: the reply
began with the success byte, and the program was waiting for this kind of reply. -/
def Reports (p q : Program) (request : Request) (msg : Bytes) : Prop :=
  ∃ new, q.screen = p.screen ++ new ∧ ∀ kind, .success kind true ∈ new →
    kind = request.messageType ∧ msg.head? = some 1

theorem reports_none {p q : Program} {request : Request} {msg : Bytes} (new : List Notice)
    (screen : q.screen = p.screen ++ new) (silent : ∀ kind, .success kind true ∉ new) :
    p.Reports q request msg :=
  ⟨new, screen, fun kind member => absurd member (silent kind)⟩

theorem ask_screen {pending : Pending} {r : Request} {p q : Program} (asked : p.ask pending r = returns q) :
    q.screen = p.screen := by
  obtain ⟨marshalled, _, made⟩ := bind_returns_iff.mp asked
  cases made
  rfl

theorem showCached_screen {req : ReadRequest} {p q : Program} (shown : p.showCached req = returns q) :
    ∃ data, q.screen = p.screen ++ [.content data] := by
  obtain ⟨data, _, made⟩ := bind_returns_iff.mp shown
  cases made
  exact ⟨data, rfl⟩

theorem afterTime_spec {now : Int} {expired : Bool} {req : ReadRequest} {msg : Bytes} {p q : Program}
    (prompted : Prompted (.read req)) (took : p.afterTime now expired req msg = returns q) :
    p.Moves q ∧ p.Reports q (.getLastModifiedTime ⟨req.pathname⟩) msg := by
  obtain ⟨timeResp, _, rest⟩ := bind_returns_iff.mp took
  dsimp only at rest
  have asked : ∀ (pending : Pending) (p' : Program), p'.ask pending (.read req) = returns q →
      pending.Asks (.read req) → p'.requests = p.requests →
      p'.screen = p.screen ++ [.lastModified timeResp.lastModifiedUnixTime] →
      p.Moves q ∧ p.Reports q (.getLastModifiedTime ⟨req.pathname⟩) msg := by
    intro pending p' ran asks requests screen
    obtain ⟨exchange, next, _, valid⟩ := ask_begins prompted asks ran
    rw [requests] at next
    refine ⟨.inr ⟨_, exchange, next, requests, valid⟩, ?_⟩
    refine reports_none [.lastModified timeResp.lastModifiedUnixTime] ?_ (by simp)
    rw [ask_screen ran, screen]
  split at rest
  · cases rest
    exact ⟨.inl ⟨rfl, rfl⟩, reports_none _ rfl (by simp)⟩
  · split at rest
    · split at rest
      · exact asked _ _ rest .read rfl rfl
      · obtain ⟨exchange, requests⟩ := showCached_ends rest
        obtain ⟨data, screen⟩ := showCached_screen rest
        refine ⟨.inl ⟨exchange, requests⟩, ?_⟩
        refine reports_none [.lastModified timeResp.lastModifiedUnixTime, .content data] ?_ (by simp)
        rw [screen]
        simp [shows]
    · exact asked _ _ rest .read rfl rfl

theorem afterRead_spec {now : Int} {tmserver : Int64} {req : ReadRequest} {msg : Bytes} {p q : Program}
    (took : p.afterRead now req tmserver msg = returns q) :
    p.Ends q ∧ p.Reports q (.read req) msg := by
  obtain ⟨readResp, _, rest⟩ := bind_returns_iff.mp took
  dsimp only at rest
  split at rest <;> cases rest
  · exact ⟨⟨rfl, rfl⟩, reports_none _ rfl (by simp)⟩
  · exact ⟨⟨rfl, rfl⟩, reports_none _ rfl (by simp)⟩

/-- A status response that is not empty begins with its flag. -/
theorem status_head {msg : Bytes} {resp : StatusResponse}
    (accepted : unmarshalStatusResponse msg = returns resp) (success : resp.success = true) :
    msg.head? = some 1 := by
  cases msg with
  | nil => contradiction
  | cons flag rest =>
    rw [unmarshalStatusResponse_flag accepted, beq_iff_eq] at success
    rw [List.head?_cons, success]

theorem afterStatus_spec (kind : MessageType) {msg : Bytes} {p q : Program} {r : Request}
    (asks : r.messageType = kind)
    (took : p.afterStatus kind unmarshalStatusResponse msg = returns q) :
    p.Ends q ∧ p.Reports q r msg := by
  obtain ⟨resp, accepted, rest⟩ := bind_returns_iff.mp took
  dsimp only at rest
  cases success : resp.success with
  | true =>
    simp only [success, Bool.not_true, Bool.false_eq_true, if_false] at rest
    cases rest
    refine ⟨⟨rfl, rfl⟩, [.success kind true], rfl, fun reported member => ?_⟩
    cases List.mem_singleton.mp member
    exact ⟨asks.symm, status_head accepted success⟩
  | false =>
    simp only [success, Bool.not_false, if_true] at rest
    cases rest
    refine ⟨⟨rfl, rfl⟩, ?_⟩
    refine reports_none [.success kind false, .errorMessage resp.errorMessage] ?_ (by simp)
    simp [shows, atMenu]

theorem afterSubscribe_spec {now : Int} {seconds : UInt32} {msg : Bytes} {p q : Program} {r : Request}
    (asks : r.messageType = .subscribe) (took : p.afterSubscribe now seconds msg = returns q) :
    p.Ends q ∧ p.Reports q r msg := by
  obtain ⟨resp, accepted, rest⟩ := bind_returns_iff.mp took
  dsimp only at rest
  cases success : resp.success with
  | true =>
    simp only [success, Bool.not_true, Bool.false_eq_true, if_false] at rest
    cases rest
    refine ⟨⟨rfl, rfl⟩, [.success .subscribe true], rfl, fun reported member => ?_⟩
    cases List.mem_singleton.mp member
    exact ⟨asks.symm, status_head accepted success⟩
  | false =>
    simp only [success, Bool.not_false, if_true] at rest
    cases rest
    refine ⟨⟨rfl, rfl⟩, ?_⟩
    refine reports_none [.success .subscribe false, .errorMessage resp.errorMessage] ?_ (by simp)
    simp [shows, atMenu]

theorem take_waiting {now : Int} {datagram : Bytes} {p q : Program} {e : Exchange}
    (current : p.exchange? = some e) (took : p.take now datagram = some q) : p.phase = .waiting e := by
  unfold take at took
  split at took
  case h_2 => contradiction
  case h_1 e' phase =>
    simp only [exchange?, phase, Option.some.injEq] at current
    rw [phase, current]

/-- A reply that is taken ends the exchange, or begins the second one of a read. -/
theorem take_spec {now : Int} {datagram : Bytes} {p q : Program} {e : Exchange} (valid : e.Valid)
    (waiting : p.phase = .waiting e) (took : p.take now datagram = some q) :
    p.Moves q ∧ p.Reports q e.request datagram := by
  simp only [take, waiting, Option.some.injEq] at took
  have head : (datagram.take msgLength).head? = some 1 → datagram.head? = some 1 := by
    cases datagram <;> exact id
  have spec : ∀ q, p.after now e.pending (datagram.take msgLength) = returns q →
      p.Moves q ∧ p.Reports q e.request (datagram.take msgLength) := by
    obtain ⟨pending, number, request, marshalled⟩ := e
    obtain ⟨_, asks, _⟩ := valid
    intro q ran
    dsimp only at asks ran
    cases asks with
    | time prompted => exact afterTime_spec prompted ran
    | read => exact (afterRead_spec ran).imp_left .inl
    | write => exact (afterStatus_spec .write rfl ran).imp_left .inl
    | replace => exact (afterStatus_spec .replace rfl ran).imp_left .inl
    | delete => exact (afterStatus_spec .delete rfl ran).imp_left .inl
    | subscribe => exact (afterSubscribe_spec rfl ran).imp_left .inl
  cases result : p.after now e.pending (datagram.take msgLength) with
  | returns q' =>
    rw [result] at took
    cases took
    obtain ⟨moves, new, screen, rests⟩ := spec q' result
    exact ⟨moves, new, screen, fun kind member => (rests kind member).imp_right head⟩
  | throws error | undefined =>
    rw [result] at took
    cases took
    exact ⟨.inl ⟨rfl, rfl⟩, reports_none [] (List.append_nil _).symm (by simp)⟩

end Program

end RemoteFile.Client
