import RemoteFile.Client.CacheSteps

/-! When the client program dies of an exception: it is handed a reply that its validators
refuse, or a cached content ends before the offset that it is to be shown from. -/
namespace RemoteFile.Client
open Octets Cpp Cpp.Outcome

/-- The position asked for lies beyond the cached content; it is counted from the start of the
content, even where this is a later part of the file. -/
def Overreads (cache : Cache) (req : ReadRequest) : Prop :=
  ∃ entry, cache req.pathname = some entry ∧ entry.filecontent.length < req.offset.toNat

/-- A value is computed. -/
def Accepted {α : Type} (x : Outcome α) : Prop := ∃ a, x = returns a

theorem accepted_wrap_iff {α β : Type} {x : Outcome α} {wrap : α → β} :
    Accepted (x >>= fun a => returns (wrap a)) ↔ Accepted x := by
  cases x <;> simp [Accepted]

namespace Program

variable {now : Int} {p q : Program} {e : Exchange} {msg : Bytes} {req : ReadRequest}

/-- The program that a step computes has not been ended by an exception. -/
def GoesOn (x : Outcome Program) : Prop := ∃ q, x = returns q ∧ q.phase ≠ .terminated

theorem terminated_iff {x : Outcome Program} : (p.caught x).phase = .terminated ↔ ¬ GoesOn x := by
  constructor
  · rintro ended ⟨q, rfl, alive⟩
    exact alive ended
  · intro stops
    cases x with
    | returns q =>
      by_contra alive
      exact stops ⟨q, rfl, alive⟩
    | throws error | undefined => rfl

theorem ask_goesOn {pending : Pending} {r : Request} (prompted : Prompted r) : GoesOn (p.ask pending r) :=
  ⟨_, ask_eq prompted p, nofun⟩

theorem showCached_goesOn_iff (p : Program) (req : ReadRequest) : GoesOn (p.showCached req) ↔ ¬ Overreads p.cache req := by
  unfold showCached cacheRead Overreads
  cases cached : p.cache req.pathname with
  | none => simp [GoesOn, atMenu]
  | some entry =>
    by_cases inside : req.offset.toNat ≤ entry.filecontent.length
    · simp [substr, GoesOn, atMenu, inside]
    · simp [substr, GoesOn, inside, Nat.lt_of_not_le inside]

/-! ### Commands -/

/-- A fresh entry is to be shown, from beyond its content. -/
def ShowsBeyond (now : Int) (p : Program) (req : ReadRequest) : Prop :=
  ∃ entry, p.cache req.pathname = some entry ∧
    fileInCache p.cache req.pathname req.offset req.numBytes = true ∧ now - entry.tc < p.fInterval ∧
    entry.filecontent.length < req.offset.toNat

theorem startRead_goesOn_iff (now : Int) (p : Program) (prompted : Prompted (.read req)) :
    GoesOn (p.startRead now req) ↔ ¬ ShowsBeyond now p req := by
  unfold startRead ShowsBeyond
  cases inCache : fileInCache p.cache req.pathname req.offset req.numBytes with
  | false => simpa using ask_goesOn (Prompted.time prompted)
  | true =>
    obtain ⟨entry, cached, _⟩ := fileInCache_iff.mp inCache
    simp only [Bool.not_true, Bool.false_eq_true, if_false, cacheExpired_cache cached, cached, Option.some.injEq,
      exists_eq_left', true_and]
    by_cases fresh : now - entry.tc < p.fInterval
    · have shows : Overreads p.cache req ↔ entry.filecontent.length < req.offset.toNat := by
        simp [Overreads, cached]
      simpa [fresh, shows] using showCached_goesOn_iff p req
    · simpa [fresh] using ask_goesOn (Prompted.time prompted)

/-- Of the commands only a read can end the program so. -/
theorem command_terminated_iff {c : Input} (commanded : p.command now c.command = some q) :
    q.phase = .terminated ↔ ∃ req, c.command = .read req ∧ ShowsBeyond now p req := by
  obtain ⟨command, prompted⟩ := c
  unfold Program.command at commanded
  split at commanded
  case h_2 => contradiction
  case h_1 menu =>
    cases commanded
    rw [terminated_iff]
    cases command with
    | read req =>
      simpa using not_congr (startRead_goesOn_iff now p (prompted _ rfl))
    | write | subscribe | replace | delete => simpa using ask_goesOn (prompted _ rfl)
    | terminate => simp [GoesOn]
    | invalid => simp [GoesOn, menu]

/-! ### Replies -/

/-- Whatever is done with an accepted value, if it goes on in any case. -/
theorem bind_goesOn_iff {α : Type} {x : Outcome α} {next : α → Outcome Program} (fine : ∀ a, GoesOn (next a)) :
    GoesOn (x >>= next) ↔ Accepted x := by
  constructor
  · rintro ⟨q, made, _⟩
    obtain ⟨a, accepted, _⟩ := bind_returns_iff.mp made
    exact ⟨a, accepted⟩
  · rintro ⟨a, rfl⟩
    exact fine a

theorem afterStatus_goesOn_iff {kind : MessageType} {unmarshal : Bytes → Outcome StatusResponse} :
    GoesOn (p.afterStatus kind unmarshal msg) ↔ Accepted (unmarshal msg) := by
  apply bind_goesOn_iff
  intro resp
  dsimp only
  split <;> exact ⟨_, rfl, nofun⟩

theorem afterSubscribe_goesOn_iff {seconds : UInt32} :
    GoesOn (p.afterSubscribe now seconds msg) ↔ Accepted (unmarshalSubscribeResponse msg) := by
  apply bind_goesOn_iff
  intro resp
  dsimp only
  split <;> exact ⟨_, rfl, nofun⟩

theorem afterRead_goesOn_iff {tmserver : Int64} :
    GoesOn (p.afterRead now req tmserver msg) ↔ Accepted (unmarshalReadResponse msg) := by
  apply bind_goesOn_iff
  intro resp
  dsimp only
  split <;> exact ⟨_, rfl, nofun⟩

/-- An expired entry is found unchanged and is to be shown, from beyond its content. -/
def ConfirmsBeyond (p : Program) (pending : Pending) (reply : Bytes) : Prop :=
  ∃ req t entry, pending = .time true req ∧ ReportsTime reply t ∧ p.cache req.pathname = some entry ∧
    entry.tmclient = t.toInt64 ∧ entry.filecontent.length < req.offset.toNat

theorem afterTime_goesOn_iff {expired : Bool} {reply : Bytes} (prompted : Prompted (.read req)) :
    GoesOn (p.afterTime now expired req (reply.take msgLength)) ↔
      Accepted (unmarshalGetLastModifiedTimeResponse (reply.take msgLength)) ∧
        ¬ ConfirmsBeyond p (.time expired req) reply := by
  unfold afterTime ConfirmsBeyond ReportsTime
  cases accepted : unmarshalGetLastModifiedTimeResponse (reply.take msgLength) with
  | throws error | undefined => simp [GoesOn, Accepted]
  | returns resp =>
    obtain ⟨success, t, message⟩ := resp
    cases success with
    | false => simp [GoesOn, Accepted, shows, atMenu]
    | true =>
      cases expired with
      | false => simpa [Accepted] using ask_goesOn prompted
      | true =>
        cases cached : p.cache req.pathname with
        | none => simpa [Accepted, fileChangedAtServer, cached, shows] using ask_goesOn prompted
        | some entry =>
          by_cases same : entry.tmclient = t.toInt64
          · have shown : GoesOn (showCached req { p.shows (.lastModified t) with
                cache := Function.update p.cache req.pathname (some { entry with tc := now }) }) ↔
                ¬ entry.filecontent.length < req.offset.toNat := by
              simpa [Overreads] using showCached_goesOn_iff { p.shows (.lastModified t) with
                cache := Function.update p.cache req.pathname (some { entry with tc := now }) } req
            simpa [Accepted, fileChangedAtServer, cached, shows, same] using shown
          · simpa [Accepted, fileChangedAtServer, cached, shows, same] using ask_goesOn prompted

/-- A reply ends the program if it is refused, or confirms an entry whose content is too short. -/
theorem take_terminated_iff {reply : Bytes} (valid : e.Valid) (waiting : p.phase = .waiting e)
    (took : p.take now reply = some q) :
    q.phase = .terminated ↔ ¬ Accepted (unmarshalResponse e.request.messageType (reply.take msgLength)) ∨
      ConfirmsBeyond p e.pending reply := by
  simp only [take, waiting, Option.some.injEq] at took
  subst took
  suffices iff : GoesOn (p.after now e.pending (reply.take msgLength)) ↔
      Accepted (unmarshalResponse e.request.messageType (reply.take msgLength)) ∧ ¬ ConfirmsBeyond p e.pending reply by
    rw [terminated_iff, iff, not_and_or, not_not]
  obtain ⟨pending, number, request, marshalled⟩ := e
  obtain ⟨_, asks, _⟩ := valid
  have untimed {pending : Pending} (other : ∀ req, pending ≠ .time true req) : ¬ ConfirmsBeyond p pending reply := by
    rintro ⟨req, _, _, time, _⟩
    exact other req time
  cases asks with
  | time prompted => exact (afterTime_goesOn_iff prompted).trans (and_congr_left' accepted_wrap_iff.symm)
  | read => exact (afterRead_goesOn_iff.trans accepted_wrap_iff.symm).trans (and_iff_left (untimed (by simp))).symm
  | subscribe =>
    exact (afterSubscribe_goesOn_iff.trans accepted_wrap_iff.symm).trans (and_iff_left (untimed (by simp))).symm
  | write | replace | delete =>
    exact (afterStatus_goesOn_iff.trans accepted_wrap_iff.symm).trans (and_iff_left (untimed (by simp))).symm

/-! ### Other steps -/

theorem transmit_alive {sendFails : Bool} {sent : Option Exchange} (transmitted : p.transmit sendFails = some (q, sent)) :
    p.phase ≠ .terminated ∧ q.phase ≠ .terminated := by
  unfold transmit at transmitted
  split at transmitted
  case h_2 => contradiction
  case h_1 sending =>
    rw [sending]
    split at transmitted <;> cases transmitted
    · exact ⟨nofun, sending ▸ nofun⟩
    · exact ⟨nofun, nofun⟩

theorem timeout_alive (timedOut : p.timeout = some q) : p.phase ≠ .terminated ∧ q.phase ≠ .terminated := by
  unfold timeout at timedOut
  split at timedOut
  case h_2 => contradiction
  case h_1 waiting =>
    cases timedOut
    rw [waiting]
    exact ⟨nofun, nofun⟩

theorem listen_alive {datagram : Option Bytes} (listened : p.listen now datagram = some q) :
    p.phase ≠ .terminated ∧ q.phase ≠ .terminated := by
  obtain ⟨startTime, seconds, monitoring⟩ := listen_monitoring listened
  rcases listen_cases monitoring listened with ⟨_, rfl⟩ | ⟨_, _, rfl⟩
  · exact ⟨monitoring ▸ nofun, monitoring ▸ nofun⟩
  · exact ⟨monitoring ▸ nofun, nofun⟩

theorem command_alive {c : Command} (commanded : p.command now c = some q) : p.phase ≠ .terminated := by
  intro ended
  simp [command, ended] at commanded

theorem take_alive {reply : Bytes} (took : p.take now reply = some q) : p.phase ≠ .terminated := by
  intro ended
  simp [take, ended] at took

end Program

end RemoteFile.Client
