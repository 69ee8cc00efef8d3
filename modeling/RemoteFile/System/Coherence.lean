import RemoteFile.System.SharedFiles

/-! What every reachable state of the files and their reader satisfies: exchanges
are numbered in turn, so that a reply to the current exchange comes from after its
beginning, and each reply is truthful about the disk at its moment. -/
namespace RemoteFile.System
open Octets Transition Server Client

variable {sem : InvocationSemantic} {path : Bytes} {addr : UDPAddr} {w w' : FileWorld} {a : FileAction}
  {seen : Seen}

/-! ### Moments -/

theorem FileWorld.moment_now (w : FileWorld) : w.moment w.now = some w.disk := by
  rw [moment, now, List.getElem?_concat_length]

theorem FileWorld.moment_le {i : Nat} {d : FileSystem} (there : w.moment i = some d) : i ≤ w.now := by
  obtain ⟨bound, _⟩ := List.getElem?_eq_some_iff.mp there
  rw [List.length_append, List.length_singleton] at bound
  exact Nat.lt_succ_iff.mp bound

theorem FileWorld.moment_some {i : Nat} (early : i ≤ w.now) : ∃ d, w.moment i = some d := by
  have bound : i < (w.history ++ [w.disk]).length := by
    rw [List.length_append, List.length_singleton]
    exact Nat.lt_succ_of_le early
  exact ⟨_, List.getElem?_eq_getElem bound⟩

/-- How the client comes to be in an exchange after a step: it still is, or a command
has begun it, or it is the read that follows a time query. -/
inductive FileWorld.Asking (w w' : FileWorld) (e : Exchange) : Prop where
  | kept (exchange : w.client.exchange? = some e) (cache : w'.client.cache = w.client.cache)
  | first (cache : w'.client.cache = w.client.cache)
      (unread : ∀ req tmserver, e.pending ≠ .read req tmserver)
      (expired : ∀ req, e.pending = .time true req →
        fileInCache w.client.cache req.pathname req.offset req.numBytes = true)
  | second (s : Served) (among : s ∈ w.served) (current : w.client.exchange? = some s.exchange)
      (expired : Bool) (req : ReadRequest) (t : UInt64) (queried : s.exchange.pending = .time expired req)
      (reports : ReportsTime s.reply t) (pending : e.pending = .read req t.toInt64)
      (began : w'.began = w.now + 1)

namespace FileStep

theorem asking (step : FileStep path w a w' seen) {e : Exchange} (next : w'.client.exchange? = some e) :
    w.Asking w' e := by
  have concluded (exchange : w'.client.exchange? = none) : w.Asking w' e := by
    rw [exchange] at next
    contradiction
  cases step.move with
  | quiet cache exchange => exact .kept (exchange ▸ next) cache
  | serves _ _ _ _ _ client => exact .kept (client ▸ next) (congrArg Program.cache client)
  | commands _ _ did =>
    cases did with
    | idle _ exchange => exact concluded exchange
    | hit _ _ _ _ _ _ _ _ _ exchange => exact concluded exchange
    | asked e' cache exchange unread expired =>
      obtain rfl := Option.some.inj (exchange.symm.trans next)
      exact .first cache unread expired
  | takes s among current took _ _ _ began =>
    cases took with
    | ended _ exchange => exact concluded exchange
    | filled _ _ _ _ _ _ exchange => exact concluded exchange
    | refreshed _ _ _ _ _ _ _ _ _ exchange => exact concluded exchange
    | asked expired req t queried reports _ exchange =>
      obtain rfl := Option.some.inj (exchange.symm.trans next)
      exact .second s among current expired req t queried reports rfl began

theorem now (step : FileStep path w a w' seen) : w'.now = w.now + 1 := by
  rw [FileWorld.now, step.history, List.length_append, List.length_singleton, FileWorld.now]

/-- A moment that has been stays what it was. -/
theorem moment (step : FileStep path w a w' seen) {i : Nat} {d : FileSystem}
    (before : w.moment i = some d) : w'.moment i = some d := by
  obtain ⟨bound, _⟩ := List.getElem?_eq_some_iff.mp before
  rw [FileWorld.moment, step.history, List.getElem?_append_left bound]
  exact before

theorem moment_before (step : FileStep path w a w' seen) {i : Nat} (early : i ≤ w.now) :
    w'.moment i = w.moment i := by
  obtain ⟨d, there⟩ := FileWorld.moment_some early
  rw [there]
  exact step.moment there

/-- The client goes on with what it was doing, or a new turn of it begins. -/
theorem turn (step : FileStep path w a w' seen) :
    (w'.client.exchange? = w.client.exchange? ∧ w'.client.requests = w.client.requests ∧
        w'.began = w.began) ∨
      w.client.Moves w'.client ∧ w'.began = w.now + 1 := by
  cases step.move with
  | quiet _ exchange requests _ _ began => exact .inl ⟨exchange, requests, began⟩
  | serves _ _ _ _ _ client _ _ began => exact .inl (client ▸ ⟨rfl, rfl, began⟩)
  | commands _ _ _ moves _ _ began => exact .inr ⟨moves, began⟩
  | takes _ _ _ _ moves _ _ began => exact .inr ⟨moves, began⟩

/-- What the client is waiting for after a step: it still is, or it has just begun
the next exchange. -/
theorem current (step : FileStep path w a w' seen) {e : Exchange}
    (next : w'.client.exchange? = some e) :
    (w.client.exchange? = some e ∧ w'.began = w.began) ∨ w.client.Begins w'.client e := by
  rcases step.turn with ⟨exchange, _, began⟩ | ⟨ends | ⟨e', begins⟩, _⟩
  · exact .inl ⟨exchange ▸ next, began⟩
  · rw [ends.exchange] at next
    contradiction
  · obtain rfl := Option.some.inj (begins.exchange.symm.trans next)
    exact .inr begins

theorem requests_le (step : FileStep path w a w' seen) : w.client.requests ≤ w'.client.requests := by
  rcases step.turn with ⟨_, same, _⟩ | ⟨ends | ⟨e, begins⟩, _⟩
  · exact le_of_eq same.symm
  · exact le_of_eq ends.requests.symm
  · rw [begins.requests]
    exact Nat.le_succ _

/-- What has been served by now was served before, or at this step. -/
theorem served_cases (step : FileStep path w a w' seen) {s : Served} (member : s ∈ w'.served) :
    s ∈ w.served ∨ a.arrives w = some s.exchange ∧ s.exchange ∈ w.sent ∧ s.instant = w.now ∧
      Truthful path w.disk s.exchange.request s.reply ∧ w'.client = w.client := by
  cases step.move with
  | quiet _ _ _ _ served => exact .inl (served ▸ member)
  | commands _ _ _ _ _ served => exact .inl (served ▸ member)
  | takes _ _ _ _ _ _ served => exact .inl (served ▸ member)
  | serves new arrives arrived instant truthful client _ served =>
    rw [served] at member
    rcases List.mem_append.mp member with before | last
    · exact .inl before
    · obtain rfl := List.mem_singleton.mp last
      exact .inr ⟨arrives, arrived, instant, truthful, client⟩

theorem served_mem (step : FileStep path w a w' seen) {s : Served} (before : s ∈ w.served) :
    s ∈ w'.served := by
  cases step.move with
  | quiet _ _ _ _ served => exact served ▸ before
  | commands _ _ _ _ _ served => exact served ▸ before
  | takes _ _ _ _ _ _ served => exact served ▸ before
  | serves _ _ _ _ _ _ _ served => exact served ▸ List.mem_append_left _ before

end FileStep

/-! ### Exchanges in turn -/

structure Coherent (path : Bytes) (w : FileWorld) : Prop where
  current : ∀ e, w.client.exchange? = some e → e.Valid ∧ e.number < w.client.requests
  sent : ∀ e ∈ w.sent, e.Valid ∧ e.number < w.client.requests
  served : ∀ s ∈ w.served, s.exchange.Valid ∧ s.exchange.number < w.client.requests
  /-- A reply is truthful about the disk at its moment. -/
  truthful : ∀ s ∈ w.served, ∃ d, w.moment s.instant = some d ∧
    Truthful path d s.exchange.request s.reply
  /-- The current exchange is answered after it began. -/
  own : ∀ s ∈ w.served, w.client.exchange? = some s.exchange → w.began ≤ s.instant
  began : w.began ≤ w.now

theorem FileWorld.Initial.coherent (initial : w.Initial) : Coherent path w where
  current e current := by
    rw [initial.client] at current
    contradiction
  sent e member := absurd (initial.sent ▸ member) List.not_mem_nil
  served s member := absurd (initial.served ▸ member) List.not_mem_nil
  truthful s member := absurd (initial.served ▸ member) List.not_mem_nil
  own s member := absurd (initial.served ▸ member) List.not_mem_nil
  began := initial.began ▸ Nat.zero_le _

namespace Coherent

theorem step (coherent : Coherent path w) (stepped : fileStep sem path addr w a = some (w', seen)) :
    FileStep path w a w' seen :=
  fileStep_spec (fun e sent => (coherent.sent e sent).1) (fun e current => (coherent.current e current).1)
    stepped

/-- No exchange that is yet to begin has been answered. -/
theorem unserved (coherent : Coherent path w) {s : Served} (member : s ∈ w.served) :
    s.exchange.number ≠ w.client.requests :=
  Nat.ne_of_lt (coherent.served s member).2

theorem preserved (coherent : Coherent path w)
    (stepped : fileStep sem path addr w a = some (w', seen)) : Coherent path w' := by
  have step := coherent.step stepped
  have grows {n : Nat} (before : n < w.client.requests) : n < w'.client.requests :=
    lt_of_lt_of_le before step.requests_le
  refine ⟨?current, ?sent, ?served, ?truthful, ?own, ?began⟩
  case current =>
    intro e next
    rcases step.current next with ⟨same, _⟩ | begins
    · exact (coherent.current e same).imp_right grows
    · refine ⟨begins.valid, ?_⟩
      rw [begins.number, begins.requests]
      exact Nat.lt_succ_self _
  case sent =>
    intro e member
    have known : e ∈ w.sent ∨ w.client.exchange? = some e := by
      cases step.move with
      | quiet _ _ _ sent => exact sent e member
      | serves _ _ _ _ _ _ sent => exact .inl (sent ▸ member)
      | commands _ _ _ _ sent => exact .inl (sent ▸ member)
      | takes _ _ _ _ _ sent => exact .inl (sent ▸ member)
    rcases known with before | current
    · exact (coherent.sent e before).imp_right grows
    · exact (coherent.current e current).imp_right grows
  case served =>
    intro s member
    rcases step.served_cases member with before | ⟨_, arrived, _⟩
    · exact (coherent.served s before).imp_right grows
    · exact (coherent.sent _ arrived).imp_right grows
  case truthful =>
    intro s member
    rcases step.served_cases member with before | ⟨_, _, instant, truthful, _⟩
    · obtain ⟨d, moment, truthful⟩ := coherent.truthful s before
      exact ⟨d, step.moment moment, truthful⟩
    · exact ⟨w.disk, instant ▸ step.moment w.moment_now, truthful⟩
  case own =>
    intro s member next
    rcases step.current next with ⟨same, began⟩ | begins
    · rw [began]
      rcases step.served_cases member with before | ⟨_, _, instant, _⟩
      · exact coherent.own s before same
      · rw [instant]
        exact coherent.began
    · rcases step.served_cases member with before | ⟨_, _, _, _, client⟩
      · exact absurd begins.number (coherent.unserved before)
      · have requests := begins.requests
        rw [client] at requests
        exact absurd requests (Nat.ne_of_lt (Nat.lt_succ_self _))
  case began =>
    rw [step.now]
    rcases step.turn with ⟨_, _, began⟩ | ⟨_, began⟩
    · exact began ▸ Nat.le_succ_of_le coherent.began
    · exact le_of_eq began

end Coherent

end RemoteFile.System
