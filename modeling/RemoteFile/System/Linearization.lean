import Mathlib.Data.List.Nodup
import RemoteFile.Client.Notices
import RemoteFile.System.Histories
import RemoteFile.System.Replies

/-! Where leftovers of earlier requests stay away, the network is one file service: each
success that a client tells its user of has been executed after the client asked for it and
before it told of it, with the answer that it told. -/
namespace RemoteFile.System
open Octets Cpp Cpp.Outcome Transition Refinement Server Client

variable {Disk κ : Type} {sem : InvocationSemantic} {path : Bytes} {locate : Bytes → κ}
  {contents : Disk → κ → Option Bytes} {w w' : World Disk} {a : Action Disk}

/-! ### What a client tells its user -/

/-- The success that a notice tells of. What a time query shows from the cache is none. -/
def tells (pending : Pending) : Notice → Option Answer
  | .success _ success => if success then some .done else none
  | .lastModified t => some (.time t.toInt64)
  | .content bytes =>
    match pending with
    | .read _ _ => some (.content bytes)
    | .time _ _ | .write | .subscribe _ | .replace | .delete => none
  | .requestTimeout | .errorMessage _ | .update _ => none

def Taken.successes (t : Taken) : List Answer := t.notices.filterMap (tells t.exchange.pending)

def Taken.execution (t : Taken) : Execution := ⟨t.client, t.exchange.number, t.exchange.request⟩

/-- The success that a response stands for. -/
def granted : Client.Response → Option Answer
  | .read resp => if resp.success then some (.content resp.content) else none
  | .write resp | .subscribe resp | .replace resp | .delete resp => if resp.success then some .done else none
  | .getLastModifiedTime resp => if resp.success then some (.time resp.lastModifiedUnixTime.toInt64) else none

variable {now : Int} {p q : Program} {msg : Bytes} {kind : MessageType}

/-- The successes that a request may be answered with. -/
def Grants : Request → Answer → Prop
  | .read req, .content bytes => bytes.length = req.numBytes.toNat
  | .write _, .done | .subscribe _, .done | .replace _, .done | .delete _, .done => True
  | .getLastModifiedTime _, .time _ => True
  | _, _ => False

theorem serves_grants {files files' : κ → Option Bytes} {file : κ} {r : Request} {answer : Answer}
    (serves : Serves files file r answer files') : (∃ message, answer = .failed message) ∨ Grants r answer := by
  cases serves with
  | failed => exact .inl ⟨_, rfl⟩
  | read found inside =>
    right
    rw [Grants, window_length]
    omega
  | write | replace | delete | subscribe | time => exact .inr trivial

theorem Grants.sendable {r : Request} {answer : Answer} (grants : Grants r answer) : Sendable answer := by
  cases answer with
  | done | time => trivial
  | failed => cases r <;> contradiction
  | content bytes =>
    cases r with
    | read req =>
      have size : bytes.length = req.numBytes.toNat := grants
      have bound := req.numBytes.toNat_lt
      rw [Sendable, size]
      exact bound
    | write | subscribe | replace | delete | getLastModifiedTime => contradiction

/-- A request in flight, or executed, has a number that its client has given out; what is executed
under the number of a client's current request is this request. -/
structure Numbered (w : World Disk) : Prop where
  current : ∀ c e, (w.clients c).exchange? = some e → e.number < (w.clients c).requests
  sent : ∀ s ∈ w.toServer, s.exchange.number < (w.clients s.client).requests
  executed : ∀ x ∈ w.executed, x.number < (w.clients x.client).requests
  same : ∀ x ∈ w.executed, ∀ e, (w.clients x.client).exchange? = some e → x.number = e.number →
    x.request = e.request

theorem World.Initial.numbered (initial : w.Initial) : Numbered w where
  current c e current := by
    rw [initial.clients c] at current
    contradiction
  sent s member := by
    rw [initial.toServer] at member
    contradiction
  executed x member := by
    rw [initial.executed] at member
    contradiction
  same x member := by
    rw [initial.executed] at member
    contradiction

namespace Numbered

/-- The clients go on with their requests. -/
theorem quiet (numbered : Numbered w) (executed : w'.executed = w.executed)
    (toServer : ∀ s ∈ w'.toServer, s ∈ w.toServer ∨ (w.clients s.client).exchange? = some s.exchange)
    (clients : ∀ c, (w.clients c).Stays (w'.clients c) ∨ (w.clients c).Moves (w'.clients c)) : Numbered w' := by
  have grows : ∀ c, (w.clients c).requests ≤ (w'.clients c).requests := by
    intro c
    rcases clients c with stays | ends | ⟨e, begins⟩
    · exact stays.requests.ge
    · exact ends.requests.ge
    · exact begins.requests ▸ Nat.le_succ _
  constructor
  case current =>
    intro c e next
    rcases clients c with stays | ends | ⟨e', begins⟩
    · rw [stays.requests]
      exact numbered.current c e (stays.exchange ▸ next)
    · rw [ends.exchange] at next
      contradiction
    · obtain rfl := Option.some.inj (begins.exchange.symm.trans next)
      rw [begins.number, begins.requests]
      exact Nat.lt_succ_self _
  case sent =>
    intro s member
    rcases toServer s member with before | own
    · exact (numbered.sent s before).trans_le (grows _)
    · exact (numbered.current _ _ own).trans_le (grows _)
  case executed =>
    rw [executed]
    intro x member
    exact (numbered.executed x member).trans_le (grows _)
  case same =>
    rw [executed]
    intro x member e next number
    rcases clients x.client with stays | ends | ⟨e', begins⟩
    · exact numbered.same x member e (stays.exchange ▸ next) number
    · rw [ends.exchange] at next
      contradiction
    · obtain rfl := Option.some.inj (begins.exchange.symm.trans next)
      -- a new number has not been executed
      have given := numbered.executed x member
      rw [number, begins.number] at given
      exact absurd given (Nat.lt_irrefl _)

theorem preserved (numbered : Numbered w) (settled : Settled w) (moved : w.Moved sem path a w') :
    Numbered w' := by
  cases moved with
  | quiet _ _ executed _ toServer clients => exact numbered.quiet executed toServer clients
  | delivers i env _ _ _ _ _ sent inFlight delivery =>
    obtain ⟨clients, toServer⟩ := World.deliver_kept delivery
    obtain ⟨p, out, bytes, delivered⟩ := deliver_delivered delivery
    obtain ⟨valid, matching⟩ := settled.inFlight sent inFlight
    have news : ∀ x ∈ w'.executed, x ∈ w.executed ∨ x = sent.execution := by
      intro x member
      rw [delivered.executed] at member
      refine (List.mem_append.mp member).imp_right ?_
      intro new
      obtain ⟨r, among, rfl⟩ := List.mem_map.mp new
      rw [executed_own valid bytes (Option.mem_toList.mp among)]
      rfl
    constructor
    case current => exact clients ▸ numbered.current
    case sent =>
      rw [clients, toServer]
      exact fun s member => numbered.sent s (List.mem_of_mem_eraseIdx member)
    case executed =>
      rw [clients]
      intro x member
      rcases news x member with before | rfl
      · exact numbered.executed x before
      · exact numbered.sent sent inFlight
    case same =>
      rw [clients]
      intro x member e current number
      rcases news x member with before | rfl
      · exact numbered.same x before e current number
      · exact congrArg Exchange.request (matching e current)

end Numbered

/-! ### Histories that explain what is told -/

variable {files : κ → Option Bytes} {history : List Performed}

/-- A success in flight to a client during an exchange is the answer of its very request. -/
theorem own_answer {d : Datagram} {e : Exchange} (settled : Settled w) (numbered : Numbered w)
    (chronicle : Chronicle sem locate contents path files w history) (inFlight : d ∈ w.toClients)
    (current : (w.clients d.client).exchange? = some e) (head : d.bytes.head? = some 1) :
    ∃ answer, ⟨⟨d.client, e.number, e.request⟩, answer⟩ ∈ history ∧ d.bytes = answer.bytes := by
  obtain ⟨origin, executed⟩ := settled.replies d inFlight e current
  obtain ⟨x, among, id, bytes, own⟩ := chronicle.replies d inFlight e.number origin head
  suffices same : x.execution = ⟨d.client, e.number, e.request⟩ from ⟨x.answer, same ▸ among, bytes⟩
  cases sem with
  | atLeastOnce =>
    obtain ⟨client, number⟩ := own rfl
    have performed : x.execution ∈ w.executed := chronicle.executed ▸ List.mem_map_of_mem among
    have request := numbered.same _ performed e (client ▸ current) number
    rw [← client, ← number, ← request]
  | atMostOnce =>
    have performed := executed head
    rw [← chronicle.executed] at performed
    obtain ⟨y, member, same⟩ := List.mem_map.mp performed
    obtain rfl : y = x := by
      apply List.inj_on_of_nodup_map (chronicle.once rfl) member among
      rw [Performed.id, same, id]
    exact same

/-- And it is one that its request may be answered with. -/
theorem own_grants {d : Datagram} {e : Exchange} (settled : Settled w) (numbered : Numbered w)
    (chronicle : Chronicle sem locate contents path files w history) (inFlight : d ∈ w.toClients)
    (current : (w.clients d.client).exchange? = some e) (head : d.bytes.head? = some 1) :
    ∃ answer, ⟨⟨d.client, e.number, e.request⟩, answer⟩ ∈ history ∧ d.bytes = answer.bytes ∧
      Grants e.request answer := by
  obtain ⟨answer, among, bytes⟩ := own_answer settled numbered chronicle inFlight current head
  obtain ⟨files, files', serves⟩ := chronicle.trace.labels
    (Q := fun x => ∃ files files', Performs locate path files x files') (fun _ _ _ performs => ⟨_, _, performs⟩) _ among
  rcases serves_grants serves with ⟨message, rfl⟩ | grants
  · rw [bytes] at head
    exact absurd (Option.some.inj head) (by decide)
  · exact ⟨answer, among, bytes, grants⟩

end RemoteFile.System
