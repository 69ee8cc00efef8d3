import RemoteFile.Client.Exchanges

/-! What the client shows its user of a reply: the notices of the response that it takes the reply
for, and after a time that leaves a cached entry valid the content of this entry. -/
namespace RemoteFile.Client
open Octets Cpp Cpp.Outcome

/-- What is shown of a reply to a write, subscribe, replace or delete request. -/
def statusNotices (kind : MessageType) (resp : StatusResponse) : List Notice :=
  if resp.success then [.success kind true] else [.success kind false, .errorMessage resp.errorMessage]

def Response.notices : Client.Response → List Notice
  | .read resp => if resp.success then [.content resp.content] else [.errorMessage resp.errorMessage]
  | .write resp => statusNotices .write resp
  | .subscribe resp => statusNotices .subscribe resp
  | .replace resp => statusNotices .replace resp
  | .delete resp => statusNotices .delete resp
  | .getLastModifiedTime resp =>
    if resp.success then [.lastModified resp.lastModifiedUnixTime] else [.errorMessage resp.errorMessage]

def Response.success : Client.Response → Bool
  | .read resp => resp.success
  | .write resp | .subscribe resp | .replace resp | .delete resp => resp.success
  | .getLastModifiedTime resp => resp.success

/-- An error message is shown of a failure. -/
theorem Response.error_shown {resp : Client.Response} {message : Bytes}
    (member : .errorMessage message ∈ resp.notices) : resp.success = false := by
  cases resp with
  | read resp | write resp | subscribe resp | replace resp | delete resp | getLastModifiedTime resp =>
    cases success : resp.success with
    | false => exact success
    | true => simp [notices, statusNotices, success] at member

/-- The first byte of a reply is its flag. -/
theorem accepted_flag {kind : MessageType} {flag : UInt8} {rest : Bytes} {resp : Client.Response}
    (accepted : unmarshalResponse kind (flag :: rest) = returns resp) : resp.success = (flag == 1) := by
  cases kind with
  | write | subscribe | replace | delete =>
    obtain ⟨resp, decoded, made⟩ := bind_returns_iff.mp accepted
    cases made
    exact unmarshalStatusResponse_flag decoded
  | read =>
    obtain ⟨resp, decoded, made⟩ := bind_returns_iff.mp accepted
    cases made
    exact unmarshalReadResponse_flag decoded
  | getLastModifiedTime =>
    obtain ⟨resp, decoded, made⟩ := bind_returns_iff.mp accepted
    cases made
    exact unmarshalGetLastModifiedTimeResponse_flag decoded

/-- A reply is taken for a success exactly if it begins with the success flag. -/
theorem accepted_head_iff {kind : MessageType} {msg : Bytes} {resp : Client.Response}
    (accepted : unmarshalResponse kind msg = returns resp) : resp.success = true ↔ msg.head? = some 1 := by
  cases msg with
  | nil => cases kind <;> contradiction
  | cons flag rest => rw [accepted_flag accepted, beq_iff_eq, List.head?_cons, Option.some.injEq]

namespace Program

variable {now : Int} {p q : Program} {msg : Bytes}

theorem afterStatus_shows {kind : MessageType} (took : p.afterStatus kind unmarshalStatusResponse msg = returns q) :
    ∃ resp, unmarshalStatusResponse msg = returns resp ∧ q.screen = p.screen ++ statusNotices kind resp := by
  obtain ⟨resp, accepted, rest⟩ := bind_returns_iff.mp took
  refine ⟨resp, accepted, ?_⟩
  dsimp only at rest
  cases success : resp.success with
  | true =>
    simp only [success, Bool.not_true, Bool.false_eq_true, if_false] at rest
    cases rest
    simp [statusNotices, success, shows, atMenu]
  | false =>
    simp only [success, Bool.not_false, if_true] at rest
    cases rest
    simp [statusNotices, success, shows, atMenu]

theorem afterSubscribe_shows {seconds : UInt32} (took : p.afterSubscribe now seconds msg = returns q) :
    ∃ resp, unmarshalStatusResponse msg = returns resp ∧ q.screen = p.screen ++ statusNotices .subscribe resp := by
  obtain ⟨resp, accepted, rest⟩ := bind_returns_iff.mp took
  refine ⟨resp, accepted, ?_⟩
  dsimp only at rest
  cases success : resp.success with
  | true =>
    simp only [success, Bool.not_true, Bool.false_eq_true, if_false] at rest
    cases rest
    simp [statusNotices, success, shows]
  | false =>
    simp only [success, Bool.not_false, if_true] at rest
    cases rest
    simp [statusNotices, success, shows, atMenu]

theorem afterRead_shows {tmserver : Int64} {req : ReadRequest} (took : p.afterRead now req tmserver msg = returns q) :
    ∃ resp, unmarshalReadResponse msg = returns resp ∧ q.screen = p.screen ++ Response.notices (.read resp) := by
  obtain ⟨resp, accepted, rest⟩ := bind_returns_iff.mp took
  refine ⟨resp, accepted, ?_⟩
  dsimp only at rest
  rw [Response.notices]
  cases success : resp.success with
  | true =>
    simp only [success, Bool.not_true, Bool.false_eq_true, if_false] at rest
    cases rest
    simp [shows, atMenu]
  | false =>
    simp only [success, Bool.not_false, if_true] at rest
    cases rest
    simp [shows, atMenu]

/-- A time may be followed by the content of a validated entry. -/
theorem afterTime_shows {expired : Bool} {req : ReadRequest} (took : p.afterTime now expired req msg = returns q) :
    ∃ resp, unmarshalGetLastModifiedTimeResponse msg = returns resp ∧
      (q.screen = p.screen ++ Response.notices (.getLastModifiedTime resp) ∨
        ∃ data, q.screen = p.screen ++ Response.notices (.getLastModifiedTime resp) ++ [.content data]) := by
  obtain ⟨resp, accepted, rest⟩ := bind_returns_iff.mp took
  refine ⟨resp, accepted, ?_⟩
  dsimp only at rest
  rw [Response.notices]
  cases success : resp.success with
  | false =>
    simp only [success, Bool.not_false, if_true] at rest
    cases rest
    exact .inl rfl
  | true =>
    simp only [success, Bool.not_true, Bool.false_eq_true, if_false] at rest
    rw [if_pos rfl]
    split at rest
    · split at rest
      · exact .inl (ask_screen rest)
      · exact .inr (showCached_screen rest)
    · exact .inl (ask_screen rest)

/-- What a client shows when it takes a reply: nothing if this ends it, and else the notices of
the response that it takes the reply for. -/
theorem take_shows {e : Exchange} {datagram : Bytes} (valid : e.Valid) (waiting : p.phase = .waiting e)
    (took : p.take now datagram = some q) :
    q.screen = p.screen ∨
    ∃ resp, unmarshalResponse e.request.messageType (datagram.take msgLength) = returns resp ∧
      (q.screen = p.screen ++ resp.notices ∨
        ∃ data expired req, e.pending = .time expired req ∧ q.screen = p.screen ++ resp.notices ++ [.content data]) := by
  simp only [take, waiting, Option.some.injEq] at took
  cases result : p.after now e.pending (datagram.take msgLength) with
  | throws error | undefined =>
    rw [result] at took
    cases took
    exact .inl rfl
  | returns q' =>
    rw [result] at took
    cases took
    right
    obtain ⟨pending, number, request, marshalled⟩ := e
    obtain ⟨_, asks, _⟩ := valid
    cases asks with
    | @time req expired _ =>
      obtain ⟨resp, accepted, shown⟩ := afterTime_shows result
      refine ⟨.getLastModifiedTime resp, congrArg (· >>= _) accepted, ?_⟩
      refine shown.imp_right ?_
      rintro ⟨data, cached⟩
      exact ⟨data, expired, req, rfl, cached⟩
    | read =>
      obtain ⟨resp, accepted, shown⟩ := afterRead_shows result
      exact ⟨.read resp, congrArg (· >>= _) accepted, .inl shown⟩
    | write =>
      obtain ⟨resp, accepted, shown⟩ := afterStatus_shows result
      exact ⟨.write resp, congrArg (· >>= _) accepted, .inl shown⟩
    | subscribe =>
      obtain ⟨resp, accepted, shown⟩ := afterSubscribe_shows result
      exact ⟨.subscribe resp, congrArg (· >>= _) accepted, .inl shown⟩
    | replace =>
      obtain ⟨resp, accepted, shown⟩ := afterStatus_shows result
      exact ⟨.replace resp, congrArg (· >>= _) accepted, .inl shown⟩
    | delete =>
      obtain ⟨resp, accepted, shown⟩ := afterStatus_shows result
      exact ⟨.delete resp, congrArg (· >>= _) accepted, .inl shown⟩

end Program

end RemoteFile.Client
