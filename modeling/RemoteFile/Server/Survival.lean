import RemoteFile.Server.FileService

/-! When the server process survives. A panic anywhere ends it, for nothing recovers; a run
gets through exactly if no packet announces a pathname beyond the receive buffer and no
request overruns the file it is about. -/
namespace RemoteFile.Server
open Octets Go Transition

variable {Disk : Type} {sem : InvocationSemantic} {env : Env Disk} {path : Bytes} {addr : UDPAddr}

/-! ### The services -/

/-- A request whose range starts inside a file of this length and runs past what the slice
expressions of its service allow. -/
def Overruns (len : Nat) : Request → Prop
  | .read req => req.offset.toNat ≤ len % 2 ^ 32 ∧ 2 ^ 32 ≤ req.offset.toNat + req.numBytes.toNat
  | .write req => req.offset.toNat ≤ len % 2 ^ 32 ∧ 2 ^ 32 ≤ req.offset.toNat + req.content.length
  | .replace req => req.offset.toNat ≤ len % 2 ^ 32 ∧
      (len < req.offset.toNat + req.content.length ∨ 2 ^ 32 ≤ req.offset.toNat + req.content.length)
  | _ => False

instance (len : Nat) : DecidablePred (Overruns len)
  | .read _ | .write _ => inferInstanceAs (Decidable (_ ∧ _))
  | .replace _ => inferInstanceAs (Decidable (_ ∧ (_ ∨ _)))
  | .subscribe _ | .delete _ | .getLastModifiedTime _ => inferInstanceAs (Decidable False)

theorem Read.segment_none_iff {fileContent : Slice UInt8} {req : ReadRequest} :
    Read.segment fileContent req = none ↔ Overruns fileContent.len (.read req) := by
  have stop := sum_cases req.offset req.numBytes
  have bound := req.offset.toNat_lt
  constructor
  · intro cut
    rcases Nat.lt_or_ge (fileContent.len % 2 ^ 32) req.offset.toNat with outside | inside
    · cases (Read.segment_error_iff.mpr (.inl ⟨outside, rfl⟩)).symm.trans cut
    · refine ⟨inside, ?_⟩
      by_contra fits
      rcases Nat.lt_or_ge (fileContent.len % 2 ^ 32) (req.offset + req.numBytes).toNat with beyond | within
      · cases (Read.segment_error_iff.mpr (.inr ⟨inside, beyond, rfl⟩)).symm.trans cut
      · cases (Read.segment_ok_iff.mpr ⟨by omega, by omega, rfl⟩).symm.trans cut
  · rintro ⟨inside, wraps⟩
    cases cut : Read.segment fileContent req with
    | none => rfl
    | some result =>
      cases result with
      | error err =>
        obtain ⟨outside, _⟩ | ⟨_, beyond, _⟩ := Read.segment_error_iff.mp cut
        · omega
        · omega
      | ok bytes =>
        have fits := (Read.segment_ok_iff.mp cut).1
        omega

theorem Write.edit_none_iff {fileContent : Slice UInt8} {req : WriteRequest} (short : req.content.length < 2 ^ 32) :
    Write.edit fileContent req = none ↔ Overruns fileContent.len (.write req) := by
  constructor
  · intro panics
    rcases Nat.lt_or_ge (fileContent.len % 2 ^ 32) req.offset.toNat with outside | inside
    · cases (Write.edit_exceeds outside).symm.trans panics
    · refine ⟨inside, ?_⟩
      by_contra fits
      cases (Write.edit_within inside (Nat.lt_of_not_le fits)).symm.trans panics
  · rintro ⟨inside, wraps⟩
    exact Write.edit_wrapped inside short wraps

theorem Replace.edit_none_iff {fileContent : Slice UInt8} {req : ReplaceRequest}
    (short : req.content.length < 2 ^ 32) :
    Replace.edit fileContent req = none ↔ Overruns fileContent.len (.replace req) := by
  have bound := req.offset.toNat_lt
  have stop : Replace.stop req = (req.offset.toNat + req.content.length) % 2 ^ 32 := by
    rw [Replace.stop, UInt32.toNat_add, UInt32.toNat_ofNat', Nat.mod_eq_of_lt short]
  constructor
  · intro panics
    rcases Nat.lt_or_ge (fileContent.len % 2 ^ 32) req.offset.toNat with outside | inside
    · cases (Replace.edit_exceeds outside).symm.trans panics
    · refine ⟨inside, ?_⟩
      by_contra fits
      cases (Replace.edit_within inside (by omega) (by omega)).symm.trans panics
  · rintro ⟨inside, overruns⟩
    exact Replace.edit_outside inside (by omega)

theorem Delete.edit_returns (fileContent : Slice UInt8) (req : DeleteRequest) :
    Delete.edit fileContent req ≠ none := by
  unfold Delete.edit
  simp only [gt_iff_lt, UInt32.lt_iff_toNat_lt, UInt32.toNat_ofNat']
  split
  · simp
  · split
    · simp
    · rename_i inside within
      have start : req.offset.toNat ≤ fileContent.len := (Nat.le_of_not_lt inside).trans (Nat.mod_le _ _)
      have stop : (req.offset + req.numBytes).toNat ≤ fileContent.len :=
        (Nat.le_of_not_lt within).trans (Nat.mod_le _ _)
      rw [Slice.slice?_within (Nat.zero_le _) start, Option.bind_eq_bind, Option.bind_some,
        Slice.tail?_within stop]
      simp

theorem requestedEdit_none_iff {r : Request} {fileContent : Slice UInt8} (updates : r.updates = true)
    (short : r.content.length < 2 ^ 32) :
    requestedEdit r fileContent = none ↔ Overruns fileContent.len r := by
  cases r with
  | write req => exact Write.edit_none_iff short
  | replace req => exact Replace.edit_none_iff short
  | delete req => exact iff_of_false (Delete.edit_returns fileContent req) id
  | read | subscribe | getLastModifiedTime => contradiction

/-- A response that can be marshalled is no reason to panic. -/
theorem answered_none_iff {Res : Type} {m : Option (Store Disk × Res)} {marshal : Res → Option Bytes}
    (total : ∀ res, marshal res ≠ none) :
    (do let (t, res) ← m; some (t, ← marshal res)) = none ↔ m = none := by
  cases m with
  | none => exact iff_of_true rfl rfl
  | some result =>
    obtain ⟨t, res⟩ := result
    obtain ⟨bytes, marshalled⟩ := Option.ne_none_iff_exists'.mp (total res)
    simp [marshalled]

theorem marshalStatusResponse_returns (res : StatusResponse) : marshalStatusResponse res ≠ none := by
  rw [marshalStatusResponse, marshalSingleStringResponse_eq]
  split <;> exact Option.some_ne_none _

theorem read_none_iff {req : ReadRequest} {s : Store Disk} : read env path req s = none ↔
    ∃ fileContent, env.os.readFile s.disk (concatenatePaths path req.pathname) = .ok fileContent ∧
      Read.segment fileContent req = none := by
  constructor
  · intro panics
    cases opened : env.os.readFile s.disk (concatenatePaths path req.pathname) with
    | error err =>
      simp only [read, Store.did_disk, opened] at panics
      contradiction
    | ok fileContent =>
      refine ⟨fileContent, rfl, ?_⟩
      cases cut : Read.segment fileContent req with
      | none => rfl
      | some result =>
        cases result with
        | error err => cases (read_refuses opened cut).symm.trans panics
        | ok bytes => cases (read_performs opened cut).symm.trans panics
  · rintro ⟨fileContent, opened, cut⟩
    exact read_panics opened cut

/-- A service panics exactly if the file can be read and the request overruns it. -/
theorem serveRequest_none_iff {s : Store Disk} {r : Request} (sound : s.WellFormed)
    (short : r.content.length < 2 ^ 32) : serveRequest env path addr s r = none ↔
      ∃ fileContent, env.os.readFile s.disk (concatenatePaths path r.pathname) = .ok fileContent ∧
        Overruns fileContent.len r := by
  cases r with
  | write req | replace req | delete req =>
    refine (answered_none_iff marshalStatusResponse_returns).trans ?_
    refine (update_panics_iff sound).trans ?_
    simp only [← requestedEdit_none_iff rfl short]
    rfl
  | read req =>
    have total (res : ReadResponse) : Read.marshalResponse res ≠ none := by
      rw [Read.marshalResponse, marshalSingleStringResponse_eq, marshalSingleStringResponse_eq]
      split <;> exact Option.some_ne_none _
    refine (answered_none_iff total).trans (read_none_iff.trans ?_)
    simp only [Read.segment_none_iff]
    rfl
  | subscribe req =>
    apply iff_of_false
    · intro panics
      exact absurd ((answered_none_iff (m := some _) marshalStatusResponse_returns).mp panics)
        (Option.some_ne_none _)
    · rintro ⟨_, _, overruns⟩
      exact overruns
  | getLastModifiedTime req =>
    have total (res : GetLastModifiedTimeResponse) : GetLastModifiedTime.marshalResponse res ≠ none := by
      rw [GetLastModifiedTime.marshalResponse, GetLastModifiedTime.marshalErrorResponse,
        marshalSuccessResponse_eq, marshalSingleStringResponse_eq]
      split <;> exact Option.some_ne_none _
    apply iff_of_false
    · intro panics
      exact absurd ((answered_none_iff (m := some _) total).mp panics) (Option.some_ne_none _)
    · rintro ⟨_, _, overruns⟩
      exact overruns

/-! ### Packets -/

/-- The receive buffer holds no more of a datagram than its first 1024 bytes. -/
theorem received_take (bytes : Bytes) : received (bytes.take receiveBufferLength) = received bytes := by
  simp only [received, List.take_take, Nat.min_self, List.length_take, Slice.mk.injEq, true_and]
  congr 1
  omega

theorem decode_none_iff {bytes : Bytes} :
    decode (received bytes) = none ↔ ¬ PathnameInBuffer (bytes.take receiveBufferLength) := by
  have returns := decode_returns_iff (List.length_take_le receiveBufferLength bytes)
  rw [received_take] at returns
  rw [← returns, Option.eq_none_iff_forall_ne_some, not_exists]

theorem dispatch_none_iff {kind : MessageType} {data : Slice UInt8} {s : Store Disk} (sound : s.WellFormed) :
    dispatch kind env path addr data s = none ↔ unmarshalRequest kind data = none ∨
      ∃ r fileContent, unmarshalRequest kind data = some (.ok r) ∧
        env.os.readFile s.disk (concatenatePaths path r.pathname) = .ok fileContent ∧
        Overruns fileContent.len r := by
  rw [dispatch_eq]
  cases unmarshalled : unmarshalRequest kind data with
  | none => simp
  | some result =>
    cases result with
    | error err => simp
    | ok r =>
      have short := (unmarshalRequest_ok.mp unmarshalled).2.1.content
      simp only [Option.bind_some, serveRequest_none_iff sound short]
      simp

/-- The router panics where it decodes, or in the service of what it decodes. -/
theorem routeRequest_none_iff {bytes : Bytes} {s : State Disk} (sound : s.store.WellFormed) :
    routeRequest sem env path addr (received bytes) s = none ↔
      ∃ code id data, header (received bytes) = some (code, id, data) ∧ s.storedResponse sem id = none ∧
        (¬ PathnameInBuffer (bytes.take receiveBufferLength) ∨
          ∃ r fileContent, decode (received bytes) = some (.ok (id, r)) ∧
            env.os.readFile s.store.disk (concatenatePaths path r.pathname) = .ok fileContent ∧
            Overruns fileContent.len r) := by
  rw [routeRequest_eq, ← decode_none_iff, decode_eq]
  cases head : header (received bytes) with
  | none => simp
  | some fields =>
    obtain ⟨code, id, data⟩ := fields
    cases stored : s.storedResponse sem id with
    | some response =>
      refine iff_of_false (by simp [stored]) ?_
      rintro ⟨_, _, _, ⟨⟩, fresh, _⟩
      rw [stored] at fresh
      contradiction
    | none =>
      cases known : MessageType.ofCode? code with
      | none =>
        refine iff_of_false (by simp [stored, known]) ?_
        rintro ⟨_, _, _, ⟨⟩, _, panics⟩
        simp [known] at panics
      | some kind =>
        have decoded {r : Request} : (unmarshalRequest kind data).map (·.map (id, ·)) = some (.ok (id, r)) ↔
            unmarshalRequest kind data = some (.ok r) := by
          cases unmarshalRequest kind data with
          | none => simp
          | some result => cases result <;> simp [Except.map]
        simp only [stored, known]
        rw [Option.map_eq_none_iff, dispatch_none_iff sound]
        constructor
        · intro panics
          refine ⟨code, id, data, rfl, stored, ?_⟩
          simpa [known, decoded] using panics
        · rintro ⟨_, _, _, ⟨⟩, _, panics⟩
          simpa [known, decoded] using panics

/-- The server gets through an event in this state: where no stored response answers, the
pathname announced ends inside the receive buffer and no file is overrun. -/
def Survives (sem : InvocationSemantic) (path : Bytes) (s : State Disk) : Event Disk → Prop
  | .timer k => k < s.store.timers.length
  | .packet env p => ∀ id, (Event.packet env p).Carries id → s.storedResponse sem id = none →
      PathnameInBuffer (p.bytes.take receiveBufferLength) ∧
      ∀ r fileContent, (Event.packet env p).request? = some (id, r) →
        env.os.readFile s.store.disk (concatenatePaths path r.pathname) = .ok fileContent →
          ¬ Overruns fileContent.len r

theorem serverStep_returns_iff {s : State Disk} {e : Event Disk} (sound : s.store.WellFormed) :
    (∃ t o, serverStep sem path s e = some (t, o)) ↔ Survives sem path s e := by
  cases e with
  | timer k =>
    rcases Nat.lt_or_ge k s.store.timers.length with waiting | gone
    · have there := List.getElem?_eq_getElem waiting
      exact iff_of_true ⟨_, _, by rw [serverStep, fireTimer, there]; rfl⟩ waiting
    · refine iff_of_false ?_ (Nat.not_lt_of_le gone)
      rintro ⟨t, o, stepped⟩
      rw [serverStep, fireTimer, List.getElem?_eq_none gone] at stepped
      contradiction
  | packet env p =>
    rw [serverStep, handlePacket_eq]
    cases routed : p.routed with
    | none =>
      refine iff_of_true ⟨s, _, rfl⟩ ?_
      rintro id ⟨code, head⟩
      rw [Event.header?, routed] at head
      contradiction
    | some arrival =>
      obtain ⟨d, addr⟩ := arrival
      obtain ⟨rfl, _⟩ := Packet.routed_eq routed
      have carries {code id data} (head : header (received p.bytes) = some (code, id, data)) :
          (Event.packet env p).Carries id := ⟨code, by simp [Event.header?, routed, head]⟩
      have request {id r} : (Event.packet env p).request? = some (id, r) ↔
          decode (received p.bytes) = some (.ok (id, r)) := by
        rw [Event.request?, routed]
        exact decoded_iff
      have panics := @routeRequest_none_iff _ sem env path addr p.bytes s sound
      constructor
      · rintro ⟨t, o, stepped⟩ id ⟨code, head⟩ fresh
        obtain ⟨⟨_, response⟩, answered, _⟩ := Option.map_eq_some_iff.mp stepped
        obtain ⟨⟨_, _⟩, routed', rest⟩ := Option.bind_eq_some_iff.mp head
        obtain ⟨⟨code', id', data⟩, head', made⟩ := Option.bind_eq_some_iff.mp rest
        cases routed.symm.trans routed'
        cases made
        have returns := Option.ne_none_iff_exists'.mpr ⟨_, answered⟩
        refine ⟨?_, ?_⟩
        · by_contra outside
          exact returns (panics.mpr ⟨code, id, data, head', fresh, .inl outside⟩)
        · intro r fileContent asked opened overruns
          exact returns (panics.mpr ⟨code, id, data, head', fresh,
            .inr ⟨r, fileContent, request.mp asked, opened, overruns⟩⟩)
      · intro survives
        cases result : routeRequest sem env path addr (received p.bytes) s with
        | some answered => exact ⟨answered.1, _, by simp [result]; rfl⟩
        | none =>
          obtain ⟨code, id, data, head, fresh, cause⟩ := panics.mp result
          obtain ⟨inside, fine⟩ := survives id (carries head) fresh
          rcases cause with outside | ⟨r, fileContent, decoded, opened, overruns⟩
          · exact absurd inside outside
          · exact absurd overruns (fine r fileContent (request.mpr decoded) opened)

/-- From a state with a sound table of subscriptions, the server gets through a run of packets
and timers exactly if it gets through each of them in the state that it finds. A packet that is
lost or answered from the table is harmless; another one is a panic if it announces a pathname
beyond the receive buffer, or if its range starts inside the file and it is a read, a write or
a replacement whose end wraps or a replacement that ends behind the file. -/
theorem run_survives_iff {s : State Disk} {es : List (Event Disk)} (sound : s.store.WellFormed) :
    (∃ t os, run (serverStep sem path) s es = some (t, os)) ↔
      Along (serverStep sem path) (Survives sem path) s es :=
  run_returns_iff.trans (along_iff (P := fun s => s.store.WellFormed)
    (fun _ _ _ _ => serverStep_wellFormed) (fun _ _ => serverStep_returns_iff) sound)

/-- A replacement of two bytes at offset 2 of a file of three. -/
theorem run_survives_iff_replace : ¬ ∃ t os, run (serverStep .atLeastOnce []) oneFile
    [.packet (FileSystem.env Faults.none 0) ⟨⟨[], 7⟩, Request.datagram 5 (.replace ⟨text "a", 2, text "xy"⟩),
      false, false, false, false⟩] = some (t, os) := by
  rw [run_survives_iff (Store.fresh_wellFormed _)]
  rintro ⟨survives, _⟩
  obtain ⟨_, fine⟩ := survives 5 ⟨8, by decide +kernel⟩ rfl
  exact fine (.replace ⟨text "a", 2, text "xy"⟩) ⟨text "123", []⟩ (by decide +kernel) rfl (by decide)

end RemoteFile.Server
