import RemoteFile.Server.AtMostOnce
import RemoteFile.Server.Decoding
import RemoteFile.Server.Updates

/-! Retransmission under at-least-once. Every copy of a request is executed, but a
read, a replacement and a time query find what the first copy left behind and
answer as it did. -/
namespace RemoteFile.Server
open Octets Go Transition OnceOnly

variable {Disk κ : Type} {locate : Bytes → κ} {contents : Disk → κ → Option Bytes} {os : OS Disk}
  {env env' : Env Disk} {path pathname : Bytes} {addr addr' : UDPAddr} {s s' t t' : Store Disk}

/-- The answers of `os.ReadFile` and `os.WriteFile`, error texts included, depend on
nothing but the path and the contents of the files, and what has just been read and
written can be read and written again. -/
structure OS.Steady (os : OS Disk) (locate : Bytes → κ) (contents : Disk → κ → Option Bytes) : Prop
    extends os.Lawful locate contents where
  reads : ∀ {d d'} path, contents d = contents d' →
    (os.readFile d path).map Slice.elems = (os.readFile d' path).map Slice.elems
  writes : ∀ {d d'} path content, contents d = contents d' →
    (os.writeFile d path content).2 = (os.writeFile d' path content).2
  reread : ∀ {d path fileContent content d'}, os.readFile d path = .ok fileContent →
    os.writeFile d path content = (d', none) → ∃ again, os.readFile d' path = .ok again
  rewrite : ∀ {d path content d'}, os.writeFile d path content = (d', none) →
    (os.writeFile d' path content).2 = none

theorem OS.Steady.read_cases (steady : os.Steady locate contents) {d d' : Disk}
    (same : contents d = contents d') (path : Bytes) :
    (∃ err, os.readFile d path = .error err ∧ os.readFile d' path = .error err) ∨
    ∃ file file', os.readFile d path = .ok file ∧ os.readFile d' path = .ok file' ∧
      file.elems = file'.elems := by
  have alike := steady.reads path same
  cases before : os.readFile d path with
  | error err =>
    cases after : os.readFile d' path with
    | error err' =>
      rw [before, after] at alike
      cases alike
      exact .inl ⟨err, rfl, rfl⟩
    | ok file' =>
      rw [before, after] at alike
      cases alike
  | ok file =>
    cases after : os.readFile d' path with
    | error err' =>
      rw [before, after] at alike
      cases alike
    | ok file' =>
      rw [before, after] at alike
      exact .inr ⟨file, file', rfl, rfl, Except.ok.inj alike⟩

/-- Equal files stay equal when the same is written to both. -/
theorem OS.Lawful.written_same (lawful : os.Lawful locate contents) {d d' e e' : Disk} {content : Bytes}
    (same : contents d = contents d') (wrote : os.writeFile d path content = (e, none))
    (wrote' : os.writeFile d' path content = (e', none)) : contents e = contents e' := by
  obtain ⟨named, others⟩ := lawful.written wrote
  obtain ⟨named', others'⟩ := lawful.written wrote'
  funext file
  by_cases here : file = locate path
  · rw [here, named, named']
  · rw [others file here, others' file here, same]

/-! ### Edits -/

/-- The spare capacity of the slice that holds the file does not matter. -/
def DependsOnBytes {α : Type} (edit : Slice UInt8 → Option α) : Prop :=
  ∀ {file file' : Slice UInt8} {result}, file.elems = file'.elems → edit file = some result →
    edit file' = some result

/-- Applied to its own result, the edit makes no change. -/
def Settles (edit : Slice UInt8 → Option (Except Bytes Bytes)) : Prop :=
  ∀ {file file' : Slice UInt8} {buf}, edit file = some (.ok buf) → file'.elems = buf →
    edit file' = some (.ok buf)

theorem len_eq {file file' : Slice UInt8} (same : file.elems = file'.elems) : file'.len = file.len := by
  rw [Slice.len, Slice.len, same]

theorem Replace.edit_dependsOnBytes (req : ReplaceRequest) : DependsOnBytes (Replace.edit · req) := by
  intro file file' result same edited
  cases result with
  | error err => rwa [edit_error_iff, len_eq same, ← edit_error_iff]
  | ok buf => rwa [edit_ok_iff, len_eq same, ← same, ← edit_ok_iff]

theorem Replace.edit_settles (req : ReplaceRequest) : Settles (Replace.edit · req) := by
  intro file file' buf edited same
  obtain ⟨inside, order, fits, made⟩ := edit_ok_iff.mp edited
  have room : req.offset.toNat + (req.content.take (Replace.stop req - req.offset.toNat)).length ≤
      file.elems.length := by
    rw [List.length_take, Nat.min_eq_left (Replace.stop_sub_le order), Nat.add_sub_cancel' order]
    exact fits
  have length : file'.len = file.len := by
    rw [Slice.len, same, made, overwrite_length room, Slice.len]
  rw [edit_ok_iff, length, same]
  refine ⟨inside, order, fits, ?_⟩
  rw [made, overwrite_again room]

theorem Read.segment_dependsOnBytes (req : ReadRequest) : DependsOnBytes (Read.segment · req) := by
  intro file file' result same read
  cases result with
  | error err => rwa [segment_error_iff, len_eq same, ← segment_error_iff]
  | ok bytes => rwa [segment_ok_iff, len_eq same, ← same, ← segment_ok_iff]

/-! ### The services -/

/-- Two reads of equal files answer alike. -/
theorem read_same {req : ReadRequest} {res res' : ReadResponse} (steady : os.Steady locate contents)
    (uses : env.os = os) (uses' : env'.os = os) (same : contents s.disk = contents s'.disk)
    (first : read env path req s = some (t, res)) (second : read env' path req s' = some (t', res')) :
    res' = res := by
  simp only [read, Store.did_disk, uses, uses'] at first second
  obtain ⟨err, failed, failed'⟩ | ⟨file, file', found, found', alike⟩ :=
    steady.read_cases same (concatenatePaths path req.pathname)
  · rw [failed] at first
    rw [failed'] at second
    cases first
    cases second
    rfl
  · rw [found] at first
    rw [found'] at second
    obtain ⟨result, segment, rest⟩ := Option.bind_eq_some_iff.mp first
    obtain ⟨result', segment', rest'⟩ := Option.bind_eq_some_iff.mp second
    cases (Read.segment_dependsOnBytes req alike segment).symm.trans segment'
    cases result with
    | error err =>
      cases rest
      cases rest'
      rfl
    | ok bytes =>
      cases rest
      cases rest'
      rfl

variable {edit : Slice UInt8 → Option (Except Bytes Bytes)} {res res' : StatusResponse}

/-- An update of equal files answers alike and leaves equal files. -/
theorem update_same (steady : os.Steady locate contents) (bytes : DependsOnBytes edit)
    (uses : env.os = os) (uses' : env'.os = os) (same : contents s.disk = contents s'.disk)
    (first : update env path pathname edit s = some (t, res))
    (second : update env' path pathname edit s' = some (t', res')) :
    res' = res ∧ contents t'.disk = contents t.disk := by
  simp only [update, Store.did_disk, uses, uses'] at first second
  obtain ⟨err, failed, failed'⟩ | ⟨file, file', found, found', alike⟩ :=
    steady.read_cases same (concatenatePaths path pathname)
  · rw [failed] at first
    rw [failed'] at second
    cases first
    cases second
    exact ⟨rfl, same.symm⟩
  · rw [found] at first
    rw [found'] at second
    obtain ⟨result, edited, rest⟩ := Option.bind_eq_some_iff.mp first
    obtain ⟨result', edited', rest'⟩ := Option.bind_eq_some_iff.mp second
    cases (bytes alike edited).symm.trans edited'
    cases result with
    | error err =>
      cases rest
      cases rest'
      exact ⟨rfl, same.symm⟩
    | ok buf =>
      have agree := steady.writes (concatenatePaths path pathname) buf same
      cases wrote : os.writeFile s.disk (concatenatePaths path pathname) buf with | mk disk err
      cases wrote' : os.writeFile s'.disk (concatenatePaths path pathname) buf with | mk disk' err'
      rw [wrote, wrote'] at agree
      cases agree
      simp only [wrote] at rest
      simp only [wrote'] at rest'
      cases err with
      | some err =>
        cases rest
        cases rest'
        refine ⟨rfl, ?_⟩
        rw [steady.failed wrote, steady.failed wrote', same]
      | none =>
        obtain ⟨u, notified, made⟩ := Option.bind_eq_some_iff.mp rest
        obtain ⟨u', notified', made'⟩ := Option.bind_eq_some_iff.mp rest'
        cases made
        cases made'
        refine ⟨rfl, ?_⟩
        rw [handleNotification_disk notified, handleNotification_disk notified']
        exact steady.written_same same.symm wrote' wrote

/-- An update of the files as an earlier copy of it left them answers as that one
did, and leaves them so. -/
theorem update_again (steady : os.Steady locate contents) (bytes : DependsOnBytes edit)
    (settles : Settles edit) (uses : env.os = os) (uses' : env'.os = os)
    (first : update env path pathname edit s = some (t, res)) (left : contents s'.disk = contents t.disk)
    (second : update env' path pathname edit s' = some (t', res')) :
    res' = res ∧ contents t'.disk = contents t.disk := by
  have unchanged : contents t.disk = contents s.disk → res' = res ∧ contents t'.disk = contents t.disk :=
    fun kept => update_same steady bytes uses uses' (left.trans kept).symm first second
  cases update_cases first with
  | unread err failed store response =>
    subst store
    exact unchanged rfl
  | refused fileContent err file edited store response =>
    subst store
    exact unchanged rfl
  | unwritten fileContent buf err disk file edited failed store response =>
    subst store
    rw [uses] at failed
    exact unchanged (steady.failed failed)
  | written fileContent buf disk file edited wrote notified response =>
    subst response
    rw [uses] at file wrote
    have kept : contents s'.disk = contents disk := by rw [left, handleNotification_disk notified]
    obtain ⟨named, others⟩ := steady.written wrote
    obtain ⟨again, reread⟩ := steady.reread file wrote
    have found : ∃ file', os.readFile s'.disk (concatenatePaths path pathname) = .ok file' ∧
        file'.elems = buf := by
      obtain ⟨err, _, failed⟩ | ⟨file', _, found, _, _⟩ :=
        steady.read_cases kept (concatenatePaths path pathname)
      · cases reread.symm.trans failed
      · have held := steady.read found
        rw [kept, named] at held
        exact ⟨file', found, (Option.some.inj held).symm⟩
    obtain ⟨file', found, holds⟩ := found
    simp only [update, Store.did_disk, uses', found, Option.bind_eq_bind] at second
    rw [settles edited holds, Option.bind_some] at second
    have succeeds := (steady.writes (concatenatePaths path pathname) buf kept).trans (steady.rewrite wrote)
    cases wrote' : os.writeFile s'.disk (concatenatePaths path pathname) buf with | mk disk' err'
    rw [wrote'] at succeeds
    cases succeeds
    simp only [wrote'] at second
    obtain ⟨u, notified', made⟩ := Option.bind_eq_some_iff.mp second
    cases made
    refine ⟨rfl, ?_⟩
    rw [handleNotification_disk notified, handleNotification_disk notified']
    obtain ⟨named', others'⟩ := steady.written wrote'
    funext file
    by_cases here : file = locate (concatenatePaths path pathname)
    · rw [here, named, named']
    · rw [others' file here, kept]

theorem getLastModifiedTime_same {req : GetLastModifiedTimeRequest} (uses : env'.os = env.os)
    (same : s'.disk = s.disk) :
    (getLastModifiedTime env' path req s').2 = (getLastModifiedTime env path req s).2 := by
  simp only [getLastModifiedTime, Store.did_disk, uses, same]
  cases env.os.stat s.disk (concatenatePaths path req.pathname) <;> rfl

/-! ### Requests -/

/-- The kinds of requests that may be repeated. -/
def repeatable : MessageType → Bool
  | .read | .replace | .getLastModifiedTime => true
  | .write | .subscribe | .delete => false

/-- One disk is as good as the other for a request of this kind: a time query looks
at more than the contents. -/
def AsGoodFor (contents : Disk → κ → Option Bytes) (kind : MessageType) (d d' : Disk) : Prop :=
  contents d' = contents d ∧ (kind = .getLastModifiedTime → d' = d)

theorem AsGoodFor.refl (kind : MessageType) (d : Disk) : AsGoodFor contents kind d d := ⟨rfl, fun _ => rfl⟩

variable {r : Request} {reply reply' : Bytes}

/-- The same request, served over equal files. -/
theorem serveRequest_same (steady : os.Steady locate contents) (mayRepeat : repeatable r.messageType = true)
    (uses : env.os = os) (uses' : env'.os = os) (same : contents s.disk = contents s'.disk)
    (first : serveRequest env path addr s r = some (t, reply))
    (second : serveRequest env' path addr' s' r = some (t', reply')) :
    contents t'.disk = contents t.disk ∧ (r.messageType ≠ .getLastModifiedTime → reply' = reply) := by
  cases r with
  | write | subscribe | delete => contradiction
  | read req =>
    obtain ⟨res, answered, marshalled⟩ := answered_iff.mp first
    obtain ⟨res', answered', marshalled'⟩ := answered_iff.mp second
    obtain rfl := read_same steady uses uses' same answered answered'
    refine ⟨?_, fun _ => Option.some.inj (marshalled'.symm.trans marshalled)⟩
    rw [read_disk answered, read_disk answered', same]
  | replace req =>
    obtain ⟨res, answered, marshalled⟩ := answered_iff.mp first
    obtain ⟨res', answered', marshalled'⟩ := answered_iff.mp second
    obtain ⟨rfl, left⟩ := update_same steady (Replace.edit_dependsOnBytes req) uses uses' same answered answered'
    exact ⟨left, fun _ => Option.some.inj (marshalled'.symm.trans marshalled)⟩
  | getLastModifiedTime req =>
    refine ⟨?_, fun other => absurd rfl other⟩
    rw [(serveRequest_timeQuery first).1, (serveRequest_timeQuery second).1, Store.did_disk, Store.did_disk, same]

/-- The same request, served over what it left. -/
theorem serveRequest_again (steady : os.Steady locate contents) (mayRepeat : repeatable r.messageType = true)
    (uses : env.os = os) (uses' : env'.os = os) (first : serveRequest env path addr s r = some (t, reply))
    (left : AsGoodFor contents r.messageType t.disk s'.disk)
    (second : serveRequest env' path addr' s' r = some (t', reply')) :
    reply' = reply ∧ AsGoodFor contents r.messageType t.disk t'.disk := by
  cases r with
  | write | subscribe | delete => contradiction
  | read req =>
    obtain ⟨res, answered, marshalled⟩ := answered_iff.mp first
    obtain ⟨res', answered', marshalled'⟩ := answered_iff.mp second
    have kept := read_disk answered
    obtain rfl := read_same steady uses uses' (left.1.trans (congrArg contents kept)).symm answered answered'
    refine ⟨Option.some.inj (marshalled'.symm.trans marshalled), ?_⟩
    rw [read_disk answered']
    exact left
  | replace req =>
    obtain ⟨res, answered, marshalled⟩ := answered_iff.mp first
    obtain ⟨res', answered', marshalled'⟩ := answered_iff.mp second
    obtain ⟨rfl, after⟩ := update_again steady (Replace.edit_dependsOnBytes req) (Replace.edit_settles req)
      uses uses' answered left.1 answered'
    exact ⟨Option.some.inj (marshalled'.symm.trans marshalled), after, nofun⟩
  | getLastModifiedTime req =>
    obtain ⟨rfl, marshalled⟩ := serveRequest_timeQuery first
    obtain ⟨rfl, marshalled'⟩ := serveRequest_timeQuery second
    have unread : s'.disk = s.disk := left.2 rfl
    rw [getLastModifiedTime_same (uses'.trans uses.symm) unread] at marshalled'
    exact ⟨Option.some.inj (marshalled'.symm.trans marshalled), left⟩

variable {kind : MessageType} {data : Slice UInt8}

/-- A handler answers what it cannot decode without looking at a file. -/
theorem dispatch_decoded (answered : dispatch kind env path addr data s = some (t, reply)) :
    (∃ err, unmarshalRequest kind data = some (.error err) ∧ t = s ∧ reply = 0 :: counted err) ∨
    ∃ r, r.messageType = kind ∧ unmarshalRequest kind data = some (.ok r) ∧
      serveRequest env path addr s r = some (t, reply) := by
  rw [dispatch_eq] at answered
  obtain ⟨result, decoded, rest⟩ := Option.bind_eq_some_iff.mp answered
  cases result with
  | error err =>
    cases rest
    exact .inl ⟨err, decoded, rfl, rfl⟩
  | ok r => exact .inr ⟨r, (unmarshalRequest_ok.mp decoded).1, decoded, rest⟩

theorem dispatch_same (steady : os.Steady locate contents) (mayRepeat : repeatable kind = true)
    (uses : env.os = os) (uses' : env'.os = os) (same : contents s.disk = contents s'.disk)
    (first : dispatch kind env path addr data s = some (t, reply))
    (second : dispatch kind env' path addr' data s' = some (t', reply')) :
    contents t'.disk = contents t.disk ∧ (kind ≠ .getLastModifiedTime → reply' = reply) := by
  rcases dispatch_decoded first with ⟨err, decoded, rfl, rfl⟩ | ⟨r, rfl, decoded, served⟩ <;>
    rcases dispatch_decoded second with ⟨err', decoded', rfl, rfl⟩ | ⟨r', _, decoded', served'⟩ <;>
    cases decoded.symm.trans decoded'
  · exact ⟨same.symm, fun _ => rfl⟩
  · exact serveRequest_same steady mayRepeat uses uses' same served served'

theorem dispatch_again (steady : os.Steady locate contents) (mayRepeat : repeatable kind = true)
    (uses : env.os = os) (uses' : env'.os = os)
    (first : dispatch kind env path addr data s = some (t, reply))
    (left : AsGoodFor contents kind t.disk s'.disk)
    (second : dispatch kind env' path addr' data s' = some (t', reply')) :
    reply' = reply ∧ AsGoodFor contents kind t.disk t'.disk := by
  rcases dispatch_decoded first with ⟨err, decoded, rfl, rfl⟩ | ⟨r, rfl, decoded, served⟩ <;>
    rcases dispatch_decoded second with ⟨err', decoded', rfl, rfl⟩ | ⟨r', _, decoded', served'⟩ <;>
    cases decoded.symm.trans decoded'
  · exact ⟨rfl, left⟩
  · exact serveRequest_again steady mayRepeat uses uses' served left served'

/-! ### Runs -/

/-- One delivery of a request datagram: its surroundings, and what becomes of the reply. -/
structure Copy (Disk : Type) where
  env : Env Disk
  clientAddress : UDPAddr
  simulateReplyLoss : Bool
  sendFails : Bool

def Copy.event (c : Copy Disk) (bytes : Bytes) : Event Disk :=
  .packet c.env ⟨c.clientAddress, bytes, false, false, c.simulateReplyLoss, c.sendFails⟩

/-- A request datagram that is delivered once in one run, and one or more times in a
row in another. -/
structure Retransmitted (Disk : Type) where
  bytes : Bytes
  alone : Copy Disk
  first : Copy Disk
  repeats : List (Copy Disk)

def Retransmitted.single (q : Retransmitted Disk) : Event Disk := q.alone.event q.bytes

def Retransmitted.copies (q : Retransmitted Disk) : List (Event Disk) :=
  (q.first :: q.repeats).map (·.event q.bytes)

/-- The kind of request that the router takes a datagram for. -/
def requestedKind (bytes : Bytes) : Option MessageType := do
  let (code, _, _) ← header (received bytes)
  MessageType.ofCode? code

theorem requestedKind_datagram (id : UInt32) (r : Request) :
    requestedKind (r.datagram id) = some r.messageType := by
  obtain ⟨data, head⟩ := header_received id r
  rw [requestedKind, head]
  exact MessageType.ofCode?_code _

/-- A read, a replacement or a time query, always over the same file system. -/
structure Retransmitted.Harmless (q : Retransmitted Disk) (os : OS Disk) : Prop where
  kind : ∃ kind, requestedKind q.bytes = some kind ∧ repeatable kind = true
  alone : q.alone.env.os = os
  first : q.first.env.os = os
  repeats : ∀ c ∈ q.repeats, c.env.os = os

/-- The answers to the copies of each request: all the same and, except for a time
query, the one given when each request comes once. -/
inductive Answered : List (Retransmitted Disk) → List (Option Bytes) → List (Option Bytes) → Prop where
  | nil : Answered [] [] []
  | cons {q : Retransmitted Disk} {reply reply' : Bytes} {qs : List (Retransmitted Disk)}
      {answers single : List (Option Bytes)}
      (agree : requestedKind q.bytes ≠ some .getLastModifiedTime → reply' = reply)
      (rest : Answered qs answers single) :
      Answered (q :: qs) (List.replicate (q.repeats.length + 1) (some reply) ++ answers)
        (some reply' :: single)

theorem bare_copy {c : Copy Disk} {bytes : Bytes} {code : UInt8} {id : UInt32}
    (head : header (received bytes) = some (code, id, data)) (known : MessageType.ofCode? code = some kind) :
    bare (machine path) s (c.event bytes) =
      (dispatch kind c.env path c.clientAddress data s).map fun (t, reply) => (t, some reply) := by
  simp [bare, machine, Copy.event, Event.tag, Event.header?, Packet.routed, readFromClient, head, known]

/-- The further copies of a request, one by one. -/
theorem run_repeats {bytes : Bytes} {code : UInt8} {id : UInt32} {repeats : List (Copy Disk)}
    {u : Store Disk} {answers : List (Option Bytes)} (steady : os.Steady locate contents)
    (mayRepeat : repeatable kind = true) (head : header (received bytes) = some (code, id, data))
    (known : MessageType.ofCode? code = some kind) (uses : env.os = os)
    (first : dispatch kind env path addr data s = some (t, reply))
    (others : ∀ c ∈ repeats, c.env.os = os) (left : AsGoodFor contents kind t.disk s'.disk)
    (returned : run (bare (machine path)) s' (repeats.map (·.event bytes)) = some (u, answers)) :
    AsGoodFor contents kind t.disk u.disk ∧ answers = List.replicate repeats.length (some reply) := by
  induction repeats generalizing s' answers with
  | nil =>
    obtain ⟨rfl, rfl⟩ := run_nil_iff.mp returned
    exact ⟨left, rfl⟩
  | cons c repeats ih =>
    obtain ⟨v, answer, rest, here, later, rfl⟩ := run_cons_iff.mp returned
    rw [bare_copy head known] at here
    obtain ⟨⟨w, reply'⟩, answered, made⟩ := Option.map_eq_some_iff.mp here
    cases made
    obtain ⟨rfl, after⟩ := dispatch_again steady mayRepeat uses (others c List.mem_cons_self) first left answered
    obtain ⟨last, same⟩ := ih (fun c member => others c (List.mem_cons_of_mem _ member)) after later
    rw [same]
    exact ⟨last, rfl⟩

theorem run_retransmitted {qs : List (Retransmitted Disk)} {u v : Store Disk}
    {answers single : List (Option Bytes)} (steady : os.Steady locate contents)
    (harmless : ∀ q ∈ qs, q.Harmless os) (same : contents s.disk = contents s'.disk)
    (alone : run (bare (machine path)) s (qs.map Retransmitted.single) = some (v, single))
    (returned : run (bare (machine path)) s' (qs.flatMap Retransmitted.copies) = some (u, answers)) :
    contents u.disk = contents v.disk ∧ Answered qs answers single := by
  induction qs generalizing s s' answers single with
  | nil =>
    obtain ⟨rfl, rfl⟩ := run_nil_iff.mp alone
    obtain ⟨rfl, rfl⟩ := run_nil_iff.mp returned
    exact ⟨same.symm, .nil⟩
  | cons q qs ih =>
    obtain ⟨⟨kind, asked, mayRepeat⟩, usesAlone, usesFirst, uses⟩ := harmless q List.mem_cons_self
    obtain ⟨⟨code, id, data⟩, head, known⟩ := Option.bind_eq_some_iff.mp asked
    rw [List.flatMap_cons] at returned
    obtain ⟨w, here, later, copies, rest, rfl⟩ := run_append_iff.mp returned
    obtain ⟨v', once, single, stepped, restAlone, rfl⟩ := run_cons_iff.mp alone
    obtain ⟨w', answer, others, firstStep, repeated, rfl⟩ := run_cons_iff.mp copies
    dsimp only at known
    rw [Retransmitted.single, bare_copy head known] at stepped
    rw [bare_copy head known] at firstStep
    obtain ⟨⟨x, reply'⟩, answeredAlone, made⟩ := Option.map_eq_some_iff.mp stepped
    cases made
    obtain ⟨⟨y, reply⟩, answeredFirst, made⟩ := Option.map_eq_some_iff.mp firstStep
    cases made
    obtain ⟨left, agree⟩ := dispatch_same steady mayRepeat usesFirst usesAlone same.symm answeredFirst answeredAlone
    obtain ⟨good, all⟩ := run_repeats steady mayRepeat head known usesFirst answeredFirst uses (.refl _ _) repeated
    obtain ⟨final, answered⟩ := ih (fun q member => harmless q (List.mem_cons_of_mem _ member))
      (left.trans good.1.symm) restAlone rest
    refine ⟨final, ?_⟩
    rw [all]
    refine .cons (fun other => agree ?_) answered
    rintro rfl
    exact other asked

/-- At least once, a request that is delivered several times in a row is answered the
same each time, reads and replacements as if every request came once, and the files
end up as if every request came once. -/
theorem retransmission_harmless {qs : List (Retransmitted Disk)} {s u v : State Disk}
    {outs outs' : List Handled} (steady : os.Steady locate contents) (harmless : ∀ q ∈ qs, q.Harmless os)
    (alone : run (serverStep .atLeastOnce path) s (qs.map Retransmitted.single) = some (v, outs'))
    (returned : run (serverStep .atLeastOnce path) s (qs.flatMap Retransmitted.copies) = some (u, outs)) :
    contents u.store.disk = contents v.store.disk ∧
      Answered qs (outs.map Handled.response) (outs'.map Handled.response) := by
  have image := run_image State.store Handled.response (serverStep_bare path) s
  have single : run (bare (machine path)) s.store (qs.map Retransmitted.single) =
      some (v.store, outs'.map Handled.response) := by
    rw [image, alone]
    rfl
  have copies : run (bare (machine path)) s.store (qs.flatMap Retransmitted.copies) =
      some (u.store, outs.map Handled.response) := by
    rw [image, returned]
    rfl
  exact run_retransmitted steady harmless rfl single copies

theorem FileSystem.steady {faults : Faults} (sound : faults.write = none) :
    (FileSystem.os faults).Steady id FileSystem.bytes := by
  refine ⟨FileSystem.lawful sound, ?_, ?_, ?_, ?_⟩
  · intro d d' path same
    have here := congrFun same path
    simp only [FileSystem.bytes] at here
    simp only [FileSystem.os]
    cases faults.read with
    | some err => rfl
    | none =>
      cases before : d.files path with
      | none =>
        rw [before] at here
        rw [Option.map_eq_none_iff.mp here.symm]
      | some file =>
        rw [before] at here
        obtain ⟨file', after, content⟩ := Option.map_eq_some_iff.mp here.symm
        rw [after]
        exact congrArg Except.ok content.symm
  · intro d d' path content _
    simp only [FileSystem.os, sound]
  · intro d path fileContent content d' read wrote
    simp only [FileSystem.os, sound] at wrote
    cases wrote
    simp only [FileSystem.os, FileSystem.store_self] at read ⊢
    cases failed : faults.read with
    | some err => simp [failed] at read
    | none => exact ⟨_, rfl⟩
  · intro d path content d' _
    simp only [FileSystem.os, sound]

/-- A replacement delivered twice and a read delivered three times. -/
def repeatedReplace : List (Retransmitted FileSystem) :=
  let copy : Copy FileSystem := ⟨FileSystem.env Faults.none 0, ⟨[], 7⟩, false, false⟩
  let lost : Copy FileSystem := ⟨FileSystem.env Faults.none 0, ⟨[], 7⟩, true, false⟩
  [⟨Request.datagram 5 (.replace ⟨text "a", 1, text "xy"⟩), copy, lost, [copy]⟩,
   ⟨Request.datagram 6 (.read ⟨text "a", 0, 3⟩), copy, lost, [lost, copy]⟩]

theorem repeatedReplace_harmless :
    ∀ q ∈ repeatedReplace, q.Harmless (FileSystem.os Faults.none) := by
  intro q member
  simp only [repeatedReplace, List.mem_cons, List.not_mem_nil, or_false] at member
  rcases member with rfl | rfl
  · exact ⟨⟨.replace, requestedKind_datagram _ _, rfl⟩, rfl, rfl, by simp [FileSystem.env]⟩
  · exact ⟨⟨.read, requestedKind_datagram _ _, rfl⟩, rfl, rfl, by simp [FileSystem.env]⟩

theorem retransmission_harmless_replace :
    ∃ u v outs outs', run (serverStep .atLeastOnce []) oneFile (repeatedReplace.map Retransmitted.single) =
        some (v, outs') ∧
      run (serverStep .atLeastOnce []) oneFile (repeatedReplace.flatMap Retransmitted.copies) = some (u, outs) ∧
      outs.length = 5 ∧ FileSystem.bytes u.store.disk = FileSystem.bytes v.store.disk ∧
      Answered repeatedReplace (outs.map Handled.response) (outs'.map Handled.response) := by
  have single : (run (serverStep .atLeastOnce []) oneFile
      (repeatedReplace.map Retransmitted.single)).isSome = true := by decide +kernel
  have copies : (run (serverStep .atLeastOnce []) oneFile
      (repeatedReplace.flatMap Retransmitted.copies)).map (fun r => r.2.length) = some 5 := by
    decide +kernel
  obtain ⟨⟨v, outs'⟩, alone⟩ := Option.isSome_iff_exists.mp single
  obtain ⟨⟨u, outs⟩, returned, five⟩ := Option.map_eq_some_iff.mp copies
  obtain ⟨same, answered⟩ :=
    retransmission_harmless (FileSystem.steady rfl) repeatedReplace_harmless alone returned
  exact ⟨u, v, outs, outs', alone, returned, five, same, answered⟩

end RemoteFile.Server
