import RemoteFile.Server.AtMostOnce
import RemoteFile.System.Coherence

/-! Where the entries of the cache come from. An entry is made from two exchanges,
the time query and then the read, with any updates in between; a validation
rewrites one of its times. -/
namespace RemoteFile.System
open Octets Transition Server Client

variable {sem : InvocationSemantic} {path : Bytes} {addr : UDPAddr} {w w' : FileWorld} {a : FileAction}
  {seen : Seen} {pathname : Bytes} {entry : Entry}

/-- The range of an entry is that of its content. -/
def Whole (entry : Entry) : Prop := entry.endIdx.toNat = entry.startIdx.toNat + entry.filecontent.length

/-- The server reported this modification time of the file at moment `i`. -/
def FileWorld.Reported (w : FileWorld) (pathname : Bytes) (t : Int64) (i : Nat) : Prop :=
  ∃ s ∈ w.served, s.instant = i ∧ s.exchange.request = .getLastModifiedTime ⟨pathname⟩ ∧
    ∃ x, ReportsTime s.reply x ∧ x.toInt64 = t

/-- The bytes of the file in the range of the entry were the cached content at
moment `i`. -/
def FileWorld.Held (w : FileWorld) (path pathname : Bytes) (entry : Entry) (i : Nat) : Prop :=
  ∃ d file, w.moment i = some d ∧ FileSystem.file? path d pathname = some file ∧
    entry.endIdx.toNat ≤ file.content.length ∧
    entry.filecontent = window file.content entry.startIdx.toNat entry.endIdx.toNat

/-- Where an entry comes from that is in the cache after a step. -/
inductive FileWorld.Entered (w w' : FileWorld) (pathname : Bytes) (entry : Entry) : Prop where
  | kept (cached : w.client.cache pathname = some entry)
  | filled (s : Served) (among : s ∈ w.served) (current : w.client.exchange? = some s.exchange)
      (req : ReadRequest) (tmserver : Int64) (content : Bytes) (same : req.pathname = pathname)
      (pending : s.exchange.pending = .read req tmserver) (reports : ReportsContent s.reply content)
      (times : Int × Int64) (kept : times = (milliseconds w.clock, tmserver) ∨
        ∃ old, w.client.cache pathname = some old ∧ times = (old.tc, old.tmclient))
      (made : entry = Entry.stamped times.1 content times.2 req.offset) (began : w'.began = w.now + 1)
  | refreshed (s : Served) (among : s ∈ w.served) (current : w.client.exchange? = some s.exchange)
      (req : ReadRequest) (x : UInt64) (old : Entry) (same : req.pathname = pathname)
      (pending : s.exchange.pending = .time true req) (reports : ReportsTime s.reply x)
      (cached : w.client.cache pathname = some old) (unchanged : old.tmclient = x.toInt64)
      (made : entry = { old with tc := milliseconds w.clock }) (began : w'.began = w.now + 1)

namespace FileStep

theorem cached (step : FileStep path w a w' seen) (next : w'.client.cache pathname = some entry) :
    w.Entered w' pathname entry := by
  have kept (cache : w'.client.cache = w.client.cache) : w.Entered w' pathname entry :=
    .kept (cache ▸ next)
  cases step.move with
  | quiet cache => exact kept cache
  | serves _ _ _ _ _ client => exact kept (congrArg Program.cache client)
  | commands _ _ did => exact kept did.cache_same
  | takes s among current took _ _ _ began =>
    cases took with
    | ended cache => exact kept cache
    | asked _ _ _ _ _ cache => exact kept cache
    | filled req tmserver content pending reports cache =>
      rw [cache] at next
      by_cases same : req.pathname = pathname
      · subst same
        rw [Function.update_self, Option.some.injEq] at next
        exact .filled s among current req tmserver content rfl pending reports _
          (w.client.cache.timestamps_cases ..) next.symm began
      · rw [Function.update_of_ne (Ne.symm same)] at next
        exact .kept next
    | refreshed req x old _ pending reports cached unchanged cache =>
      rw [cache] at next
      by_cases same : req.pathname = pathname
      · subst same
        rw [Function.update_self, Option.some.injEq] at next
        exact .refreshed s among current req x old rfl pending reports cached unchanged next.symm began
      · rw [Function.update_of_ne (Ne.symm same)] at next
        exact .kept next

theorem reported (step : FileStep path w a w' seen) {t : Int64} {i : Nat}
    (before : w.Reported pathname t i) : w'.Reported pathname t i := by
  obtain ⟨s, member, rest⟩ := before
  exact ⟨s, step.served_mem member, rest⟩

theorem held (step : FileStep path w a w' seen) {i : Nat} (before : w.Held path pathname entry i) :
    w'.Held path pathname entry i := by
  obtain ⟨d, file, moment, rest⟩ := before
  exact ⟨d, file, step.moment moment, rest⟩

theorem began_le (step : FileStep path w a w' seen) (coherent : Coherent path w) :
    w.began ≤ w'.began := by
  rcases step.turn with ⟨_, _, began⟩ | ⟨_, began⟩
  · exact le_of_eq began.symm
  · exact began ▸ Nat.le_succ_of_le coherent.began

end FileStep

namespace Coherent

theorem instant_le (coherent : Coherent path w) {s : Served} (member : s ∈ w.served) :
    s.instant ≤ w.now := by
  obtain ⟨d, moment, _⟩ := coherent.truthful s member
  exact FileWorld.moment_le moment

/-- The content that the reply to a read reports makes an entry that the file held. -/
theorem read_held (coherent : Coherent path w) {s : Served} (member : s ∈ w.served)
    {req : ReadRequest} {tmserver : Int64} {content : Bytes}
    (pending : s.exchange.pending = .read req tmserver) (reports : ReportsContent s.reply content)
    (tc : Int) (tmclient : Int64) :
    Whole (Entry.stamped tc content tmclient req.offset) ∧
      w.Held path req.pathname (Entry.stamped tc content tmclient req.offset) s.instant := by
  obtain ⟨d, moment, truthful⟩ := coherent.truthful s member
  have request := (coherent.served s member).1.readRequest pending
  obtain ⟨file, found, small, inside, rfl⟩ := truthful.content req content request reports
  have length : (window file.content req.offset.toNat
      (req.offset.toNat + req.numBytes.toNat)).length = req.numBytes.toNat := by
    rw [window_length]
    omega
  have endIdx : (Entry.stamped tc (window file.content req.offset.toNat
      (req.offset.toNat + req.numBytes.toNat)) tmclient req.offset).endIdx.toNat =
      req.offset.toNat + req.numBytes.toNat := by
    rw [stamped_endIdx tc tmclient (by rw [length]; exact small), length]
  refine ⟨?_, d, file, moment, found, le_of_eq_of_le endIdx inside, ?_⟩
  · rw [Whole, endIdx]
    exact congrArg (req.offset.toNat + ·) length.symm
  · rw [endIdx]
    rfl

end Coherent

/-! ### Entries are whole -/

structure Entries (path : Bytes) (w : FileWorld) : Prop where
  cached : ∀ pathname entry, w.client.cache pathname = some entry → Whole entry ∧
    ∃ t₁ t₂, t₁ ≤ t₂ ∧ t₂ ≤ w.began ∧ w.Reported pathname entry.tmclient t₁ ∧
      w.Held path pathname entry t₂
  /-- The time that the client will store was reported before the content is asked for. -/
  asked : ∀ e req tmserver, w.client.exchange? = some e → e.pending = .read req tmserver →
    ∃ t₁ ≤ w.began, w.Reported req.pathname tmserver t₁

theorem FileWorld.Initial.entries (initial : w.Initial) : Entries path w where
  cached pathname entry cached := by
    rw [initial.client] at cached
    contradiction
  asked e req tmserver current := by
    rw [initial.client] at current
    contradiction

namespace Entries

theorem asked_next (entries : Entries path w) (coherent : Coherent path w)
    (step : FileStep path w a w' seen) {e : Exchange} {req : ReadRequest} {tmserver : Int64}
    (next : w'.client.exchange? = some e) (pending : e.pending = .read req tmserver) :
    ∃ t₁ ≤ w'.began, w'.Reported req.pathname tmserver t₁ := by
  cases step.asking next with
  | kept exchange =>
    obtain ⟨t₁, early, reported⟩ := entries.asked e req tmserver exchange pending
    exact ⟨t₁, le_trans early (step.began_le coherent), step.reported reported⟩
  | first _ unread => exact absurd pending (unread req tmserver)
  | second s among current expired req' t queried reports pending' began =>
    cases pending.symm.trans pending'
    have request := ((coherent.served s among).1.timeQuery queried).1
    refine ⟨s.instant, ?_, step.reported ⟨s, among, rfl, request, t, reports, rfl⟩⟩
    rw [began]
    exact Nat.le_succ_of_le (coherent.instant_le among)

theorem preserved (entries : Entries path w) (coherent : Coherent path w)
    (step : FileStep path w a w' seen) : Entries path w' := by
  refine ⟨?_, fun e req tmserver => entries.asked_next coherent step⟩
  intro pathname entry next
  cases step.cached next with
  | kept cached =>
    obtain ⟨whole, t₁, t₂, order, early, reported, held⟩ := entries.cached pathname entry cached
    exact ⟨whole, t₁, t₂, order, le_trans early (step.began_le coherent), step.reported reported,
      step.held held⟩
  | filled s among current req tmserver content same pending reports times kept made began =>
    subst same made
    obtain ⟨whole, held⟩ := coherent.read_held among pending reports times.1 times.2
    have own := coherent.own s among current
    -- the time was reported for this read, or for the one that filled the entry first
    have reported : ∃ t₁ ≤ w.began, w.Reported req.pathname times.2 t₁ := by
      rcases kept with rfl | ⟨old, cached, rfl⟩
      · exact entries.asked _ req tmserver current pending
      · obtain ⟨_, t₁, t₂, order, early, reported, _⟩ := entries.cached _ old cached
        exact ⟨t₁, le_trans order early, reported⟩
    obtain ⟨t₁, early, reported⟩ := reported
    refine ⟨whole, t₁, s.instant, le_trans early own, ?_, step.reported reported, step.held held⟩
    rw [began]
    exact Nat.le_succ_of_le (coherent.instant_le among)
  | refreshed s among current req x old same pending reports cached unchanged made began =>
    subst made
    obtain ⟨whole, t₁, t₂, order, early, reported, held⟩ := entries.cached pathname old cached
    exact ⟨whole, t₁, t₂, order, le_trans early (step.began_le coherent), step.reported reported,
      step.held held⟩

end Entries

theorem entries_reached {start : FileWorld} {as : List FileAction} {shown : List Seen}
    (initial : start.Initial) (ran : run (fileStep sem path addr) start as = some (w, shown)) :
    Coherent path w ∧ Entries path w := by
  refine run_always (P := fun w => Coherent path w ∧ Entries path w) ?_
    ⟨initial.coherent, initial.entries⟩ ran
  rintro v b v' o ⟨coherent, entries⟩ stepped
  exact ⟨coherent.preserved stepped, entries.preserved coherent (coherent.step stepped)⟩

/-! ### Failed reads -/

/-- Outside of an exchange, and without a command, no reply is taken and nothing is
cached. -/
theorem idle_run {u : FileWorld} {bs : List FileAction} {shown : List Seen} (coherent : Coherent path w)
    (outside : w.client.exchange? = none) (quiet : ∀ input, .command input ∉ bs)
    (ran : run (fileStep sem path addr) w bs = some (u, shown)) :
    u.client.cache = w.client.cache ∧ ∀ o ∈ shown, o.reply = none := by
  induction bs generalizing w shown with
  | nil =>
    obtain ⟨rfl, rfl⟩ := run_nil_iff.mp ran
    exact ⟨rfl, nofun⟩
  | cons b bs ih =>
    obtain ⟨v, o, rest, stepped, later, rfl⟩ := run_cons_iff.mp ran
    have more : ∀ input, .command input ∉ bs := fun input member =>
      quiet input (List.mem_cons_of_mem _ member)
    have next (outside' : v.client.exchange? = none) (cache : v.client.cache = w.client.cache)
        (silent : o.reply = none) :
        u.client.cache = w.client.cache ∧ ∀ o' ∈ o :: rest, o'.reply = none := by
      obtain ⟨same, silence⟩ := ih (coherent.preserved stepped) outside' more later
      exact ⟨same.trans cache, List.forall_mem_cons.mpr ⟨silent, silence⟩⟩
    cases (coherent.step stepped).move with
    | quiet cache exchange _ _ _ _ _ sees => exact next (exchange.trans outside) cache (sees ▸ rfl)
    | serves _ _ _ _ _ client _ _ _ _ sees =>
      exact next (client ▸ outside) (congrArg Program.cache client) (sees ▸ rfl)
    | commands input action => exact absurd (action ▸ List.mem_cons_self) (quiet input)
    | takes s _ current =>
      rw [outside] at current
      contradiction

/-- A failure taken before the next command: nothing has been cached. -/
theorem failed_run {u : FileWorld} {bs : List FileAction} {shown : List Seen} (coherent : Coherent path w)
    (quiet : ∀ input, .command input ∉ bs) (ran : run (fileStep sem path addr) w bs = some (u, shown))
    (failed : ∃ o ∈ shown, ∃ reply, o.reply = some reply ∧ reply.head? ≠ some 1) :
    u.client.cache = w.client.cache := by
  induction bs generalizing w shown with
  | nil =>
    obtain ⟨_, rfl⟩ := run_nil_iff.mp ran
    obtain ⟨o, member, _⟩ := failed
    contradiction
  | cons b bs ih =>
    obtain ⟨v, o, rest, stepped, later, rfl⟩ := run_cons_iff.mp ran
    have more : ∀ input, .command input ∉ bs := fun input member =>
      quiet input (List.mem_cons_of_mem _ member)
    have coherent' := coherent.preserved stepped
    have next (cache : v.client.cache = w.client.cache)
        (fine : ∀ reply, o.reply = some reply → reply.head? = some 1) :
        u.client.cache = w.client.cache := by
      refine (ih coherent' more later ?_).trans cache
      obtain ⟨o', member, reply, taken, failure⟩ := failed
      rcases List.mem_cons.mp member with rfl | member
      · exact absurd (fine reply taken) failure
      · exact ⟨o', member, reply, taken, failure⟩
    -- a success that ends the exchange leaves no reply to come
    have concluded (outside : v.client.exchange? = none)
        (fine : ∀ reply, o.reply = some reply → reply.head? = some 1) :
        u.client.cache = w.client.cache := by
      obtain ⟨o', member, reply, taken, failure⟩ := failed
      rcases List.mem_cons.mp member with rfl | member
      · exact absurd (fine reply taken) failure
      · have silence := (idle_run coherent' outside more later).2 o' member
        rw [silence] at taken
        contradiction
    cases (coherent.step stepped).move with
    | quiet cache _ _ _ _ _ _ sees =>
      subst sees
      exact next cache nofun
    | serves _ _ _ _ _ client _ _ _ _ sees =>
      subst sees
      exact next (congrArg Program.cache client) nofun
    | commands input action => exact absurd (action ▸ List.mem_cons_self) (quiet input)
    | takes s _ _ took _ _ _ _ _ sees =>
      subst sees
      cases took with
      | ended cache exchange => exact (idle_run coherent' exchange more later).1.trans cache
      | asked _ _ _ _ reports cache =>
        exact next cache fun reply same => Option.some.inj same ▸ reports.head
      | filled _ _ _ _ reports _ exchange =>
        exact concluded exchange fun reply same => Option.some.inj same ▸ reports.head
      | refreshed _ _ _ _ _ reports _ _ _ exchange =>
        exact concluded exchange fun reply same => Option.some.inj same ▸ reports.head

/-- In every reachable state the range of each entry is that of its content; the
server reported its modification time at some moment, and the file had its content
at that moment or a later one. A read that takes a failure before the user's next
command leaves the cache as it was. -/
theorem entries_whole {start : FileWorld} {as : List FileAction} {shown : List Seen}
    (initial : start.Initial) (ran : run (fileStep sem path addr) start as = some (w, shown)) :
    (∀ pathname entry, w.client.cache pathname = some entry →
      entry.endIdx.toNat = entry.startIdx.toNat + entry.filecontent.length ∧
        ∃ t₁ t₂, t₁ ≤ t₂ ∧ w.Reported pathname entry.tmclient t₁ ∧ w.Held path pathname entry t₂) ∧
    ∀ req prompted w₁ first bs w₂ rest,
      fileStep sem path addr w (.command (Input.read req prompted)) = some (w₁, first) →
      run (fileStep sem path addr) w₁ bs = some (w₂, rest) → (∀ input, .command input ∉ bs) →
      (∃ o ∈ rest, ∃ reply, o.reply = some reply ∧ reply.head? ≠ some 1) →
      w₂.client.cache = w.client.cache := by
  obtain ⟨coherent, entries⟩ := entries_reached initial ran
  constructor
  · intro pathname entry cached
    obtain ⟨whole, t₁, t₂, order, _, reported, held⟩ := entries.cached pathname entry cached
    exact ⟨whole, t₁, t₂, order, reported, held⟩
  · intro req prompted w₁ first bs w₂ rest stepped later quiet failed
    have unchanged := failed_run (coherent.preserved stepped) quiet later failed
    obtain ⟨client, commanded, made⟩ := Option.bind_eq_some_iff.mp stepped
    cases made
    exact unchanged.trans (Program.command_did commanded).cache_same

/-! ### One file, one reader -/

/-- The server over a file of three bytes, and a client with a cache that is fresh
for a second. -/
def oneReader : FileWorld := ⟨oneFile, Program.start 1000, 0, [], [], [], 0, fun _ => (0, 0)⟩

theorem oneReader_initial : oneReader.Initial where
  client := rfl
  sent := rfl
  served := rfl
  history := rfl
  began := rfl
  clock := ⟨by decide, by decide⟩
  modTimes name file found := by
    obtain ⟨_, same⟩ := Option.ite_none_right_eq_some.mp found
    cases same
    exact ⟨by decide, by decide⟩

def readTwo : Input := .read ⟨text "a", 0, 2⟩ ⟨by decide, by decide, by simp [Request.numbers]⟩

def serves (k : Nat) : FileAction := .serve k (FileSystem.env Faults.none 0) Faults.none

/-- The `k`-th request is sent, executed and answered, and its reply taken. -/
def answered (k : Nat) : List FileAction := [.transmit false, serves k, .take k]

def oneStep : FileWorld → FileAction → Option (FileWorld × Seen) := fileStep .atMostOnce [] ⟨[], 7⟩

def beyond : ReadRequest := ⟨text "a", 0, 9⟩

theorem beyond_prompted : Prompted (.read beyond) := ⟨by decide, by decide, by simp [Request.numbers, beyond]⟩

/-- Two bytes are cached; a read beyond the end of the file is then refused. -/
theorem entries_whole_refused : ∃ (w₁ w₂ : FileWorld) (entry : Entry),
    w₁.client.cache (text "a") = some entry ∧ entry.filecontent = text "12" ∧
    entry.endIdx.toNat = entry.startIdx.toNat + entry.filecontent.length ∧
    (∃ t₁ t₂, t₁ ≤ t₂ ∧ w₁.Reported (text "a") entry.tmclient t₁ ∧ w₁.Held [] (text "a") entry t₂) ∧
    w₂.client.cache = w₁.client.cache := by
  have outcome : ((run oneStep oneReader (.command readTwo :: (answered 0 ++ answered 1))).bind
      fun (w₁, _) => do
        let entry ← w₁.client.cache (text "a")
        let (w, _) ← oneStep w₁ (.command (.read beyond beyond_prompted))
        let (_, shown) ← run oneStep w (answered 2 ++ answered 3)
        some (entry.filecontent, (shown.getLast?.bind Seen.reply).bind List.head?)) =
      some (text "12", some 0) := by
    decide +kernel
  obtain ⟨⟨w₁, _⟩, ran, rest⟩ := Option.bind_eq_some_iff.mp outcome
  obtain ⟨entry, cached, rest⟩ := Option.bind_eq_some_iff.mp rest
  obtain ⟨⟨w, first⟩, stepped, rest⟩ := Option.bind_eq_some_iff.mp rest
  obtain ⟨⟨w₂, shown⟩, later, made⟩ := Option.bind_eq_some_iff.mp rest
  obtain ⟨content, failure⟩ := Prod.mk.inj (Option.some.inj made)
  obtain ⟨reply, last, head⟩ := Option.bind_eq_some_iff.mp failure
  obtain ⟨o, final, taken⟩ := Option.bind_eq_some_iff.mp last
  obtain ⟨whole, unchanged⟩ := entries_whole oneReader_initial ran
  obtain ⟨range, times⟩ := whole (text "a") entry cached
  refine ⟨w₁, w₂, entry, cached, content, range, times,
    unchanged beyond beyond_prompted w first _ w₂ shown stepped later ?_ ?_⟩
  · intro input member
    simp [answered, serves] at member
  · exact ⟨o, List.mem_of_getLast? final, reply, taken, by rw [head]; decide⟩

end RemoteFile.System
