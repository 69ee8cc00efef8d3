import RemoteFile.System.CachedReads
import RemoteFile.System.Freshness

/-! A client that is alone with the server and reads what it has updated itself.
Its commands follow one another, so that each entry of its cache was validated
before an update reached the server, or after the reply to it. -/
namespace RemoteFile.System
open Octets Cpp Cpp.Outcome Transition Server Client Stamps

variable {sem : InvocationSemantic} {path : Bytes} {addr : UDPAddr} {w w' : FileWorld} {a : FileAction}
  {seen : Seen} {pathname : Bytes} {entry : Entry} {display : Display}

/-- No other client updates a file, and no request arrives late. -/
structure Orderly (w : FileWorld) (a : FileAction) : Prop where
  sole : ∀ pathname content, a ≠ .update pathname content
  prompt : ∀ e, a.arrives w = some e → w.client.exchange? = some e

def orderly (w : FileWorld) (a : FileAction) : Bool :=
  (match a with | .update .. => false | _ => true) &&
    match a.arrives w with
    | none => true
    | some e => decide (w.client.exchange? = some e)

theorem orderly_sound (checked : orderly w a = true) : Orderly w a := by
  obtain ⟨sole, prompt⟩ := Bool.and_eq_true_iff.mp checked
  constructor
  · rintro pathname content rfl
    contradiction
  · intro e arrives
    rw [arrives] at prompt
    exact of_decide_eq_true prompt

/-- The display shows its range of the file as the file was at moment `i`. -/
def Shows (path : Bytes) (w : FileWorld) (i : Nat) (display : Display) : Prop :=
  ∃ d file, w.moment i = some d ∧ FileSystem.file? path d display.req.pathname = some file ∧
    display.data = window file.content display.req.offset.toNat
      (display.req.offset.toNat + display.req.numBytes.toNat)

/-! ### What a display shows -/

theorem displayFresh_cases {p q : Program} {c : Command} (displayed : displayFresh p q c = some display) :
    ∃ req data, c = .read req ∧ p.shown q = some data ∧
      display = ⟨req, data, .fresh (p.cache.at req.pathname)⟩ := by
  unfold displayFresh at displayed
  split at displayed
  case h_2 => contradiction
  case h_1 req =>
    obtain ⟨data, shown, rfl⟩ := Option.map_eq_some_iff.mp displayed
    exact ⟨req, data, rfl, shown, rfl⟩

theorem displayTaken_cases {p q : Program} {pending : Pending}
    (displayed : displayTaken p q pending = some display) :
    (∃ req tmserver data, pending = .read req tmserver ∧ p.shown q = some data ∧
      display = ⟨req, data, .server⟩) ∨
    ∃ expired req data, pending = .time expired req ∧ p.shown q = some data ∧
      display = ⟨req, data, .validated (p.cache.at req.pathname)⟩ := by
  unfold displayTaken at displayed
  split at displayed
  case h_1 req tmserver =>
    obtain ⟨data, shown, rfl⟩ := Option.map_eq_some_iff.mp displayed
    exact .inl ⟨req, tmserver, data, rfl, shown, rfl⟩
  case h_2 expired req =>
    obtain ⟨data, shown, rfl⟩ := Option.map_eq_some_iff.mp displayed
    exact .inr ⟨expired, req, data, rfl, shown, rfl⟩
  case h_3 => contradiction

/-- What a step has done that shows content of a file, by the source of the content. -/
inductive Displayed (w w' : FileWorld) (display : Display) : Prop where
  | fresh (entry : Entry) (source : display.source = .fresh entry) (prompted : Prompted (.read display.req))
      (cached : w.client.cache display.req.pathname = some entry)
      (inCache : fileInCache w.client.cache display.req.pathname display.req.offset display.req.numBytes = true)
      (young : milliseconds w.clock - entry.tc < w.client.fInterval)
      (read : cacheRead w.client.cache display.req.pathname display.req.offset display.req.numBytes =
        returns display.data)
      (cache : w'.client.cache = w.client.cache) (began : w'.began = w.now + 1)
  | server (s : Served) (tmserver : Int64) (source : display.source = .server) (among : s ∈ w.served)
      (current : w.client.exchange? = some s.exchange)
      (pending : s.exchange.pending = .read display.req tmserver) (reports : ReportsContent s.reply display.data)
      (cache : w'.client.cache = Function.update w.client.cache display.req.pathname
        (some (Entry.stamped
          (w.client.cache.timestamps display.req.pathname (milliseconds w.clock) tmserver).1 display.data
          (w.client.cache.timestamps display.req.pathname (milliseconds w.clock) tmserver).2
          display.req.offset)))
      (began : w'.began = w.now + 1)
  | validated (s : Served) (t : UInt64) (entry : Entry) (source : display.source = .validated entry)
      (among : s ∈ w.served) (current : w.client.exchange? = some s.exchange)
      (pending : s.exchange.pending = .time true display.req) (reports : ReportsTime s.reply t)
      (cached : w.client.cache display.req.pathname = some entry) (unchanged : entry.tmclient = t.toInt64)
      (read : cacheRead w.client.cache display.req.pathname display.req.offset display.req.numBytes =
        returns display.data)
      (cache : w'.client.cache = Function.update w.client.cache display.req.pathname
        (some { entry with tc := milliseconds w.clock }))
      (began : w'.began = w.now + 1)

theorem FileStep.displays (step : FileStep path w a w' seen) (displayed : seen.display = some display) :
    Displayed w w' display := by
  have at_cached {pathname : Bytes} {entry : Entry} (cached : w.client.cache pathname = some entry) :
      w.client.cache.at pathname = entry := by
    rw [Cache.at, cached, Option.getD_some]
  cases step.move with
  | quiet _ _ _ _ _ _ _ sees | serves _ _ _ _ _ _ _ _ _ _ sees =>
    subst sees
    contradiction
  | commands input _ did _ _ _ began _ sees =>
    subst sees
    obtain ⟨req, data, command, shown, rfl⟩ := displayFresh_cases displayed
    cases did with
    | idle _ _ nothing | asked _ _ _ _ _ _ nothing =>
      rw [nothing] at shown
      contradiction
    | hit req' entry data' command' cached inCache young read cache _ shown' =>
      cases command.symm.trans command'
      cases shown.symm.trans shown'
      have prompted := input.prompted (.read req) (by rw [command]; rfl)
      exact .fresh entry (congrArg Source.fresh (at_cached cached)) prompted cached inCache young read cache began
  | takes s among current took _ _ _ began _ sees =>
    subst sees
    obtain ⟨req, tmserver, data, pending, shown, rfl⟩ | ⟨expired, req, data, pending, shown, rfl⟩ :=
      displayTaken_cases displayed
    · cases took with
      | ended _ _ nothing | asked _ _ _ _ _ _ _ nothing =>
        rw [nothing] at shown
        contradiction
      | refreshed _ _ _ _ pending' =>
        rw [pending'] at pending
        contradiction
      | filled req' tmserver' content pending' reports cache _ shown' =>
        cases pending.symm.trans pending'
        cases shown.symm.trans shown'
        exact .server s tmserver rfl among current pending reports cache began
    · cases took with
      | ended _ _ nothing | asked _ _ _ _ _ _ _ nothing =>
        rw [nothing] at shown
        contradiction
      | filled _ _ _ pending' =>
        rw [pending'] at pending
        contradiction
      | refreshed req' t entry data' pending' reports cached unchanged cache _ read shown' =>
        cases pending.symm.trans pending'
        cases shown.symm.trans shown'
        exact .validated s t entry (congrArg Source.validated (at_cached cached)) among current pending reports
          cached unchanged read cache began

/-- From an entry that starts at the beginning of the file, a range in the cache is
read as the file has it. -/
theorem prefix_read {cache : Cache} {req : ReadRequest} {file data : Bytes}
    (prompted : Prompted (.read req)) (cached : cache req.pathname = some entry)
    (start : entry.startIdx = 0) (inside : entry.endIdx.toNat ≤ file.length)
    (content : entry.filecontent = window file entry.startIdx.toNat entry.endIdx.toNat)
    (inCache : fileInCache cache req.pathname req.offset req.numBytes = true)
    (read : cacheRead cache req.pathname req.offset req.numBytes = returns data) :
    data = window file req.offset.toNat (req.offset.toNat + req.numBytes.toNat) := by
  obtain ⟨_, same, _, stop⟩ := fileInCache_iff.mp inCache
  cases cached.symm.trans same
  have offset := prompted.numbers req.offset (by simp [Request.numbers])
  have numBytes := prompted.numbers req.numBytes (by simp [Request.numbers])
  have fits : req.offset.toNat + req.numBytes.toNat ≤ entry.endIdx.toNat := by
    have bound := UInt32.le_iff_toNat_le.mp stop
    rwa [UInt32.toNat_add, Nat.mod_eq_of_lt (by omega)] at bound
  have whole : entry.filecontent = window file 0 (0 + entry.endIdx.toNat) := by
    rw [content, start, Nat.zero_add]
    rfl
  simp only [cacheRead, cached, whole] at read
  have expected : substr (window file 0 (0 + entry.endIdx.toNat)) req.offset.toNat req.numBytes.toNat =
      returns (window file req.offset.toNat (req.offset.toNat + req.numBytes.toNat)) :=
    (substr_window_iff (by omega) (le_trans fits inside)).mpr ⟨fits, by rw [Nat.zero_add]⟩
  exact Outcome.returns.inj (read.symm.trans expected)

/-- An expired read waits for the answer to its time query with its range cached. -/
def Covered (w : FileWorld) : Prop :=
  ∀ e req, w.client.exchange? = some e → e.pending = .time true req →
    fileInCache w.client.cache req.pathname req.offset req.numBytes = true

theorem FileWorld.Initial.covered (initial : w.Initial) : Covered w := by
  intro e req current
  rw [initial.client] at current
  contradiction

theorem Covered.preserved (covered : Covered w) (step : FileStep path w a w' seen) : Covered w' := by
  intro e req next pending
  cases step.asking next with
  | kept exchange cache =>
    rw [cache]
    exact covered e req exchange pending
  | first cache _ expired =>
    rw [cache]
    exact expired req pending
  | second _ _ _ _ _ _ _ _ read =>
    rw [read] at pending
    contradiction

/-- What a step shows of a file is the file at a moment: since the client asked for
it, or in the exchange that stamped the fresh entry it comes from. -/
theorem display_shows (coherent : Coherent path w) (entries : Entries path w) (covered : Covered w)
    (step : FileStep path w a w' seen) (displayed : seen.display = some display)
    (hit : ∀ entry, display.source = .validated entry ∨ display.source = .fresh entry →
      entry.startIdx = 0 ∧ Timed w ∧ Stamped path w) :
    ∃ i, Shows path w i display ∧
      (w.began ≤ i ∧ (∀ e, w.client.exchange? = some e → e.request.updates = false) ∨
        ∃ entry, display.source = .fresh entry ∧ w.client.cache display.req.pathname = some entry ∧
          milliseconds w.clock - entry.tc < w.client.fInterval ∧
          (w.stamped display.req.pathname).1 ≤ i ∧ i ≤ (w.stamped display.req.pathname).2) := by
  cases step.displays displayed with
  | fresh entry source prompted cached inCache young read =>
    obtain ⟨start, _, stamped⟩ := hit entry (.inr source)
    obtain ⟨i, after, early, d, file, moment, found, inside, content⟩ := stamped _ entry cached
    refine ⟨i, ⟨d, file, moment, found, ?_⟩, .inr ⟨entry, source, cached, young, after, early⟩⟩
    exact prefix_read prompted cached start inside content inCache read
  | server s tmserver source among current pending reports =>
    have request := (coherent.served s among).1.readRequest pending
    refine ⟨s.instant, ?_, .inl ⟨coherent.own s among current, ?_⟩⟩
    · obtain ⟨d, moment, truthful⟩ := coherent.truthful s among
      obtain ⟨file, found, _, _, same⟩ := truthful.content _ _ request reports
      exact ⟨d, file, moment, found, same⟩
    · intro e same
      cases current.symm.trans same
      rw [request]
      rfl
  | validated s t entry source among current pending reports cached unchanged read =>
    obtain ⟨request, prompted⟩ := (coherent.served s among).1.timeQuery pending
    refine ⟨s.instant, ?_, .inl ⟨coherent.own s among current, ?_⟩⟩
    · obtain ⟨start, timed, _⟩ := hit entry (.inl source)
      obtain ⟨d, file, moment, found, inside, content⟩ :=
        coherent.validated_held entries timed among current pending reports cached unchanged
      exact ⟨d, file, moment, found,
        prefix_read prompted cached start inside content (covered _ _ current pending) read⟩
    · intro e same
      cases current.symm.trans same
      rw [request]
      rfl

/-! ### Orderly runs -/

/-- What taking turns with the server preserves. -/
structure Turns (path : Bytes) (w : FileWorld) : Prop where
  past : ∀ pathname entry, w.client.cache pathname = some entry → (w.stamped pathname).2 < w.began
  /-- What has been served is being waited for, or was served before the wait began. -/
  settled : ∀ s ∈ w.served, w.client.exchange? = some s.exchange ∨ s.instant < w.began
  /-- An update was served after an entry was stamped, or before its exchange began. -/
  stamps : ∀ s ∈ w.served, s.exchange.request.updates = true →
    ∀ pathname entry, w.client.cache pathname = some entry →
      (w.stamped pathname).2 < s.instant ∨ s.instant < (w.stamped pathname).1
  /-- Files change when the client's own updates are served. -/
  changes : ∀ i d d', w.moment i = some d → w.moment (i + 1) = some d' → ∀ pathname,
    FileSystem.file? path d' pathname = FileSystem.file? path d pathname ∨
      ∃ s ∈ w.served, s.instant = i ∧ s.exchange.request.updates = true ∧
        s.exchange.request.pathname = pathname

theorem FileWorld.Initial.turns (initial : w.Initial) : Turns path w where
  past pathname entry cached := by
    rw [initial.client] at cached
    contradiction
  settled s member := absurd (initial.served ▸ member) List.not_mem_nil
  stamps s member := absurd (initial.served ▸ member) List.not_mem_nil
  changes i d d' _ after := by
    have bound := FileWorld.moment_le after
    rw [FileWorld.now, initial.history] at bound
    exact absurd bound (Nat.not_succ_le_zero i)

theorem FileAction.target_cases (target : a.target w = some pathname) :
    (∃ content, a = .update pathname content) ∨
      ∃ e, a.arrives w = some e ∧ e.request.updates = true ∧ e.request.pathname = pathname := by
  cases a with
  | update other content =>
    cases target
    exact .inl ⟨content, rfl⟩
  | serve i env faults =>
    obtain ⟨e, sent, rest⟩ := Option.bind_eq_some_iff.mp target
    obtain ⟨updates, same⟩ := Option.ite_none_right_eq_some.mp rest
    exact .inr ⟨e, sent, updates, Option.some.inj same⟩
  | tick | adjust | command | transmit | timeout | take | listen | expire => contradiction

theorem concatenatePaths_inj {p q : Bytes} (same : concatenatePaths path p = concatenatePaths path q) :
    p = q := List.append_cancel_left same

/-- Only the reply to a read or to a time query changes an entry. -/
theorem FileStep.entered_current (step : FileStep path w a w' seen) (coherent : Coherent path w)
    (next : w'.client.cache pathname = some entry)
    (changed : w'.client.cache pathname ≠ w.client.cache pathname) :
    ∃ e, w.client.exchange? = some e ∧ e.request.updates = false := by
  cases step.cached next with
  | kept cached => exact absurd (next.trans cached.symm) changed
  | filled s _ current _ _ _ _ pending =>
    have request := (coherent.current _ current).1.readRequest pending
    exact ⟨s.exchange, current, by rw [request]; rfl⟩
  | refreshed s _ current _ _ _ _ pending =>
    have request := ((coherent.current _ current).1.timeQuery pending).1
    exact ⟨s.exchange, current, by rw [request]; rfl⟩

namespace Turns

theorem past_next (turns : Turns path w) (coherent : Coherent path w) (step : FileStep path w a w' seen) :
    ∀ pathname entry, w'.client.cache pathname = some entry → (w'.stamped pathname).2 < w'.began := by
  intro pathname entry next
  rw [step.stamped]
  by_cases same : w'.client.cache pathname = w.client.cache pathname
  · rw [if_pos same]
    exact lt_of_lt_of_le (turns.past pathname entry (same ▸ next)) (step.began_le coherent)
  · rw [if_neg same]
    cases step.cached next with
    | kept cached => exact absurd (next.trans cached.symm) same
    | filled _ _ _ _ _ _ _ _ _ _ _ _ began | refreshed _ _ _ _ _ _ _ _ _ _ _ _ began =>
      exact began ▸ Nat.lt_succ_self _

theorem settled_next (turns : Turns path w) (coherent : Coherent path w) (step : FileStep path w a w' seen)
    (orderly : Orderly w a) : ∀ s ∈ w'.served,
      w'.client.exchange? = some s.exchange ∨ s.instant < w'.began := by
  intro s member
  rcases step.turn with ⟨exchange, _, began⟩ | ⟨_, began⟩
  · rw [exchange, began]
    rcases step.served_cases member with before | ⟨arrives, _⟩
    · exact turns.settled s before
    · exact .inl (orderly.prompt _ arrives)
  · right
    rw [began]
    rcases step.served_cases member with before | ⟨_, _, instant, _⟩
    · exact Nat.lt_succ_of_le (coherent.instant_le before)
    · exact instant ▸ Nat.lt_succ_self _

theorem stamps_next (turns : Turns path w) (coherent : Coherent path w)
    (step : FileStep path w a w' seen) : ∀ s ∈ w'.served, s.exchange.request.updates = true →
      ∀ pathname entry, w'.client.cache pathname = some entry →
        (w'.stamped pathname).2 < s.instant ∨ s.instant < (w'.stamped pathname).1 := by
  intro s member updates pathname entry next
  rw [step.stamped]
  by_cases same : w'.client.cache pathname = w.client.cache pathname
  · rw [if_pos same]
    rcases step.served_cases member with before | ⟨_, _, instant, _⟩
    · exact turns.stamps s before updates pathname entry (same ▸ next)
    · left
      rw [instant]
      exact lt_of_lt_of_le (turns.past pathname entry (same ▸ next)) coherent.began
  · rw [if_neg same]
    -- the entry changed in an exchange that is not the update's
    obtain ⟨e, current, unchanging⟩ := step.entered_current coherent next same
    rcases step.served_cases member with before | ⟨_, _, _, _, client⟩
    · rcases turns.settled s before with waiting | early
      · cases current.symm.trans waiting
        rw [unchanging] at updates
        contradiction
      · exact .inr early
    · exact absurd (congrFun (congrArg Program.cache client) pathname) same

theorem changes_next (turns : Turns path w) (step : FileStep path w a w' seen) (orderly : Orderly w a) :
    ∀ i d d', w'.moment i = some d → w'.moment (i + 1) = some d' → ∀ pathname,
      FileSystem.file? path d' pathname = FileSystem.file? path d pathname ∨
        ∃ s ∈ w'.served, s.instant = i ∧ s.exchange.request.updates = true ∧
          s.exchange.request.pathname = pathname := by
  intro i d d' before after pathname
  have bound := FileWorld.moment_le after
  rw [step.now] at bound
  rcases Nat.lt_or_eq_of_le (Nat.le_of_succ_le_succ bound) with past | now
  · rw [step.moment_before (Nat.le_of_lt past)] at before
    rw [step.moment_before past] at after
    rcases turns.changes i d d' before after pathname with same | ⟨s, member, rest⟩
    · exact .inl same
    · exact .inr ⟨s, step.served_mem member, rest⟩
  · subst now
    cases before.symm.trans (step.moment w.moment_now)
    cases after.symm.trans (step.now ▸ w'.moment_now)
    cases step.drift with
    | passes files => exact .inl (congrFun files _)
    | changes named _ content target _ stored =>
      by_cases here : pathname = named
      · subst here
        rcases FileAction.target_cases target with ⟨content', update⟩ | ⟨e, arrives, updates, same⟩
        · exact absurd update (orderly.sole pathname content')
        · obtain ⟨s, served, rfl, instant⟩ := step.answers e arrives
          have member : s ∈ w'.served := served ▸ List.mem_append_right _ (List.mem_singleton.mpr rfl)
          exact .inr ⟨s, member, instant, updates, same⟩
      · left
        rw [stored]
        exact FileSystem.store_other _ _ fun same => here (concatenatePaths_inj same)

theorem preserved (turns : Turns path w) (coherent : Coherent path w) (step : FileStep path w a w' seen)
    (orderly : Orderly w a) : Turns path w' :=
  ⟨turns.past_next coherent step, turns.settled_next coherent step orderly,
    turns.stamps_next coherent step, turns.changes_next step orderly⟩

/-- A file stays as it is while no update of it is served. -/
theorem unchanged (turns : Turns path w) {i j : Nat} {d d' : FileSystem} (order : i ≤ j)
    (before : w.moment i = some d) (after : w.moment j = some d')
    (quiet : ∀ s ∈ w.served, s.exchange.request.updates = true → s.exchange.request.pathname = pathname →
      s.instant < i) :
    FileSystem.file? path d' pathname = FileSystem.file? path d pathname := by
  induction order generalizing d' with
  | refl =>
    cases before.symm.trans after
    rfl
  | step order ih =>
    obtain ⟨middle, there⟩ := FileWorld.moment_some (Nat.le_of_succ_le (FileWorld.moment_le after))
    rcases turns.changes _ _ _ there after pathname with same | ⟨s, member, instant, updates, named⟩
    · exact same.trans (ih there)
    · have early := quiet s member updates named
      rw [instant] at early
      exact absurd order (Nat.not_le_of_lt early)

end Turns

theorem turns_reached {start : FileWorld} {as : List FileAction} {shown : List Seen}
    (initial : start.Initial) (orderly : Along (fileStep sem path addr) Orderly start as)
    (ran : run (fileStep sem path addr) start as = some (w, shown)) :
    Coherent path w ∧ Covered w ∧ Turns path w := by
  have covered : Covered start := by
    intro e req current
    rw [initial.client] at current
    contradiction
  refine run_invariant (P := fun w => Coherent path w ∧ Covered w ∧ Turns path w) ?_
    ⟨initial.coherent, covered, initial.turns⟩ orderly ran
  rintro v b v' o ⟨coherent, covered, turns⟩ ok stepped
  have step := coherent.step stepped
  exact ⟨coherent.preserved stepped, covered.preserved step, turns.preserved coherent step ok⟩

/-- A client that is alone with the server reads its own updates, up to the freshness
of its cache. After an update `s` that no later update of the file follows, what a
read shows is the file as `s` left it, or it comes from an entry younger than
`fInterval` and is the file as it was in the exchange in which that was last filled or
validated, before `s`. Of entries that start at an offset, or when a file changes twice
within one second, this is said of what comes from the server alone. -/
theorem reads_own_updates {start : FileWorld} {as : List FileAction} {shown : List Seen} {s : Served}
    (initial : start.Initial) (orderly : Along (fileStep sem path addr) Orderly start as)
    (ran : run (fileStep sem path addr) start as = some (w, shown))
    (stepped : fileStep sem path addr w a = some (w', seen)) (displayed : seen.display = some display)
    (hit : ∀ entry, display.source = .validated entry ∨ display.source = .fresh entry →
      entry.startIdx = 0 ∧ Along (fileStep sem path addr) (Spaced sem path addr) start as)
    (member : s ∈ w.served) (updates : s.exchange.request.updates = true)
    (last : ∀ s' ∈ w.served, s'.exchange.request.updates = true →
      s'.exchange.request.pathname = display.req.pathname → s'.instant ≤ s.instant) :
    Shows path w (s.instant + 1) display ∨
      ∃ entry i, display.source = .fresh entry ∧ w.client.cache display.req.pathname = some entry ∧
        milliseconds w.clock - entry.tc < w.client.fInterval ∧ Shows path w i display ∧
        (w.stamped display.req.pathname).1 ≤ i ∧ i ≤ (w.stamped display.req.pathname).2 ∧
        (w.stamped display.req.pathname).2 < s.instant := by
  obtain ⟨coherent, covered, turns⟩ := turns_reached initial orderly ran
  obtain ⟨_, entries⟩ := entries_reached initial ran
  obtain ⟨i, shows, origin⟩ := display_shows coherent entries covered
    (coherent.step stepped) displayed fun entry source => by
      obtain ⟨start, spaced⟩ := hit entry source
      obtain ⟨⟨_, _, timed⟩, stamped⟩ := stamped_reached initial spaced ran
      exact ⟨start, timed, stamped⟩
  have ⟨d, file, moment, found, data⟩ := shows
  have after (late : s.instant < i) : Shows path w (s.instant + 1) display := by
    obtain ⟨left, there⟩ := FileWorld.moment_some (le_trans late (FileWorld.moment_le moment))
    have same := turns.unchanged late there moment fun s' member' updates' named' =>
      Nat.lt_succ_of_le (last s' member' updates' named')
    exact ⟨left, file, there, same.symm.trans found, data⟩
  rcases origin with ⟨late, unchanging⟩ | ⟨entry, source, cached, fresh, late, validated⟩
  · left
    rcases turns.settled s member with waiting | early
    · rw [unchanging _ waiting] at updates
      contradiction
    · exact after (lt_of_lt_of_le early late)
  · rcases turns.stamps s member updates _ entry cached with before | early
    · exact .inr ⟨entry, i, source, cached, fresh, shows, late, validated, before⟩
    · exact .inl (after (lt_of_lt_of_le early late))

def writeTwo : Input := .write ⟨text "a", 0, text "xy"⟩ ⟨by decide, by decide, by simp [Request.numbers]⟩

/-- Two bytes are cached, then two others are written before them. -/
def readThenWrite : List FileAction :=
  [.tick 1000000000, .command readTwo] ++ answered 0 ++ answered 1 ++ [.command writeTwo] ++ answered 2

/-- The next read is a fresh hit on what was cached before the write. -/
theorem reads_own_updates_fails :
    oneReader.Initial ∧ Along oneStep Orderly oneReader readThenWrite ∧
      ∃ (w w' : FileWorld) (shown : List Seen) (seen : Seen) (s : Served) (d : FileSystem) (file : File),
        run oneStep oneReader readThenWrite = some (w, shown) ∧
        s ∈ w.served ∧ s.exchange.request = .write ⟨text "a", 0, text "xy"⟩ ∧ s.reply = [1] ∧
        w.moment (s.instant + 1) = some d ∧ FileSystem.file? [] d (text "a") = some file ∧
        file.content = text "xy123" ∧ oneStep w (.command readTwo) = some (w', seen) ∧
        seen.display.map Display.data = some (text "12") := by
  have orderly : checkAlong oneStep orderly oneReader readThenWrite = true := by decide +kernel
  have outcome : ((run oneStep oneReader readThenWrite).bind fun (w, _) => do
      let s ← w.served.getLast?
      let d ← w.moment (s.instant + 1)
      let file ← FileSystem.file? [] d (text "a")
      let (_, seen) ← oneStep w (.command readTwo)
      some (s.exchange.request, s.reply, file.content, seen.display.map Display.data)) =
      some (.write ⟨text "a", 0, text "xy"⟩, [1], text "xy123", some (text "12")) := by
    decide +kernel
  obtain ⟨⟨w, shown⟩, ran, rest⟩ := Option.bind_eq_some_iff.mp outcome
  obtain ⟨s, last, rest⟩ := Option.bind_eq_some_iff.mp rest
  obtain ⟨d, moment, rest⟩ := Option.bind_eq_some_iff.mp rest
  obtain ⟨file, found, rest⟩ := Option.bind_eq_some_iff.mp rest
  obtain ⟨⟨w', seen⟩, stepped, made⟩ := Option.bind_eq_some_iff.mp rest
  simp only [Option.some.injEq, Prod.mk.injEq] at made
  obtain ⟨request, reply, content, data⟩ := made
  exact ⟨oneReader_initial, along_of_check (fun _ _ => orderly_sound) orderly, w, w', shown, seen, s, d,
    file, ran, List.mem_of_getLast? last, request, reply, moment, found, content, stepped, data⟩

/-- Two bytes are written and then cached; the entry expires and is about to be validated. -/
def readExpired : List FileAction :=
  [.tick 1000000000, .command writeTwo] ++ answered 0 ++
    [.tick 1000000000, .command readTwo] ++ answered 1 ++ answered 2 ++
    [.tick 2000000000, .command readTwo, .transmit false, serves 3]

theorem reads_own_updates_expired :
    ∃ (w w' : FileWorld) (seen : Seen) (s : Served) (display : Display),
      oneStep w (.take 3) = some (w', seen) ∧ seen.display = some display ∧
      display.data = text "xy" ∧ s.exchange.request = .write ⟨text "a", 0, text "xy"⟩ ∧
      Shows [] w (s.instant + 1) display := by
  have orderly : checkAlong oneStep orderly oneReader readExpired = true := by decide +kernel
  have spaced : checkAlong oneStep (spaced []) oneReader readExpired = true := by decide +kernel
  have outcome : ((run oneStep oneReader readExpired).bind fun (w, _) => do
      let s ← w.served[0]?
      let (_, seen) ← oneStep w (.take 3)
      let display ← seen.display
      some (s.exchange.request, display, w.served.all fun s' =>
        !s'.exchange.request.updates || decide (s'.instant ≤ s.instant))) =
      some (.write ⟨text "a", 0, text "xy"⟩,
        ⟨⟨text "a", 0, 2⟩, text "xy", .validated ⟨2000, 1, 0, 2, text "xy"⟩⟩, true) := by
    decide +kernel
  obtain ⟨⟨w, shown⟩, ran, rest⟩ := Option.bind_eq_some_iff.mp outcome
  obtain ⟨s, served, rest⟩ := Option.bind_eq_some_iff.mp rest
  obtain ⟨⟨w', seen⟩, stepped, rest⟩ := Option.bind_eq_some_iff.mp rest
  obtain ⟨display, displayed, made⟩ := Option.bind_eq_some_iff.mp rest
  simp only [Option.some.injEq, Prod.mk.injEq] at made
  obtain ⟨request, rfl, order⟩ := made
  refine ⟨w, w', seen, s, _, stepped, displayed, rfl, request, ?_⟩
  have shows := reads_own_updates oneReader_initial
    (along_of_check (fun _ _ => orderly_sound) orderly) ran stepped displayed ?_
    (List.mem_of_getElem? served) (by rw [request]; rfl) ?_
  · rcases shows with there | ⟨_, _, source, _⟩
    · exact there
    · exact nomatch source
  · rintro entry (source | source)
    · obtain rfl := Source.validated.inj source
      exact ⟨rfl, along_of_check (fun _ _ => spaced_sound) spaced⟩
    · exact nomatch source
  · intro s' member updates _
    have bound := List.all_eq_true.mp order s' member
    simpa [updates] using bound

end RemoteFile.System
