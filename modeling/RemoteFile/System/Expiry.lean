import RemoteFile.System.Sessions

/-! What the timestamps of an entry decide. With a freshness interval that is not positive no
entry is ever fresh, and every read is checked with the server. Once the server reports
another time for a file than the entry has, the timestamps stay as they are for good: the
entry is filled again and again, but never again found valid. -/
namespace RemoteFile.System
open Octets Transition Server Client Stamps

variable {sem : InvocationSemantic} {path : Bytes} {addr : UDPAddr} {w w' : FileWorld} {a : FileAction}
  {seen : Seen} {display : Display} {entry : Entry} {pathname : Bytes}

namespace FileStep

theorem interval (stepped : fileStep sem path addr w a = some (w', seen)) :
    w'.client.fInterval = w.client.fInterval := by
  cases a with
  | tick nanoseconds =>
    simp only [fileStep] at stepped
    split at stepped <;> cases stepped
    rfl
  | adjust clock =>
    cases stepped
    rfl
  | update pathname content =>
    simp only [fileStep] at stepped
    split at stepped <;> cases stepped
    rfl
  | command input =>
    obtain ⟨client, commanded, made⟩ := Option.bind_eq_some_iff.mp stepped
    cases made
    exact Program.command_interval commanded
  | transmit sendFails =>
    obtain ⟨⟨client, exchange⟩, transmitted, made⟩ := Option.bind_eq_some_iff.mp stepped
    cases made
    exact Program.transmit_interval transmitted
  | timeout =>
    obtain ⟨client, timedOut, made⟩ := Option.bind_eq_some_iff.mp stepped
    cases made
    exact Program.timeout_interval timedOut
  | serve i env faults =>
    obtain ⟨exchange, _, rest⟩ := Option.bind_eq_some_iff.mp stepped
    obtain ⟨_, _, rest⟩ := Option.bind_eq_some_iff.mp rest
    obtain ⟨⟨server, reply⟩, _, made⟩ := Option.bind_eq_some_iff.mp rest
    cases made
    rfl
  | take i =>
    obtain ⟨s, _, rest⟩ := Option.bind_eq_some_iff.mp stepped
    obtain ⟨exchange, _, rest⟩ := Option.bind_eq_some_iff.mp rest
    dsimp only at rest
    split at rest
    case isFalse => contradiction
    case isTrue =>
      obtain ⟨client, took, made⟩ := Option.bind_eq_some_iff.mp rest
      cases made
      exact Program.take_interval took
  | listen datagram =>
    obtain ⟨client, listened, made⟩ := Option.bind_eq_some_iff.mp stepped
    cases made
    exact Program.listen_interval listened
  | expire k =>
    obtain ⟨store, _, made⟩ := Option.bind_eq_some_iff.mp stepped
    cases made
    rfl

/-- A display of a fresh entry: the time since its stamp is less than the interval. -/
theorem fresh_display (step : FileStep path w a w' seen) (displayed : seen.display = some display)
    (source : display.source = .fresh entry) :
    w.client.cache display.req.pathname = some entry ∧
      milliseconds w.clock - entry.tc < w.client.fInterval := by
  cases step.displays displayed with
  | fresh old same _ cached _ young =>
    obtain rfl := Source.fresh.inj (same.symm.trans source)
    exact ⟨cached, young⟩
  | server _ _ same | validated _ _ _ same => exact nomatch same.symm.trans source

end FileStep

/-! ### An interval that is not positive -/

/-- The client's clock is not set back. -/
def Forward (w : FileWorld) (a : FileAction) : Prop := ∀ clock, a = .adjust clock → w.clock ≤ clock

def forward (w : FileWorld) : FileAction → Bool
  | .adjust clock => decide (w.clock ≤ clock)
  | _ => true

theorem forward_sound (checked : forward w a = true) : Forward w a := by
  rintro clock rfl
  exact of_decide_eq_true checked

theorem FileStep.clock (ahead : Forward w a) (stepped : fileStep sem path addr w a = some (w', seen)) :
    w.clock ≤ w'.clock := by
  cases a with
  | tick nanoseconds =>
    simp only [fileStep] at stepped
    split at stepped <;> cases stepped
    exact le_add_of_nonneg_right (Int.natCast_nonneg _)
  | adjust clock =>
    cases stepped
    exact ahead clock rfl
  | update pathname content =>
    simp only [fileStep] at stepped
    split at stepped <;> cases stepped
    exact le_refl _
  | command | transmit | timeout | listen | expire =>
    obtain ⟨_, _, made⟩ := Option.bind_eq_some_iff.mp stepped
    cases made
    exact le_refl _
  | serve i env faults =>
    obtain ⟨_, _, rest⟩ := Option.bind_eq_some_iff.mp stepped
    obtain ⟨_, _, rest⟩ := Option.bind_eq_some_iff.mp rest
    obtain ⟨_, _, made⟩ := Option.bind_eq_some_iff.mp rest
    cases made
    exact le_refl _
  | take i =>
    obtain ⟨_, _, rest⟩ := Option.bind_eq_some_iff.mp stepped
    obtain ⟨_, _, rest⟩ := Option.bind_eq_some_iff.mp rest
    dsimp only at rest
    split at rest
    case isFalse => contradiction
    case isTrue =>
      obtain ⟨_, _, made⟩ := Option.bind_eq_some_iff.mp rest
      cases made
      exact le_refl _

/-- The client, which has set each stamp by its own clock, finds none in the future. -/
def StampsPast (w : FileWorld) : Prop :=
  ∀ pathname entry, w.client.cache pathname = some entry → entry.tc ≤ milliseconds w.clock

theorem StampsPast.preserved (stamps : StampsPast w) (step : FileStep path w a w' seen)
    (clock : w.clock ≤ w'.clock) : StampsPast w' := by
  intro pathname entry next
  have order := milliseconds_mono clock
  cases step.cached next with
  | kept cached => exact le_trans (stamps pathname entry cached) order
  | filled _ _ _ _ _ _ _ _ _ times kept made =>
    subst made
    rcases kept with rfl | ⟨old, cached, rfl⟩
    · exact order
    · exact le_trans (stamps pathname old cached) order
  | refreshed _ _ _ _ _ _ _ _ _ _ _ made =>
    subst made
    exact order

/-- With a freshness interval that is not positive, a read shows the file as it was at a
moment since the last turn of the client: after the command, or after the reply to the time
query of a read that also fetches. The client's clock is not set back. Of validated entries this
is said when they start at the beginning of the file and no file changes twice within one second. -/
theorem strict_reads {start : FileWorld} {as : List FileAction} {shown : List Seen}
    (initial : start.Initial) (strict : start.client.fInterval ≤ 0)
    (ahead : Along (fileStep sem path addr) Forward start as)
    (ran : run (fileStep sem path addr) start as = some (w, shown))
    (stepped : fileStep sem path addr w a = some (w', seen)) (displayed : seen.display = some display)
    (hit : ∀ entry, display.source = .validated entry →
      entry.startIdx = 0 ∧ Along (fileStep sem path addr) (Spaced sem path addr) start as) :
    ∃ i, w.began ≤ i ∧ Shows path w i display := by
  have none_cached : StampsPast start := by
    intro pathname entry cached
    rw [initial.client] at cached
    contradiction
  obtain ⟨coherent, covered, never, stamps⟩ : Coherent path w ∧ Covered w ∧ w.client.fInterval ≤ 0 ∧
      StampsPast w := by
    refine run_invariant (P := fun w => Coherent path w ∧ Covered w ∧ w.client.fInterval ≤ 0 ∧ StampsPast w)
      ?_ ⟨initial.coherent, initial.covered, strict, none_cached⟩ ahead ran
    rintro v b v' o ⟨coherent, covered, never, stamps⟩ ahead stepped
    have step := coherent.step stepped
    exact ⟨coherent.preserved stepped, covered.preserved step, le_of_eq_of_le (FileStep.interval stepped) never,
      stamps.preserved step (FileStep.clock ahead stepped)⟩
  have step := coherent.step stepped
  have expired : ∀ entry, display.source ≠ .fresh entry := by
    intro entry source
    obtain ⟨cached, fresh⟩ := step.fresh_display displayed source
    have past := stamps _ entry cached
    omega
  obtain ⟨_, entries⟩ := entries_reached initial ran
  obtain ⟨i, shows, origin⟩ := display_shows coherent entries covered step displayed fun entry source => by
    rcases source with validated | fresh
    · obtain ⟨start, spaced⟩ := hit entry validated
      obtain ⟨⟨_, _, timed⟩, stamped⟩ := stamped_reached initial spaced ran
      exact ⟨start, timed, stamped⟩
    · exact absurd fresh (expired entry)
  rcases origin with ⟨late, _⟩ | ⟨entry, source, _⟩
  · exact ⟨i, late, shows⟩
  · exact absurd source (expired entry)

/-- The reader without a freshness interval. -/
def strictReader : FileWorld := { oneReader with client := Program.start 0 }

theorem strictReader_initial : strictReader.Initial :=
  ⟨rfl, rfl, rfl, rfl, rfl, oneReader_initial.clock, oneReader_initial.modTimes⟩

/-- Two bytes are cached, and validated for the next read. -/
def readTwice : List FileAction :=
  [.tick 1000000000, .command readTwo] ++ answered 0 ++ answered 1 ++
    [.command readTwo, .transmit false, serves 2]

theorem strict_reads_validated : ∃ (w w' : FileWorld) (seen : Seen) (display : Display) (i : Nat),
    oneStep w (.take 2) = some (w', seen) ∧ seen.display = some display ∧
    display.source = .validated ⟨1000, 0, 0, 2, text "12"⟩ ∧ w.began ≤ i ∧ Shows [] w i display := by
  have spaced : checkAlong oneStep (spaced []) strictReader readTwice = true := by decide +kernel
  have ahead : checkAlong oneStep forward strictReader readTwice = true := by decide +kernel
  have outcome : ((run oneStep strictReader readTwice).bind fun (w, _) => do
      let (_, seen) ← oneStep w (.take 2)
      let display ← seen.display
      some display.source) = some (.validated ⟨1000, 0, 0, 2, text "12"⟩) := by
    decide +kernel
  obtain ⟨⟨w, shown⟩, ran, rest⟩ := Option.bind_eq_some_iff.mp outcome
  obtain ⟨⟨w', seen⟩, stepped, rest⟩ := Option.bind_eq_some_iff.mp rest
  obtain ⟨display, displayed, made⟩ := Option.bind_eq_some_iff.mp rest
  have source := Option.some.inj made
  obtain ⟨i, late, shows⟩ := strict_reads strictReader_initial (le_refl _)
    (along_of_check (fun _ _ => forward_sound) ahead) ran stepped displayed fun entry validated => by
      cases source.symm.trans validated
      exact ⟨rfl, along_of_check (fun _ _ => spaced_sound) spaced⟩
  exact ⟨w, w', seen, display, i, stepped, displayed, source, late, shows⟩

/-! ### Entries that the server has overtaken -/

/-- No file is dated in the future, and its modification time never goes back. -/
structure Dated (w : FileWorld) : Prop where
  order : (w.history ++ [w.disk]).Pairwise fun d d' => Grows second d.files d'.files
  past : ∀ name file, w.disk.files name = some file → second file ≤ w.disk.clock / 1000000000
  clock : Representable w.disk.clock
  modTimes : ∀ d ∈ w.history ++ [w.disk], ∀ name file, d.files name = some file →
    Representable file.modTime

theorem FileWorld.Initial.dated (initial : w.Initial)
    (past : ∀ name file, w.disk.files name = some file → file.modTime ≤ w.disk.clock) : Dated w where
  order := by
    rw [initial.history]
    exact List.pairwise_singleton ..
  past name file found := Int.ediv_le_ediv (by decide) (past name file found)
  clock := initial.clock
  modTimes := initial.timed.modTimes

namespace Dated

theorem grows (dated : Dated w) (step : FileStep path w a w' seen) :
    Grows second w.disk.files w'.disk.files := by
  cases step.drift with
  | passes files => exact files ▸ Grows.refl _
  | changes pathname _ content _ _ stored =>
    intro name file found
    rw [stored]
    by_cases here : name = concatenatePaths path pathname
    · subst here
      exact ⟨_, FileSystem.store_self .., dated.past _ file found⟩
    · exact ⟨file, (FileSystem.store_other _ _ here).trans found, le_refl _⟩

theorem past_next (dated : Dated w) (step : FileStep path w a w' seen) :
    ∀ name file, w'.disk.files name = some file → second file ≤ w'.disk.clock / 1000000000 := by
  intro name file found
  cases step.drift with
  | passes files clock =>
    rw [files] at found
    exact le_trans (dated.past name file found) (Int.ediv_le_ediv (by decide) clock)
  | changes pathname _ content _ _ stored =>
    rw [stored] at found ⊢
    by_cases here : name = concatenatePaths path pathname
    · subst here
      obtain rfl := Option.some.inj ((FileSystem.store_self ..).symm.trans found)
      exact le_refl _
    · exact dated.past name file ((FileSystem.store_other _ _ here).symm.trans found)

theorem preserved (dated : Dated w) (step : FileStep path w a w' seen) : Dated w' := by
  obtain ⟨clock, modTimes⟩ := step.representable dated.clock dated.modTimes
  refine ⟨?_, dated.past_next step, clock, modTimes⟩
  rw [step.history]
  exact pairwise_concat Grows.trans dated.order (dated.grows step)

/-- A file that was there is there later, with a time that is not lower. -/
theorem later (dated : Dated w) {i j : Nat} {d d' : FileSystem} {file file' : File} (order : i ≤ j)
    (before : w.moment i = some d) (after : w.moment j = some d')
    (found : FileSystem.file? path d pathname = some file)
    (found' : FileSystem.file? path d' pathname = some file') : second file ≤ second file' := by
  obtain ⟨next, present, raised⟩ :=
    pairwise_at (fun d => Grows.refl d.files) dated.order order before after _ file found
  obtain rfl := Option.some.inj (present.symm.trans found')
  exact raised

end Dated

/-- From moment `m` on the file has a later time than `tmclient`, and the client waits for
nothing that has been answered before. -/
structure Overtaken (path : Bytes) (w : FileWorld) (pathname : Bytes) (tmclient : Int64) (m : Nat) :
    Prop where
  changed : ∃ t d file, Representable t ∧ tmclient = unix t ∧ w.moment m = some d ∧
    FileSystem.file? path d pathname = some file ∧ t / 1000000000 < second file
  waiting : w.client.exchange? = none ∨ m ≤ w.began

namespace Overtaken

variable {tc : Int} {tmclient : Int64} {m : Nat}

theorem preserved (overtaken : Overtaken path w pathname tmclient m) (step : FileStep path w a w' seen) :
    Overtaken path w' pathname tmclient m := by
  obtain ⟨⟨t, d, file, range, reported, moment, rest⟩, waiting⟩ := overtaken
  refine ⟨⟨t, d, file, range, reported, step.moment moment, rest⟩, ?_⟩
  rcases step.turn with ⟨exchange, _, began⟩ | ⟨_, began⟩
  · rwa [exchange, began]
  · right
    rw [began]
    exact Nat.le_succ_of_le (FileWorld.moment_le moment)

/-- No reply to a time query reports the old time again. -/
theorem unrefreshed (overtaken : Overtaken path w pathname tmclient m) (coherent : Coherent path w)
    (dated : Dated w) {s : Served} (among : s ∈ w.served)
    (current : w.client.exchange? = some s.exchange) {expired : Bool} {req : ReadRequest} {x : UInt64}
    (pending : s.exchange.pending = .time expired req) (reports : ReportsTime s.reply x)
    (same : req.pathname = pathname) : tmclient ≠ x.toInt64 := by
  subst same
  rintro rfl
  obtain ⟨⟨t, d, file, range, reported, moment, found, raised⟩, waiting⟩ := overtaken
  have late : m ≤ s.instant := by
    rcases waiting with idle | early
    · rw [idle] at current
      contradiction
    · exact le_trans early (coherent.own s among current)
  have request := ((coherent.served s among).1.timeQuery pending).1
  obtain ⟨d', file', moment', found', time⟩ :=
    coherent.reported_time ⟨s, among, rfl, request, x, reports, rfl⟩
  have equal : t / 1000000000 = second file' :=
    unix_inj range (dated.modTimes d' (List.mem_of_getElem? moment') _ file' found')
      (reported.symm.trans time)
  have order := dated.later late moment moment' found found'
  omega

/-- The entry may be filled again, with the timestamps that it has. -/
theorem frozen (overtaken : Overtaken path w pathname entry.tmclient m) (coherent : Coherent path w)
    (dated : Dated w) (step : FileStep path w a w' seen)
    (cached : w.client.cache pathname = some entry) :
    ∃ next, w'.client.cache pathname = some next ∧ next.tc = entry.tc ∧ next.tmclient = entry.tmclient := by
  have kept (cache : w'.client.cache = w.client.cache) : ∃ next, w'.client.cache pathname = some next ∧
      next.tc = entry.tc ∧ next.tmclient = entry.tmclient :=
    ⟨entry, (congrFun cache pathname).trans cached, rfl, rfl⟩
  cases step.move with
  | quiet cache => exact kept cache
  | serves _ _ _ _ _ client => exact kept (congrArg Program.cache client)
  | commands _ _ did => exact kept did.cache_same
  | takes s among current took =>
    cases took with
    | ended cache | asked _ _ _ _ _ cache => exact kept cache
    | filled req tmserver content _ _ cache =>
      by_cases same : pathname = req.pathname
      · subst same
        rw [cache, Function.update_self]
        refine ⟨_, rfl, ?_, ?_⟩ <;> simp only [Entry.stamped, Cache.timestamps, cached]
      · rw [cache, Function.update_of_ne same]
        exact ⟨entry, cached, rfl, rfl⟩
    | refreshed req x old data pending reports cached' unchanged cache =>
      by_cases same : pathname = req.pathname
      · subst same
        cases cached.symm.trans cached'
        exact absurd unchanged (overtaken.unrefreshed coherent dated among current pending reports rfl)
      · rw [cache, Function.update_of_ne same]
        exact ⟨entry, cached, rfl, rfl⟩

theorem unvalidated (overtaken : Overtaken path w pathname entry.tmclient m) (coherent : Coherent path w)
    (dated : Dated w) (step : FileStep path w a w' seen) (cached : w.client.cache pathname = some entry)
    (displayed : seen.display = some display) (same : display.req.pathname = pathname) (old : Entry) :
    display.source ≠ .validated old := by
  intro source
  cases step.displays displayed with
  | fresh _ other | server _ _ other => exact nomatch other.symm.trans source
  | validated s x held _ among current pending reports cached' unchanged =>
    subst same
    cases cached.symm.trans cached'
    exact overtaken.unrefreshed coherent dated among current pending reports rfl unchanged

end Overtaken

/-- Once the client is outside of an exchange and the server has another time for a file than
its entry, both timestamps of the entry stay as they are for good: filling it again does not
move them. Whenever its stamp has expired, a read of the file is answered by the server, and
shows the file as it was since the last turn of the client. No file is dated in the future at
the start. -/
theorem overtaken_never_used {start v : FileWorld} {as bs : List FileAction} {shown more : List Seen}
    {file : File} (initial : start.Initial)
    (past : ∀ name file, start.disk.files name = some file → file.modTime ≤ start.disk.clock)
    (ran : run (fileStep sem path addr) start as = some (w, shown))
    (outside : w.client.exchange? = none) (cached : w.client.cache pathname = some entry)
    (found : FileSystem.file? path w.disk pathname = some file)
    (changed : entry.tmclient ≠ unix file.modTime)
    (later : run (fileStep sem path addr) w bs = some (v, more)) :
    (∃ next, v.client.cache pathname = some next ∧ next.tc = entry.tc ∧
      next.tmclient = entry.tmclient) ∧
    ∀ a v' seen display, fileStep sem path addr v a = some (v', seen) → seen.display = some display →
      display.req.pathname = pathname →
      v.client.fInterval ≤ milliseconds v.clock - entry.tc →
      display.source = .server ∧ ∃ i, v.began ≤ i ∧ Shows path v i display := by
  obtain ⟨coherent, covered, entries, dated⟩ : Coherent path w ∧ Covered w ∧ Entries path w ∧ Dated w := by
    refine run_always (P := fun w => Coherent path w ∧ Covered w ∧ Entries path w ∧ Dated w) ?_
      ⟨initial.coherent, initial.covered, initial.entries, initial.dated past⟩ ran
    rintro v b v' o ⟨coherent, covered, entries, dated⟩ stepped
    have step := coherent.step stepped
    exact ⟨coherent.preserved stepped, covered.preserved step, entries.preserved coherent step,
      dated.preserved step⟩
  have overtaken : Overtaken path w pathname entry.tmclient w.now := by
    obtain ⟨_, i, k, order, early, reported, _⟩ := entries.cached pathname entry cached
    obtain ⟨d, old, moment, found', time⟩ := coherent.reported_time reported
    have before := dated.later (le_trans order (le_trans early coherent.began)) moment w.moment_now found' found
    have other : second old ≠ second file := by
      intro same
      apply changed
      rw [time, unix, unix]
      exact congrArg Int64.ofInt same
    exact ⟨⟨old.modTime, w.disk, file, dated.modTimes d (List.mem_of_getElem? moment) _ old found', time,
      w.moment_now, found, lt_of_le_of_ne before other⟩, .inl outside⟩
  obtain ⟨coherent, covered, entries, dated, overtaken, next, kept, tc, tmclient⟩ :
      Coherent path v ∧ Covered v ∧ Entries path v ∧ Dated v ∧
      Overtaken path v pathname entry.tmclient w.now ∧ ∃ next, v.client.cache pathname = some next ∧
        next.tc = entry.tc ∧ next.tmclient = entry.tmclient := by
    refine run_always (P := fun v => Coherent path v ∧ Covered v ∧ Entries path v ∧ Dated v ∧
      Overtaken path v pathname entry.tmclient w.now ∧ ∃ next, v.client.cache pathname = some next ∧
        next.tc = entry.tc ∧ next.tmclient = entry.tmclient) ?_
      ⟨coherent, covered, entries, dated, overtaken, entry, cached, rfl, rfl⟩ later
    rintro u b u' o ⟨coherent, covered, entries, dated, overtaken, next, kept, tc, tmclient⟩ stepped
    have step := coherent.step stepped
    obtain ⟨next', kept', tc', tmclient'⟩ := (tmclient ▸ overtaken).frozen coherent dated step kept
    exact ⟨coherent.preserved stepped, covered.preserved step, entries.preserved coherent step,
      dated.preserved step, overtaken.preserved step, next', kept', tc'.trans tc, tmclient'.trans tmclient⟩
  refine ⟨⟨next, kept, tc, tmclient⟩, ?_⟩
  intro a v' seen display stepped displayed same expired
  have step := coherent.step stepped
  have unfresh : ∀ old, display.source ≠ .fresh old := by
    intro old source
    obtain ⟨held, fresh⟩ := step.fresh_display displayed source
    rw [same] at held
    cases kept.symm.trans held
    omega
  have unvalidated := (tmclient ▸ overtaken).unvalidated coherent dated step kept displayed same
  constructor
  · cases source : display.source with
    | server => rfl
    | validated old => exact absurd source (unvalidated old)
    | fresh old => exact absurd source (unfresh old)
  · obtain ⟨i, shows, origin⟩ := display_shows coherent entries covered step displayed fun old source =>
      source.elim (fun source => absurd source (unvalidated old)) fun source => absurd source (unfresh old)
    rcases origin with ⟨late, _⟩ | ⟨old, source, _⟩
    · exact ⟨i, late, shows⟩
    · exact absurd source (unfresh old)

/-- Two bytes are cached, and another client changes the file. -/
def readThenChanged : List FileAction :=
  [.tick 1000000000, .command readTwo] ++ answered 0 ++ answered 1 ++
    [.update (text "a") (text "xyz"), .tick 2000000000]

/-- They are fetched again, and two seconds later once more. -/
def readAgain : List FileAction :=
  [.command readTwo] ++ answered 2 ++ answered 3 ++
    [.tick 2000000000, .command readTwo] ++ answered 4 ++ [.transmit false, serves 5]

theorem overtaken_never_used_again : ∃ (v v' : FileWorld) (seen : Seen) (display : Display) (next : Entry),
    oneStep v (.take 5) = some (v', seen) ∧ seen.display = some display ∧
    v.client.cache (text "a") = some next ∧ next.filecontent = text "xy" ∧ next.tc = 1000 ∧
    next.tmclient = 0 ∧ display.source = .server ∧ ∃ i, v.began ≤ i ∧ Shows [] v i display := by
  have outcome : ((run oneStep oneReader readThenChanged).bind fun (w, _) => do
      let entry ← w.client.cache (text "a")
      let file ← FileSystem.file? [] w.disk (text "a")
      let (v, _) ← run oneStep w readAgain
      let next ← v.client.cache (text "a")
      let (_, seen) ← oneStep v (.take 5)
      let display ← seen.display
      some (decide (w.client.exchange? = none), entry, file.modTime, next.filecontent,
        decide (display.req.pathname = text "a"),
        decide (v.client.fInterval ≤ milliseconds v.clock - 1000))) =
      some (true, ⟨1000, 0, 0, 2, text "12"⟩, 1000000000, text "xy", true, true) := by
    decide +kernel
  obtain ⟨⟨w, shown⟩, ran, rest⟩ := Option.bind_eq_some_iff.mp outcome
  obtain ⟨entry, cached, rest⟩ := Option.bind_eq_some_iff.mp rest
  obtain ⟨file, found, rest⟩ := Option.bind_eq_some_iff.mp rest
  obtain ⟨⟨v, more⟩, later, rest⟩ := Option.bind_eq_some_iff.mp rest
  obtain ⟨next, kept, rest⟩ := Option.bind_eq_some_iff.mp rest
  obtain ⟨⟨v', seen⟩, stepped, rest⟩ := Option.bind_eq_some_iff.mp rest
  obtain ⟨display, displayed, made⟩ := Option.bind_eq_some_iff.mp rest
  simp only [Option.some.injEq, Prod.mk.injEq, decide_eq_true_eq] at made
  obtain ⟨outside, rfl, modTime, content, same, expired⟩ := made
  have past : ∀ name file, oneReader.disk.files name = some file → file.modTime ≤ oneReader.disk.clock := by
    intro name file found
    obtain ⟨_, made⟩ := Option.ite_none_right_eq_some.mp found
    cases made
    exact le_refl _
  obtain ⟨⟨frozen, kept', tc, tmclient⟩, server⟩ := overtaken_never_used oneReader_initial past ran
    outside cached found (by rw [modTime]; decide) later
  cases kept.symm.trans kept'
  obtain ⟨source, moment⟩ := server _ v' seen display stepped displayed same expired
  exact ⟨v, v', seen, display, next, stepped, displayed, kept, content, tc, tmclient, source, moment⟩

end RemoteFile.System
