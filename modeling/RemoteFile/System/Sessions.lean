import RemoteFile.System.OwnUpdates

/-! What a client sees over a whole session. The contents that it is shown of a file never
go back in time, whatever else happens to the file; and a client whose entries are never
fresh is shown each range as the file had it while the read was under way. -/
namespace RemoteFile.System
open Octets Cpp Cpp.Outcome Transition Server Client Stamps

variable {sem : InvocationSemantic} {path : Bytes} {addr : UDPAddr} {w w' : FileWorld} {a : FileAction}
  {seen : Seen} {display : Display} {recalled : List (Nat × Display)}

/-- Content that comes from the cache comes from an entry that starts at the beginning of
the file. -/
def Display.FromStart (display : Display) : Prop :=
  ∀ entry, display.source = .validated entry ∨ display.source = .fresh entry → entry.startIdx = 0

/-- Where the content starts that the source is. -/
def Source.startIdx : Source → UInt32
  | server => 0
  | validated entry | fresh entry => entry.startIdx

theorem Display.fromStart_iff {display : Display} : display.FromStart ↔ display.source.startIdx = 0 := by
  unfold FromStart
  cases display.source <;> simp [Source.startIdx]

instance (display : Display) : Decidable display.FromStart := decidable_of_iff' _ Display.fromStart_iff

/-- The displays of a session, each with a moment at which the file was as shown. The
moments of one file are in order, and each of its entries was held at a later one. -/
structure Recalled (path : Bytes) (w : FileWorld) (recalled : List (Nat × Display)) : Prop where
  shows : ∀ x ∈ recalled, Shows path w x.1 x.2
  past : ∀ x ∈ recalled, x.1 < w.began
  order : recalled.Pairwise fun a b => a.2.req.pathname = b.2.req.pathname → a.1 ≤ b.1
  cached : ∀ pathname entry, w.client.cache pathname = some entry →
    ∃ j, w.Held path pathname entry j ∧ ∀ x ∈ recalled, x.2.req.pathname = pathname → x.1 ≤ j

theorem FileStep.shows (step : FileStep path w a w' seen) {i : Nat} (before : Shows path w i display) :
    Shows path w' i display := by
  obtain ⟨d, file, moment, rest⟩ := before
  exact ⟨d, file, step.moment moment, rest⟩

/-- Each entry of the cache was there before, or the file had it whenever it had the one that
was. -/
def Inherits (path : Bytes) (w w' : FileWorld) : Prop :=
  ∀ pathname entry, w'.client.cache pathname = some entry → ∃ old,
    w.client.cache pathname = some old ∧ ∀ i, w.Held path pathname old i → w.Held path pathname entry i

theorem Inherits.of_same (cache : w'.client.cache = w.client.cache) : Inherits path w w' := by
  intro pathname entry next
  exact ⟨entry, cache ▸ next, fun _ => id⟩

/-- A new validation time changes nothing of what an entry holds. -/
theorem Inherits.of_refreshed {pathname : Bytes} {entry : Entry} {now : Int}
    (cached : w.client.cache pathname = some entry)
    (cache : w'.client.cache = Function.update w.client.cache pathname (some { entry with tc := now })) :
    Inherits path w w' := by
  intro name other next
  rw [cache] at next
  by_cases here : name = pathname
  · subst here
    rw [Function.update_self, Option.some.injEq] at next
    subst next
    exact ⟨entry, cached, fun _ => id⟩
  · rw [Function.update_of_ne here] at next
    exact ⟨other, next, fun _ => id⟩

/-- Only content from the server, which is shown from the start, replaces an entry. -/
theorem FileStep.inherits (step : FileStep path w a w' seen)
    (passed : ∀ display, seen.display = some display → ¬ display.FromStart) : Inherits path w w' := by
  cases step.move with
  | quiet cache => exact .of_same cache
  | serves _ _ _ _ _ client => exact .of_same (congrArg Program.cache client)
  | commands _ _ did => exact .of_same did.cache_same
  | takes s _ _ took _ _ _ _ _ sees =>
    cases took with
    | ended cache | asked _ _ _ _ _ cache => exact .of_same cache
    | refreshed _ _ _ _ _ _ cached _ cache => exact .of_refreshed cached cache
    | filled req tmserver content pending _ _ _ shows =>
      refine absurd (Display.fromStart_iff.mpr rfl) (passed ⟨req, content, .server⟩ ?_)
      rw [sees, pending, displayTaken, shows, Option.map_some]

/-- What a step shows is added to the displays, but for hits on entries that start at an
offset. -/
def Recalls (path : Bytes) (w' : FileWorld) (recalled : List (Nat × Display)) (seen : Seen) : Prop :=
  ∃ more, more.map Prod.snd = seen.display.toList.filter (·.FromStart) ∧
    Recalled path w' (recalled ++ more)

namespace Recalled

theorem kept (record : Recalled path w recalled) (coherent : Coherent path w) (step : FileStep path w a w' seen)
    (inherits : Inherits path w w') : Recalled path w' recalled where
  shows x member := step.shows (record.shows x member)
  past x member := lt_of_lt_of_le (record.past x member) (step.began_le coherent)
  order := record.order
  cached pathname entry next := by
    obtain ⟨old, cached, same⟩ := inherits pathname entry next
    obtain ⟨j, held, late⟩ := record.cached pathname old cached
    exact ⟨j, step.held (same j held), late⟩

/-- A step that shows nothing, or nothing from the start of a file. -/
theorem skips (record : Recalled path w recalled) (coherent : Coherent path w) (step : FileStep path w a w' seen)
    (inherits : Inherits path w w') (passed : ∀ display, seen.display = some display → ¬ display.FromStart) :
    Recalls path w' recalled seen := by
  refine ⟨[], ?_, ?_⟩
  · cases shown : seen.display with
    | none => rfl
    | some display =>
      rw [Option.toList_some, List.filter_cons_of_neg (by simpa using passed display shown)]
      rfl
  · rw [List.append_nil]
    exact record.kept coherent step inherits

/-- A step that shows a file as it was at moment `i`, and leaves an entry that the file had
then or later. -/
theorem concat (record : Recalled path w recalled) (coherent : Coherent path w)
    (step : FileStep path w a w' seen) (began : w'.began = w.now + 1) {i : Nat} {entry : Entry}
    (here : Shows path w i display)
    (late : ∀ x ∈ recalled, x.2.req.pathname = display.req.pathname → x.1 ≤ i)
    (held : w.Held path display.req.pathname entry i)
    (cache : w'.client.cache = Function.update w.client.cache display.req.pathname (some entry)) :
    Recalled path w' (recalled ++ [(i, display)]) where
  shows := by
    refine List.forall_mem_append.mpr ⟨?_, List.forall_mem_singleton.mpr (step.shows here)⟩
    intro x member
    exact step.shows (record.shows x member)
  past := by
    refine List.forall_mem_append.mpr ⟨?_, List.forall_mem_singleton.mpr ?_⟩
    · intro x member
      exact lt_of_lt_of_le (record.past x member) (step.began_le coherent)
    · obtain ⟨_, _, moment, _⟩ := here
      rw [began]
      exact Nat.lt_succ_of_le (FileWorld.moment_le moment)
  order := by
    apply List.pairwise_append.mpr
    refine ⟨record.order, List.pairwise_singleton _ _, ?_⟩
    intro x member y last
    obtain rfl := List.mem_singleton.mp last
    exact late x member
  cached pathname other next := by
    rw [cache] at next
    by_cases same : pathname = display.req.pathname
    · subst same
      rw [Function.update_self, Option.some.injEq] at next
      subst next
      exact ⟨i, step.held held, List.forall_mem_append.mpr
        ⟨late, List.forall_mem_singleton.mpr fun _ => le_refl i⟩⟩
    · rw [Function.update_of_ne same] at next
      obtain ⟨j, held', late'⟩ := record.cached pathname other next
      exact ⟨j, step.held held', List.forall_mem_append.mpr
        ⟨late', List.forall_mem_singleton.mpr fun here => absurd here.symm same⟩⟩

/-- What is shown out of the cache is the file as it was when it had the entry. -/
theorem hit {entry : Entry} {j : Nat} (prompted : Prompted (.read display.req))
    (cached : w.client.cache display.req.pathname = some entry)
    (inCache : fileInCache w.client.cache display.req.pathname display.req.offset display.req.numBytes = true)
    (start : entry.startIdx = 0) (held : w.Held path display.req.pathname entry j)
    (read : cacheRead w.client.cache display.req.pathname display.req.offset display.req.numBytes =
      returns display.data) : Shows path w j display := by
  obtain ⟨d, file, moment, found, inside, content⟩ := held
  exact ⟨d, file, moment, found, prefix_read prompted cached start inside content inCache read⟩

/-- The step of `concat`, with its display. -/
theorem adds (record : Recalled path w recalled) (coherent : Coherent path w)
    (step : FileStep path w a w' seen) (began : w'.began = w.now + 1) {i : Nat} {entry : Entry}
    (shown : seen.display = some display) (plain : display.FromStart) (here : Shows path w i display)
    (late : ∀ x ∈ recalled, x.2.req.pathname = display.req.pathname → x.1 ≤ i)
    (held : w.Held path display.req.pathname entry i)
    (cache : w'.client.cache = Function.update w.client.cache display.req.pathname (some entry)) :
    Recalls path w' recalled seen := by
  refine ⟨[(i, display)], ?_, record.concat coherent step began here late held cache⟩
  rw [shown, Option.toList_some, List.filter_cons_of_pos (by simpa using plain)]
  rfl

theorem preserved (record : Recalled path w recalled) (coherent : Coherent path w) (covered : Covered w)
    (step : FileStep path w a w' seen) : Recalls path w' recalled seen := by
  by_cases passed : ∀ display, seen.display = some display → ¬ display.FromStart
  · exact record.skips coherent step (step.inherits passed) passed
  push Not at passed
  obtain ⟨display, shown, plain⟩ := passed
  cases step.displays shown with
  | fresh entry source prompted cached inCache _ read cache began =>
    obtain ⟨j, held, late⟩ := record.cached _ entry cached
    have here := hit prompted cached inCache (plain entry (.inr source)) held read
    refine record.adds coherent step began shown plain here late held ?_
    rw [cache, ← cached, Function.update_eq_self]
  | server s tmserver _ among current pending reports cache began =>
    have request := (coherent.served s among).1.readRequest pending
    have own := coherent.own s among current
    obtain ⟨d, moment, truthful⟩ := coherent.truthful s among
    obtain ⟨file, found, _, _, same⟩ := truthful.content _ _ request reports
    obtain ⟨_, held⟩ := coherent.read_held among pending reports
      (w.client.cache.timestamps display.req.pathname (milliseconds w.clock) tmserver).1
      (w.client.cache.timestamps display.req.pathname (milliseconds w.clock) tmserver).2
    refine record.adds coherent step began shown plain ⟨d, file, moment, found, same⟩ ?_ held cache
    intro x member _
    exact le_of_lt (lt_of_lt_of_le (record.past x member) own)
  | validated s t entry source among current pending _ cached _ read cache began =>
    obtain ⟨_, prompted⟩ := (coherent.served s among).1.timeQuery pending
    obtain ⟨j, held, late⟩ := record.cached _ entry cached
    have inCache := covered _ _ current pending
    have here := hit prompted cached inCache (plain entry (.inl source)) held read
    have held' : w.Held path display.req.pathname { entry with tc := milliseconds w.clock } j := held
    exact record.adds coherent step began shown plain here late held' cache

end Recalled

/-! ### Reads do not go back in time -/

/-- The displays of a session. -/
def displays (shown : List Seen) : List Display := shown.filterMap Seen.display

theorem displays_concat (shown : List Seen) (o : Seen) :
    displays (shown ++ [o]) = displays shown ++ o.display.toList := by
  cases shows : o.display with
  | none | some => simp [displays, shows]

/-- In every session, whoever else updates the files: what a client is shown of a file is
the file as it was at moments that never go back, so that a later read does not show an
older content. Hits on entries that start at an offset are passed over. -/
theorem reads_monotonic {start : FileWorld} {as : List FileAction} {shown : List Seen}
    (initial : start.Initial) (ran : run (fileStep sem path addr) start as = some (w, shown)) :
    ∃ recalled : List (Nat × Display), recalled.map Prod.snd = (displays shown).filter (·.FromStart) ∧
      (∀ x ∈ recalled, Shows path w x.1 x.2) ∧
      recalled.Pairwise fun a b => a.2.req.pathname = b.2.req.pathname → a.1 ≤ b.1 := by
  suffices invariant : Coherent path w ∧ Covered w ∧
      ∃ recalled, recalled.map Prod.snd = (displays shown).filter (·.FromStart) ∧ Recalled path w recalled by
    obtain ⟨_, _, recalled, displayed, record⟩ := invariant
    exact ⟨recalled, displayed, record.shows, record.order⟩
  have always : Along (fileStep sem path addr) (fun _ _ => True) start as := along_of_forall fun _ _ => trivial
  refine run_record (P := fun w shown => Coherent path w ∧ Covered w ∧
    ∃ recalled, recalled.map Prod.snd = (displays shown).filter (·.FromStart) ∧ Recalled path w recalled)
    ?_ ?_ always ran
  · rintro v b v' o past ⟨coherent, covered, recalled, displayed, record⟩ _ stepped
    have step := coherent.step stepped
    obtain ⟨more, own, next⟩ := record.preserved coherent covered step
    refine ⟨coherent.preserved stepped, covered.preserved step, recalled ++ more, ?_, next⟩
    rw [displays_concat, List.filter_append, List.map_append, displayed, own]
  · refine ⟨initial.coherent, initial.covered, [], rfl, nofun, nofun, List.Pairwise.nil, ?_⟩
    intro pathname entry cached
    rw [initial.client] at cached
    contradiction

/-- Two bytes are read twice, and once more after an update. -/
def readThrice : List FileAction :=
  [.tick 1000000000, .command readTwo] ++ answered 0 ++ answered 1 ++
    [.command readTwo, .update (text "a") (text "xyz"), .tick 2000000000, .command readTwo] ++
    answered 2 ++ answered 3

theorem reads_monotonic_thrice : ∃ (w : FileWorld) (recalled : List (Nat × Display)),
    recalled.map (fun x => x.2.data) = [text "12", text "12", text "xy"] ∧
    (∀ x ∈ recalled, Shows [] w x.1 x.2) ∧
    recalled.Pairwise fun a b => a.2.req.pathname = b.2.req.pathname → a.1 ≤ b.1 := by
  have outcome : (run oneStep oneReader readThrice).map (fun r => displays r.2) =
      some [⟨⟨text "a", 0, 2⟩, text "12", .server⟩,
        ⟨⟨text "a", 0, 2⟩, text "12", .fresh ⟨1000, 0, 0, 2, text "12"⟩⟩,
        ⟨⟨text "a", 0, 2⟩, text "xy", .server⟩] := by
    decide +kernel
  obtain ⟨⟨w, shown⟩, ran, shows⟩ := Option.map_eq_some_iff.mp outcome
  obtain ⟨recalled, displayed, moments, order⟩ := reads_monotonic oneReader_initial ran
  refine ⟨w, recalled, ?_, moments, order⟩
  rw [shows] at displayed
  have data := congrArg (List.map Display.data) displayed
  rw [List.map_map] at data
  exact data

end RemoteFile.System
