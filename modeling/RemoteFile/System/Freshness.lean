import RemoteFile.System.Validation

/-! How stale a fresh hit can be. The client stamps an entry when it takes a reply, by
its own clock; the server looked at the file at some moment since the request was made. -/
namespace RemoteFile.System
open Octets Transition Server Client Stamps

variable {sem : InvocationSemantic} {path : Bytes} {addr : UDPAddr} {w w' : FileWorld} {a : FileAction}
  {seen : Seen} {pathname : Bytes} {entry : Entry}

/-- The file had the bytes of each entry at a moment of the exchange that last changed the
entry. -/
def Stamped (path : Bytes) (w : FileWorld) : Prop :=
  ∀ pathname entry, w.client.cache pathname = some entry →
    ∃ i, (w.stamped pathname).1 ≤ i ∧ i ≤ (w.stamped pathname).2 ∧ w.Held path pathname entry i

theorem milliseconds_mono {s t : Int} (order : s ≤ t) : milliseconds s ≤ milliseconds t :=
  Int.ediv_le_ediv (by decide) order

namespace FileStep

/-- Only an entry that changes is recorded, with the exchange that ends. -/
theorem stamped (step : FileStep path w a w' seen) : w'.stamped pathname =
    if w'.client.cache pathname = w.client.cache pathname then w.stamped pathname
    else (w.began, w.now) := by
  have kept (cache : w'.client.cache = w.client.cache) (stamped : w'.stamped = w.stamped) :
      w'.stamped pathname = if w'.client.cache pathname = w.client.cache pathname
        then w.stamped pathname else (w.began, w.now) := by
    rw [if_pos (congrFun cache pathname), stamped]
  cases step.move with
  | quiet cache _ _ _ _ _ stamped => exact kept cache stamped
  | serves _ _ _ _ _ client _ _ _ stamped => exact kept (congrArg Program.cache client) stamped
  | commands _ _ did _ _ _ _ stamped => exact kept did.cache_same stamped
  | takes _ _ _ _ _ _ _ _ stamped => exact stamped pathname

end FileStep

theorem FileWorld.Initial.stamped (initial : w.Initial) : Stamped path w := by
  intro pathname entry cached
  rw [initial.client] at cached
  contradiction

theorem Stamped.preserved (stamped : Stamped path w) (coherent : Coherent path w)
    (entries : Entries path w) (timed : Timed w) (step : FileStep path w a w' seen) :
    Stamped path w' := by
  intro pathname entry next
  rw [step.stamped]
  by_cases same : w'.client.cache pathname = w.client.cache pathname
  · rw [if_pos same]
    obtain ⟨i, after, early, held⟩ := stamped pathname entry (same ▸ next)
    exact ⟨i, after, early, step.held held⟩
  · rw [if_neg same]
    cases step.cached next with
    | kept cached => exact absurd (next.trans cached.symm) same
    | filled s among current req tmserver content here pending reports times kept made =>
      subst here made
      obtain ⟨_, held⟩ := coherent.read_held among pending reports times.1 times.2
      exact ⟨s.instant, coherent.own s among current, coherent.instant_le among, step.held held⟩
    | refreshed s among current req x old here pending reports cached unchanged made =>
      subst here made
      have held := coherent.validated_held entries timed among current pending reports cached unchanged
      exact ⟨s.instant, coherent.own s among current, coherent.instant_le among, step.held held⟩

theorem stamped_reached {start : FileWorld} {as : List FileAction} {shown : List Seen}
    (initial : start.Initial) (spaced : Along (fileStep sem path addr) (Spaced sem path addr) start as)
    (ran : run (fileStep sem path addr) start as = some (w, shown)) :
    (Coherent path w ∧ Entries path w ∧ Timed w) ∧ Stamped path w := by
  refine run_invariant (P := fun w => (Coherent path w ∧ Entries path w ∧ Timed w) ∧ Stamped path w) ?_
    ⟨⟨initial.coherent, initial.entries, initial.timed⟩, initial.stamped⟩ spaced ran
  rintro v b v' o ⟨⟨coherent, entries, timed⟩, stamped⟩ ok stepped
  have step := coherent.step stepped
  exact ⟨⟨coherent.preserved stepped, entries.preserved coherent step, timed.preserved step ok stepped⟩,
    stamped.preserved coherent entries timed step⟩

/-! ### Clocks that agree -/

/-- The clocks of the client and of the server agree. -/
def Agree (w : FileWorld) (_ : FileAction) : Prop := w.clock = w.disk.clock

instance : Decidable (Agree w a) := inferInstanceAs (Decidable (_ = _))

/-- The stamp of each entry is no later than the clock at the end of the exchange that last
changed the entry. Filling an entry again does not move its stamp. -/
def Clocked (w : FileWorld) : Prop :=
  ∀ pathname entry, w.client.cache pathname = some entry →
    ∃ d, w.moment (w.stamped pathname).2 = some d ∧ entry.tc ≤ milliseconds d.clock

theorem FileWorld.Initial.clocked (initial : w.Initial) : Clocked w := by
  intro pathname entry cached
  rw [initial.client] at cached
  contradiction

theorem Clocked.preserved (clocked : Clocked w) (timed : Timed w) (agree : Agree w a)
    (step : FileStep path w a w' seen) : Clocked w' := by
  intro pathname entry next
  rw [step.stamped]
  by_cases same : w'.client.cache pathname = w.client.cache pathname
  · rw [if_pos same]
    obtain ⟨d, moment, early⟩ := clocked pathname entry (same ▸ next)
    exact ⟨d, step.moment moment, early⟩
  · rw [if_neg same]
    refine ⟨w.disk, step.moment w.moment_now, ?_⟩
    rw [← agree]
    cases step.cached next with
    | kept cached => exact absurd (next.trans cached.symm) same
    | filled _ _ _ _ _ _ _ _ _ times kept made =>
      subst made
      rcases kept with rfl | ⟨old, cached, rfl⟩
      · exact le_refl _
      · obtain ⟨d, moment, early⟩ := clocked pathname old cached
        have order := pairwise_at Later.refl timed.later (FileWorld.moment_le moment) moment w.moment_now
        rw [agree]
        exact le_trans early (milliseconds_mono order.clock)
    | refreshed _ _ _ _ _ _ _ _ _ _ _ made =>
      subst made
      exact le_refl _

theorem clocked_reached {start : FileWorld} {as : List FileAction} {shown : List Seen}
    (initial : start.Initial) (spaced : Along (fileStep sem path addr) (Spaced sem path addr) start as)
    (agree : Along (fileStep sem path addr) Agree start as)
    (ran : run (fileStep sem path addr) start as = some (w, shown)) : Clocked w := by
  suffices invariant : Coherent path w ∧ Timed w ∧ Clocked w from invariant.2.2
  refine run_invariant (P := fun w => Coherent path w ∧ Timed w ∧ Clocked w) ?_
    ⟨initial.coherent, initial.timed, initial.clocked⟩ (along_and spaced agree) ran
  rintro v b v' o ⟨coherent, timed, clocked⟩ ⟨ok, same⟩ stepped
  have step := coherent.step stepped
  exact ⟨coherent.preserved stepped, timed.preserved step ok stepped, clocked.preserved timed same step⟩

/-- In every run in which no file changes twice within one second and the clocks agree: the
file had the bytes of each entry at a moment of the exchange that last changed the entry,
and the stamp is no later than the clock at the end of that exchange. So what a fresh entry
shows was the content of the file less than `fInterval` ago, counted from the stamp on
one side and from the beginning of that exchange on the other. -/
theorem stamp_bounds_staleness {start : FileWorld} {as : List FileAction} {shown : List Seen}
    (initial : start.Initial) (spaced : Along (fileStep sem path addr) (Spaced sem path addr) start as)
    (agree : Along (fileStep sem path addr) Agree start as)
    (ran : run (fileStep sem path addr) start as = some (w, shown)) :
    ∀ pathname entry, w.client.cache pathname = some entry →
      ∃ b i k first middle last, w.stamped pathname = (b, k) ∧ b ≤ i ∧ i ≤ k ∧
        w.moment b = some first ∧ w.moment i = some middle ∧ w.moment k = some last ∧
        w.Held path pathname entry i ∧ entry.tc ≤ milliseconds last.clock ∧
        ∀ t, (cacheExpired w.client.fInterval t w.client.cache pathname).2 = false →
          t - milliseconds middle.clock <
            w.client.fInterval + (entry.tc - milliseconds first.clock) := by
  intro pathname entry cached
  obtain ⟨⟨_, _, timed⟩, stamped⟩ := stamped_reached initial spaced ran
  obtain ⟨i, after, early, held⟩ := stamped pathname entry cached
  obtain ⟨last, moment, tc⟩ := clocked_reached initial spaced agree ran pathname entry cached
  have ⟨middle, _, there, _⟩ := held
  obtain ⟨first, began⟩ := FileWorld.moment_some (le_trans after (FileWorld.moment_le there))
  refine ⟨_, i, _, first, middle, last, rfl, after, early, began, there, moment, held, tc, ?_⟩
  intro t fresh
  rw [cacheExpired_cache cached] at fresh
  have recent : t - entry.tc < w.client.fInterval := by simpa using fresh
  have order := milliseconds_mono (pairwise_at Later.refl timed.later after began there).clock
  omega

/-- The reply to the read is taken nine seconds after the file has changed. -/
def delayedReply : List FileAction :=
  [.command readTwo] ++ answered 0 ++
    [.transmit false, serves 1, .tick 1000000000, .update (text "a") (text "xyz"),
      .tick 9000000000, .take 1]

/-- The entry is stamped at 10 s and passes for fresh half a second later; the file
has had other bytes since 1 s. -/
theorem stamp_bounds_staleness_fails :
    oneReader.Initial ∧ Along oneStep (Spaced .atMostOnce [] ⟨[], 7⟩) oneReader delayedReply ∧
      Along oneStep Agree oneReader delayedReply ∧ ∃ (w : FileWorld) (shown : List Seen) (entry : Entry),
        run oneStep oneReader delayedReply = some (w, shown) ∧
        w.client.cache (text "a") = some entry ∧ entry.tc = 10000 ∧ w.client.fInterval = 1000 ∧
        (cacheExpired w.client.fInterval 10500 w.client.cache (text "a")).2 = false ∧
        ∀ i d, w.moment i = some d → 2000 ≤ milliseconds d.clock →
          ¬ w.Held [] (text "a") entry i := by
  have spaced : checkAlong oneStep (spaced []) oneReader delayedReply = true := by decide +kernel
  have agree : checkAlong oneStep (fun w a => decide (Agree w a)) oneReader delayedReply = true := by
    decide +kernel
  have outcome : ((run oneStep oneReader delayedReply).bind fun (w, _) => do
      let entry ← w.client.cache (text "a")
      some (entry, w.client.fInterval, (w.history ++ [w.disk]).all fun d =>
        decide (milliseconds d.clock < 2000) ||
          decide ((FileSystem.file? [] d (text "a")).map File.content = some (text "xyz")))) =
      some (⟨10000, 0, 0, 2, text "12"⟩, 1000, true) := by
    decide +kernel
  obtain ⟨⟨w, shown⟩, ran, rest⟩ := Option.bind_eq_some_iff.mp outcome
  obtain ⟨entry, cached, made⟩ := Option.bind_eq_some_iff.mp rest
  simp only [Option.some.injEq, Prod.mk.injEq] at made
  obtain ⟨rfl, interval, changed⟩ := made
  refine ⟨oneReader_initial, along_of_check (fun _ _ => spaced_sound) spaced,
    along_of_check (fun _ _ => of_decide_eq_true) agree, w, shown, _, ran, cached, rfl, interval, ?_, ?_⟩
  · rw [cacheExpired_cache cached, interval]
    rfl
  · rintro i d moment late ⟨d', file, moment', found, _, content⟩
    cases moment.symm.trans moment'
    have other := List.all_eq_true.mp changed d (List.mem_of_getElem? moment)
    simp only [found, Option.map_some, Option.some.injEq, Bool.or_eq_true, decide_eq_true_eq] at other
    rcases other with early | same
    · omega
    · rw [same] at content
      exact absurd content (by decide)

/-- With prompt replies. -/
theorem stamp_bounds_staleness_prompt :
    ∃ (w : FileWorld) (entry : Entry) (b i k : Nat), w.client.cache (text "a") = some entry ∧
      entry.filecontent = text "xy" ∧ w.stamped (text "a") = (b, k) ∧ b ≤ i ∧ i ≤ k ∧
      w.Held [] (text "a") entry i := by
  have spaced : checkAlong oneStep (spaced []) oneReader onceThenCached = true := by decide +kernel
  have agree : checkAlong oneStep (fun w a => decide (Agree w a)) oneReader onceThenCached = true := by
    decide +kernel
  have outcome : ((run oneStep oneReader onceThenCached).bind fun (w, _) => do
      let entry ← w.client.cache (text "a")
      some entry.filecontent) = some (text "xy") := by
    decide +kernel
  obtain ⟨⟨w, shown⟩, ran, rest⟩ := Option.bind_eq_some_iff.mp outcome
  obtain ⟨entry, cached, made⟩ := Option.bind_eq_some_iff.mp rest
  obtain ⟨b, i, k, _, _, _, stamped, after, early, _, _, _, held, _⟩ :=
    stamp_bounds_staleness oneReader_initial (along_of_check (fun _ _ => spaced_sound) spaced)
      (along_of_check (fun _ _ => of_decide_eq_true) agree) ran (text "a") entry cached
  exact ⟨w, entry, b, i, k, cached, Option.some.inj made, stamped, after, early, held⟩

end RemoteFile.System
