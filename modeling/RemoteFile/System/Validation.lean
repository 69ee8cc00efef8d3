import RemoteFile.Core.Stamps
import RemoteFile.System.CacheEntries

/-! Validating a cached entry against the server's modification time, which counts
seconds: it tells two contents of a file apart when no file changes twice within
one second. -/
namespace RemoteFile.System
open Octets Transition Server Client Stamps

variable {sem : InvocationSemantic} {path : Bytes} {addr : UDPAddr} {w w' : FileWorld} {a : FileAction}
  {seen : Seen} {entry : Entry}

/-- The second of a file's modification time. -/
def second (file : File) : Int := file.modTime / 1000000000

/-- A file that the step changes was last changed in an earlier second. -/
def Spaced (sem : InvocationSemantic) (path : Bytes) (addr : UDPAddr) (w : FileWorld) (a : FileAction) :
    Prop :=
  ∀ pathname file, a.target w = some pathname → FileSystem.file? path w.disk pathname = some file →
    second file < w.disk.clock / 1000000000 ∨
      ∀ w' seen, fileStep sem path addr w a = some (w', seen) → w'.disk.files = w.disk.files

def spaced (path : Bytes) (w : FileWorld) (a : FileAction) : Bool :=
  match a.target w with
  | none => true
  | some pathname =>
    match FileSystem.file? path w.disk pathname with
    | none => true
    | some file => decide (second file < w.disk.clock / 1000000000)

theorem spaced_sound (checked : spaced path w a = true) : Spaced sem path addr w a := by
  intro pathname file target found
  simp only [spaced, target, found, decide_eq_true_eq] at checked
  exact .inl checked

/-- The disk at a later moment. -/
structure Later (d d' : FileSystem) : Prop where
  clock : d.clock ≤ d'.clock
  files : Advances second d.files d'.files

theorem Later.refl (d : FileSystem) : Later d d := ⟨le_refl _, Advances.refl _⟩

theorem Later.trans {c d e : FileSystem} (first : Later c d) (second : Later d e) : Later c e :=
  ⟨le_trans first.clock second.clock, first.files.trans second.files⟩

theorem FileStep.later (step : FileStep path w a w' seen) (spaced : Spaced sem path addr w a)
    (stepped : fileStep sem path addr w a = some (w', seen)) : Later w.disk w'.disk := by
  cases step.drift with
  | passes files clock => exact ⟨clock, files ▸ Advances.refl _⟩
  | changes pathname file content target found stored =>
    have clock : w.disk.clock ≤ w'.disk.clock := le_of_eq (stored ▸ rfl)
    rcases spaced pathname file target found with raised | same
    · refine ⟨clock, fun name => ?_⟩
      rw [stored]
      by_cases here : name = concatenatePaths path pathname
      · subst here
        exact .inr ⟨file, _, found, FileSystem.store_self .., raised⟩
      · exact .inl (FileSystem.store_other _ _ here)
    · exact ⟨clock, (same w' seen stepped).symm ▸ Advances.refl _⟩

/-- Seconds that fit are told apart as the server reports them. -/
theorem unix_inj {s t : Int} (left : Representable s) (right : Representable t) (same : unix s = unix t) :
    s / 1000000000 = t / 1000000000 := by
  have values := congrArg Int64.toInt same
  rwa [unix, unix, Int64.toInt_ofInt_of_le left.1 left.2, Int64.toInt_ofInt_of_le right.1 right.2] at values

/-! ### Runs with spaced changes -/

structure Timed (w : FileWorld) : Prop where
  later : (w.history ++ [w.disk]).Pairwise Later
  clock : Representable w.disk.clock
  modTimes : ∀ d ∈ w.history ++ [w.disk], ∀ name file, d.files name = some file →
    Representable file.modTime

theorem FileWorld.Initial.timed (initial : w.Initial) : Timed w where
  later := by
    rw [initial.history]
    exact List.pairwise_singleton ..
  clock := initial.clock
  modTimes d member name file found := by
    rw [initial.history, List.nil_append, List.mem_singleton] at member
    subst member
    exact initial.modTimes name file found

/-- Times that can be reported give way to such times. -/
theorem FileStep.representable (step : FileStep path w a w' seen) (clock : Representable w.disk.clock)
    (modTimes : ∀ d ∈ w.history ++ [w.disk], ∀ name file, d.files name = some file →
      Representable file.modTime) :
    Representable w'.disk.clock ∧ ∀ d ∈ w'.history ++ [w'.disk], ∀ name file,
      d.files name = some file → Representable file.modTime := by
  have now (name : Bytes) (file : File) : w.disk.files name = some file → Representable file.modTime :=
    modTimes w.disk (List.mem_append_right _ (List.mem_singleton.mpr rfl)) name file
  constructor
  · cases step.drift with
    | passes _ _ representable => exact representable clock
    | changes _ _ _ _ _ stored => exact stored ▸ clock
  · intro d member name file found
    rw [step.history] at member
    rcases List.mem_append.mp member with before | last
    · exact modTimes d before name file found
    · obtain rfl := List.mem_singleton.mp last
      cases step.drift with
      | passes files => exact now name file (files ▸ found)
      | changes pathname _ content _ _ stored =>
        rw [stored] at found
        by_cases here : name = concatenatePaths path pathname
        · subst here
          obtain rfl := Option.some.inj ((FileSystem.store_self ..).symm.trans found)
          exact clock
        · exact now name file ((FileSystem.store_other _ _ here).symm.trans found)

theorem Timed.preserved (timed : Timed w) (step : FileStep path w a w' seen)
    (spaced : Spaced sem path addr w a) (stepped : fileStep sem path addr w a = some (w', seen)) :
    Timed w' := by
  obtain ⟨clock, modTimes⟩ := step.representable timed.clock timed.modTimes
  refine ⟨?_, clock, modTimes⟩
  rw [step.history]
  exact pairwise_concat Later.trans timed.later (step.later spaced stepped)

namespace Coherent

/-- The time that the server reports is that of the file at the moment it answers. -/
theorem reported_time (coherent : Coherent path w) {pathname : Bytes} {t : Int64} {i : Nat}
    (reported : w.Reported pathname t i) : ∃ d file, w.moment i = some d ∧
      FileSystem.file? path d pathname = some file ∧ t = unix file.modTime := by
  obtain ⟨s, member, rfl, request, x, reports, rfl⟩ := reported
  obtain ⟨d, moment, truthful⟩ := coherent.truthful s member
  obtain ⟨file, found, time⟩ := truthful.time pathname x request reports
  exact ⟨d, file, moment, found, time⟩

/-- A validated entry: the file has its content at the moment of the answer. The
times reported before its content was read and now are equal, so nothing happened
to the file in between. -/
theorem validated_held (coherent : Coherent path w) (entries : Entries path w) (timed : Timed w)
    {s : Served} (among : s ∈ w.served) (current : w.client.exchange? = some s.exchange)
    {req : ReadRequest} {x : UInt64} (pending : s.exchange.pending = .time expired req)
    (reports : ReportsTime s.reply x) (cached : w.client.cache req.pathname = some entry)
    (unchanged : entry.tmclient = x.toInt64) : w.Held path req.pathname entry s.instant := by
  obtain ⟨_, t₁, t₂, order, early, reported, d₂, file₂, moment₂, found₂, inside, content⟩ :=
    entries.cached req.pathname entry cached
  have late : t₂ ≤ s.instant := le_trans early (coherent.own s among current)
  obtain ⟨d₁, file₁, moment₁, found₁, time₁⟩ := coherent.reported_time reported
  have request := ((coherent.served s among).1.timeQuery pending).1
  obtain ⟨d₃, file₃, moment₃, found₃, time₃⟩ :=
    coherent.reported_time ⟨s, among, rfl, request, x, reports, rfl⟩
  have equal : second file₁ = second file₃ :=
    unix_inj (timed.modTimes d₁ (List.mem_of_getElem? moment₁) _ file₁ found₁)
      (timed.modTimes d₃ (List.mem_of_getElem? moment₃) _ file₃ found₃)
      (time₁.symm.trans (unchanged.trans time₃))
  have first := (pairwise_at Later.refl timed.later order moment₁ moment₂).files
  have rest := (pairwise_at Later.refl timed.later late moment₂ moment₃).files
  obtain rfl := Option.some.inj (found₂.symm.trans (first.between rest found₁ found₃ equal))
  exact ⟨d₃, file₂, moment₃, found₃, inside, content⟩

end Coherent

theorem timed_reached {start : FileWorld} {as : List FileAction} {shown : List Seen}
    (initial : start.Initial) (spaced : Along (fileStep sem path addr) (Spaced sem path addr) start as)
    (ran : run (fileStep sem path addr) start as = some (w, shown)) :
    Coherent path w ∧ Entries path w ∧ Timed w := by
  refine run_invariant (P := fun w => Coherent path w ∧ Entries path w ∧ Timed w) ?_
    ⟨initial.coherent, initial.entries, initial.timed⟩ spaced ran
  rintro v b v' o ⟨coherent, entries, timed⟩ ok stepped
  have step := coherent.step stepped
  exact ⟨coherent.preserved stepped, entries.preserved coherent step, timed.preserved step ok stepped⟩

/-- In every run in which no file changes twice within one second: when the reply to
the time query of an expired read makes `fileChangedAtServer` answer false, the
cached bytes are those of the file at the moment the server answered. -/
theorem validation_sound {start : FileWorld} {as : List FileAction} {shown : List Seen}
    (initial : start.Initial) (spaced : Along (fileStep sem path addr) (Spaced sem path addr) start as)
    (ran : run (fileStep sem path addr) start as = some (w, shown)) :
    ∀ s ∈ w.served, w.client.exchange? = some s.exchange → ∀ req x now,
      s.exchange.pending = .time true req → ReportsTime s.reply x →
      (fileChangedAtServer now w.client.cache req.pathname x.toInt64).2 = false →
      ∃ entry d file, w.client.cache req.pathname = some entry ∧ w.moment s.instant = some d ∧
        FileSystem.file? path d req.pathname = some file ∧
        entry.filecontent = window file.content entry.startIdx.toNat entry.endIdx.toNat := by
  intro s among current req x now pending reports unchanged
  obtain ⟨coherent, entries, timed⟩ := timed_reached initial spaced ran
  cases cached : w.client.cache req.pathname with
  | none =>
    rw [fileChangedAtServer, cached] at unchanged
    contradiction
  | some entry =>
    have equal : entry.tmclient = x.toInt64 := by
      by_contra different
      simp only [fileChangedAtServer, cached, if_neg different] at unchanged
      contradiction
    obtain ⟨d, file, moment, found, _, content⟩ :=
      coherent.validated_held entries timed among current pending reports cached equal
    exact ⟨entry, d, file, rfl, moment, found, content⟩

/-- The file changes at 0.2 s, is cached at 0.4 s and changes again at 0.7 s; the
entry is validated two seconds later. -/
def twiceInOneSecond : List FileAction :=
  [.tick 200000000, .update (text "a") (text "abc"), .tick 200000000, .command readTwo] ++
    answered 0 ++ answered 1 ++
    [.tick 300000000, .update (text "a") (text "xyz"), .tick 2000000000, .command readTwo,
      .transmit false, serves 2]

/-- The server reports the second 0 both times, and the entry passes for unchanged. -/
theorem validation_sound_fails :
    oneReader.Initial ∧ ∃ (w : FileWorld) (shown : List Seen) (s : Served) (req : ReadRequest) (x : UInt64)
      (entry : Entry) (d : FileSystem) (file : File),
      run oneStep oneReader twiceInOneSecond = some (w, shown) ∧ s ∈ w.served ∧
      w.client.exchange? = some s.exchange ∧ s.exchange.pending = .time true req ∧
      ReportsTime s.reply x ∧
      (fileChangedAtServer 2700 w.client.cache req.pathname x.toInt64).2 = false ∧
      w.client.cache req.pathname = some entry ∧ w.moment s.instant = some d ∧
      FileSystem.file? [] d req.pathname = some file ∧ entry.filecontent = text "ab" ∧
      window file.content entry.startIdx.toNat entry.endIdx.toNat = text "xy" := by
  have outcome : ((run oneStep oneReader twiceInOneSecond).bind fun (w, _) => do
      let s ← w.served.getLast?
      let entry ← w.client.cache (text "a")
      let d ← w.moment s.instant
      let file ← FileSystem.file? [] d (text "a")
      some (decide (w.client.exchange? = some s.exchange), s.exchange.pending, s.reply, entry,
        file.content)) =
      some (true, .time true ⟨text "a", 0, 2⟩, 1 :: List.replicate 8 0, ⟨400, 0, 0, 2, text "ab"⟩,
        text "xyz") := by
    decide +kernel
  obtain ⟨⟨w, shown⟩, ran, rest⟩ := Option.bind_eq_some_iff.mp outcome
  obtain ⟨s, last, rest⟩ := Option.bind_eq_some_iff.mp rest
  obtain ⟨entry, cached, rest⟩ := Option.bind_eq_some_iff.mp rest
  obtain ⟨d, moment, rest⟩ := Option.bind_eq_some_iff.mp rest
  obtain ⟨file, found, made⟩ := Option.bind_eq_some_iff.mp rest
  simp only [Option.some.injEq, Prod.mk.injEq, decide_eq_true_eq] at made
  obtain ⟨current, pending, reply, rfl, content⟩ := made
  refine ⟨oneReader_initial, w, shown, s, _, 0, _, d, file, ran, List.mem_of_getLast? last, current,
    pending, ?_, ?_, cached, moment, found, rfl, ?_⟩
  · rw [reply]
    exact ⟨[], rfl⟩
  · simp [fileChangedAtServer, cached]
  · rw [content]
    rfl

/-- The file changes once before it is cached; the entry is validated later. -/
def onceThenCached : List FileAction :=
  [.tick 1000000000, .update (text "a") (text "xyz"), .command readTwo] ++ answered 0 ++ answered 1 ++
    [.tick 2000000000, .command readTwo, .transmit false, serves 2]

theorem validation_sound_spaced :
    ∃ (w : FileWorld) (s : Served) (entry : Entry) (d : FileSystem) (file : File), s ∈ w.served ∧
      w.client.cache (text "a") = some entry ∧ entry.filecontent = text "xy" ∧
      w.moment s.instant = some d ∧ FileSystem.file? [] d (text "a") = some file ∧
      entry.filecontent = window file.content entry.startIdx.toNat entry.endIdx.toNat := by
  have outcome : ((run oneStep oneReader onceThenCached).bind fun (w, _) => do
      let s ← w.served.getLast?
      let entry ← w.client.cache (text "a")
      some (decide (w.client.exchange? = some s.exchange), s.exchange.pending, s.reply, entry)) =
      some (true, .time true ⟨text "a", 0, 2⟩, 1 :: (List.replicate 7 0 ++ [1]),
        ⟨1000, 1, 0, 2, text "xy"⟩) := by
    decide +kernel
  have spaced : checkAlong oneStep (spaced []) oneReader onceThenCached = true := by decide +kernel
  obtain ⟨⟨w, shown⟩, ran, rest⟩ := Option.bind_eq_some_iff.mp outcome
  obtain ⟨s, last, rest⟩ := Option.bind_eq_some_iff.mp rest
  obtain ⟨entry, cached, made⟩ := Option.bind_eq_some_iff.mp rest
  simp only [Option.some.injEq, Prod.mk.injEq, decide_eq_true_eq] at made
  obtain ⟨current, pending, reply, rfl⟩ := made
  have reports : ReportsTime s.reply 1 := by
    rw [reply]
    exact ⟨[], rfl⟩
  have unchanged : (fileChangedAtServer 3000 w.client.cache (text "a") (1 : UInt64).toInt64).2 = false := by
    simp [fileChangedAtServer, cached]
  obtain ⟨entry, d, file, again, moment, found, content⟩ :=
    validation_sound oneReader_initial (along_of_check (fun _ _ => spaced_sound) spaced) ran s
      (List.mem_of_getLast? last) current _ 1 3000 pending reports unchanged
  cases again.symm.trans cached
  exact ⟨w, s, _, d, file, List.mem_of_getLast? last, cached, rfl, moment, found, content⟩

end RemoteFile.System
