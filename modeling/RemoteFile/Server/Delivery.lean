import RemoteFile.Core.Run
import RemoteFile.Server.Notification
import Mathlib.Data.List.Nodup

/-! Subscriptions over whole runs. The lists may lack subscriptions of the past, but
only expired ones, so who is notified depends on the subscriptions made and the
moments at which they are examined, and not on who removes them when. -/
namespace RemoteFile.Server
open Octets Go Transition

variable {Disk : Type} {s t : Store Disk} {lists : Bytes → List Subscription} {env : Env Disk}
  {history : List Subscription} {clock ends : Int} {pathname content : Bytes}

/-- What the table keeps of the subscriptions made so far: in order, under their own
pathnames, and at least those that have not expired. -/
structure Recorded (s : Store Disk) (history : List Subscription) (clock : Int)
    (lists : Bytes → List Subscription) : Prop where
  tidy : Tidy s lists
  numbered : history.map Subscription.ref = List.range history.length
  allocated : s.allocated = history.length
  timers : ∀ sub ∈ s.timers, sub ∈ history
  listed : ∀ p, (lists p).Sublist (history.filter (·.pathname = p))
  missing : ∀ sub ∈ history, sub ∉ lists sub.pathname → sub.expireTime ≤ clock

theorem Recorded.nodup (recorded : Recorded s history clock lists) : history.Nodup := by
  apply List.Nodup.of_map Subscription.ref
  rw [recorded.numbered]
  exact List.nodup_range

theorem Recorded.lists_nodup (recorded : Recorded s history clock lists) (p : Bytes) : (lists p).Nodup :=
  (recorded.nodup.filter _).sublist (recorded.listed p)

theorem Recorded.mem (recorded : Recorded s history clock lists) {p : Bytes} {sub : Subscription}
    (member : sub ∈ lists p) : sub ∈ history ∧ sub.pathname = p := by
  simpa using List.mem_filter.mp ((recorded.listed p).subset member)

/-- Equal pointers point to the same subscription. -/
theorem Recorded.same_ref (recorded : Recorded s history clock lists) {a b : Subscription}
    (first : a ∈ history) (second : b ∈ history) (same : a.ref = b.ref) : a = b := by
  have distinct : (history.map Subscription.ref).Nodup := by
    rw [recorded.numbered]
    exact List.nodup_range
  exact List.inj_on_of_nodup_map distinct first second same

theorem Recorded.later (recorded : Recorded s history clock lists) (order : clock ≤ ends) :
    Recorded s history ends lists :=
  { recorded with missing := fun sub member absent => (recorded.missing sub member absent).trans order }

/-- The table does not depend on the disk and the calls made. -/
theorem Recorded.frame (recorded : Recorded s history clock lists) (arrays : t.arrays = s.arrays)
    (map : t.subscriptions = s.subscriptions) (timers : t.timers = s.timers)
    (allocated : t.allocated = s.allocated) : Recorded t history clock lists := by
  refine ⟨⟨?_, ?_⟩, recorded.numbered, allocated.trans recorded.allocated, ?_, recorded.listed, recorded.missing⟩
  · rw [arrays, map]
    exact recorded.tidy.holds
  · rw [map]
    exact recorded.tidy.apart
  · rw [timers]
    exact recorded.timers

/-- Shortening the list of one pathname by subscriptions that have expired. -/
theorem Recorded.shorten (recorded : Recorded s history clock lists) {subs : List Subscription}
    (tidy : Tidy t (Function.update lists pathname subs)) (part : subs.Sublist (lists pathname))
    (expired : ∀ sub ∈ lists pathname, sub ∉ subs → sub.expireTime ≤ ends) (order : clock ≤ ends)
    (timers : ∀ sub ∈ t.timers, sub ∈ s.timers) (allocated : t.allocated = s.allocated) :
    Recorded t history ends (Function.update lists pathname subs) := by
  refine ⟨tidy, recorded.numbered, allocated.trans recorded.allocated,
    fun sub member => recorded.timers sub (timers sub member), fun p => ?_, fun sub member absent => ?_⟩
  · by_cases here : p = pathname
    · subst here
      rw [Function.update_self]
      exact part.trans (recorded.listed p)
    · rw [Function.update_of_ne here]
      exact recorded.listed p
  · by_cases here : sub.pathname = pathname
    · rw [here, Function.update_self] at absent
      by_cases before : sub ∈ lists pathname
      · exact expired sub before absent
      · rw [← here] at before
        exact (recorded.missing sub member before).trans order
    · rw [Function.update_of_ne here] at absent
      exact (recorded.missing sub member absent).trans order

/-! ### The operations -/

theorem Recorded.subscribe (recorded : Recorded s history clock lists) {clientAddr : UDPAddr}
    {filePath : Bytes} {req : SubscribeRequest} {file : Slice UInt8}
    (found : env.os.readFile s.disk filePath = .ok file) :
    Recorded (subscribe env clientAddr filePath req s).1
      (history ++ [newSubscription env clientAddr req s]) clock
      (Function.update lists req.pathname (lists req.pathname ++ [newSubscription env clientAddr req s])) := by
  obtain ⟨_, timers, allocated⟩ := @subscribe_accepted _ s env clientAddr filePath req file found
  refine ⟨subscribe_tidy recorded.tidy found, ?_, ?_, ?_, fun p => ?_, fun sub member absent => ?_⟩
  · rw [List.map_append, recorded.numbered, List.length_append, List.length_singleton, List.range_succ,
      List.map_singleton, newSubscription, recorded.allocated]
  · rw [allocated, recorded.allocated, List.length_append, List.length_singleton]
  · rw [timers]
    intro sub member
    rw [List.mem_append] at member ⊢
    exact member.imp_left (recorded.timers sub)
  · rw [List.filter_append]
    by_cases here : p = req.pathname
    · subst here
      rw [Function.update_self]
      apply (recorded.listed _).append
      rw [List.filter_cons_of_pos (by simp [newSubscription])]
      exact (List.nil_sublist _).cons_cons _
    · rw [Function.update_of_ne here]
      exact (recorded.listed p).trans (List.sublist_append_left _ _)
  · rcases List.mem_append.mp member with old | new
    · by_cases here : sub.pathname = req.pathname
      · rw [here, Function.update_self] at absent
        refine recorded.missing sub old fun listed => absent ?_
        rw [here] at listed
        exact List.mem_append_left _ listed
      · rw [Function.update_of_ne here] at absent
        exact recorded.missing sub old absent
    · obtain rfl := List.mem_singleton.mp new
      refine absurd ?_ absent
      rw [show (newSubscription env clientAddr req s).pathname = req.pathname from rfl, Function.update_self]
      exact List.mem_append_right _ (List.mem_singleton_self _)

/-- What a call of `Subscribe` adds to the history. -/
theorem Recorded.subscribed (recorded : Recorded s history clock lists) {clientAddr : UDPAddr}
    {filePath : Bytes} {req : SubscribeRequest} (starts : clock ≤ env.now 0) (stops : env.now 0 ≤ ends) :
    ∃ lists', Recorded (Server.subscribe env clientAddr filePath req s).1
      (history ++ (Server.subscribe env clientAddr filePath req s).1.timers.drop s.timers.length)
      ends lists' := by
  have order := starts.trans stops
  cases read : env.os.readFile s.disk filePath with
  | error err =>
    rw [subscribe_refused read]
    have none : (s.did (.readFile filePath)).timers.drop s.timers.length = [] := List.drop_length
    rw [none, List.append_nil]
    have kept : Recorded (s.did (.readFile filePath)) history clock lists := recorded.frame rfl rfl rfl rfl
    exact ⟨lists, kept.later order⟩
  | ok file =>
    have timers := (@subscribe_accepted _ s env clientAddr filePath req file read).2.1
    rw [timers, List.drop_left]
    exact ⟨_, (recorded.subscribe read).later order⟩

theorem expire_frame (sub : Subscription) (s : Store Disk) :
    (expire sub s).disk = s.disk ∧ (expire sub s).timers = s.timers ∧
      (expire sub s).allocated = s.allocated ∧ (expire sub s).trace = s.trace := by
  unfold expire
  split
  · exact ⟨rfl, rfl, rfl, rfl⟩
  · dsimp only
    split <;> exact ⟨rfl, rfl, rfl, rfl⟩

theorem fireTimer_timers {k : Nat} (fired : fireTimer s k = some t) : t.timers = s.timers.eraseIdx k := by
  obtain ⟨sub, _, rfl⟩ := Option.map_eq_some_iff.mp fired
  exact (expire_frame sub _).2.1

theorem Recorded.fireTimer (recorded : Recorded s history clock lists) {k : Nat} {sub : Subscription}
    (waiting : s.timers[k]? = some sub) (expired : sub.expireTime ≤ ends) (order : clock ≤ ends) :
    ∃ t, Server.fireTimer s k = some t ∧ t.disk = s.disk ∧ Recorded t history ends
      (Function.update lists sub.pathname ((lists sub.pathname).eraseP (·.ref == sub.ref))) := by
  have woken : Tidy { s with timers := s.timers.eraseIdx k } lists := ⟨recorded.tidy.holds, recorded.tidy.apart⟩
  obtain ⟨disk, timers, allocated, _⟩ := expire_frame sub { s with timers := s.timers.eraseIdx k }
  refine ⟨_, by rw [Server.fireTimer, waiting, Option.map_some], disk, ?_⟩
  refine recorded.shorten (expire_tidy woken sub) List.eraseP_sublist ?_ order ?_ allocated
  · intro other listed removed
    by_cases same : other.ref = sub.ref
    · have waited := recorded.timers sub (List.mem_of_getElem? waiting)
      rw [recorded.same_ref (recorded.mem listed).1 waited same]
      exact expired
    · exact absurd ((List.mem_eraseP_of_neg (by simpa using same)).mpr listed) removed
  · intro other member
    rw [timers] at member
    exact (List.eraseIdx_sublist _ _).subset member

/-- The moments are those at which the listed subscriptions are examined; the other
subscriptions could be examined at any time of the call. -/
structure Examines (env : Env Disk) (subs : List Subscription) (moment : Subscription → Int)
    (clock ends : Int) : Prop where
  listed : ∀ k sub, subs[k]? = some sub → env.now k = moment sub
  starts : ∀ sub, clock ≤ moment sub
  ends : ∀ sub ∈ subs, moment sub ≤ ends

/-- The reading of the clock with which a notification examines a listed subscription. -/
def Store.momentOf (s : Store Disk) (env : Env Disk) (sub : Subscription) : Int :=
  env.now ((s.listed sub.pathname).idxOf (some sub))

/-- As nobody is listed twice, a subscription is examined at one moment. -/
theorem Recorded.examines (recorded : Recorded s history clock lists)
    (readings : ∀ turn, clock ≤ env.now turn ∧ env.now turn ≤ ends) (pathname : Bytes) :
    Examines env (lists pathname) (s.momentOf env) clock ends := by
  refine ⟨fun k sub found => ?_, fun sub => (readings _).1, fun sub _ => (readings _).2⟩
  have named := (recorded.mem (List.mem_of_getElem? found)).2
  obtain ⟨inside, here⟩ := List.getElem?_eq_some_iff.mp found
  have distinct : ((lists pathname).map some).Nodup :=
    (recorded.lists_nodup pathname).map (Option.some_injective _)
  have position := distinct.idxOf_getElem k (by rwa [List.length_map])
  rw [List.getElem_map, here] at position
  rw [Store.momentOf, named, recorded.tidy.listed, position]

/-- A sublist that lacks only elements that do not count. -/
theorem filter_sublist_eq {α : Type} {p : α → Bool} {l m : List α} (part : l.Sublist m) (nodup : m.Nodup)
    (absent : ∀ x ∈ m, x ∉ l → p x = false) : l.filter p = m.filter p := by
  induction part with
  | slnil => rfl
  | cons x part ih =>
    obtain ⟨other, nodup⟩ := List.nodup_cons.mp nodup
    have unlisted := absent x List.mem_cons_self fun member => other (part.subset member)
    rw [List.filter_cons_of_neg (by simp [unlisted])]
    exact ih nodup fun y member => absent y (List.mem_cons_of_mem _ member)
  | cons_cons x part ih =>
    obtain ⟨other, nodup⟩ := List.nodup_cons.mp nodup
    have same := ih nodup fun y member missing => absent y (List.mem_cons_of_mem _ member) fun listed => by
      rcases List.mem_cons.mp listed with rfl | listed
      · exact other member
      · exact missing listed
    rw [List.filter_cons, List.filter_cons, same]

/-- The subscriptions that a call of `NotifySubscribers` concerns. -/
def concerned (history : List Subscription) (moment : Subscription → Int) (pathname : Bytes) :
    List Subscription :=
  (history.filter (·.pathname = pathname)).filter (active moment)

theorem Recorded.concerned (recorded : Recorded s history clock lists) {moment : Subscription → Int}
    (starts : ∀ sub, clock ≤ moment sub) (p : Bytes) :
    (lists p).filter (active moment) = Server.concerned history moment p := by
  apply filter_sublist_eq (recorded.listed p) (recorded.nodup.filter _)
  intro sub member absent
  obtain ⟨made, named⟩ := List.mem_filter.mp member
  obtain rfl := of_decide_eq_true named
  have expired := recorded.missing sub made absent
  exact decide_eq_false (not_lt_of_ge (expired.trans (starts sub)))

theorem Recorded.notify (content : Bytes) (recorded : Recorded s history clock lists) {moment : Subscription → Int}
    (examines : Examines env (lists pathname) moment clock ends) (order : clock ≤ ends)
    (clean : NoLateFailure env 0 false (lists pathname)) :
    ∃ t err lists', notifySubscribers env pathname content s = some (t, err) ∧ t.disk = s.disk ∧
      t.timers = s.timers ∧ Recorded t history ends lists' ∧
      (err = none → t.trace = s.trace ++
        (Server.concerned history moment pathname).map fun sub => .send sub.clientAddr content true) ∧
      (err ≠ none → ∃ turn, env.sendError turn ≠ none) := by
  obtain ⟨t, err, notified, success, failure⟩ :=
    notifySubscribers_tidy content recorded.tidy examines.listed clean
  obtain ⟨disk, timers, allocated⟩ := notifySubscribers_frame notified
  cases err with
  | some err =>
    obtain ⟨tidy, fails⟩ := failure (Option.some_ne_none err)
    refine ⟨t, some err, lists, notified, disk, timers, ?_, fun none => absurd none (Option.some_ne_none err),
      fun _ => fails⟩
    refine ⟨tidy, recorded.numbered, allocated.trans recorded.allocated, ?_, recorded.listed, ?_⟩
    · rw [timers]
      exact recorded.timers
    · exact fun sub member absent => (recorded.missing sub member absent).trans order
  | none =>
    obtain ⟨tidy, sends⟩ := success rfl
    refine ⟨t, none, _, notified, disk, timers, recorded.shorten tidy List.filter_sublist ?_ order ?_ allocated,
      fun _ => ?_, fun failed => absurd rfl failed⟩
    · intro sub listed removed
      have expired : active moment sub = false := by
        by_contra alive
        exact removed (List.mem_filter.mpr ⟨listed, Bool.not_eq_false _ ▸ alive⟩)
      exact (not_lt.mp (of_decide_eq_false expired)).trans (examines.ends sub listed)
    · rw [timers]
      exact fun sub member => member
    · rw [sends, recorded.concerned examines.starts]

/-- When every send succeeds. -/
theorem Recorded.notify_sent (content : Bytes) (recorded : Recorded s history clock lists)
    {moment : Subscription → Int} (examines : Examines env (lists pathname) moment clock ends)
    (order : clock ≤ ends) (sound : ∀ turn, env.sendError turn = none) :
    ∃ t lists', notifySubscribers env pathname content s = some (t, none) ∧ t.disk = s.disk ∧
      t.timers = s.timers ∧ Recorded t history ends lists' ∧ t.trace = s.trace ++
        (Server.concerned history moment pathname).map fun sub => .send sub.clientAddr content true := by
  obtain ⟨t, err, lists', notified, disk, timers, after, sends, fails⟩ :=
    Recorded.notify content recorded examines order (noLateFailure_of_sent sound)
  obtain rfl : err = none := by
    by_contra failed
    obtain ⟨turn, failure⟩ := fails failed
    exact failure (sound turn)
  exact ⟨t, lists', notified, disk, timers, after, sends rfl⟩

/-! ### Runs -/

/-- A call on the table. The moments are those at which a notification examines the
subscriptions; the code does not see them. -/
inductive Call (Disk : Type) where
  | subscribe (env : Env Disk) (clientAddr : UDPAddr) (filePath : Bytes) (req : SubscribeRequest)
  | expire (k : Nat)
  | notify (env : Env Disk) (moment : Subscription → Int) (pathname content : Bytes)

/-- The server's state below the router with two things it does not keep: the
subscriptions made so far, and the latest time. -/
structure Watched (Disk : Type) where
  store : Store Disk
  history : List Subscription
  clock : Int

/-- A datagram that has been sent to a subscriber. -/
def Effect.datagram? : Effect → Option (UDPAddr × Bytes)
  | .send addr content true => some (addr, content)
  | _ => none

def Store.sentSince (t s : Store Disk) : List (UDPAddr × Bytes) :=
  (t.trace.drop s.trace.length).filterMap Effect.datagram?

/-- A call with the time at its end. The output of a notification is what it sends. -/
def callStep (s : Watched Disk) (e : Call Disk × Int) :
    Option (Watched Disk × Option (List (UDPAddr × Bytes))) :=
  match e.1 with
  | .subscribe env clientAddr filePath req =>
    let store := (subscribe env clientAddr filePath req s.store).1
    some (⟨store, s.history ++ store.timers.drop s.store.timers.length, e.2⟩, none)
  | .expire k => (fireTimer s.store k).map fun store => (⟨store, s.history, e.2⟩, none)
  | .notify env _ pathname content =>
    (notifySubscribers env pathname content s.store).map fun (store, _) =>
      (⟨store, s.history, e.2⟩, some (store.sentSince s.store))

theorem callStep_clock {s t : Watched Disk} {e : Call Disk × Int} {o : Option (List (UDPAddr × Bytes))}
    (stepped : callStep s e = some (t, o)) : t.clock = e.2 := by
  obtain ⟨call, ends⟩ := e
  cases call with
  | subscribe env clientAddr filePath req =>
    cases stepped
    rfl
  | expire k =>
    obtain ⟨store, _, made⟩ := Option.map_eq_some_iff.mp stepped
    cases made
    rfl
  | notify env moment pathname content =>
    obtain ⟨result, _, made⟩ := Option.map_eq_some_iff.mp stepped
    cases made
    rfl

/-- The clock does not go back, and an expiry goroutine runs when its subscription
has expired. -/
def Clocked (s : Watched Disk) (e : Call Disk × Int) : Prop :=
  match e.1 with
  | .subscribe env _ _ _ => s.clock ≤ env.now 0 ∧ env.now 0 ≤ e.2
  | .expire k => s.clock ≤ e.2 ∧ ∃ sub, s.store.timers[k]? = some sub ∧ sub.expireTime ≤ e.2
  | .notify env _ _ _ => ∀ turn, s.clock ≤ env.now turn ∧ env.now turn ≤ e.2

/-- No notification has a send fail after it has removed a subscription. -/
def Clean (s : Watched Disk) (e : Call Disk × Int) : Prop :=
  match e.1 with
  | .notify env _ pathname _ => NoLateFailure env 0 false ((s.store.listed pathname).filterMap id)
  | .subscribe _ _ _ _ | .expire _ => True

instance (s : Watched Disk) : (e : Call Disk × Int) → Decidable (Clean s e)
  | (.notify env _ pathname _, _) =>
    inferInstanceAs (Decidable (NoLateFailure env 0 false ((s.store.listed pathname).filterMap id)))
  | (.subscribe _ _ _ _, _) | (.expire _, _) => .isTrue trivial

/-- No send fails, and the listed subscriptions are examined at the moments given;
others would be examined no earlier than the call. -/
def Exact (s : Watched Disk) (e : Call Disk × Int) : Prop :=
  match e.1 with
  | .notify env moment pathname _ =>
    (∀ turn, env.sendError turn = none) ∧ (∀ sub, s.clock ≤ moment sub) ∧
      ∀ k sub, (s.store.listed pathname)[k]? = some (some sub) → env.now k = moment sub
  | .subscribe _ _ _ _ | .expire _ => True

/-- Before the first subscription. -/
structure Watched.Fresh (s : Watched Disk) : Prop where
  subscriptions : s.store.subscriptions = fun _ => none
  timers : s.store.timers = []
  allocated : s.store.allocated = 0
  history : s.history = []

theorem Watched.Fresh.recorded {s : Watched Disk} (fresh : s.Fresh) :
    Recorded s.store s.history s.clock fun _ => [] := by
  refine ⟨⟨fun p => ?_, fun left => ?_⟩, ?_, ?_, ?_, fun p => List.nil_sublist _, ?_⟩
  · rw [fresh.subscriptions]
    rfl
  · rw [fresh.subscriptions] at left
    contradiction
  · rw [fresh.history]
    rfl
  · rw [fresh.allocated, fresh.history]
    rfl
  · rw [fresh.timers]
    exact fun sub member => absurd member List.not_mem_nil
  · rw [fresh.history]
    exact fun sub member => absurd member List.not_mem_nil

theorem callStep_recorded {s t : Watched Disk} {e : Call Disk × Int}
    {o : Option (List (UDPAddr × Bytes))} (recorded : Recorded s.store s.history s.clock lists)
    (clocked : Clocked s e) (clean : Clean s e) (stepped : callStep s e = some (t, o)) :
    ∃ lists', Recorded t.store t.history t.clock lists' := by
  obtain ⟨call, ends⟩ := e
  cases call with
  | subscribe env clientAddr filePath req =>
    cases stepped
    exact recorded.subscribed clocked.1 clocked.2
  | expire k =>
    obtain ⟨order, sub, waiting, expired⟩ := clocked
    obtain ⟨store, fired, _, after⟩ := recorded.fireTimer waiting expired order
    simp only [callStep, fired, Option.map_some] at stepped
    cases stepped
    exact ⟨_, after⟩
  | notify env moment pathname content =>
    have order := (clocked 0).1.trans (clocked 0).2
    simp only [Clean, recorded.tidy.listed_filterMap] at clean
    have examines := recorded.examines clocked pathname
    obtain ⟨store, err, lists', notified, _, _, after, _⟩ := 
      Recorded.notify content recorded examines order clean
    simp only [callStep, notified, Option.map_some] at stepped
    cases stepped
    exact ⟨lists', after⟩

/-- In every state of a run in which no send fails after a removal, nobody is listed
twice, everybody listed has subscribed with the pathname of the list, and everybody
who has not expired is listed. -/
theorem table_intact {s u : Watched Disk} {es : List (Call Disk × Int)}
    {outs : List (Option (List (UDPAddr × Bytes)))} (fresh : s.Fresh)
    (along : Along callStep (fun s e => Clocked s e ∧ Clean s e) s es)
    (returned : run callStep s es = some (u, outs)) (pathname : Bytes) :
    (u.store.listed pathname).Nodup ∧
    (∀ cell ∈ u.store.listed pathname, ∃ sub ∈ u.history, cell = some sub ∧ sub.pathname = pathname) ∧
    ∀ sub ∈ u.history, sub.pathname = pathname → u.clock < sub.expireTime →
      some sub ∈ u.store.listed pathname := by
  have preserves : ∀ (s : Watched Disk) (e : Call Disk × Int) (t : Watched Disk)
      (o : Option (List (UDPAddr × Bytes))), (∃ lists, Recorded s.store s.history s.clock lists) →
      Clocked s e ∧ Clean s e → callStep s e = some (t, o) →
      ∃ lists, Recorded t.store t.history t.clock lists := by
    rintro s e t o ⟨lists, recorded⟩ ⟨clocked, clean⟩ stepped
    exact callStep_recorded recorded clocked clean stepped
  obtain ⟨lists, recorded⟩ := run_invariant preserves ⟨_, fresh.recorded⟩ along returned
  rw [recorded.tidy.listed]
  refine ⟨(recorded.lists_nodup pathname).map (Option.some_injective _), ?_, ?_⟩
  · intro cell member
    obtain ⟨sub, listed, rfl⟩ := List.mem_map.mp member
    obtain ⟨made, named⟩ := recorded.mem listed
    exact ⟨sub, made, rfl, named⟩
  · rintro sub made rfl pending
    apply List.mem_map_of_mem
    by_contra absent
    have expired := recorded.missing sub made absent
    omega

/-- A server over one file, before its first subscription. -/
def unwatched : Watched FileSystem := ⟨Store.fresh (FileSystem.single (text "/a") (text "123") 0), [], 0⟩

theorem unwatched_fresh : unwatched.Fresh := ⟨rfl, rfl, rfl, rfl⟩

/-- Two clients subscribe at the start, for one second and for a hundred. -/
def subscriptions : List (Call FileSystem × Int) :=
  [(.subscribe (FileSystem.env Faults.none 0) ⟨[], 1⟩ (text "/a") ⟨text "a", 1⟩, 0),
   (.subscribe (FileSystem.env Faults.none 0) ⟨[], 2⟩ (text "/a") ⟨text "a", 100⟩, 0)]

/-- A notification after two seconds, in which every send fails. -/
def failingNotification : Call FileSystem × Int :=
  (.notify { FileSystem.env Faults.none 2000000000 with sendError := fun _ => some (text "x") }
    (fun _ => 2000000000) (text "a") (text "xy"), 2000000000)

/-- The first client's subscription is removed and the send to the second client
fails; the map keeps the old length of the list, which shows the second client twice. -/
theorem table_intact_fails :
    unwatched.Fresh ∧ Along callStep Clocked unwatched (subscriptions ++ [failingNotification]) ∧
      ∃ u outs, run callStep unwatched (subscriptions ++ [failingNotification]) = some (u, outs) ∧
        ¬ (u.store.listed (text "a")).Nodup := by
  refine ⟨unwatched_fresh, ?_, ?_⟩
  · refine ⟨⟨le_refl 0, le_refl 0⟩, fun s o first => ?_⟩
    cases first
    refine ⟨⟨le_refl 0, le_refl 0⟩, fun s o second => ?_⟩
    cases second
    exact ⟨fun _ => ⟨(show (0 : Int) ≤ 2000000000 by decide), le_refl _⟩, fun _ _ _ => trivial⟩
  · have twice : (run callStep unwatched (subscriptions ++ [failingNotification])).map
        (fun r => r.1.store.listed (text "a")) =
        some [some ⟨1, ⟨[], 2⟩, text "a", 100000000000⟩, some ⟨1, ⟨[], 2⟩, text "a", 100000000000⟩] := by
      decide +kernel
    obtain ⟨⟨u, outs⟩, ran, cells⟩ := Option.map_eq_some_iff.mp twice
    refine ⟨u, outs, ran, fun distinct => ?_⟩
    simp only [cells, List.nodup_cons, List.mem_singleton, not_true_eq_false, false_and] at distinct

/-- Without the first client there is nothing to remove before the send that fails. -/
theorem table_intact_early :
    ∃ u outs, run callStep unwatched (subscriptions.tail ++ [failingNotification]) = some (u, outs) ∧
      u.store.listed (text "a") ≠ [] ∧ (u.store.listed (text "a")).Nodup := by
  have along : Along callStep (fun s e => Clocked s e ∧ Clean s e) unwatched
      (subscriptions.tail ++ [failingNotification]) := by
    refine ⟨⟨⟨le_refl 0, le_refl 0⟩, trivial⟩, fun s o first => ?_⟩
    cases first
    refine ⟨⟨fun _ => ⟨(show (0 : Int) ≤ 2000000000 by decide), le_refl _⟩, ?_⟩, fun _ _ _ => trivial⟩
    decide +kernel
  have listed : (run callStep unwatched (subscriptions.tail ++ [failingNotification])).map
      (fun r => (r.1.store.listed (text "a")).isEmpty) = some false := by decide +kernel
  obtain ⟨⟨u, outs⟩, ran, some⟩ := Option.map_eq_some_iff.mp listed
  refine ⟨u, outs, ran, ?_, (table_intact unwatched_fresh along ran (text "a")).1⟩
  rintro none
  simp [none] at some

/-! ### What the notifications are -/

/-- What the calls of a run ask for, expiry goroutines and refused subscriptions left out. -/
inductive Asked where
  | subscribed (clientAddr : UDPAddr) (pathname : Bytes) (expireTime : Int)
  | updated (moment : Subscription → Int) (pathname content : Bytes)

def Call.asked (disk : Disk) : Call Disk → Option Asked
  | .subscribe env clientAddr filePath req =>
    match env.os.readFile disk filePath with
    | .error _ => none
    | .ok _ => some (.subscribed clientAddr req.pathname
        (env.now 0 + req.monitorIntervalSeconds.toNat * 1000000000))
  | .expire _ => none
  | .notify _ moment pathname content => some (.updated moment pathname content)

/-- The purpose of the table: each update goes to everybody who has subscribed with
its pathname and is active when examined, once and in the order of subscribing. -/
def delivered : (history : List Subscription) → List Asked → List (List (UDPAddr × Bytes))
  | _, [] => []
  | history, .subscribed clientAddr pathname expireTime :: rest =>
    delivered (history ++ [⟨history.length, clientAddr, pathname, expireTime⟩]) rest
  | history, .updated moment pathname content :: rest =>
    (concerned history moment pathname).map (fun sub => (sub.clientAddr, content)) ::
      delivered history rest

theorem sentSince_sends (calls : List Effect) {subs : List Subscription}
    (silent : ∀ e ∈ calls, e.datagram? = none) (trace : t.trace = s.trace ++ (calls ++
      subs.map fun sub => .send sub.clientAddr content true)) :
    t.sentSince s = subs.map fun sub => (sub.clientAddr, content) := by
  rw [Store.sentSince, trace, List.drop_left, List.filterMap_append,
    List.filterMap_eq_nil_iff.mpr silent, List.nil_append, List.filterMap_map]
  exact congrFun List.filterMap_eq_map' subs

theorem callStep_delivers {s : Watched Disk} {e : Call Disk × Int}
    (recorded : Recorded s.store s.history s.clock lists) (clocked : Clocked s e) (exact : Exact s e) :
    ∃ t o lists', callStep s e = some (t, o) ∧ t.store.disk = s.store.disk ∧
      Recorded t.store t.history t.clock lists' ∧
      ∀ rest, delivered s.history ((e.1.asked s.store.disk).toList ++ rest) = o.toList ++ delivered t.history rest := by
  obtain ⟨call, ends⟩ := e
  cases call with
  | subscribe env clientAddr filePath req =>
    obtain ⟨lists', after⟩ := @Recorded.subscribed _ _ _ _ _ _ _ recorded clientAddr filePath req clocked.1 clocked.2
    refine ⟨_, _, lists', rfl, subscribe_disk .., after, fun rest => ?_⟩
    cases read : env.os.readFile s.store.disk filePath with
    | error err =>
      rw [subscribe_refused read]
      simp only [Call.asked, read, Store.did, List.drop_length, List.append_nil, Option.toList_none,
        List.nil_append]
    | ok file =>
      have timers := (@subscribe_accepted _ s.store env clientAddr filePath req file read).2.1
      simp only [Call.asked, read, timers, List.drop_left, newSubscription, recorded.allocated,
        Option.toList_some, Option.toList_none, List.nil_append, List.singleton_append, delivered]
  | expire k =>
    obtain ⟨order, sub, waiting, expired⟩ := clocked
    obtain ⟨store, fired, disk, after⟩ := recorded.fireTimer waiting expired order
    exact ⟨⟨store, s.history, ends⟩, none, _, by simp only [callStep, fired, Option.map_some], disk, after,
      fun rest => rfl⟩
  | notify env moment pathname content =>
    have order := (clocked 0).1.trans (clocked 0).2
    obtain ⟨sound, starts, examined⟩ := exact
    rw [recorded.tidy.listed] at examined
    have here : ∀ k sub, (lists pathname)[k]? = some sub → env.now k = moment sub := by
      intro k sub found
      apply examined k sub
      rw [List.getElem?_map, found, Option.map_some]
    have examines : Examines env (lists pathname) moment s.clock ends := by
      refine ⟨here, starts, fun sub member => ?_⟩
      obtain ⟨k, found⟩ := List.getElem?_of_mem member
      rw [← here k sub found]
      exact (clocked k).2
    obtain ⟨store, lists', notified, disk, _, after, sends⟩ := recorded.notify_sent content examines order sound
    refine ⟨⟨store, s.history, ends⟩, some (store.sentSince s.store), lists',
      by simp only [callStep, notified, Option.map_some], disk, after, fun rest => ?_⟩
    rw [sentSince_sends [] (fun e member => absurd member List.not_mem_nil) sends]
    rfl

theorem filterMap_cons_toList {α β : Type} (f : α → Option β) (x : α) (xs : List α) :
    (x :: xs).filterMap f = (f x).toList ++ xs.filterMap f := by
  cases found : f x with
  | none => rw [List.filterMap_cons_none found, Option.toList_none, List.nil_append]
  | some y => rw [List.filterMap_cons_some found, Option.toList_some, List.singleton_append]

theorem run_delivers {s : Watched Disk} {es : List (Call Disk × Int)}
    (recorded : Recorded s.store s.history s.clock lists)
    (along : Along callStep (fun s e => Clocked s e ∧ Exact s e) s es) :
    ∃ u outs, run callStep s es = some (u, outs) ∧
      outs.filterMap id = delivered s.history (es.filterMap fun e => e.1.asked s.store.disk) := by
  induction es generalizing s lists with
  | nil => exact ⟨s, [], rfl, rfl⟩
  | cons e es ih =>
    obtain ⟨⟨clocked, exact⟩, later⟩ := along
    obtain ⟨t, o, lists', stepped, disk, after, delivers⟩ := callStep_delivers recorded clocked exact
    obtain ⟨u, outs, ran, rest⟩ := ih after (later t o stepped)
    refine ⟨u, o :: outs, run_cons_iff.mpr ⟨t, o, outs, stepped, ran, rfl⟩, ?_⟩
    rw [disk] at rest
    rw [filterMap_cons_toList, filterMap_cons_toList, delivers, rest]
    rfl

/-- Every notification of a run in which no send fails goes to exactly the active
subscriptions that the calls before it have made; when the expiry goroutines run
makes no difference. -/
theorem notifications_exact {s : Watched Disk} {es : List (Call Disk × Int)} (fresh : s.Fresh)
    (along : Along callStep (fun s e => Clocked s e ∧ Exact s e) s es) :
    ∃ u outs, run callStep s es = some (u, outs) ∧
      outs.filterMap id = delivered [] (es.filterMap fun e => e.1.asked s.store.disk) ∧
      ∀ es', Along callStep (fun s e => Clocked s e ∧ Exact s e) s es' →
        (es'.filterMap fun e => e.1.asked s.store.disk) = (es.filterMap fun e => e.1.asked s.store.disk) →
        ∃ u' outs', run callStep s es' = some (u', outs') ∧ outs'.filterMap id = outs.filterMap id := by
  obtain ⟨u, outs, ran, delivers⟩ := run_delivers fresh.recorded along
  rw [fresh.history] at delivers
  refine ⟨u, outs, ran, delivers, fun es' along' same => ?_⟩
  obtain ⟨u', outs', ran', delivers'⟩ := run_delivers fresh.recorded along'
  rw [fresh.history, same] at delivers'
  exact ⟨u', outs', ran', delivers'.trans delivers.symm⟩

/-- The first subscription is removed by its expiry goroutine after a second, and the
file is updated after two. -/
def timelyNotification : List (Call FileSystem × Int) :=
  subscriptions ++ [(.expire 0, 1000000000),
    (.notify (FileSystem.env Faults.none 2000000000) (fun _ => 2000000000) (text "a") (text "xy"), 2000000000)]

theorem notifications_exact_timely :
    ∃ u outs, run callStep unwatched timelyNotification = some (u, outs) ∧
      outs.filterMap id = [[(⟨[], 2⟩, text "xy")]] := by
  have along : Along callStep (fun s e => Clocked s e ∧ Exact s e) unwatched timelyNotification := by
    refine ⟨⟨⟨le_refl 0, le_refl 0⟩, trivial⟩, fun s o first => ?_⟩
    cases first
    refine ⟨⟨⟨le_refl 0, le_refl 0⟩, trivial⟩, fun s o second => ?_⟩
    cases second
    refine ⟨⟨⟨(show (0 : Int) ≤ 1000000000 by decide), _, rfl, le_refl _⟩, trivial⟩, fun s o third => ?_⟩
    have order : s.clock ≤ 2000000000 := by
      rw [callStep_clock third]
      decide
    exact ⟨⟨fun _ => ⟨order, le_refl _⟩, fun _ => rfl, fun _ => order, fun _ _ _ => rfl⟩, fun _ _ _ => trivial⟩
  obtain ⟨u, outs, ran, delivers, _⟩ := notifications_exact unwatched_fresh along
  refine ⟨u, outs, ran, delivers.trans ?_⟩
  decide +kernel

end RemoteFile.Server
