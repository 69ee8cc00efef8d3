import RemoteFile.Server.FileSystem
import RemoteFile.Server.SubscriptionTable
import Mathlib.Data.List.TakeDrop

/-! One call of `NotifySubscribers`, whatever it finds in the list and whichever
sends fail: whom it tries to reach, and what it leaves in the table. -/
namespace RemoteFile.Server
open Octets Go

variable {Disk : Type} {s t : Store Disk} {lists : Bytes → List Subscription} {env : Env Disk}
  {pathname content : Bytes} {subs : List Subscription}

/-! ### The loop -/

/-- The subscriptions that are active when their turns come. -/
def activeInTurn (env : Env Disk) : (turn : Nat) → List Subscription → List Subscription
  | _, [] => []
  | turn, sub :: subs =>
    if env.now turn < sub.expireTime then sub :: activeInTurn env (turn + 1) subs
    else activeInTurn env (turn + 1) subs

theorem activeInTurn_length_le (env : Env Disk) (turn : Nat) (subs : List Subscription) :
    (activeInTurn env turn subs).length ≤ subs.length := by
  induction subs generalizing turn with
  | nil => exact Nat.le_refl _
  | cons sub subs ih =>
    have later := ih (turn + 1)
    rw [activeInTurn]
    split
    · exact Nat.succ_le_succ later
    · exact Nat.le_succ_of_le later

theorem mem_activeInTurn {turn : Nat} {sub : Subscription} :
    sub ∈ activeInTurn env turn subs ↔
      ∃ k : Nat, subs[k]? = some sub ∧ env.now (turn + k) < sub.expireTime := by
  induction subs generalizing turn with
  | nil => simp [activeInTurn]
  | cons first subs ih =>
    have shift : (∃ k : Nat, (first :: subs)[k]? = some sub ∧ env.now (turn + k) < sub.expireTime) ↔
        (first = sub ∧ env.now turn < sub.expireTime) ∨ sub ∈ activeInTurn env (turn + 1) subs := by
      rw [ih]
      constructor
      · rintro ⟨k, found, alive⟩
        cases k with
        | zero => exact .inl ⟨Option.some.inj found, alive⟩
        | succ k => exact .inr ⟨k, found, by rw [Nat.add_assoc, Nat.add_comm 1]; exact alive⟩
      · rintro (⟨rfl, alive⟩ | ⟨k, found, alive⟩)
        · exact ⟨0, rfl, alive⟩
        · exact ⟨k + 1, found, by rw [Nat.add_comm k, ← Nat.add_assoc]; exact alive⟩
    rw [shift, activeInTurn]
    split
    case isTrue alive =>
      rw [List.mem_cons]
      constructor
      · rintro (rfl | later)
        · exact .inl ⟨rfl, alive⟩
        · exact .inr later
      · rintro (⟨rfl, _⟩ | later)
        · exact .inl rfl
        · exact .inr later
    case isFalse expired =>
      constructor
      · exact .inr
      · rintro (⟨rfl, alive⟩ | later)
        · contradiction
        · exact later

/-- The datagrams to these subscriptions, all sent. -/
def sends (content : Bytes) (subs : List Subscription) : List Effect :=
  subs.map fun sub => .send sub.clientAddr content true

theorem sends_cons (content : Bytes) (sub : Subscription) (subs : List Subscription) :
    sends content (sub :: subs) = .send sub.clientAddr content true :: sends content subs := rfl

/-- Removing the element at hand, seen through the header that the map still has:
the later elements move down, and the last one stays behind once more. -/
theorem removeSubscription_whole {arrays : Arrays} {h : Header} {total : Nat} {done rest tail : List Subscription}
    {sub : Subscription} (whole : Backs arrays ⟨h.array, total⟩ (done ++ sub :: rest ++ tail))
    (len : h.len = (done ++ sub :: rest).length) :
    Backs (removeSubscription arrays h done.length).1 ⟨h.array, total⟩
      (done ++ rest ++ (sub :: rest).getLast (List.cons_ne_nil sub rest) :: tail) := by
  have array := whole.lt
  obtain ⟨spare, backing, size⟩ := whole
  have last : (sub :: rest).drop rest.length = [(sub :: rest).getLast (List.cons_ne_nil sub rest)] :=
    List.drop_length_sub_one (List.cons_ne_nil sub rest)
  have parts : arrays.getD h.array [] =
      done.map some ++ ((sub :: rest).map some ++ (tail.map some ++ spare)) := by
    rw [List.getD_eq_getElem?_getD, backing, Option.getD_some]
    simp only [List.map_append, List.append_assoc]
  have width : (done.map some).length = done.length := List.length_map _
  have moved : window (arrays.getD h.array []) (done.length + 1) h.len = rest.map some := by
    have split : arrays.getD h.array [] =
        (done.map some ++ [some sub]) ++ rest.map some ++ (tail.map some ++ spare) := by
      rw [parts]
      simp
    apply window_middle split
    · simp
    · rw [len]
      simp
      omega
  refine ⟨spare, ?_, ?_⟩
  · have stays : (arrays.getD h.array []).drop (done.length + rest.length) =
        some ((sub :: rest).getLast (List.cons_ne_nil sub rest)) :: (tail.map some ++ spare) := by
      rw [parts, ← List.drop_drop, List.drop_left' width,
        List.drop_append_of_le_length (by simp), ← List.map_drop, last]
      rfl
    simp only [removeSubscription]
    rw [List.getElem?_set_self array, moved, overwrite, List.length_map, stays, parts, List.take_left' width]
    simp
  · simpa [Nat.add_assoc] using size

/-- How the loop ends on the subscriptions that remain. Either every send succeeds,
and the active subscriptions are kept; or a send fails, and the map's header, of
length `total`, shows what is left in the array. -/
inductive Ran (env : Env Disk) (content : Bytes) (s : Store Disk) (h : Header) (total turn : Nat)
    (done rest : List Subscription) (t : Store Disk) : Except Bytes Header → Prop where
  | finished (h' : Header) (backs : Backs t.arrays h' (done ++ activeInTurn env turn rest))
      (array : h'.array = h.array)
      (trace : t.trace = s.trace ++ sends content (activeInTurn env turn rest))
      (sent : ∀ k sub, rest[k]? = some sub → env.now (turn + k) < sub.expireTime →
        env.sendError (turn + k) = none) :
      Ran env content s h total turn done rest t (.ok h')
  | broken (pre post tail : List Subscription) (sub : Subscription) (err : Bytes)
      (split : rest = pre ++ sub :: post)
      (alive : env.now (turn + pre.length) < sub.expireTime)
      (fails : env.sendError (turn + pre.length) = some err)
      (sent : ∀ k sub, pre[k]? = some sub → env.now (turn + k) < sub.expireTime →
        env.sendError (turn + k) = none)
      (whole : Backs t.arrays ⟨h.array, total⟩ (done ++ activeInTurn env turn pre ++ sub :: post ++ tail))
      (stale : post = [] → ∀ x ∈ tail, x = sub)
      (intact : activeInTurn env turn pre = pre → t.arrays = s.arrays)
      (trace : t.trace = s.trace ++ sends content (activeInTurn env turn pre) ++
        [.send sub.clientAddr content false]) :
      Ran env content s h total turn done rest t (.error (text "error sending data to client: " ++ err))

theorem turn_succ (turn k : Nat) : turn + 1 + k = turn + (k + 1) := Nat.add_right_comm turn 1 k

/-- Sends that do not fail in this turn and do not fail in the later ones. -/
theorem unfailing_cons {sub : Subscription} {later : List Subscription} {turn : Nat}
    (first : env.now turn < sub.expireTime → env.sendError turn = none)
    (after : ∀ k x, later[k]? = some x → env.now (turn + 1 + k) < x.expireTime →
      env.sendError (turn + 1 + k) = none) :
    ∀ k x, (sub :: later)[k]? = some x → env.now (turn + k) < x.expireTime → env.sendError (turn + k) = none := by
  intro k x found alive
  cases k with
  | zero =>
    cases found
    exact first alive
  | succ k =>
    rw [← turn_succ] at alive ⊢
    exact after k x found alive

/-- A turn whose send succeeds keeps its subscription. -/
theorem Ran.of_sent {h : Header} {total turn : Nat} {done rest : List Subscription} {sub : Subscription}
    {ended : Except Bytes Header} (alive : env.now turn < sub.expireTime) (sent : env.sendError turn = none)
    (ran : Ran env content (s.did (.send sub.clientAddr content true)) h total (turn + 1) (done ++ [sub]) rest t
      ended) : Ran env content s h total turn done (sub :: rest) t ended := by
  have kept : ∀ later, activeInTurn env turn (sub :: later) = sub :: activeInTurn env (turn + 1) later :=
    fun later => if_pos alive
  cases ran with
  | finished h' backs array trace later =>
    refine .finished h' ?_ array ?_ (unfailing_cons (fun _ => sent) later)
    · rw [kept]
      rw [List.append_assoc] at backs
      exact backs
    · rw [trace, kept, sends_cons, Store.did, List.append_assoc, List.singleton_append]
  | broken pre post tail failed err split alive' fails later whole stale intact trace =>
    rw [turn_succ] at alive' fails
    refine .broken (sub :: pre) post tail failed err (by rw [split, List.cons_append]) alive' fails
      (unfailing_cons (fun _ => sent) later) ?_ stale ?_ ?_
    · rw [kept]
      rw [List.append_assoc done] at whole
      exact whole
    · rw [kept]
      intro all
      exact intact (List.cons.inj all).2
    · rw [trace, kept, sends_cons, Store.did]
      simp only [List.append_assoc, List.cons_append, List.nil_append]

/-- A turn that removes its subscription. -/
theorem Ran.of_removed {h h' : Header} {total turn : Nat} {done rest : List Subscription} {sub : Subscription}
    {ended : Except Bytes Header} {arrays : Arrays} (expired : ¬ env.now turn < sub.expireTime)
    (ran : Ran env content { s with arrays } h' total (turn + 1) done rest t ended)
    (array : h'.array = h.array) : Ran env content s h total turn done (sub :: rest) t ended := by
  have dropped : ∀ later, activeInTurn env turn (sub :: later) = activeInTurn env (turn + 1) later :=
    fun later => if_neg expired
  cases ran with
  | finished h'' backs same trace later =>
    refine .finished h'' ?_ (same.trans array) ?_ (unfailing_cons (fun active => absurd active expired) later)
    · rw [dropped]
      exact backs
    · rw [trace, dropped]
  | broken pre post tail failed err split alive fails later whole stale intact trace =>
    rw [turn_succ] at alive fails
    rw [array] at whole
    refine .broken (sub :: pre) post tail failed err (by rw [split, List.cons_append]) alive fails
      (unfailing_cons (fun active => absurd active expired) later) ?_ stale ?_ ?_
    · rw [dropped]
      exact whole
    · rw [dropped]
      intro all
      have shorter : (activeInTurn env (turn + 1) pre).length ≤ pre.length := activeInTurn_length_le ..
      rw [all, List.length_cons] at shorter
      omega
    · rw [trace, dropped]

/-- What lies behind the list shows its last subscription, also when the first one is passed. -/
theorem stale_cons {sub : Subscription} {rest tail : List Subscription}
    (stale : ∀ x ∈ tail, sub :: rest ≠ [] → (sub :: rest).getLast? = some x) :
    ∀ x ∈ tail, rest ≠ [] → rest.getLast? = some x := by
  intro x member more
  have last := stale x member (List.cons_ne_nil _ _)
  rw [List.getLast?_cons_of_ne_nil more] at last
  exact last

theorem notifyLoop_ran (content : Bytes) {h : Header} {total turn : Nat} {done rest tail : List Subscription}
    (whole : Backs s.arrays ⟨h.array, total⟩ (done ++ rest ++ tail)) (len : h.len = (done ++ rest).length)
    (stale : ∀ x ∈ tail, rest ≠ [] → rest.getLast? = some x) :
    ∃ t ended, notifyLoop env content rest.length turn done.length h s = some (t, ended) ∧
      (∀ a, a ≠ h.array → t.arrays[a]? = s.arrays[a]?) ∧ Ran env content s h total turn done rest t ended := by
  induction rest generalizing done tail turn h s with
  | nil =>
    refine ⟨s, .ok h, rfl, fun a _ => rfl, .finished h ?_ rfl ?_ ?_⟩
    · obtain ⟨spare, backing, size⟩ := whole
      refine ⟨tail.map some ++ spare, ?_, len⟩
      rw [backing, List.append_nil, List.map_append, List.append_assoc, activeInTurn, List.append_nil]
    · simp [sends, activeInTurn]
    · intro k sub found
      contradiction
  | cons sub rest ih =>
    have here : (s.arrays.getD h.array [])[done.length]? = some (some sub) := by
      obtain ⟨spare, backing⟩ := whole.backing
      rw [backing]
      simp
    simp only [List.length_cons, notifyLoop, here]
    by_cases alive : env.now turn < sub.expireTime
    · rw [if_pos alive]
      cases outcome : env.sendError turn with
      | some err =>
        refine ⟨_, _, rfl, fun a _ => rfl, .broken [] rest tail sub err rfl alive outcome ?_ ?_ ?_ ?_ ?_⟩
        · intro k x found
          contradiction
        · rw [activeInTurn, List.append_nil]
          exact whole
        · rintro rfl x member
          exact (Option.some.inj (stale x member (List.cons_ne_nil _ _))).symm
        · exact fun _ => rfl
        · simp [Store.did, sends, activeInTurn]
      | none =>
        have next : Backs (s.did (.send sub.clientAddr content true)).arrays ⟨h.array, total⟩
            (done ++ [sub] ++ rest ++ tail) := by
          rw [List.append_assoc done]
          exact whole
        obtain ⟨t, ended, looped, others, ran⟩ := @ih _ h (turn + 1) _ _ next (by simp [len]) (stale_cons stale)
        rw [List.length_append, List.length_singleton] at looped
        exact ⟨t, ended, looped, others, ran.of_sent alive outcome⟩
    · rw [if_neg alive]
      have removed := removeSubscription_whole whole len
      have next : (removeSubscription s.arrays h done.length).2.len = (done ++ rest).length := by
        simp only [removeSubscription, len]
        simp
      have stale' : ∀ x ∈ (sub :: rest).getLast (List.cons_ne_nil sub rest) :: tail,
          rest ≠ [] → rest.getLast? = some x := by
        intro x member more
        rcases List.mem_cons.mp member with rfl | old
        · rw [List.getLast_cons more, List.getLast?_eq_some_getLast more]
        · exact stale_cons stale x old more
      obtain ⟨t, ended, looped, others, ran⟩ :=
        @ih { s with arrays := (removeSubscription s.arrays h done.length).1 }
          (removeSubscription s.arrays h done.length).2 (turn + 1) _ _ removed next stale'
      refine ⟨t, ended, looped, fun a other => ?_, ran.of_removed alive rfl⟩
      rw [others a other]
      exact removeSubscription_others other

/-! ### The call -/

/-- How a call ends on the list of its pathname, and the list it leaves. -/
inductive Notified (env : Env Disk) (content : Bytes) (s : Store Disk) (subs : List Subscription)
    (t : Store Disk) : (kept : List Subscription) → Option Bytes → Prop where
  | finished (trace : t.trace = s.trace ++ sends content (activeInTurn env 0 subs))
      (sent : ∀ k sub, subs[k]? = some sub → env.now k < sub.expireTime → env.sendError k = none) :
      Notified env content s subs t (activeInTurn env 0 subs) none
  /-- The map keeps the old header, which shows the last subscription of the list once
  more for each one that was removed. -/
  | broken (pre post tail : List Subscription) (sub : Subscription) (err : Bytes)
      (split : subs = pre ++ sub :: post) (alive : env.now pre.length < sub.expireTime)
      (fails : env.sendError pre.length = some err)
      (sent : ∀ k sub, pre[k]? = some sub → env.now k < sub.expireTime → env.sendError k = none)
      (stale : post = [] → ∀ x ∈ tail, x = sub) (intact : activeInTurn env 0 pre = pre → tail = [])
      (trace : t.trace = s.trace ++ sends content (activeInTurn env 0 pre) ++
        [.send sub.clientAddr content false]) :
      Notified env content s subs t (activeInTurn env 0 pre ++ sub :: post ++ tail)
        (some (text "error sending data to client: " ++ err))

/-- Every call returns, and the table stays one of separate lists. -/
theorem notifySubscribers_notified (content : Bytes) (holds : Holds s.arrays (s.subscriptions pathname) subs) :
    ∃ t err kept, notifySubscribers env pathname content s = some (t, err) ∧
      Notified env content s subs t kept err ∧ Holds t.arrays (t.subscriptions pathname) kept ∧
      ∀ lists, Tidy s lists → Tidy t (Function.update lists pathname kept) := by
  unfold notifySubscribers
  cases found : s.subscriptions pathname with
  | none =>
    rw [found] at holds
    obtain rfl : subs = [] := holds
    refine ⟨s, none, [], rfl, .finished (by simp [sends, activeInTurn]) ?_, ?_, ?_⟩
    · intro k sub listed
      contradiction
    · rw [found]
      rfl
    · intro lists tidy
      have empty := tidy.holds pathname
      rw [found] at empty
      rw [← show lists pathname = [] from empty, Function.update_eq_self]
      exact tidy
  | some h =>
    rw [found] at holds
    have backs : Backs s.arrays h subs := holds
    have len : h.len = subs.length := by
      obtain ⟨_, _, len⟩ := backs
      exact len
    have whole : Backs s.arrays ⟨h.array, subs.length⟩ ([] ++ subs ++ []) := by
      rw [List.append_nil, List.nil_append, ← len]
      exact backs
    obtain ⟨u, ended, looped, others, ran⟩ := @notifyLoop_ran _ s env content h subs.length 0 [] subs [] whole
      len (fun x member => absurd member List.not_mem_nil)
    have map : u.subscriptions = s.subscriptions := (notifyLoop_frame looped).2.2.2
    rw [List.length_nil] at looped
    simp only [len, looped, Option.bind_eq_bind, Option.bind_some]
    cases ran with
    | finished h' backs' array trace sent =>
      simp only [Nat.zero_add] at sent
      have entry : Holds u.arrays (if h'.len = 0 then none else some h') (activeInTurn env 0 subs) := by
        split
        case isTrue empty =>
          obtain ⟨_, _, size⟩ := backs'
          exact List.length_eq_zero_iff.mp (size.symm.trans empty)
        case isFalse => exact backs'
      refine ⟨_, none, _, rfl, .finished trace sent, ?_, fun lists tidy => ?_⟩
      · dsimp only
        rw [Function.update_self]
        exact entry
      · refine tidy.update (congrArg (Function.update · pathname _) map) entry ?_ ?_
        · intro h'' made
          split at made
          · cases made
          · cases made
            exact .inr ⟨h, found, array⟩
        · intro a _ other
          exact others a (other h found)
    | broken pre post tail sub err split alive fails sent whole' stale intact trace =>
      simp only [Nat.zero_add] at alive fails sent
      have entry : Backs u.arrays h (activeInTurn env 0 pre ++ sub :: post ++ tail) := by
        have same : h = ⟨h.array, subs.length⟩ := by rw [← len]
        rw [same]
        exact whole'
      have untouched : activeInTurn env 0 pre = pre → tail = [] := by
        intro all
        obtain ⟨_, _, size⟩ := entry
        rw [all, len, split] at size
        simpa using size
      refine ⟨u, _, _, rfl, .broken pre post tail sub err split alive fails sent stale untouched trace, ?_,
        fun lists tidy => ?_⟩
      · rw [map, found]
        exact entry
      · have unchanged : u.subscriptions = Function.update s.subscriptions pathname (some h) := by
          rw [map, ← found, Function.update_eq_self]
        refine tidy.update unchanged entry ?_ ?_
        · rintro h'' ⟨⟩
          exact .inr ⟨h, found, rfl⟩
        · intro a _ other
          exact others a (other h found)

/-! ### Tables that nothing can spoil -/

/-- The lists of the table lie in arrays of their own. -/
def Store.WellFormed (s : Store Disk) : Prop := ∃ lists, Tidy s lists

theorem Store.WellFormed.frame (sound : s.WellFormed) (arrays : t.arrays = s.arrays)
    (map : t.subscriptions = s.subscriptions) : t.WellFormed := by
  obtain ⟨lists, tidy⟩ := sound
  refine ⟨lists, ?_, ?_⟩
  · rw [arrays, map]
    exact tidy.holds
  · rw [map]
    exact tidy.apart

theorem Store.fresh_wellFormed (d : FileSystem) : (Store.fresh d).WellFormed := by
  refine ⟨fun _ => [], fun _ => rfl, ?_⟩
  intro p q h h' found
  contradiction

/-- A notification returns, and leaves such a table. -/
theorem handleNotification_returns (sound : s.WellFormed) (env : Env Disk) (pathname content : Bytes) :
    ∃ t, handleNotification env pathname content s = some t ∧ t.WellFormed := by
  obtain ⟨lists, tidy⟩ := sound.frame (t := s.did (.notify pathname content)) rfl rfl
  obtain ⟨t, err, kept, notified, _, _, after⟩ :=
    @notifySubscribers_notified _ _ env pathname _ content (tidy.holds pathname)
  exact ⟨t, congrArg (Option.map Prod.fst) notified, _, after lists tidy⟩

theorem subscribe_wellFormed (sound : s.WellFormed) (env : Env Disk) (clientAddr : UDPAddr) (filePath : Bytes)
    (req : SubscribeRequest) : (subscribe env clientAddr filePath req s).1.WellFormed := by
  obtain ⟨lists, tidy⟩ := sound
  cases read : env.os.readFile s.disk filePath with
  | error err =>
    rw [subscribe_refused read]
    exact ⟨lists, tidy.holds, tidy.apart⟩
  | ok file => exact ⟨_, subscribe_tidy tidy read⟩

theorem fireTimer_wellFormed (sound : s.WellFormed) {k : Nat} (fired : fireTimer s k = some t) : t.WellFormed := by
  obtain ⟨sub, _, rfl⟩ := Option.map_eq_some_iff.mp fired
  obtain ⟨lists, tidy⟩ := sound.frame (t := { s with timers := s.timers.eraseIdx k }) rfl rfl
  exact ⟨_, expire_tidy tidy sub⟩

/-! ### Calls without a late failure -/

/-- A send that fails does so before anything has been removed in the same call. -/
def NoLateFailure (env : Env Disk) : (turn : Nat) → (removed : Bool) → List Subscription → Prop
  | _, _, [] => True
  | turn, removed, sub :: subs =>
    if env.now turn < sub.expireTime then
      if (env.sendError turn).isSome then removed = false else NoLateFailure env (turn + 1) removed subs
    else NoLateFailure env (turn + 1) true subs

instance NoLateFailure.decidable (env : Env Disk) :
    (turn : Nat) → (removed : Bool) → (subs : List Subscription) → Decidable (NoLateFailure env turn removed subs)
  | _, _, [] => .isTrue trivial
  | turn, removed, sub :: subs =>
    have := decidable env (turn + 1) removed subs
    have := decidable env (turn + 1) true subs
    inferInstanceAs (Decidable (if env.now turn < sub.expireTime then
      if (env.sendError turn).isSome then removed = false else NoLateFailure env (turn + 1) removed subs
      else NoLateFailure env (turn + 1) true subs))

theorem noLateFailure_of_sent (sound : ∀ turn, env.sendError turn = none) :
    NoLateFailure env turn removed subs := by
  induction subs generalizing turn removed with
  | nil => trivial
  | cons sub subs ih =>
    simp only [NoLateFailure, sound, Option.isSome_none, Bool.false_eq_true, if_false]
    split <;> exact ih

/-- The subscription is active when it is examined. -/
def active (moment : Subscription → Int) (sub : Subscription) : Bool := moment sub < sub.expireTime

theorem activeInTurn_eq_filter {moment : Subscription → Int} {turn : Nat}
    (examined : ∀ k sub, subs[k]? = some sub → env.now (turn + k) = moment sub) :
    activeInTurn env turn subs = subs.filter (active moment) := by
  induction subs generalizing turn with
  | nil => rfl
  | cons sub subs ih =>
    have now : env.now turn = moment sub := examined 0 sub rfl
    have later : activeInTurn env (turn + 1) subs = subs.filter (active moment) := by
      apply ih
      intro k x found
      rw [Nat.add_assoc, Nat.add_comm 1 k]
      exact examined (k + 1) x found
    rw [activeInTurn, later, now]
    split
    case isTrue alive =>
      have listed : active moment sub = true := decide_eq_true alive
      rw [List.filter_cons_of_pos listed]
    case isFalse expired =>
      have unlisted : ¬ active moment sub = true := fun listed => expired (of_decide_eq_true listed)
      rw [List.filter_cons_of_neg unlisted]

/-- Before the failure nothing has been removed. -/
theorem NoLateFailure.early {pre post : List Subscription} {sub : Subscription} {turn : Nat} {removed : Bool}
    (clean : NoLateFailure env turn removed (pre ++ sub :: post))
    (alive : env.now (turn + pre.length) < sub.expireTime) (fails : env.sendError (turn + pre.length) ≠ none)
    (sent : ∀ k x, pre[k]? = some x → env.now (turn + k) < x.expireTime → env.sendError (turn + k) = none) :
    removed = false ∧ activeInTurn env turn pre = pre := by
  induction pre generalizing turn removed with
  | nil =>
    rw [List.length_nil, Nat.add_zero] at alive fails
    rw [List.nil_append, NoLateFailure, if_pos alive, if_pos (Option.isSome_iff_ne_none.mpr fails)] at clean
    exact ⟨clean, rfl⟩
  | cons first pre ih =>
    have shift : ∀ k, turn + 1 + k = turn + (k + 1) := fun k => Nat.add_right_comm turn 1 k
    rw [List.length_cons, ← shift] at alive fails
    have sent' : ∀ k x, pre[k]? = some x → env.now (turn + 1 + k) < x.expireTime →
        env.sendError (turn + 1 + k) = none := by
      intro k x found
      rw [shift]
      exact sent (k + 1) x found
    simp only [List.cons_append, NoLateFailure] at clean
    by_cases active : env.now turn < first.expireTime
    · have succeeds : env.sendError turn = none := sent 0 first rfl active
      rw [if_pos active, succeeds, Option.isSome_none, if_neg Bool.false_ne_true] at clean
      obtain ⟨kept, all⟩ := ih clean alive fails sent'
      exact ⟨kept, by rw [activeInTurn, if_pos active, all]⟩
    · rw [if_neg active] at clean
      obtain ⟨impossible, _⟩ := ih clean alive fails sent'
      contradiction

/-- What a call of `NotifySubscribers` does to the table: it sends to the active
subscriptions of the pathname and keeps these, or a send fails and it keeps all. -/
theorem notifySubscribers_tidy (content : Bytes) {moment : Subscription → Int} (tidy : Tidy s lists)
    (examined : ∀ k sub, (lists pathname)[k]? = some sub → env.now k = moment sub)
    (clean : NoLateFailure env 0 false (lists pathname)) :
    ∃ t err, notifySubscribers env pathname content s = some (t, err) ∧
      (err = none → Tidy t (Function.update lists pathname ((lists pathname).filter (active moment))) ∧
        t.trace = s.trace ++
          ((lists pathname).filter (active moment)).map fun sub => .send sub.clientAddr content true) ∧
      (err ≠ none → Tidy t lists ∧ ∃ turn, env.sendError turn ≠ none) := by
  obtain ⟨t, err, kept, notified, ending, _, after⟩ :=
    @notifySubscribers_notified _ s env pathname _ content (tidy.holds pathname)
  have kept_tidy := after lists tidy
  have filtered : activeInTurn env 0 (lists pathname) = (lists pathname).filter (active moment) := by
    apply activeInTurn_eq_filter
    intro k sub found
    rw [Nat.zero_add]
    exact examined k sub found
  refine ⟨t, err, notified, ?_⟩
  cases ending with
  | finished trace sent =>
    rw [filtered] at kept_tidy trace
    exact ⟨fun _ => ⟨kept_tidy, trace⟩, fun failed => absurd rfl failed⟩
  | broken pre post tail sub err split alive fails sent stale intact trace =>
    have failed : env.sendError pre.length ≠ none := by
      rw [fails]
      exact Option.some_ne_none err
    rw [split] at clean
    obtain ⟨_, all⟩ := clean.early (by rw [Nat.zero_add]; exact alive) (by rw [Nat.zero_add]; exact failed)
      (by simpa only [Nat.zero_add] using sent)
    rw [all, intact all, List.append_nil, ← split, Function.update_eq_self] at kept_tidy
    exact ⟨fun none => absurd none (Option.some_ne_none _), fun _ => ⟨kept_tidy, _, failed⟩⟩

/-! ### Whom a call reaches -/

def Effect.attempt? : Effect → Option (UDPAddr × Bytes)
  | .send addr content _ => some (addr, content)
  | _ => none

theorem Holds.listed {kept : List Subscription} (holds : Holds t.arrays (t.subscriptions pathname) kept) :
    t.listed pathname = kept.map some := by
  unfold Store.listed
  cases found : t.subscriptions pathname with
  | none =>
    rw [found] at holds
    rw [show kept = [] from holds]
    rfl
  | some h =>
    rw [found] at holds
    exact Backs.visible holds

theorem mem_activeInTurn_zero {sub : Subscription} :
    sub ∈ activeInTurn env 0 subs ↔ ∃ k : Nat, subs[k]? = some sub ∧ env.now k < sub.expireTime := by
  simpa only [Nat.zero_add] using @mem_activeInTurn _ env subs 0 sub

end RemoteFile.Server
