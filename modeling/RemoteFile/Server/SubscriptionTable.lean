import RemoteFile.Server.Subscriptions

/-! The subscription table as a map from pathnames to lists. The lists are slices,
so an operation on one of them writes in an array; no two pathnames share one. -/
namespace RemoteFile.Server
open Octets Go

variable {Disk : Type} {arrays : Arrays} {s t : Store Disk} {lists : Bytes → List Subscription}
  {pathname : Bytes} {subs : List Subscription}

/-! ### Slices of subscriptions -/

/-- The slice holds these subscriptions, and anything up to its capacity. -/
def Backs (arrays : Arrays) (h : Header) (subs : List Subscription) : Prop :=
  ∃ spare, arrays[h.array]? = some (subs.map some ++ spare) ∧ h.len = subs.length

/-- A missing key reads as the empty slice. -/
def Holds (arrays : Arrays) : Option Header → List Subscription → Prop
  | none, subs => subs = []
  | some h, subs => Backs arrays h subs

theorem Backs.backing {h : Header} (backs : Backs arrays h subs) :
    ∃ spare, arrays.getD h.array [] = subs.map some ++ spare := by
  obtain ⟨spare, array, _⟩ := backs
  exact ⟨spare, by rw [List.getD_eq_getElem?_getD, array, Option.getD_some]⟩

theorem Backs.lt {h : Header} (backs : Backs arrays h subs) : h.array < arrays.length := by
  obtain ⟨spare, array, _⟩ := backs
  exact (List.getElem?_eq_some_iff.mp array).1

theorem Backs.same {h : Header} {arrays' : Arrays} (backs : Backs arrays h subs)
    (same : arrays'[h.array]? = arrays[h.array]?) : Backs arrays' h subs := by
  obtain ⟨spare, array, len⟩ := backs
  exact ⟨spare, same.trans array, len⟩

/-- The elements that the slice shows. -/
theorem Backs.visible {h : Header} (backs : Backs arrays h subs) :
    (arrays.getD h.array []).take h.len = subs.map some := by
  obtain ⟨spare, backing⟩ := backs.backing
  obtain ⟨_, _, len⟩ := backs
  rw [backing, len]
  exact List.take_left' (List.length_map _)

/-- `append` writes behind the last element, in place or in a new array. -/
theorem appendSubscription_cases (growCap : Nat → Nat) {entry : Option Header} (sub : Subscription)
    (holds : Holds arrays entry subs) :
    (∃ h spare, entry = some h ∧ appendSubscription growCap arrays entry sub =
      (arrays.set h.array (subs.map some ++ some sub :: spare), ⟨h.array, subs.length + 1⟩)) ∨
    ∃ spare, appendSubscription growCap arrays entry sub =
      (arrays ++ [subs.map some ++ some sub :: spare], ⟨arrays.length, subs.length + 1⟩) := by
  cases entry with
  | none =>
    obtain rfl : subs = [] := holds
    exact .inr ⟨_, rfl⟩
  | some h =>
    obtain ⟨spare, backing⟩ := Backs.backing holds
    obtain ⟨_, _, len⟩ := holds
    simp only [appendSubscription, Option.map_some, Option.getD_some, backing, len]
    cases spare with
    | nil =>
      rw [if_neg (by simp), List.append_nil, List.take_of_length_le (by simp)]
      exact .inr ⟨_, rfl⟩
    | cons cell spare =>
      rw [if_pos (by simp), List.set_append_right _ _ (by simp), List.length_map, Nat.sub_self, List.set_cons_zero]
      exact .inl ⟨h, spare, rfl, rfl⟩

theorem appendSubscription_backs (growCap : Nat → Nat) {entry : Option Header} (sub : Subscription)
    (holds : Holds arrays entry subs) :
    Backs (appendSubscription growCap arrays entry sub).1 (appendSubscription growCap arrays entry sub).2
      (subs ++ [sub]) := by
  rcases appendSubscription_cases growCap sub holds with ⟨h, spare, rfl, made⟩ | ⟨spare, made⟩
  · rw [made]
    refine ⟨spare, ?_, by simp⟩
    rw [List.getElem?_set_self (Backs.lt holds)]
    simp
  · rw [made]
    refine ⟨spare, ?_, by simp⟩
    rw [List.getElem?_append_right (Nat.le_refl _), Nat.sub_self]
    simp

/-- Only the list's own array is written, or a new one. -/
theorem appendSubscription_others (growCap : Nat → Nat) {entry : Option Header} (sub : Subscription)
    (holds : Holds arrays entry subs) {a : Nat} (old : a < arrays.length)
    (other : ∀ h, entry = some h → a ≠ h.array) :
    (appendSubscription growCap arrays entry sub).1[a]? = arrays[a]? := by
  rcases appendSubscription_cases growCap sub holds with ⟨h, spare, rfl, made⟩ | ⟨spare, made⟩
  · rw [made]
    exact List.getElem?_set_ne (other h rfl).symm
  · rw [made]
    exact List.getElem?_append_left old

theorem appendSubscription_array (growCap : Nat → Nat) {entry : Option Header} (sub : Subscription)
    (holds : Holds arrays entry subs) :
    (appendSubscription growCap arrays entry sub).2.array = arrays.length ∨
      ∃ h, entry = some h ∧ (appendSubscription growCap arrays entry sub).2.array = h.array := by
  rcases appendSubscription_cases growCap sub holds with ⟨h, spare, rfl, made⟩ | ⟨spare, made⟩
  · exact .inr ⟨h, rfl, by rw [made]⟩
  · exact .inl (by rw [made])

theorem removeSubscription_backs {h : Header} (backs : Backs arrays h subs) (inside : i < subs.length) :
    Backs (removeSubscription arrays h i).1 (removeSubscription arrays h i).2 (subs.eraseIdx i) := by
  have array := backs.lt
  obtain ⟨spare, backing⟩ := backs.backing
  obtain ⟨_, _, len⟩ := backs
  have moved : window (subs.map some ++ spare) (i + 1) subs.length = (subs.drop (i + 1)).map some := by
    rw [window_append_left (by simp), window, List.take_of_length_le (by simp), List.map_drop]
  refine ⟨(subs.map some ++ spare).drop (i + (subs.drop (i + 1)).length), ?_, ?_⟩
  · simp only [removeSubscription, backing, len]
    rw [List.getElem?_set_self array, moved, overwrite, List.length_map, List.eraseIdx_eq_take_drop_succ,
      List.map_append, List.take_append_of_le_length (by simp; omega), List.map_take]
  · simp only [removeSubscription, len]
    rw [List.length_eraseIdx_of_lt inside]

theorem removeSubscription_others {h : Header} {a : Nat} (other : a ≠ h.array) :
    (removeSubscription arrays h i).1[a]? = arrays[a]? := List.getElem?_set_ne other.symm

/-! ### The table -/

/-- The table holds these lists, each in an array of its own. -/
structure Tidy (s : Store Disk) (lists : Bytes → List Subscription) : Prop where
  holds : ∀ p, Holds s.arrays (s.subscriptions p) (lists p)
  apart : ∀ {p q h h'}, s.subscriptions p = some h → s.subscriptions q = some h' → h.array = h'.array → p = q

/-- The list of a pathname, as it lies in memory. -/
def Store.listed (s : Store Disk) (pathname : Bytes) : List (Option Subscription) :=
  match s.subscriptions pathname with
  | none => []
  | some h => (s.arrays.getD h.array []).take h.len

theorem Tidy.listed (tidy : Tidy s lists) (p : Bytes) : s.listed p = (lists p).map some := by
  have holds := tidy.holds p
  unfold Store.listed
  cases found : s.subscriptions p with
  | none =>
    rw [found] at holds
    rw [show lists p = [] from holds]
    rfl
  | some h =>
    rw [found] at holds
    exact Backs.visible holds

theorem Tidy.listed_filterMap (tidy : Tidy s lists) (p : Bytes) :
    (s.listed p).filterMap id = lists p := by
  rw [tidy.listed, List.filterMap_map]
  exact List.filterMap_some

/-- Changing the list of one pathname. -/
theorem Tidy.update (tidy : Tidy s lists) {entry : Option Header}
    (map : t.subscriptions = Function.update s.subscriptions pathname entry)
    (holds : Holds t.arrays entry subs)
    (own : ∀ h, entry = some h → h.array = s.arrays.length ∨
      ∃ old, s.subscriptions pathname = some old ∧ h.array = old.array)
    (others : ∀ a, a < s.arrays.length → (∀ h, s.subscriptions pathname = some h → a ≠ h.array) →
      t.arrays[a]? = s.arrays[a]?) :
    Tidy t (Function.update lists pathname subs) := by
  have inside : ∀ {q h}, s.subscriptions q = some h → h.array < s.arrays.length := by
    intro q h found
    have held := tidy.holds q
    rw [found] at held
    exact Backs.lt held
  have fresh : ∀ {q h h'}, q ≠ pathname → s.subscriptions q = some h → entry = some h' → h.array ≠ h'.array := by
    intro q h h' other found made same
    rcases own h' made with new | ⟨old, before, kept⟩
    · exact absurd (inside found) (by omega)
    · exact other (tidy.apart found before (same.trans kept))
  constructor
  · intro q
    by_cases here : q = pathname
    · subst here
      rw [map, Function.update_self, Function.update_self]
      exact holds
    · rw [map, Function.update_of_ne here, Function.update_of_ne here]
      have held := tidy.holds q
      cases found : s.subscriptions q with
      | none =>
        rw [found] at held
        exact held
      | some h =>
        rw [found] at held
        refine Backs.same held (others _ (Backs.lt held) fun h' found' => ?_)
        intro same
        exact here (tidy.apart found found' same)
  · intro p q h h' left right same
    rw [map] at left right
    by_cases herep : p = pathname <;> by_cases hereq : q = pathname
    · rw [herep, hereq]
    · subst herep
      rw [Function.update_self] at left
      rw [Function.update_of_ne hereq] at right
      exact absurd same.symm (fresh hereq right left)
    · subst hereq
      rw [Function.update_self] at right
      rw [Function.update_of_ne herep] at left
      exact absurd same (fresh herep left right)
    · rw [Function.update_of_ne herep] at left
      rw [Function.update_of_ne hereq] at right
      exact tidy.apart left right same

/-! ### Subscribing -/

variable {env : Env Disk} {clientAddr : UDPAddr} {filePath content : Bytes} {req : SubscribeRequest}

/-- The subscription that `Subscribe` allocates. -/
def newSubscription (env : Env Disk) (clientAddr : UDPAddr) (req : SubscribeRequest) (s : Store Disk) :
    Subscription :=
  { ref := s.allocated, clientAddr, pathname := req.pathname,
    expireTime := env.now 0 + req.monitorIntervalSeconds.toNat * 1000000000 }

theorem subscribe_refused {err : Bytes} (failed : env.os.readFile s.disk filePath = .error err) :
    subscribe env clientAddr filePath req s = (s.did (.readFile filePath), ⟨false, err⟩) := by
  simp only [subscribe, Store.did_disk, failed]

theorem subscribe_accepted {file : Slice UInt8} (found : env.os.readFile s.disk filePath = .ok file) :
    (subscribe env clientAddr filePath req s).2 = ⟨true, []⟩ ∧
      (subscribe env clientAddr filePath req s).1.timers =
        s.timers ++ [newSubscription env clientAddr req s] ∧
      (subscribe env clientAddr filePath req s).1.allocated = s.allocated + 1 := by
  unfold subscribe
  simp only [Store.did_disk, found]
  exact ⟨trivial, rfl, rfl⟩

theorem subscribe_tidy (tidy : Tidy s lists) {file : Slice UInt8}
    (found : env.os.readFile s.disk filePath = .ok file) :
    Tidy (subscribe env clientAddr filePath req s).1
      (Function.update lists req.pathname
        (lists req.pathname ++ [newSubscription env clientAddr req s])) := by
  have holds := tidy.holds req.pathname
  have result : ∃ (t : Store Disk), (subscribe env clientAddr filePath req s).1 = t ∧
      t.arrays = (appendSubscription env.growCap s.arrays (s.subscriptions req.pathname)
        (newSubscription env clientAddr req s)).1 ∧
      t.subscriptions = Function.update s.subscriptions req.pathname
        (some (appendSubscription env.growCap s.arrays (s.subscriptions req.pathname)
          (newSubscription env clientAddr req s)).2) := by
    simp only [subscribe, Store.did_disk, found]
    exact ⟨_, rfl, rfl, rfl⟩
  obtain ⟨t, same, arrays, map⟩ := result
  rw [same]
  refine tidy.update map ?_ ?_ ?_
  · rw [arrays]
    exact appendSubscription_backs env.growCap _ holds
  · rintro h ⟨⟩
    exact appendSubscription_array env.growCap _ holds
  · intro a old other
    rw [arrays]
    exact appendSubscription_others env.growCap _ holds old other

/-! ### Expiry -/

/-- An expiry goroutine removes its subscription, if it is still listed. -/
theorem expire_tidy (tidy : Tidy s lists) (sub : Subscription) :
    Tidy (expire sub s) (Function.update lists sub.pathname
      ((lists sub.pathname).eraseP (·.ref == sub.ref))) := by
  have holds := tidy.holds sub.pathname
  cases found : s.subscriptions sub.pathname with
  | none =>
    rw [found] at holds
    have unlisted : lists sub.pathname = [] := holds
    simp only [expire, found, unlisted, List.eraseP_nil]
    rw [← unlisted, Function.update_eq_self]
    exact tidy
  | some h =>
    rw [found] at holds
    have backs : Backs s.arrays h (lists sub.pathname) := holds
    have search : ((s.arrays.getD h.array []).take h.len).findIdx?
        (fun cell => cell.map Subscription.ref == some sub.ref) =
        (lists sub.pathname).findIdx? (·.ref == sub.ref) := by
      rw [backs.visible, List.findIdx?_map]
      rfl
    rw [List.eraseP_eq_eraseIdx]
    simp only [expire, found, search]
    cases position : (lists sub.pathname).findIdx? (·.ref == sub.ref) with
    | none =>
      dsimp only
      rw [Function.update_eq_self]
      exact tidy
    | some i =>
      have inside := (List.findIdx?_eq_some_iff_findIdx_eq.mp position).1
      refine tidy.update rfl (removeSubscription_backs backs inside) ?_ ?_
      · rintro h' ⟨⟩
        exact .inr ⟨h, found, rfl⟩
      · intro a _ other
        exact removeSubscription_others (other h found)

end RemoteFile.Server
