import RemoteFile.Core.Slice
import RemoteFile.Wire.Responses
import Mathlib.Logic.Function.Basic

/-! The server's state below the router: the disk, the subscription table and a
record of the calls made to the outside. The lists of the table are Go slices,
that is headers over backing arrays that `append` writes in place. -/
namespace RemoteFile
open Octets Go

/-- `net.UDPAddr` -/
structure UDPAddr where
  ip : Bytes
  port : UInt16
  deriving DecidableEq

namespace Server

/-- A `*Subscription`: `ref` tells pointers apart. Times are in nanoseconds. -/
structure Subscription where
  ref : Nat
  clientAddr : UDPAddr
  pathname : Bytes
  expireTime : Int
  deriving DecidableEq

/-- A slice header with offset 0, as all headers of the table are. -/
structure Header where
  array : Nat
  len : Nat
  deriving DecidableEq

/-- Calls to the file system and the network, and calls of `NotifySubscribers`. -/
inductive Effect where
  | readFile (path : Bytes)
  | stat (path : Bytes)
  | writeFile (path content : Bytes)
  | notify (pathname content : Bytes)
  | send (addr : UDPAddr) (content : Bytes) (delivered : Bool)
  deriving DecidableEq

/-- The calls of package `os`; errors are their texts. `stat` gives the
modification time in nanoseconds. -/
structure OS (Disk : Type) where
  readFile : Disk → Bytes → Except Bytes (Slice UInt8)
  writeFile : Disk → Bytes → Bytes → Disk × Option Bytes
  stat : Disk → Bytes → Except Bytes Int

/-- What the surroundings answer while one packet is handled: the file system,
successive readings of the clock, successive send errors, and the capacity that
`append` allocates. -/
structure Env (Disk : Type) where
  os : OS Disk
  now : Nat → Int
  sendError : Nat → Option Bytes
  growCap : Nat → Nat
  growCap_lt : ∀ n, n < growCap n

abbrev Arrays := List (List (Option Subscription))

structure Store (Disk : Type) where
  disk : Disk
  arrays : Arrays
  subscriptions : Bytes → Option Header
  /-- The subscriptions whose expiry goroutine has not run yet. -/
  timers : List Subscription
  /-- The number of subscriptions allocated so far. -/
  allocated : Nat
  trace : List Effect

variable {Disk : Type}

def Store.did (s : Store Disk) (e : Effect) : Store Disk := { s with trace := s.trace ++ [e] }

@[simp] theorem Store.did_disk (s : Store Disk) (e : Effect) : (s.did e).disk = s.disk := rfl

/-- `append(subs, sub)`: in place when the capacity allows, else in a new array. -/
def appendSubscription (growCap : Nat → Nat) (arrays : Arrays) (subs : Option Header)
    (sub : Subscription) : Arrays × Header :=
  let len := (subs.map Header.len).getD 0
  let backing := (subs.map fun h => arrays.getD h.array []).getD []
  match subs with
  | some h =>
    if len < backing.length then
      (arrays.set h.array (backing.set len (some sub)), { h with len := len + 1 })
    else
      (arrays ++ [backing.take len ++ some sub :: List.replicate (growCap len - (len + 1)) none],
        ⟨arrays.length, len + 1⟩)
  | none =>
    (arrays ++ [some sub :: List.replicate (growCap 0 - 1) none], ⟨arrays.length, 1⟩)

/-- `append(subs[:i], subs[i+1:]...)`: the later elements move down in place. -/
def removeSubscription (arrays : Arrays) (subs : Header) (i : Nat) : Arrays × Header :=
  let backing := arrays.getD subs.array []
  (arrays.set subs.array (overwrite backing i (window backing (i + 1) subs.len)),
    { subs with len := subs.len - 1 })

/-- `Subscribe` -/
def subscribe (env : Env Disk) (clientAddr : UDPAddr) (filePath : Bytes) (req : SubscribeRequest)
    (s : Store Disk) : Store Disk × SubscribeResponse :=
  let s := s.did (.readFile filePath)
  match env.os.readFile s.disk filePath with
  | .error err => (s, ⟨false, err⟩)
  | .ok _ =>
    let subscription : Subscription :=
      { ref := s.allocated, clientAddr, pathname := req.pathname,
        expireTime := env.now 0 + req.monitorIntervalSeconds.toNat * 1000000000 }
    let (arrays, subs) :=
      appendSubscription env.growCap s.arrays (s.subscriptions req.pathname) subscription
    ({ s with
        arrays, allocated := s.allocated + 1, timers := s.timers ++ [subscription],
        subscriptions := Function.update s.subscriptions req.pathname (some subs) },
      ⟨true, []⟩)

/-- The body of a subscription's expiry goroutine, once its sleep is over. -/
def expire (subscription : Subscription) (s : Store Disk) : Store Disk :=
  match s.subscriptions subscription.pathname with
  | none => s
  | some subs =>
    match ((s.arrays.getD subs.array []).take subs.len).findIdx?
        fun sub => sub.map Subscription.ref == some subscription.ref with
    | none => s
    | some i =>
      let (arrays, subs) := removeSubscription s.arrays subs i
      { s with arrays, subscriptions :=
          Function.update s.subscriptions subscription.pathname (some subs) }

/-- One of the waiting goroutines runs. -/
def fireTimer (s : Store Disk) (k : Nat) : Option (Store Disk) :=
  (s.timers[k]?).map fun subscription =>
    expire subscription { s with timers := s.timers.eraseIdx k }

/-- The loop `for i := 0; i < len(subs);` of `NotifySubscribers`: each turn either
moves `i` on or shortens the local slice, so `remaining` is `len(subs) - i`. It
ends with the local header, or with the error of a failed send. -/
def notifyLoop (env : Env Disk) (updatedContent : Bytes) :
    (remaining turn i : Nat) → Header → Store Disk → Option (Store Disk × Except Bytes Header)
  | 0, _, _, subs, s => some (s, .ok subs)
  | remaining + 1, turn, i, subs, s =>
    match (s.arrays.getD subs.array [])[i]? with
    | some (some sub) =>
      if env.now turn < sub.expireTime then
        let s := s.did (.send sub.clientAddr updatedContent (env.sendError turn).isNone)
        match env.sendError turn with
        | some err => some (s, .error (text "error sending data to client: " ++ err))
        | none => notifyLoop env updatedContent remaining (turn + 1) (i + 1) subs s
      else
        let removed := removeSubscription s.arrays subs i
        notifyLoop env updatedContent remaining (turn + 1) i removed.2 { s with arrays := removed.1 }
    | _ => none

/-- `NotifySubscribers`; its error leaves the map as it was. -/
def notifySubscribers (env : Env Disk) (pathname updatedContent : Bytes) (s : Store Disk) :
    Option (Store Disk × Option Bytes) :=
  match s.subscriptions pathname with
  | none => some (s, none)
  | some subs => do
    let (s, ended) ← notifyLoop env updatedContent subs.len 0 0 subs s
    match ended with
    | .error err => some (s, some err)
    | .ok subs =>
      let entry := if subs.len = 0 then none else some subs
      some ({ s with subscriptions := Function.update s.subscriptions pathname entry }, none)

/-- `HandleNotification` drops the error. -/
def handleNotification (env : Env Disk) (pathname updatedContent : Bytes) (s : Store Disk) :
    Option (Store Disk) :=
  (notifySubscribers env pathname updatedContent (s.did (.notify pathname updatedContent))).map
    Prod.fst

/-! ### Notification touches neither the disk nor the timers -/

theorem notifyLoop_frame {env : Env Disk} {content : Bytes} {s t : Store Disk}
    {ended : Except Bytes Header} (h : notifyLoop env content n turn i subs s = some (t, ended)) :
    t.disk = s.disk ∧ t.timers = s.timers ∧ t.allocated = s.allocated ∧
      t.subscriptions = s.subscriptions := by
  induction n generalizing turn i subs s with
  | zero =>
    cases h
    exact ⟨rfl, rfl, rfl, rfl⟩
  | succ n ih =>
    unfold notifyLoop at h
    split at h
    case h_2 => contradiction
    dsimp only at h
    split at h
    · split at h
      · cases h
        exact ⟨rfl, rfl, rfl, rfl⟩
      · have rest := ih h
        exact rest
    · have rest := ih h
      exact rest

theorem notifySubscribers_frame {env : Env Disk} {pathname content : Bytes} {s t : Store Disk}
    {err : Option Bytes} (h : notifySubscribers env pathname content s = some (t, err)) :
    t.disk = s.disk ∧ t.timers = s.timers ∧ t.allocated = s.allocated := by
  unfold notifySubscribers at h
  split at h
  · cases h
    exact ⟨rfl, rfl, rfl⟩
  · obtain ⟨⟨u, ended⟩, looped, rest⟩ := Option.bind_eq_some_iff.mp h
    obtain ⟨disk, timers, allocated, _⟩ := notifyLoop_frame looped
    cases ended with
    | error err =>
      cases rest
      exact ⟨disk, timers, allocated⟩
    | ok subs =>
      cases rest
      exact ⟨disk, timers, allocated⟩

theorem handleNotification_disk {env : Env Disk} {pathname content : Bytes} {s t : Store Disk}
    (h : handleNotification env pathname content s = some t) : t.disk = s.disk := by
  obtain ⟨⟨u, err⟩, notified, rfl⟩ := Option.map_eq_some_iff.mp h
  exact (notifySubscribers_frame notified).1

/-- The effect is a datagram with this content to a subscriber. -/
def Effect.Sends (content : Bytes) (e : Effect) : Prop :=
  ∃ addr delivered, e = .send addr content delivered

theorem notifyLoop_trace {env : Env Disk} {content : Bytes} {s t : Store Disk}
    {ended : Except Bytes Header} (h : notifyLoop env content n turn i subs s = some (t, ended)) :
    ∃ sends, t.trace = s.trace ++ sends ∧ ∀ e ∈ sends, e.Sends content := by
  induction n generalizing turn i subs s with
  | zero =>
    cases h
    exact ⟨[], (List.append_nil _).symm, nofun⟩
  | succ n ih =>
    unfold notifyLoop at h
    split at h
    case h_2 => contradiction
    case h_1 sub _ =>
      dsimp only at h
      have here : Effect.Sends content (.send sub.clientAddr content (env.sendError turn).isNone) :=
        ⟨_, _, rfl⟩
      split at h
      · split at h
        · cases h
          exact ⟨[_], rfl, by simpa using here⟩
        · obtain ⟨sends, trace, all⟩ := ih h
          refine ⟨_ :: sends, ?_, List.forall_mem_cons.mpr ⟨here, all⟩⟩
          rw [trace, Store.did, List.append_assoc, List.singleton_append]
      · obtain ⟨sends, trace, all⟩ := ih h
        exact ⟨sends, trace, all⟩

/-- One call of `NotifySubscribers`, and nothing but its datagrams after it. -/
theorem handleNotification_trace {env : Env Disk} {pathname content : Bytes} {s t : Store Disk}
    (h : handleNotification env pathname content s = some t) :
    ∃ sends, t.trace = s.trace ++ .notify pathname content :: sends ∧ ∀ e ∈ sends, e.Sends content := by
  obtain ⟨⟨u, err⟩, notified, rfl⟩ := Option.map_eq_some_iff.mp h
  have first : (s.did (.notify pathname content)).trace = s.trace ++ [.notify pathname content] := rfl
  unfold notifySubscribers at notified
  split at notified
  · cases notified
    exact ⟨[], first, nofun⟩
  · obtain ⟨⟨v, ended⟩, looped, rest⟩ := Option.bind_eq_some_iff.mp notified
    obtain ⟨sends, trace, all⟩ := notifyLoop_trace looped
    refine ⟨sends, ?_, all⟩
    rw [first, List.append_assoc, List.singleton_append] at trace
    cases ended with
    | error err =>
      cases rest
      exact trace
    | ok subs =>
      cases rest
      exact trace

theorem subscribe_trace (env : Env Disk) (clientAddr : UDPAddr) (filePath : Bytes)
    (req : SubscribeRequest) (s : Store Disk) :
    (subscribe env clientAddr filePath req s).1.trace = s.trace ++ [.readFile filePath] := by
  unfold subscribe
  dsimp only
  split <;> rfl

theorem subscribe_disk (env : Env Disk) (clientAddr : UDPAddr) (filePath : Bytes)
    (req : SubscribeRequest) (s : Store Disk) :
    (subscribe env clientAddr filePath req s).1.disk = s.disk := by
  unfold subscribe
  dsimp only
  split <;> rfl

theorem fireTimer_disk {s t : Store Disk} {k : Nat} (fired : fireTimer s k = some t) : t.disk = s.disk := by
  obtain ⟨subscription, _, rfl⟩ := Option.map_eq_some_iff.mp fired
  unfold expire
  split
  · rfl
  · split <;> rfl

end Server
end RemoteFile
