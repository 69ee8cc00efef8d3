import RemoteFile.Server.FileService
import RemoteFile.Server.Notification

/-! Who is in the subscription table, and who is sent a notification. A subscription gets into
it by a subscribe request that succeeds, and a notification goes to a subscriber of the pathname
whose file has just taken the content. -/
namespace RemoteFile.Server
open Octets Go

variable {Disk κ : Type} {locate : Bytes → κ} {contents : Disk → κ → Option Bytes} {env : Env Disk}
  {path pathname content : Bytes} {addr : UDPAddr} {s t : Store Disk} {P Q : Bytes → UDPAddr → Prop}

/-- The table lists under a pathname only clients that may be there. -/
def Store.Enlists (s : Store Disk) (Q : Bytes → UDPAddr → Prop) : Prop :=
  ∃ lists, Tidy s lists ∧ ∀ p, ∀ sub ∈ lists p, Q p sub.clientAddr

namespace Store.Enlists

theorem empty (map : s.subscriptions = fun _ => none) : s.Enlists Q := by
  refine ⟨fun _ => [], ⟨?_, ?_⟩, fun p sub member => absurd member List.not_mem_nil⟩
  · intro p
    rw [map]
    rfl
  · intro p q h h' found
    rw [map] at found
    contradiction

theorem mono (enlists : s.Enlists P) (weaker : ∀ p c, P p c → Q p c) : s.Enlists Q := by
  obtain ⟨lists, tidy, all⟩ := enlists
  exact ⟨lists, tidy, fun p sub member => weaker p _ (all p sub member)⟩

theorem frame (enlists : s.Enlists Q) (arrays : t.arrays = s.arrays) (map : t.subscriptions = s.subscriptions) :
    t.Enlists Q := by
  obtain ⟨lists, tidy, all⟩ := enlists
  refine ⟨lists, ⟨?_, ?_⟩, all⟩
  · rw [arrays, map]
    exact tidy.holds
  · rw [map]
    exact tidy.apart

/-- Changing one list to another one of clients that may be there. -/
theorem update {lists : Bytes → List Subscription} {subs : List Subscription}
    (all : ∀ p, ∀ sub ∈ lists p, Q p sub.clientAddr) (tidy : Tidy t (Function.update lists pathname subs))
    (new : ∀ sub ∈ subs, Q pathname sub.clientAddr) : t.Enlists Q := by
  refine ⟨_, tidy, ?_⟩
  intro p sub member
  by_cases own : p = pathname
  · subst own
    rw [Function.update_self] at member
    exact new sub member
  · rw [Function.update_of_ne own] at member
    exact all p sub member

end Store.Enlists

/-! ### Notifications -/

/-- The loop moves cells of the list it goes through, and shortens its header. -/
theorem notifyLoop_visible {n turn i total : Nat} {h : Header} {ended : Except Bytes Header} (inside : h.len ≤ total)
    (looped : notifyLoop env content n turn i h s = some (t, ended)) :
    (t.arrays.getD h.array []).take total ⊆ (s.arrays.getD h.array []).take total ∧
      ∀ h', ended = .ok h' → h'.array = h.array ∧ h'.len ≤ h.len := by
  induction n generalizing turn i h s with
  | zero =>
    cases looped
    refine ⟨List.Subset.refl _, ?_⟩
    rintro h' ⟨⟩
    exact ⟨rfl, Nat.le_refl _⟩
  | succ n ih =>
    unfold notifyLoop at looped
    split at looped
    case h_2 => contradiction
    case h_1 sub here =>
      dsimp only at looped
      split at looped
      · split at looped
        · cases looped
          refine ⟨List.Subset.refl _, ?_⟩
          intro h' finished
          contradiction
        · have rest := ih inside looped
          exact rest
      · have shorter : (removeSubscription s.arrays h i).2.len ≤ h.len := Nat.sub_le _ _
        obtain ⟨visible, headers⟩ := ih (shorter.trans inside) looped
        refine ⟨List.Subset.trans visible ?_, ?_⟩
        · obtain ⟨within, _⟩ := List.getElem?_eq_some_iff.mp here
          have array : h.array < s.arrays.length := by
            by_contra beyond
            rw [List.getD_eq_getElem?_getD, List.getElem?_eq_none (Nat.le_of_not_lt beyond)] at within
            exact Nat.not_lt_zero _ within
          simp only [removeSubscription]
          rw [List.getD_eq_getElem?_getD, List.getElem?_set_self array, Option.getD_some]
          exact overwrite_visible _ inside within.le
        · intro h' finished
          obtain ⟨same, len⟩ := headers h' finished
          exact ⟨same, len.trans shorter⟩

/-- A call lists nobody who was not listed. -/
theorem notifySubscribers_listed {err : Option Bytes}
    (returned : notifySubscribers env pathname content s = some (t, err)) :
    t.listed pathname ⊆ s.listed pathname := by
  unfold notifySubscribers at returned
  cases found : s.subscriptions pathname with
  | none =>
    rw [found] at returned
    cases returned
    exact List.Subset.refl _
  | some h =>
    rw [found] at returned
    obtain ⟨⟨u, ended⟩, looped, rest⟩ := Option.bind_eq_some_iff.mp returned
    obtain ⟨visible, headers⟩ := notifyLoop_visible (Nat.le_refl _) looped
    have map : u.subscriptions = s.subscriptions := (notifyLoop_frame looped).2.2.2
    simp only [Store.listed, found]
    cases ended with
    | error err =>
      cases rest
      rw [map, found]
      exact visible
    | ok h' =>
      obtain ⟨array, len⟩ := headers h' rfl
      cases rest
      simp only [Function.update_self]
      split
      · exact List.nil_subset _
      · rename_i h'' entry
        split at entry
        · contradiction
        · cases entry
          rw [array]
          exact List.Subset.trans (List.take_subset_take_left _ len) visible

theorem mem_sends {e : Effect} {subs : List Subscription} :
    e ∈ sends content subs ↔ ∃ sub ∈ subs, e = .send sub.clientAddr content true := by
  simp only [sends, List.mem_map, eq_comm]

theorem active_listed {subs : List Subscription} {client : UDPAddr} {bytes : Bytes}
    (sent : .send client bytes true ∈ sends content (activeInTurn env 0 subs)) :
    bytes = content ∧ ∃ sub ∈ subs, sub.clientAddr = client := by
  obtain ⟨sub, active, same⟩ := mem_sends.mp sent
  obtain ⟨k, here, _⟩ := mem_activeInTurn_zero.mp active
  cases same
  exact ⟨rfl, sub, List.mem_of_getElem? here, rfl⟩

/-- Those who are told are listed. -/
theorem Notified.told {subs kept : List Subscription} {err : Option Bytes}
    (notified : Notified env content s subs t kept err) :
    ∃ effects, t.trace = s.trace ++ effects ∧ ∀ client bytes, .send client bytes true ∈ effects →
      bytes = content ∧ ∃ sub ∈ subs, sub.clientAddr = client := by
  cases notified with
  | finished trace => exact ⟨_, trace, fun client bytes => active_listed⟩
  | broken pre post tail sub err split alive fails sent stale intact trace =>
    subst split
    refine ⟨_, trace.trans (List.append_assoc ..), ?_⟩
    intro client bytes sent
    rcases List.mem_append.mp sent with early | failed
    · obtain ⟨same, x, member, address⟩ := active_listed early
      exact ⟨same, x, List.mem_append_left _ member, address⟩
    · cases List.mem_singleton.mp failed

/-- After these calls the table lists clients that may be there, and the datagrams sent are ones
that may be. -/
structure Tells (s t : Store Disk) (Q : Bytes → UDPAddr → Prop) (R : UDPAddr → Bytes → Prop) : Prop where
  listed : t.Enlists Q
  sent : ∃ effects, t.trace = s.trace ++ effects ∧ ∀ client bytes, .send client bytes true ∈ effects → R client bytes

variable {R : UDPAddr → Bytes → Prop}

theorem Tells.since (tells : Tells s t Q R) {client : UDPAddr} {bytes : Bytes}
    (sent : .send client bytes true ∈ t.trace.drop s.trace.length) : R client bytes := by
  obtain ⟨effects, trace, all⟩ := tells.sent
  rw [trace, List.drop_left] at sent
  exact all client bytes sent

theorem Tells.mono {Q' : Bytes → UDPAddr → Prop} {R' : UDPAddr → Bytes → Prop} (tells : Tells s t Q R)
    (weaker : ∀ p c, Q p c → Q' p c) (told : ∀ c bytes, R c bytes → R' c bytes) : Tells s t Q' R' := by
  obtain ⟨effects, trace, all⟩ := tells.sent
  exact ⟨tells.listed.mono weaker, effects, trace, fun c bytes sent => told c bytes (all c bytes sent)⟩

theorem Tells.trans {u : Store Disk} (first : Tells s t P R) (second : Tells t u Q R) : Tells s u Q R := by
  obtain ⟨effects, trace, told⟩ := first.sent
  obtain ⟨more, trace', told'⟩ := second.sent
  refine ⟨second.listed, effects ++ more, by rw [trace', trace, List.append_assoc], ?_⟩
  intro client bytes sent
  exact (List.mem_append.mp sent).elim (told client bytes) (told' client bytes)

theorem Tells.of_trace {u : Store Disk} (tells : Tells s t Q R) (trace : u.trace = s.trace) : Tells u t Q R :=
  ⟨tells.listed, trace ▸ tells.sent⟩

theorem Tells.frame {u : Store Disk} (tells : Tells s t Q R) (arrays : u.arrays = t.arrays)
    (map : u.subscriptions = t.subscriptions) (trace : u.trace = t.trace) : Tells s u Q R :=
  ⟨tells.listed.frame arrays map, trace ▸ tells.sent⟩

/-- Other calls than sends do not tell anything. -/
theorem Store.Enlists.did (enlists : s.Enlists Q) (e : Effect) (silent : e.attempt? = none) :
    Tells s (s.did e) Q R := by
  refine ⟨enlists.frame rfl rfl, [e], rfl, ?_⟩
  intro client bytes sent
  rw [← List.mem_singleton.mp sent] at silent
  contradiction

/-- A notification tells only those whom the table lists, and lists nobody else afterwards. -/
theorem handleNotification_tells (enlists : s.Enlists Q)
    (notified : handleNotification env pathname content s = some t) :
    Tells s t Q fun client bytes => bytes = content ∧ Q pathname client := by
  obtain ⟨⟨u, err⟩, called, same⟩ := Option.map_eq_some_iff.mp notified
  obtain rfl : u = t := same
  obtain ⟨lists, tidy, all⟩ := enlists.frame (t := s.did (.notify pathname content)) rfl rfl
  obtain ⟨v, _, kept, returned, told, holds, after⟩ :=
    @notifySubscribers_notified _ _ env pathname _ content (tidy.holds pathname)
  cases called.symm.trans returned
  refine (enlists.did (.notify pathname content) rfl).trans ⟨.update all (after lists tidy) ?_, ?_⟩
  · intro sub member
    have listed := notifySubscribers_listed called
    rw [holds.listed, tidy.listed] at listed
    obtain ⟨x, among, same⟩ := List.mem_map.mp (listed (List.mem_map_of_mem member))
    cases same
    exact all pathname _ among
  · obtain ⟨effects, trace, each⟩ := told.told
    refine ⟨effects, trace, ?_⟩
    intro client bytes sent
    obtain ⟨same, sub, member, rfl⟩ := each client bytes sent
    exact ⟨same, all pathname sub member⟩

/-! ### Requests -/

/-- An update tells the subscribers of its pathname what its file holds, if it succeeds. -/
theorem update_tells {edit : Slice UInt8 → Option (Except Bytes Bytes)} {res : StatusResponse}
    (lawful : env.os.Lawful locate contents) (enlists : s.Enlists Q)
    (updated : Server.update env path pathname edit s = some (t, res)) :
    Tells s t Q fun client bytes => res = ⟨true, []⟩ ∧
      contents t.disk (locate (concatenatePaths path pathname)) = some bytes ∧ Q pathname client := by
  have read : (s.did (.readFile (concatenatePaths path pathname))).Enlists Q := enlists.frame rfl rfl
  cases update_cases updated with
  | unread err failed store | refused fileContent err file edited store =>
    subst store
    exact enlists.did _ rfl
  | unwritten fileContent buf err disk file edited failed store =>
    subst store
    exact ((enlists.did _ rfl).trans (read.did _ rfl)).frame rfl rfl rfl
  | written fileContent buf disk file edited wrote notified response =>
    have kept : Store.Enlists { (s.did (.readFile (concatenatePaths path pathname))).did
        (.writeFile (concatenatePaths path pathname) buf) with disk } Q := enlists.frame rfl rfl
    have told := handleNotification_tells kept notified
    refine (enlists.did (.readFile _) rfl).trans ((read.did (.writeFile _ buf) rfl).trans
      ((told.mono (fun _ _ => id) ?_).of_trace rfl))
    rintro client bytes ⟨rfl, listed⟩
    refine ⟨response, ?_, listed⟩
    rw [handleNotification_disk notified]
    exact (lawful.written wrote).1

theorem subscribe_enlists (enlists : s.Enlists Q) (filePath : Bytes) (req : SubscribeRequest) :
    Tells s (subscribe env addr filePath req s).1 (fun pathname client => Q pathname client ∨
      (subscribe env addr filePath req s).2 = ⟨true, []⟩ ∧ pathname = req.pathname ∧ client = addr) R := by
  have trace := subscribe_trace env addr filePath req s
  cases opened : env.os.readFile s.disk filePath with
  | error err =>
    rw [subscribe_refused opened]
    exact (enlists.did _ rfl).mono (fun _ _ => .inl) fun _ _ => id
  | ok file =>
    obtain ⟨lists, tidy, all⟩ := enlists
    refine ⟨.update (fun p sub member => .inl (all p sub member)) (subscribe_tidy tidy opened) ?_, [_], trace, ?_⟩
    · intro sub member
      rcases List.mem_append.mp member with old | new
      · exact .inl (all _ sub old)
      · cases List.mem_singleton.mp new
        exact .inr ⟨(subscribe_accepted opened).1, rfl, rfl⟩
    · intro client bytes sent
      cases List.mem_singleton.mp sent

theorem fireTimer_enlists (enlists : s.Enlists Q) {k : Nat} (fired : fireTimer s k = some t) : t.Enlists Q := by
  obtain ⟨sub, _, rfl⟩ := Option.map_eq_some_iff.mp fired
  obtain ⟨lists, tidy, all⟩ := enlists.frame (t := { s with timers := s.timers.eraseIdx k }) rfl rfl
  exact .update all (expire_tidy tidy sub) fun x member => all _ x (List.mem_of_mem_eraseP member)

/-- A request tells the subscribers of its pathname what its file holds if it is an update that
succeeds, and enlists its client if it is a subscription that does. -/
theorem serveRequest_tells {r : Request} {reply : Bytes} (lawful : env.os.Lawful locate contents)
    (enlists : s.Enlists Q) (served : serveRequest env path addr s r = some (t, reply)) :
    Tells s t
      (fun pathname client => Q pathname client ∨
        r.messageType = .subscribe ∧ reply = Answer.done.bytes ∧ pathname = r.pathname ∧ client = addr)
      fun client bytes => r.updates = true ∧ reply = Answer.done.bytes ∧
        contents t.disk (locate (concatenatePaths path r.pathname)) = some bytes ∧ Q r.pathname client := by
  cases r with
  | read req =>
    obtain ⟨res, answered, _⟩ := answered_iff.mp served
    rw [(read_cases answered).1]
    exact (enlists.did _ rfl).mono (fun _ _ => .inl) fun _ _ => id
  | getLastModifiedTime req =>
    rw [(serveRequest_timeQuery served).1]
    exact (enlists.did _ rfl).mono (fun _ _ => .inl) fun _ _ => id
  | write req | replace req | delete req =>
    obtain ⟨res, updated, marshalled⟩ := serveRequest_update rfl served
    refine (update_tells lawful enlists updated).mono (fun _ _ => .inl) ?_
    rintro client bytes ⟨rfl, holds, listed⟩
    exact ⟨rfl, (Option.some.inj marshalled).symm, holds, listed⟩
  | subscribe req =>
    obtain ⟨bytes, marshalled, made⟩ := Option.bind_eq_some_iff.mp served
    replace marshalled : marshalStatusResponse (subscribe env addr (concatenatePaths path req.pathname) req s).2 =
      some bytes := marshalled
    cases made
    refine (subscribe_enlists enlists _ req).mono ?_ fun _ _ => id
    rintro pathname client (listed | ⟨success, rfl, rfl⟩)
    · exact .inl listed
    · rw [success] at marshalled
      exact .inr ⟨rfl, (Option.some.inj marshalled).symm, rfl, rfl⟩

/-- A packet leaves the store as it is, or its request is served. -/
theorem handlePacket_served {sem : InvocationSemantic} {p : Packet} {s t : State Disk} {out : Handled}
    (done : handlePacket sem env path p s = some (t, out)) :
    t.store = s.store ∨ ∃ r reply, (p.handled sem s).bind Prod.snd = some r ∧
      serveRequest env path p.clientAddress s.store r = some (t.store, reply) ∧ out.response = some reply := by
  rw [handlePacket_eq] at done
  unfold Packet.handled
  cases routed : p.routed with
  | none =>
    rw [routed] at done
    cases done
    exact .inl rfl
  | some arrival =>
    obtain ⟨d, addr⟩ := arrival
    obtain ⟨_, rfl⟩ := Packet.routed_eq routed
    rw [routed] at done
    obtain ⟨⟨server, response⟩, answered, made⟩ := Option.map_eq_some_iff.mp done
    cases made
    cases decoded : (decode d).bind Except.toOption with
    | none => exact .inl (undecoded_cases decoded answered).1
    | some found =>
      obtain ⟨id, r⟩ := found
      rw [routeRequest_decoded (decoded_iff.mp decoded)] at answered
      cases stored : s.storedResponse sem id with
      | some reply =>
        rw [stored] at answered
        cases answered
        exact .inl rfl
      | none =>
        rw [stored] at answered
        obtain ⟨⟨store, reply⟩, served, made⟩ := Option.map_eq_some_iff.mp answered
        cases made
        exact .inr ⟨r, _, handled_decoded.mpr ⟨id, decoded, stored⟩, served, rfl⟩

end RemoteFile.Server
