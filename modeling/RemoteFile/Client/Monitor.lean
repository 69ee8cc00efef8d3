import RemoteFile.Client.Exchanges
import RemoteFile.Core.Run

/-! The monitoring loop over a whole run: what it shows, set against what arrived while it
was listening. -/
namespace RemoteFile.Client
open Octets

/-- A turn of the loop: the time at its check, and what `recvfrom` returns to it. -/
structure Turn where
  now : Int
  datagram : Option Bytes

namespace Turn

/-- The loop goes on for this turn. -/
def InTime (startTime : Int) (seconds : UInt32) (t : Turn) : Prop :=
  t.now - startTime < seconds.toNat * 1000

instance (startTime : Int) (seconds : UInt32) (t : Turn) : Decidable (t.InTime startTime seconds) :=
  inferInstanceAs (Decidable (t.now - startTime < seconds.toNat * 1000))

/-- The bytes that a turn writes out as an update. -/
def shown (t : Turn) : Bytes := (t.datagram.getD []).take updateLength

/-- A datagram arrived and was received whole. -/
def Whole (t : Turn) : Prop := ∃ bytes, t.datagram = some bytes ∧ bytes.length ≤ updateLength

theorem datagram_eq_shown_iff (t : Turn) : t.datagram = some t.shown ↔ t.Whole := by
  obtain ⟨now, datagram⟩ := t
  constructor
  · intro whole
    refine ⟨_, whole, ?_⟩
    rw [shown, List.length_take]
    exact Nat.min_le_left _ _
  · rintro ⟨bytes, arrived, short⟩
    subst arrived
    exact congrArg some (List.take_of_length_le short).symm

end Turn

namespace Program

def loop (p : Program) (t : Turn) : Option (Program × Unit) := (p.listen t.now t.datagram).map (·, ())

/-- Out of the loop no turn is taken. -/
theorem loop_atMenu {p q : Program} {turns : List Turn} {outputs : List Unit}
    (ran : Transition.run loop p.atMenu turns = some (q, outputs)) : turns = [] ∧ q = p.atMenu := by
  cases turns with
  | nil => exact ⟨rfl, (Transition.run_nil_iff.mp ran).1⟩
  | cons t turns =>
    obtain ⟨_, _, _, first, _, _⟩ := Transition.run_cons_iff.mp ran
    obtain ⟨_, listened, _⟩ := Option.map_eq_some_iff.mp first
    obtain ⟨_, _, monitoring⟩ := listen_monitoring listened
    cases monitoring

/-- Each turn in time shows an update, and a turn that is too late receives nothing. -/
theorem loop_screen {startTime : Int} {seconds : UInt32} {p q : Program} {turns : List Turn}
    {outputs : List Unit} (monitoring : p.phase = .monitoring startTime seconds)
    (ran : Transition.run loop p turns = some (q, outputs)) :
    q.screen = p.screen ++
        ((turns.filter (·.InTime startTime seconds)).map Turn.shown).map Notice.update ∧
      ∀ t ∈ turns, ¬ t.InTime startTime seconds → t.datagram = none := by
  induction turns generalizing p outputs with
  | nil =>
    obtain ⟨rfl, _⟩ := Transition.run_nil_iff.mp ran
    refine ⟨(List.append_nil _).symm, ?_⟩
    intro t member
    exact absurd member List.not_mem_nil
  | cons t turns ih =>
    obtain ⟨next, _, rest, first, later, _⟩ := Transition.run_cons_iff.mp ran
    obtain ⟨_, listened, made⟩ := Option.map_eq_some_iff.mp first
    cases made
    rcases listen_cases monitoring listened with ⟨inTime, rfl⟩ | ⟨late, nothing, rfl⟩
    · have listens : t.InTime startTime seconds := inTime
      have still : (p.shows (.update t.shown)).phase = .monitoring startTime seconds := monitoring
      obtain ⟨screen, silent⟩ := ih still later
      constructor
      · rw [screen, List.filter_cons, if_pos (decide_eq_true listens), shows, List.append_assoc]
        rfl
      · intro t' member late
        rcases List.mem_cons.mp member with rfl | member
        · exact absurd listens late
        · exact silent t' member late
    · have ends : ¬ t.InTime startTime seconds := late
      obtain ⟨rfl, rfl⟩ := loop_atMenu later
      constructor
      · rw [List.filter_cons, if_neg (fun listens => ends (of_decide_eq_true listens))]
        exact (List.append_nil _).symm
      · intro t' member _
        rw [List.mem_singleton.mp member]
        exact nothing

/-- The loop writes out what arrived, each update complete and in order and nothing else,
exactly when every turn that listens receives a datagram and receives it whole. -/
theorem monitoring_shows_iff {startTime : Int} {seconds : UInt32} {p q : Program} {turns : List Turn}
    {outputs : List Unit} (monitoring : p.phase = .monitoring startTime seconds)
    (ran : Transition.run loop p turns = some (q, outputs)) :
    q.screen = p.screen ++ (turns.filterMap Turn.datagram).map Notice.update ↔
      ∀ t ∈ turns, t.InTime startTime seconds → t.Whole := by
  obtain ⟨screen, silent⟩ := loop_screen monitoring ran
  have arrived : turns.filterMap Turn.datagram =
      (turns.filter (·.InTime startTime seconds)).filterMap Turn.datagram := by
    rw [List.filterMap_filter]
    apply List.filterMap_congr
    intro t member
    by_cases inTime : t.InTime startTime seconds
    · rw [if_pos (decide_eq_true inTime)]
    · rw [if_neg (fun holds => inTime (of_decide_eq_true holds)), silent t member inTime]
  have injective : Function.Injective Notice.update := fun _ _ => Notice.update.inj
  rw [screen, arrived, List.append_cancel_left_eq, (List.map_injective_iff.mpr injective).eq_iff,
    eq_comm, List.filterMap_eq_map_iff_forall_eq_some]
  simp only [List.mem_filter, decide_eq_true_eq, and_imp, Turn.datagram_eq_shown_iff]

/-- A subscription of one second: after half a second comes one byte more than is received,
and then nothing until the receive times out and the subscription is over. -/
theorem monitoring_shows_fails :
    (Transition.run loop { Program.start 0 with phase := .monitoring 0 1 }
        [⟨0, some (List.replicate 257 120)⟩, ⟨500, none⟩, ⟨1500, none⟩]).map
          (fun ran => (ran.1.screen, ran.1.phase)) =
      some ([.update (List.replicate 256 120), .update []], .menu) ∧
    ([⟨0, some (List.replicate 257 120)⟩, ⟨500, none⟩, ⟨1500, none⟩] : List Turn).filterMap
        Turn.datagram = [List.replicate 257 120] := by
  decide +kernel

/-- Two short updates, each shown, and then the subscription is over. -/
theorem monitoring_shows_iff_whole :
    ∃ q outputs, Transition.run loop { Program.start 0 with phase := .monitoring 0 1 }
          [⟨0, some (text "ab")⟩, ⟨500, some (text "c")⟩, ⟨1000, none⟩] = some (q, outputs) ∧
      q.screen = [.update (text "ab"), .update (text "c")] := by
  obtain ⟨⟨q, outputs⟩, ran⟩ := Option.isSome_iff_exists.mp (show (Transition.run loop
    { Program.start 0 with phase := .monitoring 0 1 }
    [⟨0, some (text "ab")⟩, ⟨500, some (text "c")⟩, ⟨1000, none⟩]).isSome = true by decide +kernel)
  refine ⟨q, outputs, ran, (monitoring_shows_iff rfl ran).mpr ?_⟩
  intro t member inTime
  simp only [List.mem_cons, List.not_mem_nil, or_false] at member
  rcases member with rfl | rfl | rfl
  · exact ⟨_, rfl, by decide⟩
  · exact ⟨_, rfl, by decide⟩
  · exact absurd inTime (by decide)

end Program

end RemoteFile.Client
