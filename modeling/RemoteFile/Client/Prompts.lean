import RemoteFile.Client.Program
import RemoteFile.Core.Pieces

/-! What the client takes from its standard input: the choice at the menu and the answers
to the prompts of a request. A prompt for a number is repeated until it gets one. -/
namespace RemoteFile.Client
open Octets

def newline : UInt8 := 10

/-- What `fgets(buffer, 1023, stdin)` takes from the input. -/
def fgets : Pieces.Reader UInt8 := (Pieces.lines newline).atMost promptLength (by decide)

/-! ### The text of an answer -/

/-- The copy of the buffer, up to `strlen(buffer)`. -/
def typed (buffer : Bytes) : Bytes := buffer.takeWhile (· ≠ 0)

/-- In the C locale. -/
def isspace (b : UInt8) : Bool := b = 32 ∨ 9 ≤ b ∧ b ≤ 13

def isdigit (b : UInt8) : Bool := 48 ≤ b ∧ b ≤ 57

/-- `s.erase(std::remove_if(s.begin(), s.end(), ::isspace), s.end())` -/
def eraseSpaces (s : Bytes) : Bytes := s.filter (fun b => !isspace b)

def decimal (digits : Bytes) : Nat := digits.foldl (fun n d => 10 * n + (d.toNat - 48)) 0

/-- `std::stoi`: whitespace, a sign and digits, whatever follows them. It throws if there
is no digit, or if the number is not an int. -/
def stoi (s : Bytes) : Option Int :=
  let s := s.dropWhile isspace
  let negative := s.head? = some 45
  let digits := (if negative ∨ s.head? = some 43 then s.tail else s).takeWhile isdigit
  let value : Int := if negative then -decimal digits else decimal digits
  if digits = [] then none
  else if value < -2 ^ 31 ∨ 2 ^ 31 ≤ value then none
  else some value

/-- The body of the `try` block of a prompt for a number; without a result the prompt is
repeated. -/
def number? (buffer : Bytes) : Option UInt32 :=
  match stoi (typed buffer) with
  | some value => if value < 0 then none else some (UInt32.ofNat value.toNat)
  | none => none

/-! ### The prompts -/

/-- The standard input that is left, and what has been read of it, one entry a prompt. -/
structure Console where
  stdin : Bytes
  answers : List Bytes
  deriving DecidableEq

namespace Console

def start (stdin : Bytes) : Console := ⟨stdin, []⟩

/-- `bzero(buffer, 1024); fgets(buffer, 1023, stdin);`, and the buffer after it. -/
def prompt (c : Console) : Bytes × Console :=
  (filled 0 bufferLength (fgets.next c.stdin),
    ⟨fgets.rest c.stdin, c.answers ++ [fgets.next c.stdin]⟩)

/-- A prompt for a text, which loses its whitespace. -/
def askText (c : Console) : Bytes × Console :=
  let (buffer, c) := c.prompt
  (eraseSpaces (typed buffer), c)

/-- The loop of a prompt for a number. -/
def askNumber : Nat → Console → Option (UInt32 × Console)
  | 0, _ => none
  | fuel + 1, c =>
    let (buffer, c) := c.prompt
    match number? buffer with
    | some n => some (n, c)
    | none => askNumber fuel c

/-- The prompts for a pathname, an offset and a number of bytes. -/
def askRange (make : Bytes → UInt32 → UInt32 → ρ) (fuel : Nat) (c : Console) : Option (ρ × Console) := do
  let (pathname, c) := c.askText
  let (offset, c) ← c.askNumber fuel
  let (numBytes, c) ← c.askNumber fuel
  some (make pathname offset numBytes, c)

/-- The prompts for a pathname, an offset and a content. -/
def askEdit (make : Bytes → UInt32 → Bytes → ρ) (fuel : Nat) (c : Console) : Option (ρ × Console) := do
  let (pathname, c) := c.askText
  let (offset, c) ← c.askNumber fuel
  let (content, c) := c.askText
  some (make pathname offset content, c)

/-- The prompts for a pathname and an interval. -/
def askInterval (make : Bytes → UInt32 → ρ) (fuel : Nat) (c : Console) : Option (ρ × Console) := do
  let (pathname, c) := c.askText
  let (interval, c) ← c.askNumber fuel
  some (make pathname interval, c)

end Console

def prepareReadRequest : Nat → Console → Option (ReadRequest × Console) := Console.askRange ReadRequest.mk

def prepareWriteRequest : Nat → Console → Option (WriteRequest × Console) := Console.askEdit WriteRequest.mk

def prepareSubscribeRequest : Nat → Console → Option (SubscribeRequest × Console) :=
  Console.askInterval SubscribeRequest.mk

def prepareReplaceRequest : Nat → Console → Option (ReplaceRequest × Console) :=
  Console.askEdit ReplaceRequest.mk

def prepareDeleteRequest : Nat → Console → Option (DeleteRequest × Console) :=
  Console.askRange DeleteRequest.mk

/-! ### The menu -/

/-- `buffer[0]` -/
def choice (buffer : Bytes) : Nat := (buffer.headD 0).toNat

/-- The switch over the choice, as far as it reads the input. -/
def choose (fuel : Nat) (c : Console) : Option (Command × Console) :=
  let (buffer, c) := c.prompt
  match choice buffer with
  | 49 => (prepareReadRequest fuel c).map (Prod.map .read id)
  | 50 => (prepareWriteRequest fuel c).map (Prod.map .write id)
  | 51 => (prepareSubscribeRequest fuel c).map (Prod.map .subscribe id)
  | 52 => (prepareReplaceRequest fuel c).map (Prod.map .replace id)
  | 53 => (prepareDeleteRequest fuel c).map (Prod.map .delete id)
  | 54 => some (.terminate, c)
  | _ => some (.invalid, c)

/-- The program after a command, unless it is over. What a request does is left to the
exchange with the server, which may end in an exception. -/
def proceed (exchange : σ → Command → Option σ) (s : σ) : Command → Option σ
  | .terminate => none
  | .invalid => some s
  | command => exchange s command

/-- The loop of `main`, up to the end of the program. -/
def menu (exchange : σ → Command → Option σ) : Nat → σ → Console → Option Console
  | 0, _, _ => none
  | fuel + 1, s, c => do
    let (command, c) ← choose fuel c
    match proceed exchange s command with
    | none => some c
    | some s => menu exchange fuel s c

/-! ### Which answers a prompt gets -/

theorem typed_filled (total : Nat) (answer : Bytes) : typed (filled 0 total answer) = typed answer := by
  rw [filled]
  generalize total - answer.length = zeros
  induction answer with
  | nil => cases zeros <;> rfl
  | cons b answer ih =>
    rw [List.cons_append, typed, List.takeWhile_cons, typed, List.takeWhile_cons]
    split
    · exact congrArg (List.cons b) ih
    · rfl

theorem number?_filled (total : Nat) (answer : Bytes) :
    number? (filled 0 total answer) = number? answer := by
  rw [number?, typed_filled, number?]

namespace Console

variable {c d e : Console} {xs ys : List Bytes}

/-- The prompts from `c` to `d` have read these answers. -/
structure Reads (c : Console) (xs : List Bytes) (d : Console) : Prop where
  taken : Pieces.Reads fgets c.stdin xs d.stdin
  answers : d.answers = c.answers ++ xs

theorem Reads.done (c : Console) : Reads c [] c := ⟨.done, (List.append_nil _).symm⟩

theorem Reads.prompt (c : Console) : Reads c [fgets.next c.stdin] c.prompt.2 := ⟨.single _ _, rfl⟩

theorem Reads.append (first : Reads c xs d) (last : Reads d ys e) : Reads c (xs ++ ys) e := by
  refine ⟨first.taken.append last.taken, ?_⟩
  rw [last.answers, first.answers, List.append_assoc]

theorem Reads.split (reads : Reads c (xs ++ ys) e) : ∃ d, Reads c xs d ∧ Reads d ys e := by
  obtain ⟨stdin, first, last⟩ := reads.taken.split
  refine ⟨⟨stdin, c.answers ++ xs⟩, ⟨first, rfl⟩, last, ?_⟩
  rw [reads.answers, List.append_assoc]

theorem Reads.eq_of_nil (reads : Reads c [] d) : d = c := by
  obtain ⟨stdin, answers⟩ := d
  obtain ⟨taken, same⟩ := reads
  cases taken
  rw [List.append_nil] at same
  exact congrArg (Console.mk c.stdin) same

/-- The first answer is what the next prompt reads. -/
theorem Reads.cons_iff {x : Bytes} :
    Reads c (x :: xs) d ↔ x = fgets.next c.stdin ∧ Reads c.prompt.2 xs d := by
  constructor
  · rintro ⟨taken, answers⟩
    cases taken with
    | next taken => exact ⟨rfl, taken, by rw [answers, Console.prompt, List.append_assoc]; rfl⟩
  · rintro ⟨rfl, reads⟩
    exact (Reads.prompt c).append reads

/-- A prompting function reads exactly the answers of a relation, given enough turns. -/
structure Specified (ask : Nat → Console → Option (ρ × Console)) (Answers : List Bytes → ρ → Prop) :
    Prop where
  sound : ∀ {fuel c r d}, ask fuel c = some (r, d) → ∃ xs, Answers xs r ∧ Reads c xs d
  complete : ∀ {fuel c r d xs}, Answers xs r → Reads c xs d → xs.length ≤ fuel → ask fuel c = some (r, d)

end Console

/-- The answers of a prompt for a number: refused ones, and one that is accepted. -/
inductive Number : List Bytes → UInt32 → Prop where
  | accepted : number? x = some n → Number [x] n
  | refused : number? x = none → Number xs n → Number (x :: xs) n

namespace Console

theorem askNumber_specified : Specified askNumber Number := by
  constructor
  · intro fuel c n d asked
    induction fuel generalizing c with
    | zero => contradiction
    | succ fuel ih =>
      simp only [askNumber, prompt, number?_filled] at asked
      cases answer : number? (fgets.next c.stdin) with
      | some n' =>
        rw [answer] at asked
        cases asked
        exact ⟨_, .accepted answer, .prompt c⟩
      | none =>
        rw [answer] at asked
        obtain ⟨xs, number, reads⟩ := ih asked
        exact ⟨_, .refused answer number, Reads.cons_iff.mpr ⟨rfl, reads⟩⟩
  · intro fuel c n d xs number reads enough
    induction number generalizing c fuel with
    | accepted answer =>
      obtain ⟨rfl, later⟩ := Reads.cons_iff.mp reads
      cases fuel with
      | zero => contradiction
      | succ fuel =>
        simp only [askNumber, prompt, number?_filled, answer]
        rw [later.eq_of_nil]
        rfl
    | refused answer _ ih =>
      obtain ⟨rfl, later⟩ := Reads.cons_iff.mp reads
      cases fuel with
      | zero => contradiction
      | succ fuel =>
        simp only [askNumber, prompt, number?_filled, answer]
        exact ih later (Nat.le_of_succ_le_succ enough)

theorem askText_eq (c : Console) : c.askText = (eraseSpaces (typed (fgets.next c.stdin)), c.prompt.2) := by
  simp only [askText, prompt, typed_filled]

end Console

inductive RangeAnswers (make : Bytes → UInt32 → UInt32 → ρ) : List Bytes → ρ → Prop where
  | intro : Number xs offset → Number ys numBytes →
      RangeAnswers make (pathname :: (xs ++ ys)) (make (eraseSpaces (typed pathname)) offset numBytes)

inductive EditAnswers (make : Bytes → UInt32 → Bytes → ρ) : List Bytes → ρ → Prop where
  | intro : Number xs offset →
      EditAnswers make (pathname :: (xs ++ [content]))
        (make (eraseSpaces (typed pathname)) offset (eraseSpaces (typed content)))

inductive IntervalAnswers (make : Bytes → UInt32 → ρ) : List Bytes → ρ → Prop where
  | intro : Number xs interval →
      IntervalAnswers make (pathname :: xs) (make (eraseSpaces (typed pathname)) interval)

namespace Console

theorem askRange_specified (make : Bytes → UInt32 → UInt32 → ρ) :
    Specified (askRange make) (RangeAnswers make) := by
  constructor
  · intro fuel c r d asked
    simp only [askRange, askText_eq, Option.bind_eq_bind, Option.bind_eq_some_iff] at asked
    obtain ⟨⟨offset, c₁⟩, first, ⟨numBytes, c₂⟩, second, made⟩ := asked
    cases made
    obtain ⟨xs, offsets, reads₁⟩ := askNumber_specified.sound first
    obtain ⟨ys, counts, reads₂⟩ := askNumber_specified.sound second
    exact ⟨_, .intro offsets counts, (Reads.prompt c).append (reads₁.append reads₂)⟩
  · intro fuel c r d xs answers reads enough
    cases answers with
    | intro offsets counts =>
      obtain ⟨rfl, later⟩ := Reads.cons_iff.mp reads
      obtain ⟨e, reads₁, reads₂⟩ := later.split
      rw [List.length_cons, List.length_append] at enough
      have first : askNumber fuel c.prompt.2 = _ := askNumber_specified.complete offsets reads₁ (by omega)
      have second : askNumber fuel e = _ := askNumber_specified.complete counts reads₂ (by omega)
      simp only [askRange, askText_eq, first, second, Option.bind_eq_bind, Option.bind_some]

theorem askEdit_specified (make : Bytes → UInt32 → Bytes → ρ) :
    Specified (askEdit make) (EditAnswers make) := by
  constructor
  · intro fuel c r d asked
    simp only [askEdit, askText_eq, Option.bind_eq_bind, Option.bind_eq_some_iff] at asked
    obtain ⟨⟨offset, c₁⟩, first, made⟩ := asked
    cases made
    obtain ⟨xs, offsets, reads⟩ := askNumber_specified.sound first
    exact ⟨_, .intro offsets, (Reads.prompt c).append (reads.append (.prompt c₁))⟩
  · intro fuel c r d xs answers reads enough
    cases answers with
    | intro offsets =>
      obtain ⟨rfl, later⟩ := Reads.cons_iff.mp reads
      obtain ⟨e, reads₁, reads₂⟩ := later.split
      obtain ⟨rfl, last⟩ := Reads.cons_iff.mp reads₂
      rw [List.length_cons, List.length_append] at enough
      have first : askNumber fuel c.prompt.2 = _ := askNumber_specified.complete offsets reads₁ (by omega)
      simp only [askEdit, askText_eq, first, Option.bind_eq_bind, Option.bind_some, last.eq_of_nil]

theorem askInterval_specified (make : Bytes → UInt32 → ρ) :
    Specified (askInterval make) (IntervalAnswers make) := by
  constructor
  · intro fuel c r d asked
    simp only [askInterval, askText_eq, Option.bind_eq_bind, Option.bind_eq_some_iff] at asked
    obtain ⟨⟨interval, c₁⟩, first, made⟩ := asked
    cases made
    obtain ⟨xs, intervals, reads⟩ := askNumber_specified.sound first
    exact ⟨_, .intro intervals, (Reads.prompt c).append reads⟩
  · intro fuel c r d xs answers reads enough
    cases answers with
    | intro intervals =>
      obtain ⟨rfl, later⟩ := Reads.cons_iff.mp reads
      have first : askNumber fuel c.prompt.2 = _ :=
        askNumber_specified.complete intervals later (Nat.le_of_succ_le enough)
      simp only [askInterval, askText_eq, first, Option.bind_eq_bind, Option.bind_some]

end Console

theorem choice_filled (total : Nat) (answer : Bytes) : choice (filled 0 total answer) = choice answer := by
  cases answer with
  | nil => cases total <;> rfl
  | cons b answer => rfl

/-- The answers to the menu and to the prompts of the request that was chosen. -/
inductive Dialog : List Bytes → Command → Prop where
  | read : choice x = 49 → RangeAnswers ReadRequest.mk xs req → Dialog (x :: xs) (.read req)
  | write : choice x = 50 → EditAnswers WriteRequest.mk xs req → Dialog (x :: xs) (.write req)
  | subscribe : choice x = 51 → IntervalAnswers SubscribeRequest.mk xs req →
      Dialog (x :: xs) (.subscribe req)
  | replace : choice x = 52 → EditAnswers ReplaceRequest.mk xs req → Dialog (x :: xs) (.replace req)
  | delete : choice x = 53 → RangeAnswers DeleteRequest.mk xs req → Dialog (x :: xs) (.delete req)
  | terminate : choice x = 54 → Dialog [x] .terminate
  | invalid : choice x < 49 ∨ 54 < choice x → Dialog [x] .invalid

theorem Dialog.length_pos {xs : List Bytes} {command : Command} (dialog : Dialog xs command) :
    0 < xs.length := by
  cases dialog <;> exact Nat.succ_pos _

theorem Console.Specified.asked {ask : Nat → Console → Option (ρ × Console)} {Answers : List Bytes → ρ → Prop}
    {make : ρ → Command} {c : Console} (spec : Specified ask Answers)
    (asked : (ask fuel c.prompt.2).map (Prod.map make id) = some (command, d)) :
    ∃ xs req, Answers xs req ∧ Reads c (fgets.next c.stdin :: xs) d ∧ command = make req := by
  obtain ⟨⟨req, d'⟩, prepared, made⟩ := Option.map_eq_some_iff.mp asked
  cases made
  obtain ⟨xs, answers, reads⟩ := spec.sound prepared
  exact ⟨xs, req, answers, (Reads.prompt c).append reads, rfl⟩

theorem Console.Specified.chosen {ask : Nat → Console → Option (ρ × Console)} {Answers : List Bytes → ρ → Prop}
    {c : Console} (make : ρ → Command) (spec : Specified ask Answers) (answers : Answers xs req)
    (reads : Reads c (x :: xs) d) (enough : (x :: xs).length ≤ fuel) :
    x = fgets.next c.stdin ∧ (ask fuel c.prompt.2).map (Prod.map make id) = some (make req, d) := by
  obtain ⟨first, later⟩ := Reads.cons_iff.mp reads
  have prepared : ask fuel c.prompt.2 = some (req, d) := spec.complete answers later (Nat.le_of_succ_le enough)
  exact ⟨first, congrArg (Option.map (Prod.map make id)) prepared⟩

theorem choose_specified : Console.Specified choose Dialog := by
  constructor
  · intro fuel c command d chose
    simp only [choose, Console.prompt, choice_filled] at chose
    split at chose
    case h_1 chosen =>
      obtain ⟨xs, req, answers, reads, rfl⟩ := (Console.askRange_specified _).asked chose
      exact ⟨_, .read chosen answers, reads⟩
    case h_2 chosen =>
      obtain ⟨xs, req, answers, reads, rfl⟩ := (Console.askEdit_specified _).asked chose
      exact ⟨_, .write chosen answers, reads⟩
    case h_3 chosen =>
      obtain ⟨xs, req, answers, reads, rfl⟩ := (Console.askInterval_specified _).asked chose
      exact ⟨_, .subscribe chosen answers, reads⟩
    case h_4 chosen =>
      obtain ⟨xs, req, answers, reads, rfl⟩ := (Console.askEdit_specified _).asked chose
      exact ⟨_, .replace chosen answers, reads⟩
    case h_5 chosen =>
      obtain ⟨xs, req, answers, reads, rfl⟩ := (Console.askRange_specified _).asked chose
      exact ⟨_, .delete chosen answers, reads⟩
    case h_6 chosen =>
      cases chose
      exact ⟨_, .terminate chosen, .prompt c⟩
    case h_7 one two three four five six =>
      simp only [imp_false] at one two three four five six
      cases chose
      exact ⟨_, .invalid (by omega), .prompt c⟩
  · intro fuel c command d xs dialog reads enough
    cases dialog with
    | read chosen answers =>
      obtain ⟨rfl, prepared⟩ := (Console.askRange_specified _).chosen Command.read answers reads enough
      simp only [choose, Console.prompt, choice_filled, chosen]
      exact prepared
    | write chosen answers =>
      obtain ⟨rfl, prepared⟩ := (Console.askEdit_specified _).chosen Command.write answers reads enough
      simp only [choose, Console.prompt, choice_filled, chosen]
      exact prepared
    | subscribe chosen answers =>
      obtain ⟨rfl, prepared⟩ := (Console.askInterval_specified _).chosen Command.subscribe answers reads enough
      simp only [choose, Console.prompt, choice_filled, chosen]
      exact prepared
    | replace chosen answers =>
      obtain ⟨rfl, prepared⟩ := (Console.askEdit_specified _).chosen Command.replace answers reads enough
      simp only [choose, Console.prompt, choice_filled, chosen]
      exact prepared
    | delete chosen answers =>
      obtain ⟨rfl, prepared⟩ := (Console.askRange_specified _).chosen Command.delete answers reads enough
      simp only [choose, Console.prompt, choice_filled, chosen]
      exact prepared
    | terminate chosen =>
      obtain ⟨rfl, later⟩ := Console.Reads.cons_iff.mp reads
      rw [later.eq_of_nil]
      simp only [choose, Console.prompt, choice_filled, chosen]
    | invalid other =>
      obtain ⟨rfl, later⟩ := Console.Reads.cons_iff.mp reads
      rw [later.eq_of_nil]
      simp only [choose, Console.prompt, choice_filled]
      split
      case h_7 => rfl
      all_goals omega

/-- A choice, a pathname with a blank, an offset at the second try and a content. -/
example : choose 2 (.start (text "2\na b\nx\n+7 bytes\nhi there")) =
    some (.write ⟨text "ab", 7, text "hithere"⟩,
      ⟨[], [text "2\n", text "a b\n", text "x\n", text "+7 bytes\n", text "hi there"]⟩) := by
  decide +kernel

/-! ### The requests that are built -/

theorem stoi_lt {s : Bytes} {value : Int} (converted : stoi s = some value) : value < 2 ^ 31 := by
  simp only [stoi, Option.ite_none_left_eq_some, Option.some.injEq] at converted
  obtain ⟨_, range, rfl⟩ := converted
  exact Int.not_le.mp fun large => range (.inr large)

theorem number?_lt {answer : Bytes} {n : UInt32} (accepted : number? answer = some n) : n.toNat < 2 ^ 31 := by
  unfold number? at accepted
  cases converted : stoi (typed answer) with
  | none =>
    rw [converted] at accepted
    contradiction
  | some value =>
    have small := stoi_lt converted
    simp only [converted] at accepted
    split at accepted
    case isTrue => contradiction
    case isFalse =>
      rw [← Option.some.inj accepted, UInt32.toNat_ofNat']
      omega

theorem Number.lt {xs : List Bytes} {n : UInt32} (number : Number xs n) : n.toNat < 2 ^ 31 := by
  induction number with
  | accepted answer => exact number?_lt answer
  | refused _ _ ih => exact ih

theorem erased_length (answer : Bytes) : (eraseSpaces (typed answer)).length ≤ answer.length :=
  (List.length_filter_le _ _).trans (List.takeWhile_prefix _).length_le

/-- Short answers give a request as the program expects it. -/
theorem Dialog.prompted {xs : List Bytes} {command : Command} (dialog : Dialog xs command)
    (short : ∀ x ∈ xs, x.length ≤ promptLength) : ∀ r, command.request? = some r → Prompted r := by
  have erased : ∀ x ∈ xs, (eraseSpaces (typed x)).length ≤ promptLength := fun x member =>
    (erased_length x).trans (short x member)
  rintro r built
  cases dialog with
  | read _ answers | delete _ answers =>
    cases built
    cases answers with
    | intro offset numBytes =>
      refine ⟨erased _ (by simp), Nat.zero_le _, ?_⟩
      simp only [Request.numbers, List.mem_cons, List.not_mem_nil, or_false]
      rintro x (rfl | rfl)
      · exact offset.lt
      · exact numBytes.lt
  | write _ answers | replace _ answers =>
    cases built
    cases answers with
    | intro offset =>
      refine ⟨erased _ (by simp), erased _ (by simp), ?_⟩
      simp only [Request.numbers, List.mem_cons, List.not_mem_nil, or_false]
      rintro x rfl
      exact offset.lt
  | subscribe _ answers =>
    cases built
    cases answers with
    | intro interval =>
      refine ⟨erased _ (by simp), Nat.zero_le _, ?_⟩
      simp only [Request.numbers, List.mem_cons, List.not_mem_nil, or_false]
      rintro x rfl
      exact interval.lt
  | terminate | invalid => contradiction

theorem Console.Reads.short {c d : Console} {xs : List Bytes} (reads : c.Reads xs d) :
    ∀ x ∈ xs, x.length ≤ promptLength :=
  reads.taken.forall_mem (Pieces.next_atMost_length _ _ _)

/-- What is chosen at the menu is an input of the program. -/
theorem choose_prompted {fuel : Nat} {c d : Console} {command : Command}
    (chose : choose fuel c = some (command, d)) : ∃ input : Input, input.command = command := by
  obtain ⟨xs, dialog, reads⟩ := choose_specified.sound chose
  exact ⟨⟨command, dialog.prompted reads.short⟩, rfl⟩

end RemoteFile.Client
