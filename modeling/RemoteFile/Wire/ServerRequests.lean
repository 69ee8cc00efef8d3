import RemoteFile.Core.Slice
import RemoteFile.Wire.Format

/-! The server's request unmarshallers. `none` is a panic: a slice expression
beyond the capacity or an index out of range. An announced length is used to
cut the request before it is compared with the real length. -/
namespace RemoteFile.Server
open Octets Go

def tooShort : Bytes := text "invalid request: byte array length is too short"
def incorrectLength : Bytes := text "invalid request: incorrect byte array length"

/-- `validateMarshalledRequest` of the kinds whose only variable-length field is
the pathname; `words` counts the four-byte fields, the length included. -/
def validateFixedRequest (words : Nat) (req : Slice UInt8) : Option (Except Bytes Nat) :=
  if req.len < words * uint32ByteLength then
    some (.error tooShort)
  else do
    let pathnameLen ← req.slice? 0 uint32ByteLength >>= bigEndianUint32
    if req.len ≠ words * uint32ByteLength + pathnameLen.toNat then
      some (.error incorrectLength)
    else
      some (.ok pathnameLen.toNat)

/-- `validateMarshalledRequest` of write and replace. The second length field is
read at a position given by the first, before any comparison. -/
def validateContentRequest (req : Slice UInt8) : Option (Except Bytes Nat) :=
  if req.len < 3 * uint32ByteLength then
    some (.error tooShort)
  else do
    let pathnameLen ← req.slice? 0 uint32ByteLength >>= bigEndianUint32
    let contentLen ← req.slice? (2 * uint32ByteLength + pathnameLen.toNat)
      (3 * uint32ByteLength + pathnameLen.toNat) >>= bigEndianUint32
    if req.len ≠ 3 * uint32ByteLength + pathnameLen.toNat + contentLen.toNat then
      some (.error incorrectLength)
    else
      some (.ok pathnameLen.toNat)

/-- `req[Uint32ByteLength : Uint32ByteLength+pathnameLen]` -/
def pathnameAt (req : Slice UInt8) (pathnameLen : Nat) : Option (Slice UInt8) :=
  req.slice? uint32ByteLength (uint32ByteLength + pathnameLen)

/-- The word after the pathname, cut out with both bounds. -/
def offsetAt (req : Slice UInt8) (pathnameLen : Nat) : Option UInt32 :=
  req.slice? (uint32ByteLength + pathnameLen) (2 * uint32ByteLength + pathnameLen) >>=
    bigEndianUint32

/-- `UnmarshalRequest` of read and delete: pathname, offset, number of bytes. -/
def unmarshalRangeRequest (req : Slice UInt8) : Option (Except Bytes (Bytes × UInt32 × UInt32)) := do
  match ← validateFixedRequest 3 req with
  | .error err => some (.error err)
  | .ok pathnameLen =>
    let pathname ← pathnameAt req pathnameLen
    let offset ← offsetAt req pathnameLen
    let numBytes ← req.tail? (2 * uint32ByteLength + pathnameLen) >>= bigEndianUint32
    some (.ok (pathname.elems, offset, numBytes))

/-- `UnmarshalRequest` of write and replace: pathname, offset, content. -/
def unmarshalContentRequest (req : Slice UInt8) : Option (Except Bytes (Bytes × UInt32 × Bytes)) := do
  match ← validateContentRequest req with
  | .error err => some (.error err)
  | .ok pathnameLen =>
    let pathname ← pathnameAt req pathnameLen
    let offset ← offsetAt req pathnameLen
    let content ← req.tail? (3 * uint32ByteLength + pathnameLen)
    some (.ok (pathname.elems, offset, content.elems))

def Read.unmarshalRequest (req : Slice UInt8) : Option (Except Bytes ReadRequest) :=
  (unmarshalRangeRequest req).map (·.map fun (pathname, offset, numBytes) =>
    { pathname, offset, numBytes })

def Delete.unmarshalRequest (req : Slice UInt8) : Option (Except Bytes DeleteRequest) :=
  (unmarshalRangeRequest req).map (·.map fun (pathname, offset, numBytes) =>
    { pathname, offset, numBytes })

def Write.unmarshalRequest (req : Slice UInt8) : Option (Except Bytes WriteRequest) :=
  (unmarshalContentRequest req).map (·.map fun (pathname, offset, content) =>
    { pathname, offset, content })

def Replace.unmarshalRequest (req : Slice UInt8) : Option (Except Bytes ReplaceRequest) :=
  (unmarshalContentRequest req).map (·.map fun (pathname, offset, content) =>
    { pathname, offset, content })

def Subscribe.unmarshalRequest (req : Slice UInt8) : Option (Except Bytes SubscribeRequest) := do
  match ← validateFixedRequest 2 req with
  | .error err => some (.error err)
  | .ok pathnameLen =>
    let pathname ← pathnameAt req pathnameLen
    let monitorIntervalSeconds ← req.tail? (uint32ByteLength + pathnameLen) >>= bigEndianUint32
    some (.ok { pathname := pathname.elems, monitorIntervalSeconds })

def GetLastModifiedTime.unmarshalRequest (req : Slice UInt8) :
    Option (Except Bytes GetLastModifiedTimeRequest) := do
  match ← validateFixedRequest 1 req with
  | .error err => some (.error err)
  | .ok pathnameLen =>
    let pathname ← pathnameAt req pathnameLen
    some (.ok { pathname := pathname.elems })

/-- The unmarshaller that the handler of a message type calls. -/
def unmarshalRequest (messageType : MessageType) (req : Slice UInt8) :
    Option (Except Bytes Request) :=
  match messageType with
  | .read => (Read.unmarshalRequest req).map (·.map .read)
  | .write => (Write.unmarshalRequest req).map (·.map .write)
  | .subscribe => (Subscribe.unmarshalRequest req).map (·.map .subscribe)
  | .replace => (Replace.unmarshalRequest req).map (·.map .replace)
  | .delete => (Delete.unmarshalRequest req).map (·.map .delete)
  | .getLastModifiedTime => (GetLastModifiedTime.unmarshalRequest req).map (·.map .getLastModifiedTime)

/-! ### Acceptance

Each unmarshaller accepts exactly the bodies of the format, whatever follows
the request in the receive buffer. -/

/-- The pathname length announced by a request. -/
def announced (req : Slice UInt8) : Nat := value (window req.elems 0 4)

theorem announced_lt (req : Slice UInt8) : announced req < 2 ^ 32 := by
  have bound := value_lt (window req.elems 0 4)
  have width : (window req.elems 0 4).length ≤ 4 := by simp
  exact Nat.lt_of_lt_of_le bound (Nat.pow_le_pow_right (by decide) width)

theorem read_announced {req : Slice UInt8} (long : 4 ≤ req.len) :
    (req.slice? 0 uint32ByteLength >>= bigEndianUint32) = some (UInt32.ofNat (announced req)) :=
  readUint32 rfl long

theorem announced_toNat (req : Slice UInt8) : (UInt32.ofNat (announced req)).toNat = announced req :=
  UInt32.toNat_ofNat_of_lt' (announced_lt req)

theorem validateFixedRequest_ok {req : Slice UInt8} (positive : 1 ≤ words) :
    validateFixedRequest words req = some (.ok n) ↔
      n = announced req ∧ req.len = words * 4 + n := by
  unfold validateFixedRequest
  simp only [uint32ByteLength]
  by_cases short : req.len < words * 4
  · rw [if_pos short]
    constructor
    · intro h; cases h
    · rintro ⟨rfl, same⟩; omega
  · have long : 4 ≤ req.len := by omega
    have length : (req.slice? 0 4 >>= bigEndianUint32) = _ := read_announced long
    rw [if_neg short, length]
    simp only [Option.bind_eq_bind, Option.bind_some, announced_toNat]
    split
    case isTrue different =>
      constructor
      · intro h; cases h
      · rintro ⟨rfl, same⟩; exact absurd same different
    case isFalse same =>
      simp only [Option.some.injEq, Except.ok.injEq]
      constructor
      · rintro rfl; exact ⟨rfl, by omega⟩
      · rintro ⟨rfl, _⟩; rfl

/-- An accepted length pair fits inside the request, so the second length field
was read from the request itself and not from beyond it. -/
theorem validateContentRequest_ok {req : Slice UInt8} :
    validateContentRequest req = some (.ok n) ↔
      n = announced req ∧ 12 + n ≤ req.len ∧
        req.len = 12 + n + value (window req.elems (8 + n) (12 + n)) := by
  unfold validateContentRequest
  simp only [uint32ByteLength, Nat.reduceMul]
  by_cases short : req.len < 12
  · rw [if_pos short]
    constructor
    · intro h; cases h
    · rintro ⟨rfl, inside, _⟩; omega
  · have long : 4 ≤ req.len := by omega
    have length : (req.slice? 0 4 >>= bigEndianUint32) = _ := read_announced long
    rw [if_neg short, length]
    simp only [Option.bind_eq_bind, Option.bind_some, announced_toNat]
    by_cases inside : 12 + announced req ≤ req.len
    · have four : 12 + announced req = 8 + announced req + 4 := by omega
      have content := readUint32 four inside
      have width : (window req.elems (8 + announced req) (12 + announced req)).length ≤ 4 := by
        rw [window_length]; omega
      have bound : value (window req.elems (8 + announced req) (12 + announced req)) < 2 ^ 32 :=
        Nat.lt_of_lt_of_le (value_lt _) (Nat.pow_le_pow_right (by decide) width)
      rw [Option.bind_eq_bind] at content
      rw [content]
      simp only [Option.bind_some, UInt32.toNat_ofNat_of_lt' bound]
      split
      case isTrue different =>
        constructor
        · intro h; cases h
        · rintro ⟨rfl, _, same⟩; exact absurd same different
      case isFalse same =>
        simp only [Option.some.injEq, Except.ok.injEq]
        constructor
        · rintro rfl; exact ⟨rfl, inside, by omega⟩
        · rintro ⟨rfl, _⟩; rfl
    · constructor
      · intro accepted
        obtain ⟨contentLen, _, checked⟩ := Option.bind_eq_some_iff.mp accepted
        split at checked
        · cases checked
        · omega
      · rintro ⟨rfl, within, _⟩
        exact absurd within inside

/-! A request that begins with a counted pathname. -/
section Counted
variable {req : Slice UInt8} {p rest : Bytes}

theorem announced_counted (split : req.elems = counted p ++ rest) (fits : p.length < 2 ^ 32) :
    announced req = p.length := by
  have parts : req.elems = [] ++ bigEndian 4 p.length ++ (p ++ rest) := by
    simp only [split, counted, List.nil_append, List.append_assoc]
  have length : window req.elems 0 4 = bigEndian 4 p.length := window_middle parts rfl (by simp)
  rw [announced, length, value_bigEndian_four fits]

theorem pathnameAt_counted (split : req.elems = counted p ++ rest) :
    (pathnameAt req p.length).map Slice.elems = some p := by
  have inside : 4 + p.length ≤ req.len := by
    simp only [Slice.len, split, List.length_append, counted_length]
    omega
  have parts : req.elems = bigEndian 4 p.length ++ p ++ rest := split
  have middle : window req.elems 4 (4 + p.length) = p := window_middle parts (by simp) (by simp)
  simp only [pathnameAt, uint32ByteLength]
  rw [Slice.slice?_within (by omega) inside, Option.map_some, middle]

theorem offsetAt_counted {x : UInt32} (split : req.elems = counted p ++ (word x ++ rest)) :
    offsetAt req p.length = some x := by
  have inside : 8 + p.length ≤ req.len := by
    simp only [Slice.len, split, List.length_append, counted_length, word_length]
    omega
  have parts : req.elems = counted p ++ word x ++ rest := by rw [split, List.append_assoc]
  have middle : window req.elems (4 + p.length) (8 + p.length) = word x :=
    window_middle parts (by simp) (by simp; omega)
  simp only [offsetAt, uint32ByteLength, Nat.reduceMul]
  rw [readUint32 (by omega) inside, middle, word, uint32_bigEndian]

/-- Reading a final word with the open-ended slice expression. -/
theorem tail_word {pre : Bytes} {x : UInt32} (split : req.elems = pre ++ word x)
    (here : lo = pre.length) : (req.tail? lo >>= bigEndianUint32) = some x := by
  have inside : lo ≤ req.len := by simp [Slice.len, split, here]
  rw [Slice.tail?_within inside, Option.bind_eq_bind, Option.bind_some, split, here, List.drop_left,
    bigEndianUint32_four (by simp [Slice.len])]
  exact congrArg some (uint32_bigEndian x)

end Counted

/-- The bytes of an announced pathname that lies inside the request. -/
theorem counted_of_announced {req : Slice UInt8} (inside : 4 + announced req ≤ req.len) :
    ∃ p, p.length = announced req ∧ req.elems = counted p ++ req.elems.drop (4 + announced req) := by
  have long : 4 ≤ req.elems.length := Nat.le_trans (Nat.le_add_right _ _) inside
  have four : (window req.elems 0 4).length = 4 := by simp [long]
  have size : (window req.elems 4 (4 + announced req)).length = announced req := by
    rw [Slice.len] at inside
    rw [window_length, Nat.min_eq_left inside, Nat.add_sub_cancel_left]
  refine ⟨window req.elems 4 (4 + announced req), size, ?_⟩
  have digits : bigEndian 4 (announced req) = window req.elems 0 4 := by
    have own := bigEndian_value (window req.elems 0 4)
    rwa [four] at own
  rw [counted, size, digits, window_append _ (by omega) (by omega), window, List.drop_zero,
    List.take_append_drop]

theorem word_of_four {bs : Bytes} (four : bs.length = 4) : ∃ x, bs = word x :=
  ⟨UInt32.ofNat (value bs), (bigEndian_uint32 four).symm⟩

theorem words_of_eight {bs : Bytes} (eight : bs.length = 8) : ∃ x y, bs = word x ++ word y := by
  have left : (bs.take 4).length = 4 := by simp [eight]
  have right : (bs.drop 4).length = 4 := by simp [eight]
  obtain ⟨x, first⟩ := word_of_four left
  obtain ⟨y, second⟩ := word_of_four right
  exact ⟨x, y, by rw [← first, ← second, List.take_append_drop]⟩

theorem validateFixedRequest_counted {req : Slice UInt8} (split : req.elems = counted p ++ rest)
    (fits : p.length < 2 ^ 32) (size : 4 + rest.length = words * 4) :
    validateFixedRequest words req = some (.ok p.length) := by
  refine (validateFixedRequest_ok (by omega)).mpr ⟨(announced_counted split fits).symm, ?_⟩
  simp only [Slice.len, split, List.length_append, counted_length]
  omega

/-- The shape of what the fixed-size check accepts. -/
theorem counted_of_fixed {req : Slice UInt8} (positive : 1 ≤ words)
    (checked : validateFixedRequest words req = some (.ok n)) :
    ∃ p rest, p.length < 2 ^ 32 ∧ 4 + rest.length = words * 4 ∧ req.elems = counted p ++ rest := by
  obtain ⟨rfl, size⟩ := (validateFixedRequest_ok positive).mp checked
  have inside : 4 + announced req ≤ req.len := by omega
  obtain ⟨p, length, split⟩ := counted_of_announced inside
  refine ⟨p, _, length ▸ announced_lt req, ?_, split⟩
  have total := congrArg List.length split
  simp only [List.length_append, counted_length, length] at total
  rw [Slice.len] at size
  omega

/-- The shape of what the check of write and replace accepts. -/
theorem counted_of_content {req : Slice UInt8}
    (checked : validateContentRequest req = some (.ok n)) :
    ∃ p x c, p.length < 2 ^ 32 ∧ c.length < 2 ^ 32 ∧ req.elems = counted p ++ (word x ++ counted c) := by
  obtain ⟨rfl, inside, size⟩ := validateContentRequest_ok.mp checked
  have path : 4 + announced req ≤ req.len := by omega
  obtain ⟨p, length, split⟩ := counted_of_announced path
  have total : req.elems.length = req.len := rfl
  have four : (window req.elems (4 + announced req) (8 + announced req)).length = 4 := by
    rw [window_length]
    omega
  obtain ⟨x, offset⟩ := word_of_four four
  have tail : req.elems.drop (4 + announced req) = word x ++ req.elems.drop (8 + announced req) := by
    rw [← offset, ← window_to_end, ← window_to_end, window_append _ (by omega) (by omega)]
  have content : (req.elems.drop (8 + announced req)).take 4 =
      window req.elems (8 + announced req) (12 + announced req) := by
    rw [← window_to_end, window, window, List.take_drop, List.take_take]
    congr 2
    omega
  have long : 4 ≤ (req.elems.drop (8 + announced req)).length := by
    rw [List.length_drop]
    omega
  obtain ⟨c, fits, rest⟩ := counted_of_tail long (by rw [content, List.length_drop]; omega)
  refine ⟨p, x, c, length ▸ announced_lt req, fits, ?_⟩
  rw [← rest, ← tail]
  exact split

theorem validateContentRequest_counted {req : Slice UInt8}
    (split : req.elems = counted p ++ (word x ++ counted c)) (fits : p.length < 2 ^ 32)
    (contentFits : c.length < 2 ^ 32) : validateContentRequest req = some (.ok p.length) := by
  have total : req.len = 12 + p.length + c.length := by
    simp only [Slice.len, split, List.length_append, counted_length, word_length]
    omega
  have parts : req.elems = (counted p ++ word x) ++ bigEndian 4 c.length ++ c := by
    simp only [split, counted, List.append_assoc]
  have length : window req.elems (8 + p.length) (12 + p.length) = bigEndian 4 c.length :=
    window_middle parts (by simp; omega) (by simp; omega)
  refine validateContentRequest_ok.mpr ⟨(announced_counted split fits).symm, by omega, ?_⟩
  rw [length, value_bigEndian_four contentFits, total]

/-! Evaluation on a body, and acceptance of nothing but bodies. -/

theorem unmarshalRangeRequest_body {req : Slice UInt8}
    (split : req.elems = counted p ++ (word x ++ word y)) (fits : p.length < 2 ^ 32) :
    unmarshalRangeRequest req = some (.ok (p, x, y)) := by
  obtain ⟨path, cut, same⟩ := Option.map_eq_some_iff.mp (pathnameAt_counted split)
  have parts : req.elems = (counted p ++ word x) ++ word y := by rw [split, List.append_assoc]
  have here : 8 + p.length = (counted p ++ word x).length := by
    rw [List.length_append, counted_length, word_length]
    omega
  have last := tail_word parts here
  have valid : validateFixedRequest 3 req = some (.ok p.length) :=
    validateFixedRequest_counted split fits rfl
  simp only [unmarshalRangeRequest, valid, Option.bind_eq_bind, Option.bind_some, cut, offsetAt_counted split, same]
  simp only [uint32ByteLength, Nat.reduceMul, ← Option.bind_eq_bind, last]
  rfl

theorem unmarshalRangeRequest_ok {req : Slice UInt8} :
    unmarshalRangeRequest req = some (.ok (p, x, y)) ↔
      p.length < 2 ^ 32 ∧ req.elems = counted p ++ (word x ++ word y) := by
  constructor
  · intro accepted
    obtain ⟨checked, valid, rest⟩ := Option.bind_eq_some_iff.mp accepted
    cases checked with
    | error err => cases rest
    | ok n =>
      obtain ⟨q, tail, fits, size, split⟩ := counted_of_fixed (by decide) valid
      have eight : tail.length = 8 := by omega
      obtain ⟨a, b, rfl⟩ := words_of_eight eight
      have evaluated := unmarshalRangeRequest_body split fits
      rw [accepted] at evaluated
      cases evaluated
      exact ⟨fits, split⟩
  · rintro ⟨fits, split⟩
    exact unmarshalRangeRequest_body split fits

theorem unmarshalContentRequest_body {req : Slice UInt8}
    (split : req.elems = counted p ++ (word x ++ counted c)) (fits : p.length < 2 ^ 32)
    (contentFits : c.length < 2 ^ 32) : unmarshalContentRequest req = some (.ok (p, x, c)) := by
  obtain ⟨path, cut, same⟩ := Option.map_eq_some_iff.mp (pathnameAt_counted split)
  have start : (counted p ++ word x ++ bigEndian 4 c.length).length = 12 + p.length := by
    simp; omega
  have whole : req.elems = (counted p ++ word x ++ bigEndian 4 c.length) ++ c := by
    simp only [split, counted, List.append_assoc]
  have tail : req.tail? (12 + p.length) = some ⟨c, req.spare⟩ := by
    rw [Slice.tail?_within (by rw [Slice.len, whole]; simp; omega), whole, ← start, List.drop_left]
  simp only [unmarshalContentRequest, validateContentRequest_counted split fits contentFits,
    Option.bind_eq_bind, Option.bind_some, cut, offsetAt_counted split, same]
  simp only [uint32ByteLength, Nat.reduceMul, tail]
  rfl

theorem unmarshalContentRequest_ok {req : Slice UInt8} :
    unmarshalContentRequest req = some (.ok (p, x, c)) ↔
      p.length < 2 ^ 32 ∧ c.length < 2 ^ 32 ∧ req.elems = counted p ++ (word x ++ counted c) := by
  constructor
  · intro accepted
    obtain ⟨checked, valid, rest⟩ := Option.bind_eq_some_iff.mp accepted
    cases checked with
    | error err => cases rest
    | ok n =>
      obtain ⟨q, a, b, fits, contentFits, split⟩ := counted_of_content valid
      have evaluated := unmarshalContentRequest_body split fits contentFits
      rw [accepted] at evaluated
      cases evaluated
      exact ⟨fits, contentFits, split⟩
  · rintro ⟨fits, contentFits, split⟩
    exact unmarshalContentRequest_body split fits contentFits

theorem Subscribe.unmarshalRequest_body {req : Slice UInt8}
    (split : req.elems = counted p ++ word x) (fits : p.length < 2 ^ 32) :
    Subscribe.unmarshalRequest req = some (.ok ⟨p, x⟩) := by
  obtain ⟨path, cut, same⟩ := Option.map_eq_some_iff.mp (pathnameAt_counted split)
  have last := tail_word split (counted_length p).symm
  have valid : validateFixedRequest 2 req = some (.ok p.length) :=
    validateFixedRequest_counted split fits rfl
  simp only [Subscribe.unmarshalRequest, valid, Option.bind_eq_bind, Option.bind_some, cut, same]
  simp only [uint32ByteLength, ← Option.bind_eq_bind, last]
  rfl

theorem Subscribe.unmarshalRequest_ok {req : Slice UInt8} :
    Subscribe.unmarshalRequest req = some (.ok ⟨p, x⟩) ↔
      p.length < 2 ^ 32 ∧ req.elems = counted p ++ word x := by
  constructor
  · intro accepted
    obtain ⟨checked, valid, rest⟩ := Option.bind_eq_some_iff.mp accepted
    cases checked with
    | error err => cases rest
    | ok n =>
      obtain ⟨q, tail, fits, size, split⟩ := counted_of_fixed (by decide) valid
      have four : tail.length = 4 := by omega
      obtain ⟨a, rfl⟩ := word_of_four four
      have evaluated := Subscribe.unmarshalRequest_body split fits
      rw [accepted] at evaluated
      cases evaluated
      exact ⟨fits, split⟩
  · rintro ⟨fits, split⟩
    exact Subscribe.unmarshalRequest_body split fits

theorem GetLastModifiedTime.unmarshalRequest_body {req : Slice UInt8}
    (split : req.elems = counted p) (fits : p.length < 2 ^ 32) :
    GetLastModifiedTime.unmarshalRequest req = some (.ok ⟨p⟩) := by
  have split : req.elems = counted p ++ [] := by rw [split, List.append_nil]
  obtain ⟨path, cut, same⟩ := Option.map_eq_some_iff.mp (pathnameAt_counted split)
  have valid : validateFixedRequest 1 req = some (.ok p.length) :=
    validateFixedRequest_counted split fits rfl
  simp only [GetLastModifiedTime.unmarshalRequest, valid, Option.bind_eq_bind, Option.bind_some, cut, same]

theorem GetLastModifiedTime.unmarshalRequest_ok {req : Slice UInt8} :
    GetLastModifiedTime.unmarshalRequest req = some (.ok ⟨p⟩) ↔
      p.length < 2 ^ 32 ∧ req.elems = counted p := by
  constructor
  · intro accepted
    obtain ⟨checked, valid, rest⟩ := Option.bind_eq_some_iff.mp accepted
    cases checked with
    | error err => cases rest
    | ok n =>
      obtain ⟨q, tail, fits, size, split⟩ := counted_of_fixed (by decide) valid
      have none : tail.length = 0 := by omega
      obtain rfl := List.length_eq_zero_iff.mp none
      rw [List.append_nil] at split
      have evaluated := GetLastModifiedTime.unmarshalRequest_body split fits
      rw [accepted] at evaluated
      cases evaluated
      exact ⟨fits, split⟩
  · rintro ⟨fits, split⟩
    exact GetLastModifiedTime.unmarshalRequest_body split fits

theorem map_map_ok {x : Option (Except ε α)} {f : α → β} :
    x.map (·.map f) = some (.ok b) ↔ ∃ a, x = some (.ok a) ∧ f a = b := by
  cases x with
  | none => simp
  | some r => cases r <;> simp [Except.map]

/-- A request of a kind is accepted exactly when its bytes are the body of an
encodable request of that kind; the spare capacity plays no part. -/
theorem unmarshalRequest_ok {kind : MessageType} {req : Slice UInt8} {r : Request} :
    unmarshalRequest kind req = some (.ok r) ↔
      r.messageType = kind ∧ r.Encodable ∧ req.elems = r.body := by
  cases kind <;>
    simp only [unmarshalRequest, Read.unmarshalRequest, Write.unmarshalRequest,
      Replace.unmarshalRequest, Delete.unmarshalRequest, map_map_ok]
  case read | delete =>
    constructor
    · rintro ⟨_, ⟨⟨p, x, y⟩, accepted, rfl⟩, rfl⟩
      obtain ⟨fits, split⟩ := unmarshalRangeRequest_ok.mp accepted
      exact ⟨rfl, ⟨fits, Nat.two_pow_pos 32⟩, split⟩
    · rintro ⟨kind, encodable, split⟩
      cases r <;> cases kind
      exact ⟨_, ⟨_, unmarshalRangeRequest_ok.mpr ⟨encodable.pathname, split⟩, rfl⟩, rfl⟩
  case write | replace =>
    constructor
    · rintro ⟨_, ⟨⟨p, x, c⟩, accepted, rfl⟩, rfl⟩
      obtain ⟨fits, contentFits, split⟩ := unmarshalContentRequest_ok.mp accepted
      exact ⟨rfl, ⟨fits, contentFits⟩, split⟩
    · rintro ⟨kind, encodable, split⟩
      cases r <;> cases kind
      exact ⟨_, ⟨_, unmarshalContentRequest_ok.mpr
        ⟨encodable.pathname, encodable.content, split⟩, rfl⟩, rfl⟩
  case subscribe =>
    constructor
    · rintro ⟨⟨p, x⟩, accepted, rfl⟩
      obtain ⟨fits, split⟩ := Subscribe.unmarshalRequest_ok.mp accepted
      exact ⟨rfl, ⟨fits, Nat.two_pow_pos 32⟩, split⟩
    · rintro ⟨kind, encodable, split⟩
      cases r <;> cases kind
      exact ⟨_, Subscribe.unmarshalRequest_ok.mpr ⟨encodable.pathname, split⟩, rfl⟩
  case getLastModifiedTime =>
    constructor
    · rintro ⟨⟨p⟩, accepted, rfl⟩
      obtain ⟨fits, split⟩ := GetLastModifiedTime.unmarshalRequest_ok.mp accepted
      exact ⟨rfl, ⟨fits, Nat.two_pow_pos 32⟩, by simpa only [Request.body, Request.fields, List.append_nil]⟩
    · rintro ⟨kind, encodable, split⟩
      cases r <;> cases kind
      simp only [Request.body, Request.fields, List.append_nil] at split
      exact ⟨_, GetLastModifiedTime.unmarshalRequest_ok.mpr ⟨encodable.pathname, split⟩, rfl⟩

/-! ### The header that the router reads -/

def validateRequest (req : Slice UInt8) : Except Bytes Unit :=
  if req.len < messageTypeLength + uint32ByteLength then .error tooShort else .ok ()

def getMessageType (req : Slice UInt8) : Option UInt8 := req.elems[0]?

def getMessageId (req : Slice UInt8) : Option UInt32 :=
  req.slice? messageTypeLength (messageTypeLength + uint32ByteLength) >>= bigEndianUint32

/-- `udp_request[MessageTypeLength+Uint32ByteLength:]` -/
def getData (req : Slice UInt8) : Option (Slice UInt8) :=
  req.tail? (messageTypeLength + uint32ByteLength)

/-- A datagram long enough to pass `validateRequest` splits into its header and
the data handed to the handler. -/
theorem header_split {req : Slice UInt8} (long : 5 ≤ req.len) :
    ∃ code id data, getMessageType req = some code ∧ getMessageId req = some id ∧
      getData req = some ⟨data, req.spare⟩ ∧ req.elems = code :: (word id ++ data) := by
  obtain ⟨elems, spare⟩ := req
  simp only [Slice.len] at long
  have positive : 0 < elems.length := by omega
  obtain ⟨code, rest, rfl⟩ := List.exists_cons_of_length_pos positive
  rw [List.length_cons] at long
  have width : (rest.take 4).length = 4 := by
    rw [List.length_take]
    omega
  obtain ⟨id, four⟩ := word_of_four width
  have split : rest = word id ++ rest.drop 4 := by rw [← four, List.take_append_drop]
  have parts : code :: rest = [code] ++ word id ++ rest.drop 4 := by
    rw [List.append_assoc, ← split]
    rfl
  have middle : window (code :: rest) 1 5 = word id := window_middle parts rfl rfl
  refine ⟨code, id, rest.drop 4, rfl, ?_, ?_, congrArg (code :: ·) split⟩
  · simp only [getMessageId, messageTypeLength, uint32ByteLength, Nat.reduceAdd]
    rw [readUint32 rfl (by simp [Slice.len]; omega), middle, word, uint32_bigEndian]
  · rw [getData, Slice.tail?_within (by simp [Slice.len]; omega)]
    rfl

theorem header_datagram (id : UInt32) (r : Request) (spare : Bytes) :
    getMessageType ⟨r.datagram id, spare⟩ = some r.messageType.code ∧
      getMessageId ⟨r.datagram id, spare⟩ = some id ∧
      getData ⟨r.datagram id, spare⟩ = some ⟨r.body, spare⟩ := by
  have long : 5 ≤ Slice.len ⟨r.datagram id, spare⟩ := by simp [Slice.len, Request.datagram]
  obtain ⟨code, x, data, first, second, third, split⟩ := header_split long
  obtain ⟨sameCode, same⟩ := List.cons.inj split
  obtain ⟨rfl, rfl⟩ := word_inj same
  exact ⟨sameCode ▸ first, second, third⟩

end RemoteFile.Server
