import RemoteFile.Server.Subscriptions

/-! The six services. Each edit of a file is split into the computation of the
new content, where slice expressions may panic, and the read, write and
notification around it, which write, replace and delete share. -/
namespace RemoteFile.Server
open Octets Go

variable {Disk : Type}

def concatenatePaths (path1 path2 : Bytes) : Bytes := path1 ++ text "/" ++ path2

def offsetExceeds : Bytes := text "offset exceeds file length"

/-- The content `Write` computes: the request's content is inserted at the offset. -/
def Write.edit (fileContent : Slice UInt8) (req : WriteRequest) : Option (Except Bytes Bytes) :=
  let fileLen := fileContent.len
  if req.offset > UInt32.ofNat fileLen then some (.error offsetExceeds)
  else do
    let offset := req.offset.toNat
    let writeContentLen := req.content.length
    let stop := (req.offset + UInt32.ofNat writeContentLen).toNat
    let buf := List.replicate (fileLen + writeContentLen) 0
    let before ← fileContent.slice? 0 offset
    let buf ← Slice.copy? buf 0 offset before.elems
    let buf ← Slice.copy? buf offset stop req.content
    let after ← fileContent.tail? offset
    let buf ← Slice.copy? buf stop buf.length after.elems
    some (.ok buf)

/-- The content `Replace` computes: the buffer has the length of the file, and
both ends of the replaced range are used to cut it. -/
def Replace.edit (fileContent : Slice UInt8) (req : ReplaceRequest) : Option (Except Bytes Bytes) :=
  let fileLen := fileContent.len
  if req.offset > UInt32.ofNat fileLen then some (.error offsetExceeds)
  else do
    let offset := req.offset.toNat
    let replaceContentLen := req.content.length
    let stop := (req.offset + UInt32.ofNat replaceContentLen).toNat
    let buf := List.replicate fileLen 0
    let before ← fileContent.slice? 0 offset
    let buf ← Slice.copy? buf 0 offset before.elems
    let buf ← Slice.copy? buf offset stop req.content
    let after ← fileContent.tail? stop
    let buf ← Slice.copy? buf stop buf.length after.elems
    some (.ok buf)

/-- The content `Delete` computes; the sum of the two fields wraps. The append
moves the bytes after the range down in place. -/
def Delete.edit (fileContent : Slice UInt8) (req : DeleteRequest) : Option (Except Bytes Bytes) :=
  let fileLen := fileContent.len
  if req.offset > UInt32.ofNat fileLen then some (.error offsetExceeds)
  else if req.offset + req.numBytes > UInt32.ofNat fileLen then
    some (.error (text "segment to delete exceeds file length"))
  else do
    let before ← fileContent.slice? 0 req.offset.toNat
    let after ← fileContent.tail? (req.offset + req.numBytes).toNat
    some (.ok (before.elems ++ after.elems))

/-- The bytes `Read` returns; the sum of the two fields wraps. -/
def Read.segment (fileContent : Slice UInt8) (req : ReadRequest) : Option (Except Bytes Bytes) :=
  let fileLen := fileContent.len
  if req.offset > UInt32.ofNat fileLen then some (.error offsetExceeds)
  else if req.offset + req.numBytes > UInt32.ofNat fileLen then
    some (.error (text "segment to read exceeds file length"))
  else do
    let content ← fileContent.slice? req.offset.toNat (req.offset + req.numBytes).toNat
    some (.ok content.elems)

def read (env : Env Disk) (fileStorePath : Bytes) (req : ReadRequest) (s : Store Disk) :
    Option (Store Disk × ReadResponse) :=
  let filePath := concatenatePaths fileStorePath req.pathname
  let s := s.did (.readFile filePath)
  match env.os.readFile s.disk filePath with
  | .error err => some (s, ⟨false, [], err⟩)
  | .ok fileContent => do
    match ← Read.segment fileContent req with
    | .error err => some (s, ⟨false, [], err⟩)
    | .ok content => some (s, ⟨true, content, []⟩)

/-- The course that write, replace and delete share: read the file, compute the
new content, write it back and notify the subscribers of the request's pathname. -/
def update (env : Env Disk) (fileStorePath pathname : Bytes)
    (edit : Slice UInt8 → Option (Except Bytes Bytes)) (s : Store Disk) :
    Option (Store Disk × StatusResponse) :=
  let filePath := concatenatePaths fileStorePath pathname
  let s := s.did (.readFile filePath)
  match env.os.readFile s.disk filePath with
  | .error err => some (s, ⟨false, err⟩)
  | .ok fileContent => do
    match ← edit fileContent with
    | .error err => some (s, ⟨false, err⟩)
    | .ok buf =>
      let s := s.did (.writeFile filePath buf)
      match env.os.writeFile s.disk filePath buf with
      | (disk, some err) => some ({ s with disk }, ⟨false, err⟩)
      | (disk, none) => do
        let s ← handleNotification env pathname buf { s with disk }
        some (s, ⟨true, []⟩)

def write (env : Env Disk) (fileStorePath : Bytes) (req : WriteRequest) (s : Store Disk) :
    Option (Store Disk × WriteResponse) :=
  update env fileStorePath req.pathname (Write.edit · req) s

def replace (env : Env Disk) (fileStorePath : Bytes) (req : ReplaceRequest) (s : Store Disk) :
    Option (Store Disk × ReplaceResponse) :=
  update env fileStorePath req.pathname (Replace.edit · req) s

def delete (env : Env Disk) (fileStorePath : Bytes) (req : DeleteRequest) (s : Store Disk) :
    Option (Store Disk × DeleteResponse) :=
  update env fileStorePath req.pathname (Delete.edit · req) s

/-- `time.Time.Unix` of a time in nanoseconds. -/
def unix (t : Int) : Int64 := Int64.ofInt (t / 1000000000)

def getLastModifiedTime (env : Env Disk) (fileStorePath : Bytes) (req : GetLastModifiedTimeRequest)
    (s : Store Disk) : Store Disk × GetLastModifiedTimeResponse :=
  let filePath := concatenatePaths fileStorePath req.pathname
  let s := s.did (.stat filePath)
  match env.os.stat s.disk filePath with
  | .error err => (s, ⟨false, 0, err⟩)
  | .ok modTime => (s, ⟨true, unix modTime, []⟩)

/-! ### What a replacement computes -/

/-- `req.Offset+uint32(replaceContentLen)` -/
def Replace.stop (req : ReplaceRequest) : Nat := (req.offset + UInt32.ofNat req.content.length).toNat

/-- A stop that has not wrapped below the offset lies within the content. -/
theorem Replace.stop_sub_le {req : ReplaceRequest} (order : req.offset.toNat ≤ Replace.stop req) :
    Replace.stop req - req.offset.toNat ≤ req.content.length := by
  have offset := req.offset.toNat_lt
  rw [Replace.stop, UInt32.toNat_add, UInt32.toNat_ofNat'] at *
  have shorter := Nat.mod_le req.content.length (2 ^ 32)
  omega

theorem Replace.edit_exceeds {fileContent : Slice UInt8} {req : ReplaceRequest}
    (outside : fileContent.len % 2 ^ 32 < req.offset.toNat) :
    Replace.edit fileContent req = some (.error offsetExceeds) := by
  unfold Replace.edit
  simp only [gt_iff_lt, UInt32.lt_iff_toNat_lt, UInt32.toNat_ofNat']
  rw [if_pos outside]

/-- The bytes before the offset are always copied. -/
theorem Replace.edit_inside {fileContent : Slice UInt8} {req : ReplaceRequest}
    (inside : req.offset.toNat ≤ fileContent.len % 2 ^ 32) :
    Replace.edit fileContent req = (do
      let buf ← Slice.copy? (filled 0 fileContent.len (fileContent.elems.take req.offset.toNat))
        req.offset.toNat (Replace.stop req) req.content
      let after ← fileContent.tail? (Replace.stop req)
      let buf ← Slice.copy? buf (Replace.stop req) buf.length after.elems
      some (.ok buf)) := by
  have shorter : fileContent.len % 2 ^ 32 ≤ fileContent.len := Nat.mod_le _ _
  have start : List.replicate fileContent.len 0 = filled (0 : UInt8) fileContent.len [] :=
    (filled_nil _ _).symm
  have stop : (req.offset + UInt32.ofNat req.content.length).toNat = Replace.stop req := rfl
  have width : (fileContent.elems.take req.offset.toNat).length = req.offset.toNat :=
    List.length_take_of_le (inside.trans shorter)
  have first : Slice.copy? (filled 0 fileContent.len []) 0 req.offset.toNat
      (fileContent.elems.take req.offset.toNat) =
      some (filled 0 fileContent.len (fileContent.elems.take req.offset.toNat)) :=
    Slice.copy?_filled List.length_nil.symm (by rw [width, Nat.zero_add]) (inside.trans shorter)
  unfold Replace.edit
  simp only [gt_iff_lt, UInt32.lt_iff_toNat_lt, UInt32.toNat_ofNat', stop, start]
  rw [if_neg (Nat.not_lt_of_le inside), Slice.slice?_within (Nat.zero_le _) (inside.trans shorter),
    Option.bind_eq_bind, Option.bind_some, window, List.drop_zero, first, Option.bind_eq_bind,
    Option.bind_some]

/-- The content between the offset and the stop overwrites the file. -/
theorem Replace.edit_within {fileContent : Slice UInt8} {req : ReplaceRequest}
    (inside : req.offset.toNat ≤ fileContent.len % 2 ^ 32) (order : req.offset.toNat ≤ Replace.stop req)
    (fits : Replace.stop req ≤ fileContent.len) :
    Replace.edit fileContent req = some (.ok (overwrite fileContent.elems req.offset.toNat
      (req.content.take (Replace.stop req - req.offset.toNat)))) := by
  have width : (fileContent.elems.take req.offset.toNat).length = req.offset.toNat :=
    List.length_take_of_le (order.trans fits)
  have part : (req.content.take (Replace.stop req - req.offset.toNat)).length =
      Replace.stop req - req.offset.toNat := List.length_take_of_le (Replace.stop_sub_le order)
  have written : (fileContent.elems.take req.offset.toNat ++
      req.content.take (Replace.stop req - req.offset.toNat)).length = Replace.stop req := by
    rw [List.length_append, width, part, Nat.add_sub_cancel' order]
  have rest : (fileContent.elems.drop (Replace.stop req)).length = fileContent.len - Replace.stop req :=
    List.length_drop
  rw [Replace.edit_inside inside, Slice.copy?_filled_take width.symm order fits, Option.bind_eq_bind,
    Option.bind_some, Slice.tail?_within fits, Option.bind_eq_bind, Option.bind_some,
    filled_length (written.trans_le fits),
    Slice.copy?_filled written.symm (by rw [rest]; omega) (Nat.le_refl _), Option.bind_some, filled_full (by rw [List.length_append, written, rest]; omega), overwrite, part,
    Nat.add_sub_cancel' order]

/-- A stop that wraps below the offset, or lies behind the end of the file, is a panic. -/
theorem Replace.edit_outside {fileContent : Slice UInt8} {req : ReplaceRequest}
    (inside : req.offset.toNat ≤ fileContent.len % 2 ^ 32)
    (outside : ¬ (req.offset.toNat ≤ Replace.stop req ∧ Replace.stop req ≤ fileContent.len)) :
    Replace.edit fileContent req = none := by
  have shorter : (fileContent.elems.take req.offset.toNat).length ≤ fileContent.len := List.length_take_le' ..
  rw [Replace.edit_inside inside, Slice.copy?_filled_none shorter outside]
  rfl

theorem Replace.edit_ok_iff {fileContent : Slice UInt8} {req : ReplaceRequest} {buf : Bytes} :
    Replace.edit fileContent req = some (.ok buf) ↔
      req.offset.toNat ≤ fileContent.len % 2 ^ 32 ∧ req.offset.toNat ≤ Replace.stop req ∧
      Replace.stop req ≤ fileContent.len ∧
      buf = overwrite fileContent.elems req.offset.toNat
        (req.content.take (Replace.stop req - req.offset.toNat)) := by
  constructor
  · intro edited
    by_cases inside : req.offset.toNat ≤ fileContent.len % 2 ^ 32
    case neg =>
      rw [Replace.edit_exceeds (Nat.lt_of_not_le inside)] at edited
      cases edited
    by_cases within : req.offset.toNat ≤ Replace.stop req ∧ Replace.stop req ≤ fileContent.len
    case neg =>
      rw [Replace.edit_outside inside within] at edited
      cases edited
    rw [Replace.edit_within inside within.1 within.2] at edited
    cases edited
    exact ⟨inside, within.1, within.2, rfl⟩
  · rintro ⟨inside, order, fits, rfl⟩
    exact Replace.edit_within inside order fits

theorem Replace.edit_error_iff {fileContent : Slice UInt8} {req : ReplaceRequest} {err : Bytes} :
    Replace.edit fileContent req = some (.error err) ↔
      fileContent.len % 2 ^ 32 < req.offset.toNat ∧ err = offsetExceeds := by
  constructor
  · intro edited
    by_cases inside : req.offset.toNat ≤ fileContent.len % 2 ^ 32
    case neg =>
      rw [Replace.edit_exceeds (Nat.lt_of_not_le inside)] at edited
      cases edited
      exact ⟨Nat.lt_of_not_le inside, rfl⟩
    by_cases within : req.offset.toNat ≤ Replace.stop req ∧ Replace.stop req ≤ fileContent.len
    · rw [Replace.edit_within inside within.1 within.2] at edited
      cases edited
    · rw [Replace.edit_outside inside within] at edited
      cases edited
  · rintro ⟨outside, rfl⟩
    exact Replace.edit_exceeds outside

/-! ### What a successful read returns -/

/-- A range is read exactly when it lies inside the file, without its end
wrapping; a wrapped range that passes both checks is a panic. -/
theorem Read.segment_ok_iff {fileContent : Slice UInt8} {req : ReadRequest} {bytes : Bytes} :
    Read.segment fileContent req = some (.ok bytes) ↔
      req.offset.toNat + req.numBytes.toNat < 2 ^ 32 ∧
      req.offset.toNat + req.numBytes.toNat ≤ fileContent.len % 2 ^ 32 ∧
      bytes = window fileContent.elems req.offset.toNat (req.offset.toNat + req.numBytes.toNat) := by
  have offset := req.offset.toNat_lt
  have count := req.numBytes.toNat_lt
  have shorter : fileContent.len % 2 ^ 32 ≤ fileContent.len := Nat.mod_le _ _
  unfold Read.segment
  simp only [gt_iff_lt, UInt32.lt_iff_toNat_lt, UInt32.toNat_add, UInt32.toNat_ofNat']
  constructor
  · intro read
    split at read
    case isTrue => cases read
    case isFalse inside =>
      split at read
      case isTrue => cases read
      case isFalse fits =>
        obtain ⟨content, cut, made⟩ := Option.bind_eq_some_iff.mp read
        cases made
        have order := (Slice.slice?_bounds cut).1
        have exact : (req.offset.toNat + req.numBytes.toNat) % 2 ^ 32 =
            req.offset.toNat + req.numBytes.toNat := by omega
        rw [exact] at fits cut
        exact ⟨by omega, by omega, Slice.slice?_elems cut (by omega)⟩
  · rintro ⟨small, inside, rfl⟩
    rw [Nat.mod_eq_of_lt small, if_neg (by omega), if_neg (by omega),
      Slice.slice?_within (by omega) (by omega)]
    rfl

theorem Read.segment_error_iff {fileContent : Slice UInt8} {req : ReadRequest} {err : Bytes} :
    Read.segment fileContent req = some (.error err) ↔
      (fileContent.len % 2 ^ 32 < req.offset.toNat ∧ err = offsetExceeds) ∨
      (req.offset.toNat ≤ fileContent.len % 2 ^ 32 ∧
        fileContent.len % 2 ^ 32 < (req.offset + req.numBytes).toNat ∧
        err = text "segment to read exceeds file length") := by
  unfold Read.segment
  simp only [gt_iff_lt, UInt32.lt_iff_toNat_lt, UInt32.toNat_ofNat']
  split
  case isTrue outside =>
    simp only [outside, Nat.not_le_of_lt outside, Option.some.injEq, Except.error.injEq, true_and,
      false_and, or_false]
    exact eq_comm
  case isFalse inside =>
    split
    case isTrue outside =>
      simp only [inside, Nat.le_of_not_lt inside, outside, Option.some.injEq, Except.error.injEq,
        true_and, false_and, false_or]
      exact eq_comm
    case isFalse fits =>
      simp only [inside, fits, false_and, and_false, or_self, iff_false]
      intro read
      obtain ⟨_, _, made⟩ := Option.bind_eq_some_iff.mp read
      cases made

/-- A read succeeds exactly when its range can be cut out of the file. -/
theorem read_success_iff {env : Env Disk} {path bytes : Bytes} {req : ReadRequest} {s : Store Disk}
    {fileContent : Slice UInt8}
    (file : env.os.readFile s.disk (concatenatePaths path req.pathname) = .ok fileContent) :
    (∃ t, read env path req s = some (t, ⟨true, bytes, []⟩)) ↔
      Read.segment fileContent req = some (.ok bytes) := by
  simp only [read, Store.did_disk, file]
  cases Read.segment fileContent req with
  | none => simp
  | some result => cases result <;> simp

/-- A response to a read: the bytes of its range, or a failure. -/
theorem read_cases {env : Env Disk} {path : Bytes} {req : ReadRequest} {s t : Store Disk}
    {res : ReadResponse} (answered : read env path req s = some (t, res)) :
    t = s.did (.readFile (concatenatePaths path req.pathname)) ∧
      (res.success = false ∨ ∃ fileContent bytes,
        env.os.readFile s.disk (concatenatePaths path req.pathname) = .ok fileContent ∧
        Read.segment fileContent req = some (.ok bytes) ∧ res = ⟨true, bytes, []⟩) := by
  simp only [read, Store.did_disk] at answered
  split at answered
  case h_1 =>
    cases answered
    exact ⟨rfl, .inl rfl⟩
  case h_2 fileContent file =>
    obtain ⟨result, segment, rest⟩ := Option.bind_eq_some_iff.mp answered
    cases result with
    | error err =>
      cases rest
      exact ⟨rfl, .inl rfl⟩
    | ok bytes =>
      cases rest
      exact ⟨rfl, .inr ⟨fileContent, bytes, file, segment, rfl⟩⟩

theorem read_disk {env : Env Disk} {path : Bytes} {req : ReadRequest} {s t : Store Disk}
    {res : ReadResponse} (answered : read env path req s = some (t, res)) : t.disk = s.disk := by
  rw [(read_cases answered).1, Store.did_disk]

/-! ### What an update does -/

inductive Updated (env : Env Disk) (path pathname : Bytes) (edit : Slice UInt8 → Option (Except Bytes Bytes))
    (s t : Store Disk) (res : StatusResponse) : Prop where
  /-- The file cannot be read. -/
  | unread (err : Bytes) (failed : env.os.readFile s.disk (concatenatePaths path pathname) = .error err)
      (store : t = s.did (.readFile (concatenatePaths path pathname))) (response : res = ⟨false, err⟩)
  /-- The request does not fit the file. -/
  | refused (fileContent : Slice UInt8) (err : Bytes)
      (file : env.os.readFile s.disk (concatenatePaths path pathname) = .ok fileContent)
      (edited : edit fileContent = some (.error err))
      (store : t = s.did (.readFile (concatenatePaths path pathname))) (response : res = ⟨false, err⟩)
  /-- The new content cannot be written. -/
  | unwritten (fileContent : Slice UInt8) (buf err : Bytes) (disk : Disk)
      (file : env.os.readFile s.disk (concatenatePaths path pathname) = .ok fileContent)
      (edited : edit fileContent = some (.ok buf))
      (failed : env.os.writeFile s.disk (concatenatePaths path pathname) buf = (disk, some err))
      (store : t = { (s.did (.readFile (concatenatePaths path pathname))).did
        (.writeFile (concatenatePaths path pathname) buf) with disk }) (response : res = ⟨false, err⟩)
  /-- The new content is written, and its subscribers are notified. -/
  | written (fileContent : Slice UInt8) (buf : Bytes) (disk : Disk)
      (file : env.os.readFile s.disk (concatenatePaths path pathname) = .ok fileContent)
      (edited : edit fileContent = some (.ok buf))
      (wrote : env.os.writeFile s.disk (concatenatePaths path pathname) buf = (disk, none))
      (notified : handleNotification env pathname buf
        { (s.did (.readFile (concatenatePaths path pathname))).did
          (.writeFile (concatenatePaths path pathname) buf) with disk } = some t)
      (response : res = ⟨true, []⟩)

theorem update_cases {env : Env Disk} {path pathname : Bytes}
    {edit : Slice UInt8 → Option (Except Bytes Bytes)} {s t : Store Disk} {res : StatusResponse}
    (updated : update env path pathname edit s = some (t, res)) :
    Updated env path pathname edit s t res := by
  simp only [update, Store.did_disk] at updated
  cases read : env.os.readFile s.disk (concatenatePaths path pathname) with
  | error err =>
    rw [read] at updated
    cases updated
    exact .unread err read rfl rfl
  | ok fileContent =>
    rw [read] at updated
    obtain ⟨result, edited, rest⟩ := Option.bind_eq_some_iff.mp updated
    cases result with
    | error err =>
      cases rest
      exact .refused fileContent err read edited rfl rfl
    | ok buf =>
      cases wrote : env.os.writeFile s.disk (concatenatePaths path pathname) buf with | mk disk err
      simp only [wrote] at rest
      cases err with
      | some err =>
        cases rest
        exact .unwritten fileContent buf err disk read edited wrote rfl rfl
      | none =>
        obtain ⟨u, notified, made⟩ := Option.bind_eq_some_iff.mp rest
        cases made
        exact .written fileContent buf disk read edited wrote notified rfl

/-- The service of a write, replace or delete request. -/
def updateService (env : Env Disk) (path : Bytes) (s : Store Disk) : Request →
    Option (Store Disk × StatusResponse)
  | .write req => write env path req s
  | .replace req => replace env path req s
  | .delete req => delete env path req s
  | _ => none

/-- The new content that a request asks for. -/
def requestedEdit (r : Request) (fileContent : Slice UInt8) : Option (Except Bytes Bytes) :=
  match r with
  | .write req => Write.edit fileContent req
  | .replace req => Replace.edit fileContent req
  | .delete req => Delete.edit fileContent req
  | _ => none

theorem updateService_eq {env : Env Disk} {path : Bytes} {s : Store Disk} {r : Request}
    (updates : r.updates = true) :
    updateService env path s r = update env path r.pathname (requestedEdit r) s := by
  cases r <;> first | rfl | contradiction

theorem getLastModifiedTime_cases (env : Env Disk) (path : Bytes) (req : GetLastModifiedTimeRequest)
    (s : Store Disk) :
    (getLastModifiedTime env path req s).1 = s.did (.stat (concatenatePaths path req.pathname)) ∧
      ((∃ err, (getLastModifiedTime env path req s).2 = ⟨false, 0, err⟩) ∨
        ∃ modTime, env.os.stat s.disk (concatenatePaths path req.pathname) = .ok modTime ∧
          (getLastModifiedTime env path req s).2 = ⟨true, unix modTime, []⟩) := by
  unfold getLastModifiedTime
  dsimp only
  split
  · exact ⟨rfl, .inl ⟨_, rfl⟩⟩
  · rename_i modTime stat
    exact ⟨rfl, .inr ⟨modTime, stat, rfl⟩⟩

end RemoteFile.Server
