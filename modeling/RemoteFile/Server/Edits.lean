import RemoteFile.Core.Splice
import RemoteFile.Server.Reachable
import RemoteFile.Server.Updates

/-! What the services do to a file that exists, by the offsets and lengths of the
requests, on a file system whose calls succeed. The sums of the requests' fields
wrap, and the checks do not notice. -/
namespace RemoteFile.Server
open Octets Go

/-! ### The contents computed -/

/-- `req.Offset+uint32(writeContentLen)` without a wrap. -/
theorem stop_toNat {offset : UInt32} {content : Bytes} (fits : offset.toNat + content.length < 2 ^ 32) :
    (offset + UInt32.ofNat content.length).toNat = offset.toNat + content.length := by
  rw [UInt32.toNat_add, UInt32.toNat_ofNat']
  omega

theorem Write.edit_exceeds {fileContent : Slice UInt8} {req : WriteRequest}
    (outside : fileContent.len % 2 ^ 32 < req.offset.toNat) :
    Write.edit fileContent req = some (.error offsetExceeds) := by
  unfold Write.edit
  simp only [gt_iff_lt, UInt32.lt_iff_toNat_lt, UInt32.toNat_ofNat']
  rw [if_pos outside]

theorem Write.edit_within {fileContent : Slice UInt8} {req : WriteRequest}
    (inside : req.offset.toNat ≤ fileContent.len % 2 ^ 32)
    (fits : req.offset.toNat + req.content.length < 2 ^ 32) :
    Write.edit fileContent req = some (.ok (insertAt fileContent.elems req.offset.toNat req.content)) := by
  have within : req.offset.toNat ≤ fileContent.len := inside.trans (Nat.mod_le _ _)
  have start : List.replicate (fileContent.len + req.content.length) 0 =
      filled (0 : UInt8) (fileContent.len + req.content.length) [] := (filled_nil _ _).symm
  have before : (fileContent.elems.take req.offset.toNat).length = req.offset.toNat := List.length_take_of_le within
  have written : (fileContent.elems.take req.offset.toNat ++ req.content).length =
      req.offset.toNat + req.content.length := by
    rw [List.length_append, before]
  have after : (fileContent.elems.drop req.offset.toNat).length = fileContent.len - req.offset.toNat :=
    List.length_drop
  have whole : (fileContent.elems.take req.offset.toNat ++ req.content ++
      fileContent.elems.drop req.offset.toNat).length = fileContent.len + req.content.length := by
    rw [List.length_append, written, after]
    omega
  have room : req.offset.toNat + req.content.length ≤ fileContent.len + req.content.length :=
    Nat.add_le_add_right within _
  have first := @Slice.copy?_filled _ 0 req.offset.toNat (fileContent.len + req.content.length) 0 []
    (fileContent.elems.take req.offset.toNat) List.length_nil.symm (by rw [before, Nat.zero_add]) (by omega)
  have second := @Slice.copy?_filled _ req.offset.toNat (req.offset.toNat + req.content.length)
    (fileContent.len + req.content.length) 0 _ req.content before.symm rfl room
  have third := @Slice.copy?_filled _ (req.offset.toNat + req.content.length) (fileContent.len + req.content.length)
    (fileContent.len + req.content.length) 0 _ (fileContent.elems.drop req.offset.toNat) written.symm
    (by rw [after]; omega) (Nat.le_refl _)
  unfold Write.edit
  simp only [gt_iff_lt, UInt32.lt_iff_toNat_lt, UInt32.toNat_ofNat', start, stop_toNat fits]
  rw [if_neg (Nat.not_lt_of_le inside), Slice.slice?_within (Nat.zero_le _) within, Slice.tail?_within within]
  simp only [Option.bind_eq_bind, Option.bind_some, window, List.drop_zero, first, List.nil_append, second,
    filled_length (written.trans_le room), third, filled_full whole]
  rfl

/-- A file that is not too long to be counted in 32 bits is shortened or the request
refused; the stop of the range has wrapped if it lies before the offset. -/
theorem Delete.edit_cases {f : Bytes} (spare : Bytes) (req : DeleteRequest) (small : f.length < 2 ^ 32) :
    (f.length < req.offset.toNat ∧ Delete.edit ⟨f, spare⟩ req = some (.error offsetExceeds)) ∨
    (req.offset.toNat ≤ f.length ∧ f.length < (req.offset + req.numBytes).toNat ∧
      Delete.edit ⟨f, spare⟩ req = some (.error (text "segment to delete exceeds file length"))) ∨
    (req.offset.toNat ≤ f.length ∧ (req.offset + req.numBytes).toNat ≤ f.length ∧
      Delete.edit ⟨f, spare⟩ req =
        some (.ok (f.take req.offset.toNat ++ f.drop (req.offset + req.numBytes).toNat))) := by
  have len : Slice.len (⟨f, spare⟩ : Slice UInt8) = f.length := rfl
  unfold Delete.edit
  simp only [gt_iff_lt, UInt32.lt_iff_toNat_lt, UInt32.toNat_ofNat', len, Nat.mod_eq_of_lt small]
  by_cases inside : req.offset.toNat ≤ f.length
  case neg => exact .inl ⟨Nat.lt_of_not_le inside, if_pos (Nat.lt_of_not_le inside)⟩
  rw [if_neg (Nat.not_lt_of_le inside)]
  by_cases stop : (req.offset + req.numBytes).toNat ≤ f.length
  case neg => exact .inr (.inl ⟨inside, Nat.lt_of_not_le stop, if_pos (Nat.lt_of_not_le stop)⟩)
  refine .inr (.inr ⟨inside, stop, ?_⟩)
  rw [if_neg (Nat.not_lt_of_le stop), Slice.slice?_within (Nat.zero_le _) inside, Option.bind_eq_bind,
    Option.bind_some, Slice.tail?_within stop]
  rfl

/-- A sum of two fields that fits in 32 bits, or has wrapped below both. -/
theorem sum_cases (a b : UInt32) :
    (a.toNat + b.toNat < 2 ^ 32 ∧ (a + b).toNat = a.toNat + b.toNat) ∨
      (2 ^ 32 ≤ a.toNat + b.toNat ∧ (a + b).toNat < a.toNat) := by
  have first := a.toNat_lt
  have second := b.toNat_lt
  rw [UInt32.toNat_add]
  omega

/-! ### On a file system whose calls succeed -/

variable {Disk κ : Type} {locate : Bytes → κ} {contents : Disk → κ → Option Bytes} {env : Env Disk}
  {path : Bytes} {s t : Store Disk} {f : Bytes}

/-- A file that exists is read and written, and nothing else changes. -/
structure OS.Working (os : OS Disk) (locate : Bytes → κ) (contents : Disk → κ → Option Bytes) : Prop where
  read : ∀ {d path bytes}, contents d (locate path) = some bytes →
    ∃ spare, os.readFile d path = .ok ⟨bytes, spare⟩
  write : ∀ {d path bytes} content, contents d (locate path) = some bytes →
    ∃ d', os.writeFile d path content = (d', none) ∧ contents d' (locate path) = some content ∧
      ∀ file, file ≠ locate path → contents d' file = contents d file

/-- The request does not fit the file. -/
theorem update_refuses {pathname err : Bytes} (edit : Slice UInt8 → Option (Except Bytes Bytes))
    {fileContent : Slice UInt8}
    (read : env.os.readFile s.disk (concatenatePaths path pathname) = .ok fileContent)
    (edited : edit fileContent = some (.error err)) :
    update env path pathname edit s = some (s.did (.readFile (concatenatePaths path pathname)), ⟨false, err⟩) := by
  simp only [update, Store.did_disk, read, edited]
  rfl

/-- One file takes a content and the others keep theirs. -/
structure Rewritten (contents : Disk → κ → Option Bytes) (file : κ) (content : Bytes) (s t : Store Disk) :
    Prop where
  own : contents t.disk file = some content
  others : ∀ other, other ≠ file → contents t.disk other = contents s.disk other
  sound : t.WellFormed

/-- The file takes its new content. -/
theorem update_performs {pathname buf : Bytes} (edit : Slice UInt8 → Option (Except Bytes Bytes))
    {fileContent : Slice UInt8} (works : env.os.Working locate contents) (sound : s.WellFormed)
    (file : contents s.disk (locate (concatenatePaths path pathname)) = some f)
    (read : env.os.readFile s.disk (concatenatePaths path pathname) = .ok fileContent)
    (edited : edit fileContent = some (.ok buf)) :
    ∃ t, update env path pathname edit s = some (t, ⟨true, []⟩) ∧
      Rewritten contents (locate (concatenatePaths path pathname)) buf s t := by
  obtain ⟨disk, wrote, own, others⟩ := works.write buf file
  obtain ⟨t, notified, after⟩ := @handleNotification_returns _
    { (s.did (.readFile (concatenatePaths path pathname))).did (.writeFile (concatenatePaths path pathname) buf) with
      disk } (sound.frame rfl rfl) env pathname buf
  have same : t.disk = disk := handleNotification_disk notified
  refine ⟨t, ?_, ?_, ?_, after⟩
  · simp only [update, Store.did_disk, read, edited, wrote, Option.bind_eq_bind, Option.bind_some, notified]
  · rw [same]
    exact own
  · rw [same]
    exact others

theorem read_panics {req : ReadRequest} {fileContent : Slice UInt8}
    (opened : env.os.readFile s.disk (concatenatePaths path req.pathname) = .ok fileContent)
    (cut : Read.segment fileContent req = none) : read env path req s = none := by
  simp only [read, Store.did_disk, opened, cut]
  rfl

theorem read_refuses {req : ReadRequest} {err : Bytes} {fileContent : Slice UInt8}
    (opened : env.os.readFile s.disk (concatenatePaths path req.pathname) = .ok fileContent)
    (cut : Read.segment fileContent req = some (.error err)) :
    read env path req s = some (s.did (.readFile (concatenatePaths path req.pathname)), ⟨false, [], err⟩) := by
  simp only [read, Store.did_disk, opened, cut]
  rfl

theorem read_performs {req : ReadRequest} {bytes : Bytes} {fileContent : Slice UInt8}
    (opened : env.os.readFile s.disk (concatenatePaths path req.pathname) = .ok fileContent)
    (cut : Read.segment fileContent req = some (.ok bytes)) :
    read env path req s = some (s.did (.readFile (concatenatePaths path req.pathname)), ⟨true, bytes, []⟩) := by
  simp only [read, Store.did_disk, opened, cut]
  rfl

/-! ### Inside the file -/

theorem write_inserts {req : WriteRequest} (works : env.os.Working locate contents) (sound : s.WellFormed)
    (file : contents s.disk (locate (concatenatePaths path req.pathname)) = some f)
    (inside : req.offset.toNat ≤ f.length) (small : f.length + req.content.length < 2 ^ 32) :
    ∃ t, write env path req s = some (t, ⟨true, []⟩) ∧
      Rewritten contents (locate (concatenatePaths path req.pathname))
        (insertAt f req.offset.toNat req.content) s t := by
  obtain ⟨spare, opened⟩ := works.read file
  have len : Slice.len (⟨f, spare⟩ : Slice UInt8) % 2 ^ 32 = f.length :=
    Nat.mod_eq_of_lt (Nat.lt_of_le_of_lt (Nat.le_add_right _ _) small)
  have edited := @Write.edit_within ⟨f, spare⟩ req (by rw [len]; exact inside)
    (Nat.lt_of_le_of_lt (Nat.add_le_add_right inside _) small)
  exact update_performs (Write.edit · req) works sound file opened edited

/-- A `Write` that reports success has inserted the content, however long the file is. -/
theorem write_success {req : WriteRequest} {res : WriteResponse} (works : env.os.Working locate contents)
    (sound : s.WellFormed) (file : contents s.disk (locate (concatenatePaths path req.pathname)) = some f)
    (fits : req.offset.toNat + req.content.length < 2 ^ 32) (wrote : write env path req s = some (t, res))
    (success : res.success = true) :
    contents t.disk (locate (concatenatePaths path req.pathname)) =
      some (insertAt f req.offset.toNat req.content) := by
  obtain ⟨spare, opened⟩ := works.read file
  by_cases inside : req.offset.toNat ≤ Slice.len (⟨f, spare⟩ : Slice UInt8) % 2 ^ 32
  · obtain ⟨u, performed, rewritten⟩ := update_performs (Write.edit · req) works sound file opened
      (Write.edit_within inside fits)
    rw [write, performed] at wrote
    cases wrote
    exact rewritten.own
  · have refused := @update_refuses _ env path s _ _ (Write.edit · req) _ opened
      (Write.edit_exceeds (Nat.lt_of_not_le inside))
    rw [write, refused] at wrote
    cases wrote
    contradiction

theorem delete_removes {req : DeleteRequest} (works : env.os.Working locate contents) (sound : s.WellFormed)
    (file : contents s.disk (locate (concatenatePaths path req.pathname)) = some f)
    (inside : req.offset.toNat + req.numBytes.toNat ≤ f.length) (small : f.length < 2 ^ 32) :
    ∃ t, delete env path req s = some (t, ⟨true, []⟩) ∧
      Rewritten contents (locate (concatenatePaths path req.pathname))
        (removeAt f req.offset.toNat req.numBytes.toNat) s t := by
  obtain ⟨spare, opened⟩ := works.read file
  have sum : (req.offset + req.numBytes).toNat = req.offset.toNat + req.numBytes.toNat := by
    rw [UInt32.toNat_add]
    exact Nat.mod_eq_of_lt (Nat.lt_of_le_of_lt inside small)
  rcases Delete.edit_cases spare req small with ⟨outside, _⟩ | ⟨_, beyond, _⟩ | ⟨_, _, edited⟩
  · exact absurd (Nat.le_trans (Nat.le_add_right _ _) inside) (Nat.not_le_of_lt outside)
  · rw [sum] at beyond
    exact absurd inside (Nat.not_le_of_lt beyond)
  · rw [sum] at edited
    exact update_performs (Delete.edit · req) works sound file opened edited

theorem replace_overwrites {req : ReplaceRequest} (works : env.os.Working locate contents) (sound : s.WellFormed)
    (file : contents s.disk (locate (concatenatePaths path req.pathname)) = some f)
    (inside : req.offset.toNat + req.content.length ≤ f.length) (small : f.length < 2 ^ 32) :
    ∃ t, replace env path req s = some (t, ⟨true, []⟩) ∧
      Rewritten contents (locate (concatenatePaths path req.pathname))
        (overwrite f req.offset.toNat req.content) s t := by
  obtain ⟨spare, opened⟩ := works.read file
  have len : Slice.len (⟨f, spare⟩ : Slice UInt8) % 2 ^ 32 = f.length := Nat.mod_eq_of_lt small
  have stop : Replace.stop req = req.offset.toNat + req.content.length :=
    stop_toNat (Nat.lt_of_le_of_lt inside small)
  have edited := @Replace.edit_within ⟨f, spare⟩ req
    (by rw [len]; exact Nat.le_trans (Nat.le_add_right _ _) inside)
    (by rw [stop]; exact Nat.le_add_right _ _) (by rw [stop]; exact inside)
  rw [stop, Nat.add_sub_cancel_left, List.take_length] at edited
  exact update_performs (Replace.edit · req) works sound file opened edited

theorem read_cuts {req : ReadRequest} (works : env.os.Working locate contents)
    (file : contents s.disk (locate (concatenatePaths path req.pathname)) = some f)
    (inside : req.offset.toNat + req.numBytes.toNat ≤ f.length) (small : f.length < 2 ^ 32) :
    ∃ t, read env path req s =
        some (t, ⟨true, window f req.offset.toNat (req.offset.toNat + req.numBytes.toNat), []⟩) ∧
      t.disk = s.disk := by
  obtain ⟨spare, opened⟩ := works.read file
  have len : Slice.len (⟨f, spare⟩ : Slice UInt8) % 2 ^ 32 = f.length := Nat.mod_eq_of_lt small
  have cut := Read.segment_ok_iff.mpr
    ⟨Nat.lt_of_le_of_lt inside small, by rw [len]; exact inside, rfl⟩
  exact ⟨_, read_performs opened cut, rfl⟩

/-! ### Exactly the requested range -/

theorem FileSystem.working (now : Int) : (FileSystem.env Faults.none now).os.Working id FileSystem.bytes := by
  constructor
  · intro d path bytes found
    obtain ⟨file, present, rfl⟩ := Option.map_eq_some_iff.mp found
    refine ⟨[], ?_⟩
    simp only [FileSystem.env, FileSystem.os, Faults.none, show d.files path = some file from present]
  · intro d path bytes content _
    refine ⟨d.store path content, rfl, ?_, ?_⟩
    · exact congrArg (Option.map File.content) (FileSystem.store_self d path content)
    · intro other different
      exact congrArg (Option.map File.content) (FileSystem.store_other d content different)

/-- A server over the file `/a`. -/
def singleFile : Store FileSystem := Store.fresh (FileSystem.single (text "/a") (text "123") 0)

theorem singleFile_wellFormed : singleFile.WellFormed := Store.fresh_wellFormed _

/-- `Delete` removes exactly the requested range, or fails and changes nothing, exactly
when the offset lies behind the file or the end of the range does not wrap. -/
theorem delete_exact_iff {req : DeleteRequest} (works : env.os.Working locate contents) (sound : s.WellFormed)
    (file : contents s.disk (locate (concatenatePaths path req.pathname)) = some f) (small : f.length < 2 ^ 32) :
    (∃ t res, delete env path req s = some (t, res) ∧
      if req.offset.toNat + req.numBytes.toNat ≤ f.length then
        res.success = true ∧ contents t.disk (locate (concatenatePaths path req.pathname)) =
          some (removeAt f req.offset.toNat req.numBytes.toNat)
      else res.success = false ∧ contents t.disk = contents s.disk) ↔
    f.length < req.offset.toNat ∨ req.offset.toNat + req.numBytes.toNat < 2 ^ 32 := by
  obtain ⟨spare, read⟩ := works.read file
  rcases Delete.edit_cases spare req small with ⟨outside, edited⟩ | ⟨inside, beyond, edited⟩ |
    ⟨inside, stop, edited⟩
  · refine iff_of_true ⟨_, _, update_refuses (Delete.edit · req) read edited, ?_⟩ (.inl outside)
    rw [if_neg (fun fits => Nat.not_le_of_lt outside (Nat.le_trans (Nat.le_add_right _ _) fits))]
    exact ⟨rfl, rfl⟩
  · rcases sum_cases req.offset req.numBytes with ⟨fits, sum⟩ | ⟨_, wrapped⟩
    · rw [sum] at beyond
      refine iff_of_true ⟨_, _, update_refuses (Delete.edit · req) read edited, ?_⟩ (.inr fits)
      rw [if_neg (Nat.not_le_of_lt beyond)]
      exact ⟨rfl, rfl⟩
    · exact absurd (beyond.trans wrapped) (Nat.not_lt_of_le inside)
  · rcases sum_cases req.offset req.numBytes with ⟨fits, sum⟩ | ⟨large, wrapped⟩
    · rw [sum] at stop
      obtain ⟨t, deleted, rewritten⟩ := delete_removes works sound file stop small
      refine iff_of_true ⟨t, _, deleted, ?_⟩ (.inr fits)
      rw [if_pos stop]
      exact ⟨rfl, rewritten.own⟩
    · apply iff_of_false
      · rintro ⟨t, res, deleted, exactly⟩
        obtain ⟨u, performed, _⟩ := update_performs (Delete.edit · req) works sound file read edited
        rw [delete, performed] at deleted
        cases deleted
        rw [if_neg (by omega)] at exactly
        exact Bool.noConfusion exactly.1
      · rintro (outside | fits)
        · exact Nat.not_lt_of_le inside outside
        · exact Nat.not_lt_of_le large fits

/-- The end of the range wraps to 2, and the last byte is kept twice. -/
theorem delete_exact_fails :
    ∃ t, delete (FileSystem.env Faults.none 0) [] ⟨text "a", 3, 4294967295⟩ singleFile = some (t, ⟨true, []⟩) ∧
      FileSystem.bytes t.disk (text "/a") = some (text "1233") := by
  refine ⟨_, rfl, ?_⟩
  decide +kernel

theorem delete_exact_iff_middle :
    ∃ t res, delete (FileSystem.env Faults.none 0) [] ⟨text "a", 1, 1⟩ singleFile = some (t, res) ∧
      res.success = true ∧ FileSystem.bytes t.disk (text "/a") = some (text "13") := by
  obtain ⟨t, res, deleted, exactly⟩ := (@delete_exact_iff _ _ id FileSystem.bytes _ [] _ (text "123")
    ⟨text "a", 1, 1⟩ (FileSystem.working 0) singleFile_wellFormed rfl (by decide)).mpr (.inr (by decide))
  rw [if_pos (by decide)] at exactly
  exact ⟨t, res, deleted, exactly⟩

/-- `Replace` overwrites the requested range, or fails and changes nothing, exactly when
the offset lies behind the file or the content ends inside it. -/
theorem replace_exact_iff {req : ReplaceRequest} (works : env.os.Working locate contents) (sound : s.WellFormed)
    (file : contents s.disk (locate (concatenatePaths path req.pathname)) = some f) (small : f.length < 2 ^ 32) :
    (∃ t res, replace env path req s = some (t, res) ∧
      ((req.offset.toNat + req.content.length ≤ f.length ∧ res.success = true ∧
          contents t.disk (locate (concatenatePaths path req.pathname)) =
            some (overwrite f req.offset.toNat req.content)) ∨
        (res.success = false ∧ contents t.disk = contents s.disk))) ↔
    f.length < req.offset.toNat ∨ req.offset.toNat + req.content.length ≤ f.length := by
  obtain ⟨spare, read⟩ := works.read file
  have len : Slice.len (⟨f, spare⟩ : Slice UInt8) % 2 ^ 32 = f.length := Nat.mod_eq_of_lt small
  by_cases inside : req.offset.toNat ≤ f.length
  case neg =>
    have outside := Nat.lt_of_not_le inside
    have edited := @Replace.edit_exceeds ⟨f, spare⟩ req (by rw [len]; exact outside)
    exact iff_of_true ⟨_, _, update_refuses (Replace.edit · req) read edited, .inr ⟨rfl, rfl⟩⟩ (.inl outside)
  by_cases fits : req.offset.toNat + req.content.length ≤ f.length
  · obtain ⟨t, replaced, rewritten⟩ := replace_overwrites works sound file fits small
    exact iff_of_true ⟨t, _, replaced, .inl ⟨fits, rfl, rewritten.own⟩⟩ (.inr fits)
  · apply iff_of_false
    · rintro ⟨t, res, replaced, ⟨within, _⟩ | ⟨failed, _⟩⟩
      · exact fits within
      · cases edited : Replace.edit ⟨f, spare⟩ req with
        | none =>
          have panics : replace env path req s = none := (update_panics_iff sound).mpr ⟨_, read, edited⟩
          rw [panics] at replaced
          contradiction
        | some result =>
          cases result with
          | error err =>
            have outside := (Replace.edit_error_iff.mp edited).1
            rw [len] at outside
            exact Nat.not_lt_of_le inside outside
          | ok buf =>
            obtain ⟨u, performed, _⟩ := update_performs (Replace.edit · req) works sound file read edited
            rw [replace, performed] at replaced
            cases replaced
            contradiction
    · rintro (outside | within)
      · exact Nat.not_lt_of_le inside outside
      · exact fits within

/-- The content ends one byte behind the file. -/
theorem replace_exact_fails :
    replace (FileSystem.env Faults.none 0) [] ⟨text "a", 2, text "xy"⟩ singleFile = none := by
  decide +kernel

theorem replace_exact_iff_end :
    ∃ t res, replace (FileSystem.env Faults.none 0) [] ⟨text "a", 1, text "xy"⟩ singleFile = some (t, res) ∧
      ((1 + 2 ≤ 3 ∧ res.success = true ∧ FileSystem.bytes t.disk (text "/a") = some (text "1xy")) ∨
        (res.success = false ∧ FileSystem.bytes t.disk = FileSystem.bytes singleFile.disk)) :=
  (@replace_exact_iff _ _ id FileSystem.bytes _ [] _ (text "123") ⟨text "a", 1, text "xy"⟩
    (FileSystem.working 0) singleFile_wellFormed rfl (by decide)).mpr (.inr (by decide))

/-- `Read` returns exactly the requested range, or fails with a message, exactly when the
offset lies behind the file or the end of the range does not wrap. -/
theorem read_exact_iff {req : ReadRequest} (works : env.os.Working locate contents)
    (file : contents s.disk (locate (concatenatePaths path req.pathname)) = some f) (small : f.length < 2 ^ 32) :
    (∃ t res, read env path req s = some (t, res) ∧
      if req.offset.toNat + req.numBytes.toNat ≤ f.length then
        res.success = true ∧ res.content = window f req.offset.toNat (req.offset.toNat + req.numBytes.toNat) ∧
          res.content.length = req.numBytes.toNat
      else res.success = false ∧ res.errorMessage ≠ []) ↔
    f.length < req.offset.toNat ∨ req.offset.toNat + req.numBytes.toNat < 2 ^ 32 := by
  obtain ⟨spare, opened⟩ := works.read file
  have len : Slice.len (⟨f, spare⟩ : Slice UInt8) % 2 ^ 32 = f.length := Nat.mod_eq_of_lt small
  by_cases inside : req.offset.toNat ≤ f.length
  case neg =>
    have outside := Nat.lt_of_not_le inside
    have cut := Read.segment_error_iff.mpr (.inl ⟨by rw [len]; exact outside, rfl⟩)
    refine iff_of_true ⟨_, _, read_refuses opened cut, ?_⟩ (.inl outside)
    rw [if_neg (fun fits => Nat.not_le_of_lt outside (Nat.le_trans (Nat.le_add_right _ _) fits))]
    exact ⟨rfl, by decide⟩
  rcases sum_cases req.offset req.numBytes with ⟨fits, sum⟩ | ⟨large, wrapped⟩
  · by_cases within : req.offset.toNat + req.numBytes.toNat ≤ f.length
    · obtain ⟨t, returned, _⟩ := read_cuts works file within small
      refine iff_of_true ⟨t, _, returned, ?_⟩ (.inr fits)
      rw [if_pos within]
      refine ⟨rfl, rfl, ?_⟩
      rw [window_length, Nat.min_eq_left within, Nat.add_sub_cancel_left]
    · have beyond : f.length < (req.offset + req.numBytes).toNat := by
        rw [sum]
        exact Nat.lt_of_not_le within
      have cut := Read.segment_error_iff.mpr (.inr ⟨by rw [len]; exact inside, by rw [len]; exact beyond, rfl⟩)
      refine iff_of_true ⟨_, _, read_refuses opened cut, ?_⟩ (.inr fits)
      rw [if_neg within]
      exact ⟨rfl, by decide⟩
  · -- Both checks pass on the wrapped end, and the slice expression has its ends reversed.
    have panics : Read.segment ⟨f, spare⟩ req = none := by
      cases cut : Read.segment ⟨f, spare⟩ req with
      | none => rfl
      | some result =>
        cases result with
        | error err =>
          rcases Read.segment_error_iff.mp cut with ⟨outside, _⟩ | ⟨_, beyond, _⟩
          · rw [len] at outside
            exact absurd outside (Nat.not_lt_of_le inside)
          · rw [len] at beyond
            exact absurd (beyond.trans wrapped) (Nat.not_lt_of_le inside)
        | ok bytes => exact absurd (Read.segment_ok_iff.mp cut).1 (Nat.not_lt_of_le large)
    apply iff_of_false
    · rintro ⟨t, res, returned, _⟩
      rw [read_panics opened panics] at returned
      contradiction
    · rintro (outside | fits)
      · exact Nat.not_lt_of_le inside outside
      · exact Nat.not_lt_of_le large fits

/-- The range starts at the end of the file and its end wraps to 2. -/
theorem read_exact_fails :
    read (FileSystem.env Faults.none 0) [] ⟨text "a", 3, 4294967295⟩ singleFile = none := by
  decide +kernel

theorem read_exact_iff_end :
    ∃ t res, read (FileSystem.env Faults.none 0) [] ⟨text "a", 1, 2⟩ singleFile = some (t, res) ∧
      res.success = true ∧ res.content = text "23" ∧ res.content.length = 2 := by
  obtain ⟨t, res, returned, exactly⟩ := (@read_exact_iff _ _ id FileSystem.bytes _ [] singleFile (text "123")
    ⟨text "a", 1, 2⟩ (FileSystem.working 0) rfl (by decide)).mpr (.inr (by decide))
  rw [if_pos (by decide)] at exactly
  exact ⟨t, res, returned, exactly⟩

end RemoteFile.Server
