import RemoteFile.Server.Edits

/-! The edits of a file undo and express one another: what is inserted is read back and
taken out again, what is taken out is put back, and a replacement is a removal followed
by an insertion. -/
namespace RemoteFile.Server
open Octets Go

variable {Disk κ : Type} {locate : Bytes → κ} {contents : Disk → κ → Option Bytes} {env : Nat → Env Disk}
  {path pathname f c : Bytes} {s t u : Store Disk} {offset n : UInt32}

/-! ### One content after another -/

/-- Of two contents one after the other the last one stays. -/
theorem Rewritten.trans {file : κ} {first second : Bytes} (before : Rewritten contents file first s t)
    (after : Rewritten contents file second t u) : Rewritten contents file second s u := by
  refine ⟨after.own, ?_, after.sound⟩
  intro other different
  rw [after.others other different, before.others other different]

/-- A file that takes the same content from the same disk leaves the same disk. -/
theorem Rewritten.unique {file : κ} {content : Bytes} (left : Rewritten contents file content s t)
    (right : Rewritten contents file content s u) : contents t.disk = contents u.disk := by
  funext other
  by_cases same : other = file
  · subst same
    rw [left.own, right.own]
  · rw [left.others other same, right.others other same]

/-- A file that takes the content it had leaves the disk as it was. -/
theorem Rewritten.restores {file : κ} (rewritten : Rewritten contents file f s t)
    (had : contents s.disk file = some f) : contents t.disk = contents s.disk := by
  funext other
  by_cases same : other = file
  · subst same
    rw [rewritten.own, had]
  · exact rewritten.others other same

/-! ### The laws -/

theorem length_ofNat (short : c.length < 2 ^ 32) : (UInt32.ofNat c.length).toNat = c.length := by
  rw [UInt32.toNat_ofNat']
  exact Nat.mod_eq_of_lt short

/-- An insertion is read back and taken out again. -/
theorem write_read_delete (works : ∀ k, (env k).os.Working locate contents) (sound : s.WellFormed)
    (file : contents s.disk (locate (concatenatePaths path pathname)) = some f)
    (inside : offset.toNat ≤ f.length) (small : f.length + c.length < 2 ^ 32) :
    ∃ t, write (env 0) path ⟨pathname, offset, c⟩ s = some (t, ⟨true, []⟩) ∧
      (∃ u, read (env 1) path ⟨pathname, offset, UInt32.ofNat c.length⟩ t = some (u, ⟨true, c, []⟩)) ∧
      ∃ u, delete (env 1) path ⟨pathname, offset, UInt32.ofNat c.length⟩ t = some (u, ⟨true, []⟩) ∧
        contents u.disk = contents s.disk := by
  obtain ⟨t, wrote, inserted⟩ := @write_inserts _ _ _ _ _ path _ f ⟨pathname, offset, c⟩ (works 0) sound file
    inside small
  have count := length_ofNat (Nat.lt_of_le_of_lt (Nat.le_add_left _ _) small)
  have longer := insertAt_length f offset.toNat c
  have room : offset.toNat + (UInt32.ofNat c.length).toNat ≤ (insertAt f offset.toNat c).length := by
    rw [count, longer]
    exact Nat.add_le_add_right inside _
  have short : (insertAt f offset.toNat c).length < 2 ^ 32 := longer ▸ small
  obtain ⟨u, returned, _⟩ := @read_cuts _ _ _ _ _ path _ _ ⟨pathname, offset, UInt32.ofNat c.length⟩ (works 1)
    inserted.own room short
  obtain ⟨v, deleted, removed⟩ := @delete_removes _ _ _ _ _ path _ _ ⟨pathname, offset, UInt32.ofNat c.length⟩
    (works 1) inserted.sound inserted.own room short
  rw [count, window_insertAt inside] at returned
  rw [count, removeAt_insertAt inside] at removed
  exact ⟨t, wrote, ⟨u, returned⟩, v, deleted, (inserted.trans removed).restores file⟩

/-- What is taken out and put in again is where it was. -/
theorem delete_write (works : ∀ k, (env k).os.Working locate contents) (sound : s.WellFormed)
    (file : contents s.disk (locate (concatenatePaths path pathname)) = some f)
    (inside : offset.toNat + n.toNat ≤ f.length) (small : f.length < 2 ^ 32) :
    ∃ t, delete (env 0) path ⟨pathname, offset, n⟩ s = some (t, ⟨true, []⟩) ∧
      ∃ u, write (env 1) path ⟨pathname, offset, window f offset.toNat (offset.toNat + n.toNat)⟩ t =
          some (u, ⟨true, []⟩) ∧ contents u.disk = contents s.disk := by
  obtain ⟨t, deleted, removed⟩ := @delete_removes _ _ _ _ _ path _ _ ⟨pathname, offset, n⟩ (works 0) sound file
    inside small
  have shorter := removeAt_length inside
  have width : (window f offset.toNat (offset.toNat + n.toNat)).length = n.toNat := by
    rw [window_length, Nat.min_eq_left inside, Nat.add_sub_cancel_left]
  obtain ⟨u, wrote, inserted⟩ := @write_inserts _ _ _ _ _ path _ _
    ⟨pathname, offset, window f offset.toNat (offset.toNat + n.toNat)⟩ (works 1) removed.sound removed.own
    (by rw [shorter]; exact Nat.le_sub_of_add_le inside) (by rw [shorter, width]; omega)
  rw [insertAt_removeAt inside] at inserted
  exact ⟨t, deleted, u, wrote, (removed.trans inserted).restores file⟩

/-- A replacement leaves the disk that a removal and an insertion leave. -/
theorem replace_delete_write (works : ∀ k, (env k).os.Working locate contents) (sound : s.WellFormed)
    (file : contents s.disk (locate (concatenatePaths path pathname)) = some f)
    (inside : offset.toNat + c.length ≤ f.length) (small : f.length < 2 ^ 32) :
    ∃ r, replace (env 0) path ⟨pathname, offset, c⟩ s = some (r, ⟨true, []⟩) ∧
      ∃ t, delete (env 0) path ⟨pathname, offset, UInt32.ofNat c.length⟩ s = some (t, ⟨true, []⟩) ∧
        ∃ u, write (env 1) path ⟨pathname, offset, c⟩ t = some (u, ⟨true, []⟩) ∧
          contents r.disk = contents u.disk := by
  have count := length_ofNat (Nat.lt_of_le_of_lt (Nat.le_add_left _ _) (Nat.lt_of_le_of_lt inside small))
  have shorter := removeAt_length inside
  have fits : f.length - c.length + c.length < 2 ^ 32 := by omega
  obtain ⟨r, replaced, overwritten⟩ := @replace_overwrites _ _ _ _ _ path _ _ ⟨pathname, offset, c⟩ (works 0)
    sound file inside small
  obtain ⟨t, deleted, removed⟩ := @delete_removes _ _ _ _ _ path _ _
    ⟨pathname, offset, UInt32.ofNat c.length⟩ (works 0) sound file (by rw [count]; exact inside) small
  rw [count] at removed
  obtain ⟨u, wrote, inserted⟩ := @write_inserts _ _ _ _ _ path _ _ ⟨pathname, offset, c⟩ (works 1) removed.sound
    removed.own (by rw [shorter]; exact Nat.le_sub_of_add_le inside) (by rw [shorter]; exact fits)
  rw [← overwrite_eq_insertAt inside] at inserted
  exact ⟨r, replaced, t, deleted, u, wrote, overwritten.unique (removed.trans inserted)⟩

/-- The laws together, at every offset of the file and with all calls succeeding. -/
theorem edits_algebra (works : ∀ k, (env k).os.Working locate contents) (sound : s.WellFormed)
    (file : contents s.disk (locate (concatenatePaths path pathname)) = some f)
    (inside : offset.toNat ≤ f.length) (small : f.length + c.length < 2 ^ 32) :
    (∃ t, write (env 0) path ⟨pathname, offset, c⟩ s = some (t, ⟨true, []⟩) ∧
      (∃ u, read (env 1) path ⟨pathname, offset, UInt32.ofNat c.length⟩ t = some (u, ⟨true, c, []⟩)) ∧
      ∃ u, delete (env 1) path ⟨pathname, offset, UInt32.ofNat c.length⟩ t = some (u, ⟨true, []⟩) ∧
        contents u.disk = contents s.disk) ∧
    (∀ n : UInt32, offset.toNat + n.toNat ≤ f.length →
      ∃ t, delete (env 0) path ⟨pathname, offset, n⟩ s = some (t, ⟨true, []⟩) ∧
        ∃ u, write (env 1) path ⟨pathname, offset, window f offset.toNat (offset.toNat + n.toNat)⟩ t =
            some (u, ⟨true, []⟩) ∧ contents u.disk = contents s.disk) ∧
    (offset.toNat + c.length ≤ f.length →
      ∃ r, replace (env 0) path ⟨pathname, offset, c⟩ s = some (r, ⟨true, []⟩) ∧
        ∃ t, delete (env 0) path ⟨pathname, offset, UInt32.ofNat c.length⟩ s = some (t, ⟨true, []⟩) ∧
          ∃ u, write (env 1) path ⟨pathname, offset, c⟩ t = some (u, ⟨true, []⟩) ∧
            contents r.disk = contents u.disk) := by
  have short : f.length < 2 ^ 32 := Nat.lt_of_le_of_lt (Nat.le_add_right _ _) small
  refine ⟨write_read_delete works sound file inside small, ?_, ?_⟩
  · intro n room
    exact delete_write works sound file room short
  · intro room
    exact replace_delete_write works sound file room short

/-- A byte written into the middle of `123`, read back and deleted, and a byte of it replaced. -/
theorem edits_algebra_middle :
    (∃ t, write (FileSystem.env Faults.none 0) [] ⟨text "a", 1, text "x"⟩ singleFile = some (t, ⟨true, []⟩) ∧
      (∃ u, read (FileSystem.env Faults.none 0) [] ⟨text "a", 1, 1⟩ t = some (u, ⟨true, text "x", []⟩)) ∧
      ∃ u, delete (FileSystem.env Faults.none 0) [] ⟨text "a", 1, 1⟩ t = some (u, ⟨true, []⟩) ∧
        FileSystem.bytes u.disk = FileSystem.bytes singleFile.disk) ∧
    (∃ r, replace (FileSystem.env Faults.none 0) [] ⟨text "a", 1, text "x"⟩ singleFile = some (r, ⟨true, []⟩) ∧
      ∃ t, delete (FileSystem.env Faults.none 0) [] ⟨text "a", 1, 1⟩ singleFile = some (t, ⟨true, []⟩) ∧
        ∃ u, write (FileSystem.env Faults.none 0) [] ⟨text "a", 1, text "x"⟩ t = some (u, ⟨true, []⟩) ∧
          FileSystem.bytes r.disk = FileSystem.bytes u.disk) := by
  obtain ⟨inserted, _, replaced⟩ := @edits_algebra _ _ id FileSystem.bytes
    (fun _ => FileSystem.env Faults.none 0) [] (text "a") (text "123") (text "x") singleFile 1
    (fun _ => FileSystem.working 0) singleFile_wellFormed rfl (by decide) (by decide)
  exact ⟨inserted, replaced (by decide)⟩

end RemoteFile.Server
