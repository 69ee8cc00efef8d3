import RemoteFile.Client.Program
import RemoteFile.Server.FileSystem
import RemoteFile.Server.Services

/-! The cached read path beside the uncached one, on a file that does not change.
A read fetches a range and caches it under its offset; a later read of a range
inside the cached one is answered from the cache. -/
namespace RemoteFile.System
open Octets Go Cpp Cpp.Outcome Server Client

variable {Disk : Type}

/-- A range of the file, and what surrounds the server when it is asked for it. -/
structure Query (Disk : Type) where
  env : Env Disk
  store : Store Disk
  offset : UInt32
  numBytes : UInt32

/-- One read of the file: the range, the modification time obtained before, and
the client's clock afterwards. -/
structure Fetch (Disk : Type) extends Query Disk where
  tmserver : Int64
  now : Int

variable (path pathname : Bytes)

/-- The server's answer is about a file with this content. -/
def Query.Sees (file : Bytes) (q : Query Disk) : Prop :=
  ∃ spare, q.env.os.readFile q.store.disk (concatenatePaths path pathname) = .ok ⟨file, spare⟩

/-- A successful read: its response crosses the network and fills the cache. -/
def Fetch.fill (cache : Cache) (f : Fetch Disk) : Option Cache := do
  let (_, res) ← Server.read f.env path ⟨pathname, f.offset, f.numBytes⟩ f.store
  let reply ← Server.Read.marshalResponse res
  match unmarshalReadResponse (reply.take msgLength) with
  | .returns ⟨true, content, _⟩ =>
    some (cacheWrite f.now cache pathname content f.tmserver f.offset)
  | _ => none

def fills (fetches : List (Fetch Disk)) : Option Cache :=
  fetches.foldlM (Fetch.fill path pathname) fun _ => none

/-- The cache answers the range with the bytes that the server's `Read` returns. -/
def Agrees (cache : Cache) (next : Query Disk) : Prop :=
  ∃ bytes t, cacheRead cache pathname next.offset next.numBytes = returns bytes ∧
    Server.read next.env path ⟨pathname, next.offset, next.numBytes⟩ next.store =
      some (t, ⟨true, bytes, []⟩)

variable {path pathname} {file : Bytes} {cache cache' : Cache} {f : Fetch Disk}

/-- The entry that a successful read leaves. -/
theorem fill_entry (unchanged : f.toQuery.Sees path pathname file)
    (filled : f.fill path pathname cache = some cache') :
    f.offset.toNat + f.numBytes.toNat < 2 ^ 32 ∧
      f.offset.toNat + f.numBytes.toNat ≤ file.length % 2 ^ 32 ∧
      ∃ tc tmclient, cache' pathname = some (Entry.stamped tc
        (window file f.offset.toNat (f.offset.toNat + f.numBytes.toNat)) tmclient f.offset) := by
  obtain ⟨spare, sees⟩ := unchanged
  obtain ⟨⟨t, res⟩, answered, rest⟩ := Option.bind_eq_some_iff.mp filled
  obtain ⟨reply, marshalled, stored⟩ := Option.bind_eq_some_iff.mp rest
  split at stored
  case h_2 => contradiction
  case h_1 content message accepted =>
    rcases (read_cases answered).2 with failed | ⟨fileContent, bytes, file', segment, rfl⟩
    · obtain ⟨success, _⟩ := read_received (k := 4999) (by simp [failed]) marshalled accepted
      rw [failed] at success
      contradiction
    · cases sees.symm.trans file'
      obtain ⟨small, inside, rfl⟩ := Read.segment_ok_iff.mp segment
      have fits : (window file f.offset.toNat (f.offset.toNat + f.numBytes.toNat)).length < 2 ^ 32 := by
        have count := f.numBytes.toNat_lt
        rw [window_length]
        omega
      obtain ⟨_, rfl⟩ := read_received (k := 4999) (fun _ => fits) marshalled accepted
      cases stored
      refine ⟨small, inside, (cache.timestamps pathname f.now f.tmserver).1,
        (cache.timestamps pathname f.now f.tmserver).2, ?_⟩
      rw [cacheWrite_eq, Function.update_self]

theorem fills_cases {fetches : List (Fetch Disk)} (filled : fills path pathname fetches = some cache) :
    (cache = fun _ => none) ∨ ∃ prior last before, fetches = prior ++ [last] ∧
      Fetch.fill path pathname before last = some cache := by
  rcases List.eq_nil_or_concat' fetches with rfl | ⟨prior, last, rfl⟩
  · exact .inl (Option.some.inj filled).symm
  · rw [fills, List.foldlM_append] at filled
    obtain ⟨before, _, final⟩ := Option.bind_eq_some_iff.mp filled
    refine .inr ⟨prior, last, before, rfl, ?_⟩
    simpa using final

/-- Reading a cached window at a position counted from its own start. -/
theorem substr_window_iff {lo len pos n : Nat} (inside : lo + len ≤ file.length)
    (range : pos + n ≤ file.length) :
    substr (window file lo (lo + len)) pos n = returns (window file pos (pos + n)) ↔
      pos + n ≤ len ∧ window file (lo + pos) (lo + pos + n) = window file pos (pos + n) := by
  have size : (window file lo (lo + len)).length = len := by
    rw [window_length]
    omega
  have shifted : pos + n ≤ len → ((window file lo (lo + len)).drop pos).take n =
      window file (lo + pos) (lo + pos + n) := by
    intro fits
    rw [take_drop_window, window_window file (by omega), Nat.add_assoc]
  simp only [substr, size]
  constructor
  · intro same
    split at same
    case isFalse => contradiction
    case isTrue start =>
      have bytes := Outcome.returns.inj same
      have lengths := congrArg List.length bytes
      simp only [List.length_take, List.length_drop, window_length] at lengths
      have fits : pos + n ≤ len := by omega
      exact ⟨fits, (shifted fits).symm.trans bytes⟩
  · rintro ⟨fits, same⟩
    rw [if_pos (by omega), shifted fits, same]

/-- The cache agrees with the server exactly when the requested range does not
wrap and either the cached range starts at the beginning of the file, or the
bytes which lie as far behind its start as the requested ones lie behind the
beginning are cached and happen to be the same. -/
theorem cacheRead_agrees_iff {fetches : List (Fetch Disk)} {next : Query Disk}
    (unchanged : ∀ f ∈ fetches, f.toQuery.Sees path pathname file)
    (stillUnchanged : next.Sees path pathname file)
    (filled : fills path pathname fetches = some cache)
    (hit : fileInCache cache pathname next.offset next.numBytes = true) :
    Agrees path pathname cache next ↔
      next.offset.toNat + next.numBytes.toNat < 2 ^ 32 ∧
      ∃ last, fetches.getLast? = some last ∧ (last.offset = 0 ∨
        (next.offset.toNat + next.numBytes.toNat ≤ last.numBytes.toNat ∧
          window file (last.offset.toNat + next.offset.toNat)
              (last.offset.toNat + next.offset.toNat + next.numBytes.toNat) =
            window file next.offset.toNat (next.offset.toNat + next.numBytes.toNat))) := by
  obtain ⟨entry, cached, start, stop⟩ := fileInCache_iff.mp hit
  rcases fills_cases filled with rfl | ⟨prior, last, before, rfl, final⟩
  · contradiction
  obtain ⟨small, inside, tc, tmclient, stored⟩ := fill_entry (unchanged last (by simp)) final
  obtain rfl := Option.some.inj (cached.symm.trans stored)
  have whole : file.length % 2 ^ 32 ≤ file.length := Nat.mod_le _ _
  have size : (window file last.offset.toNat (last.offset.toNat + last.numBytes.toNat)).length =
      last.numBytes.toNat := by
    rw [window_length]
    omega
  rw [UInt32.le_iff_toNat_le, stamped_endIdx _ _ (by rw [size]; exact small), size,
    UInt32.toNat_add] at stop
  obtain ⟨spare, sees⟩ := stillUnchanged
  have server (bytes : Bytes) :
      (∃ t, Server.read next.env path ⟨pathname, next.offset, next.numBytes⟩ next.store =
        some (t, ⟨true, bytes, []⟩)) ↔
      Read.segment ⟨file, spare⟩ ⟨pathname, next.offset, next.numBytes⟩ = some (.ok bytes) :=
    read_success_iff sees
  have agrees : Agrees path pathname cache next ↔
      substr (window file last.offset.toNat (last.offset.toNat + last.numBytes.toNat))
          next.offset.toNat next.numBytes.toNat =
        returns (window file next.offset.toNat (next.offset.toNat + next.numBytes.toNat)) ∧
      next.offset.toNat + next.numBytes.toNat < 2 ^ 32 ∧
      next.offset.toNat + next.numBytes.toNat ≤ file.length % 2 ^ 32 := by
    constructor
    · rintro ⟨bytes, t, read, answered⟩
      obtain ⟨fits, within, rfl⟩ := Read.segment_ok_iff.mp ((server bytes).mp ⟨t, answered⟩)
      rw [cacheRead, cached] at read
      exact ⟨read, fits, within⟩
    · rintro ⟨read, fits, within⟩
      obtain ⟨t, answered⟩ := (server _).mpr (Read.segment_ok_iff.mpr ⟨fits, within, rfl⟩)
      refine ⟨_, t, ?_, answered⟩
      rw [cacheRead, cached]
      exact read
  rw [agrees]
  simp only [List.getLast?_concat, Option.some.injEq, exists_eq_left']
  constructor
  · rintro ⟨read, fits, within⟩
    exact ⟨fits, .inr ((substr_window_iff (by omega) (by omega)).mp read)⟩
  · rintro ⟨fits, same⟩
    rw [Nat.mod_eq_of_lt fits] at stop
    refine ⟨(substr_window_iff (by omega) (by omega)).mpr ?_, fits, by omega⟩
    rcases same with zero | shifted
    · have origin : last.offset.toNat = 0 := by rw [zero]; rfl
      rw [origin, Nat.zero_add]
      exact ⟨by omega, rfl⟩
    · exact shifted

/-! ### A file of ten digits -/

def digits : Bytes := text "0123456789"

def digitsQuery (offset numBytes : UInt32) : Query FileSystem :=
  ⟨FileSystem.env Faults.none 0, Store.fresh (FileSystem.single (text "/a") digits 0), offset, numBytes⟩

def digitsFetch (offset numBytes : UInt32) : Fetch FileSystem := ⟨digitsQuery offset numBytes, 0, 0⟩

theorem digits_unchanged (offset numBytes : UInt32) :
    (digitsQuery offset numBytes).Sees [] (text "a") digits := ⟨[], rfl⟩

/-- After a read of four bytes from offset 4, the same read is a hit: it finds
nothing at position 4 of the four cached bytes, and from offset 5 on it throws. -/
theorem cacheRead_agrees_fails :
    ∃ cache, fills [] (text "a") [digitsFetch 4 4] = some cache ∧
      fileInCache cache (text "a") 4 4 = true ∧
      cacheRead cache (text "a") 4 4 = returns [] ∧
      fileInCache cache (text "a") 5 2 = true ∧
      cacheRead cache (text "a") 5 2 = throws (.outOfRange "basic_string::substr") ∧
      ¬ Agrees [] (text "a") cache (digitsQuery 4 4) := by
  have served : Server.read (digitsQuery 4 4).env [] ⟨text "a", 4, 4⟩ (digitsQuery 4 4).store =
      some ((digitsQuery 4 4).store.did (.readFile (text "/a")), ⟨true, text "4567", []⟩) := by rfl
  have filled : (fills [] (text "a") [digitsFetch 4 4]).map (· (text "a")) =
      some (some ⟨0, 0, 4, 8, text "4567"⟩) := by decide
  obtain ⟨cache, fetched, entry⟩ := Option.map_eq_some_iff.mp filled
  have empty : cacheRead cache (text "a") 4 4 = returns [] := by
    rw [cacheRead, entry]
    rfl
  refine ⟨cache, fetched, ?_, empty, ?_, ?_, ?_⟩
  · exact fileInCache_iff.mpr ⟨_, entry, by decide, by decide⟩
  · exact fileInCache_iff.mpr ⟨_, entry, by decide, by decide⟩
  · rw [cacheRead, entry]
    rfl
  · rintro ⟨bytes, t, read, answered⟩
    obtain rfl := Outcome.returns.inj (empty.symm.trans read)
    have same : ([] : Bytes) = text "4567" :=
      congrArg (fun r => r.2.content) (Option.some.inj (answered.symm.trans served))
    exact absurd same (by decide)

theorem cacheRead_agrees_prefix :
    ∃ cache, fills [] (text "a") [digitsFetch 4 4, digitsFetch 0 8] = some cache ∧
      Agrees [] (text "a") cache (digitsQuery 2 3) := by
  have filled : (fills [] (text "a") [digitsFetch 4 4, digitsFetch 0 8]).map (· (text "a")) =
      some (some ⟨0, 0, 0, 8, text "01234567"⟩) := by decide
  obtain ⟨cache, fetched, entry⟩ := Option.map_eq_some_iff.mp filled
  refine ⟨cache, fetched, ?_⟩
  refine (cacheRead_agrees_iff ?_ (digits_unchanged 2 3) fetched ?_).mpr ?_
  · intro f member
    obtain rfl | rfl : f = digitsFetch 4 4 ∨ f = digitsFetch 0 8 := by simpa using member
    · exact digits_unchanged 4 4
    · exact digits_unchanged 0 8
  · exact fileInCache_iff.mpr ⟨_, entry, by decide, by decide⟩
  · exact ⟨by decide, digitsFetch 0 8, rfl, .inl rfl⟩

end RemoteFile.System
