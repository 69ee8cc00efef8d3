import RemoteFile.Core.Outcome
import Mathlib.Logic.Function.Basic

/-! The client's cache: one entry a file, with the time of its last validation
and the server's modification time at that point. Reading through `cache[…]`
inserts a zero entry, as `operator[]` does. -/
namespace RemoteFile.Client
open Octets Cpp Cpp.Outcome

/-- `<<tc, tmclient>, <<startIdx, endIdx>, filecontent>>` -/
structure Entry where
  /-- In milliseconds, by the client's clock. -/
  tc : Int
  /-- As the server reported it, in seconds. -/
  tmclient : Int64
  startIdx : UInt32
  endIdx : UInt32
  filecontent : Bytes
  deriving DecidableEq

abbrev Cache := Bytes → Option Entry

/-- The value-initialised entry. -/
def Entry.zero : Entry := ⟨0, 0, 0, 0, []⟩

/-- `cache[filename]` -/
def Cache.at (cache : Cache) (filename : Bytes) : Entry := (cache filename).getD Entry.zero

/-- An entry with these timestamps, and the range of its content. -/
def Entry.stamped (tc : Int) (filecontent : Bytes) (tmclient : Int64) (startIdx : UInt32) : Entry :=
  ⟨tc, tmclient, startIdx, startIdx + UInt32.ofNat filecontent.length, filecontent⟩

def cacheWrite (now : Int) (cache : Cache) (filename filecontent : Bytes) (tmserver : Int64)
    (startIdx : UInt32) : Cache :=
  match cache filename with
  | none => Function.update cache filename (some (Entry.stamped now filecontent tmserver startIdx))
  | some cacheData => Function.update cache filename
      -- the new timestamps are set in a copy of `cacheData.first`, which is not stored
      (some { cacheData with
        startIdx, endIdx := startIdx + UInt32.ofNat filecontent.length, filecontent })

/-- The position is counted from the start of the cached content, whatever
`startIdx` is. -/
def cacheRead (cache : Cache) (filename : Bytes) (offset bytesToRead : UInt32) : Outcome Bytes :=
  match cache filename with
  | none => returns []
  | some entry => substr entry.filecontent offset.toNat bytesToRead.toNat

/-- The end of the requested range wraps. -/
def fileInCache (cache : Cache) (filename : Bytes) (offset bytesToRead : UInt32) : Bool :=
  match cache filename with
  | none => false
  | some entry => !(decide (entry.startIdx > offset) || decide (entry.endIdx < offset + bytesToRead))

def cacheExpired (fInterval t : Int) (cache : Cache) (filename : Bytes) : Cache × Bool :=
  (Function.update cache filename (some (cache.at filename)),
    !decide (t - (cache.at filename).tc < fInterval))

/-- An unchanged file has the time of its last validation refreshed. -/
def fileChangedAtServer (t : Int) (cache : Cache) (filename : Bytes) (tmserver : Int64) :
    Cache × Bool :=
  match cache filename with
  | none => (cache, true)
  | some entry =>
    if entry.tmclient = tmserver then
      (Function.update cache filename (some { entry with tc := t }), false)
    else (cache, true)

variable {cache : Cache} {filename : Bytes}

/-- The timestamps that an entry has after `cacheWrite`: its old ones, if it had any. -/
def Cache.timestamps (cache : Cache) (filename : Bytes) (now : Int) (tmserver : Int64) : Int × Int64 :=
  match cache filename with
  | none => (now, tmserver)
  | some cacheData => (cacheData.tc, cacheData.tmclient)

theorem Cache.timestamps_cases (cache : Cache) (filename : Bytes) (now : Int) (tmserver : Int64) :
    cache.timestamps filename now tmserver = (now, tmserver) ∨
      ∃ old, cache filename = some old ∧
        cache.timestamps filename now tmserver = (old.tc, old.tmclient) := by
  unfold Cache.timestamps
  split
  · exact .inl rfl
  · exact .inr ⟨_, ‹_›, rfl⟩

theorem cacheWrite_eq (now : Int) (cache : Cache) (filename filecontent : Bytes) (tmserver : Int64)
    (startIdx : UInt32) : cacheWrite now cache filename filecontent tmserver startIdx =
      Function.update cache filename (some (Entry.stamped (cache.timestamps filename now tmserver).1
        filecontent (cache.timestamps filename now tmserver).2 startIdx)) := by
  unfold cacheWrite Cache.timestamps
  split <;> rfl

theorem stamped_endIdx {content : Bytes} {startIdx : UInt32} (tc : Int) (tmclient : Int64)
    (small : startIdx.toNat + content.length < 2 ^ 32) :
    (Entry.stamped tc content tmclient startIdx).endIdx.toNat = startIdx.toNat + content.length := by
  simp only [Entry.stamped, UInt32.toNat_add, UInt32.toNat_ofNat']
  omega

/-- What a range found in the cache says about the entry. -/
theorem fileInCache_iff {offset bytesToRead : UInt32} :
    fileInCache cache filename offset bytesToRead = true ↔
      ∃ entry, cache filename = some entry ∧ entry.startIdx ≤ offset ∧
        offset + bytesToRead ≤ entry.endIdx := by
  unfold fileInCache
  cases cache filename with
  | none => simp
  | some entry => simp

/-- On a file with an entry, asking whether it has expired changes nothing. -/
theorem cacheExpired_cache {entry : Entry} (cached : cache filename = some entry)
    (fInterval t : Int) :
    cacheExpired fInterval t cache filename = (cache, !decide (t - entry.tc < fInterval)) := by
  simp only [cacheExpired, Cache.at, cached, Option.getD_some]
  rw [← cached, Function.update_eq_self]

end RemoteFile.Client
