import RemoteFile.Server.Subscriptions

/-! A file system whose clock stamps every write. A call may also fail, with any
error text; a failed write leaves some content behind. -/
namespace RemoteFile.Server
open Octets Go

structure File where
  content : Bytes
  /-- In nanoseconds. -/
  modTime : Int
  deriving DecidableEq

structure FileSystem where
  /-- In nanoseconds. -/
  clock : Int
  files : Bytes → Option File

/-- How the calls made while one packet is handled go wrong, if they do, and what
lies in the spare capacity of the slice that `os.ReadFile` returns. -/
structure Faults where
  read : Option Bytes
  stat : Option Bytes
  write : Option (Bytes × Bytes)
  spare : Bytes
  deriving DecidableEq

def Faults.none : Faults := ⟨Option.none, Option.none, Option.none, []⟩

def noSuchFile (call path : Bytes) : Bytes := call ++ path ++ text ": no such file or directory"

/-- The content of a file is replaced and stamped. -/
def FileSystem.store (d : FileSystem) (path content : Bytes) : FileSystem :=
  { d with files := Function.update d.files path (some ⟨content, d.clock⟩) }

theorem FileSystem.store_self (d : FileSystem) (path content : Bytes) :
    (d.store path content).files path = some ⟨content, d.clock⟩ := Function.update_self ..

theorem FileSystem.store_other (d : FileSystem) {path other : Bytes} (content : Bytes)
    (different : other ≠ path) : (d.store path content).files other = d.files other :=
  Function.update_of_ne different ..

def FileSystem.os (faults : Faults) : OS FileSystem where
  readFile d path :=
    match faults.read, d.files path with
    | some err, _ => .error err
    | Option.none, Option.none => .error (noSuchFile (text "open ") path)
    | Option.none, some file => .ok ⟨file.content, faults.spare⟩
  writeFile d path content :=
    match faults.write with
    | some (err, left) => (d.store path left, some err)
    | Option.none => (d.store path content, Option.none)
  stat d path :=
    match faults.stat, d.files path with
    | some err, _ => .error err
    | Option.none, Option.none => .error (noSuchFile (text "stat ") path)
    | Option.none, some file => .ok file.modTime

/-- Surroundings in which the clock stands still, every notification is sent and
`append` doubles the capacity. -/
def FileSystem.env (faults : Faults) (now : Int) : Env FileSystem where
  os := FileSystem.os faults
  now _ := now
  sendError _ := Option.none
  growCap n := 2 * n + 1
  growCap_lt n := by omega

/-- A server over one file, without subscriptions. -/
def FileSystem.single (path content : Bytes) (modTime : Int) : FileSystem :=
  ⟨modTime, fun other => if other = path then some ⟨content, modTime⟩ else Option.none⟩

def Store.fresh (d : FileSystem) : Store FileSystem := ⟨d, [], fun _ => Option.none, [], 0, []⟩

end RemoteFile.Server
