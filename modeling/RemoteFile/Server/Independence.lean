import RemoteFile.Server.Semantics

/-! Files have nothing to do with one another. What is answered to the requests about a file,
and what becomes of it, is the same if nothing else is requested. -/
namespace RemoteFile.Server
open Octets Go Transition Refinement

variable {Disk κ α : Type} {locate : Bytes → κ} {view : Disk → κ → α} {path : Bytes} {addr : UDPAddr}
  {env : Env Disk} {sem : InvocationSemantic} {r : Request} {file : κ}

/-- The calls about a path depend on the file that the path denotes, and change no other one.
A view of a file may show its content, and more: its times, or what calls on it fail. -/
structure OS.Isolated (os : OS Disk) (locate : Bytes → κ) (view : Disk → κ → α) : Prop where
  read : ∀ {d d' p}, view d (locate p) = view d' (locate p) → os.readFile d p = os.readFile d' p
  stat : ∀ {d d' p}, view d (locate p) = view d' (locate p) → os.stat d p = os.stat d' p
  write : ∀ {d d' p} content, view d (locate p) = view d' (locate p) →
    (os.writeFile d p content).2 = (os.writeFile d' p content).2 ∧
      view (os.writeFile d p content).1 (locate p) = view (os.writeFile d' p content).1 (locate p)
  frame : ∀ {file} d p content, locate p ≠ file → view (os.writeFile d p content).1 file = view d file

/-! ### Requests -/

variable [DecidableEq κ] {s s' t : State Disk} {e : Event Disk} {o : Handled}

/-- A file with its modification time, and the time that stamps the next write. -/
def FileSystem.viewed (d : FileSystem) (path : Bytes) : Option File × Int := (d.files path, d.clock)

theorem FileSystem.viewed_store {d d' : FileSystem} {path : Bytes} (content : Bytes)
    (same : d.viewed path = d'.viewed path) : (d.store path content).viewed path = (d'.store path content).viewed path := by
  obtain ⟨_, clock⟩ := Prod.mk.inj same
  rw [viewed, viewed, store_self, store_self, clock]
  exact congrArg _ clock

theorem FileSystem.isolated (faults : Faults) : (FileSystem.os faults).Isolated id FileSystem.viewed := by
  constructor
  case read =>
    intro d d' p same
    have file : d.files p = d'.files p := (Prod.mk.inj same).1
    simp only [FileSystem.os, file]
  case stat =>
    intro d d' p same
    have file : d.files p = d'.files p := (Prod.mk.inj same).1
    simp only [FileSystem.os, file]
  case write =>
    intro d d' p content same
    simp only [FileSystem.os]
    cases faults.write with
    | none => exact ⟨rfl, FileSystem.viewed_store content same⟩
    | some failure => exact ⟨rfl, FileSystem.viewed_store failure.2 same⟩
  case frame =>
    intro file d p content other
    have kept (left : Bytes) : (d.store p left).viewed file = d.viewed file :=
      congrArg (·, d.clock) (FileSystem.store_other d left (Ne.symm other))
    simp only [FileSystem.os]
    cases faults.write with
    | none => exact kept content
    | some failure => exact kept failure.2

end RemoteFile.Server
