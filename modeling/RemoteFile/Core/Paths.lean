import RemoteFile.Core.Octets

/-! Lexical resolution of slash-separated paths. A path walks from directory to
directory; the walk depends only on how far the path climbs and on the names it
enters after that. -/
namespace Paths
open Octets

def slash : UInt8 := 47

/-- What a component of a path says: go up, or enter. -/
inductive Part where
  | up
  | enter (name : Bytes)
  deriving DecidableEq

/-- Empty components and `.` say nothing. -/
def part? (component : Bytes) : Option Part :=
  if component = [] ∨ component = text "." then none
  else if component = text ".." then some .up
  else some (.enter component)

def parts (path : Bytes) : List Part := (path.splitOn slash).filterMap part?

theorem parts_join (a b : Bytes) : parts (a ++ slash :: b) = parts a ++ parts b := by
  rw [parts, List.splitOn_append_cons_self, List.filterMap_append, parts, parts]

/-- There is nothing above the root. -/
def follow (dir : List Bytes) : Part → List Bytes
  | .up => dir.dropLast
  | .enter name => dir ++ [name]

def walk (dir : List Bytes) (ps : List Part) : List Bytes := ps.foldl follow dir

theorem walk_append (dir : List Bytes) (ps qs : List Part) :
    walk dir (ps ++ qs) = walk (walk dir ps) qs := List.foldl_append

/-- The directories from the root to what an absolute path denotes. -/
def resolve (path : Bytes) : List Bytes := walk [] (parts path)

/-- What the path denotes is the directory, or lies inside it. -/
def Inside (directory path : Bytes) : Prop := resolve directory <+: resolve path

instance (directory path : Bytes) : Decidable (Inside directory path) :=
  inferInstanceAs (Decidable (_ <+: _))

/-- A relative path in normal form: first up, then down. -/
structure Relative where
  up : Nat
  down : List Bytes
  deriving DecidableEq

def Relative.follow (r : Relative) : Part → Relative
  | .up => if r.down = [] then ⟨r.up + 1, []⟩ else ⟨r.up, r.down.dropLast⟩
  | .enter name => ⟨r.up, r.down ++ [name]⟩

def normalize (ps : List Part) : Relative := ps.foldl Relative.follow ⟨0, []⟩

/-- The directory that a relative path leads to. -/
def Relative.target (r : Relative) (dir : List Bytes) : List Bytes :=
  dir.take (dir.length - r.up) ++ r.down

theorem Relative.target_follow (r : Relative) (dir : List Bytes) (p : Part) :
    (r.follow p).target dir = Paths.follow (r.target dir) p := by
  cases p with
  | enter name => simp only [Relative.follow, target, Paths.follow, List.append_assoc]
  | up =>
    by_cases bottom : r.down = []
    · have climbed : dir.length - (r.up + 1) = dir.length - r.up - 1 := by omega
      have reached : (dir.take (dir.length - r.up)).length = dir.length - r.up := by
        rw [List.length_take]
        omega
      rw [Relative.follow, if_pos bottom, target, target, Paths.follow, bottom, List.append_nil,
        List.append_nil, List.dropLast_eq_take, reached, List.take_take, climbed,
        Nat.min_eq_left (Nat.sub_le _ _)]
    · rw [Relative.follow, if_neg bottom, target, target, Paths.follow,
        List.dropLast_append_of_ne_nil bottom]

theorem walk_normalize (dir : List Bytes) (ps : List Part) : walk dir ps = (normalize ps).target dir := by
  have general : ∀ (r : Relative), walk (r.target dir) ps = (ps.foldl Relative.follow r).target dir := by
    induction ps with
    | nil => exact fun r => rfl
    | cons p ps ih =>
      intro r
      rw [List.foldl_cons, ← ih (r.follow p), Relative.target_follow]
      rfl
  have start : Relative.target ⟨0, []⟩ dir = dir := by simp [Relative.target]
  rw [normalize, ← general, start]

/-- A path relative to a directory leads inside it exactly when it enters again, by
the same names, every level of the directory that it has climbed. -/
theorem inside_iff (directory path : Bytes) :
    Inside directory (directory ++ slash :: path) ↔
      (resolve directory).drop ((resolve directory).length - (normalize (parts path)).up) <+:
        (normalize (parts path)).down := by
  have reached : resolve (directory ++ slash :: path) = (normalize (parts path)).target (resolve directory) := by
    rw [resolve, parts_join, walk_append, walk_normalize, resolve]
  rw [Inside, reached, Relative.target]
  generalize resolve directory = dir
  generalize dir.length - (normalize (parts path)).up = level
  calc dir <+: dir.take level ++ (normalize (parts path)).down
      ↔ dir.take level ++ dir.drop level <+: dir.take level ++ (normalize (parts path)).down := by
        rw [List.take_append_drop]
    _ ↔ dir.drop level <+: (normalize (parts path)).down := List.prefix_append_right_inj _

end Paths
