import Mathlib
import LinuxCLearning.Base.Bytes

/-! What a path name denotes lexically. Empty components and `.` are dropped and
`..` goes to the parent; symbolic links do not exist. A relative name starts in a
working directory that has no name here, so that going above it is counted. -/

namespace LinuxCLearning.PathName

/-- The components of a path name that count. -/
def components (path : Bytes) : List Bytes :=
  (path.splitOn 47).filter fun component => decide (component ≠ [] ∧ component ≠ [46])

/-- A place in the tree: the levels above the working directory, none for an
absolute one, and the names on the way down. -/
structure Location where
  absolute : Bool
  ups : Nat
  names : List Bytes
  deriving DecidableEq

namespace Location

def child (location : Location) (name : Bytes) : Location :=
  { location with names := location.names ++ [name] }

/-- The root is its own parent. -/
def parent (location : Location) : Location :=
  if location.names ≠ [] then { location with names := location.names.dropLast }
  else if location.absolute then location
  else { location with ups := location.ups + 1 }

def enter (location : Location) (component : Bytes) : Location :=
  if component = [46, 46] then location.parent else location.child component

def walk (location : Location) (path : List Bytes) : Location := path.foldl enter location

/-- Some number of parents up from a place stands the directory it lies under. -/
def Under (root location : Location) : Prop := ∃ levels, parent^[levels] location = root

@[simp] theorem parent_child (location : Location) (name : Bytes) :
    (location.child name).parent = location := by
  simp [child, parent]

theorem child_ne (location : Location) (name : Bytes) : location.child name ≠ location := by
  intro same
  have longer := congrArg (fun place => place.names.length) same
  simp [child] at longer

@[simp] theorem parent_absolute (location : Location) :
    location.parent.absolute = location.absolute := by
  unfold parent
  split
  · rfl
  · split <;> rfl

@[simp] theorem walk_absolute (location : Location) (path : List Bytes) :
    (location.walk path).absolute = location.absolute := by
  induction path generalizing location with
  | nil => rfl
  | cons component path ih =>
    rw [walk, List.foldl_cons, ← walk, ih, enter]
    split
    · exact location.parent_absolute
    · rfl

/-- Going up never adds a name. -/
theorem parent_names (location : Location) : location.parent.names <+: location.names := by
  unfold parent
  split
  · exact List.dropLast_prefix _
  · split <;> exact List.prefix_refl _

theorem Under.names {root location : Location} (under : root.Under location) :
    root.names <+: location.names := by
  obtain ⟨levels, above⟩ := under
  subst above
  induction levels with
  | zero => exact List.prefix_refl _
  | succ levels ih =>
    rw [Function.iterate_succ_apply']
    exact (parent_names _).trans ih

theorem walk_append (location : Location) (first second : List Bytes) :
    location.walk (first ++ second) = (location.walk first).walk second := List.foldl_append

theorem walk_child {component : Bytes} (down : component ≠ [46, 46]) (location : Location)
    (path : List Bytes) : location.walk (component :: path) =
      (location.child component).walk path := by
  rw [walk, List.foldl_cons, ← walk, enter, if_neg down]

end Location

/-- The levels above its start that a walk rises at its highest. -/
def climbs : List Bytes → Nat
  | [] => 0
  | component :: path => if component = [46, 46] then climbs path + 1 else climbs path - 1

theorem under_of_climbs {root location : Location} {path : List Bytes} {levels : Nat}
    (above : Location.parent^[levels] location = root) (low : climbs path ≤ levels) :
    root.Under (location.walk path) := by
  induction path generalizing location levels with
  | nil => exact ⟨levels, above⟩
  | cons component path ih =>
    rw [climbs] at low
    by_cases up : component = [46, 46]
    · subst up
      rw [if_pos rfl] at low
      cases levels with
      | zero => exact absurd low (Nat.not_succ_le_zero _)
      | succ levels => exact ih above (Nat.le_of_succ_le_succ low)
    · rw [if_neg up] at low
      rw [Location.walk_child up]
      apply @ih _ (levels + 1)
      · rw [Function.iterate_succ_apply, Location.parent_child, above]
      · exact Nat.sub_le_iff_le_add.mp low

/-- How the components of a path keep it under a root. Some of them lead to the root
and the others never climb above it, or the root stands above the start and the
path never climbs as far. -/
def Anchored (root start : Location) (path : List Bytes) : Prop :=
  (∃ first second, path = first ++ second ∧ start.walk first = root ∧ climbs second = 0) ∨
    ∃ levels, Location.parent^[levels] start = root ∧ climbs path ≤ levels

theorem anchored_cons {root start : Location} {component : Bytes} {path : List Bytes}
    (anchored : Anchored root (start.enter component) path) :
      Anchored root start (component :: path) := by
  obtain ⟨first, second, rfl, leads, low⟩ | ⟨levels, above, low⟩ := anchored
  · exact .inl ⟨component :: first, second, rfl, leads, low⟩
  · by_cases up : component = [46, 46]
    · subst up
      exact .inr ⟨levels + 1, above, Nat.succ_le_succ low⟩
    · rw [Location.enter, if_neg up] at above
      cases levels with
      | zero =>
        have leads : start.walk [component] = root := (Location.walk_child up start []).trans above
        exact .inl ⟨[component], path, rfl, leads, Nat.le_zero.mp low⟩
      | succ levels =>
        rw [Function.iterate_succ_apply, Location.parent_child] at above
        refine .inr ⟨levels, above, ?_⟩
        rw [climbs, if_neg up]
        exact Nat.sub_le_of_le_add low

theorem under_walk_iff (root start : Location) (path : List Bytes) :
    root.Under (start.walk path) ↔ Anchored root start path := by
  constructor
  · intro under
    induction path generalizing start with
    | nil =>
      obtain ⟨levels, above⟩ := under
      exact .inr ⟨levels, above, Nat.zero_le levels⟩
    | cons component path ih => exact anchored_cons (ih (start.enter component) under)
  · intro anchored
    obtain ⟨first, second, rfl, leads, low⟩ | ⟨levels, above, low⟩ := anchored
    · rw [Location.walk_append, leads]
      exact under_of_climbs (Function.iterate_zero_apply _ _) (Nat.le_of_eq low)
    · exact under_of_climbs above low

/-- Where a path name starts. -/
def start (path : Bytes) : Location := ⟨path.head? = some 47, 0, []⟩

/-- What a path name denotes. -/
def resolve (path : Bytes) : Location := (start path).walk (components path)

theorem components_append (first second : Bytes) :
    components (first ++ 47 :: second) = components first ++ components second := by
  simp only [components, List.splitOn_append_cons_self, List.filter_append]

theorem components_plain {name : Bytes} (plain : 47 ∉ name) (some_name : name ≠ [])
    (named : name ≠ [46]) :
    components name = [name] := by
  rw [components, List.splitOn_eq_singleton plain]
  simp [some_name, named]

/-- An extended path name starts where it did, unless there was none. -/
theorem start_append {first : Bytes} (some_first : first ≠ []) (second : Bytes) :
    start (first ++ second) = start first := by
  rw [start, start, List.head?_append_of_ne_nil first some_first]

end LinuxCLearning.PathName
