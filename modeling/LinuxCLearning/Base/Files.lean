import Mathlib

/-! Files by name, and the rotation of numbered copies: the oldest is removed, each
number is renamed to the next one from the top down, and the current file becomes the
first. Every rename finds its target vacant, because the file there was moved just
before. -/

namespace LinuxCLearning

universe u v

/-- The contents of the files that exist. -/
abbrev Files (Name : Type u) (Content : Type v) := Name → Option Content

namespace Files

/-- Names up to a number are pairwise different. -/
def DistinctTo {Name : Type u} (name : Nat → Name) (top : Nat) : Prop :=
  ∀ first second, 1 ≤ first → first ≤ top → 1 ≤ second → second ≤ top →
    name first = name second → first = second

theorem DistinctTo.below {Name : Type u} {name : Nat → Name} {top : Nat}
    (distinct : DistinctTo name (top + 1)) : DistinctTo name top :=
  fun first second one small one' small' =>
    distinct first second one (Nat.le_succ_of_le small) one' (Nat.le_succ_of_le small')

variable {Name : Type u} {Content : Type v} [DecidableEq Name]

/-- `remove`. -/
def remove (files : Files Name Content) (name : Name) : Files Name Content :=
  Function.update files name none

/-- `rename`, which replaces a file of the new name and has no effect without one of the
old name. -/
def rename (files : Files Name Content) (source target : Name) : Files Name Content :=
  match files source with
  | none => files
  | some content => Function.update (Function.update files source none) target (some content)

/-- Rename each number to the next one, from the given one down to the first. -/
def renameUp (name : Nat → Name) : Nat → Files Name Content → Files Name Content
  | 0, files => files
  | top + 1, files => renameUp name top (files.rename (name (top + 1)) (name (top + 2)))

/-- One rotation, up to the opening of a new current file. -/
def rotate (name : Nat → Name) (current : Name) (limit : Nat) (files : Files Name Content) :
    Files Name Content :=
  (renameUp name (limit - 1) (files.remove (name limit))).rename current (name 1)

/-- There is nothing but the current file and, under the numbers up to a limit, the
youngest of the closed files, the last one first. -/
structure Shelved (name : Nat → Name) (current : Name) (limit : Nat) (closed : List Content)
    (content : Option Content) (files : Files Name Content) : Prop where
  inUse : files current = content
  numbered : ∀ number < limit, files (name (number + 1)) = closed.reverse[number]?
  others : ∀ other, other ≠ current →
    (∀ number, 1 ≤ number → number ≤ limit → other ≠ name number) →
    files other = none

variable {files : Files Name Content} {source target other : Name}

theorem rename_source (apart : source ≠ target) : files.rename source target source = none := by
  cases present : files source with
  | none => simp [rename, present]
  | some content => simp [rename, present, apart]

theorem rename_target (vacant : files target = none) :
    files.rename source target target = files source := by
  cases present : files source with
  | none => simp [rename, present, vacant]
  | some content => simp [rename, present]

theorem rename_other (notSource : other ≠ source) (notTarget : other ≠ target) :
    files.rename source target other = files other := by
  cases present : files source with
  | none => simp [rename, present]
  | some content => simp [rename, present, notSource, notTarget]

section Chain
variable {name : Nat → Name} {top : Nat}

theorem renameUp_other (files : Files Name Content)
    (apart : ∀ number, 1 ≤ number → number ≤ top + 1 → other ≠ name number) :
    renameUp name top files other = files other := by
  induction top generalizing files with
  | zero => rfl
  | succ top ih =>
    rw [renameUp, ih]
    · exact rename_other (apart (top + 1) (by omega) (by omega))
        (apart (top + 2) (by omega) (by omega))
    · intro number positive small
      exact apart number positive (by omega)

/-- The first number is vacant afterwards and every other one holds the file before it. -/
theorem renameUp_numbered (files : Files Name Content) (distinct : DistinctTo name (top + 1))
    (vacant : files (name (top + 1)) = none) :
    renameUp name top files (name 1) = none ∧
      ∀ number, 1 ≤ number → number ≤ top →
        renameUp name top files (name (number + 1)) = files (name number) := by
  induction top generalizing files with
  | zero =>
    refine ⟨vacant, ?_⟩
    intro number positive small
    omega
  | succ top ih =>
    have apart : name (top + 1) ≠ name (top + 2) := by
      intro same
      have equal := distinct (top + 1) (top + 2) (by omega) (by omega) (by omega) (by omega) same
      omega
    obtain ⟨first, moved⟩ := ih (files.rename (name (top + 1)) (name (top + 2))) distinct.below
      (rename_source apart)
    refine ⟨first, ?_⟩
    intro number positive small
    rw [renameUp]
    rcases Nat.lt_or_ge number (top + 1) with below | last
    · rw [moved number positive (by omega)]
      apply rename_other
      · intro same
        have equal := distinct number (top + 1) positive (by omega) (by omega) (by omega) same
        omega
      · intro same
        have equal := distinct number (top + 2) positive (by omega) (by omega) (by omega) same
        omega
    · obtain rfl : number = top + 1 := by omega
      rw [renameUp_other, rename_target vacant]
      intro other one few same
      have equal := distinct (top + 2) other (by omega) (by omega) one (by omega) same
      omega

theorem Shelved.write {current : Name} {limit : Nat} {closed : List Content}
    {before : Option Content}
    (apart : ∀ number, 1 ≤ number → number ≤ limit → current ≠ name number)
    (shelved : Shelved name current limit closed before files) (content : Content) :
    Shelved name current limit closed (some content)
      (Function.update files current (some content)) := by
  constructor
  · simp
  · intro number small
    rw [Function.update_of_ne (Ne.symm (apart (number + 1) (by omega) small))]
    exact shelved.numbered number small
  · intro other notCurrent unnumbered
    rw [Function.update_of_ne notCurrent]
    exact shelved.others other notCurrent unnumbered

/-- A rotation shelves the current file and lets go of the oldest one. -/
theorem Shelved.rotate {current : Name} {limit : Nat} {closed : List Content} {content : Content}
    (distinct : DistinctTo name limit)
    (apart : ∀ number, 1 ≤ number → number ≤ limit → current ≠ name number) (positive : 1 ≤ limit)
    (shelved : Shelved name current limit closed (some content) files) :
    Shelved name current limit (closed ++ [content]) none
      (Files.rotate name current limit files) := by
  obtain ⟨top, rfl⟩ : ∃ top, limit = top + 1 := ⟨limit - 1, by omega⟩
  have notFirst : current ≠ name 1 := apart 1 (le_refl 1) positive
  have vacant : files.remove (name (top + 1)) (name (top + 1)) = none := by simp [remove]
  obtain ⟨first, moved⟩ := renameUp_numbered (files.remove (name (top + 1))) distinct vacant
  have kept : renameUp name top (files.remove (name (top + 1))) current = some content := by
    rw [renameUp_other _ apart, remove, Function.update_of_ne (apart _ (by omega) (by omega))]
    exact shelved.inUse
  rw [Files.rotate, Nat.add_sub_cancel]
  constructor
  · exact rename_source notFirst
  · intro number small
    cases number with
    | zero =>
      rw [Nat.zero_add, rename_target first, kept]
      simp
    | succ number =>
      have notCurrent : name (number + 2) ≠ current :=
        Ne.symm (apart (number + 2) (by omega) (by omega))
      have notLowest : name (number + 2) ≠ name 1 := by
        intro same
        have equal := distinct (number + 2) 1 (by omega) (by omega) (by omega) (by omega) same
        omega
      have notTop : name (number + 1) ≠ name (top + 1) := by
        intro same
        have equal := distinct (number + 1) (top + 1) (by omega) (by omega)
          (by omega) (by omega) same
        omega
      rw [rename_other notCurrent notLowest, moved (number + 1) (by omega) (by omega), remove,
        Function.update_of_ne notTop, shelved.numbered number (by omega)]
      simp
  · intro other notCurrent unnumbered
    rw [rename_other notCurrent (unnumbered 1 (le_refl 1) positive),
      renameUp_other _ unnumbered, remove,
      Function.update_of_ne (unnumbered _ (by omega) (by omega))]
    exact shelved.others other notCurrent unnumbered

end Chain

end Files

end LinuxCLearning
