import Mathlib

/-! The file descriptors of a process: which are open and what each refers to. -/

namespace LinuxCLearning

universe u
variable {File : Type u}

/-- What each descriptor refers to; those from `limit` on cannot be opened. -/
@[ext]
structure Descriptors (File : Type u) where
  refers : Nat → Option File
  limit : Nat

namespace Descriptors

def set (table : Descriptors File) (descriptor : Nat) (file : Option File) : Descriptors File :=
  { table with refers := Function.update table.refers descriptor file }

/-- The lowest descriptor that is not in use. -/
def lowest (table : Descriptors File) : Option Nat :=
  (List.range table.limit).find? fun descriptor => (table.refers descriptor).isNone

/-- A new descriptor for a file, as `open` gives it. -/
def openFile (table : Descriptors File) (file : File) : Option (Nat × Descriptors File) :=
  table.lowest.map fun descriptor => (descriptor, table.set descriptor (some file))

def close (table : Descriptors File) (descriptor : Nat) : Descriptors File :=
  table.set descriptor none

def closeAll (table : Descriptors File) (descriptors : List Nat) : Descriptors File :=
  descriptors.foldl close table

def dup (table : Descriptors File) (descriptor : Nat) : Option (Nat × Descriptors File) :=
  (table.refers descriptor).bind table.openFile

/-- `dup2`, which changes nothing when the first descriptor is not open. -/
def dup2 (table : Descriptors File) (old new : Nat) : Descriptors File :=
  match table.refers old with
  | none => table
  | some file => table.set new (some file)

/-- `pipe`: two descriptors or none. -/
def pipe (table : Descriptors File) (reading writing : File) :
    Option ((Nat × Nat) × Descriptors File) := do
  let (reader, table) ← table.openFile reading
  let (writer, table) ← table.openFile writing
  return ((reader, writer), table)

/-- How many descriptors are not in use. -/
def unused (table : Descriptors File) : Nat :=
  ((Finset.range table.limit).filter fun descriptor => (table.refers descriptor).isNone).card

variable {table after next : Descriptors File} {descriptor other target : Nat} {file : File}

theorem set_refers (table : Descriptors File) (descriptor other : Nat) (file : Option File) :
    (table.set descriptor file).refers other = if other = descriptor then file
      else table.refers other := by
  simp only [set, Function.update_apply]

@[simp] theorem set_limit (table : Descriptors File) (descriptor : Nat) (file : Option File) :
    (table.set descriptor file).limit = table.limit := rfl

theorem set_same (refers : table.refers descriptor = some file) :
    table.set descriptor (some file) = table := by
  ext1
  · funext other
    rw [set_refers]
    split
    · rename_i same
      rw [same, refers]
    · rfl
  · rfl

theorem set_twice (table : Descriptors File) (descriptor : Nat) (first second : Option File) :
    (table.set descriptor first).set descriptor second = table.set descriptor second := by
  simp [set]

theorem set_comm (table : Descriptors File) (different : descriptor ≠ other)
    (first second : Option File) :
    (table.set descriptor first).set other second =
      (table.set other second).set descriptor first := by
  simp only [set, Function.update_comm different]

theorem openFile_eq_some (opened : table.openFile file = some (descriptor, after)) :
    table.refers descriptor = none ∧ after = table.set descriptor (some file) := by
  obtain ⟨found, lowest, same⟩ := Option.map_eq_some_iff.mp opened
  cases same
  have free := List.find?_some lowest
  exact ⟨Option.isNone_iff_eq_none.mp free, rfl⟩

/-- Nothing can be opened exactly where every descriptor is in use. -/
theorem openFile_eq_none :
    table.openFile file = none ↔ ∀ descriptor < table.limit, table.refers descriptor ≠ none := by
  simp [openFile, lowest]

theorem openFile_isSome : (table.openFile file).isSome ↔ 0 < table.unused := by
  simp [openFile, lowest, unused, Finset.card_pos, Finset.Nonempty]

theorem openFile_unused (opened : table.openFile file = some (descriptor, after)) :
    after.unused + 1 = table.unused := by
  obtain ⟨found, lowest, same⟩ := Option.map_eq_some_iff.mp opened
  cases same
  have free := List.find?_some lowest
  have inside : descriptor < table.limit := List.mem_range.mp (List.mem_of_find?_eq_some lowest)
  have member : descriptor ∈ (Finset.range table.limit).filter fun descriptor =>
      (table.refers descriptor).isNone :=
    Finset.mem_filter.mpr ⟨Finset.mem_range.mpr inside, free⟩
  have others : ((Finset.range table.limit).filter fun other =>
      ((table.set descriptor (some file)).refers other).isNone) =
      ((Finset.range table.limit).filter fun other =>
          (table.refers other).isNone).erase descriptor := by
    ext other
    simp only [Finset.mem_filter, Finset.mem_erase, set_refers]
    by_cases same : other = descriptor <;> simp [same]
  rw [unused, set_limit, others]
  exact Finset.card_erase_add_one member

theorem pipe_eq_none (reading writing : File) :
    table.pipe reading writing = none ↔ table.unused < 2 := by
  cases first : table.openFile reading with
  | none =>
    have closed : ¬ (table.openFile reading).isSome := by simp [first]
    rw [openFile_isSome] at closed
    simp only [pipe, first, Option.bind_eq_bind, Option.bind_none, true_iff]
    omega
  | some opened =>
    obtain ⟨reader, between⟩ := opened
    have less := openFile_unused first
    cases second : between.openFile writing with
    | none =>
      have closed : ¬ (between.openFile writing).isSome := by simp [second]
      rw [openFile_isSome] at closed
      simp only [pipe, first, second, Option.bind_eq_bind, Option.bind_some,
        Option.bind_none, true_iff]
      omega
    | some last =>
      obtain ⟨writer, final⟩ := last
      have fewer := openFile_unused second
      simp only [pipe, first, second, Option.bind_eq_bind, Option.bind_some, Option.pure_def,
        reduceCtorEq, false_iff]
      omega

theorem pipe_unused {reading writing : File} {ends : Nat × Nat}
    (opened : table.pipe reading writing = some (ends, after)) :
      after.unused + 2 = table.unused := by
  simp only [pipe, Option.bind_eq_bind, Option.bind_eq_some_iff, Prod.exists,
    Option.pure_def, Option.some.injEq,
    Prod.mk.injEq] at opened
  obtain ⟨first, between, some_reader, second, final, some_writer, _, rfl⟩ := opened
  have less := openFile_unused some_reader
  have fewer := openFile_unused some_writer
  omega

theorem dup2_refers (from_open : table.refers descriptor = some file) :
    table.dup2 descriptor target = table.set target (some file) := by
  rw [dup2, from_open]

theorem closeAll_refers (table : Descriptors File) (descriptors : List Nat) (other : Nat) :
    (table.closeAll descriptors).refers other = if other ∈ descriptors then none
      else table.refers other := by
  induction descriptors generalizing table with
  | nil => rfl
  | cons descriptor descriptors ih =>
    rw [closeAll, List.foldl_cons, ← closeAll, ih, close, set_refers]
    by_cases same : other = descriptor
    · simp [same]
    · simp [same]

theorem closeAll_limit (table : Descriptors File) (descriptors : List Nat) :
    (table.closeAll descriptors).limit = table.limit := by
  induction descriptors generalizing table with
  | nil => rfl
  | cons descriptor descriptors ih => exact ih (table.close descriptor)

/-- The second table is the first one with these descriptors open besides. -/
structure Extends (table : Descriptors File) (opened : List (Nat × File))
    (after : Descriptors File) : Prop where
  limit : after.limit = table.limit
  fresh : ∀ entry ∈ opened, table.refers entry.1 = none
  distinct : (opened.map Prod.fst).Nodup
  refers : ∀ entry ∈ opened, after.refers entry.1 = some entry.2
  others : ∀ descriptor ∉ opened.map Prod.fst, after.refers descriptor = table.refers descriptor

namespace Extends
variable {opened : List (Nat × File)}

theorem refl (table : Descriptors File) : table.Extends [] table :=
  ⟨rfl, by simp, List.nodup_nil, by simp, fun _ _ => rfl⟩

theorem free (extended : table.Extends opened after) (unused : after.refers descriptor = none) :
    descriptor ∉ opened.map Prod.fst ∧ table.refers descriptor = none := by
  have outside : descriptor ∉ opened.map Prod.fst := by
    intro member
    obtain ⟨entry, listed, rfl⟩ := List.mem_map.mp member
    rw [extended.refers entry listed] at unused
    cases unused
  exact ⟨outside, extended.others descriptor outside ▸ unused⟩

theorem openFile (opened : table.openFile file = some (descriptor, after)) :
    table.Extends [(descriptor, file)] after := by
  obtain ⟨unused, rfl⟩ := openFile_eq_some opened
  refine ⟨rfl, by simpa using unused, by simp, ?_, ?_⟩
  · intro entry member
    obtain rfl := List.mem_singleton.mp member
    rw [set_refers, if_pos rfl]
  · intro other missing
    have different : other ≠ descriptor := by simpa using missing
    rw [set_refers, if_neg different]

/-- A descriptor that was open before is none of those that have been opened. -/
theorem before (extended : table.Extends opened after)
    (used : table.refers descriptor = some file) :
    descriptor ∉ opened.map Prod.fst ∧ after.refers descriptor = some file := by
  have outside : descriptor ∉ opened.map Prod.fst := by
    intro member
    obtain ⟨entry, listed, rfl⟩ := List.mem_map.mp member
    rw [extended.fresh entry listed] at used
    cases used
  exact ⟨outside, (extended.others descriptor outside).trans used⟩

theorem trans {more : List (Nat × File)} (extended : table.Extends opened after)
    (again : after.Extends more next) :
    table.Extends (more ++ opened) next := by
  refine ⟨again.limit.trans extended.limit, ?_, ?_, ?_, ?_⟩
  · intro entry member
    rcases List.mem_append.mp member with member | member
    · exact (extended.free (again.fresh entry member)).2
    · exact extended.fresh entry member
  · rw [List.map_append, List.nodup_append]
    refine ⟨again.distinct, extended.distinct, ?_⟩
    intro descriptor new other old
    rintro rfl
    obtain ⟨entry, member, rfl⟩ := List.mem_map.mp new
    exact (extended.free (again.fresh entry member)).1 old
  · intro entry member
    rcases List.mem_append.mp member with member | member
    · exact again.refers entry member
    · exact (again.before (extended.refers entry member)).2
  · intro descriptor missing
    rw [List.map_append, List.mem_append, not_or] at missing
    exact (again.others descriptor missing.1).trans (extended.others descriptor missing.2)

theorem closeAll (extended : table.Extends opened after) {descriptors : List Nat}
    (same : ∀ descriptor, descriptor ∈ descriptors ↔ descriptor ∈ opened.map Prod.fst) :
    after.closeAll descriptors = table := by
  ext1
  · funext descriptor
    rw [closeAll_refers]
    split
    · rename_i member
      obtain ⟨entry, listed, rfl⟩ := List.mem_map.mp ((same descriptor).mp member)
      exact (extended.fresh entry listed).symm
    · rename_i missing
      exact extended.others descriptor fun member => missing ((same descriptor).mpr member)
  · rw [closeAll_limit, extended.limit]

theorem close_last {entry : Nat × File} (extended : table.Extends (opened ++ [entry]) after) :
    table.Extends opened (after.close entry.1) := by
  have distinct := extended.distinct
  rw [List.map_append, List.nodup_append] at distinct
  obtain ⟨once, _, apart⟩ := distinct
  refine ⟨extended.limit, ?_, once, ?_, ?_⟩
  · intro other member
    exact extended.fresh other (List.mem_append_left _ member)
  · intro other member
    rw [close, set_refers, if_neg (apart _ (List.mem_map_of_mem member) _ (by simp))]
    exact extended.refers other (List.mem_append_left _ member)
  · intro descriptor missing
    rw [close, set_refers]
    split
    · rename_i closed
      rw [closed]
      exact (extended.fresh entry (by simp)).symm
    · rename_i different
      refine extended.others descriptor ?_
      simpa [different] using missing

theorem eq_of_nil (extended : table.Extends [] after) : after = table := by
  ext1
  · funext descriptor
    exact extended.others descriptor (by simp)
  · exact extended.limit

theorem ne_of_opened (extended : table.Extends opened after) {entry : Nat × File}
    (member : entry ∈ opened) :
    after ≠ table := by
  rintro rfl
  have fresh := extended.fresh entry member
  rw [extended.refers entry member] at fresh
  cases fresh

theorem pipe {reading writing : File} {reader writer : Nat}
    (opened : table.pipe reading writing = some ((reader, writer), after)) :
    table.Extends [(writer, writing), (reader, reading)] after := by
  simp only [Descriptors.pipe, Option.bind_eq_bind, Option.bind_eq_some_iff,
    Prod.exists, Option.pure_def,
    Option.some.injEq, Prod.mk.injEq] at opened
  obtain ⟨first, between, some_reader, second, final, some_writer, ⟨rfl, rfl⟩, rfl⟩ := opened
  exact (openFile some_reader).trans (openFile some_writer)

theorem set (extended : table.Extends opened after) {before : File}
    (used : table.refers descriptor = some before)
    (file : File) : (table.set descriptor (some file)).Extends opened
      (after.set descriptor (some file)) := by
  obtain ⟨outside, _⟩ := extended.before used
  have different : ∀ entry ∈ opened, entry.1 ≠ descriptor := fun entry member same =>
    outside (List.mem_map.mpr ⟨entry, member, same⟩)
  refine ⟨extended.limit, ?_, extended.distinct, ?_, ?_⟩
  · intro entry member
    rw [set_refers, if_neg (different entry member)]
    exact extended.fresh entry member
  · intro entry member
    rw [set_refers, if_neg (different entry member)]
    exact extended.refers entry member
  · intro other missing
    rw [set_refers, set_refers, extended.others other missing]

end Extends

/-- Open a file, put it in the place of a descriptor and close the one that it came with. -/
def redirect (table : Descriptors File) (target : Nat) (file : File) : Option (Descriptors File) :=
  (table.openFile file).map fun (descriptor, table) =>
    (table.dup2 descriptor target).close descriptor

/-- Where the place is in use, only what it refers to has changed. -/
theorem redirect_eq_some {before : File} (used : table.refers target = some before)
    (redirected : table.redirect target file = some after) :
      after = table.set target (some file) := by
  obtain ⟨⟨descriptor, opened⟩, success, rfl⟩ := Option.map_eq_some_iff.mp redirected
  obtain ⟨unused, rfl⟩ := openFile_eq_some success
  have different : target ≠ descriptor := by
    rintro rfl
    rw [used] at unused
    cases unused
  have refers : (table.set descriptor (some file)).refers descriptor = some file := by
    rw [set_refers, if_pos rfl]
  ext1
  · funext other
    simp only [dup2_refers refers, close, set_refers]
    by_cases same : other = descriptor
    · subst other
      rw [if_pos rfl, if_neg different.symm, unused]
    · simp [same]
  · simp [dup2_refers refers, close]

end Descriptors

end LinuxCLearning
