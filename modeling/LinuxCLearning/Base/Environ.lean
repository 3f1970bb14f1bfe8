import LinuxCLearning.Base.Bytes

/-! The environment of a process: a list of strings NAME=value that `getenv`, `setenv` and
`unsetenv` search from the front. Names without an equals sign make a map of it. Memory allocation
succeeds. -/

namespace LinuxCLearning

/-- `environ`. -/
abbrev Environ := List Bytes

namespace Environ

/-- What an entry says about a name: what is behind the name and an equals sign. -/
def valueOf (name entry : Bytes) : Option Bytes :=
  if (name ++ [61]).isPrefixOf entry then some (entry.drop (name.length + 1)) else none

def getenv (environ : Environ) (name : Bytes) : Option Bytes :=
  if name = [] then none else environ.findSome? (valueOf name)

/-- A name that can be set. -/
def Valid (name : Bytes) : Prop := name ≠ [] ∧ 61 ∉ name

instance (name : Bytes) : Decidable (Valid name) := inferInstanceAs (Decidable (_ ∧ _))

/-- The first entry of the name gives way to another string. -/
def replaceFirst (name entry : Bytes) : Environ → Environ
  | [] => []
  | first :: rest =>
    if (valueOf name first).isSome then entry :: rest else first :: replaceFirst name entry rest

/-- `setenv`; `none` when it fails. -/
def setenv (environ : Environ) (name value : Bytes) (overwrite : Bool) : Option Environ :=
  if Valid name then
    if environ.any fun entry => (valueOf name entry).isSome then
      some (if overwrite then replaceFirst name (name ++ 61 :: value) environ else environ)
    else some (environ ++ [name ++ 61 :: value])
  else none

/-- `unsetenv`. -/
def unsetenv (environ : Environ) (name : Bytes) : Environ :=
  if Valid name then environ.filter fun entry => !(valueOf name entry).isSome else environ

variable {environ after : Environ} {name other entry value : Bytes}

theorem valueOf_eq_some : valueOf name entry = some value ↔ entry = name ++ 61 :: value := by
  unfold valueOf
  constructor
  · intro found
    split at found
    · rename_i starts
      obtain ⟨rest, rfl⟩ := List.isPrefixOf_iff_prefix.mp starts
      cases found
      simp
    · cases found
  · rintro rfl
    have starts : (name ++ [61]).isPrefixOf (name ++ 61 :: value) = true := by
      rw [List.isPrefixOf_iff_prefix]
      exact ⟨value, by simp⟩
    rw [if_pos starts]
    simp

/-- An entry is one of one name only. -/
theorem name_unique (plain : 61 ∉ name) (plain' : 61 ∉ other)
    (first : valueOf name entry = some value)
    {value' : Bytes} (second : valueOf other entry = some value') : name = other := by
  rw [valueOf_eq_some] at first second
  have same := congrArg (List.takeWhile (· != 61)) (first.symm.trans second)
  have up_to (name value : Bytes) (plain : 61 ∉ name) : (name ++ 61 :: value).takeWhile (· != 61) =
      name := by
    rw [List.takeWhile_append_of_pos]
    · simp
    · intro byte member
      have different : byte ≠ 61 := fun same => plain (same ▸ member)
      simpa using different
  rwa [up_to name value plain, up_to other value' plain'] at same

theorem valueOf_other (plain : 61 ∉ name) (plain' : 61 ∉ other) (different : other ≠ name)
    (found : (valueOf name entry).isSome) : valueOf other entry = none := by
  obtain ⟨value, found⟩ := Option.isSome_iff_exists.mp found
  rw [Option.eq_none_iff_forall_ne_some]
  intro value' other_found
  exact different (name_unique plain plain' found other_found).symm

theorem valueOf_entry (name value : Bytes) : valueOf name (name ++ 61 :: value) = some value :=
  valueOf_eq_some.mpr rfl

theorem valueOf_other_entry (plain : 61 ∉ name) (plain' : 61 ∉ other)
    (different : other ≠ name) (value : Bytes) :
    valueOf other (name ++ 61 :: value) = none := by
  refine valueOf_other plain plain' different ?_
  rw [valueOf_entry]
  rfl

theorem findSome_replaceFirst (plain : 61 ∉ name) (plain' : 61 ∉ other)
    (present : environ.any fun entry => (valueOf name entry).isSome) :
    (replaceFirst name (name ++ 61 :: value) environ).findSome? (valueOf other) =
      if other = name then some value else environ.findSome? (valueOf other) := by
  induction environ with
  | nil => cases present
  | cons first rest ih =>
    rw [replaceFirst]
    split
    · rename_i found
      by_cases same : other = name
      · rw [if_pos same, same, List.findSome?_cons, valueOf_entry]
      · have first := valueOf_other plain plain' same found
        rw [if_neg same, List.findSome?_cons, List.findSome?_cons,
          valueOf_other_entry plain plain' same, first]
    · rename_i missing
      rw [List.any_cons, Bool.eq_false_of_not_eq_true missing, Bool.false_or] at present
      rw [List.findSome?_cons, List.findSome?_cons, ih present]
      by_cases same : other = name
      · rw [if_pos same, if_pos same, same, Option.not_isSome_iff_eq_none.mp missing]
      · rw [if_neg same, if_neg same]

/-- Only the name can make it fail. -/
theorem setenv_isSome (environ : Environ) (name value : Bytes) (overwrite : Bool) :
    (setenv environ name value overwrite).isSome ↔ Valid name := by
  unfold setenv
  split
  · rename_i valid
    split <;> simp [valid]
  · rename_i invalid
    simp [invalid]

theorem getenv_setenv {overwrite : Bool} (plain' : 61 ∉ other)
    (set : setenv environ name value overwrite = some after) :
    getenv after other =
      if other = name ∧ (overwrite = true ∨ getenv environ name = none) then some value
      else getenv environ other := by
  unfold setenv at set
  split at set
  · rename_i valid
    obtain ⟨nonempty, plain⟩ := valid
    split at set
    · rename_i present
      have found : getenv environ name ≠ none := by
        rw [getenv, if_neg nonempty]
        simpa [List.findSome?_eq_none_iff, Option.isSome_iff_ne_none] using present
      cases set
      cases overwrite with
      | true =>
        simp only [if_true, true_or, and_true]
        by_cases empty : other = []
        · simp [getenv, empty, nonempty.symm]
        · rw [getenv, getenv, if_neg empty, if_neg empty,
            findSome_replaceFirst plain plain' present]
      | false => simp [found]
    · rename_i absent
      cases set
      have missing : getenv environ name = none := by
        rw [getenv, if_neg nonempty]
        simpa [List.findSome?_eq_none_iff] using absent
      simp only [missing, or_true, and_true]
      by_cases empty : other = []
      · simp [getenv, empty, nonempty.symm]
      · rw [getenv, getenv, if_neg empty, if_neg empty, List.findSome?_append,
          List.findSome?_singleton]
        by_cases same : other = name
        · rw [getenv, if_neg nonempty] at missing
          rw [if_pos same, same, missing, valueOf_entry, Option.none_or]
        · rw [if_neg same, valueOf_other_entry plain plain' same, Option.or_none]
  · cases set

theorem getenv_unsetenv (valid : Valid name) (plain' : 61 ∉ other) :
    getenv (unsetenv environ name) other = if other = name then none else getenv environ other := by
  obtain ⟨nonempty, plain⟩ := valid
  rw [unsetenv, if_pos ⟨nonempty, plain⟩]
  by_cases empty : other = []
  · simp [getenv, empty]
  · rw [getenv, getenv, if_neg empty, if_neg empty]
    induction environ with
    | nil => simp
    | cons first rest ih =>
      rw [List.filter_cons]
      cases found : valueOf name first with
      | none =>
        rw [if_pos (by rfl), List.findSome?_cons, List.findSome?_cons, ih]
        by_cases same : other = name
        · rw [if_pos same, if_pos same, same, found]
        · rw [if_neg same, if_neg same]
      | some value =>
        rw [if_neg (by simp), ih, List.findSome?_cons]
        by_cases same : other = name
        · rw [if_pos same, if_pos same]
        · rw [if_neg same, if_neg same, valueOf_other plain plain' same (found ▸ rfl)]

end Environ

end LinuxCLearning
