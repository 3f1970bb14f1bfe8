import LinuxCLearning.Base.Environ
import LinuxCLearning.MiniShell.Expansion

/-! The builtins `export` and `unset`, and what the tokens of later lines are expanded to. -/

namespace LinuxCLearning.MiniShell

/-- One argument of `export`: a name with a value, or a name that is to have one. -/
def exportOne (environ : Environ) (argument : Bytes) : Option Environ :=
  if 61 ∈ argument then
    environ.setenv (argument.takeWhile (· != 61)) (argument.dropWhile (· != 61)).tail true
  else environ.setenv argument [] false

/-- `builtin_export` with its arguments behind the name; the first that fails ends it, and
without arguments it only prints the environment. -/
def builtinExport (environ : Environ) : List Bytes → Int × Environ
  | [] => (0, environ)
  | argument :: arguments =>
    match exportOne environ argument with
    | some environ => builtinExport environ arguments
    | none => (1, environ)

/-- `builtin_unset`. -/
def builtinUnset (environ : Environ) (arguments : List Bytes) : Int × Environ :=
  (0, arguments.foldl Environ.unsetenv environ)

/-- A builtin that changes variables, with its arguments. -/
inductive VariableCommand where
  | exports (arguments : List Bytes)
  | unsets (arguments : List Bytes)

def VariableCommand.run (environ : Environ) : VariableCommand → Int × Environ
  | .exports arguments => builtinExport environ arguments
  | .unsets arguments => builtinUnset environ arguments

/-- The environment after a number of lines. -/
def runVariables (environ : Environ) (commands : List VariableCommand) : Environ :=
  commands.foldl (fun environ command => (command.run environ).2) environ

/-- `getenv` as the parser calls it. -/
def environmentOf (environ : Environ) : Environment := ⟨environ.getenv, by simp [Environ.getenv]⟩

/-- The values of the variables. -/
abbrev Values := Bytes → Option Bytes

/-- What an argument of `export` means. -/
def Values.assign (values : Values) (argument : Bytes) : Option Values :=
  let name := argument.takeWhile (· != 61)
  if name = [] then none
  else if 61 ∈ argument then
    some (Function.update values name (some (argument.dropWhile (· != 61)).tail))
  else if values name = none then some (Function.update values name (some []))
  else some values

def Values.assignAll (values : Values) : List Bytes → Int × Values
  | [] => (0, values)
  | argument :: arguments =>
    match values.assign argument with
    | some values => Values.assignAll values arguments
    | none => (1, values)

/-- What a command means. -/
def Values.after (values : Values) : VariableCommand → Int × Values
  | .exports arguments => values.assignAll arguments
  | .unsets arguments => (0, fun name => if arguments.contains name then none else values name)

def Values.afterAll (values : Values) (commands : List VariableCommand) : Values :=
  commands.foldl (fun values command => (values.after command).2) values

/-- The environment says the same of every name. -/
def Represents (environ : Environ) (values : Values) : Prop :=
  ∀ name, 61 ∉ name → environ.getenv name = values name

section Map
variable {environ : Environ} {values : Values}

theorem takeWhile_plain (argument : Bytes) : 61 ∉ argument.takeWhile (· != 61) := by
  intro member
  simpa using List.mem_takeWhile_imp member

theorem takeWhile_all {argument : Bytes} (plain : 61 ∉ argument) :
    argument.takeWhile (· != 61) = argument := by
  rw [List.takeWhile_eq_self_iff]
  intro byte member
  have different : byte ≠ 61 := fun same => plain (same ▸ member)
  simpa using different

theorem Represents.assign (represents : Represents environ values) (argument : Bytes) :
    Option.Rel Represents (exportOne environ argument) (values.assign argument) := by
  unfold exportOne Values.assign
  by_cases equals : 61 ∈ argument
  · simp only [if_pos equals]
    by_cases empty : argument.takeWhile (· != 61) = []
    · have invalid : ¬ Environ.Valid (argument.takeWhile (· != 61)) := fun valid => valid.1 empty
      rw [if_pos empty, Environ.setenv, if_neg invalid]
      exact .none
    · have valid := (Environ.setenv_isSome environ _ (argument.dropWhile (· != 61)).tail true).mpr
        ⟨empty, takeWhile_plain argument⟩
      obtain ⟨after, set⟩ := Option.isSome_iff_exists.mp valid
      rw [if_neg empty, set]
      refine .some fun name plain => ?_
      rw [Environ.getenv_setenv plain set, Function.update_apply, represents name plain]
      simp
  · simp only [if_neg equals, takeWhile_all equals]
    by_cases empty : argument = []
    · have invalid : ¬ Environ.Valid argument := fun valid => valid.1 empty
      rw [if_pos empty, Environ.setenv, if_neg invalid]
      exact .none
    · obtain ⟨after, set⟩ :=
        Option.isSome_iff_exists.mp
          ((Environ.setenv_isSome environ argument [] false).mpr ⟨empty, equals⟩)
      rw [if_neg empty, set]
      have same := represents argument equals
      split
      · rename_i missing
        refine .some fun name plain => ?_
        rw [Environ.getenv_setenv plain set, Function.update_apply, represents name plain, same]
        simp [missing]
      · rename_i present
        refine .some fun name plain => ?_
        rw [Environ.getenv_setenv plain set, represents name plain, same]
        simp [present]

theorem Represents.exports (represents : Represents environ values) (arguments : List Bytes) :
    (builtinExport environ arguments).1 = (values.assignAll arguments).1 ∧
      Represents (builtinExport environ arguments).2 (values.assignAll arguments).2 := by
  induction arguments generalizing environ values with
  | nil => exact ⟨rfl, represents⟩
  | cons argument arguments ih =>
    have both := represents.assign argument
    rw [builtinExport, Values.assignAll]
    cases set : exportOne environ argument with
    | none =>
      rw [set] at both
      cases assigned : values.assign argument with
      | none => exact ⟨rfl, represents⟩
      | some values =>
        rw [assigned] at both
        cases both
    | some environ =>
      rw [set] at both
      cases assigned : values.assign argument with
      | none =>
        rw [assigned] at both
        cases both
      | some values =>
        rw [assigned] at both
        cases both with
        | some after => exact ih after

theorem Represents.unset (represents : Represents environ values) (argument : Bytes) :
    Represents (environ.unsetenv argument)
      (fun name => if name = argument then none else values name) := by
  intro name plain
  by_cases valid : Environ.Valid argument
  · rw [Environ.getenv_unsetenv valid plain, represents name plain]
  · rw [Environ.unsetenv, if_neg valid, represents name plain]
    dsimp only
    split
    · rename_i same
      -- such a name without an equals sign is empty, and no variable has it
      obtain rfl : name = [] := by
        by_contra nonempty
        exact valid (same ▸ ⟨nonempty, plain⟩)
      rw [← represents [] plain]
      simp [Environ.getenv]
    · rfl

theorem Represents.unsets (represents : Represents environ values) (arguments : List Bytes) :
    Represents (arguments.foldl Environ.unsetenv environ)
      (fun name => if arguments.contains name then none else values name) := by
  induction arguments generalizing environ values with
  | nil => simpa using represents
  | cons argument arguments ih =>
    intro name plain
    rw [List.foldl_cons, ih (represents.unset argument) name plain]
    by_cases first : name = argument
    · simp [first]
    · simp [first]

theorem Represents.run (represents : Represents environ values) (command : VariableCommand) :
    (command.run environ).1 = (values.after command).1 ∧ Represents (command.run environ).2
      (values.after command).2 := by
  cases command with
  | exports arguments => exact represents.exports arguments
  | unsets arguments => exact ⟨rfl, represents.unsets arguments⟩

theorem Represents.runAll (represents : Represents environ values)
    (commands : List VariableCommand) :
    Represents (runVariables environ commands) (values.afterAll commands) := by
  induction commands generalizing environ values with
  | nil => exact represents
  | cons command commands ih => exact ih (represents.run command).2

end Map

/-- A token refers only to names without an equals sign. -/
theorem expansion_congr {first second : Environment}
    (same : ∀ name, 61 ∉ name → first.getenv name = second.getenv name)
    (token : Bytes) : expansion first token = expansion second token := by
  induction length : token.length using Nat.strong_induction_on generalizing token with
  | _ length_value ih =>
    subst length
    cases token with
    | nil => rw [expansion, expansion]
    | cons byte rest =>
      by_cases dollar : byte = 36
      · subst dollar
        cases found : referenceAt rest with
        | none =>
          rw [expansion_dollar found, expansion_dollar found,
            ih rest.length (Nat.lt_succ_self _) rest rfl]
        | some reference =>
          obtain ⟨name, behind⟩ := reference
          have refers := referenceAt_spec found
          have plain : 61 ∉ name := fun member => absurd (refers.named.2.2 61 member) (by decide)
          rw [expansion_reference found, expansion_reference found, same name plain,
            ih behind.length (refers.shorter.trans (Nat.lt_succ_self _)) behind rfl]
      · rw [expansion_literal dollar, expansion_literal dollar,
          ih rest.length (Nat.lt_succ_self _) rest rfl]

theorem represents_afterAll (environ : Environ) (commands : List VariableCommand) :
    Represents (runVariables environ commands) (Values.afterAll environ.getenv commands) :=
  Represents.runAll (fun _ _ => rfl) commands

theorem afterAll_unnamed (environ : Environ) (commands : List VariableCommand) :
    Values.afterAll environ.getenv commands [] = none := by
  rw [← represents_afterAll environ commands [] (List.not_mem_nil)]
  simp [Environ.getenv]

/-- The map as the parser looks at it. -/
def mapEnvironment (environ : Environ) (commands : List VariableCommand) : Environment :=
  ⟨Values.afterAll environ.getenv commands, afterAll_unnamed environ commands⟩

/-- After any lines with `export` and `unset`, and from any environment, a token of the next line
is expanded with what these lines say, and the builtins return what they say of it. -/
theorem variables_expanded (environ : Environ) (commands : List VariableCommand) (token : Bytes)
    (expandable : Expandable token)
    (short : (expansion (mapEnvironment environ commands) token).length < maxLine - 1) :
    expandVariables (environmentOf (runVariables environ commands)) token =
      expansion (mapEnvironment environ commands) token ∧
    ∀ command : VariableCommand, (command.run (runVariables environ commands)).1 =
      ((Values.afterAll environ.getenv commands).after command).1 := by
  have represents := represents_afterAll environ commands
  have same : expansion (environmentOf (runVariables environ commands)) token =
      expansion (mapEnvironment environ commands) token :=
    expansion_congr (fun name plain => represents name plain) token
  rw [← same] at short ⊢
  exact ⟨(expandVariables_reference token).1 expandable _ short,
    fun command => (represents.run command).1⟩

/-- `export A=x B`, `unset A`, `export A=y =z C`; the last one fails at its second argument. -/
def threeLines : List VariableCommand :=
  [.exports [text "A=x", text "B"], .unsets [text "A"], .exports [text "A=y", text "=z", text "C"]]

theorem variables_expanded_three :
    expandVariables (environmentOf (runVariables [text "B=old"] threeLines))
      (text "$A") = text "y" := by
  have found : referenceAt (text "A") = some (text "A", []) := by decide
  have nothing : Expandable [] := fun front rest same => by simp at same
  have expandable : Expandable (text "$A") := nothing.reference found fun _ => rfl
  have value : (mapEnvironment [text "B=old"] threeLines).getenv (text "A") = some (text "y") := by
    decide
  have expanded : expansion (mapEnvironment [text "B=old"] threeLines) (text "$A") = text "y" := by
    change expansion _ (36 :: text "A") = _
    rw [expansion_reference found, value, expansion]
    rfl
  rw [(variables_expanded [text "B=old"] threeLines (text "$A") expandable
    (by rw [expanded]; decide)).1, expanded]

end LinuxCLearning.MiniShell
