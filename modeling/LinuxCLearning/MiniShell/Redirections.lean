import LinuxCLearning.MiniShell.Wiring

/-! The redirections of a builtin, which the shell undoes behind it, and what the descriptors of
the shell are after any number of command lines. -/

namespace LinuxCLearning.MiniShell

/-- A copy of a descriptor that is to be redirected; `none` when there is none. -/
def saveFor (wanted : Option (Stream × Bool)) (target : Nat) (table : Descriptors Stream) :
    Option Nat × Descriptors Stream :=
  match wanted with
  | none => (none, table)
  | some _ =>
    match table.dup target with
    | none => (none, table)
    | some (saved, table) => (some saved, table)

/-- `close` of the copy, if there is one. -/
def discard (saved : Option Nat) (table : Descriptors Stream) : Descriptors Stream :=
  match saved with
  | none => table
  | some saved => table.close saved

/-- The copy back in its place. -/
def restore (saved : Option Nat) (target : Nat) (table : Descriptors Stream) : Descriptors Stream :=
  match saved with
  | none => table
  | some saved => (table.dup2 saved target).close saved

/-- `builtin_execute`: the descriptors while the builtin runs, if it does, and those after it. What
the builtin prints goes into the buffer of `stdout`, which nobody flushes before descriptor 1 is
restored; where it gets to is not described here. -/
def builtinExecute (files : Files) (command : Command) (table : Descriptors Stream) :
    Option (Descriptors Stream) × Descriptors Stream :=
  if command.argv = [] then (none, table)
  else
    let (savedInput, table) := saveFor (command.input files) 0 table
    match redirectTo 0 (command.input files) table with
    | none => (none, discard savedInput table)
    | some table =>
      let (savedOutput, table) := saveFor (command.output files) 1 table
      match redirectTo 1 (command.output files) table with
      | none => (none, discard savedOutput (restore savedInput 0 table))
      | some table => (some table, restore savedOutput 1 (restore savedInput 0 table))

section Saving
variable {table after child : Descriptors Stream} {wanted : Option (Stream × Bool)}
  {saved : Option Nat} {target : Nat}
  {first other : Stream} {opened : List (Nat × Stream)}

/-- The copy as an opened descriptor. -/
def copied (saved : Option Nat) (file : Stream) : List (Nat × Stream) :=
  saved.toList.map fun descriptor => (descriptor, file)

theorem saveFor_extends (used : table.refers target = some first)
    (copy : saveFor wanted target table = (saved, after)) :
    table.Extends (copied saved first) after := by
  unfold saveFor at copy
  cases wanted with
  | none =>
    cases copy
    exact .refl table
  | some file =>
    dsimp only at copy
    split at copy
    · cases copy
      exact .refl table
    · rename_i descriptor between duplicated
      cases copy
      rw [Descriptors.dup, used] at duplicated
      exact .openFile duplicated

/-- Where there was no descriptor for the copy, there is none for the file. -/
theorem saved_of_redirected (used : table.refers target = some first)
    (copy : saveFor wanted target table = (saved, after))
    (redirected : redirectTo target wanted after = some child)
    (asked : wanted.isSome) : saved.isSome := by
  obtain ⟨⟨file, opens⟩, rfl⟩ := Option.isSome_iff_exists.mp asked
  unfold saveFor at copy
  dsimp only at copy
  split at copy
  · rename_i failed
    cases copy
    rw [Descriptors.dup, used] at failed
    have full := Descriptors.openFile_eq_none.mp failed
    have failed : table.openFile file = none := Descriptors.openFile_eq_none.mpr full
    rw [redirectTo] at redirected
    split at redirected
    · rw [Descriptors.redirect, failed] at redirected
      cases redirected
    · cases redirected
  · cases copy
    rfl

theorem discard_extends (extended : table.Extends (opened ++ copied saved first) after) :
    table.Extends opened (discard saved after) := by
  cases saved with
  | none => simpa [copied, discard] using extended
  | some descriptor => exact extended.close_last

theorem restore_extends (extended : table.Extends (opened ++ copied saved first) after)
    (used : table.refers target = some (wanted.elim first Prod.fst))
    (copy : wanted.isSome → saved.isSome) :
    (table.set target (some first)).Extends opened (restore saved target after) := by
  cases saved with
  | none =>
    cases wanted with
    | none =>
      rw [Option.elim_none] at used
      rw [Descriptors.set_same used]
      simpa [copied, restore] using extended
    | some file => cases copy rfl
  | some descriptor =>
    have refers := extended.refers (descriptor, first) (by simp [copied])
    rw [restore, Descriptors.dup2_refers refers]
    exact (extended.set used first).close_last

end Saving

section Builtins
variable {table : Descriptors Stream} {first second : Stream}

/-- Both descriptors are restored behind a builtin that has run with those it asked for. -/
theorem restored_table (input : table.refers 0 = some first) (output : table.refers 1 = some second)
    {reads writes : Option (Stream × Bool)} {savedInput savedOutput : Option Nat}
    {running : Descriptors Stream}
    (extended : ((table.set 0 (some (reads.elim first Prod.fst))).set 1
      (some (writes.elim second Prod.fst))).Extends
        (copied savedOutput second ++ copied savedInput first) running)
    (copy_input : reads.isSome → savedInput.isSome)
    (copy_output : writes.isSome → savedOutput.isSome) :
    restore savedOutput 1 (restore savedInput 0 running) = table ∧
      running.refers 0 = some (reads.elim first Prod.fst) ∧
      running.refers 1 = some (writes.elim second Prod.fst) := by
  have both_input : ((table.set 0 (some (reads.elim first Prod.fst))).set 1
      (some (writes.elim second Prod.fst))).refers 0 = some (reads.elim first Prod.fst) := by
    rw [Descriptors.set_refers, if_neg (by decide), Descriptors.set_refers, if_pos rfl]
  have both_output : ((table.set 0 (some (reads.elim first Prod.fst))).set 1
      (some (writes.elim second Prod.fst))).refers 1 = some (writes.elim second Prod.fst) := by
    rw [Descriptors.set_refers, if_pos rfl]
  have only_output : (table.set 1 (some (writes.elim second Prod.fst))).refers 1 =
      some (writes.elim second Prod.fst) := by
    rw [Descriptors.set_refers, if_pos rfl]
  have restored := restore_extends extended both_input copy_input
  rw [Descriptors.set_comm _ Nat.one_ne_zero, Descriptors.set_twice, Descriptors.set_same input,
    ← List.nil_append (copied savedOutput second)] at restored
  have restored := restore_extends restored only_output copy_output
  rw [Descriptors.set_twice, Descriptors.set_same output] at restored
  exact ⟨restored.eq_of_nil, (extended.before both_input).2, (extended.before both_output).2⟩

/-- The shell has its own descriptors back after a builtin, whether or not its files could be
opened, and the builtin has run with those that its redirections say. -/
theorem builtinExecute_table (files : Files) (command : Command)
    (input : table.refers 0 = some first) (output : table.refers 1 = some second) :
    (builtinExecute files command table).2 = table ∧
      ∀ running, (builtinExecute files command table).1 = some running →
        running.refers 0 = command.standardInput 0 table ∧
          running.refers 1 = command.standardOutput 0 1 table := by
  unfold builtinExecute
  split
  · simp
  cases save_input : saveFor (command.input files) 0 table with
  | mk savedInput between =>
    have extended := saveFor_extends input save_input
    dsimp only
    cases reads : redirectTo 0 (command.input files) between with
    | none =>
      refine ⟨Descriptors.Extends.eq_of_nil (discard_extends extended), ?_⟩
      simp
    | some reading =>
      have copy_input := saved_of_redirected input save_input reads
      have extended := redirectTo_extends extended input reads
      dsimp only
      cases save_output : saveFor (command.output files) 1 reading with
      | mk savedOutput final =>
        have output' : (table.set 0 (some ((command.input files).elim first Prod.fst))).refers 1 =
            some second := by
          rw [Descriptors.set_refers, if_neg (by decide), output]
        have used := (extended.before output').2
        have copied_both := extended.trans (saveFor_extends used save_output)
        dsimp only
        cases writes : redirectTo 1 (command.output files) final with
        | none =>
          have input' : (table.set 0 (some ((command.input files).elim first Prod.fst))).refers 0 =
              some ((command.input files).elim first Prod.fst) := by
            rw [Descriptors.set_refers, if_pos rfl]
          have restored := restore_extends copied_both input' copy_input
          rw [Descriptors.set_twice, Descriptors.set_same input] at restored
          exact ⟨(discard_extends restored).eq_of_nil, by simp⟩
        | some running =>
          have copy_output := saved_of_redirected used save_output writes
          obtain ⟨restored, reads_from, writes_to⟩ := restored_table input output
            (redirectTo_extends copied_both output' writes) copy_input copy_output
          refine ⟨restored, ?_⟩
          rintro _ ⟨⟩
          rw [reads_from, writes_to, Command.standardInput, Command.standardOutput, input, output]
          constructor
          · unfold Command.input
            cases command.inputFile <;> rfl
          · unfold Command.output
            cases command.outputFile <;> rfl

end Builtins

/-- `builtin_check`. -/
def builtinCheck (command : Bytes) : Bool :=
  [text "cd", text "pwd", text "echo", text "export", text "unset", text "exit", text "jobs",
    text "fg", text "bg",
    text "help"].contains command

/-- A line that has been parsed, with what `open` and `fork` say while it runs. -/
structure Line where
  commands : List Command
  files : Nat → Files
  forks : Nat → Bool

/-- The command that a line runs in the shell itself. -/
def Line.builtin (line : Line) : Option Command :=
  match line.commands with
  | [command] => if (command.argv.head?.map builtinCheck).getD false then some command else none
  | _ => none

/-- One round of the loop of `main`, as far as it concerns the descriptors of the shell. -/
def Line.run (line : Line) (table : Descriptors Stream) : Descriptors Stream :=
  match line.builtin with
  | some command => (builtinExecute (line.files 0) command table).2
  | none => (launch line.files line.forks line.commands table).table

def runLines (lines : List Line) (table : Descriptors Stream) : Descriptors Stream :=
  lines.foldl (fun table line => line.run table) table

/-- A pipeline that is given up after its first pipe has been opened. -/
def Line.Leaks (line : Line) (table : Descriptors Stream) : Prop :=
  line.builtin = none ∧ 1 < line.commands.length ∧ table.pipe (.readEnd 0) (.writeEnd 0) ≠ none ∧
    (launch line.files line.forks line.commands table).launched = false

section Lines
variable {table : Descriptors Stream} {first second : Stream}

theorem Line.run_extends (line : Line) (input : table.refers 0 = some first)
    (output : table.refers 1 = some second) :
    ∃ opened, table.Extends opened (line.run table) := by
  unfold Line.run
  split
  · rename_i command _
    rw [(builtinExecute_table (line.files 0) command input output).1]
    exact ⟨[], .refl table⟩
  · exact launch_extends line.files line.forks line.commands table

theorem Line.run_kept (line : Line) (input : table.refers 0 = some first)
    (output : table.refers 1 = some second) :
    line.run table = table ↔ ¬ line.Leaks table := by
  unfold Line.run Line.Leaks
  split
  · rename_i command is_builtin
    simp [(builtinExecute_table (line.files 0) command input output).1, is_builtin]
  · rename_i is_pipeline
    have short : line.commands.length ≤ 1 ↔ ¬ 1 < line.commands.length := Nat.not_lt.symm
    rw [launch_kept, short]
    by_cases long : 1 < line.commands.length <;> simp [is_pipeline, long, or_comm, imp_iff_not_or]

theorem runLines_extends (lines : List Line) (input : table.refers 0 = some first)
    (output : table.refers 1 = some second) :
      ∃ opened, table.Extends opened (runLines lines table) := by
  induction lines generalizing table with
  | nil => exact ⟨[], .refl table⟩
  | cons line lines ih =>
    obtain ⟨opened, extended⟩ := line.run_extends input output
    obtain ⟨more, again⟩ := ih (extended.before input).2 (extended.before output).2
    exact ⟨_, extended.trans again⟩

/-- As long as nothing leaks, every line begins with the descriptors of the shell. -/
theorem runLines_kept (lines : List Line) (input : table.refers 0 = some first)
    (output : table.refers 1 = some second) :
    runLines lines table = table ↔ ∀ line ∈ lines, ¬ line.Leaks table := by
  induction lines with
  | nil => simp [runLines]
  | cons line lines ih =>
    have kept := line.run_kept input output
    rw [List.forall_mem_cons, ← kept, ← ih]
    change runLines lines (line.run table) = table ↔ _
    constructor
    · intro same
      obtain ⟨opened, extended⟩ := line.run_extends input output
      obtain ⟨more, again⟩ := runLines_extends lines (extended.before input).2
        (extended.before output).2
      have all := extended.trans again
      rw [same] at all
      cases opened with
      | nil =>
        have unchanged := extended.eq_of_nil
        rw [unchanged] at same
        exact ⟨unchanged, same⟩
      | cons entry opened =>
        exact absurd rfl (all.ne_of_opened (List.mem_append_right more List.mem_cons_self))
    · rintro ⟨unchanged, rest⟩
      rw [unchanged, rest]

end Lines

/-- Over any session the shell keeps its descriptors exactly where no pipeline is given up with
pipes open; while a builtin runs, descriptors 0 and 1 are in any case what its redirections say, and
otherwise what the shell began with. -/
theorem session_descriptors (lines : List Line) (table : Descriptors Stream)
    (input : table.refers 0 ≠ none) (output : table.refers 1 ≠ none) :
    (runLines lines table = table ↔ ∀ line ∈ lines, ¬ line.Leaks table) ∧
    ∀ (earlier later : List Line) (line : Line) (command : Command) (running : Descriptors Stream),
      lines = earlier ++ line :: later → line.builtin = some command →
      (builtinExecute (line.files 0) command (runLines earlier table)).1 = some running →
      running.refers 0 = command.standardInput 0 table ∧
        running.refers 1 = command.standardOutput 0 1 table ∧
        line.run (runLines earlier table) = runLines earlier table := by
  obtain ⟨first, used_input⟩ := Option.ne_none_iff_exists'.mp input
  obtain ⟨second, used_output⟩ := Option.ne_none_iff_exists'.mp output
  refine ⟨runLines_kept lines used_input used_output, ?_⟩
  intro earlier later line command running _ is_builtin ran
  obtain ⟨opened, extended⟩ := runLines_extends earlier used_input used_output
  have same_input := (extended.before used_input).2
  have same_output := (extended.before used_output).2
  obtain ⟨kept, wired⟩ := builtinExecute_table (line.files 0) command same_input same_output
  obtain ⟨reads, writes⟩ := wired running ran
  rw [Command.standardInput, same_input] at reads
  rw [Command.standardOutput, same_output] at writes
  refine ⟨?_, ?_, ?_⟩
  · rw [reads, Command.standardInput, used_input]
  · rw [writes, Command.standardOutput, used_output]
  · rw [Line.run, is_builtin]
    exact kept

/-- `export > list`, then the pipeline. -/
def twoLines : List Line :=
  [⟨[⟨[text "export"], none, some (text "list"), false, false⟩], fun _ => .all, fun _ => true⟩,
    ⟨countWords, fun _ => .all, fun _ => true⟩]

theorem session_descriptors_two : runLines twoLines terminal = terminal := by
  refine (session_descriptors twoLines terminal (by decide) (by decide)).1.mpr ?_
  intro line member
  rcases List.mem_pair.mp member with rfl | rfl
  · rintro ⟨pipeline, _⟩
    cases pipeline
  · rintro ⟨_, _, _, failed⟩
    revert failed
    decide

end LinuxCLearning.MiniShell
