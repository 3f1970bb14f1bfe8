import LinuxCLearning.Base.Descriptors
import LinuxCLearning.MiniShell.Shell

/-! The file descriptors of the shell and of the processes of a pipeline: what `executor_run`
opens and closes, and what `setup_io` hands to each command. -/

namespace LinuxCLearning.MiniShell

/-- What a descriptor refers to: something that the shell had open before the pipeline, an end
of the pipe with this number, or the file of a redirection. -/
inductive Stream where
  | inherited (number : Nat)
  | readEnd (pipe : Nat)
  | writeEnd (pipe : Nat)
  | input (path : Bytes)
  | output (path : Bytes) (append : Bool)
  deriving DecidableEq

/-- Which files `open` can open. -/
structure Files where
  readable : Bytes → Bool
  writable : Bytes → Bool → Bool

/-- The loop over `pipe`; `none` when one of the calls fails. -/
def openPipes : (index count : Nat) → Descriptors Stream →
    Option (List (Nat × Nat)) × Descriptors Stream
  | _, 0, table => (some [], table)
  | index, count + 1, table =>
    match table.pipe (.readEnd index) (.writeEnd index) with
    | none => (none, table)
    | some (ends, table) =>
      let (pipes, table) := openPipes (index + 1) count table
      (pipes.map (ends :: ·), table)

/-- The loop that closes both ends of every pipe. -/
def closePipes (pipes : List (Nat × Nat)) (table : Descriptors Stream) : Descriptors Stream :=
  table.closeAll (pipes.flatMap fun ends => [ends.1, ends.2])

/-- Standard input from the pipe in front of a command. -/
def connectInput (pipes : List (Nat × Nat)) (index : Nat) (table : Descriptors Stream) :
    Descriptors Stream :=
  match if 0 < index then pipes[index - 1]? else none with
  | some (reader, _) => table.dup2 reader 0
  | none => table

/-- Standard output to the pipe behind it. -/
def connectOutput (pipes : List (Nat × Nat)) (index total : Nat) (table : Descriptors Stream) :
    Descriptors Stream :=
  match if index + 1 < total then pipes[index]? else none with
  | some (_, writer) => table.dup2 writer 1
  | none => table

/-- A file in the place of a descriptor, if one is asked for; `none` when it cannot be opened. -/
def redirectTo (target : Nat) (wanted : Option (Stream × Bool)) (table : Descriptors Stream) :
    Option (Descriptors Stream) :=
  match wanted with
  | none => some table
  | some (file, opens) => if opens then table.redirect target file else none

/-- `<` of a command. -/
def Command.input (files : Files) (command : Command) : Option (Stream × Bool) :=
  command.inputFile.map fun path => (.input path, files.readable path)

/-- `>` or `>>` of a command. -/
def Command.output (files : Files) (command : Command) : Option (Stream × Bool) :=
  command.outputFile.map fun path =>
    (.output path command.append, files.writable path command.append)

/-- `setup_io`; `none` when the child ends with `_exit(1)`. -/
def setupIo (files : Files) (command : Command) (pipes : List (Nat × Nat)) (index total : Nat)
    (table : Descriptors Stream) : Option (Descriptors Stream) := do
  let table := connectOutput pipes index total (connectInput pipes index table)
  let table ← redirectTo 0 (command.input files) table
  let table ← redirectTo 1 (command.output files) table
  return closePipes pipes table

/-- The loop over `fork`: the descriptors with which each child calls `execvp`, and whether
every `fork` succeeded. -/
def forkCommands (files : Nat → Files) (forks : Nat → Bool) (pipes : List (Nat × Nat)) (total : Nat)
    (table : Descriptors Stream) : Nat → List Command → List (Option (Descriptors Stream)) × Bool
  | _, [] => ([], true)
  | index, command :: commands =>
    if forks index then
      let (children, all) := forkCommands files forks pipes total table (index + 1) commands
      (setupIo (files index) command pipes index total table :: children, all)
    else ([], false)

/-- What a pipeline leaves: whether it was launched, the descriptors of the children and those
of the shell. -/
structure Launched where
  launched : Bool
  children : List (Option (Descriptors Stream))
  table : Descriptors Stream

/-- `executor_run` up to its last `close`. -/
def launch (files : Nat → Files) (forks : Nat → Bool) (commands : List Command)
    (table : Descriptors Stream) : Launched :=
  match openPipes 0 (commands.length - 1) table with
  | (none, table) => ⟨false, [], table⟩
  | (some pipes, table) =>
    let (children, all) := forkCommands files forks pipes commands.length table 0 commands
    if all then ⟨true, children, closePipes pipes table⟩ else ⟨false, children, table⟩

/-- The standard input that a command of a pipeline is to have. -/
def Command.standardInput (command : Command) (index : Nat) (table : Descriptors Stream) :
    Option Stream :=
  match command.inputFile with
  | some path => some (.input path)
  | none => if index = 0 then table.refers 0 else some (.readEnd (index - 1))

/-- The standard output that it is to have. -/
def Command.standardOutput (command : Command) (index total : Nat) (table : Descriptors Stream) :
    Option Stream :=
  match command.outputFile with
  | some path => some (.output path command.append)
  | none => if index + 1 = total then table.refers 1 else some (.writeEnd index)

/-- Standard input and output as the command is to have them, all else as the shell has it. -/
def Command.descriptors (command : Command) (index total : Nat) (table : Descriptors Stream) :
    Descriptors Stream :=
  (table.set 0 (command.standardInput index table)).set 1 (command.standardOutput index total table)

/-- These pipes are open besides what was open before; their numbers begin at `index`. -/
structure PipesOpen (table : Descriptors Stream) (index : Nat) (pipes : List (Nat × Nat))
    (opened : List (Nat × Stream)) (after : Descriptors Stream) : Prop where
  extended : table.Extends opened after
  same : ∀ descriptor, descriptor ∈ (pipes.flatMap fun ends => [ends.1, ends.2]) ↔
    descriptor ∈ opened.map Prod.fst
  readers : ∀ number reader writer, pipes[number]? = some (reader, writer) →
    (reader, Stream.readEnd (index + number)) ∈ opened
  writers : ∀ number reader writer, pipes[number]? = some (reader, writer) →
    (writer, Stream.writeEnd (index + number)) ∈ opened

section Pipes
variable {table after : Descriptors Stream} {index count : Nat} {pipes : List (Nat × Nat)}

theorem openPipes_open (success : openPipes index count table = (some pipes, after)) :
    pipes.length = count ∧ ∃ opened, PipesOpen table index pipes opened after := by
  induction count generalizing index table pipes with
  | zero =>
    cases success
    exact ⟨rfl, [], .refl _, by simp, by simp, by simp⟩
  | succ count ih =>
    rw [openPipes] at success
    split at success
    · cases success
    · rename_i ends between first
      obtain ⟨reader, writer⟩ := ends
      cases rest : openPipes (index + 1) count between with
      | mk others final =>
        rw [rest] at success
        cases others with
        | none => cases success
        | some others =>
          cases success
          obtain ⟨length, opened, again⟩ := ih rest
          have once := Descriptors.Extends.pipe first
          refine ⟨by rw [List.length_cons, length], _, once.trans again.extended, ?_, ?_, ?_⟩
          · intro descriptor
            simp only [List.flatMap_cons, List.mem_append, again.same, List.map_append,
              List.map_cons, List.map_nil,
              List.mem_cons, List.not_mem_nil, or_false]
            tauto
          · intro number reading writing found
            cases number with
            | zero =>
              obtain ⟨rfl, rfl⟩ : reader = reading ∧ writer = writing := by simpa using found
              simp
            | succ number =>
              rw [← Nat.add_assoc, Nat.add_right_comm]
              exact List.mem_append_left
                _ (again.readers number reading writing (by simpa using found))
          · intro number reading writing found
            cases number with
            | zero =>
              obtain ⟨rfl, rfl⟩ : reader = reading ∧ writer = writing := by simpa using found
              simp
            | succ number =>
              rw [← Nat.add_assoc, Nat.add_right_comm]
              exact List.mem_append_left
                _ (again.writers number reading writing (by simpa using found))

/-- The pipes can be opened exactly if there are two descriptors for each. -/
theorem openPipes_isSome (index count : Nat) (table : Descriptors Stream) :
    (openPipes index count table).1.isSome ↔ 2 * count ≤ table.unused := by
  induction count generalizing index table with
  | zero => simp [openPipes]
  | succ count ih =>
    rw [openPipes]
    split
    · rename_i failed
      rw [Descriptors.pipe_eq_none] at failed
      simp only [Option.isSome_none, Bool.false_eq_true, false_iff]
      omega
    · rename_i ends between first
      have fewer := Descriptors.pipe_unused first
      simp only [Option.isSome_map, ih (index + 1) between]
      omega

theorem openPipes_extends (index count : Nat) (table : Descriptors Stream) :
    ∃ opened, table.Extends opened (openPipes index count table).2 := by
  induction count generalizing index table with
  | zero => exact ⟨[], .refl table⟩
  | succ count ih =>
    rw [openPipes]
    split
    · exact ⟨[], .refl table⟩
    · rename_i ends between first
      obtain ⟨opened, again⟩ := ih (index + 1) between
      exact ⟨_, (Descriptors.Extends.pipe first).trans again⟩

/-- Where a call of `pipe` fails behind others, their pipes stay open. -/
theorem openPipes_kept (index count : Nat) (table : Descriptors Stream) :
    (openPipes index count table).2 = table ↔
      count = 0 ∨ table.pipe (.readEnd index) (.writeEnd index) = none := by
  cases count with
  | zero => simp [openPipes]
  | succ count =>
    rw [openPipes]
    cases first : table.pipe (.readEnd index) (.writeEnd index) with
    | none => simp
    | some opened =>
      obtain ⟨⟨reader, writer⟩, between⟩ := opened
      obtain ⟨more, again⟩ := openPipes_extends (index + 1) count between
      have extended := (Descriptors.Extends.pipe first).trans again
      have changed := extended.ne_of_opened (List.mem_append_right more List.mem_cons_self)
      simpa using changed

end Pipes

section Children
variable {table after child : Descriptors Stream} {files : Files} {command : Command}
  {opened : List (Nat × Stream)}
  {first second : Stream}

theorem redirectTo_extends {target : Nat} {wanted : Option (Stream × Bool)}
    (extended : table.Extends opened after) (used : table.refers target = some first)
    (redirected : redirectTo target wanted after = some child) :
    (table.set target (some (wanted.elim first Prod.fst))).Extends opened child := by
  unfold redirectTo at redirected
  split at redirected
  · cases redirected
    rw [Option.elim_none, Descriptors.set_same used]
    exact extended
  · split at redirected
    · rw [Descriptors.redirect_eq_some (extended.before used).2 redirected]
      exact extended.set used _
    · cases redirected

variable {pipes : List (Nat × Nat)} {index total : Nat}

theorem connectInput_extends (pipesOpen : PipesOpen table 0 pipes opened after)
    (length : pipes.length = total - 1)
    (inside : index < total) (input : table.refers 0 = some first) :
    (table.set 0 (some (if index = 0 then first else .readEnd (index - 1)))).Extends opened
      (connectInput pipes index after) := by
  unfold connectInput
  by_cases head : index = 0
  · simpa [head, Descriptors.set_same input] using pipesOpen.extended
  · have exists_pipe : index - 1 < pipes.length := by omega
    have found := List.getElem?_eq_getElem exists_pipe
    have member := pipesOpen.readers (index - 1) pipes[index - 1].1 pipes[index - 1].2 found
    rw [Nat.zero_add] at member
    rw [if_pos (Nat.pos_of_ne_zero head), found, if_neg head]
    dsimp only
    rw [Descriptors.dup2_refers (pipesOpen.extended.refers _ member)]
    exact pipesOpen.extended.set input _

theorem connectOutput_extends {before other : Descriptors Stream}
    (pipesOpen : PipesOpen table 0 pipes opened after)
    (length : pipes.length = total - 1) (inside : index < total)
    (extended : before.Extends opened other) (output : before.refers 1 = some second) :
    (before.set 1 (some (if index + 1 = total then second else .writeEnd index))).Extends opened
      (connectOutput pipes index total other) := by
  unfold connectOutput
  by_cases last : index + 1 = total
  · simpa [last, Descriptors.set_same output] using extended
  · have exists_pipe : index < pipes.length := by omega
    have found := List.getElem?_eq_getElem exists_pipe
    have member := pipesOpen.writers index pipes[index].1 pipes[index].2 found
    rw [Nat.zero_add] at member
    have further : index + 1 < total := by omega
    rw [if_pos further, found, if_neg last]
    dsimp only
    rw [Descriptors.dup2_refers (extended.refers _ member)]
    exact extended.set output _

theorem setupIo_descriptors (pipesOpen : PipesOpen table 0 pipes opened after)
    (length : pipes.length = total - 1)
    (inside : index < total) (input : table.refers 0 = some first)
    (output : table.refers 1 = some second)
    (started : setupIo files command pipes index total after = some child) :
    child = command.descriptors index total table := by
  simp only [setupIo, Option.bind_eq_bind, Option.bind_eq_some_iff, Option.pure_def,
    Option.some.injEq] at started
  obtain ⟨between, reads, final, writes, rfl⟩ := started
  have connected := connectInput_extends pipesOpen length inside input
  have connected := connectOutput_extends pipesOpen length inside connected
    (by rw [Descriptors.set_refers, if_neg (by decide)]; exact output)
  have redirected := redirectTo_extends connected
    (by rw [Descriptors.set_refers, if_neg (by decide), Descriptors.set_refers, if_pos rfl]) reads
  have redirected := redirectTo_extends redirected
    (by rw [Descriptors.set_refers, if_neg (by decide), Descriptors.set_refers, if_pos rfl]) writes
  rw [closePipes, redirected.closeAll pipesOpen.same]
  ext1
  · funext descriptor
    simp only [Command.descriptors, Descriptors.set_refers]
    by_cases is_output : descriptor = 1
    · rw [if_pos is_output, if_pos is_output, Command.standardOutput, Command.output, output]
      cases command.outputFile with
      | none => simp only [Option.map_none, Option.elim_none]; split <;> rfl
      | some path => rfl
    · rw [if_neg is_output, if_neg is_output]
      by_cases is_input : descriptor = 0
      · rw [if_pos is_input, if_neg is_output, if_pos is_input, Command.standardInput,
          Command.input, input]
        cases command.inputFile with
        | none => simp only [Option.map_none, Option.elim_none]; split <;> rfl
        | some path => rfl
      · rw [if_neg is_input, if_neg is_input, if_neg is_output, if_neg is_input]
  · rfl

/-- Only a redirection can keep a command from being executed. -/
theorem setupIo_starts (files : Files) (pipes : List (Nat × Nat)) (index total : Nat)
    (after : Descriptors Stream)
    (no_input : command.inputFile = none) (no_output : command.outputFile = none) :
    (setupIo files command pipes index total after).isSome := by
  simp [setupIo, redirectTo, Command.input, Command.output, no_input, no_output]

end Children

section Forks
variable {files : Nat → Files} {forks : Nat → Bool} {pipes : List (Nat × Nat)}
  {table : Descriptors Stream}
  {total : Nat}

theorem forkCommands_child (start index : Nat) {commands : List Command}
    {child : Option (Descriptors Stream)}
    (found : (forkCommands files forks pipes total table start commands).1[index]? = some child) :
    ∃ command, commands[index]? = some command ∧
      child = setupIo (files (start + index)) command pipes (start + index) total table := by
  induction commands generalizing start index with
  | nil => simp [forkCommands] at found
  | cons command commands ih =>
    rw [forkCommands] at found
    split at found
    · cases index with
      | zero =>
        exact ⟨command, rfl, by simpa using found.symm⟩
      | succ index =>
        obtain ⟨other, listed, same⟩ := ih (start + 1) index (by simpa using found)
        refine ⟨other, by simpa using listed, ?_⟩
        rw [same, Nat.add_right_comm start 1 index, Nat.add_assoc]
    · simp at found

theorem forkCommands_all (start : Nat) {commands : List Command}
    (all : (forkCommands files forks pipes total table start commands).2 = true) :
    (forkCommands files forks pipes total table start commands).1.length = commands.length := by
  induction commands generalizing start with
  | nil => rfl
  | cons command commands ih =>
    rw [forkCommands] at all ⊢
    split
    · rename_i forked
      rw [if_pos forked] at all
      rw [List.length_cons, List.length_cons, ih (start + 1) all]
    · rename_i failed
      rw [if_neg failed] at all
      cases all

theorem forkCommands_forked (start : Nat) (commands : List Command) :
    (forkCommands files forks pipes total table start commands).2 = true ↔
      ∀ index < commands.length, forks (start + index) = true := by
  induction commands generalizing start with
  | nil => simp [forkCommands]
  | cons command commands ih =>
    rw [forkCommands, List.length_cons, Nat.forall_lt_succ_left]
    split
    · rename_i forked
      simp [forked, ih (start + 1), Nat.add_assoc, Nat.add_comm 1]
    · rename_i failed
      simp [failed]

end Forks

/-- A process has an end of a pipe exactly where the pipeline needs it: nobody else can keep the
reader of a pipe waiting. -/
structure Command.OnlyOwnEnds (command : Command) (index total : Nat) (child : Descriptors Stream) :
    Prop where
  writers : ∀ descriptor number, child.refers descriptor = some (.writeEnd number) ↔
    descriptor = 1 ∧ number = index ∧ index + 1 < total ∧ command.outputFile = none
  readers : ∀ descriptor number, child.refers descriptor = some (.readEnd number) ↔
    descriptor = 0 ∧ number + 1 = index ∧ command.inputFile = none

/-- The shell itself has no end of a pipe. -/
def NoPipes (table : Descriptors Stream) : Prop :=
  ∀ descriptor number, table.refers descriptor ≠ some (.readEnd number) ∧
    table.refers descriptor ≠ some (.writeEnd number)

section Launch
variable {table : Descriptors Stream} {command : Command} {index total : Nat}
  {first second : Stream}

theorem Command.standardInput_ne (input : NoPipes table) (number : Nat) :
    command.standardInput index table ≠ some (.writeEnd number) := by
  unfold Command.standardInput
  split
  · simp
  · split
    · exact (input 0 number).2
    · simp

theorem Command.standardOutput_ne (output : NoPipes table) (number : Nat) :
    command.standardOutput index total table ≠ some (.readEnd number) := by
  unfold Command.standardOutput
  split
  · simp
  · split
    · exact (output 1 number).1
    · simp

theorem Command.standardInput_reader (input : NoPipes table) (number : Nat) :
    command.standardInput index table = some (.readEnd number) ↔ number + 1 = index ∧
      command.inputFile = none := by
  unfold Command.standardInput
  cases command.inputFile with
  | some path => simp
  | none =>
    dsimp only
    split
    · rename_i head
      simpa [head] using (input 0 number).1
    · simp only [Option.some.injEq, Stream.readEnd.injEq, and_true]
      omega

theorem Command.standardOutput_writer (output : NoPipes table)
    (inside : index < total) (number : Nat) :
    command.standardOutput index total table = some (.writeEnd number) ↔
      number = index ∧ index + 1 < total ∧ command.outputFile = none := by
  unfold Command.standardOutput
  cases command.outputFile with
  | some path => simp
  | none =>
    dsimp only
    split
    · rename_i last
      simpa [last] using (output 1 number).2
    · simp only [Option.some.injEq, Stream.writeEnd.injEq, and_true]
      omega

theorem Command.descriptors_ends (none_open : NoPipes table) (inside : index < total) :
    command.OnlyOwnEnds index total (command.descriptors index total table) := by
  constructor
  · intro descriptor number
    simp only [Command.descriptors, Descriptors.set_refers]
    split
    · rename_i is_output
      simp [Command.standardOutput_writer none_open inside, is_output]
    · rename_i other
      split
      · simpa [other] using Command.standardInput_ne none_open number
      · simpa [other] using (none_open descriptor number).2
  · intro descriptor number
    simp only [Command.descriptors, Descriptors.set_refers]
    split
    · rename_i is_output
      simpa [is_output] using Command.standardOutput_ne none_open number
    · split
      · rename_i is_input
        simp [Command.standardInput_reader none_open, is_input]
      · rename_i other
        simpa [other] using (none_open descriptor number).1

variable {files : Nat → Files} {forks : Nat → Bool} {commands : List Command}

theorem launch_child {child : Option (Descriptors Stream)} (input : table.refers 0 = some first)
    (output : table.refers 1 = some second) (found : commands[index]? = some command)
    (started : (launch files forks commands table).children[index]? = some child) :
    (∀ final, child = some final → final = command.descriptors index commands.length table) ∧
      (command.inputFile = none → command.outputFile = none → child.isSome) := by
  unfold launch at started
  split at started
  · simp at started
  · rename_i pipes after success
    obtain ⟨length, opened, pipesOpen⟩ := openPipes_open success
    have forked : (forkCommands files forks pipes commands.length after 0 commands).1[index]? =
        some child := by
      dsimp only at started
      split at started <;> exact started
    obtain ⟨other, listed, same⟩ := forkCommands_child 0 index forked
    obtain rfl : command = other := by simpa [found] using listed
    obtain ⟨inside, _⟩ := List.getElem?_eq_some_iff.mp found
    rw [Nat.zero_add] at same
    constructor
    · rintro final rfl
      exact setupIo_descriptors pipesOpen length inside input output same.symm
    · intro no_input no_output
      rw [same]
      exact setupIo_starts _ _ _ _ _ no_input no_output

theorem launch_all (launched : (launch files forks commands table).launched = true) :
    (launch files forks commands table).children.length = commands.length := by
  unfold launch at launched ⊢
  split
  · rename_i failed
    simp [failed] at launched
  · rename_i pipes after success
    rw [success] at launched
    dsimp only at launched ⊢
    split
    · rename_i all
      exact forkCommands_all 0 all
    · rename_i failed
      rw [if_neg failed] at launched
      cases launched

theorem launch_launched (files : Nat → Files) (forks : Nat → Bool) (commands : List Command)
    (table : Descriptors Stream) :
    (launch files forks commands table).launched = true ↔
      2 * (commands.length - 1) ≤ table.unused ∧ ∀ index < commands.length, forks index = true := by
  rw [← openPipes_isSome 0]
  unfold launch
  split
  · rename_i failed
    simp [failed]
  · rename_i pipes after success
    have forked := @forkCommands_forked files forks pipes after commands.length 0 commands
    simp only [Nat.zero_add] at forked
    rw [← forked, success]
    dsimp only
    split
    · rename_i all
      simp [all]
    · rename_i failed
      simp [failed]

theorem launch_extends (files : Nat → Files) (forks : Nat → Bool) (commands : List Command)
    (table : Descriptors Stream) :
    ∃ opened, table.Extends opened (launch files forks commands table).table := by
  have extended := openPipes_extends 0 (commands.length - 1) table
  unfold launch
  split
  · rename_i failed
    rwa [failed] at extended
  · rename_i pipes after success
    dsimp only
    split
    · obtain ⟨_, opened, pipesOpen⟩ := openPipes_open success
      rw [closePipes, pipesOpen.extended.closeAll pipesOpen.same]
      exact ⟨[], .refl table⟩
    · rwa [success] at extended

/-- The shell has its own descriptors back, unless it gave a pipeline up with pipes open. -/
theorem launch_kept (files : Nat → Files) (forks : Nat → Bool) (commands : List Command)
    (table : Descriptors Stream) :
    (launch files forks commands table).table = table ↔
      (launch files forks commands table).launched = true ∨ commands.length ≤ 1 ∨
        table.pipe (.readEnd 0) (.writeEnd 0) = none := by
  have kept := openPipes_kept 0 (commands.length - 1) table
  have short : commands.length - 1 = 0 ↔ commands.length ≤ 1 := by omega
  unfold launch
  split
  · rename_i failed
    rw [failed, short] at kept
    simpa using kept
  · rename_i pipes after success
    obtain ⟨_, opened, pipesOpen⟩ := openPipes_open success
    dsimp only
    split
    · rw [closePipes, pipesOpen.extended.closeAll pipesOpen.same]
      simp
    · rw [success, short] at kept
      simpa using kept

end Launch

/-- A pipeline is launched, with all its commands, exactly if there are descriptors for its pipes
and every `fork` succeeds. Every command that is executed has the standard input and output that
its place and its redirections say, whatever else the shell has open, and no end of a pipe besides.
-/
theorem pipeline_wired (files : Nat → Files) (forks : Nat → Bool) (commands : List Command)
    (table : Descriptors Stream) (none_open : NoPipes table) (input : table.refers 0 ≠ none)
    (output : table.refers 1 ≠ none) :
    ((launch files forks commands table).launched = true ↔
      2 * (commands.length - 1) ≤ table.unused ∧ ∀ index < commands.length, forks index = true) ∧
    ((launch files forks commands table).launched = true →
      (launch files forks commands table).children.length = commands.length) ∧
    (∀ (index : Nat) (command : Command) (child : Option (Descriptors Stream)),
      commands[index]? = some command →
      (launch files forks commands table).children[index]? = some child →
      (∀ final, child = some final → final = command.descriptors index commands.length table ∧
        command.OnlyOwnEnds index commands.length final) ∧
      (command.inputFile = none → command.outputFile = none → child.isSome)) ∧
    ((launch files forks commands table).table = table ↔
      (launch files forks commands table).launched = true ∨ commands.length ≤ 1 ∨
        table.pipe (.readEnd 0) (.writeEnd 0) = none) := by
  obtain ⟨first, used_input⟩ := Option.ne_none_iff_exists'.mp input
  obtain ⟨second, used_output⟩ := Option.ne_none_iff_exists'.mp output
  refine ⟨launch_launched files forks commands table, launch_all, ?_,
    launch_kept files forks commands table⟩
  intro index command child found started
  obtain ⟨wired, starts⟩ := launch_child used_input used_output found started
  obtain ⟨inside, _⟩ := List.getElem?_eq_some_iff.mp found
  refine ⟨?_, starts⟩
  intro final same
  obtain rfl := wired final same
  exact ⟨rfl, Command.descriptors_ends none_open inside⟩

/-- A shell with its three standard descriptors. -/
def terminal : Descriptors Stream :=
  ⟨fun descriptor => if descriptor < 3 then some (.inherited descriptor) else none, 16⟩

theorem terminal_noPipes : NoPipes terminal := by
  intro descriptor number
  dsimp only [terminal]
  split <;> simp

/-- `sort < words | uniq | wc > total`. -/
def countWords : List Command :=
  [⟨[text "sort"], some (text "words"), none, false, false⟩,
    ⟨[text "uniq"], none, none, false, false⟩,
    ⟨[text "wc"], none, some (text "total"), false, false⟩]

/-- Every file can be opened. -/
def Files.all : Files := ⟨fun _ => true, fun _ _ => true⟩

theorem pipeline_wired_three :
    (launch (fun _ => .all) (fun _ => true) countWords terminal).children.length = 3 ∧
      (launch (fun _ => .all) (fun _ => true) countWords terminal).table = terminal := by
  have wired := pipeline_wired (fun _ => .all) (fun _ => true) countWords terminal terminal_noPipes
    (by decide)
    (by decide)
  have launched := wired.1.mpr ⟨by decide, fun _ _ => rfl⟩
  exact ⟨wired.2.1 launched, wired.2.2.2.mpr (.inl launched)⟩

end LinuxCLearning.MiniShell
