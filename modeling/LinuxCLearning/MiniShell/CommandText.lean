import LinuxCLearning.MiniShell.Executor
import LinuxCLearning.MiniShell.Capacity

/-! The room in `cmd_str`, call by call. `strcat` appends the separators whatever room there
is, `strncat` as much of an argument as fits. -/

namespace LinuxCLearning.MiniShell

/-- A call that appends to `cmd_str`. -/
inductive Append where
  | strcat (source : Bytes)
  | strncat (source : Bytes)
  deriving DecidableEq

namespace Append

def source : Append → Bytes
  | .strcat source => source
  | .strncat source => source

/-- `MAX_LINE - strlen(cmd_str) - 1`, as a `size_t`. -/
def limit (buffer : Bytes) : Nat := (4096 - UInt64.ofNat buffer.length - 1).toNat

/-- What a call stores behind the string. -/
def stored (buffer : Bytes) : Append → Bytes
  | .strcat source => source
  | .strncat source => source.take (limit buffer)

/-- The string after a call; `none` when it and its terminator do not fit into the array. -/
def run (buffer : Bytes) (append : Append) : Option Bytes :=
  if (buffer ++ append.stored buffer).length < maxLine then
    some (buffer ++ append.stored buffer) else none

end Append

/-- The separator before all elements but the first one. -/
def separator (index : Nat) (between : Bytes) : List Append :=
  if index > 0 then [.strcat between] else []

/-- The calls that build `cmd_str` in `executor_run`. -/
def appends (pipeline : Pipeline) : List Append :=
  (pipeline.commands.zipIdx.flatMap fun command =>
    separator command.2 (text " | ") ++ command.1.argv.zipIdx.flatMap fun argument =>
      separator argument.2 (text " ") ++ [.strncat argument.1]) ++
    if pipeline.background then [.strncat (text " &")] else []

/-- After every one of the calls the string is shorter than `MAX_LINE`. -/
def StaysInside (calls : List Append) (buffer : Bytes) : Prop :=
  ∀ front, front <+: calls → ∃ string, front.foldlM Append.run buffer = some string ∧
    string.length < maxLine

/-- The length of the text if nothing of it was cut. -/
def uncutLength (calls : List Append) : Nat := (calls.flatMap Append.source).length

/-- The uncut text up to and including each separator is shorter than `MAX_LINE`. -/
def SeparatorsFit (calls : List Append) : Prop :=
  ∀ front between rest, calls = front ++ .strcat between :: rest →
    uncutLength front + between.length < maxLine

section Calls

theorem limit_eq {buffer : Bytes} (inside : buffer.length < maxLine) :
    Append.limit buffer = maxLine - 1 - buffer.length := by
  have limit : maxLine = 4096 := rfl
  have small : (UInt64.ofNat buffer.length).toNat = buffer.length :=
    UInt64.toNat_ofNat_of_lt' (by rw [UInt64.size]; omega)
  have size : (4096 : UInt64).toNat = 4096 := rfl
  have one : (1 : UInt64).toNat = 1 := rfl
  rw [Append.limit, UInt64.toNat_sub, UInt64.toNat_sub, small, size, one]
  omega

/-- `strncat` never leaves the array. -/
theorem run_strncat {buffer : Bytes} (inside : buffer.length < maxLine) (source : Bytes) :
    ∃ string, Append.run buffer (.strncat source) = some string ∧
      string.length = min (buffer.length + source.length) (maxLine - 1) := by
  have limit : maxLine = 4096 := rfl
  have length : (buffer ++ Append.stored buffer (.strncat source)).length =
      min (buffer.length + source.length) (maxLine - 1) := by
    rw [List.length_append, Append.stored, List.length_take, limit_eq inside]
    omega
  refine ⟨_, if_pos ?_, length⟩
  rw [length]
  omega

/-- `strcat` leaves the array when what it appends does not fit. -/
theorem run_strcat (buffer source : Bytes) :
    Append.run buffer (.strcat source) =
      if buffer.length + source.length < maxLine then some (buffer ++ source) else none := by
  rw [Append.run, Append.stored, List.length_append]

theorem staysInside_nil {buffer : Bytes} (inside : buffer.length < maxLine) :
    StaysInside [] buffer := by
  intro front within
  rw [List.prefix_nil.mp within]
  exact ⟨buffer, rfl, inside⟩

theorem staysInside_cons {buffer string : Bytes} {call : Append} {calls : List Append}
    (inside : buffer.length < maxLine) (ran : call.run buffer = some string) :
      StaysInside (call :: calls) buffer ↔ StaysInside calls string := by
  constructor
  · intro stays front within
    obtain ⟨final, reached, short⟩ :=
      stays (call :: front) (List.cons_prefix_cons.mpr ⟨rfl, within⟩)
    rw [List.foldlM_cons, ran] at reached
    exact ⟨final, reached, short⟩
  · intro stays front within
    cases front with
    | nil => exact ⟨buffer, rfl, inside⟩
    | cons first front =>
      obtain ⟨rfl, others⟩ := List.cons_prefix_cons.mp within
      obtain ⟨final, reached, short⟩ := stays front others
      exact ⟨final, by rw [List.foldlM_cons, ran]; exact reached, short⟩

theorem uncutLength_cons (call : Append) (calls : List Append) :
    uncutLength (call :: calls) = call.source.length + uncutLength calls := by
  rw [uncutLength, List.flatMap_cons, List.length_append]
  rfl

/-- Each separator of the calls fits behind a text and what is uncut before it. -/
def FitsBehind (uncut : Nat) (calls : List Append) : Prop :=
  ∀ front between rest, calls = front ++ .strcat between :: rest →
    uncut + uncutLength front + between.length < maxLine

theorem fitsBehind_later {uncut : Nat} {call : Append} {calls : List Append} :
    FitsBehind (uncut + call.source.length) calls ↔
      ∀ front between rest, front ≠ [] → call :: calls = front ++ .strcat between :: rest →
        uncut + uncutLength front + between.length < maxLine := by
  constructor
  · intro fit front between rest some_front same
    obtain ⟨first, front, rfl⟩ := List.exists_cons_of_ne_nil some_front
    obtain ⟨rfl, tail⟩ := List.cons.inj same
    have bound := fit front between rest tail
    rw [uncutLength_cons]
    omega
  · intro fit front between rest same
    have bound := fit (call :: front) between rest (List.cons_ne_nil _ _) (by rw [same]; rfl)
    rw [uncutLength_cons] at bound
    omega

theorem fitsBehind_strncat {uncut : Nat} {source : Bytes} {calls : List Append} :
    FitsBehind uncut (.strncat source :: calls) ↔ FitsBehind (uncut + source.length) calls := by
  have later := @fitsBehind_later uncut (.strncat source) calls
  constructor
  · exact fun fit => later.mpr fun front between rest _ same => fit front between rest same
  · intro fit front between rest same
    refine later.mp fit front between rest ?_ same
    rintro rfl
    cases (List.cons.inj same).1

theorem fitsBehind_strcat {uncut : Nat} {source : Bytes} {calls : List Append} :
    FitsBehind uncut (.strcat source :: calls) ↔
      uncut + source.length < maxLine ∧ FitsBehind (uncut + source.length) calls := by
  have later := @fitsBehind_later uncut (.strcat source) calls
  constructor
  · intro fit
    exact ⟨fit [] source calls rfl, later.mpr fun front between rest _ same =>
      fit front between rest same⟩
  · rintro ⟨first, fit⟩ front between rest same
    by_cases nothing : front = []
    · subst nothing
      obtain ⟨⟨rfl⟩, rfl⟩ := List.cons.inj same
      exact first
    · exact later.mp fit front between rest nothing same

/-- The calls go on inside the array exactly if each separator fits behind the uncut text,
of which the array holds as much as it can. -/
theorem staysInside_iff {calls : List Append}
    (some_separators : ∀ between, .strcat between ∈ calls → between ≠ [])
    {buffer : Bytes} {uncut : Nat} (held : buffer.length = min uncut (maxLine - 1)) :
    StaysInside calls buffer ↔ FitsBehind uncut calls := by
  have limit : maxLine = 4096 := rfl
  have inside : buffer.length < maxLine := by omega
  induction calls generalizing buffer uncut with
  | nil =>
    refine iff_of_true (staysInside_nil inside) ?_
    intro front between rest same
    simp at same
  | cons call calls ih =>
    have others : ∀ between, .strcat between ∈ calls → between ≠ [] :=
      fun between member => some_separators between (List.mem_cons_of_mem call member)
    cases call with
    | strncat source =>
      obtain ⟨string, ran, length⟩ := run_strncat inside source
      have held : string.length = min (uncut + source.length) (maxLine - 1) := by omega
      rw [staysInside_cons inside ran, fitsBehind_strncat]
      exact ih others held (by omega)
    | strcat source =>
      have positive := List.length_pos_iff.mpr (some_separators source List.mem_cons_self)
      rw [fitsBehind_strcat]
      by_cases fits : uncut + source.length < maxLine
      · have ran : Append.run buffer (.strcat source) = some (buffer ++ source) := by
          rw [run_strcat, if_pos (by omega)]
        have held : (buffer ++ source).length = min (uncut + source.length) (maxLine - 1) := by
          rw [List.length_append]
          omega
        rw [staysInside_cons inside ran, and_iff_right fits]
        exact ih others held (by omega)
      · refine iff_of_false ?_ fun fit => fits fit.1
        intro stays
        obtain ⟨final, reached, -⟩ := stays [.strcat source] (List.prefix_append [_] calls)
        rw [List.foldlM_cons, run_strcat, if_neg (by omega)] at reached
        cases reached

theorem run_inside {buffer string : Bytes} {call : Append} (ran : call.run buffer = some string) :
    string = buffer ++ call.stored buffer ∧ string.length < maxLine := by
  unfold Append.run at ran
  split at ran
  · cases ran
    exact ⟨rfl, ‹_›⟩
  · cases ran

theorem foldlM_inside {calls : List Append} {buffer string : Bytes}
    (inside : buffer.length < maxLine)
    (ran : calls.foldlM Append.run buffer = some string) : string.length < maxLine := by
  induction calls generalizing buffer with
  | nil =>
    cases ran
    exact inside
  | cons call calls ih =>
    rw [List.foldlM_cons] at ran
    obtain ⟨next, stepped, further⟩ := Option.bind_eq_some_iff.mp ran
    exact ih (run_inside stepped).2 further

/-- Where the calls for each item do to the string what a step does, the calls for all of
them do what the steps do. -/
theorem foldl_of_foldlM {α : Type} {calls : α → List Append} {step : Bytes → α → Bytes}
    (each : ∀ item buffer string, buffer.length < maxLine →
      (calls item).foldlM Append.run buffer = some string → step buffer item = string)
    {items : List α} {buffer string : Bytes} (inside : buffer.length < maxLine)
    (ran : (items.flatMap calls).foldlM Append.run buffer = some string) :
      items.foldl step buffer = string := by
  induction items generalizing buffer with
  | nil =>
    cases ran
    rfl
  | cons item items ih =>
    rw [List.flatMap_cons, List.foldlM_append] at ran
    obtain ⟨next, stepped, further⟩ := Option.bind_eq_some_iff.mp ran
    rw [List.foldl_cons, each item buffer next inside stepped]
    exact ih (foldlM_inside inside stepped) further

theorem separator_ran {index : Nat} {between buffer string : Bytes} {calls : List Append}
    (inside : buffer.length < maxLine)
    (ran : (separator index between ++ calls).foldlM Append.run buffer = some string) :
    (if index > 0 then buffer ++ between else buffer).length < maxLine ∧
      calls.foldlM Append.run (if index > 0 then buffer ++ between else buffer) = some string := by
  unfold separator at ran
  split
  · rename_i later
    rw [if_pos later, List.singleton_append, List.foldlM_cons] at ran
    obtain ⟨next, stepped, further⟩ := Option.bind_eq_some_iff.mp ran
    obtain ⟨rfl, short⟩ := run_inside stepped
    exact ⟨short, further⟩
  · rename_i first
    rw [if_neg first, List.nil_append] at ran
    exact ⟨inside, ran⟩

theorem strncat_ran {buffer string source : Bytes} (inside : buffer.length < maxLine)
    (ran : Append.run buffer (.strncat source) = some string) :
    buffer ++ source.take (maxLine - buffer.length - 1) = string := by
  rw [(run_inside ran).1, Append.stored, limit_eq inside, Nat.sub_right_comm]

theorem appendArguments_ran {argv : List Bytes} {buffer string : Bytes}
    (inside : buffer.length < maxLine)
    (ran : (argv.zipIdx.flatMap fun argument => separator argument.2 (text " ") ++
      [.strncat argument.1]).foldlM
      Append.run buffer = some string) : appendArguments buffer argv = string := by
  refine foldl_of_foldlM ?_ inside ran
  intro argument buffer string inside ran
  obtain ⟨short, appended⟩ := separator_ran inside ran
  rw [List.foldlM_cons] at appended
  obtain ⟨next, stepped, further⟩ := Option.bind_eq_some_iff.mp appended
  cases further
  exact strncat_ran short stepped

/-- The text of a job is what the calls leave in `cmd_str`. -/
theorem commandText_ran {pipeline : Pipeline} {string : Bytes}
    (ran : (appends pipeline).foldlM Append.run [] = some string) :
      commandText pipeline = string := by
  have start : ([] : Bytes).length < maxLine := by decide
  rw [appends, List.foldlM_append] at ran
  obtain ⟨joined, built, flagged⟩ := Option.bind_eq_some_iff.mp ran
  have inside := foldlM_inside start built
  have same : pipeline.commands.zipIdx.foldl (fun buffer command =>
      appendArguments (if command.2 > 0 then buffer ++ text " | " else buffer) command.1.argv) [] =
          joined := by
    refine foldl_of_foldlM ?_ start built
    intro command buffer string inside ran
    obtain ⟨short, appended⟩ := separator_ran inside ran
    exact appendArguments_ran short appended
  have text_eq : commandText pipeline =
      if pipeline.background then joined ++ (text " &").take (maxLine - joined.length - 1)
      else joined := by
    rw [← same]
    rfl
  rw [text_eq]
  split
  · rename_i background
    rw [if_pos background, List.foldlM_cons] at flagged
    obtain ⟨next, stepped, further⟩ := Option.bind_eq_some_iff.mp flagged
    cases further
    exact strncat_ran inside stepped
  · rename_i foreground
    rw [if_neg foreground] at flagged
    cases flagged
    rfl

end Calls

section Pipelines

theorem separator_text {index : Nat} {between source : Bytes}
    (member : .strcat source ∈ separator index between) :
    source = between := by
  unfold separator at member
  split at member
  · exact Append.strcat.inj (List.mem_singleton.mp member)
  · cases member

theorem appends_separators (pipeline : Pipeline) :
    ∀ between, .strcat between ∈ appends pipeline → between ≠ [] := by
  intro between member
  rw [appends, List.mem_append] at member
  rcases member with inner | flag
  · obtain ⟨command, -, inner⟩ := List.mem_flatMap.mp inner
    rcases List.mem_append.mp inner with pipe | arguments
    · rw [separator_text pipe]
      decide
    · obtain ⟨argument, -, inner⟩ := List.mem_flatMap.mp arguments
      rcases List.mem_append.mp inner with space | copied
      · rw [separator_text space]
        decide
      · cases List.mem_singleton.mp copied
  · split at flag
    · cases List.mem_singleton.mp flag
    · cases flag

/-- The job string of a pipeline stays inside `cmd_str` after every call exactly if each
separator fits behind the uncut text before it. -/
theorem command_text_inside_iff (pipeline : Pipeline) :
    StaysInside (appends pipeline) [] ↔ SeparatorsFit (appends pipeline) := by
  have start : ([] : Bytes).length = min 0 (maxLine - 1) := rfl
  rw [staysInside_iff (appends_separators pipeline) start, FitsBehind, SeparatorsFit]
  simp only [Nat.zero_add]

/-- A word of letters. -/
def letters (count : Nat) : Bytes := List.replicate count 97

theorem letters_length (count : Nat) : (letters count).length = count := List.length_replicate

theorem letters_only {count : Nat} {byte : UInt8} (member : byte ∈ letters count) : byte = 97 :=
  List.eq_of_mem_replicate member

theorem letters_nulFree (count : Nat) : 0 ∉ letters count := replicate_nulFree (by decide) count

theorem letters_solid {count : Nat} (positive : 0 < count) (short : count < maxLine) :
    Solid (letters count) := by
  refine ⟨List.length_pos_iff.mp ((letters_length count).symm ▸ positive), ?_, ?_⟩
  · rwa [letters_length]
  · intro byte member
    rw [letters_only member]
    rfl

theorem letters_no_redirection (count : Nat) : ¬isRedirection (letters count) := by
  have absent {byte : UInt8} {rest : Bytes} (other : byte ≠ 97) : letters count ≠ byte :: rest :=
    fun same => other (letters_only (same ▸ List.mem_cons_self))
  rintro (same | same | same)
  · exact absent (by decide) same
  · exact absent (by decide) same
  · exact absent (by decide) same

theorem almost_full : 0 < 4091 ∧ 4091 < maxLine := by decide

theorem almost_full_line : 4095 < maxLine := by decide

/-- A word that leaves four bytes of `cmd_str`. -/
def longWord : PlainWord :=
  ⟨⟨letters 4091, letters_nulFree 4091⟩, letters_solid almost_full.1 almost_full.2,
    letters_no_redirection 4091⟩

theorem crowdedLine_length :
    ([124].intercalate [letters 4091, text "a", text "a"]).length = 4095 := by
  rw [List.intercalate_cons_of_ne_nil (List.cons_ne_nil _ _)]
  simp only [List.length_append, letters_length]
  rfl

theorem crowdedLine_laid :
    List.Forall₂ Laid [[longWord], [letterWord], [letterWord]]
      [letters 4091, text "a", text "a"] := by
  have nothing : Blank [] := by simp [Blank]
  have spelled : Spells [letters 4091] ([] ++ letters 4091 ++ []) := .last nothing nothing
  rw [List.nil_append, List.append_nil] at spelled
  exact .cons spelled (letter_laid 2)

theorem crowdedLine_short :
    ([124].intercalate [letters 4091, text "a", text "a"]).length < maxLine :=
  crowdedLine_length.trans_lt almost_full_line

/-- A line of 4095 bytes with three commands. -/
def crowdedLine : PlainLine :=
  ⟨[[longWord], [letterWord], [letterWord]], [letters 4091, text "a", text "a"], crowdedLine_laid,
    List.cons_ne_nil _ _, crowdedLine_short⟩

/-- The second pipe is written behind the end of `cmd_str`. -/
theorem second_separator_overruns :
    parseLine .none crowdedLine.written = .success ⟨[⟨[letters 4091], none, none, false, false⟩,
        ⟨[text "a"], none, none, false, false⟩, ⟨[text "a"], none, none, false, false⟩], false⟩ ∧
      ¬ StaysInside
        (appends ⟨[⟨[letters 4091], none, none, false, false⟩,
          ⟨[text "a"], none, none, false, false⟩,
        ⟨[text "a"], none, none, false, false⟩], false⟩) [] := by
  constructor
  · have commands : crowdedLine.commands = [[longWord], [letterWord], [letterWord]] := rfl
    have some_command : crowdedLine.commands ≠ [] := commands ▸ List.cons_ne_nil _ _
    rw [parseLine_written, if_neg some_command]
    rfl
  · intro stays
    rw [staysInside_iff (appends_separators _)
      (show ([] : Bytes).length = min 0 (maxLine - 1) from rfl)] at stays
    have fits := stays [.strncat (letters 4091), .strcat (text " | "), .strncat (text "a")]
      (text " | ")
      [.strncat (text "a")] rfl
    simp only [uncutLength_cons, Append.source, letters_length] at fits
    exact absurd fits (by decide)

end Pipelines

end LinuxCLearning.MiniShell
