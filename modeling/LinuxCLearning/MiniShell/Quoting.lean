import LinuxCLearning.MiniShell.Tokens

/-! Arguments in single quotes. The quotes are gone when variables are expanded and
redirections are looked for, and pipes are split before they are seen. -/

namespace LinuxCLearning.MiniShell
variable {env : Environment}

/-- The inside of quotes: a single quote closes them, is escaped, and opens them again. -/
def quotedBody (argument : Bytes) : Bytes :=
  argument.flatMap fun byte => if byte = 39 then [39, 92, 39, 39] else [byte]

def singleQuoted (argument : Bytes) : Bytes := 39 :: (quotedBody argument ++ [39])

/-- The line that gives these arguments in single quotes. -/
def quotedLine (arguments : List Bytes) : Bytes := [32].intercalate (arguments.map singleQuoted)

section Line
variable {argument : Bytes} {arguments : List Bytes}

theorem quotedLine_single : quotedLine [argument] = singleQuoted argument := by
  simp [quotedLine]

theorem quotedLine_cons (nonempty : arguments ≠ []) :
    quotedLine (argument :: arguments) = singleQuoted argument ++ 32 :: quotedLine arguments := by
  obtain ⟨next, others, rfl⟩ := List.exists_cons_of_ne_nil nonempty
  simp [quotedLine, List.intercalate]

theorem length_le_singleQuoted (argument : Bytes) :
    argument.length ≤ (singleQuoted argument).length := by
  have body : argument.length ≤ (quotedBody argument).length := by
    induction argument with
    | nil => simp
    | cons byte rest ih =>
      rw [quotedBody, List.flatMap_cons, List.length_append, List.length_cons]
      have one : 1 ≤ (if byte = 39 then [39, 92, 39, 39] else [byte] : Bytes).length := by
        split_ifs <;> simp
      simp only [quotedBody] at ih
      omega
  simp only [singleQuoted, List.length_cons, List.length_append]
  omega

theorem quotedLine_cases (argument : Bytes) (arguments : List Bytes) :
    arguments = [] ∧ quotedLine (argument :: arguments) = singleQuoted argument ∨
      arguments ≠ [] ∧
        quotedLine (argument :: arguments) =
          singleQuoted argument ++ 32 :: quotedLine arguments := by
  by_cases nothing : arguments = []
  · exact .inl ⟨nothing, by rw [nothing, quotedLine_single]⟩
  · exact .inr ⟨nothing, quotedLine_cons nothing⟩

theorem length_le_quotedLine (member : argument ∈ arguments) :
    argument.length ≤ (quotedLine arguments).length := by
  induction arguments with
  | nil => simp at member
  | cons first arguments ih =>
    have own := length_le_singleQuoted first
    rcases quotedLine_cases first arguments with ⟨nothing, line⟩ | ⟨_, line⟩
    · have same : argument = first := by simpa [nothing] using member
      rw [line, same]
      exact own
    · rw [line, List.length_append, List.length_cons]
      rcases List.mem_cons.mp member with rfl | later
      · omega
      · have inside := ih later
        omega

theorem quotedLine_ends (nonempty : arguments ≠ []) :
    ∃ start, quotedLine arguments = start ++ [39] := by
  induction arguments with
  | nil => exact absurd rfl nonempty
  | cons first arguments ih =>
    rcases quotedLine_cases first arguments with ⟨_, line⟩ | ⟨more, line⟩
    · exact ⟨39 :: quotedBody first, by rw [line]; rfl⟩
    · obtain ⟨start, ends⟩ := ih more
      exact ⟨singleQuoted first ++ 32 :: start, by rw [line, ends]; simp⟩

theorem mem_quotedLine_pipe (inside : 124 ∈ quotedLine arguments) :
    ∃ argument ∈ arguments, 124 ∈ argument := by
  induction arguments with
  | nil => simp [quotedLine] at inside
  | cons first arguments ih =>
    have own : 124 ∈ singleQuoted first → 124 ∈ first := by
      simp only [singleQuoted, quotedBody, List.mem_cons, List.mem_append, List.mem_flatMap]
      grind
    rcases quotedLine_cases first arguments with ⟨_, line⟩ | ⟨_, line⟩
    · rw [line] at inside
      exact ⟨first, by simp, own inside⟩
    · rw [line, List.mem_append, List.mem_cons] at inside
      rcases inside with here | space | later
      · exact ⟨first, by simp, own here⟩
      · simp at space
      · obtain ⟨argument, member, pipe⟩ := ih later
        exact ⟨argument, by simp [member], pipe⟩

end Line

theorem scanToken_quotedBody (argument rest token : Bytes)
    (fits : token.length + argument.length < maxLine) :
    scanToken token true false (quotedBody argument ++ 39 :: rest) =
      scanToken (token ++ argument) false false rest := by
  induction argument generalizing token with
  | nil => simp [quotedBody, scanToken_quote]
  | cons byte argument ih =>
    have room : token.length < maxLine - 1 := by
      simp only [List.length_cons] at fits
      omega
    have rest_fits : (token ++ [byte]).length + argument.length < maxLine := by
      simp only [List.length_append, List.length_cons, List.length_nil] at fits ⊢
      omega
    have whole : token ++ byte :: argument = token ++ [byte] ++ argument := by simp
    rw [whole, ← ih _ rest_fits]
    by_cases quote : byte = 39
    · subst quote
      have split : quotedBody (39 :: argument) = 39 :: 92 :: 39 :: 39 :: quotedBody argument := rfl
      rw [split, List.cons_append, scanToken_quote, List.cons_append,
        List.cons_append, Bool.not_true,
        scanToken_escape room, List.cons_append, scanToken_quote, Bool.not_false]
    · have split : quotedBody (byte :: argument) = byte :: quotedBody argument := by
        simp [quotedBody, quote]
      rw [split, List.cons_append, scanToken_inside quote room]

theorem scanToken_singleQuoted {argument rest : Bytes} (delimited : Delimited rest)
    (fits : argument.length < maxLine) :
    scanToken [] false false (singleQuoted argument ++ rest) = some (argument, rest) := by
  rw [singleQuoted, List.cons_append, scanToken_quote, Bool.not_false, List.append_assoc,
    List.singleton_append, scanToken_quotedBody argument rest [] (by simpa using fits),
    List.nil_append, scanToken_delimited delimited]

/-- The tokens of a quoted line are the arguments that are not empty, expanded. -/
theorem tokenizeFrom_quotedLine {arguments : List Bytes} {argc : Nat} {lead : Bytes}
    (blank : ∀ byte ∈ lead, isBlank byte = true)
    (few : argc + (arguments.filter (· ≠ [])).length ≤ maxArgs - 1)
    (short : ∀ argument ∈ arguments, argument.length < maxLine) :
    tokenizeFrom env argc (lead ++ quotedLine arguments) =
      some ((arguments.filter (· ≠ [])).map (expandVariables env)) := by
  induction arguments generalizing argc lead with
  | nil => simpa [quotedLine] using tokenizeFrom_blank blank argc
  | cons argument arguments ih =>
    by_cases full : argc ≥ maxArgs - 1
    · have none_left : (argument :: arguments).filter (· ≠ []) = [] := by
        apply List.length_eq_zero_iff.mp
        omega
      rw [tokenizeFrom_full full, none_left, List.map_nil]
    · have rest_short : ∀ other ∈ arguments, other.length < maxLine := fun other member =>
        short other (by simp [member])
      obtain ⟨rest, line, delimited, goes_on⟩ : ∃ rest,
          quotedLine (argument :: arguments) = singleQuoted argument ++ rest ∧ Delimited rest ∧
          ∀ argc, argc + (arguments.filter (· ≠ [])).length ≤ maxArgs - 1 →
            tokenizeFrom env argc rest =
              some ((arguments.filter (· ≠ [])).map (expandVariables env)) := by
        by_cases nothing : arguments = []
        · refine ⟨[], by simp [nothing, quotedLine_single], by simp [Delimited], ?_⟩
          intro argc _
          have no_bytes : ∀ byte ∈ ([] : Bytes), isBlank byte = true := by simp
          rw [nothing, tokenizeFrom_blank no_bytes]
          rfl
        · refine ⟨32 :: quotedLine arguments,
            quotedLine_cons nothing, by simp [Delimited, isBlank], ?_⟩
          intro argc left
          have space : ∀ byte ∈ ([32] : Bytes), isBlank byte = true := by simp [isBlank]
          exact ih space left rest_short
      have scanned := scanToken_singleQuoted delimited (short argument (by simp))
      have starts : ∃ byte tail, singleQuoted argument ++ rest = byte :: tail ∧
          isBlank byte = false :=
        ⟨39, _, rfl, rfl⟩
      rw [line, tokenizeFrom_next (not_le.mp full) blank starts scanned]
      by_cases empty : argument = []
      · rw [List.filter_cons_of_neg (by simpa using empty)] at few ⊢
        rw [if_pos empty, goes_on argc few]
      · rw [List.filter_cons_of_pos (by simpa using empty)] at few ⊢
        rw [List.length_cons] at few
        rw [if_neg empty, goes_on (argc + 1) (by omega)]
        rfl

section Parsing
variable {arguments : List Bytes} (some_argument : arguments ≠ [])
  (few : arguments.length ≤ maxArgs - 1) (short : (quotedLine arguments).length < maxLine)
include some_argument

theorem quotedLine_nonempty : quotedLine arguments ≠ [] := by
  obtain ⟨start, ends⟩ := quotedLine_ends some_argument
  simp [ends]

theorem splitBackground_quotedLine :
    splitBackground (quotedLine arguments) = (quotedLine arguments, false) := by
  obtain ⟨start, ends⟩ := quotedLine_ends some_argument
  rw [ends]
  exact splitBackground_foreground rfl (by simp)

omit some_argument in
include few short in
theorem tokenize_quotedLine (env : Environment) :
    tokenize env (quotedLine arguments) =
      some ((arguments.filter (· ≠ [])).map (expandVariables env)) := by
  have no_bytes : ∀ byte ∈ ([] : Bytes), isBlank byte = true := by simp
  have kept := List.length_filter_le (· ≠ []) arguments
  exact tokenizeFrom_quotedLine no_bytes (by omega)
    fun argument member => (length_le_quotedLine member).trans_lt short

include few short in
/-- Arguments that only differ from their quotes in the quotes come back. -/
theorem parseLine_quotedLine
    (literal : ∀ argument ∈ arguments, argument ≠ [] ∧ 124 ∉ argument ∧ 36 ∉ argument.dropLast)
    (plain : ∀ argument ∈ arguments.dropLast, ¬isRedirection argument) (env : Environment) :
    parseLine env (quotedLine arguments) =
      .success ⟨[⟨arguments, none, none, false, false⟩], false⟩ := by
  have pipeless : 124 ∉ quotedLine arguments := by
    intro inside
    obtain ⟨argument, member, pipe⟩ := mem_quotedLine_pipe inside
    exact (literal argument member).2.1 pipe
  have all_kept : arguments.filter (· ≠ []) = arguments := by
    apply List.filter_eq_self.mpr
    intro argument member
    simpa using (literal argument member).1
  have unchanged : arguments.map (expandVariables env) = arguments := by
    calc
      arguments.map (expandVariables env) = arguments.map id := by
        apply List.map_congr_left
        intro argument member
        exact expandVariables_literal (literal argument member).2.2
          ((length_le_quotedLine member).trans_lt short)
      _ = arguments := List.map_id arguments
  have tokens := tokenize_quotedLine few short env
  rw [all_kept, unchanged] at tokens
  rw [parseLine_single (quotedLine_nonempty some_argument) pipeless
    (splitBackground_quotedLine some_argument) tokens some_argument,
    parseRedirections_plain .zero plain]
  rfl

omit some_argument in
theorem pipeless_of_parseLine {line : Bytes} {pipeline : Pipeline}
    (parsed : parseLine .none line = .success pipeline) :
    ∀ command ∈ pipeline.commands, ∀ argument ∈ command.argv, 124 ∉ argument := by
  obtain ⟨commands, segments, rfl⟩ := parseLine_success parsed
  intro command member argument inside
  obtain ⟨original, among, argv⟩ := mem_flagLast member
  rw [argv] at inside
  exact parseSegments_no_pipe (segmentsOf_no_pipe _) segments original among argument inside

include few short in
theorem literal_of_parseLine
    (parsed : parseLine .none (quotedLine arguments) =
      .success ⟨[⟨arguments, none, none, false, false⟩], false⟩) :
    (∀ argument ∈ arguments, argument ≠ [] ∧ 124 ∉ argument ∧ 36 ∉ argument.dropLast) ∧
      ∀ argument ∈ arguments.dropLast, ¬isRedirection argument := by
  have no_pipes : ∀ argument ∈ arguments, 124 ∉ argument :=
    pipeless_of_parseLine parsed _ (List.mem_singleton_self _)
  have pipeless : 124 ∉ quotedLine arguments := by
    intro inside
    obtain ⟨argument, member, pipe⟩ := mem_quotedLine_pipe inside
    exact no_pipes argument member pipe
  have tokens := tokenize_quotedLine few short .none
  have foreground := splitBackground_quotedLine some_argument
  have nonempty := quotedLine_nonempty some_argument
  have some_token : (arguments.filter (· ≠ [])).map (expandVariables .none) ≠ [] := by
    intro nothing
    rw [nothing] at tokens
    simp [parseLine, foreground, segmentsOf_single nonempty pipeless, parseSegments, maxPipes,
      tokens] at parsed
  rw [parseLine_single nonempty pipeless foreground tokens some_token] at parsed
  have command : parseRedirections .zero ((arguments.filter (· ≠ [])).map (expandVariables .none)) =
      ⟨arguments, none, none, false, false⟩ := by simpa using parsed
  have plain := parseRedirections_none (congrArg Command.inputFile command)
    (congrArg Command.outputFile command)
  rw [parseRedirections_plain .zero plain] at command
  have same : (arguments.filter (· ≠ [])).map (expandVariables .none) = arguments := by
    simpa [Command.zero] using congrArg Command.argv command
  have all_kept : arguments.filter (· ≠ []) = arguments := by
    apply List.filter_sublist.eq_of_length
    simpa using congrArg List.length same
  rw [same] at plain
  rw [all_kept] at same
  refine ⟨?_, plain⟩
  intro argument member
  refine ⟨by simpa using List.filter_eq_self.mp all_kept argument member, no_pipes argument member, ?_⟩
  apply expandVariables_none
  have unchanged : arguments.map (expandVariables .none) = arguments.map id := by simpa using same
  exact List.map_inj_left.mp unchanged argument member

end Parsing

/-- Arguments in single quotes come back as they are, in every environment, exactly when
none is empty, has a pipe or has a `$` before its end, and none but the last one is a
redirection. -/
theorem single_quotes_literal {arguments : List CString} (some_argument : arguments ≠ [])
    (few : arguments.length ≤ 255)
    (short : (quotedLine (arguments.map CString.bytes)).length < maxLine) :
    (∀ env, parseLine env (quotedLine (arguments.map CString.bytes)) =
        .success ⟨[⟨arguments.map CString.bytes, none, none, false, false⟩], false⟩) ↔
      (∀ argument ∈ arguments, argument.bytes ≠ [] ∧ 124 ∉ argument.bytes ∧
          36 ∉ argument.bytes.dropLast) ∧
        ∀ argument ∈ arguments.dropLast, ¬isRedirection argument.bytes := by
  have some_bytes : arguments.map CString.bytes ≠ [] := by simpa using some_argument
  have few_bytes : (arguments.map CString.bytes).length ≤ maxArgs - 1 := by
    rw [List.length_map]
    exact few
  constructor
  · intro parsed
    obtain ⟨literal, plain⟩ := literal_of_parseLine some_bytes few_bytes short (parsed .none)
    refine ⟨fun argument member => literal _ (List.mem_map_of_mem member), ?_⟩
    intro argument member
    apply plain
    rw [← List.map_dropLast]
    exact List.mem_map_of_mem member
  · intro condition env
    obtain ⟨literal, plain⟩ := condition
    apply parseLine_quotedLine some_bytes few_bytes short
    · intro bytes member
      obtain ⟨argument, inside, rfl⟩ := List.mem_map.mp member
      exact literal argument inside
    · intro bytes member
      rw [← List.map_dropLast] at member
      obtain ⟨argument, inside, rfl⟩ := List.mem_map.mp member
      exact plain argument inside

/-- A space, a single quote, a `&` and a last `<` are literal in single quotes. -/
theorem single_quotes_literal_blank_quote :
    let arguments : List CString := [⟨text "a b", by decide⟩, ⟨text "it's", by decide⟩,
      ⟨text "&", by decide⟩, ⟨text "<", by decide⟩]
    parseLine .none (quotedLine (arguments.map CString.bytes)) =
      .success ⟨[⟨arguments.map CString.bytes, none, none, false, false⟩], false⟩ := by
  intro arguments
  have some_argument : arguments ≠ [] := by simp [arguments]
  have short : (quotedLine (arguments.map CString.bytes)).length < maxLine := by decide
  exact (single_quotes_literal some_argument (by decide) short).mpr (by decide) .none

/-- A pipe in single quotes makes two commands, and a variable in them is expanded. -/
theorem quoted_pipe_splits :
    parseLine .none (quotedLine [text "a|b"]) =
        .success ⟨[⟨[text "a"], none, none, false, false⟩,
          ⟨[text "b"], none, none, false, false⟩], false⟩ ∧
      parseLine .none (quotedLine [text "$HOME"]) =
        .success ⟨[⟨[[]], none, none, false, false⟩], false⟩ ∧
      ¬∀ env, parseLine env (quotedLine [text "a|b"]) =
        .success ⟨[⟨[text "a|b"], none, none, false, false⟩], false⟩ := by
  have split : parseLine .none (quotedLine [text "a|b"]) =
      .success ⟨[⟨[text "a"], none, none, false, false⟩,
        ⟨[text "b"], none, none, false, false⟩], false⟩ := by decide +kernel
  refine ⟨split, by decide +kernel, ?_⟩
  intro literal
  have both := split.symm.trans (literal .none)
  simp at both

end LinuxCLearning.MiniShell
