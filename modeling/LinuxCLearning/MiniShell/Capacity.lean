import LinuxCLearning.MiniShell.PipelineRoundTrip

/-! Lines of plain words with more commands or words than the arrays of the parser have
places for. -/

namespace LinuxCLearning.MiniShell
variable {env : Environment}

/-- The text is these words with blanks around them, or only blanks when there are none. -/
def Laid (words : List PlainWord) (text : Bytes) : Prop :=
  if words = [] then Blank text else Spells (words.map fun word => word.bytes) text

/-- A line of plain words between blanks and pipes. -/
structure PlainLine where
  segments : List (List PlainWord)
  texts : List Bytes
  laid : List.Forall₂ Laid segments texts
  some_text : texts ≠ []
  short : ([124].intercalate texts).length < maxLine

namespace PlainLine

/-- The line itself. -/
def written (line : PlainLine) : Bytes := [124].intercalate line.texts

/-- The segments with words in them. -/
def commands (line : PlainLine) : List (List PlainWord) :=
  line.segments.filter fun words => !words.isEmpty

end PlainLine

/-- What `parse_line` makes of a segment. -/
def commandOf (words : List PlainWord) : Command :=
  { Command.zero with argv := (words.map fun word => word.bytes).take (maxArgs - 1) }

section Segments

/-- A text with more tokens than there are places is cut behind the last place. -/
theorem tokenizeFrom_spells_take {text : Bytes} {tokens : List Bytes} (spells : Spells tokens text)
    (solid : ∀ token ∈ tokens, Solid token) (argc : Nat) {lead : Bytes} (blank : Blank lead) :
    tokenizeFrom env argc (lead ++ text) = some (tokens.take (maxArgs - 1 - argc)) := by
  induction spells generalizing argc lead with
  | @last inner token trail before behind =>
    have own := solid token (by simp)
    by_cases room : argc < maxArgs - 1
    · have few : argc + [token].length ≤ maxArgs - 1 := room
      rw [tokenizeFrom_spells (.last before behind) solid few blank, List.take_of_length_le]
      rw [List.length_singleton]
      omega
    · rw [tokenizeFrom_full (not_lt.mp room), Nat.sub_eq_zero_of_le (not_lt.mp room),
        List.take_zero]
  | @more inner token gap rest tokens before some_blank behind spells ih =>
    by_cases room : argc < maxArgs - 1
    · have own := solid token (by simp)
      have delimited : Delimited (gap ++ rest) :=
        behind.delimited rest fun nothing => absurd nothing some_blank
      have others := ih (fun other member => solid other (by simp [member])) (argc + 1) behind
      obtain ⟨left, same⟩ : ∃ left, maxArgs - 1 - argc = left + 1 :=
        Nat.exists_eq_add_one.mpr (by omega)
      have next : maxArgs - 1 - (argc + 1) = left := by omega
      rw [List.append_assoc, List.append_assoc, ← List.append_assoc lead,
        tokenizeFrom_next room (blank.append before) (own.starts _) (own.scan delimited),
        if_neg own.nonempty, others,
        own.expand, same, next, List.take_succ_cons]
      rfl
    · rw [tokenizeFrom_full (not_lt.mp room), Nat.sub_eq_zero_of_le (not_lt.mp room),
        List.take_zero]

/-- The tokens of a segment are its words, as far as there are places. -/
theorem tokenize_laid {words : List PlainWord} {text : Bytes} (laid : Laid words text) :
    tokenize env text = some ((words.map fun word => word.bytes).take (maxArgs - 1)) := by
  unfold Laid at laid
  split at laid
  · rename_i nothing
    rw [nothing, List.map_nil, List.take_nil, tokenize, tokenizeFrom_blank laid]
  · have solid : ∀ token ∈ words.map fun word => word.bytes, Solid token := by
      intro token member
      obtain ⟨word, -, rfl⟩ := List.mem_map.mp member
      exact word.solid
    have nothing : Blank [] := by simp [Blank]
    exact tokenizeFrom_spells_take laid solid 0 nothing

theorem parseRedirections_words (words : List PlainWord) :
    parseRedirections .zero ((words.map fun word => word.bytes).take (maxArgs - 1)) =
      commandOf words := by
  rw [parseRedirections_plain]
  · rfl
  · intro token member
    obtain ⟨word, -, rfl⟩ := List.mem_map.mp
      (List.mem_of_mem_take (List.mem_of_mem_dropLast member))
    exact word.word

/-- The commands are the segments with words, as far as there are places. -/
theorem parseSegments_laid {segments : List (List PlainWord)} {texts : List Bytes}
    (laid : List.Forall₂ Laid segments texts) (room : Nat) :
    parseSegments env room texts =
      some (((segments.filter fun words => !words.isEmpty).take room).map commandOf) := by
  induction laid generalizing room with
  | nil => cases room <;> rfl
  | @cons words text segments texts first others ih =>
    cases room with
    | zero => simp [parseSegments]
    | succ room =>
      have tokens : tokenize env text = _ := tokenize_laid first
      have command := parseRedirections_words words
      cases words with
      | nil =>
        rw [parseSegments, tokens]
        exact ih (room + 1)
      | cons word words =>
        rw [parseSegments, tokens]
        simp only [List.map_cons, maxArgs, Nat.add_one_sub_one, List.take_succ_cons] at command ⊢
        rw [ih room]
        simp [command]

theorem Laid.words_empty {words : List PlainWord} (laid : Laid words []) : words = [] := by
  by_contra some_word
  rw [Laid, if_neg some_word] at laid
  obtain ⟨-, before, last, ends, -⟩ := laid.trim (by
    intro token member
    obtain ⟨word, -, rfl⟩ := List.mem_map.mp member
    exact word.solid)
  simp at ends

theorem laid_filter {segments : List (List PlainWord)} {texts : List Bytes}
    (laid : List.Forall₂ Laid segments texts) :
    ∃ kept, List.Forall₂ Laid kept (texts.filter (· ≠ [])) ∧
      (kept.filter fun words => !words.isEmpty) = segments.filter fun words => !words.isEmpty := by
  induction laid with
  | nil => exact ⟨[], .nil, rfl⟩
  | @cons words text segments texts first others ih =>
    obtain ⟨kept, keptLaid, same⟩ := ih
    by_cases empty : text = []
    · subst empty
      obtain rfl := first.words_empty
      exact ⟨kept, by simpa using keptLaid, by simpa using same⟩
    · refine ⟨words :: kept, ?_, by simp only [List.filter_cons, same]⟩
      rw [List.filter_cons_of_pos (by simpa using empty)]
      exact .cons first keptLaid

/-- A text of plain words contains no byte that the words and blanks do not have. -/
theorem Laid.absent {words : List PlainWord} {text : Bytes} (laid : Laid words text) {byte : UInt8}
    (special : isWordByte byte = false) (solid : isBlank byte = false) : byte ∉ text := by
  have outside {gap : Bytes} (blank : Blank gap) : byte ∉ gap := by
    intro member
    rw [blank byte member] at solid
    cases solid
  unfold Laid at laid
  split at laid
  · exact outside laid
  · have literal : ∀ token ∈ words.map fun word => word.bytes, byte ∉ token := by
      intro token member inside
      obtain ⟨word, -, rfl⟩ := List.mem_map.mp member
      rw [word.solid.literal byte inside] at special
      cases special
    generalize (words.map fun word => word.bytes) = tokens at laid literal
    induction laid with
    | last before behind =>
      simp only [List.mem_append, not_or]
      exact ⟨⟨outside before, literal _ List.mem_cons_self⟩, outside behind⟩
    | more before some_blank behind spells ih =>
      simp only [List.mem_append, not_or]
      exact ⟨⟨⟨outside before, literal _ List.mem_cons_self⟩, outside behind⟩,
        ih fun token member => literal token (List.mem_cons_of_mem _ member)⟩

end Segments

section Lines
variable (line : PlainLine)

theorem texts_absent {byte : UInt8} (special : isWordByte byte = false)
    (solid : isBlank byte = false) :
    ∀ text ∈ line.texts, byte ∉ text := by
  have each {segments : List (List PlainWord)} {texts : List Bytes}
      (laid : List.Forall₂ Laid segments texts) :
      ∀ text ∈ texts, byte ∉ text := by
    induction laid with
    | nil => nofun
    | cons first others ih =>
      intro text member
      rcases List.mem_cons.mp member with rfl | later
      · exact first.absent special solid
      · exact ih text later
  exact each line.laid

theorem intercalate_absent {byte : UInt8} (other : byte ≠ 124) {texts : List Bytes}
    (absent : ∀ text ∈ texts, byte ∉ text) :
    byte ∉ [124].intercalate texts := by
  induction texts with
  | nil => simp
  | cons text texts ih =>
    have first := absent text List.mem_cons_self
    have later := ih fun inner member => absent inner (List.mem_cons_of_mem text member)
    by_cases last : texts = []
    · simpa [last] using first
    · rw [List.intercalate_cons_of_ne_nil last]
      simp [first, later, other]

theorem splitBackground_written : splitBackground line.written = (line.written, false) := by
  have absent : 38 ∉ line.written :=
    intercalate_absent (by decide) (texts_absent line (by decide) (by decide))
  have foreground : (line.written.rdropWhile isBlank).getLast? ≠ some 38 := by
    intro last
    exact absent ((List.rdropWhile_prefix _ _).subset (List.mem_of_getLast? last))
  rw [splitBackground]
  exact if_neg foreground

theorem flagLast_commands (segments : List (List PlainWord)) :
    flagLast false (segments.map commandOf) = segments.map commandOf := by
  induction segments using List.reverseRecOn with
  | nil => rfl
  | append_singleton segments last ih =>
    rw [List.map_append, List.map_singleton, flagLast_concat]
    rfl

/-- What `parse_line` comes to on a line of plain words. -/
theorem parseLine_written (env : Environment) :
    parseLine env line.written =
      if line.commands = [] then .failure
      else .success ⟨(line.commands.take maxPipes).map commandOf, false⟩ := by
  obtain ⟨kept, laid, same⟩ := laid_filter line.laid
  have segments : segmentsOf line.written = line.texts.filter (· ≠ []) := by
    rw [segmentsOf, PlainLine.written, List.splitOn_intercalate 124
      (texts_absent line (by decide) (by decide)) line.some_text]
  have parsed : parseSegments env maxPipes (segmentsOf line.written) =
      some ((line.commands.take maxPipes).map commandOf) := by
    rw [segments, parseSegments_laid laid, same]
    rfl
  split
  · rename_i nothing
    rw [nothing, List.take_nil, List.map_nil] at parsed
    rw [parseLine, splitBackground_written line]
    simp only [parsed]
  · rename_i some_command
    have some_parsed : (line.commands.take maxPipes).map commandOf ≠ [] := by
      simpa [maxPipes] using some_command
    rw [parseLine_of_segments (splitBackground_written line) parsed some_parsed, flagLast_commands]

/-- A line that is parsed has all its commands and words in the pipeline, and one with more
than the arrays have places for is rejected. -/
structure NothingCut (env : Environment) : Prop where
  complete : ∀ pipeline, parseLine env line.written = .success pipeline →
    pipeline.commands.map Command.argv = line.commands.map fun words =>
      words.map fun word => word.bytes
  rejected : (maxPipes < line.commands.length ∨ ∃ words ∈ line.commands,
    maxArgs - 1 < words.length) →
    parseLine env line.written = .failure

/-- Exactly the lines with at most `MAX_PIPES` commands of at most `MAX_ARGS - 1` words each
are not cut. -/
theorem nothing_cut_iff (env : Environment) :
    NothingCut line env ↔
      line.commands.length ≤ maxPipes ∧ ∀ words ∈ line.commands, words.length ≤ maxArgs - 1 := by
  constructor
  · intro nothing_cut
    by_cases empty : line.commands = []
    · simp [empty]
    · have parsed := parseLine_written line env
      rw [if_neg empty] at parsed
      have same := nothing_cut.complete _ parsed
      rw [List.map_map] at same
      have few : line.commands.length ≤ maxPipes := by
        have lengths := congrArg List.length same
        rw [List.length_map, List.length_map, List.length_take] at lengths
        omega
      rw [List.take_of_length_le few] at same
      refine ⟨few, ?_⟩
      intro words member
      have cut : (commandOf words).argv = words.map fun word => word.bytes :=
        List.map_inj_left.mp same words member
      have lengths := congrArg List.length cut
      simp only [commandOf, List.length_take, List.length_map] at lengths
      omega
  · rintro ⟨few, short⟩
    constructor
    · intro pipeline parsed
      rw [parseLine_written] at parsed
      split at parsed
      · cases parsed
      · cases parsed
        rw [List.take_of_length_le few, List.map_map]
        apply List.map_congr_left
        intro words member
        apply List.take_of_length_le
        rw [List.length_map]
        exact short words member
    · rintro (many | ⟨words, member, long⟩)
      · exact absurd many (not_lt.mpr few)
      · exact absurd long (not_lt.mpr (short words member))

end Lines

section Seventeen

theorem letter_nulFree : 0 ∉ text "a" := by decide

theorem letter_solid : Solid (text "a") := ⟨by decide, by decide +kernel, by decide +kernel⟩

theorem letter_no_redirection : ¬isRedirection (text "a") := by decide

/-- The word `a`. -/
def letterWord : PlainWord := ⟨⟨text "a", letter_nulFree⟩, letter_solid, letter_no_redirection⟩

theorem letter_laid (count : Nat) :
    List.Forall₂ Laid (List.replicate count [letterWord]) (List.replicate count (text "a")) := by
  induction count with
  | zero => exact .nil
  | succ count ih =>
    have nothing : Blank [] := by simp [Blank]
    have spelled : Spells [text "a"] ([] ++ text "a" ++ []) := .last nothing nothing
    exact .cons spelled ih

/-- `a` seventeen times, with pipes between. -/
def seventeenCommands : PlainLine where
  segments := List.replicate 17 [letterWord]
  texts := List.replicate 17 (text "a")
  laid := letter_laid 17
  some_text := List.cons_ne_nil _ _
  short := of_decide_eq_true rfl

/-- The last command is dropped without an error. -/
theorem seventeenth_command_dropped :
    parseLine .none seventeenCommands.written =
        .success ⟨List.replicate 16 ⟨[text "a"], none, none, false, false⟩, false⟩ ∧
      ¬ NothingCut seventeenCommands .none := by
  have commands : seventeenCommands.commands = List.replicate 17 [letterWord] := rfl
  have parsed := parseLine_written seventeenCommands .none
  have some_command : List.replicate 17 [letterWord] ≠ [] := List.cons_ne_nil _ _
  rw [commands, if_neg some_command] at parsed
  refine ⟨parsed, ?_⟩
  intro nothing_cut
  have rejected := nothing_cut.rejected (Or.inl (by rw [commands, List.length_replicate]; decide))
  rw [parsed] at rejected
  cases rejected

end Seventeen

end LinuxCLearning.MiniShell
