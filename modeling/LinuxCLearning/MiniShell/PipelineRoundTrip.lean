import LinuxCLearning.Base.Lines
import LinuxCLearning.MiniShell.Tokens

/-! Pipelines of plain words and redirections, written out as a line with any blanks
between the tokens, and parsed again. -/

namespace LinuxCLearning.MiniShell
variable {env : Environment}

/-- A byte that no pass of the parser takes as anything but itself. -/
def isWordByte (byte : UInt8) : Bool := isPlain byte && byte != 124 && byte != 36 && byte != 38

/-- A token that no pass changes. -/
structure Solid (token : Bytes) : Prop where
  nonempty : token ≠ []
  short : token.length < maxLine
  literal : ∀ byte ∈ token, isWordByte byte = true

/-- A plain word of the command language. -/
structure PlainWord extends CString where
  solid : Solid bytes
  word : ¬isRedirection bytes

/-- One item of a command. -/
inductive Item where
  | word (argument : PlainWord)
  | input (target : PlainWord)
  | output (target : PlainWord) (append : Bool)

namespace Item

def tokens : Item → List Bytes
  | word argument => [argument.bytes]
  | input target => [text "<", target.bytes]
  | output target append => [if append then text ">>" else text ">", target.bytes]

def argument? : Item → Option Bytes
  | word argument => some argument.bytes
  | _ => none

def input? : Item → Option Bytes
  | input target => some target.bytes
  | _ => none

def output? : Item → Option (Bytes × Bool)
  | output target append => some (target.bytes, append)
  | _ => none

end Item

/-- A command as a sequence of items. -/
structure SimpleCommand where
  items : List Item
  nonempty : items ≠ []
  few : (items.flatMap Item.tokens).length ≤ 255

namespace SimpleCommand

def tokens (command : SimpleCommand) : List Bytes := command.items.flatMap Item.tokens

/-- What the command means: its words, the last input and the last output. -/
def command (simple : SimpleCommand) (background : Bool) : Command where
  argv := simple.items.filterMap Item.argument?
  inputFile := (simple.items.filterMap Item.input?).getLast?
  outputFile := (simple.items.filterMap Item.output?).getLast?.map Prod.fst
  append := ((simple.items.filterMap Item.output?).getLast?.map Prod.snd).getD false
  background := background

end SimpleCommand

def Blank (text : Bytes) : Prop := ∀ byte ∈ text, isBlank byte = true

instance (text : Bytes) : Decidable (Blank text) :=
  inferInstanceAs (Decidable (∀ byte ∈ text, isBlank byte = true))

/-- The text is these tokens, with blanks between them and maybe around them. -/
inductive Spells : List Bytes → Bytes → Prop where
  | last {lead token trail : Bytes} (before : Blank lead) (behind : Blank trail) :
      Spells [token] (lead ++ token ++ trail)
  | more {lead token gap rest : Bytes} {tokens : List Bytes} (before : Blank lead)
      (some_blank : gap ≠ [])
      (behind : Blank gap) (spells : Spells tokens rest) :
      Spells (token :: tokens) (lead ++ token ++ gap ++ rest)

section Redirections

theorem parseRedirections_word {token : Bytes} (word : ¬isRedirection token) (command : Command)
    (rest : List Bytes) :
    parseRedirections command (token :: rest) =
      parseRedirections { command with argv := command.argv ++ [token] } rest := by
  simp only [isRedirection, not_or] at word
  cases rest with
  | nil => rfl
  | cons target rest => simp [parseRedirections, word]

/-- Going through the items completes the command: words are added, and a later
redirection replaces an earlier one. -/
theorem parseRedirections_items (items : List Item) (command : Command) :
    parseRedirections command (items.flatMap Item.tokens) =
      { command with
        argv := command.argv ++ items.filterMap Item.argument?
        inputFile := ((items.filterMap Item.input?).getLast?).or command.inputFile
        outputFile := ((items.filterMap Item.output?).getLast?.map Prod.fst).or command.outputFile
        append := ((items.filterMap Item.output?).getLast?.map Prod.snd).getD command.append } := by
  induction items generalizing command with
  | nil => simp [parseRedirections]
  | cons item items ih =>
    cases item with
    | word argument =>
      rw [List.flatMap_cons, Item.tokens, List.singleton_append,
        parseRedirections_word argument.word, ih]
      simp [Item.argument?, Item.input?, Item.output?]
    | input target =>
      rw [List.flatMap_cons, Item.tokens, List.cons_append,
        List.singleton_append, parseRedirections,
        if_pos rfl, ih]
      simp only [List.filterMap_cons, Item.argument?, Item.input?, Item.output?, List.getLast?_cons]
      cases (items.filterMap Item.input?).getLast? <;> rfl
    | output target append =>
      cases append with
      | false =>
        rw [List.flatMap_cons, Item.tokens, List.cons_append, List.singleton_append,
          parseRedirections, if_neg (by decide), if_neg (by decide), if_pos (by decide), ih]
        simp only [List.filterMap_cons, Item.argument?, Item.input?,
          Item.output?, List.getLast?_cons]
        cases (items.filterMap Item.output?).getLast? <;> rfl
      | true =>
        rw [List.flatMap_cons, Item.tokens, List.cons_append, List.singleton_append,
          parseRedirections, if_neg (by decide), if_pos (by decide), ih]
        simp only [List.filterMap_cons, Item.argument?, Item.input?,
          Item.output?, List.getLast?_cons]
        cases (items.filterMap Item.output?).getLast? <;> rfl

theorem parseRedirections_simple (simple : SimpleCommand) :
    parseRedirections .zero simple.tokens = simple.command false := by
  rw [SimpleCommand.tokens, parseRedirections_items]
  simp [Command.zero, SimpleCommand.command]

end Redirections

section Tokens
variable {token text rest : Bytes} {tokens : List Bytes}

theorem Solid.plain (solid : Solid token) : ∀ byte ∈ token, isPlain byte = true := by
  intro byte member
  have literal := solid.literal byte member
  simp only [isWordByte, Bool.and_eq_true] at literal
  exact literal.1.1.1

theorem Solid.expand (solid : Solid token) : expandVariables env token = token := by
  apply expandVariables_literal _ solid.short
  intro member
  have literal := solid.literal 36 (List.dropLast_subset token member)
  simp [isWordByte] at literal

theorem Solid.starts (solid : Solid token) (rest : Bytes) :
    ∃ byte tail, token ++ rest = byte :: tail ∧ isBlank byte = false := by
  obtain ⟨byte, tail, rfl⟩ := List.exists_cons_of_ne_nil solid.nonempty
  have plain := solid.plain byte (by simp)
  simp only [isPlain, Bool.and_eq_true, Bool.not_eq_true'] at plain
  exact ⟨byte, tail ++ rest, rfl, plain.1.1.1⟩

theorem Solid.scan (solid : Solid token) (delimited : Delimited rest) :
    scanToken [] false false (token ++ rest) = some (token, rest) := by
  simpa using scanToken_word solid.plain delimited [] (by simpa using solid.short)

theorem Blank.append {first second : Bytes} (firstBlank : Blank first)
    (secondBlank : Blank second) :
    Blank (first ++ second) := by
  intro byte member
  exact (List.mem_append.mp member).elim (firstBlank byte) (secondBlank byte)

theorem Blank.delimited {gap : Bytes} (blank : Blank gap) (rest : Bytes)
    (ends : gap = [] → rest = []) : Delimited (gap ++ rest) := by
  intro first found
  cases gap with
  | nil => simp [ends rfl] at found
  | cons byte gap =>
    cases found
    exact blank first (by simp)

theorem tokenizeFrom_spells (spells : Spells tokens text) (solid : ∀ token ∈ tokens, Solid token)
    {argc : Nat} (few : argc + tokens.length ≤ maxArgs - 1) {lead : Bytes} (blank : Blank lead) :
    tokenizeFrom env argc (lead ++ text) = some tokens := by
  induction spells generalizing argc lead with
  | @last inner token trail before behind =>
    have own := solid token (by simp)
    have room : argc < maxArgs - 1 := by
      rw [List.length_singleton] at few
      omega
    have delimited : Delimited (trail ++ []) := behind.delimited [] fun _ => rfl
    rw [List.append_nil] at delimited
    rw [List.append_assoc, ← List.append_assoc lead, tokenizeFrom_next room (blank.append before)
      (own.starts trail) (own.scan delimited), if_neg own.nonempty, tokenizeFrom_blank behind,
      own.expand]
    rfl
  | @more inner token gap rest tokens before some_blank behind spells ih =>
    have own := solid token (by simp)
    rw [List.length_cons] at few
    have delimited : Delimited (gap ++ rest) := behind.delimited rest fun nothing =>
      absurd nothing some_blank
    have others := ih (fun other member => solid other (by simp [member]))
      (show argc + 1 + tokens.length ≤ maxArgs - 1 by omega) behind
    rw [List.append_assoc, List.append_assoc, ← List.append_assoc lead,
      tokenizeFrom_next (by omega) (blank.append before) (own.starts _) (own.scan delimited),
      if_neg own.nonempty, others, own.expand]
    rfl

end Tokens

section Trimming
variable {text : Bytes} {tokens : List Bytes}

theorem isBlank_of_isWordByte {byte : UInt8} (literal : isWordByte byte = true) :
    isBlank byte = false := by
  simp only [isWordByte, isPlain, Bool.and_eq_true, Bool.not_eq_true'] at literal
  exact literal.1.1.1.1.1.1

theorem Solid.ends {token : Bytes} (solid : Solid token) :
    ∃ before last, token = before ++ [last] ∧ isWordByte last = true := by
  refine ⟨token.dropLast, token.getLast solid.nonempty, ?_, ?_⟩
  · exact (List.dropLast_concat_getLast solid.nonempty).symm
  · exact solid.literal _ (List.getLast_mem solid.nonempty)

theorem Spells.trim (spells : Spells tokens text) (solid : ∀ token ∈ tokens, Solid token) :
    Spells tokens (text.rdropWhile isBlank) ∧
      ∃ before last, text.rdropWhile isBlank = before ++ [last] ∧ isWordByte last = true := by
  induction spells with
  | @last lead token trail before behind =>
    obtain ⟨start, last, rfl, literal⟩ := (solid token (by simp)).ends
    have trimmed : (lead ++ (start ++ [last]) ++ trail).rdropWhile isBlank =
        lead ++ (start ++ [last]) := by
      rw [rdropWhile_all _ behind, ← List.append_assoc]
      exact List.rdropWhile_concat_neg isBlank _ last (by simp [isBlank_of_isWordByte literal])
    have nothing : Blank [] := by simp [Blank]
    have spelled : Spells [start ++ [last]] (lead ++ (start ++ [last]) ++ []) :=
      .last before nothing
    rw [List.append_nil] at spelled
    rw [trimmed]
    exact ⟨spelled, lead ++ start, last, by simp, literal⟩
  | @more lead token gap rest tokens before some_blank behind spells ih =>
    obtain ⟨trimmed, start, last, ends, literal⟩ :=
      ih fun other member => solid other (by simp [member])
    have kept : rest.rdropWhile isBlank ≠ [] := by simp [ends]
    rw [rdropWhile_kept kept]
    refine ⟨.more before some_blank behind trimmed, lead ++ token ++ gap ++
      start, last, ?_, literal⟩
    simp [ends]

theorem Solid.pipeless {token : Bytes} (solid : Solid token) : 124 ∉ token := by
  intro member
  have literal := solid.literal 124 member
  simp [isWordByte] at literal

theorem Blank.pipeless {gap : Bytes} (blank : Blank gap) : 124 ∉ gap := by
  intro member
  have space := blank 124 member
  simp [isBlank] at space

theorem Spells.pipeless (spells : Spells tokens text) (solid : ∀ token ∈ tokens, Solid token) :
    124 ∉ text := by
  induction spells with
  | @last lead token trail before behind =>
    simp [before.pipeless, behind.pipeless, (solid token (by simp)).pipeless]
  | @more lead token gap rest tokens before some_blank behind spells ih =>
    have others := ih fun other member => solid other (by simp [member])
    simp [before.pipeless, behind.pipeless, (solid token (by simp)).pipeless, others]

end Trimming

section Lines

theorem Item.solid (item : Item) : ∀ token ∈ item.tokens, Solid token := by
  have operator : ∀ token, isRedirection token → Solid token := by
    intro token redirects
    rcases redirects with rfl | rfl | rfl <;> exact ⟨by decide, by decide +kernel, by decide +kernel⟩
  cases item with
  | word argument => simpa [Item.tokens] using argument.solid
  | input target => simpa [Item.tokens] using ⟨operator _ (.inl rfl), target.solid⟩
  | output target append =>
    cases append with
    | false => simpa [Item.tokens] using ⟨operator _ (.inr (.inr rfl)), target.solid⟩
    | true => simpa [Item.tokens] using ⟨operator _ (.inr (.inl rfl)), target.solid⟩

theorem SimpleCommand.solid (simple : SimpleCommand) : ∀ token ∈ simple.tokens, Solid token := by
  intro token member
  obtain ⟨item, _, inside⟩ := List.mem_flatMap.mp member
  exact item.solid token inside

theorem tokenize_simple {simple : SimpleCommand} {text : Bytes}
    (spells : Spells simple.tokens text) :
    tokenize env text = some simple.tokens := by
  have nothing : Blank [] := by simp [Blank]
  have few : 0 + simple.tokens.length ≤ maxArgs - 1 := by
    rw [Nat.zero_add]
    exact simple.few
  exact tokenizeFrom_spells spells simple.solid few nothing

theorem SimpleCommand.tokens_nonempty (simple : SimpleCommand) : simple.tokens ≠ [] := by
  obtain ⟨item, items, same⟩ := List.exists_cons_of_ne_nil simple.nonempty
  rw [SimpleCommand.tokens, same]
  cases item <;> simp [Item.tokens]

theorem parseSegments_simple {commands : List SimpleCommand} {texts : List Bytes}
    (spelled : List.Forall₂ (fun simple text => Spells simple.tokens text) commands texts)
    {room : Nat} (few : commands.length ≤ room) :
    parseSegments env room texts = some (commands.map fun simple => simple.command false) := by
  induction spelled generalizing room with
  | nil => cases room <;> rfl
  | @cons simple text commands texts spells spelled ih =>
    obtain ⟨left, rfl⟩ : ∃ left, room = left + 1 :=
      Nat.exists_eq_add_one.mpr (by simp at few; omega)
    obtain ⟨token, tokens, same⟩ := List.exists_cons_of_ne_nil simple.tokens_nonempty
    have parsed : tokenize env text = some simple.tokens := tokenize_simple spells
    have command := parseRedirections_simple simple
    rw [same] at parsed command
    rw [parseSegments, parsed, ih (Nat.le_of_succ_le_succ few)]
    simp [command]

theorem flagLast_concat (background : Bool) (commands : List Command) (last : Command) :
    flagLast background (commands ++ [last]) = commands ++ [{ last with background }] := by
  induction commands with
  | nil => rfl
  | cons command commands ih =>
    obtain ⟨next, others, same⟩ := List.exists_cons_of_ne_nil
      (show commands ++ [last] ≠ [] by simp)
    rw [List.cons_append, same, flagLast, ← same, ih, List.cons_append]
    simp

theorem segmentsOf_texts {commands : List SimpleCommand} {texts : List Bytes}
    (spelled : List.Forall₂ (fun simple text => Spells simple.tokens text) commands texts)
    (nonempty : texts ≠ []) : segmentsOf ([124].intercalate texts) = texts := by
  have each : ∀ text ∈ texts, 124 ∉ text ∧ text ≠ [] := by
    clear nonempty
    induction spelled with
    | nil => simp
    | @cons simple text commands texts spells spelled ih =>
      have first : text ≠ [] := by
        intro nothing
        obtain ⟨_, before, last, ends, _⟩ := spells.trim simple.solid
        simp [nothing] at ends
      simpa using ⟨⟨spells.pipeless simple.solid, first⟩, ih⟩
  rw [segmentsOf, List.splitOn_intercalate 124 (fun text member => (each text member).1) nonempty]
  apply List.filter_eq_self.mpr
  intro text member
  simpa using (each text member).2

theorem intercalate_concat (texts : List Bytes) :
    ∃ before, ∀ last : Bytes, [124].intercalate (texts ++ [last]) = before ++ last := by
  induction texts with
  | nil => exact ⟨[], by simp⟩
  | cons text texts ih =>
    obtain ⟨before, joined⟩ := ih
    refine ⟨text ++ 124 :: before, ?_⟩
    intro last
    rw [List.cons_append, List.intercalate_cons_of_ne_nil (by simp), joined]
    simp

/-- The line of a pipeline: the texts of its commands between pipes, and `&` behind them
for the background. -/
def pipelineLine (texts : List Bytes) (background : Bool) (trail : Bytes) : Bytes :=
  [124].intercalate texts ++ if background then 38 :: trail else []

/-- The flag is read off the end of the line, which leaves texts of the same commands. -/
theorem splitBackground_pipelineLine {last : SimpleCommand} (texts : List Bytes) {text : Bytes}
    (spells : Spells last.tokens text) (background : Bool) {trail : Bytes} (blank : Blank trail) :
    ∃ ending, Spells last.tokens ending ∧
      splitBackground (pipelineLine (texts ++ [text]) background trail) =
        ([124].intercalate (texts ++ [ending]), background) := by
  obtain ⟨before, joined⟩ := intercalate_concat texts
  obtain ⟨trimmed, start, final, ends, literal⟩ := spells.trim last.solid
  have kept : text.rdropWhile isBlank ≠ [] := by simp [ends]
  cases background with
  | true =>
    refine ⟨text.rdropWhile isBlank, trimmed, ?_⟩
    have cut : (pipelineLine (texts ++ [text]) true trail).rdropWhile isBlank =
        before ++ text ++ [38] := by
      have line : pipelineLine (texts ++ [text]) true trail = before ++ text ++ [38] ++ trail := by
        simp [pipelineLine, joined]
      rw [line, rdropWhile_all _ blank]
      exact List.rdropWhile_concat_neg isBlank _ 38 (by simp [isBlank])
    simp only [splitBackground, cut, List.getLast?_concat, List.dropLast_concat, if_true,
      rdropWhile_kept kept, joined]
  | false =>
    refine ⟨text, spells, ?_⟩
    have line : pipelineLine (texts ++ [text]) false trail = before ++ text := by
      simp [pipelineLine, joined]
    have different : final ≠ 38 := by
      intro same
      simp [same, isWordByte] at literal
    have tail : (before ++ text).rdropWhile isBlank = before ++ start ++ [final] := by
      rw [rdropWhile_kept kept, ends, List.append_assoc]
    simp only [splitBackground, line, tail, List.getLast?_concat, Option.some.injEq, different,
      if_false, joined]

end Lines

/-- A pipeline of plain words and redirections that is written out with any blanks
between its tokens is read back, with its flag on the pipeline and its last command. -/
theorem parse_rendered_pipeline {commands : List SimpleCommand} {last : SimpleCommand}
    {texts : List Bytes} {text : Bytes} (few : commands.length + 1 ≤ maxPipes)
    (spelled : List.Forall₂ (fun simple text => Spells simple.tokens text) commands texts)
    (spells : Spells last.tokens text) (background : Bool) {trail : Bytes} (blank : Blank trail)
    (env : Environment) :
    parseLine env (pipelineLine (texts ++ [text]) background trail) =
      .success ⟨commands.map (fun simple => simple.command false) ++ [last.command background],
        background⟩ := by
  obtain ⟨ending, ended, split⟩ := splitBackground_pipelineLine texts spells background blank
  have all_spelled : List.Forall₂ (fun simple text => Spells simple.tokens text)
      (commands ++ [last]) (texts ++ [ending]) := List.rel_append spelled (.cons ended .nil)
  have segments := segmentsOf_texts all_spelled (by simp)
  have parsed : parseSegments env maxPipes (segmentsOf ([124].intercalate (texts ++ [ending]))) =
      some (commands.map (fun simple => simple.command false) ++ [last.command false]) := by
    rw [segments, parseSegments_simple all_spelled (by simpa using few), List.map_append]
    rfl
  rw [parseLine_of_segments split parsed (by simp), flagLast_concat]
  rfl

/-- `a <  f |b >> f &`, with its blanks. -/
theorem parse_rendered_pipeline_two_commands :
    let a : PlainWord :=
      ⟨⟨text "a", by decide⟩, ⟨by decide, by decide +kernel, by decide +kernel⟩, by decide⟩
    let f : PlainWord :=
      ⟨⟨text "f", by decide⟩, ⟨by decide, by decide +kernel, by decide +kernel⟩, by decide⟩
    let first : SimpleCommand := ⟨[.word a, .input f], by simp, by simp [Item.tokens]⟩
    let last : SimpleCommand := ⟨[.word a, .output f true], by simp, by simp [Item.tokens]⟩
    parseLine .none (pipelineLine [text "a <  f ", text "a >> f "] true (text " ")) =
      .success ⟨[⟨[text "a"], some (text "f"), none, false, false⟩,
        ⟨[text "a"], none, some (text "f"), true, true⟩], true⟩ ∧
      first.command false = ⟨[text "a"], some (text "f"), none, false, false⟩ ∧
      last.command true = ⟨[text "a"], none, some (text "f"), true, true⟩ := by
  intro a f first last
  have nothing : Blank [] := by simp [Blank]
  have space : Blank (text " ") := by decide +kernel
  have spaces : Blank (text "  ") := by decide +kernel
  have firstSpelled : Spells first.tokens (text "a <  f ") := by
    have parts : text "a <  f " = [] ++ text "a" ++ text " " ++
        ([] ++ text "<" ++ text "  " ++ ([] ++ text "f" ++ text " ")) := by decide
    rw [parts]
    exact .more nothing (by decide) space (.more nothing (by decide) spaces (.last nothing space))
  have lastSpelled : Spells last.tokens (text "a >> f ") := by
    have parts : text "a >> f " = [] ++ text "a" ++ text " " ++
        ([] ++ text ">>" ++ text " " ++ ([] ++ text "f" ++ text " ")) := by decide
    rw [parts]
    exact .more nothing (by decide) space (.more nothing (by decide) space (.last nothing space))
  have parsed := parse_rendered_pipeline (by decide) (.cons firstSpelled .nil)
    lastSpelled true space .none
  exact ⟨parsed, rfl, rfl⟩

end LinuxCLearning.MiniShell
