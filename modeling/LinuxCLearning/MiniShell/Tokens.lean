import LinuxCLearning.Base.Strtol
import LinuxCLearning.MiniShell.Parser

/-! What the passes of the parser do on the texts they meet: blanks, literal tokens,
tokens that are no redirection, and lines without a pipe. -/

namespace LinuxCLearning.MiniShell
variable {env : Environment}

section Expansion

/-- A token with no `$`, unless at its end, is its own expansion. -/
theorem expandFrom_literal (result : Bytes) {token : Bytes} (literal : 36 ∉ token.dropLast)
    (fits : result.length + token.length < maxLine) :
    expandFrom env result token = result ++ token := by
  induction token generalizing result with
  | nil => simp [expandFrom]
  | cons byte rest ih =>
    have room : ¬result.length ≥ maxLine - 1 := by
      simp only [List.length_cons] at fits
      omega
    have plain : ¬(byte = 36 ∧ rest ≠ []) := by
      intro variable_start
      obtain ⟨dollar, more⟩ := variable_start
      rw [List.dropLast_cons_of_ne_nil more, dollar] at literal
      exact literal (by simp)
    have literalRest : 36 ∉ rest.dropLast := by
      intro member
      have more : rest ≠ [] := by
        intro nothing
        simp [nothing] at member
      rw [List.dropLast_cons_of_ne_nil more] at literal
      exact literal (by simp [member])
    rw [expandFrom, if_neg room, if_neg plain, ih _ literalRest (by simp at fits ⊢; omega)]
    simp

theorem expandVariables_literal {token : Bytes} (literal : 36 ∉ token.dropLast)
    (fits : token.length < maxLine) : expandVariables env token = token := by
  rw [expandVariables, expandFrom_literal [] literal (by simpa using fits), List.nil_append]

/-- No variable is set. -/
def Environment.none : Environment := ⟨fun _ => Option.none, rfl⟩

/-- What is left behind `${VAR}` is part of what is behind the `$`. -/
theorem behind_braces_sublist (rest : Bytes) (skipped : Nat) :
    ((if ((rest.drop 1).drop skipped).head? = some 125 then ((rest.drop 1).drop skipped).drop 1
      else (rest.drop 1).drop skipped).drop 1).Sublist rest := by
  have behind : ((rest.drop 1).drop skipped).Sublist rest :=
    (List.drop_sublist _ _).trans (List.drop_sublist 1 rest)
  apply (List.drop_sublist 1 _).trans
  split_ifs
  · exact (List.drop_sublist 1 _).trans behind
  · exact behind

/-- Without variables an expansion only leaves bytes of the token out. -/
theorem expandFrom_none_sublist (result token : Bytes) :
    (expandFrom .none result token).Sublist (result ++ token) := by
  fun_induction expandFrom Environment.none result token with
  | case1 result => simp
  | case2 result byte rest full => exact List.sublist_append_left _ _
  | case3 result byte rest room starts brace inner name behind closed ih =>
    have kept := (behind_braces_sublist rest name.length).trans (List.sublist_cons_self byte rest)
    exact ih.trans (kept.append_left result)
  | case4 result byte rest room starts brace name ih =>
    have kept := (List.drop_sublist name.length rest).trans (List.sublist_cons_self byte rest)
    exact ih.trans (kept.append_left result)
  | case5 result byte rest room plain ih => simpa using ih

/-- Without variables a `$` with something behind it is lost. -/
theorem expandFrom_none_dollar (result : Bytes) {rest : Bytes} (more : rest ≠ []) :
    (expandFrom .none result (36 :: rest)).Sublist (result ++ rest) := by
  rw [expandFrom]
  split_ifs with full starts brace
  · exact List.sublist_append_left _ _
  · exact (expandFrom_none_sublist _ _).trans ((behind_braces_sublist rest _).append_left result)
  · exact (expandFrom_none_sublist _ _).trans ((List.drop_sublist _ rest).append_left result)
  · exact absurd ⟨rfl, more⟩ starts

theorem expandFrom_none_length (result : Bytes) {token : Bytes} (dollar : 36 ∈ token.dropLast) :
    (expandFrom .none result token).length < result.length + token.length := by
  induction token generalizing result with
  | nil => simp at dollar
  | cons byte rest ih =>
    have more : rest ≠ [] := by
      intro nothing
      simp [nothing] at dollar
    by_cases starts : byte = 36
    · have bound := (expandFrom_none_dollar result more).length_le
      subst starts
      simp only [List.length_append, List.length_cons] at bound ⊢
      omega
    · rw [List.dropLast_cons_of_ne_nil more] at dollar
      have inside : 36 ∈ rest.dropLast := by simpa [Ne.symm starts] using dollar
      rw [expandFrom]
      split_ifs with full variable_start
      · simp
      · exact absurd variable_start.1 starts
      · exact absurd variable_start.1 starts
      · have bound := ih (result ++ [byte]) inside
        simp only [List.length_append, List.length_cons, List.length_nil] at bound ⊢
        omega

/-- Without variables the tokens that stay as they are are the literal ones. -/
theorem expandVariables_none {token : Bytes} (same : expandVariables .none token = token) :
    36 ∉ token.dropLast := by
  intro dollar
  have shorter := expandFrom_none_length [] dollar
  rw [expandVariables] at same
  rw [same] at shorter
  simp at shorter

end Expansion

section Scanning

/-- A byte that stands for itself outside of quotes. -/
def isPlain (byte : UInt8) : Bool :=
  !isBlank byte && byte != 39 && byte != 34 && byte != 92

theorem scanToken_plain {byte : UInt8} {token rest : Bytes} (plain : isPlain byte = true)
    (room : token.length < maxLine - 1) :
    scanToken token false false (byte :: rest) = scanToken (token ++ [byte]) false false rest := by
  simp only [isPlain, Bool.and_eq_true, Bool.not_eq_true', bne_iff_ne] at plain
  obtain ⟨⟨⟨solid, single⟩, double⟩, backslash⟩ := plain
  rw [scanToken.eq_def]
  simp [solid, single, double, backslash, room]

theorem scanToken_quote (token rest : Bytes) (inSingle : Bool) :
    scanToken token inSingle false (39 :: rest) = scanToken token (!inSingle) false rest := by
  rw [scanToken.eq_def]
  simp [isBlank]

theorem scanToken_inside {byte : UInt8} {token : Bytes} (other : byte ≠ 39)
    (room : token.length < maxLine - 1) (rest : Bytes) :
    scanToken token true false (byte :: rest) = scanToken (token ++ [byte]) true false rest := by
  rw [scanToken.eq_def]
  simp [other, room]

theorem scanToken_escape {token : Bytes} (room : token.length < maxLine - 1) (escaped : UInt8)
    (rest : Bytes) :
    scanToken token false false (92 :: escaped :: rest) =
      scanToken (token ++ [escaped]) false false rest := by
  rw [scanToken.eq_def]
  simp [isBlank, room]

/-- A text that ends or goes on with a blank. -/
def Delimited (rest : Bytes) : Prop := ∀ byte, rest.head? = some byte → isBlank byte = true

theorem scanToken_delimited {rest : Bytes} (delimited : Delimited rest) (token : Bytes) :
    scanToken token false false rest = some (token, rest) := by
  cases rest with
  | nil => rfl
  | cons byte tail =>
    have blank := delimited byte rfl
    rw [scanToken.eq_def]
    simp [blank]

theorem scanToken_word {word rest : Bytes} (plain : ∀ byte ∈ word, isPlain byte = true)
    (delimited : Delimited rest) (token : Bytes) (fits : token.length + word.length < maxLine) :
    scanToken token false false (word ++ rest) = some (token ++ word, rest) := by
  induction word generalizing token with
  | nil => simpa using scanToken_delimited delimited token
  | cons byte word ih =>
    have room : token.length < maxLine - 1 := by
      simp only [List.length_cons] at fits
      omega
    rw [List.cons_append, scanToken_plain (plain byte (by simp)) room,
      ih (fun other member => plain other (by simp [member])) _ (by simp at fits ⊢; omega)]
    simp

theorem tokenizeFrom_full {argc : Nat} (full : argc ≥ maxArgs - 1) (input : Bytes) :
    tokenizeFrom env argc input = some [] := by
  rw [tokenizeFrom, if_pos full]

theorem tokenizeFrom_blank {input : Bytes} (blank : ∀ byte ∈ input, isBlank byte = true)
    (argc : Nat) : tokenizeFrom env argc input = some [] := by
  have nothing : input.dropWhile isBlank = [] := List.dropWhile_eq_nil_iff.mpr blank
  rw [tokenizeFrom]
  split_ifs
  · rfl
  · split
    · rfl
    · simp_all

theorem tokenizeFrom_next {argc : Nat} (room : argc < maxArgs - 1) {lead input token rest : Bytes}
    (blank : ∀ byte ∈ lead, isBlank byte = true)
    (solid : ∃ byte tail, input = byte :: tail ∧ isBlank byte = false)
    (scanned : scanToken [] false false input = some (token, rest)) :
    tokenizeFrom env argc (lead ++ input) =
      if token = [] then tokenizeFrom env argc rest
      else (tokenizeFrom env (argc + 1) rest).map fun argv =>
        expandVariables env token :: argv := by
  obtain ⟨byte, tail, rfl, first⟩ := solid
  have starts : (lead ++ byte :: tail).dropWhile isBlank = byte :: tail := by
    rw [List.dropWhile_append_of_pos blank, List.dropWhile_cons_of_neg (by simp [first])]
  rw [tokenizeFrom, if_neg (not_le.mpr room)]
  split
  · simp_all
  · rename_i start others found
    rw [starts] at found
    cases found
    split
    · simp_all
    · rename_i word behind scannedToo
      rw [scanned] at scannedToo
      cases scannedToo
      rfl

end Scanning

section Redirections

/-- A token that redirects when another one follows. -/
def isRedirection (token : Bytes) : Prop :=
  token = text "<" ∨ token = text ">>" ∨ token = text ">"

instance : DecidablePred isRedirection := fun token =>
  inferInstanceAs (Decidable (token = text "<" ∨ token = text ">>" ∨ token = text ">"))

theorem parseRedirections_plain {tokens : List Bytes} (command : Command)
    (plain : ∀ token ∈ tokens.dropLast, ¬isRedirection token) :
    parseRedirections command tokens = { command with argv := command.argv ++ tokens } := by
  fun_induction parseRedirections command tokens with
  | case1 command => simp
  | case2 command token => rfl
  | case3 command target rest ih =>
    exact absurd (.inl rfl) (plain (text "<") (by simp))
  | case4 command target rest different ih =>
    exact absurd (.inr (.inl rfl)) (plain (text ">>") (by simp))
  | case5 command target rest input append ih =>
    exact absurd (.inr (.inr rfl)) (plain (text ">") (by simp))
  | case6 command token target rest input append output ih =>
    rw [ih (fun other member => plain other (by simp [member]))]
    simp

theorem parseRedirections_set {tokens : List Bytes} {command : Command}
    (set : command.inputFile ≠ none ∨ command.outputFile ≠ none) :
    (parseRedirections command tokens).inputFile ≠ none ∨
      (parseRedirections command tokens).outputFile ≠ none := by
  fun_induction parseRedirections command tokens with
  | case1 command => exact set
  | case2 command token => exact set
  | case3 command target rest ih => exact ih (.inl (by simp))
  | case4 command target rest different ih => exact ih (.inr (by simp))
  | case5 command target rest input append ih => exact ih (.inr (by simp))
  | case6 command token target rest input append output ih => exact ih set

theorem parseRedirections_none {tokens : List Bytes} {command : Command}
    (input : (parseRedirections command tokens).inputFile = none)
    (output : (parseRedirections command tokens).outputFile = none) :
    ∀ token ∈ tokens.dropLast, ¬isRedirection token := by
  fun_induction parseRedirections command tokens with
  | case1 command => simp
  | case2 command token => simp
  | case3 command target rest ih =>
    exact (parseRedirections_set (.inl (by simp))).elim (absurd input) (absurd output)
  | case4 command target rest notInput ih =>
    exact (parseRedirections_set (.inr (by simp))).elim (absurd input) (absurd output)
  | case5 command target rest notInput notAppend ih =>
    exact (parseRedirections_set (.inr (by simp))).elim (absurd input) (absurd output)
  | case6 command token target rest notInput notAppend notOutput ih =>
    intro other member
    rw [List.dropLast_cons_of_ne_nil (by simp), List.mem_cons] at member
    rcases member with same | inside
    · rw [same]
      simp [isRedirection, notInput, notAppend, notOutput]
    · exact ih input output other inside

theorem parseRedirections_argv {tokens : List Bytes} (command : Command) :
    ∀ argument ∈ (parseRedirections command tokens).argv,
      argument ∈ command.argv ∨ argument ∈ tokens := by
  fun_induction parseRedirections command tokens with
  | case1 command => simp
  | case2 command token => simp
  | case3 command target rest ih =>
    exact fun argument member => (ih argument member).imp_right fun inside => by simp [inside]
  | case4 command target rest notInput ih =>
    exact fun argument member => (ih argument member).imp_right fun inside => by simp [inside]
  | case5 command target rest notInput notAppend ih =>
    exact fun argument member => (ih argument member).imp_right fun inside => by simp [inside]
  | case6 command token target rest notInput notAppend notOutput ih =>
    intro argument member
    have found := ih argument member
    simp only [List.mem_append, List.mem_cons, List.not_mem_nil, or_false] at found ⊢
    grind

end Redirections

section Pipes

theorem scanToken_bytes {token found rest input : Bytes} {inSingle inDouble : Bool}
    (scanned : scanToken token inSingle inDouble input = some (found, rest)) :
    (∀ byte ∈ found, byte ∈ token ∨ byte ∈ input) ∧ ∀ byte ∈ rest, byte ∈ input := by
  fun_induction scanToken token inSingle inDouble input <;> grind

theorem tokenizeFrom_bytes {argc : Nat} {input : Bytes} {argv : List Bytes}
    (tokens : tokenizeFrom .none argc input = some argv) :
    ∀ argument ∈ argv, ∀ byte ∈ argument, byte ∈ input := by
  fun_induction tokenizeFrom Environment.none argc input generalizing argv with
  | case1 argc input full => simp_all
  | case2 argc input room nothing => simp_all
  | case3 argc input room byte tail starts diverges => simp at tokens
  | case4 argc input room byte tail starts rest scanned ih =>
    have within : ∀ other ∈ byte :: tail, other ∈ input := fun other member =>
      (List.dropWhile_suffix isBlank).subset (starts ▸ member)
    intro argument member other inside
    exact within other ((scanToken_bytes scanned).2 other (ih tokens argument member other inside))
  | case5 argc input room byte tail starts token rest scanned nonempty ih =>
    have within : ∀ other ∈ byte :: tail, other ∈ input := fun other member =>
      (List.dropWhile_suffix isBlank).subset (starts ▸ member)
    obtain ⟨others, found, rfl⟩ := Option.map_eq_some_iff.mp tokens
    obtain ⟨ofToken, ofRest⟩ := scanToken_bytes scanned
    intro argument member other inside
    apply within
    rcases List.mem_cons.mp member with rfl | later
    · have kept := (expandFrom_none_sublist [] token).subset inside
      simpa using ofToken other (by simpa using kept)
    · exact ofRest other (ih found argument later other inside)

theorem segmentsOf_no_pipe (line : Bytes) : ∀ segment ∈ segmentsOf line, 124 ∉ segment := by
  intro segment member
  have split : segment ∈ line.splitOn 124 := List.mem_of_mem_filter member
  clear member
  rw [List.splitOn_eq_splitOnP] at split
  induction line generalizing segment with
  | nil =>
    have same : segment = [] := by simpa using split
    simp [same]
  | cons byte line ih =>
    rw [List.splitOnP_cons_eq_if_modifyHead] at split
    split_ifs at split with pipe
    · rcases List.mem_cons.mp split with same | later
      · simp [same]
      · exact ih segment later
    · obtain ⟨head, tail, parts⟩ :=
        List.exists_cons_of_ne_nil (List.splitOnP_ne_nil (· == (124 : UInt8)) line)
      rw [parts] at ih split
      rw [List.modifyHead_cons, List.mem_cons] at split
      rcases split with same | later
      · have rest := ih head (by simp)
        have different : 124 ≠ byte := fun equal => pipe (by simp [← equal])
        simp [same, different, rest]
      · exact ih segment (by simp [later])

theorem segmentsOf_single {line : Bytes} (nonempty : line ≠ []) (pipeless : 124 ∉ line) :
    segmentsOf line = [line] := words_single pipeless nonempty

theorem parseSegments_no_pipe {room : Nat} {segments : List Bytes} {commands : List Command}
    (pipeless : ∀ segment ∈ segments, 124 ∉ segment)
    (parsed : parseSegments .none room segments = some commands) :
    ∀ command ∈ commands, ∀ argument ∈ command.argv, 124 ∉ argument := by
  fun_induction parseSegments Environment.none room segments generalizing commands with
  | case1 segments => simp_all
  | case2 room => simp_all
  | case3 room segment segments diverges => simp at parsed
  | case4 room segment segments nothing ih =>
    exact ih (fun other member => pipeless other (by simp [member])) parsed
  | case5 room segment segments token tokens tokenized ih =>
    obtain ⟨others, found, rfl⟩ := Option.map_eq_some_iff.mp parsed
    intro command member argument inside pipe
    rcases List.mem_cons.mp member with rfl | later
    · rcases parseRedirections_argv .zero argument inside with never | among
      · simp [Command.zero] at never
      · exact pipeless segment (by simp) (tokenizeFrom_bytes tokenized argument among 124 pipe)
    · exact ih (fun other member => pipeless other (by simp [member])) found command later argument
        inside pipe

end Pipes

section Lines

/-- A line that ends in another byte than a blank or `&` is taken as it is. -/
theorem splitBackground_foreground {start : Bytes} {last : UInt8} (solid : isBlank last = false)
    (foreground : last ≠ 38) : splitBackground (start ++ [last]) = (start ++ [last], false) := by
  have trimmed : (start ++ [last]).rdropWhile isBlank = start ++ [last] :=
    List.rdropWhile_concat_neg isBlank start last (by simp [solid])
  simp [splitBackground, trimmed, foreground]

@[simp] theorem parseRedirections_background (command : Command) (tokens : List Bytes) :
    (parseRedirections command tokens).background = command.background := by
  fun_induction parseRedirections command tokens <;> simp_all

theorem mem_flagLast {background : Bool} {commands : List Command} {command : Command}
    (member : command ∈ flagLast background commands) :
    ∃ original ∈ commands, command.argv = original.argv := by
  induction commands using flagLast.induct with
  | case1 => simp [flagLast] at member
  | case2 first =>
    have same : command = { first with background } := by simpa [flagLast] using member
    exact ⟨first, by simp, by rw [same]⟩
  | case3 first others more ih =>
    rw [flagLast, List.mem_cons] at member
    · rcases member with same | later
      · exact ⟨first, by simp, by rw [same]⟩
      · obtain ⟨original, inside, argv⟩ := ih later
        exact ⟨original, by simp [inside], argv⟩
    · exact more

theorem parseLine_success {line : Bytes} {pipeline : Pipeline}
    (parsed : parseLine env line = .success pipeline) :
    ∃ commands, parseSegments env maxPipes (segmentsOf (splitBackground line).1) = some commands ∧
      pipeline = ⟨flagLast (splitBackground line).2 commands, (splitBackground line).2⟩ := by
  simp only [parseLine] at parsed
  split at parsed
  · cases parsed
  · cases parsed
  · rename_i command commands found
    cases parsed
    exact ⟨_, found, rfl⟩

theorem parseLine_of_segments {line copy : Bytes} {background : Bool} {commands : List Command}
    (split : splitBackground line = (copy, background))
    (parsed : parseSegments env maxPipes (segmentsOf copy) = some commands)
    (some_command : commands ≠ []) :
    parseLine env line = .success ⟨flagLast background commands, background⟩ := by
  obtain ⟨command, others, rfl⟩ := List.exists_cons_of_ne_nil some_command
  simp [parseLine, split, parsed]

/-- A line without pipes and without `&` at its end. -/
theorem parseLine_single {line : Bytes} {tokens : List Bytes} (nonempty : line ≠ [])
    (pipeless : 124 ∉ line) (foreground : splitBackground line = (line, false))
    (tokenized : tokenize env line = some tokens) (some_token : tokens ≠ []) :
    parseLine env line = .success ⟨[parseRedirections .zero tokens], false⟩ := by
  obtain ⟨token, others, rfl⟩ := List.exists_cons_of_ne_nil some_token
  have parsed : parseSegments env maxPipes (segmentsOf line) =
      some [parseRedirections .zero (token :: others)] := by
    rw [segmentsOf_single nonempty pipeless]
    simp [parseSegments, maxPipes, tokenized]
  have unflagged : (parseRedirections .zero (token :: others)).background = false :=
    parseRedirections_background .zero (token :: others)
  rw [parseLine_of_segments foreground parsed (by simp), flagLast, ← unflagged]

end Lines

end LinuxCLearning.MiniShell
