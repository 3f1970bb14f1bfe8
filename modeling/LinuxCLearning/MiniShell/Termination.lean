import LinuxCLearning.MiniShell.Tokens

/-! The lines for which `parse_line` ends. The loop of `tokenize` stands still when its token
is full and another byte is to be stored; a word that it gets through has a derivation by
the rules below. -/

namespace LinuxCLearning.MiniShell
variable {env : Environment}

/-- A byte that stands for itself between the quotes that are open. -/
structure Ordinary (inSingle inDouble : Bool) (byte : UInt8) (rest : Bytes) : Prop where
  inside : isBlank byte = true → inSingle = true ∨ inDouble = true
  no_single : byte = 39 → inDouble = true
  no_double : byte = 34 → inSingle = true
  no_escape : byte = 92 → inSingle = true ∨ rest = []

/-- A word in a token with room for so many bytes: how many of them it stores, and what is
left behind it. Without room it goes on with quote marks and backslashes only. -/
inductive WordFits : Nat → Bool → Bool → Bytes → Nat → Bytes → Prop where
  | finished {room : Nat} {inSingle inDouble : Bool} : WordFits room inSingle inDouble [] 0 []
  | blank {room : Nat} {byte : UInt8} {rest : Bytes} (blank : isBlank byte = true) :
      WordFits room false false (byte :: rest) 0 (byte :: rest)
  | single {room stored : Nat} {inSingle : Bool} {rest left : Bytes}
      (further : WordFits room (!inSingle) false rest stored left) :
      WordFits room inSingle false (39 :: rest) stored left
  | double {room stored : Nat} {inDouble : Bool} {rest left : Bytes}
      (further : WordFits room false (!inDouble) rest stored left) :
      WordFits room false inDouble (34 :: rest) stored left
  | escaped {room stored : Nat} {inDouble : Bool} {byte : UInt8} {rest left : Bytes}
      (further : WordFits room false inDouble rest stored left) :
      WordFits (room + 1) false inDouble (92 :: byte :: rest) (stored + 1) left
  | dropped {stored : Nat} {inDouble : Bool} {byte : UInt8} {rest left : Bytes}
      (further : WordFits 0 false inDouble (byte :: rest) stored left) :
      WordFits 0 false inDouble (92 :: byte :: rest) stored left
  | kept {room stored : Nat} {inSingle inDouble : Bool} {byte : UInt8} {rest left : Bytes}
      (ordinary : Ordinary inSingle inDouble byte rest)
        (further : WordFits room inSingle inDouble rest stored left) :
      WordFits (room + 1) inSingle inDouble (byte :: rest) (stored + 1) left

/-- A segment from a number of words on, each of which fits, and the number of words at
its end. What stands behind the last argument that has a place is not looked at. -/
inductive SegmentFits : Nat → Bytes → Nat → Prop where
  | full {argc : Nat} {input : Bytes} (full : argc ≥ maxArgs - 1) : SegmentFits argc input argc
  | blank {argc : Nat} {input : Bytes} (blank : ∀ byte ∈ input, isBlank byte = true) :
      SegmentFits argc input argc
  | empty {argc final : Nat} {lead input rest : Bytes} (room : argc < maxArgs - 1)
      (blank : ∀ byte ∈ lead, isBlank byte = true)
      (solid : ∃ byte tail, input = byte :: tail ∧ isBlank byte = false)
      (word : WordFits (maxLine - 1) false false input 0 rest)
        (further : SegmentFits argc rest final) :
      SegmentFits argc (lead ++ input) final
  | word {argc final stored : Nat} {lead input rest : Bytes} (room : argc < maxArgs - 1)
      (blank : ∀ byte ∈ lead, isBlank byte = true)
      (solid : ∃ byte tail, input = byte :: tail ∧ isBlank byte = false)
      (word : WordFits (maxLine - 1) false false input (stored + 1) rest)
      (further : SegmentFits (argc + 1) rest final) : SegmentFits argc (lead ++ input) final

/-- Segments that fit, up to the last command that has a place. -/
inductive SegmentsFit : Nat → List Bytes → Prop where
  | full {segments : List Bytes} : SegmentsFit 0 segments
  | done {room : Nat} : SegmentsFit room []
  | empty {room : Nat} {segment : Bytes} {segments : List Bytes} (words : SegmentFits 0 segment 0)
      (further : SegmentsFit (room + 1) segments) : SegmentsFit (room + 1) (segment :: segments)
  | command {room argc : Nat} {segment : Bytes} {segments : List Bytes}
      (words : SegmentFits 0 segment (argc + 1))
      (further : SegmentsFit room segments) : SegmentsFit (room + 1) (segment :: segments)

/-- A line all of whose words that are read fit. -/
def LineFits (line : Bytes) : Prop := SegmentsFit maxPipes (segmentsOf (splitBackground line).1)

section Words

variable {inSingle inDouble : Bool} {byte : UInt8} {rest : Bytes}

theorem Ordinary.of_branches (blank : ¬(!inSingle && !inDouble && isBlank byte) = true)
    (single : ¬(byte = 39 ∧ inDouble = false)) (double : ¬(byte = 34 ∧ inSingle = false))
    (escape : byte = 92 → inSingle = true ∨ rest = []) : Ordinary inSingle inDouble byte rest := by
  refine ⟨?_, ?_, ?_, escape⟩
  · intro isBlank
    cases inSingle <;> cases inDouble <;> simp_all
  · intro quote
    exact Bool.eq_true_of_not_eq_false fun none => single ⟨quote, none⟩
  · intro quote
    exact Bool.eq_true_of_not_eq_false fun none => double ⟨quote, none⟩

theorem scanToken_ordinary (ordinary : Ordinary inSingle inDouble byte rest) {token : Bytes}
    (room : token.length < maxLine - 1) :
    scanToken token inSingle inDouble (byte :: rest) =
      scanToken (token ++ [byte]) inSingle inDouble rest := by
  obtain ⟨inside, no_single, no_double, no_escape⟩ := ordinary
  have blank : ¬(!inSingle && !inDouble && isBlank byte) = true := by
    intro outside
    simp only [Bool.and_eq_true, Bool.not_eq_true'] at outside
    rcases inside outside.2 with open_single | open_double
    · rw [open_single] at outside
      cases outside.1.1
    · rw [open_double] at outside
      cases outside.1.2
  have single : ¬(byte = 39 ∧ inDouble = false) := by
    rintro ⟨quote, none⟩
    rw [no_single quote] at none
    cases none
  have double : ¬(byte = 34 ∧ inSingle = false) := by
    rintro ⟨quote, none⟩
    rw [no_double quote] at none
    cases none
  rw [scanToken.eq_def]
  simp only [if_neg blank, if_neg single, if_neg double]
  split
  · rename_i escape
    rcases no_escape escape.1 with open_single | rfl
    · rw [open_single] at escape
      cases escape.2
    · rfl
  · rfl

theorem scanToken_double (token rest : Bytes) (inDouble : Bool) :
    scanToken token false inDouble (34 :: rest) = scanToken token false (!inDouble) rest := by
  rw [scanToken.eq_def]
  simp [isBlank]

theorem scanToken_slash (token rest : Bytes) (inDouble : Bool) (byte : UInt8) :
    scanToken token false inDouble (92 :: byte :: rest) =
      if token.length < maxLine - 1 then scanToken (token ++ [byte]) false inDouble rest
      else scanToken token false inDouble (byte :: rest) := by
  rw [scanToken.eq_def]
  simp [isBlank]

theorem WordFits.of_scanned {token found left input : Bytes}
    (scanned : scanToken token inSingle inDouble input = some (found, left)) :
    ∃ stored, WordFits (maxLine - 1 - token.length) inSingle inDouble input stored left ∧
      found.length = token.length + stored := by
  have next {token : Bytes} (byte : UInt8) (room : token.length < maxLine - 1) :
      maxLine - 1 - token.length = maxLine - 1 - (token ++ [byte]).length + 1 := by
    rw [List.length_append, List.length_singleton]
    omega
  have longer {token found : Bytes} {byte : UInt8} {stored : Nat}
      (size : found.length = (token ++ [byte]).length + stored) : found.length =
          token.length + (stored + 1) := by
    rw [size, List.length_append, List.length_singleton]
    omega
  fun_induction scanToken token inSingle inDouble input with
  | case1 token inSingle inDouble =>
    cases scanned
    exact ⟨0, .finished, rfl⟩
  | case2 token inSingle inDouble byte rest blank =>
    cases scanned
    simp only [Bool.and_eq_true, Bool.not_eq_true'] at blank
    obtain ⟨⟨rfl, rfl⟩, blank⟩ := blank
    exact ⟨0, .blank blank, rfl⟩
  | case3 token inSingle inDouble byte rest _ quote ih =>
    obtain ⟨rfl, rfl⟩ := quote
    obtain ⟨stored, fits, size⟩ := ih scanned
    exact ⟨stored, .single fits, size⟩
  | case4 token inSingle inDouble byte rest _ _ quote ih =>
    obtain ⟨rfl, rfl⟩ := quote
    obtain ⟨stored, fits, size⟩ := ih scanned
    exact ⟨stored, .double fits, size⟩
  | case5 token inSingle inDouble byte blank single double escape room =>
    cases scanned
    rw [next byte room]
    exact ⟨1, .kept (.of_branches blank single double fun _ => Or.inr rfl) .finished, by simp⟩
  | case6 token inSingle inDouble byte blank single double escape full => cases scanned
  | case7 token inSingle inDouble byte blank single double escape escaped others room ih =>
    obtain ⟨rfl, rfl⟩ := escape
    obtain ⟨stored, fits, size⟩ := ih scanned
    rw [next escaped room]
    exact ⟨stored + 1, .escaped fits, longer size⟩
  | case8 token inSingle inDouble byte blank single double escape escaped others full ih =>
    obtain ⟨rfl, rfl⟩ := escape
    obtain ⟨stored, fits, size⟩ := ih scanned
    rw [Nat.sub_eq_zero_of_le (not_lt.mp full)] at fits ⊢
    exact ⟨stored, .dropped fits, size⟩
  | case9 token inSingle inDouble byte rest blank single double escape room ih =>
    obtain ⟨stored, fits, size⟩ := ih scanned
    rw [next byte room]
    refine ⟨stored + 1, .kept (.of_branches blank single double fun slash => ?_) fits, longer size⟩
    exact Or.inl (Bool.eq_true_of_not_eq_false fun none => escape ⟨slash, none⟩)
  | case10 token inSingle inDouble byte rest blank single double escape full => cases scanned

theorem WordFits.scanned {room stored : Nat} {input left : Bytes}
    (fits : WordFits room inSingle inDouble input stored left) {token : Bytes}
    (size : token.length + room = maxLine - 1) :
    ∃ found, scanToken token inSingle inDouble input = some (found, left) ∧
      found.length = token.length + stored := by
  induction fits generalizing token with
  | finished => exact ⟨token, rfl, rfl⟩
  | blank blank => exact ⟨token, scanToken_delimited (by rintro _ ⟨⟩; exact blank) token, rfl⟩
  | single further ih =>
    rw [scanToken_quote]
    exact ih size
  | double further ih =>
    rw [scanToken_double]
    exact ih size
  | @escaped room stored inDouble byte rest left further ih =>
    obtain ⟨found, scanned, longer⟩ :=
      @ih (token ++ [byte]) (by rw [List.length_append, List.length_singleton]; omega)
    refine ⟨found, ?_, by rw [longer, List.length_append, List.length_singleton]; omega⟩
    rw [scanToken_slash, if_pos (by omega)]
    exact scanned
  | dropped further ih =>
    rw [scanToken_slash, if_neg (by omega)]
    exact ih size
  | @kept room stored inSingle inDouble byte rest left ordinary further ih =>
    obtain ⟨found, scanned, longer⟩ :=
      @ih (token ++ [byte]) (by rw [List.length_append, List.length_singleton]; omega)
    refine ⟨found, ?_, by rw [longer, List.length_append, List.length_singleton]; omega⟩
    rw [scanToken_ordinary ordinary (by omega)]
    exact scanned

end Words

section Segments

theorem SegmentFits.of_tokens {argc : Nat} {input : Bytes} {argv : List Bytes}
    (tokens : tokenizeFrom env argc input = some argv) :
      SegmentFits argc input (argc + argv.length) := by
  have split {input tail : Bytes} {byte : UInt8} (starts : input.dropWhile isBlank = byte :: tail) :
      input = input.takeWhile isBlank ++ byte :: tail ∧ isBlank byte = false := by
    refine ⟨by rw [← starts, List.takeWhile_append_dropWhile], ?_⟩
    have first := List.head?_dropWhile_not isBlank input
    simpa [starts] using first
  have lead {input : Bytes} : ∀ byte ∈ input.takeWhile isBlank, isBlank byte = true :=
    fun byte member => List.mem_takeWhile_imp member
  fun_induction tokenizeFrom env argc input generalizing argv with
  | case1 argc input full =>
    cases tokens
    exact .full full
  | case2 argc input room nothing =>
    cases tokens
    exact .blank (List.dropWhile_eq_nil_iff.mp nothing)
  | case3 argc input room byte tail starts diverges => cases tokens
  | case4 argc input room byte tail starts rest scanned ih =>
    obtain ⟨stored, fits, size⟩ := WordFits.of_scanned scanned
    obtain rfl : stored = 0 := by simpa using size.symm
    rw [(split starts).1]
    exact .empty (not_le.mp room) lead ⟨byte, tail, rfl, (split starts).2⟩ fits (ih tokens)
  | case5 argc input room byte tail starts token rest scanned nonempty ih =>
    obtain ⟨others, found, rfl⟩ := Option.map_eq_some_iff.mp tokens
    obtain ⟨stored, fits, size⟩ := WordFits.of_scanned scanned
    obtain ⟨more, rfl⟩ : ∃ more, stored = more + 1 := by
      apply Nat.exists_eq_succ_of_ne_zero
      rintro rfl
      exact nonempty (List.length_eq_zero_iff.mp (by simpa using size))
    have later := ih found
    rw [(split starts).1, List.length_cons, ← Nat.succ_add_eq_add_succ]
    exact .word (not_le.mp room) lead ⟨byte, tail, rfl, (split starts).2⟩ fits later

theorem SegmentFits.tokens (env : Environment) {argc final : Nat} {input : Bytes}
    (fits : SegmentFits argc input final) :
    ∃ argv, tokenizeFrom env argc input = some argv ∧ final = argc + argv.length := by
  have start : ([] : Bytes).length + (maxLine - 1) = maxLine - 1 := Nat.zero_add _
  induction fits with
  | full full => exact ⟨[], tokenizeFrom_full full _, rfl⟩
  | blank blank => exact ⟨[], tokenizeFrom_blank blank _, rfl⟩
  | empty room blank solid word further ih =>
    obtain ⟨argv, tokens, count⟩ := ih
    obtain ⟨found, scanned, size⟩ := word.scanned start
    obtain rfl : found = [] := List.length_eq_zero_iff.mp size
    exact ⟨argv, by rw [tokenizeFrom_next room blank solid scanned, if_pos rfl, tokens], count⟩
  | word room blank solid word further ih =>
    obtain ⟨argv, tokens, count⟩ := ih
    obtain ⟨found, scanned, size⟩ := word.scanned start
    have nonempty : found ≠ [] := by
      rintro rfl
      simp at size
    refine ⟨expandVariables env found :: argv, ?_, ?_⟩
    · rw [tokenizeFrom_next room blank solid scanned, if_neg nonempty, tokens, Option.map_some]
    · rw [count, List.length_cons]
      omega

theorem SegmentsFit.of_commands {room : Nat} {segments : List Bytes} {commands : List Command}
    (parsed : parseSegments env room segments = some commands) : SegmentsFit room segments := by
  fun_induction parseSegments env room segments generalizing commands with
  | case1 segments => exact .full
  | case2 room => exact .done
  | case3 room segment segments diverges => cases parsed
  | case4 room segment segments nothing ih =>
    have words := SegmentFits.of_tokens nothing
    exact .empty words (ih parsed)
  | case5 room segment segments token tokens tokenized ih =>
    obtain ⟨others, found, -⟩ := Option.map_eq_some_iff.mp parsed
    have words := SegmentFits.of_tokens tokenized
    rw [Nat.zero_add, List.length_cons] at words
    exact .command words (ih found)

theorem SegmentsFit.commands (env : Environment) {room : Nat} {segments : List Bytes}
    (fits : SegmentsFit room segments) :
    ∃ commands, parseSegments env room segments = some commands := by
  induction fits with
  | full => exact ⟨[], by rw [parseSegments]⟩
  | @done room =>
    cases room with
    | zero => exact ⟨[], by rw [parseSegments]⟩
    | succ room => exact ⟨[], by rw [parseSegments]; exact Nat.succ_ne_zero room⟩
  | @empty room segment segments words further ih =>
    obtain ⟨argv, tokens, count⟩ := words.tokens env
    obtain rfl : argv = [] := List.length_eq_zero_iff.mp (by omega)
    obtain ⟨commands, parsed⟩ := ih
    refine ⟨commands, ?_⟩
    rw [parseSegments, tokenize, tokens]
    exact parsed
  | @command room argc segment segments words further ih =>
    obtain ⟨argv, tokens, count⟩ := words.tokens env
    obtain ⟨token, others, rfl⟩ : ∃ token others, argv = token :: others := by
      apply List.exists_cons_of_length_pos
      omega
    obtain ⟨commands, parsed⟩ := ih
    refine ⟨parseRedirections .zero (token :: others) :: commands, ?_⟩
    rw [parseSegments, tokenize, tokens]
    simp only [parsed, Option.map_some]

end Segments

theorem parseLine_ends_iff (env : Environment) (line : Bytes) :
    parseLine env line ≠ .diverges ↔ LineFits line := by
  unfold parseLine LineFits
  generalize splitBackground line = parts
  obtain ⟨copy, background⟩ := parts
  dsimp only
  constructor
  · intro ends
    cases parsed : parseSegments env maxPipes (segmentsOf copy) with
    | none =>
      rw [parsed] at ends
      exact absurd rfl ends
    | some commands => exact .of_commands parsed
  · intro fits
    obtain ⟨commands, parsed⟩ := fits.commands env
    rw [parsed]
    cases commands with
    | nil => nofun
    | cons command commands => nofun

section Short

theorem scanToken_short {token input : Bytes} {inSingle inDouble : Bool}
    (short : token.length + input.length ≤ maxLine - 1) :
    ∃ found rest, scanToken token inSingle inDouble input = some (found, rest) := by
  fun_induction scanToken token inSingle inDouble input with
  | case1 => exact ⟨_, _, rfl⟩
  | case2 => exact ⟨_, _, rfl⟩
  | case3 token inSingle inDouble byte rest _ quote ih =>
    exact ih (by rw [List.length_cons] at short; omega)
  | case4 token inSingle inDouble byte rest _ _ quote ih =>
    exact ih (by rw [List.length_cons] at short; omega)
  | case5 => exact ⟨_, _, rfl⟩
  | case7 token inSingle inDouble byte _ _ _ escape escaped others room ih =>
    apply ih
    simp only [List.length_append, List.length_cons, List.length_nil] at short ⊢
    omega
  | case9 token inSingle inDouble byte rest _ _ _ escape room ih =>
    apply ih
    simp only [List.length_append, List.length_cons, List.length_nil] at short ⊢
    omega
  | _ =>
    rw [List.length_cons] at short
    omega

theorem tokenizeFrom_short {argc : Nat} {input : Bytes} (short : input.length ≤ maxLine - 1) :
    ∃ argv, tokenizeFrom env argc input = some argv := by
  have less {input tail : Bytes} {byte : UInt8} (starts : input.dropWhile isBlank = byte :: tail)
      (short : input.length ≤ maxLine - 1) : (byte :: tail).length ≤ maxLine - 1 := by
    rw [← starts]
    exact (List.dropWhile_sublist _).length_le.trans short
  fun_induction tokenizeFrom env argc input with
  | case1 => exact ⟨[], rfl⟩
  | case2 => exact ⟨[], rfl⟩
  | case3 argc input room byte tail starts diverges =>
    have fits : ([] : Bytes).length + (byte :: tail).length ≤ maxLine - 1 := by
      rw [List.length_nil, Nat.zero_add]
      exact less starts short
    obtain ⟨found, rest, scanned⟩ := @scanToken_short _ _ false false fits
    rw [diverges] at scanned
    cases scanned
  | case4 argc input room byte tail starts rest scanned ih =>
    exact ih ((scanToken_length scanned).trans (less starts short))
  | case5 argc input room byte tail starts token rest scanned nonempty ih =>
    obtain ⟨argv, tokens⟩ := ih ((scanToken_length scanned).trans (less starts short))
    exact ⟨_, by rw [tokens, Option.map_some]⟩

theorem segmentsOf_length {line segment : Bytes} (member : segment ∈ segmentsOf line) :
    segment.length ≤ line.length := by
  obtain ⟨index, found⟩ := List.mem_iff_getElem?.mp (List.mem_of_mem_filter member)
  have inside : segment ∈ (line.splitOn 124).intersperse [124] := by
    apply List.mem_of_getElem? (i := 2 * index)
    rw [List.getElem?_intersperse_two_mul, found]
  have joined : ((line.splitOn 124).intersperse [124]).flatten = line :=
    List.intercalate_splitOn 124
  exact joined ▸ (List.sublist_flatten_of_mem inside).length_le

theorem splitBackground_length (line : Bytes) : (splitBackground line).1.length ≤ line.length := by
  unfold splitBackground
  dsimp only
  split
  · exact (List.rdropWhile_prefix _ _).length_le.trans
      ((List.dropLast_sublist _).length_le.trans (List.rdropWhile_prefix _ _).length_le)
  · exact le_refl _

/-- Every line that is shorter than `MAX_LINE`, as `fgets` gives them, is parsed. -/
theorem parseLine_short {line : Bytes} (short : line.length < maxLine) :
    parseLine env line ≠ .diverges := by
  have within : ∀ segment ∈ segmentsOf (splitBackground line).1, segment.length ≤ maxLine - 1 := by
    intro segment member
    have bound := (segmentsOf_length member).trans (splitBackground_length line)
    exact Nat.le_sub_one_of_lt (bound.trans_lt short)
  have parsed {room : Nat} {segments : List Bytes}
      (all : ∀ segment ∈ segments, segment.length ≤ maxLine - 1) :
      parseSegments env room segments ≠ none := by
    fun_induction parseSegments env room segments with
    | case1 => exact Option.some_ne_none _
    | case2 => exact Option.some_ne_none _
    | case3 room segment segments diverges =>
      obtain ⟨argv, tokens⟩ := @tokenizeFrom_short env 0 segment (all segment List.mem_cons_self)
      rw [tokenize, tokens] at diverges
      cases diverges
    | case4 room segment segments nothing ih =>
      exact ih fun other member => all other (List.mem_cons_of_mem _ member)
    | case5 room segment segments token tokens tokenized ih =>
      rw [ne_eq, Option.map_eq_none_iff]
      exact ih fun other member => all other (List.mem_cons_of_mem _ member)
  have commands := @parsed maxPipes _ within
  unfold parseLine
  generalize splitBackground line = parts at commands ⊢
  obtain ⟨copy, background⟩ := parts
  dsimp only at commands ⊢
  cases found : parseSegments env maxPipes (segmentsOf copy) with
  | none => exact absurd found commands
  | some list =>
    intro same
    cases list with
    | nil => cases same
    | cons command commands => cases same

end Short

/-- `parse_line` ends exactly for the lines whose words fit, and those of all lines shorter than
`MAX_LINE` do. -/
theorem parseLine_terminates_iff (env : Environment) (line : CString) :
    (parseLine env line.bytes ≠ .diverges ↔ LineFits line.bytes) ∧
      (line.length < maxLine → LineFits line.bytes) := by
  have ends := parseLine_ends_iff env line.bytes
  exact ⟨ends, fun short => ends.mp (parseLine_short short)⟩

theorem scanToken_stuck {token rest : Bytes} {byte : UInt8} (plain : isPlain byte = true)
    (full : maxLine - 1 ≤ token.length) : scanToken token false false (byte :: rest) = none := by
  simp only [isPlain, Bool.and_eq_true, Bool.not_eq_true', bne_iff_ne] at plain
  obtain ⟨⟨⟨solid, single⟩, double⟩, backslash⟩ := plain
  rw [scanToken.eq_def]
  simp [solid, single, double, backslash, not_lt.mpr full]

theorem scanToken_overlong {token word : Bytes} (plain : ∀ byte ∈ word, isPlain byte = true)
    (long : maxLine ≤ token.length + word.length) (some_word : word ≠ []) :
      scanToken token false false word = none := by
  induction word generalizing token with
  | nil => exact absurd rfl some_word
  | cons byte word ih =>
    rw [List.length_cons] at long
    have start := plain byte List.mem_cons_self
    by_cases room : token.length < maxLine - 1
    · rw [scanToken_plain start room]
      apply ih
      · exact fun other member => plain other (List.mem_cons_of_mem byte member)
      · rw [List.length_append, List.length_singleton]
        omega
      · rintro rfl
        rw [List.length_nil] at long
        omega
    · exact scanToken_stuck start (not_lt.mp room)

theorem tokenizeFrom_stuck {argc : Nat} (room : argc < maxArgs - 1) {byte : UInt8} {tail : Bytes}
    (solid : isBlank byte = false) (stuck : scanToken [] false false (byte :: tail) = none) :
    tokenizeFrom env argc (byte :: tail) = none := by
  have starts : (byte :: tail).dropWhile isBlank = byte :: tail :=
    List.dropWhile_cons_of_neg (by simp [solid])
  rw [tokenizeFrom, if_neg (not_le.mpr room)]
  split
  · simp_all
  · rename_i first others found
    rw [starts] at found
    cases found
    split
    · rfl
    · simp_all

theorem parseLine_overlong (env : Environment) {start : Bytes} {last : UInt8}
    (plain : ∀ byte ∈ start ++ [last], isPlain byte = true) (pipeless : 124 ∉ start ++ [last])
    (foreground : last ≠ 38)
    (long : maxLine ≤ start.length + 1) : parseLine env (start ++ [last]) = .diverges := by
  have some_word : start ++ [last] ≠ [] :=
    List.append_ne_nil_of_right_ne_nil start (List.cons_ne_nil last [])
  have solid : ∀ byte ∈ start ++ [last], isBlank byte = false := by
    intro byte member
    have plain := plain byte member
    simp only [isPlain, Bool.and_eq_true, Bool.not_eq_true'] at plain
    exact plain.1.1.1
  have split := @splitBackground_foreground start last (solid last (by simp)) foreground
  have stuck : scanToken [] false false (start ++ [last]) = none := by
    apply scanToken_overlong plain _ some_word
    rwa [List.length_append, List.length_nil, Nat.zero_add]
  have diverges : tokenize env (start ++ [last]) = none := by
    obtain ⟨byte, tail, word⟩ := List.exists_cons_of_ne_nil some_word
    rw [word] at stuck ⊢
    exact tokenizeFrom_stuck (by decide) (solid byte (word ▸ List.mem_cons_self)) stuck
  have parsed : parseSegments env maxPipes (segmentsOf (start ++ [last])) = none := by
    rw [segmentsOf_single some_word pipeless]
    simp only [maxPipes, parseSegments, diverges]
  rw [parseLine, split]
  simp only [parsed]

/-- A word of 4096 letters. -/
theorem long_word_diverges :
    parseLine .none (List.replicate 4096 97) = .diverges := by
  rw [List.replicate_succ']
  apply parseLine_overlong
  · intro byte member
    rw [← List.replicate_succ'] at member
    rw [List.eq_of_mem_replicate member]
    rfl
  · intro member
    rw [← List.replicate_succ'] at member
    exact absurd (List.eq_of_mem_replicate member) (by decide)
  · decide
  · rw [List.length_replicate]
    decide

end LinuxCLearning.MiniShell
