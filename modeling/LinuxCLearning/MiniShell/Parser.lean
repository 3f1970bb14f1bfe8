import LinuxCLearning.MiniShell.Shell

/-! The command line parser: background flag, pipes, tokens with quotes, variables and
redirections, in the order of the passes of `parse_line`. Memory allocation succeeds. -/

namespace LinuxCLearning.MiniShell

/-- The environment that `getenv` looks at. No variable has an empty name. -/
structure Environment where
  getenv : Bytes → Option Bytes
  unnamed : getenv [] = none

def isBlank (byte : UInt8) : Bool := byte == 32 || byte == 9

section Variables

/-- A byte of a variable name in the form `$VAR`. -/
def isNameByte (byte : UInt8) : Bool :=
  decide (65 ≤ byte ∧ byte ≤ 90) || decide (97 ≤ byte ∧ byte ≤ 122) ||
    decide (48 ≤ byte ∧ byte ≤ 57) || byte == 95

/-- The value of a variable is appended when it leaves room. -/
def appendValue (env : Environment) (result name : Bytes) : Bytes :=
  match env.getenv name with
  | some value => if result.length + value.length < maxLine - 1 then result ++ value else result
  | none => result

/-- The loop of `expand_variables`. Behind `${VAR}` it steps over one more byte. -/
def expandFrom (env : Environment) (result : Bytes) : Bytes → Bytes
  | [] => result
  | byte :: rest =>
    if result.length ≥ maxLine - 1 then result
    else if byte = 36 ∧ rest ≠ [] then
      if rest.head? = some 123 then
        let inner := rest.drop 1
        let name := (inner.takeWhile (· != 125)).take 255
        let behind := inner.drop name.length
        let closed := if behind.head? = some 125 then behind.drop 1 else behind
        expandFrom env (appendValue env result name) (closed.drop 1)
      else
        let name := (rest.takeWhile isNameByte).take 255
        expandFrom env (appendValue env result name) (rest.drop name.length)
    else expandFrom env (result ++ [byte]) rest
termination_by rest => rest.length
decreasing_by
  · simp only [List.length_drop, List.length_cons]
    split_ifs <;> simp only [List.length_drop] <;> omega
  · simp only [List.length_drop, List.length_cons]
    omega
  · simp

/-- `expand_variables`. -/
def expandVariables (env : Environment) (token : Bytes) : Bytes := expandFrom env [] token

end Variables

section Tokens

/-- The inner loop of `tokenize`: the token and what is left. It does not end when the
token is full and another byte belongs to it. -/
def scanToken (token : Bytes) (inSingle inDouble : Bool) : Bytes → Option (Bytes × Bytes)
  | [] => some (token, [])
  | byte :: rest =>
    if !inSingle && !inDouble && isBlank byte then some (token, byte :: rest)
    else if byte = 39 ∧ inDouble = false then scanToken token (!inSingle) inDouble rest
    else if byte = 34 ∧ inSingle = false then scanToken token inSingle (!inDouble) rest
    else if byte = 92 ∧ inSingle = false then
      match rest with
      | [] => if token.length < maxLine - 1 then some (token ++ [byte], []) else none
      | escaped :: others =>
        if token.length < maxLine - 1 then scanToken (token ++ [escaped]) inSingle inDouble others
        else scanToken token inSingle inDouble (escaped :: others)
    else if token.length < maxLine - 1 then scanToken (token ++ [byte]) inSingle inDouble rest
    else none

/-- Scanning never goes back. -/
theorem scanToken_length {token found rest : Bytes} {inSingle inDouble : Bool} {input : Bytes}
    (scanned : scanToken token inSingle inDouble input = some (found, rest)) :
    rest.length ≤ input.length := by
  fun_induction scanToken token inSingle inDouble input <;> grind

theorem scanToken_start {byte : UInt8} {tail found rest : Bytes} (solid : isBlank byte = false)
    (scanned : scanToken [] false false (byte :: tail) = some (found, rest)) :
    rest.length ≤ tail.length := by
  unfold scanToken at scanned
  split_ifs at scanned with blank single double escape roomEscape room
  · simp [solid] at blank
  · exact scanToken_length scanned
  · exact scanToken_length scanned
  · cases tail with
    | nil => simp_all
    | cons escaped others => exact (scanToken_length scanned).trans (Nat.le_succ _)
  · cases tail with
    | nil => simp_all
    | cons escaped others => exact scanToken_length scanned
  · exact scanToken_length scanned

/-- What is left behind a token is shorter than what it was found in. -/
theorem token_rest_lt {input tail found rest : Bytes} {byte : UInt8}
    (starts : input.dropWhile isBlank = byte :: tail)
    (scanned : scanToken [] false false (byte :: tail) = some (found, rest)) :
    rest.length < input.length := by
  have solid : isBlank byte = false := by
    have first := List.head?_dropWhile_not isBlank input
    simpa [starts] using first
  have shorter := (List.dropWhile_suffix isBlank (l := input)).length_le
  have behind := scanToken_start solid scanned
  rw [starts, List.length_cons] at shorter
  omega

/-- The loop of `tokenize` from a number of arguments on; `none` when it does not end. -/
def tokenizeFrom (env : Environment) (argc : Nat) (input : Bytes) : Option (List Bytes) :=
  if argc ≥ maxArgs - 1 then some []
  else
    match _ : input.dropWhile isBlank with
    | [] => some []
    | byte :: tail =>
      match _ : scanToken [] false false (byte :: tail) with
      | none => none
      | some (token, rest) =>
        if token = [] then tokenizeFrom env argc rest
        else (tokenizeFrom env (argc + 1) rest).map fun argv => expandVariables env token :: argv
termination_by input.length
decreasing_by
  · exact token_rest_lt ‹_› ‹_›
  · exact token_rest_lt ‹_› ‹_›

/-- `tokenize`. -/
def tokenize (env : Environment) (segment : Bytes) : Option (List Bytes) :=
  tokenizeFrom env 0 segment

end Tokens

section Lines

/-- `parse_redirections`: goes through the tokens and completes the command. -/
def parseRedirections (command : Command) : List Bytes → Command
  | [] => command
  | [token] => { command with argv := command.argv ++ [token] }
  | token :: target :: rest =>
    if token = text "<" then parseRedirections { command with inputFile := some target } rest
    else if token = text ">>" then
      parseRedirections { command with outputFile := some target, append := true } rest
    else if token = text ">" then
      parseRedirections { command with outputFile := some target, append := false } rest
    else parseRedirections { command with argv := command.argv ++ [token] } (target :: rest)

/-- What `memset` leaves of a command. -/
def Command.zero : Command := ⟨[], none, none, false, false⟩

/-- The check for a trailing `&`: the line without it, and the flag. -/
def splitBackground (line : Bytes) : Bytes × Bool :=
  let trimmed := line.rdropWhile isBlank
  if trimmed.getLast? = some 38 then (trimmed.dropLast.rdropWhile isBlank, true)
  else (line, false)

/-- The segments that `strtok_r` finds between pipes. -/
def segmentsOf (line : Bytes) : List Bytes := (line.splitOn 124).filter (· ≠ [])

/-- The loop over the segments, for so many more commands; `none` when it does not end. -/
def parseSegments (env : Environment) : (room : Nat) → List Bytes → Option (List Command)
  | 0, _ => some []
  | _, [] => some []
  | room + 1, segment :: segments =>
    match tokenize env segment with
    | none => none
    | some [] => parseSegments env (room + 1) segments
    | some (token :: tokens) =>
      (parseSegments env room segments).map fun commands =>
        parseRedirections .zero (token :: tokens) :: commands

/-- The last command gets the flag of the pipeline. -/
def flagLast (background : Bool) : List Command → List Command
  | [] => []
  | [command] => [{ command with background }]
  | command :: commands => command :: flagLast background commands

/-- What a call of `parse_line` comes to. -/
inductive ParseResult where
  | diverges
  | failure
  | success (pipeline : Pipeline)
  deriving DecidableEq

/-- `parse_line`. -/
def parseLine (env : Environment) (line : Bytes) : ParseResult :=
  let (copy, background) := splitBackground line
  match parseSegments env maxPipes (segmentsOf copy) with
  | none => .diverges
  | some [] => .failure
  | some (command :: commands) => .success ⟨flagLast background (command :: commands), background⟩

end Lines

end LinuxCLearning.MiniShell
