import LinuxCLearning.Base.Ctype
import LinuxCLearning.Base.Lines
import LinuxCLearning.SerialTool.SendRecv

/-! Scripts: `script_run` takes a file line by line, and sends, waits for an answer or changes
the log as each line says. -/

namespace LinuxCLearning.SerialTool

/-- `trim`. -/
def trim (string : Bytes) : Bytes := (string.dropWhile isspace).rdropWhile isspace

/-- `strchr`: the string from the first such letter on. -/
def strchr (letter : UInt8) (string : Bytes) : Option Bytes :=
  if letter ∈ string then some (string.dropWhile (· != letter)) else none

/-- `extract_quoted`: what it puts into a buffer of the given size. -/
def extractQuoted (bufSize : Nat) (line : Bytes) : Option Bytes :=
  (strchr 34 line).bind fun start =>
    if 34 ∈ start.drop 1 then some (((start.drop 1).takeWhile (· != 34)).take (bufSize - 1))
    else none

/-- The letters that stand for another one behind a backslash in a `send_recv` line. -/
def sendRecvEscape (letter : UInt8) : Option UInt8 :=
  if letter = 110 then some 10
  else if letter = 114 then some 13
  else if letter = 116 then some 9
  else if letter = 92 then some 92
  else none

/-- Those of a `send` line, which has one for the quote. -/
def sendEscape (letter : UInt8) : Option UInt8 :=
  if letter = 34 then some 34 else sendRecvEscape letter

/-- The loop that processes the escape sequences of a text, for a buffer with room for so many
bytes. -/
def processEscapes (escape : UInt8 → Option UInt8) : (room : Nat) → Bytes → Bytes
  | 0, _ => []
  | _ + 1, [] => []
  | _ + 1, [last] => [last]
  | room + 1, first :: second :: rest =>
    match if first = 92 then escape second else none with
    | some byte => byte :: processEscapes escape room rest
    | none => first :: processEscapes escape room (second :: rest)

/-- The time in ms that follows the second quote of a text, 5000 if there is none. -/
def timeoutBehind (string : Bytes) : Int32 :=
  match (strchr 34 string).bind fun start => strchr 34 (start.drop 1) with
  | none => 5000
  | some after =>
    let after := (after.drop 1).dropWhile isspace
    if after = [] then 5000 else Int32.ofInt (atoi after)

/-- What is chosen outside while a line is carried out: the outcomes of the calls on the port,
what is in `recv_buf` before, and whether `open` of a log file succeeds. -/
structure LineOutside where
  writes : List WriteResult
  results : List RecvResult
  stack : CharArray 4096
  opened : Bool

/-- A script goes on, a call on the port goes on, or what happens is not defined. -/
inductive Progress where
  | running
  | waiting
  | undefined
  deriving DecidableEq

/-- A script behind some lines: the port, what has been sent and logged, and the number of
errors. -/
structure ScriptState where
  port : SerialPort
  sent : Bytes
  logged : List Bytes
  errors : Nat
  progress : Progress

namespace ScriptState

/-- The line counts as an error. -/
def fails (state : ScriptState) : ScriptState := { state with errors := state.errors + 1 }

/-- A call that only sends; a negative value that it returns is an error. -/
def transmit (state : ScriptState) (transmission : Transmission) : ScriptState :=
  let state :=
    { state with sent := state.sent ++ transmission.sent, logged := state.logged ++ transmission.logged }
  match transmission.result with
  | none => { state with progress := .waiting }
  | some ret => if ret < 0 then state.fails else state

/-- A call of `script_send_recv`. -/
def exchange (state : ScriptState) (exchange : Exchange) : ScriptState :=
  let state :=
    { state with sent := state.sent ++ exchange.sent, logged := state.logged ++ exchange.logged }
  match exchange.ended with
  | .returned value _ => if value < 0 then state.fails else state
  | .waiting => { state with progress := .waiting }
  | .outside | .overflow => { state with progress := .undefined }

def runSend (state : ScriptState) (outside : LineOutside) (argument : Bytes) : ScriptState :=
  match extractQuoted 2048 argument with
  | some quoted =>
    let processed := processEscapes sendEscape 2047 quoted
    state.transmit (serialSendStr (some state.port)
      (some (CString.ofBuffer processed)) outside.writes)
  | none =>
    state.transmit (serialSendStr (some state.port)
      (some (CString.ofBuffer argument)) outside.writes)

def runSendHex (state : ScriptState) (outside : LineOutside) (argument : Bytes) : ScriptState :=
  match extractQuoted 2048 argument with
  | some hex =>
    state.transmit (serialSendHex (some state.port) (some (CString.ofBuffer hex)) outside.writes)
  | none =>
    state.transmit (serialSendHex (some state.port)
      (some (CString.ofBuffer argument)) outside.writes)

def runExpect (state : ScriptState) (outside : LineOutside) (argument : Bytes) : ScriptState :=
  match extractQuoted 2048 argument with
  | some pattern =>
    state.exchange (scriptSendRecv (some state.port) none (some outside.stack.bytes)
      (some (CString.ofBuffer pattern))
      (timeoutBehind argument) outside.writes outside.results)
  | none => state.fails

def runSendRecv (state : ScriptState) (outside : LineOutside) (argument : Bytes) : ScriptState :=
  match extractQuoted 2048 argument with
  | some sendText =>
    let next := (((strchr 34 argument).bind fun start => strchr 34 (start.drop 1)).getD []).drop 1
    match extractQuoted 2048 next with
    | some expectText =>
      state.exchange (scriptSendRecv (some state.port)
        (some (CString.ofBuffer (processEscapes sendRecvEscape 2047 sendText)))
        (some outside.stack.bytes) (some (CString.ofBuffer expectText)) (timeoutBehind next)
          outside.writes outside.results)
    | none => state.fails
  | none => state.fails

def runLog (state : ScriptState) (outside : LineOutside) (trimmed : Bytes) : ScriptState :=
  if text "off" <:+: trimmed then { state with port := { state.port with logging := false } }
  else
    match extractQuoted 256 (trimmed.drop 4) with
    | some _ =>
      let state := { state with port := { state.port with logging := outside.opened } }
      if outside.opened then state else state.fails
    | none => state

/-- One line of a script. -/
def runLine (state : ScriptState) (outside : LineOutside) (line : Bytes) : ScriptState :=
  let trimmed := trim (CString.ofBuffer line).bytes
  if trimmed = [] ∨ trimmed.head? = some 35 ∨ trimmed.head? = some 59 then state
  else if text "send " <+: trimmed then state.runSend outside (trimmed.drop 5)
  else if text "send_hex " <+: trimmed then state.runSendHex outside (trimmed.drop 9)
  else if text "expect " <+: trimmed then state.runExpect outside (trimmed.drop 7)
  else if text "wait " <+: trimmed then state
  else if text "send_recv " <+: trimmed then state.runSendRecv outside (trimmed.drop 10)
  else if text "log " <+: trimmed then state.runLog outside trimmed
  else state

/-- The loop of `script_run`, with the number of the line that comes next. -/
def runLines (outside : Nat → LineOutside) (lineNum : Nat) (input : Bytes) (state : ScriptState) :
    ScriptState :=
  if input = [] ∨ state.progress ≠ .running then state
  else
    let line := fgetsLine 4095 input
    runLines outside (lineNum + 1) (input.drop line.length) (state.runLine (outside lineNum) line)
termination_by input.length
decreasing_by exact drop_line_lt (not_or.mp ‹_›).1

end ScriptState

/-- `script_run`: what it has done, and the value that it returns if it does. The file is
`none` when it cannot be opened; its lines are numbered from 1 on. -/
def scriptRun (port : Option SerialPort) (scriptFile : Option Bytes) (outside : Nat → LineOutside) :
    Transmission :=
  match port, scriptFile with
  | some port, some scriptFile =>
    let state := ScriptState.runLines outside 1 scriptFile ⟨port, [], [], 0, .running⟩
    ⟨state.sent, state.logged,
      if state.progress = .running then some (if state.errors > 0 then -1 else 0) else none⟩
  | _, _ => .returns (-1)

/-- How a letter is written in a quoted text. -/
def escapeByte (byte : UInt8) : Bytes :=
  if byte = 10 then [92, 110]
  else if byte = 13 then [92, 114]
  else if byte = 9 then [92, 116]
  else if byte = 92 then [92, 92]
  else if byte = 34 then [92, 34]
  else [byte]

def escapeText (string : Bytes) : Bytes := string.flatMap escapeByte

/-- The line that should send a string. -/
def sendLine (string : Bytes) : Bytes := text "send " ++ 34 :: (escapeText string ++ [34])

section Escaping

/-- A letter is written as itself, or with a backslash and a letter that stands for it. -/
theorem escapeByte_cases (byte : UInt8) :
    (escapeByte byte = [byte] ∧ byte ≠ 92 ∧ byte ≠ 34 ∧ byte ≠ 10) ∨
      ∃ letter, escapeByte byte = [92, letter] ∧ sendEscape letter = some byte ∧
        (letter = 34 ↔ byte = 34) ∧
        letter ≠ 10 ∧ letter ≠ 0 := by
  by_cases newline : byte = 10
  · subst newline
    exact .inr ⟨110, by decide⟩
  by_cases carriage : byte = 13
  · subst carriage
    exact .inr ⟨114, by decide⟩
  by_cases tab : byte = 9
  · subst tab
    exact .inr ⟨116, by decide⟩
  by_cases backslash : byte = 92
  · subst backslash
    exact .inr ⟨92, by decide⟩
  by_cases quote : byte = 34
  · subst quote
    exact .inr ⟨34, by decide⟩
  · refine .inl ⟨?_, backslash, quote, newline⟩
    rw [escapeByte, if_neg newline, if_neg carriage, if_neg tab, if_neg backslash, if_neg quote]

theorem escapeText_cons (byte : UInt8) (string : Bytes) :
    escapeText (byte :: string) = escapeByte byte ++ escapeText string :=
  List.flatMap_cons

theorem escapeText_newline (string : Bytes) : 10 ∉ escapeText string := by
  intro member
  obtain ⟨byte, -, within⟩ := List.mem_flatMap.mp member
  rcases escapeByte_cases byte with ⟨plain, -, -, visible⟩ | ⟨letter, escaped, -, -, visible, -⟩
  · rw [plain, List.mem_singleton] at within
    exact visible within.symm
  · rw [escaped] at within
    simp [visible.symm] at within

theorem escapeText_nulFree {string : Bytes} (nulFree : 0 ∉ string) : 0 ∉ escapeText string := by
  intro member
  obtain ⟨byte, source, within⟩ := List.mem_flatMap.mp member
  rcases escapeByte_cases byte with ⟨plain, -⟩ | ⟨letter, escaped, -, -, -, visible⟩
  · rw [plain, List.mem_singleton] at within
    exact nulFree (within ▸ source)
  · rw [escaped] at within
    simp [visible.symm] at within

theorem length_le_escapeText (string : Bytes) : string.length ≤ (escapeText string).length := by
  induction string with
  | nil => exact le_rfl
  | cons byte string ih =>
    have one : 1 ≤ (escapeByte byte).length := by
      rcases escapeByte_cases byte with ⟨plain, -⟩ | ⟨letter, escaped, -⟩
      · rw [plain]
        exact le_rfl
      · rw [escaped]
        exact Nat.le_succ 1
    rw [escapeText_cons, List.length_append, List.length_cons]
    omega

theorem processEscapes_nil (escape : UInt8 → Option UInt8) (room : Nat) :
    processEscapes escape room [] = [] := by
  cases room <;> rfl

theorem processEscapes_plain (escape : UInt8 → Option UInt8) (room : Nat) {first : UInt8}
    (plain : first ≠ 92) (rest : Bytes) :
    processEscapes escape (room + 1) (first :: rest) =
      first :: processEscapes escape room rest := by
  cases rest with
  | nil => rw [processEscapes, processEscapes_nil]
  | cons second rest => rw [processEscapes, if_neg plain]

theorem processEscapes_escaped {escape : UInt8 → Option UInt8} (room : Nat) {letter byte : UInt8}
    (stands : escape letter = some byte) (rest : Bytes) :
    processEscapes escape (room + 1) (92 :: letter :: rest) =
      byte :: processEscapes escape room rest := by
  rw [processEscapes, if_pos rfl, stands]

/-- The escape sequences of a text that has been written with them are taken back. -/
theorem processEscapes_escapeText {string : Bytes} {room : Nat}
    (fits : string.length ≤ room) (rest : Bytes) :
    processEscapes sendEscape room (escapeText string ++ rest) =
      string ++ processEscapes sendEscape (room - string.length) rest := by
  induction string generalizing room with
  | nil => rfl
  | cons byte string ih =>
    obtain ⟨room, rfl⟩ := Nat.exists_eq_add_one_of_ne_zero (Nat.ne_zero_of_lt fits)
    have behind : room + 1 - (byte :: string).length = room - string.length :=
      Nat.add_sub_add_right _ _ _
    rw [escapeText_cons, behind, List.cons_append, ← ih (Nat.le_of_succ_le_succ fits),
      List.append_assoc]
    rcases escapeByte_cases byte with ⟨plain, backslash, -⟩ | ⟨letter, escaped, stands, -⟩
    · rw [plain]
      exact processEscapes_plain _ _ backslash _
    · rw [escaped]
      exact processEscapes_escaped _ stands _

/-- What stands in front of the first quote of an escaped text: the front of the string up to
its first quote, and the backslash of that one. -/
theorem escapeText_quote (string : Bytes) :
    (escapeText string ++ [34]).takeWhile (· != 34) =
      escapeText (string.takeWhile (· != 34)) ++ if 34 ∈ string then [92] else [] := by
  induction string with
  | nil => rfl
  | cons byte string ih =>
    rw [escapeText_cons, List.append_assoc]
    rcases escapeByte_cases byte with ⟨plain, -, quote, -⟩ | ⟨letter, escaped, -, quote, -, -⟩
    · rw [plain, List.singleton_append, takeWhile_other quote, ih, takeWhile_other quote,
        escapeText_cons, plain]
      simp [Ne.symm quote]
    · rw [escaped]
      by_cases same : byte = 34
      · rw [quote.mpr same, same]
        simp [escapeText]
      · have other : letter ≠ 34 := mt quote.mp same
        rw [List.cons_append, List.cons_append, takeWhile_other (by decide),
          takeWhile_other other, List.nil_append, ih,
          takeWhile_other same, escapeText_cons, escaped]
        simp [Ne.symm same]

end Escaping

/-- The front of a string up to its first quote, with a backslash if there is one. -/
def sentFront (string : Bytes) : Bytes :=
  string.takeWhile (· != 34) ++ if 34 ∈ string then [92] else []

section Sending
variable {string : Bytes}

theorem front_quote (quoted : 34 ∈ string) :
    ∃ rest, string = string.takeWhile (· != 34) ++ 34 :: rest := by
  have split := List.takeWhile_append_dropWhile (p := (· != 34)) (l := string)
  cases behind : string.dropWhile (· != 34) with
  | nil =>
    have all := List.dropWhile_eq_nil_iff.mp behind 34 quoted
    cases all
  | cons byte rest =>
    have stop := List.head?_dropWhile_not (· != 34) string
    rw [behind] at stop
    have same : byte = 34 := by simpa using stop
    rw [behind, same] at split
    exact ⟨rest, split.symm⟩

theorem sentFront_length (string : Bytes) : (sentFront string).length ≤ string.length := by
  rw [sentFront]
  split
  · rename_i quoted
    obtain ⟨rest, parts⟩ := front_quote quoted
    have length := congrArg List.length parts
    rw [List.length_append, List.length_cons] at length
    rw [List.length_append, List.length_singleton]
    omega
  · rw [List.append_nil]
    exact (List.takeWhile_prefix _).length_le

/-- It is the string itself exactly if there is no quote in it. -/
theorem sentFront_eq_iff : sentFront string = string ↔ 34 ∉ string := by
  rw [sentFront]
  split
  · rename_i quoted
    refine iff_of_false ?_ (not_not.mpr quoted)
    obtain ⟨rest, parts⟩ := front_quote quoted
    intro same
    have tails := List.append_cancel_left (same.trans parts)
    cases tails
  · rename_i unquoted
    refine iff_of_true ?_ unquoted
    rw [List.append_nil, List.takeWhile_eq_self_iff]
    intro byte member
    apply bne_iff_ne.mpr
    rintro rfl
    exact unquoted member

/-- The line without its last quote and what is in front of the first one. -/
theorem sendLine_eq (string : Bytes) :
    sendLine string = text "send " ++ ([34] ++ escapeText string) ++ 34 :: [] := by
  rw [sendLine, List.append_assoc]
  rfl

theorem sendLine_newline (string : Bytes) : 10 ∉ sendLine string := by
  have front : 10 ∉ text "send " := by decide +kernel
  rw [sendLine]
  simp [front, escapeText_newline]

theorem sendLine_nulFree (nulFree : 0 ∉ string) : 0 ∉ sendLine string := by
  have front : 0 ∉ text "send " := by decide +kernel
  rw [sendLine]
  simp [front, escapeText_nulFree nulFree]

theorem escapeText_short (string : Bytes) :
    (escapeText string).length < (sendLine string).length := by
  rw [sendLine_eq, List.length_append, List.length_append, List.length_append,
    List.length_singleton]
  omega

theorem trim_sendLine (string : Bytes) : trim (sendLine string ++ [10]) = sendLine string := by
  have start : (sendLine string ++ [10]).dropWhile isspace = sendLine string ++ [10] :=
    List.dropWhile_cons_of_neg (by decide)
  have blank : ∀ byte ∈ ([10] : Bytes), isspace byte = true := by
    intro byte member
    rw [List.mem_singleton.mp member]
    decide
  have ends : (sendLine string).rdropWhile isspace = sendLine string := by
    rw [sendLine_eq, rdropWhile_visible _ (by decide), List.rdropWhile_nil]
  rw [trim, start, rdropWhile_all _ blank, ends]

/-- What is extracted of the line and processed: the front of the string up to its first
quote, with a backslash if there is one. -/
theorem sendLine_processed (short : (sendLine string).length < 2048) :
    (extractQuoted 2048 ((sendLine string).drop 5)).map (processEscapes sendEscape 2047) =
      some (sentFront string) := by
  have argument : (sendLine string).drop 5 = 34 :: (escapeText string ++ [34]) := rfl
  have size := escapeText_short string
  have long := length_le_escapeText string
  have quoted : strchr 34 (34 :: (escapeText string ++ [34])) =
      some (34 :: (escapeText string ++ [34])) := by
    rw [strchr, if_pos List.mem_cons_self]
    rfl
  have front : ((escapeText string ++ [34]).takeWhile (· != 34)).length ≤ 2047 := by
    have part := (List.takeWhile_prefix (· != 34) (l := escapeText string ++ [34])).length_le
    rw [List.length_append, List.length_singleton] at part
    omega
  have unquoted := (List.takeWhile_prefix (· != 34) (l := string)).length_le
  rw [argument, extractQuoted, quoted, Option.bind_some, List.drop_succ_cons,
    List.drop_zero, if_pos (by simp),
    List.take_of_length_le front, Option.map_some, escapeText_quote,
    processEscapes_escapeText (by omega)]
  congr 2
  split
  · obtain ⟨room, room_left⟩ := Nat.exists_eq_add_one_of_ne_zero
      (show 2047 - (string.takeWhile (· != 34)).length ≠ 0 by omega)
    rw [room_left, processEscapes]
  · exact processEscapes_nil _ _

theorem runLines_line (outside : Nat → LineOutside) (lineNum : Nat) {line : Bytes} (one : 10 ∉ line)
    (fits : line.length < 4095)
    (rest : Bytes) {state : ScriptState} (running : state.progress = .running) :
    ScriptState.runLines outside lineNum (line ++ 10 :: rest) state =
      ScriptState.runLines outside (lineNum + 1) rest
        (state.runLine (outside lineNum) (line ++ [10])) := by
  have stored : fgetsLine 4095 (line ++ 10 :: rest) = line ++ [10] := by
    rw [fgetsLine_line one, List.take_of_length_le]
    rw [List.length_append, List.length_singleton]
    omega
  have behind : (line ++ 10 :: rest).drop (line ++ [10]).length = rest := by
    have regroup : line ++ 10 :: rest = (line ++ [10]) ++ rest := by simp
    rw [regroup, List.drop_left]
  have going : ¬(line ++ 10 :: rest = [] ∨ state.progress ≠ .running) := by simp [running]
  rw [ScriptState.runLines, if_neg going, stored]
  dsimp only
  rw [behind]

theorem runLines_nil (outside : Nat → LineOutside) (lineNum : Nat) (state : ScriptState) :
    ScriptState.runLines outside lineNum [] state = state := by
  rw [ScriptState.runLines, if_pos (.inl rfl)]

/-- The line that should send a string sends what is processed of it. -/
theorem runLine_sendLine (nulFree : 0 ∉ string) (short : (sendLine string).length < 2048)
    (state : ScriptState) (outside : LineOutside) :
    state.runLine outside (sendLine string ++ [10]) =
      state.transmit (serialSend (some state.port)
        (some (sentFront string)) outside.writes) := by
  have whole : (CString.ofBuffer (sendLine string ++ [10])).bytes = sendLine string ++ [10] := by
    rw [CString.ofBuffer_whole]
    simp [sendLine_nulFree nulFree]
  have command : ¬(sendLine string = [] ∨ (sendLine string).head? = some 35 ∨
      (sendLine string).head? = some 59) := by
    rintro (empty | comment | comment)
    · cases empty
    · cases comment
    · cases comment
  have sends : text "send " <+: sendLine string := List.prefix_append _ _
  have visible : 0 ∉ sentFront string := by
    rw [sentFront, List.mem_append, not_or]
    refine ⟨fun member => nulFree ((List.takeWhile_prefix _).subset member), ?_⟩
    split
    · decide
    · exact List.not_mem_nil
  obtain ⟨quoted, extracted, processed⟩ := Option.map_eq_some_iff.mp (sendLine_processed short)
  rw [ScriptState.runLine, whole, trim_sendLine, if_neg command, if_pos sends,
    ScriptState.runSend, extracted]
  dsimp only
  rw [processed, serialSendStr, (CString.ofBuffer_whole _).mpr visible]

theorem transmit_success (state : ScriptState) {transmission : Transmission} {count : Int}
    (success : transmission.result = some count) (nonneg : 0 ≤ count) :
    state.transmit transmission =
      { state with sent := state.sent ++ transmission.sent, logged := state.logged ++ transmission.logged } := by
  rw [ScriptState.transmit, success]
  exact if_neg (not_lt.mpr nonneg)

/-- The script of the one line: when the port takes enough bytes, it has taken the front of
the string up to its first quote, with a backslash if there is one. -/
theorem scriptRun_sendLine {port : SerialPort} (opened : port.isOpen = true) (nulFree : 0 ∉ string)
    (short : (sendLine string).length < 2048) {outside : Nat → LineOutside}
    (enough : string.length ≤ accepted (outside 1).writes) :
    (scriptRun (some port) (some (sendLine string ++ [10])) outside).sent =
        sentFront string ∧
      (scriptRun (some port) (some (sendLine string ++ [10])) outside).result = some 0 := by
  have size := sentFront_length string
  have few : string.length < 2048 :=
    (length_le_escapeText string).trans_lt ((escapeText_short string).trans short)
  have counted : Int.bmod (sentFront string).length (2 ^ 32) = (sentFront string).length := by
    apply Int.bmod_eq_of_le
    · omega
    · omega
  have success : (serialSend (some port) (some (sentFront string)) (outside 1).writes).result =
      some ((sentFront string).length : Int) := by
    rw [serialSend_eq opened, if_pos (size.trans enough), SerialPort.finishSend, counted]
  have all : (serialSend (some port) (some (sentFront string)) (outside 1).writes).sent =
      sentFront string := by
    rw [serialSend_eq opened, if_pos (size.trans enough), SerialPort.finishSend]
  have state : ScriptState.runLines outside 1 (sendLine string ++ [10])
      ⟨port, [], [], 0, .running⟩ =
      ⟨port, sentFront string, (serialSend (some port) (some (sentFront string))
          (outside 1).writes).logged, 0, .running⟩ := by
    rw [runLines_line outside 1 (sendLine_newline string) (by omega) [] rfl,
      runLine_sendLine nulFree short, runLines_nil,
      transmit_success _ success (Int.natCast_nonneg _), all, List.nil_append, List.nil_append]
  rw [scriptRun, state]
  exact ⟨rfl, rfl⟩

/-- A script with the line of a string sends exactly this string if and only if there is no
quote in it. -/
theorem scriptRun_send_iff {port : SerialPort} (opened : port.isOpen = true) (nulFree : 0 ∉ string)
    (short : (sendLine string).length < 2048) {outside : Nat → LineOutside}
    (enough : string.length ≤ accepted (outside 1).writes) :
    ((scriptRun (some port) (some (sendLine string ++ [10])) outside).sent = string ∧
        (scriptRun (some port) (some (sendLine string ++ [10])) outside).result = some 0) ↔
          34 ∉ string := by
  obtain ⟨sent, result⟩ := scriptRun_sendLine opened nulFree short enough
  rw [sent, result, sentFront_eq_iff]
  exact and_iff_left rfl

end Sending

/-- Every call takes all that it is given, and nothing arrives. -/
def eagerOutside (_ : Nat) : LineOutside := ⟨[.wrote 2048], [], .ofBytes 4096 [], true⟩

/-- A tab, a backslash, an `n` and an end of line. -/
theorem scriptRun_send_iff_escapes :
    (scriptRun (some ⟨true, false⟩) (some (sendLine [9, 92, 110, 10] ++ [10])) eagerOutside).sent =
      [9, 92, 110, 10] :=
  ((@scriptRun_send_iff [9, 92, 110, 10] ⟨true, false⟩ rfl (by decide)
    (by decide +kernel) eagerOutside
    (by decide +kernel)).mpr (by decide)).1

/-- For a text of one quote a backslash is sent: the text is taken up to the quote in it. -/
theorem scriptRun_quote :
    0 ∉ ([34] : Bytes) ∧ (sendLine [34]).length < 2048 ∧
      (scriptRun (some ⟨true, false⟩) (some (sendLine [34] ++ [10])) eagerOutside).sent = [92] := by
  have sent :=
    (@scriptRun_sendLine [34] ⟨true, false⟩ rfl (by decide) (by decide +kernel) eagerOutside
      (by decide +kernel)).1
  exact ⟨by decide, by decide +kernel, sent⟩

end LinuxCLearning.SerialTool
