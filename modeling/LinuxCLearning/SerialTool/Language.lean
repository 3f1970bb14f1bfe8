import LinuxCLearning.SerialTool.Script
import LinuxCLearning.SerialTool.SendHex

/-! The language of the scripts: what a script says, written line by line as the
interpreter reads it, is what the interpreter does. -/

namespace LinuxCLearning.SerialTool

/-- The lines of a script. The bytes of `sendHex` come with their notation; a timeout that
is not given is 5000 ms. -/
inductive Instruction where
  | remark (comment : Bytes)
  | blank
  | send (string : Bytes)
  | sendHex (data hex : Bytes)
  | expect (pattern : Bytes) (timeout : Option Nat)
  | sendRecv (string pattern : Bytes) (timeout : Option Nat)
  | wait (ms : Nat)
  | log (filename : Bytes)
  | logOff

def quoted (word : Bytes) : Bytes := 34 :: (word ++ [34])

def timeoutText : Option Nat → Bytes
  | none => []
  | some ms => 32 :: decimal ms

namespace Instruction

/-- The line of an instruction. -/
def render : Instruction → Bytes
  | remark comment => 35 :: comment
  | blank => []
  | send string => text "send " ++ quoted (escapeText string)
  | sendHex _ hex => text "send_hex " ++ quoted hex
  | expect pattern timeout => text "expect " ++ (quoted pattern ++ timeoutText timeout)
  | sendRecv string pattern timeout =>
    text "send_recv " ++ (quoted (escapeText string) ++
      (text " " ++ (quoted pattern ++ timeoutText timeout)))
  | wait ms => text "wait " ++ decimal ms
  | log filename => text "log " ++ quoted filename
  | logOff => text "log off"

/-- The bytes that go to the port. -/
def bytes : Instruction → Bytes
  | send string => string
  | sendHex data _ => data
  | sendRecv string _ _ => string
  | _ => []

/-- What is written to the log, when there is one. An empty `send` is logged, too. -/
def record : Instruction → List Bytes
  | send string => [text ">> ", string, text "\n"]
  | sendHex data _ => if data = [] then [] else [text ">> ", data, text "\n"]
  | sendRecv string _ _ => if string = [] then [] else [text ">> ", string, text "\n"]
  | _ => []

/-- Whether there is a log behind the instruction. -/
def logging (before : Bool) (outside : LineOutside) : Instruction → Bool
  | log _ => outside.opened
  | logOff => false
  | _ => before

/-- The time to wait for an answer. -/
def time (timeout : Option Nat) : Nat := timeout.getD 5000

/-- What the script asks of the outside: the text that it expects is in what arrives in
time, and the log can be opened. -/
def Met (outside : LineOutside) : Instruction → Prop
  | expect pattern timeout | sendRecv _ pattern timeout =>
    pattern <:+: collected ⟨true, false⟩ 4095 [] outside.results (recvCalls (time timeout))
  | log _ => outside.opened = true
  | _ => True

instance (outside : LineOutside) (instruction : Instruction) :
    Decidable (instruction.Met outside) := by
  cases instruction <;> simp only [Met] <;> infer_instance

/-- A word between quotes: there is no escape for a quote in it, and a line ends at the
first newline or NUL. -/
structure Plain (word : Bytes) : Prop where
  unquoted : 34 ∉ word
  nulFree : 0 ∉ word
  one : 10 ∉ word

/-- A string whose escape sequences stand between quotes. -/
structure Sendable (string : Bytes) : Prop where
  unquoted : 34 ∉ string
  nulFree : 0 ∉ string

/-- A text to expect and the time for it, within the bounds of the `int` that counts it. -/
structure Expectable (pattern : Bytes) (timeout : Option Nat) : Prop where
  plain : Plain pattern
  something : pattern ≠ []
  counted : time timeout ≤ 2147483600

/-- The instructions that the language can say. -/
def WellFormed : Instruction → Prop
  | remark comment => 0 ∉ comment ∧ 10 ∉ comment
  | send string => Sendable string
  | sendHex data hex => HexText data hex
  | expect pattern timeout => Expectable pattern timeout
  | sendRecv string pattern timeout => Sendable string ∧ Expectable pattern timeout
  | log filename => Plain filename ∧ filename.length < 256 ∧ ¬text "off" <:+: filename
  | blank | wait _ | logOff => True

/-- What the port does while an instruction is carried out: it takes all bytes, and the
reads that there is time for return, with text. -/
structure Served (outside : LineOutside) (instruction : Instruction) : Prop where
  takes : instruction.bytes.length ≤ accepted outside.writes
  visible : ∀ chunk, .data chunk ∈ outside.results → 0 ∉ chunk.bytes
  returns : ∀ pattern timeout, (instruction = expect pattern timeout ∨
    ∃ string, instruction = sendRecv string pattern timeout) →
      recvCalls (time timeout) ≤ outside.results.length

/-- What an instruction means. -/
def effect (outside : LineOutside) (instruction : Instruction) (state : ScriptState) :
    ScriptState :=
  { state with
    port.logging := instruction.logging state.port.logging outside
    sent := state.sent ++ instruction.bytes
    logged := state.logged ++ if state.port.logging then instruction.record else []
    errors := state.errors + if instruction.Met outside then 0 else 1 }

end Instruction

/-- The text of a script. -/
def scriptText (program : List Instruction) : Bytes :=
  program.flatMap fun instruction => instruction.render ++ [10]

section Reading
variable {front word rest : Bytes}

theorem strchr_front (absent : 34 ∉ front) (rest : Bytes) :
    strchr 34 (front ++ 34 :: rest) = some (34 :: rest) := by
  have kept : ∀ byte ∈ front, (byte != 34) = true := by
    intro byte member
    exact bne_iff_ne.mpr fun same => absent (same ▸ member)
  have behind : (front ++ 34 :: rest).dropWhile (· != 34) = 34 :: rest := by
    apply dropWhile_stops kept
    rintro _ ⟨⟩
    rfl
  rw [strchr, if_pos (by simp), behind]

theorem extractQuoted_word (absent : 34 ∉ front) (unquoted : 34 ∉ word) {bufSize : Nat}
    (fits : word.length < bufSize)
    (rest : Bytes) : extractQuoted bufSize (front ++ (quoted word ++ rest)) = some word := by
  have start : front ++ (quoted word ++ rest) = front ++ 34 :: (word ++ 34 :: rest) := by
    simp [quoted]
  have kept : ∀ byte ∈ word, (byte != 34) = true := by
    intro byte member
    exact bne_iff_ne.mpr fun same => unquoted (same ▸ member)
  have taken : (word ++ 34 :: rest).takeWhile (· != 34) = word := by
    apply takeWhile_stops kept
    rintro _ ⟨⟩
    rfl
  rw [start, extractQuoted, strchr_front absent, Option.bind_some, List.drop_succ_cons,
    List.drop_zero, taken,
    if_pos (by simp), List.take_of_length_le (Nat.le_sub_one_of_lt fits)]

theorem behind_word (absent : 34 ∉ front) (unquoted : 34 ∉ word) (rest : Bytes) :
    ((strchr 34 (front ++ (quoted word ++ rest))).bind fun start => strchr 34 (start.drop 1)) =
      some (34 :: rest) := by
  have start : front ++ (quoted word ++ rest) = front ++ 34 :: (word ++ 34 :: rest) := by
    simp [quoted]
  rw [start, strchr_front absent, Option.bind_some, List.drop_succ_cons, List.drop_zero,
    strchr_front unquoted]

theorem decimal_visible (number : Nat) : ∀ byte ∈ decimal number, isspace byte = false := by
  intro byte member
  exact (digit_plain ((decimal_value number).1 byte member)).1

theorem timeoutBehind_word (absent : 34 ∉ front) (unquoted : 34 ∉ word) {timeout : Option Nat}
    (counted : Instruction.time timeout ≤ 2147483600) :
    (timeoutBehind (front ++ (quoted word ++ timeoutText timeout))).toInt =
      Instruction.time timeout := by
  rw [timeoutBehind, behind_word absent unquoted]
  cases timeout with
  | none => rfl
  | some ms =>
    have digits : (32 :: decimal ms).dropWhile isspace = decimal ms := by
      have first := @dropWhile_stops isspace [32] (by simp [isspace]) (decimal ms)
      apply first
      intro byte head
      exact decimal_visible ms byte (List.mem_of_mem_head? head)
    have small : (ms : Int) ≤ 2147483600 := by exact_mod_cast counted
    simp only [timeoutText, List.drop_succ_cons, List.drop_zero, digits,
      if_neg (decimal_ne_nil ms), atoi_decimal]
    have inside : Int.bmod ms (2 ^ 32) = ms := Int.bmod_eq_of_le (by omega) (by omega)
    rw [min_eq_right (by omega), Int32.toInt_ofInt, inside]
    exact inside

/-- A line that begins and ends with a visible letter is taken as it is. -/
theorem trim_line {line : Bytes} (some_line : line ≠ [])
    (start : isspace (line.head some_line) = false)
    (stop : isspace (line.getLast some_line) = false) : trim (line ++ [10]) = line := by
  have blank : ∀ byte ∈ ([10] : Bytes), isspace byte = true := by
    intro byte member
    rw [List.mem_singleton.mp member]
    rfl
  have front : (line ++ [10]).dropWhile isspace = line ++ [10] := by
    obtain ⟨first, rest, rfl⟩ := List.exists_cons_of_ne_nil some_line
    exact List.dropWhile_cons_of_neg (by rw [show isspace first = false from start]; decide)
  have back : line.rdropWhile isspace = line := by
    apply List.rdropWhile_eq_self_iff.mpr
    intro _
    rw [stop]
    decide
  rw [trim, front, rdropWhile_all _ blank, back]

/-- Whatever ends a line with a quoted word and a time is visible. -/
theorem getLast_timeout (front word : Bytes) (timeout : Option Nat)
    (some_line : front ++ (quoted word ++ timeoutText timeout) ≠ []) :
    isspace ((front ++ (quoted word ++ timeoutText timeout)).getLast some_line) = false := by
  cases timeout with
  | none => simp [quoted, timeoutText, isspace]
  | some ms =>
    have digits := decimal_ne_nil ms
    have split : front ++ (quoted word ++ timeoutText (some ms)) =
        (front ++ quoted word ++ [32]) ++ decimal ms := by
      simp [timeoutText]
    simp only [split, List.getLast_append_of_ne_nil _ digits]
    exact decimal_visible ms _ (List.getLast_mem digits)

theorem apart_of_words {first second : Bytes} (one : ¬first <+: second)
    (other : ¬second <+: first) (rest : Bytes) :
    ¬first <+: second ++ rest := by
  intro both
  rcases List.prefix_or_prefix_of_prefix both (List.prefix_append second rest) with shorter | longer
  · exact one shorter
  · exact other longer

/-- A word stands on one side of a letter that it does not have. -/
theorem infix_separated {letter : UInt8} (absent : letter ∉ word)
    (inside : word <:+: front ++ letter :: rest) :
    word <:+: front ∨ word <:+: rest := by
  obtain ⟨before, behind, whole⟩ := inside
  rcases List.append_eq_append_iff.mp whole with ⟨more, rfl, _⟩ | ⟨more, split, tail⟩
  · exact .inl ⟨before, more, rfl⟩
  · cases more with
    | nil =>
      rw [List.append_nil] at split
      exact .inl ⟨before, [], by rw [List.append_nil, split]⟩
    | cons first more =>
      obtain ⟨rfl, rfl⟩ := List.cons.inj tail
      rcases List.append_eq_append_iff.mp split with ⟨late, rfl, parts⟩ | ⟨late, rfl, parts⟩
      · exact absurd (parts ▸ by simp) absent
      · cases late with
        | nil => exact absurd (List.nil_append word ▸ parts ▸ List.mem_cons_self) absent
        | cons other late =>
          obtain ⟨rfl, rfl⟩ := List.cons.inj parts
          exact .inr ⟨late, behind, rfl⟩

/-- Escape sequences without a quote are taken back in both kinds of line. -/
theorem processEscapes_unquoted {string : Bytes} (unquoted : 34 ∉ string) {room : Nat}
    (fits : string.length ≤ room) :
    processEscapes sendRecvEscape room (escapeText string) = string := by
  induction string generalizing room with
  | nil => exact processEscapes_nil _ _
  | cons byte string ih =>
    obtain ⟨room, rfl⟩ := Nat.exists_eq_add_one_of_ne_zero (Nat.ne_zero_of_lt fits)
    have rest := ih (fun member => unquoted (List.mem_cons_of_mem _ member))
      (Nat.le_of_succ_le_succ fits)
    rw [escapeText_cons]
    rcases escapeByte_cases byte with ⟨plain, backslash, -⟩ | ⟨letter, escaped, stands, quote, -⟩
    · rw [plain, List.singleton_append, processEscapes_plain _ _ backslash, rest]
    · have other : letter ≠ 34 := fun same => unquoted (quote.mp same ▸ List.mem_cons_self)
      rw [sendEscape, if_neg other] at stands
      rw [escaped, List.cons_append, List.singleton_append, processEscapes_escaped _ stands, rest]

theorem escapeText_unquoted {string : Bytes} (unquoted : 34 ∉ string) : 34 ∉ escapeText string := by
  intro member
  obtain ⟨byte, source, within⟩ := List.mem_flatMap.mp member
  rcases escapeByte_cases byte with ⟨plain, -, visible, -⟩ | ⟨letter, escaped, -, quote, -⟩
  · rw [plain, List.mem_singleton] at within
    exact visible within.symm
  · rw [escaped] at within
    rcases List.mem_cons.mp within with backslash | last
    · cases backslash
    · have same := quote.mp (List.mem_singleton.mp last).symm
      exact unquoted (same ▸ source)

theorem HexText.letters {data hex : Bytes} (written : HexText data hex) :
    2 * data.length ≤ hex.length ∧ ∀ letter ∈ hex, letter ≠ 34 ∧ letter ≠ 0 ∧ letter ≠ 10 := by
  induction written with
  | nil blank =>
    refine ⟨Nat.zero_le _, ?_⟩
    intro letter member
    have space := blank letter member
    refine ⟨?_, ?_, ?_⟩ <;> rintro rfl <;> cases space
  | @cons blanks bytes text high low byte blank digits more ih =>
    constructor
    · simp only [List.length_append, List.length_cons]
      omega
    · intro letter member
      rcases List.mem_append.mp member with front | behind
      · have space := blank letter front
        refine ⟨?_, ?_, ?_⟩ <;> rintro rfl <;> cases space
      · rcases List.mem_cons.mp behind with rfl | behind
        · have digit := digits.high
          refine ⟨?_, ?_, ?_⟩ <;> rintro rfl <;> cases digit
        · rcases List.mem_cons.mp behind with rfl | behind
          · have digit := digits.low
            refine ⟨?_, ?_, ?_⟩ <;> rintro rfl <;> cases digit
          · exact ih.2 letter behind

end Reading

section Lines
variable {state : ScriptState} {outside : LineOutside}

theorem line_whole {line : Bytes} (nulFree : 0 ∉ line) :
    (CString.ofBuffer (line ++ [10])).bytes = line ++ [10] := by
  rw [CString.ofBuffer_whole]
  simp [nulFree]

/-- A line from a small letter to a visible one is searched for a keyword. -/
theorem runLine_word {line : Bytes} (visible : 0 ∉ line) (some_line : line ≠ [])
    (lead : 97 ≤ line.head some_line) (stop : isspace (line.getLast some_line) = false) :
    state.runLine outside (line ++ [10]) =
      if text "send " <+: line then state.runSend outside (line.drop 5)
      else if text "send_hex " <+: line then state.runSendHex outside (line.drop 9)
      else if text "expect " <+: line then state.runExpect outside (line.drop 7)
      else if text "wait " <+: line then state
      else if text "send_recv " <+: line then state.runSendRecv outside (line.drop 10)
      else if text "log " <+: line then state.runLog outside line
      else state := by
  have start : isspace (line.head some_line) = false := by
    rw [isspace, Bool.or_eq_false_iff, decide_eq_false_iff_not, beq_eq_false_iff_ne]
    constructor
    · intro control
      exact absurd (UInt8.le_trans lead control.2) (by decide)
    · intro blank
      exact absurd (blank ▸ lead) (by decide)
  have command : ¬(line = [] ∨ line.head? = some 35 ∨ line.head? = some 59) := by
    rw [List.head?_eq_some_head some_line]
    rintro (empty | comment | comment)
    · exact some_line empty
    · exact absurd (Option.some.inj comment ▸ lead) (by decide)
    · exact absurd (Option.some.inj comment ▸ lead) (by decide)
  rw [ScriptState.runLine, line_whole visible, trim_line some_line start stop]
  exact if_neg command

theorem transmit_taken (opened : state.port.isOpen = true) {data : Bytes}
    (small : data.length < 2 ^ 31) (taken : data.length ≤ accepted outside.writes) :
    state.transmit (serialSend (some state.port) (some data) outside.writes) =
      { state with
        sent := state.sent ++ data
        logged := state.logged ++ if state.port.logging then
            [text ">> ", data, text "\n"] else [] } := by
  have counted : Int.bmod data.length (2 ^ 32) = data.length :=
    Int.bmod_eq_of_le (by omega) (by omega)
  have all : serialSend (some state.port) (some data) outside.writes =
      state.port.finishSend data data.length data := by
    rw [serialSend_eq opened, if_pos taken]
  rw [all, SerialPort.finishSend, counted]
  exact transmit_success _ rfl (Int.natCast_nonneg _)

/-- Waiting for a text: an error exactly if it is not in what arrives in time. -/
theorem exchange_expect (opened : state.port.isOpen = true) {pattern : CString}
    (something : pattern.bytes ≠ []) {timeoutMs : Int32} (counted : timeoutMs.toInt ≤ 2147483600)
    (visible : ∀ chunk, .data chunk ∈ outside.results → 0 ∉ chunk.bytes)
    (returns : recvCalls timeoutMs.toInt ≤ outside.results.length) (sent : Bytes)
    (logged : List Bytes) :
    state.exchange ⟨sent, logged,
        (scriptSendRecv (some state.port) none (some outside.stack.bytes) (some pattern) timeoutMs
        outside.writes outside.results).ended⟩ =
      { state with
        sent := state.sent ++ sent
        logged := state.logged ++ logged
        errors := state.errors +
          if pattern.bytes <:+: collected ⟨true, false⟩ 4095 [] outside.results
              (recvCalls timeoutMs.toInt) then 0 else 1 } := by
  have size : outside.stack.bytes.length - 1 = 4095 := by rw [outside.stack.full]
  have room : 2 ≤ outside.stack.bytes.length := by rw [outside.stack.full]; decide
  have ends := @sendRecv_receives state.port pattern outside.stack.bytes none
    (by simp) something room timeoutMs
    outside.writes _ visible returns
  have same (calls : Nat) : collected state.port 4095 [] outside.results calls =
      collected ⟨true, false⟩ 4095 [] outside.results calls := by
    have read : delivered state.port = delivered ⟨true, false⟩ := by
      funext result
      cases result <;> simp [delivered, opened]
    rw [collected, collected, read]
  rw [size] at ends
  generalize (scriptSendRecv _ _ _ _ _ _ _).ended = ended at ends ⊢
  simp only [← same]
  cases ends with
  | @found call _ within before now =>
    have present :=
      now.trans (collected_mono 4095 outside.results (Nat.succ_le_of_lt within)).isInfix
    have few : (collected state.port 4095 [] outside.results (call + 1)).length ≤ 4095 :=
      List.length_take_le _ _
    have count : ¬Int.bmod (collected state.port 4095 [] outside.results (call + 1)).length
        (2 ^ 32) < 0 := by
      rw [Int.bmod_eq_of_le (by omega) (by omega)]
      omega
    simp only [ScriptState.exchange, if_neg count, if_pos present, Nat.add_zero]
  | mismatch absent _ =>
    simp only [ScriptState.exchange, if_neg absent]
    rfl
  | overflow _ late _ => omega

theorem sendRecv_quiet (port : SerialPort) (expected : Option CString) (timeoutMs : Int32) :
    scriptSendRecv (some port) none (some outside.stack.bytes) expected timeoutMs
      outside.writes outside.results =
      ⟨[], [], (scriptSendRecv (some port) none (some outside.stack.bytes) expected
        timeoutMs outside.writes
        outside.results).ended⟩ := by
  have room : outside.stack.bytes ≠ [] := by
    rw [← List.length_pos_iff, outside.stack.full]
    decide
  rw [sendRecv_silent (by simp) room]

theorem sendRecv_sends {port : SerialPort} (opened : port.isOpen = true) {string : CString}
    (small : string.length < 2 ^ 31)
    (taken : string.length ≤ accepted outside.writes) (expected : Option CString)
    (timeoutMs : Int32) :
    scriptSendRecv (some port) (some string)
      (some outside.stack.bytes) expected timeoutMs outside.writes outside.results =
      ⟨string.bytes, if port.logging then (Instruction.sendRecv string.bytes [] none).record
        else [],
        (scriptSendRecv (some port) none (some outside.stack.bytes) expected
          timeoutMs outside.writes
          outside.results).ended⟩ := by
  have some_room : outside.stack.bytes ≠ [] := by
    rw [← List.length_pos_iff, outside.stack.full]
    decide
  by_cases empty : string.bytes = []
  · have silent : ∀ other, some string = some other → other.bytes = [] := by
      rintro _ ⟨⟩
      exact empty
    rw [sendRecv_silent silent some_room, sendRecv_silent (by simp) some_room, empty]
    simp [Instruction.record]
  · have room : outside.stack.bytes.length ≠ 0 := mt List.length_eq_zero_iff.mp some_room
    have counted : Int.bmod string.bytes.length (2 ^ 32) = string.bytes.length := by
      have inside : string.bytes.length < 2 ^ 31 := small
      exact Int.bmod_eq_of_le (by omega) (by omega)
    have all : serialSendStr (some port) (some string) outside.writes =
        port.finishSend string.bytes string.bytes.length string.bytes := by
      rw [serialSendStr, serialSend_eq opened]
      exact if_pos taken
    have success : ¬((string.bytes.length : Int) < 0) := not_lt.mpr (Int.natCast_nonneg _)
    simp only [scriptSendRecv, ne_eq, empty, not_false_eq_true, if_true, all,
      SerialPort.finishSend, counted,
      if_neg success, Transmission.returns, lt_irrefl, if_false, if_neg room, Instruction.record]

/-- The meaning of an instruction that asks nothing and leaves the log alone. -/
theorem effect_quiet (instruction : Instruction)
    (kept : ∀ before, instruction.logging before outside = before) (met : instruction.Met outside) :
    instruction.effect outside state =
      { state with
        sent := state.sent ++ instruction.bytes
        logged := state.logged ++ if state.port.logging then instruction.record else [] } := by
  rw [Instruction.effect, if_pos met, kept]
  rfl

theorem runLine_remark {comment : Bytes} (nulFree : 0 ∉ comment) (state : ScriptState) :
    state.runLine outside ((Instruction.remark comment).render ++ [10]) = state := by
  have visible : 0 ∉ 35 :: comment := by simp [nulFree]
  have first : (trim (35 :: comment ++ [10])).head? = some 35 := by
    have start : (35 :: comment ++ [10]).dropWhile isspace = [] ++ 35 :: (comment ++ [10]) :=
      List.dropWhile_cons_of_neg (by decide)
    rw [trim, start, rdropWhile_visible [] (by decide)]
    rfl
  rw [Instruction.render, ScriptState.runLine, line_whole visible]
  exact if_pos (.inr (.inl first))

theorem runLine_sends {string : Bytes} (sendable : Instruction.Sendable string)
    (short : (Instruction.send string).render.length < 2048) (opened : state.port.isOpen = true)
    (served : Instruction.Served outside (.send string)) :
    state.runLine outside ((Instruction.send string).render ++ [10]) =
      (Instruction.send string).effect outside state := by
  have size := escapeText_short string
  have long := length_le_escapeText string
  have lines : (sendLine string).length < 2048 := short
  rw [effect_quiet (.send string) (fun _ => rfl) trivial]
  refine (runLine_sendLine sendable.nulFree short state outside).trans ?_
  rw [sentFront_eq_iff.mpr sendable.unquoted]
  exact transmit_taken opened (by omega) served.takes

theorem transmit_hex (opened : state.port.isOpen = true) {data hex : Bytes}
    (written : HexText data hex) {hexStr : CString}
    (same : hexStr.bytes = hex) (fits : data.length ≤ 4096)
    (taken : data.length ≤ accepted outside.writes) :
    state.transmit (serialSendHex (some state.port) (some hexStr) outside.writes) =
      { state with
        sent := state.sent ++ data
        logged := state.logged ++ if state.port.logging then
            (Instruction.sendHex data hex).record else [] } := by
  have read : hexBuffer 4096 hexStr.bytes = some data := same ▸ written.buffer fits
  cases data with
  | nil =>
    have returned : serialSendHex (some state.port) (some hexStr) outside.writes = .returns 0 := by
      rw [serialSendHex, read]
    rw [returned, transmit_success _ rfl le_rfl]
    simp [Transmission.returns, Instruction.record]
  | cons byte data =>
    have passed : serialSendHex (some state.port) (some hexStr) outside.writes =
        serialSend (some state.port) (some (byte :: data)) outside.writes := by
      rw [serialSendHex, read]
    rw [passed, transmit_taken opened (fits.trans_lt (by decide)) taken]
    rfl

theorem runLine_sendsHex {data hex : Bytes} (written : HexText data hex)
    (short : (Instruction.sendHex data hex).render.length < 2048)
    (opened : state.port.isOpen = true) (served : Instruction.Served outside (.sendHex data hex)) :
    state.runLine outside ((Instruction.sendHex data hex).render ++ [10]) =
      (Instruction.sendHex data hex).effect outside state := by
  obtain ⟨double, letters⟩ := written.letters
  have unquoted : 34 ∉ hex := fun member => (letters 34 member).1 rfl
  have nulFree : 0 ∉ hex := fun member => (letters 0 member).2.1 rfl
  have lines : hex.length + 11 < 2048 := by simpa [Instruction.render, quoted, text] using short
  have visible : 0 ∉ text "send_hex " ++ quoted hex := by simp [text, quoted, nulFree]
  have argument : (text "send_hex " ++ quoted hex).drop 9 = [] ++ (quoted hex ++ []) := by
    rw [List.append_nil]
    rfl
  have read := written.buffer (show data.length ≤ 4096 by omega)
  rw [effect_quiet (.sendHex data hex) (fun _ => rfl) trivial, Instruction.render,
    runLine_word visible (by simp [text]) (by simp [text]) (by simp [quoted, isspace]),
    if_neg (apart_of_words (by decide) (by decide) _), if_pos (List.prefix_append _ _), argument,
    ScriptState.runSendHex, extractQuoted_word List.not_mem_nil unquoted (by omega)]
  exact transmit_hex opened written ((CString.ofBuffer_whole hex).mpr nulFree)
    (by omega) served.takes

theorem timeoutText_plain {byte : UInt8} (visible : ¬ (48 ≤ byte ∧ byte ≤ 57)) (blank : byte ≠ 32)
    (timeout : Option Nat) :
    byte ∉ timeoutText timeout := by
  cases timeout with
  | none => exact List.not_mem_nil
  | some ms =>
    intro member
    rcases List.mem_cons.mp member with same | digit
    · exact blank same
    · exact visible ((decimal_value ms).1 byte digit)

theorem effect_expects (instruction : Instruction)
    (kept : ∀ before, instruction.logging before outside = before) (pattern : Bytes) (calls : Nat)
    (met : instruction.Met outside ↔
      pattern <:+: collected ⟨true, false⟩ 4095 [] outside.results calls) :
    instruction.effect outside state =
      { state with
        sent := state.sent ++ instruction.bytes
        logged := state.logged ++ if state.port.logging then instruction.record else []
        errors := state.errors + if pattern <:+: collected ⟨true, false⟩ 4095 [] outside.results
            calls then 0 else 1 } := by
  simp only [Instruction.effect, kept, met]

theorem runLine_expects {pattern : Bytes} {timeout : Option Nat}
    (expectable : Instruction.Expectable pattern timeout)
    (short : (Instruction.expect pattern timeout).render.length < 2048)
    (opened : state.port.isOpen = true)
    (served : Instruction.Served outside (.expect pattern timeout)) :
    state.runLine outside ((Instruction.expect pattern timeout).render ++ [10]) =
      (Instruction.expect pattern timeout).effect outside state := by
  obtain ⟨⟨unquoted, nulFree, _⟩, something, counted⟩ := expectable
  have lines : pattern.length + 9 < 2048 := by
    simp only [Instruction.render, quoted, text, List.length_append, List.length_cons] at short
    simp at short
    omega
  have visible : 0 ∉ text "expect " ++ (quoted pattern ++ timeoutText timeout) := by
    simp [text, quoted, nulFree, timeoutText_plain]
  have argument : (text "expect " ++ (quoted pattern ++ timeoutText timeout)).drop 7 =
      [] ++ (quoted pattern ++ timeoutText timeout) := rfl
  have time := timeoutBehind_word List.not_mem_nil unquoted counted
  have same : (CString.ofBuffer pattern).bytes = pattern :=
    (CString.ofBuffer_whole pattern).mpr nulFree
  rw [Instruction.render, runLine_word visible (by simp [text]) (by simp [text])
    (getLast_timeout _ _ _ _),
    if_neg (apart_of_words (by decide) (by decide) _),
    if_neg (apart_of_words (by decide) (by decide) _),
    if_pos (List.prefix_append _ _), argument, ScriptState.runExpect,
    extractQuoted_word List.not_mem_nil unquoted (by omega),
    effect_expects (.expect pattern timeout) (fun _ => rfl) pattern _ Iff.rfl, ← time]
  have waits := @exchange_expect state outside opened (CString.ofBuffer pattern)
    (same.symm ▸ something)
    (timeoutBehind ([] ++ (quoted pattern ++ timeoutText timeout)))
      (by rw [time]; exact_mod_cast counted)
    served.visible (by rw [time]; exact served.returns pattern timeout (.inl rfl)) [] []
  rw [← sendRecv_quiet, same] at waits
  simpa [Instruction.bytes, Instruction.record] using waits

theorem runLine_sendRecv {string pattern : Bytes} {timeout : Option Nat}
    (sendable : Instruction.Sendable string) (expectable : Instruction.Expectable pattern timeout)
    (short : (Instruction.sendRecv string pattern timeout).render.length < 2048)
    (opened : state.port.isOpen = true)
    (served : Instruction.Served outside (.sendRecv string pattern timeout)) :
    state.runLine outside ((Instruction.sendRecv string pattern timeout).render ++ [10]) =
      (Instruction.sendRecv string pattern timeout).effect outside state := by
  obtain ⟨⟨unquoted, nulFree, _⟩, something, counted⟩ := expectable
  have sendUnquoted := escapeText_unquoted sendable.unquoted
  have long := length_le_escapeText string
  have lines : (escapeText string).length + pattern.length + 15 < 2048 := by
    simp only [Instruction.render, quoted, text, List.length_append, List.length_cons] at short
    simp at short
    omega
  have visible : 0 ∉ text "send_recv " ++
      (quoted (escapeText string) ++ (text " " ++ (quoted pattern ++ timeoutText timeout))) := by
    simp [text, quoted, nulFree, timeoutText_plain, escapeText_nulFree sendable.nulFree]
  have regroup : text "send_recv " ++
      (quoted (escapeText string) ++ (text " " ++ (quoted pattern ++ timeoutText timeout))) =
      (text "send_recv " ++ quoted (escapeText string) ++ text " ") ++
          (quoted pattern ++ timeoutText timeout) := by
    simp
  have stop (some_line) : isspace ((text "send_recv " ++
      (quoted (escapeText string) ++ (text " " ++ (quoted pattern ++ timeoutText timeout)))).getLast
          some_line) = false := by
    simp only [regroup]
    exact getLast_timeout _ _ _ _
  have argument : (text "send_recv " ++
        (quoted (escapeText string) ++ (text " " ++ (quoted pattern ++ timeoutText timeout)))).drop
          10 =
      [] ++ (quoted (escapeText string) ++ (text " " ++ (quoted pattern ++ timeoutText timeout))) :=
    rfl
  have blank : 34 ∉ text " " := by decide
  have time := timeoutBehind_word blank unquoted counted
  have same : (CString.ofBuffer pattern).bytes = pattern :=
    (CString.ofBuffer_whole pattern).mpr nulFree
  have sends : (CString.ofBuffer string).bytes = string :=
    (CString.ofBuffer_whole string).mpr sendable.nulFree
  rw [Instruction.render, runLine_word visible (by simp [text]) (by simp [text]) (stop _),
    if_neg (apart_of_words (by decide) (by decide) _),
    if_neg (apart_of_words (by decide) (by decide) _),
    if_neg (apart_of_words (by decide) (by decide) _),
    if_neg (apart_of_words (by decide) (by decide) _),
    if_pos (List.prefix_append _ _), argument, ScriptState.runSendRecv,
    extractQuoted_word List.not_mem_nil sendUnquoted (by omega),
    behind_word List.not_mem_nil sendUnquoted]
  simp only [Option.getD_some, List.drop_succ_cons, List.drop_zero,
    extractQuoted_word blank unquoted (show pattern.length < 2048 by omega),
    processEscapes_unquoted sendable.unquoted (show string.length ≤ 2047 by omega)]
  have few : (CString.ofBuffer string).length < 2 ^ 31 := by
    rw [CString.length, sends]
    omega
  have takes : (CString.ofBuffer string).length ≤ accepted outside.writes := by
    rw [CString.length, sends]
    exact served.takes
  have waits := @exchange_expect state outside opened (CString.ofBuffer pattern)
    (same.symm ▸ something)
    (timeoutBehind (text " " ++ (quoted pattern ++ timeoutText timeout)))
      (by rw [time]; exact_mod_cast counted)
    served.visible (by rw [time]; exact served.returns pattern timeout (.inr ⟨string, rfl⟩)) string
    (if state.port.logging then (Instruction.sendRecv string [] none).record else [])
  rw [sendRecv_sends opened few takes, sends, waits, same, time]
  exact (effect_expects (.sendRecv string pattern timeout) (fun _ => rfl) pattern _ Iff.rfl).symm

theorem runLine_logs {filename : Bytes} (plain : Instruction.Plain filename)
    (fits : filename.length < 256)
    (on : ¬text "off" <:+: filename) (state : ScriptState) (outside : LineOutside) :
    state.runLine outside ((Instruction.log filename).render ++ [10]) =
      (Instruction.log filename).effect outside state := by
  have visible : 0 ∉ text "log " ++ quoted filename := by simp [text, quoted, plain.nulFree]
  have kept : ¬text "off" <:+: text "log " ++ quoted filename := by
    intro inside
    rcases infix_separated (by decide) inside with front | behind
    · revert front
      decide
    · rcases infix_separated (by decide) behind with name | nothing
      · exact on name
      · revert nothing
        decide
  have argument : (text "log " ++ quoted filename).drop 4 = [] ++ (quoted filename ++ []) := by
    rw [List.append_nil]
    rfl
  rw [Instruction.render, runLine_word visible (by simp [text]) (by simp [text])
    (by simp [quoted, isspace]),
    if_neg (apart_of_words (by decide) (by decide) _),
    if_neg (apart_of_words (by decide) (by decide) _),
    if_neg (apart_of_words (by decide) (by decide) _),
    if_neg (apart_of_words (by decide) (by decide) _),
    if_neg (apart_of_words (by decide) (by decide) _), if_pos (List.prefix_append _ _),
    ScriptState.runLog, if_neg kept,
    argument, extractQuoted_word List.not_mem_nil plain.unquoted fits]
  cases opened : outside.opened <;>
    simp [Instruction.effect, Instruction.logging, Instruction.Met, Instruction.bytes,
      Instruction.record, opened,
      ScriptState.fails]

theorem runLine_logOff (state : ScriptState) (outside : LineOutside) :
    state.runLine outside (Instruction.logOff.render ++ [10]) =
      Instruction.logOff.effect outside state := by
  have trimmed : trim (CString.ofBuffer (text "log off" ++ [10])).bytes = text "log off" := by
    decide
  rw [Instruction.render, ScriptState.runLine, trimmed, if_neg (by decide),
    if_neg (by decide), if_neg (by decide),
    if_neg (by decide), if_neg (by decide), if_neg (by decide), if_pos (by decide),
    ScriptState.runLog, if_pos (by decide)]
  simp [Instruction.effect, Instruction.logging, Instruction.Met,
    Instruction.bytes, Instruction.record]

theorem runLine_waits (ms : Nat) (state : ScriptState) (outside : LineOutside) :
    state.runLine outside ((Instruction.wait ms).render ++ [10]) = state := by
  have digits := (decimal_value ms).1
  have visible : 0 ∉ text "wait " ++ decimal ms := by
    intro member
    rcases List.mem_append.mp member with keyword | digit
    · revert keyword
      decide
    · exact absurd (digits 0 digit).1 (by decide)
  have last : isspace ((text "wait " ++ decimal ms).getLast (by simp [text])) = false := by
    rw [List.getLast_append_of_ne_nil _ (decimal_ne_nil ms)]
    exact decimal_visible ms _ (List.getLast_mem _)
  rw [Instruction.render, runLine_word visible (by simp [text]) (by simp [text]) last,
    if_neg (apart_of_words (by decide) (by decide) _),
    if_neg (apart_of_words (by decide) (by decide) _),
    if_neg (apart_of_words (by decide) (by decide) _), if_pos (List.prefix_append _ _)]

end Lines

/-- An instruction that can be written in a line. -/
structure Written (instruction : Instruction) : Prop where
  wellFormed : instruction.WellFormed
  short : instruction.render.length < 2048

section Programs
variable {port : SerialPort} {outside : Nat → LineOutside} {state : ScriptState}

theorem runLine_effect {instruction : Instruction} (written : Written instruction)
    (opened : state.port.isOpen = true)
    {outside : LineOutside} (served : instruction.Served outside) :
    state.runLine outside (instruction.render ++ [10]) = instruction.effect outside state := by
  obtain ⟨wellFormed, short⟩ := written
  cases instruction with
  | remark comment =>
    rw [runLine_remark wellFormed.1, effect_quiet (.remark comment) (fun _ => rfl) trivial]
    simp [Instruction.bytes, Instruction.record]
  | blank =>
    rw [effect_quiet .blank (fun _ => rfl) trivial]
    simp [Instruction.bytes, Instruction.record]
    rfl
  | send string => exact runLine_sends wellFormed short opened served
  | sendHex data hex => exact runLine_sendsHex wellFormed short opened served
  | expect pattern timeout => exact runLine_expects wellFormed short opened served
  | sendRecv string pattern timeout =>
    exact runLine_sendRecv wellFormed.1 wellFormed.2 short opened served
  | wait ms =>
    rw [runLine_waits, effect_quiet (.wait ms) (fun _ => rfl) trivial]
    simp [Instruction.bytes, Instruction.record]
  | log filename => exact runLine_logs wellFormed.1 wellFormed.2.1 wellFormed.2.2 state outside
  | logOff => exact runLine_logOff state outside

theorem decimal_one (number : Nat) : 10 ∉ decimal number := by
  intro member
  exact absurd ((decimal_value number).1 10 member).1 (by decide)

theorem render_one {instruction : Instruction} (written : Written instruction) :
    10 ∉ instruction.render := by
  obtain ⟨wellFormed, _⟩ := written
  cases instruction with
  | remark comment => simp [Instruction.render, wellFormed.2]
  | blank => exact List.not_mem_nil
  | send string => simp [Instruction.render, text, quoted, escapeText_newline]
  | sendHex data hex =>
    have letters := fun member => (wellFormed.letters.2 10 member).2.2 rfl
    simp [Instruction.render, text, quoted, show 10 ∉ hex from letters]
  | expect pattern timeout =>
    simp [Instruction.render, text, quoted, Instruction.Expectable.plain wellFormed |>.one,
      timeoutText_plain]
  | sendRecv string pattern timeout =>
    simp [Instruction.render, text, quoted, wellFormed.2.plain.one,
      timeoutText_plain, escapeText_newline]
  | wait ms => simp [Instruction.render, text, decimal_one]
  | log filename => simp [Instruction.render, text, quoted, wellFormed.1.one]
  | logOff => decide

/-- Instructions one after the other, with the number of the next line. -/
def runEffects (outside : Nat → LineOutside) : Nat → List Instruction → ScriptState → ScriptState
  | _, [], state => state
  | lineNum, instruction :: program, state =>
    runEffects outside (lineNum + 1) program (instruction.effect (outside lineNum) state)

theorem runLines_effects {program : List Instruction}
    (written : ∀ instruction ∈ program, Written instruction)
    (opened : state.port.isOpen = true) (running : state.progress = .running) {lineNum : Nat}
    (served : ∀ index (inside : index < program.length),
      program[index].Served (outside (lineNum + index))) :
    ScriptState.runLines outside lineNum (scriptText program) state =
      runEffects outside lineNum program state := by
  induction program generalizing state lineNum with
  | nil => exact runLines_nil outside lineNum state
  | cons instruction program ih =>
    have first := written instruction List.mem_cons_self
    have here : instruction.Served (outside lineNum) := served 0 (Nat.succ_pos _)
    have whole : scriptText (instruction :: program) =
        instruction.render ++ 10 :: scriptText program := by
      simp [scriptText]
    rw [whole, runLines_line outside lineNum (render_one first)
      (first.short.trans (by decide)) _ running,
      runLine_effect first opened here]
    have still : (instruction.effect (outside lineNum) state).port.isOpen = true := opened
    refine ih (fun other member => written other (List.mem_cons_of_mem _ member)) still running ?_
    intro index inside
    rw [Nat.add_right_comm]
    exact served (index + 1) (Nat.succ_lt_succ inside)

theorem forall_places {holds : Nat → Instruction → Prop} (instruction : Instruction)
    (program : List Instruction) :
    (∀ index (inside : index < (instruction :: program).length),
      holds index (instruction :: program)[index]) ↔
      holds 0 instruction ∧ ∀ index (inside : index < program.length),
        holds (index + 1) program[index] := by
  constructor
  · intro all
    exact ⟨all 0 (Nat.succ_pos _), fun index inside => all (index + 1) (Nat.succ_lt_succ inside)⟩
  · rintro ⟨first, rest⟩ index inside
    cases index with
    | zero => exact first
    | succ index => exact rest index (Nat.lt_of_succ_lt_succ inside)

theorem runEffects_adds (outside : Nat → LineOutside) (lineNum : Nat) (program : List Instruction)
    (state : ScriptState) :
    (runEffects outside lineNum program state).sent =
      state.sent ++ program.flatMap Instruction.bytes ∧
      (runEffects outside lineNum program state).progress = state.progress ∧
      state.errors ≤ (runEffects outside lineNum program state).errors ∧
      ((runEffects outside lineNum program state).errors = state.errors ↔
        ∀ index (inside : index < program.length),
          program[index].Met (outside (lineNum + index))) := by
  induction program generalizing state lineNum with
  | nil =>
    refine ⟨(List.append_nil _).symm, rfl, le_rfl, iff_of_true rfl ?_⟩
    intro index inside
    cases inside
  | cons instruction program ih =>
    obtain ⟨sent, progress, more, all⟩ :=
      ih (lineNum + 1) (instruction.effect (outside lineNum) state)
    rw [@forall_places (fun index instruction => instruction.Met (outside (lineNum + index)))
      instruction program]
    simp only [Nat.add_right_comm lineNum 1, Nat.add_assoc] at all
    rw [Nat.add_zero, List.flatMap_cons, ← List.append_assoc]
    refine ⟨sent, progress, ?_, ?_⟩
    · exact le_trans (Nat.le_add_right _ _) more
    · by_cases met : instruction.Met (outside lineNum)
      · have same : (instruction.effect (outside lineNum) state).errors = state.errors := by
          simp [Instruction.effect, met]
        rw [same] at all
        exact all.trans (and_iff_right met).symm
      · have one : (instruction.effect (outside lineNum) state).errors = state.errors + 1 := by
          simp [Instruction.effect, met]
        rw [one] at more
        exact iff_of_false (Nat.lt_of_succ_le more).ne' fun both => met both.1

end Programs

/-- A modem is asked for an answer, which comes in two parts. -/
def modemScript : List Instruction :=
  [.remark (text " modem"), .send (text "AT\r\n"), .expect (text "OK") (some 200)]

def modemOutside (_ : Nat) : LineOutside :=
  ⟨[.wrote 2048], [.data ⟨text "O", by decide⟩, .data ⟨text "K", by decide⟩],
    .ofBytes 4096 [], true⟩

theorem modemScript_written : ∀ instruction ∈ modemScript, Written instruction := by
  intro instruction member
  simp only [modemScript, List.mem_cons, List.not_mem_nil, or_false] at member
  rcases member with rfl | rfl | rfl
  · exact ⟨⟨by decide, by decide⟩, by decide⟩
  · exact ⟨⟨by decide, by decide⟩, by decide⟩
  · exact ⟨⟨⟨by decide, by decide, by decide⟩, by decide, by decide⟩, by decide⟩

theorem modemScript_served (index : Nat) (inside : index < modemScript.length) :
    modemScript[index].Served (modemOutside (1 + index)) := by
  have visible : ∀ chunk, RecvResult.data chunk ∈ (modemOutside 0).results → 0 ∉ chunk.bytes := by
    simp [modemOutside, text]
  have few : index < 3 := inside
  interval_cases index
  · refine ⟨Nat.zero_le _, visible, ?_⟩
    rintro pattern timeout (same | ⟨string, same⟩) <;> cases same
  · refine ⟨show 4 ≤ accepted [.wrote 2048] by decide, visible, ?_⟩
    rintro pattern timeout (same | ⟨string, same⟩) <;> cases same
  · refine ⟨Nat.zero_le _, visible, ?_⟩
    rintro pattern timeout (same | ⟨string, same⟩) <;> cases same
    decide

end LinuxCLearning.SerialTool
