import LinuxCLearning.Base.Lines
import LinuxCLearning.SerialTool.SendRecv

/-! The interactive terminal: `terminal_run` sends what is typed over the serial port, and takes
the letter behind a Ctrl+A for a command. -/

namespace LinuxCLearning.SerialTool

/-- The loop of the terminal goes on, a call of `serial_send` in it goes on, or it has been left
for an error. -/
inductive Session where
  | going
  | waiting
  | broken
  deriving DecidableEq

/-- The fields of `terminal_t` and of its port, `line_buf` up to `line_pos`, the bytes on the
port, the writes to the log, and the local echo. -/
structure Terminal where
  port : SerialPort
  hexMode : Bool
  timestamp : Bool
  running : Bool
  escapeMode : Bool
  localEcho : Bool
  lineMode : Bool
  lineBuf : Bytes
  sent : Bytes
  logged : List Bytes
  echoed : Bytes
  session : Session

/-- What is chosen outside when a key can be read: the byte, `none` if `read` does not deliver
one, the outcomes of the writes in each call of `serial_send`, what is typed for the name of a
file, and the files that can be opened. -/
structure Key where
  ch : Option UInt8
  writes : Nat → List WriteResult
  typedName : Option Bytes
  files : Bytes → Option Bytes

/-- What `select` says: it is interrupted or fails, or the port or the keyboard, or both of them
or neither, are ready. -/
inductive Turn where
  | interrupted
  | failed
  | ready (arrival : Option RecvResult) (key : Option Key)

namespace Terminal

/-- A call of `serial_send`, of which the terminal does not look at the value. -/
def transmit (term : Terminal) (data : Bytes) (writes : List WriteResult) : Terminal :=
  let transmission := serialSend (some term.port) (some data) writes
  { term with
    sent := term.sent ++ transmission.sent
    logged := term.logged ++ transmission.logged
    session := if transmission.result = none then .waiting else term.session }

/-- Local echo, when it is on. -/
def echo (term : Terminal) (bytes : Bytes) : Terminal :=
  if term.localEcho then { term with echoed := term.echoed ++ bytes } else term

/-- The loop of `send_file`, with the number of the next call of `serial_send`. -/
def sendChunks (writes : Nat → List WriteResult) : Nat → List Bytes → Terminal → Terminal
  | _, [], term => term
  | call, buf :: chunks, term =>
    match (serialSend (some term.port) (some buf) (writes call)).result with
    | none => term.transmit buf (writes call)
    | some ret =>
      if ret < 0 then term.transmit buf (writes call)
      else sendChunks writes (call + 1) chunks (term.transmit buf (writes call))

/-- `send_file`. -/
def sendFile (term : Terminal) (key : Key) (filename : Bytes) : Terminal :=
  match key.files filename with
  | none => term
  | some content => sendChunks key.writes 0 (content.toChunks 1024) term

/-- The name that is typed at the prompt, without the end of its line. -/
def promptedName (typedName : Option Bytes) : Bytes :=
  (CString.ofBuffer (fgetsLine 255 (typedName.getD []))).bytes.rdropWhile fun byte =>
    byte == 10 || byte == 13

/-- The command for the letter behind a Ctrl+A. -/
def command (term : Terminal) (key : Key) (ch : UInt8) : Terminal :=
  if ch = 63 then term
  else if ch = 113 ∨ ch = 81 then { term with running := false }
  else if ch = 104 ∨ ch = 72 then { term with hexMode := !term.hexMode }
  else if ch = 116 ∨ ch = 84 then { term with timestamp := !term.timestamp }
  else if ch = 101 ∨ ch = 69 then { term with localEcho := !term.localEcho }
  else if ch = 108 ∨ ch = 76 then { term with lineMode := !term.lineMode }
  else if ch = 115 ∨ ch = 83 then
    if promptedName key.typedName = [] then term else term.sendFile key (promptedName key.typedName)
  else if ch = 99 ∨ ch = 67 then (term.transmit [3] (key.writes 0)).echo [94, 67]
  else if ch = 100 ∨ ch = 68 then (term.transmit [4] (key.writes 0)).echo [94, 68]
  else if ch = 97 ∨ ch = 65 then term.transmit [ch] (key.writes 0)
  else term

/-- A letter in line mode. -/
def lineKey (term : Terminal) (key : Key) (ch : UInt8) : Terminal :=
  if ch = 13 ∨ ch = 10 then
    { (term.transmit (term.lineBuf ++ [10]) (key.writes 0)).echo [13, 10] with lineBuf := [] }
  else if ch = 127 ∨ ch = 8 then
    if term.lineBuf = [] then term
    else { term.echo [8, 32, 8] with lineBuf := term.lineBuf.dropLast }
  else if term.lineBuf.length < 1023 then { term.echo [ch] with lineBuf := term.lineBuf ++ [ch] }
  else term

/-- A letter in raw character mode. -/
def rawKey (term : Terminal) (key : Key) (ch : UInt8) : Terminal :=
  (term.transmit [ch] (key.writes 0)).echo (if ch = 13 then [13, 10] else if ch < 32 then
    [94, ch + 64] else [ch])

/-- Keyboard input. -/
def keyboard (term : Terminal) (key : Key) : Terminal :=
  match key.ch with
  | none => term
  | some ch =>
    if term.escapeMode then { term with escapeMode := false }.command key ch
    else if ch = 1 then { term with escapeMode := true }
    else if term.lineMode then term.lineKey key ch
    else term.rawKey key ch

/-- Data from the port: it is shown and logged, and an error leaves the loop. -/
def display (term : Terminal) (arrival : RecvResult) : Terminal :=
  let received := serialRecv term.port 4096 arrival
  if 0 < received.1 then
    if term.port.logging then
      { term with logged := term.logged ++ [text "<< ", received.2, text "\n"] } else term
  else if received.1 < 0 then { term with session := .broken }
  else term

/-- One turn of the loop of `terminal_run`. -/
def turn (term : Terminal) : Turn → Terminal
  | .interrupted => term
  | .failed => { term with session := .broken }
  | .ready arrival key =>
    let shown := (arrival.map term.display).getD term
    if shown.session = .going then (key.map shown.keyboard).getD shown else shown

/-- The loop of `terminal_run`. -/
def loop : Terminal → List Turn → Terminal
  | term, [] => term
  | term, next :: turns =>
    if term.running ∧ term.session = .going then loop (term.turn next) turns else term

/-- The loop is left when it is not running or for an error. -/
def ended (term : Terminal) : Bool :=
  term.session = .broken || (term.session = .going && !term.running)

end Terminal

/-- `terminal_run`: the terminal behind some turns of the loop, and the value that is returned
if the loop has been left. -/
def terminalRun (term : Terminal) (turns : List Turn) : Terminal × Option Int :=
  if term.port.isOpen then (term.loop turns, if (term.loop turns).ended then some 0 else none)
  else (term, some (-1))

/-- What is typed for some bytes: each is itself, but a Ctrl+A is a Ctrl+A and an `a`. -/
def typed (string : Bytes) : Bytes :=
  string.flatMap fun byte => if byte = 1 then [1, 97] else [byte]

/-- The byte that a turn reads from the keyboard. -/
def Turn.chars : Turn → Bytes
  | .ready _ (some key) => key.ch.toList
  | _ => []

/-- A turn in which nothing fails, and the port takes a byte when one is sent. -/
def Turn.Smooth : Turn → Prop
  | .interrupted => True
  | .failed => False
  | .ready arrival key =>
    arrival ≠ some .failed ∧ ∀ pressed, key = some pressed → 1 ≤ accepted (pressed.writes 0)

/-- The terminal in raw character mode. -/
structure Terminal.Raw (term : Terminal) : Prop where
  opened : term.port.isOpen = true
  running : term.running = true
  going : term.session = .going
  raw : term.lineMode = false

section Typing
variable {term : Terminal}

/-- A byte is sent when the port takes one, and nothing else changes. -/
theorem transmit_byte (opened : term.port.isOpen = true) {writes : List WriteResult}
    (enough : 1 ≤ accepted writes) (byte : UInt8) :
    ∃ logged, term.transmit [byte] writes = { term with sent := term.sent ++ [byte], logged } := by
  have all : [byte].length ≤ accepted writes := enough
  have done : serialSend (some term.port) (some [byte]) writes =
      term.port.finishSend [byte] 1 [byte] := by
    rw [serialSend_eq opened, if_pos all]
    rfl
  refine ⟨term.logged ++ (term.port.finishSend [byte] 1 [byte]).logged, ?_⟩
  rw [Terminal.transmit, done]
  rfl

theorem echo_eq (term : Terminal) (bytes : Bytes) :
    ∃ echoed, term.echo bytes = { term with echoed } := by
  rw [Terminal.echo]
  split
  · exact ⟨_, rfl⟩
  · exact ⟨_, rfl⟩

/-- The letter `a` behind a Ctrl+A is sent itself. -/
theorem keyboard_escaped (raw : term.Raw) (escape : term.escapeMode = true) {key : Key}
    (pressed : key.ch = some 97) (enough : 1 ≤ accepted (key.writes 0)) :
    (term.keyboard key).Raw ∧ (term.keyboard key).escapeMode = false ∧
      (term.keyboard key).sent = term.sent ++ [97] := by
  obtain ⟨opened, running, going, mode⟩ := raw
  have command : term.keyboard key = { term with escapeMode := false }.transmit
      [97] (key.writes 0) := by
    rw [Terminal.keyboard, pressed]
    exact if_pos escape
  obtain ⟨logged, sent⟩ := @transmit_byte { term with escapeMode := false } opened _ enough 97
  rw [command, sent]
  exact ⟨⟨opened, running, going, mode⟩, rfl, rfl⟩

theorem keyboard_prefix (raw : term.Raw) (plain : term.escapeMode = false) {key : Key}
    (pressed : key.ch = some 1) :
    (term.keyboard key).Raw ∧ (term.keyboard key).escapeMode = true ∧
      (term.keyboard key).sent = term.sent := by
  obtain ⟨opened, running, going, mode⟩ := raw
  have waits : term.keyboard key = { term with escapeMode := true } := by
    rw [Terminal.keyboard, pressed]
    dsimp only
    rw [plain]
    rfl
  rw [waits]
  exact ⟨⟨opened, running, going, mode⟩, rfl, rfl⟩

theorem keyboard_plain (raw : term.Raw) (plain : term.escapeMode = false) {key : Key} {ch : UInt8}
    (pressed : key.ch = some ch) (other : ch ≠ 1) (enough : 1 ≤ accepted (key.writes 0)) :
    (term.keyboard key).Raw ∧ (term.keyboard key).escapeMode = false ∧
      (term.keyboard key).sent = term.sent ++ [ch] := by
  obtain ⟨opened, running, going, mode⟩ := raw
  have sends : term.keyboard key = term.rawKey key ch := by
    rw [Terminal.keyboard, pressed]
    dsimp only
    rw [plain, if_neg (by decide), if_neg other, mode]
    rfl
  obtain ⟨logged, sent⟩ := transmit_byte opened enough ch
  obtain ⟨echoed, echo⟩ := echo_eq { term with sent := term.sent ++ [ch], logged }
    (if ch = 13 then [13, 10] else if ch < 32 then [94, ch + 64] else [ch])
  rw [sends, Terminal.rawKey, sent, echo]
  exact ⟨⟨opened, running, going, mode⟩, plain, rfl⟩

theorem display_eq (opened : term.port.isOpen = true) {arrival : RecvResult}
    (success : arrival ≠ .failed) :
    ∃ logged, term.display arrival = { term with logged } := by
  have nonneg : ¬(serialRecv term.port 4096 arrival).1 < 0 :=
    not_lt.mpr (serialRecv_nonneg opened 4096 success)
  rw [Terminal.display]
  split
  · split
    · exact ⟨_, rfl⟩
    · exact ⟨_, rfl⟩
  · exact ⟨_, rfl⟩

/-- A turn in which nothing fails shows what arrives, and then takes the key if there is one. -/
theorem turn_smooth (raw : term.Raw) {next : Turn} (smooth : next.Smooth) :
    ∃ shown : Terminal, shown.Raw ∧ shown.escapeMode = term.escapeMode ∧ shown.sent = term.sent ∧
      (next.chars = [] ∧ term.turn next = shown ∨
        ∃ key ch, key.ch = some ch ∧ next.chars = [ch] ∧ 1 ≤ accepted (key.writes 0) ∧
          term.turn next = shown.keyboard key) := by
  obtain ⟨opened, running, going, mode⟩ := raw
  cases next with
  | interrupted => exact ⟨term, ⟨opened, running, going, mode⟩, rfl, rfl, .inl ⟨rfl, rfl⟩⟩
  | failed => exact smooth.elim
  | ready arrival key =>
    obtain ⟨success, enough⟩ := smooth
    have shows : ∃ logged, (arrival.map term.display).getD term = { term with logged } := by
      cases arrival with
      | none => exact ⟨_, rfl⟩
      | some arrival => exact display_eq opened fun failed => success (congrArg some failed)
    obtain ⟨logged, shown⟩ := shows
    refine ⟨{ term with logged }, ⟨opened, running, going, mode⟩, rfl, rfl, ?_⟩
    have after : term.turn (.ready arrival key) =
        (key.map { term with logged : Terminal }.keyboard).getD { term with logged } := by
      rw [Terminal.turn, shown]
      exact if_pos going
    rw [after]
    cases key with
    | none => exact .inl ⟨rfl, rfl⟩
    | some key =>
      cases pressed : key.ch with
      | none =>
        refine .inl ⟨by rw [Turn.chars, pressed]; rfl, ?_⟩
        rw [Option.map_some, Option.getD_some, Terminal.keyboard, pressed]
      | some ch =>
        exact .inr ⟨key, ch, pressed, by rw [Turn.chars, pressed]; rfl, enough key rfl, rfl⟩

theorem typed_cons (byte : UInt8) (string : Bytes) :
    typed (byte :: string) = (if byte = 1 then [1, 97] else [byte]) ++ typed string :=
  List.flatMap_cons

theorem typed_eq_nil {string : Bytes} (empty : typed string = []) : string = [] := by
  cases string with
  | nil => rfl
  | cons byte string =>
    rw [typed_cons] at empty
    split at empty
    · cases empty
    · cases empty

/-- The bytes that are sent for those that should be: the letter `a` for a Ctrl+A. -/
def literal (byte : UInt8) : UInt8 := if byte = 1 then 97 else byte

/-- The run of the loop, by induction on the turns: the letters that are left are those for some
bytes, behind the `a` of a Ctrl+A if that has been typed. -/
theorem loop_typed (raw : term.Raw) {turns : List Turn} (smooth : ∀ next ∈ turns, next.Smooth)
    {string : Bytes}
    (letters : turns.flatMap Turn.chars = (if term.escapeMode then [97] else []) ++ typed string) :
    (term.loop turns).sent =
      term.sent ++ ((if term.escapeMode then [97] else []) ++ string.map literal) ∧
      (term.loop turns).escapeMode = false := by
  induction turns generalizing term string with
  | nil =>
    rw [List.flatMap_nil] at letters
    obtain ⟨plain, rest⟩ := List.append_eq_nil_iff.mp letters.symm
    have escape : term.escapeMode = false := by
      by_contra escaped
      rw [if_pos (Bool.eq_true_of_not_eq_false escaped)] at plain
      cases plain
    rw [typed_eq_nil rest, escape, Terminal.loop]
    exact ⟨(List.append_nil _).symm, escape⟩
  | cons next turns ih =>
    rw [List.forall_mem_cons] at smooth
    rw [List.flatMap_cons] at letters
    rw [Terminal.loop, if_pos ⟨raw.running, raw.going⟩]
    obtain ⟨shown, raw', escape, sent, ⟨quiet, after⟩ | ⟨key, ch, pressed, chars, enough, after⟩⟩ :=
      turn_smooth raw smooth.1
    · rw [quiet, List.nil_append, ← escape] at letters
      rw [after, ← escape, ← sent]
      exact ih raw' smooth.2 letters
    · rw [chars, List.singleton_append] at letters
      rw [after]
      cases mode : term.escapeMode with
      | true =>
        rw [mode, if_pos rfl, List.singleton_append, List.cons.injEq] at letters
        obtain ⟨rfl, letters⟩ := letters
        obtain ⟨raw'', escape', sent'⟩ := keyboard_escaped raw' (escape.trans mode) pressed enough
        have run := @ih _ raw'' smooth.2 string (by rw [letters, escape']; rfl)
        rw [escape', sent', sent] at run
        refine ⟨run.1.trans ?_, run.2⟩
        rw [List.append_assoc]
        rfl
      | false =>
        rw [mode, if_neg (by decide), List.nil_append] at letters
        cases string with
        | nil => cases letters
        | cons byte string =>
          rw [typed_cons] at letters
          by_cases ctrl_a : byte = 1
          · rw [if_pos ctrl_a, List.cons_append, List.cons.injEq] at letters
            obtain ⟨rfl, letters⟩ := letters
            obtain ⟨raw'', escape', sent'⟩ := keyboard_prefix raw' (escape.trans mode) pressed
            have run := @ih _ raw'' smooth.2 string (by rw [letters, escape']; rfl)
            rw [escape', sent', sent] at run
            rw [ctrl_a]
            exact run
          · rw [if_neg ctrl_a, List.singleton_append, List.cons.injEq] at letters
            obtain ⟨rfl, letters⟩ := letters
            obtain ⟨raw'', escape', sent'⟩ :=
              keyboard_plain raw' (escape.trans mode) pressed ctrl_a enough
            have run := @ih _ raw'' smooth.2 string (by rw [letters, escape']; rfl)
            rw [escape', sent', sent] at run
            have itself : literal ch = ch := if_neg ctrl_a
            refine ⟨run.1.trans ?_, run.2⟩
            rw [List.append_assoc, List.map_cons, itself]
            rfl

theorem literal_eq_iff (string : Bytes) : string.map literal = string ↔ 1 ∉ string := by
  induction string with
  | nil => simp
  | cons byte string ih =>
    have same : literal byte = byte ↔ 1 ≠ byte := by
      by_cases ctrl_a : byte = 1
      · rw [ctrl_a]
        decide
      · exact iff_of_true (if_neg ctrl_a) (Ne.symm ctrl_a)
    rw [List.map_cons, List.cons.injEq, ih, same, List.mem_cons, not_or]

/-- When some bytes are typed in raw character mode and nothing fails, the terminal sends
exactly them, and is left out of escape mode, if and only if there is no Ctrl+A among them. -/
theorem terminalRun_typed_iff (raw : term.Raw) (plain : term.escapeMode = false) {turns : List Turn}
    (smooth : ∀ next ∈ turns, next.Smooth) {string : Bytes}
    (letters : turns.flatMap Turn.chars = typed string) :
    ((terminalRun term turns).1.sent = term.sent ++ string ∧
      (terminalRun term turns).1.escapeMode = false) ↔ 1 ∉ string := by
  obtain ⟨sent, escape⟩ := @loop_typed term raw turns smooth string (by rw [letters, plain]; rfl)
  have run : (terminalRun term turns).1 = term.loop turns := by rw [terminalRun, if_pos raw.opened]
  rw [run, sent, escape, plain, if_neg (by decide), List.nil_append,
    List.append_right_inj, literal_eq_iff]
  exact and_iff_left rfl

end Typing

/-- A key, when the port takes what is sent. -/
def pressed (ch : UInt8) : Turn :=
  .ready none (some ⟨some ch, fun _ => [.wrote 1], none, fun _ => none⟩)

/-- The terminal of `main` at its start. -/
def freshTerminal : Terminal where
  port := ⟨true, false⟩
  hexMode := false
  timestamp := false
  running := true
  escapeMode := false
  localEcho := false
  lineMode := false
  lineBuf := []
  sent := []
  logged := []
  echoed := []
  session := .going

theorem freshTerminal_raw : freshTerminal.Raw := ⟨rfl, rfl, rfl, rfl⟩

theorem pressed_smooth (ch : UInt8) : (pressed ch).Smooth := by
  refine ⟨by decide, ?_⟩
  rintro _ ⟨⟩
  exact Nat.le_refl 1

theorem letters_smooth : ∀ next ∈ [.interrupted, pressed 104, pressed 13], next.Smooth := by
  rw [List.forall_mem_cons, List.forall_mem_cons, List.forall_mem_singleton]
  exact ⟨trivial, pressed_smooth 104, pressed_smooth 13⟩

theorem terminalRun_typed_iff_letters :
    (terminalRun freshTerminal [.interrupted, pressed 104, pressed 13]).1.sent = [104, 13] :=
  ((@terminalRun_typed_iff freshTerminal freshTerminal_raw rfl [.interrupted, pressed 104,
    pressed 13] letters_smooth
    [104, 13] (by decide)).mpr (by decide)).1

/-- For a Ctrl+A the letter `a` is sent. -/
theorem terminalRun_ctrl_a :
    [pressed 1, pressed 97].flatMap Turn.chars = typed [1] ∧
      (terminalRun freshTerminal [pressed 1, pressed 97]).1.sent = [97] := by
  decide +kernel

end LinuxCLearning.SerialTool
