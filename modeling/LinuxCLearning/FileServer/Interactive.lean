import LinuxCLearning.Base.Ctype
import LinuxCLearning.Base.Lines
import LinuxCLearning.FileServer.Client

/-! The command line of the client: its loop and the commands whose answer is shown. -/

namespace LinuxCLearning.FileServer

/-- A word that `sscanf` stores in `arg[256]`. -/
structure Argument where
  string : CString
  nonempty : string.bytes ≠ []
  short : string.length ≤ 255

/-- What a line asks for. -/
inductive Command where
  | list
  | upload (file : Argument)
  | download (file : Argument)
  | resume (file : Argument)
  | resumeUpload (file : Argument)
  | delete (file : Argument)
  | mkdir (dirname : Argument)
  | rmdir (dirname : Argument)
  | pwd
  | help
  | quit
  | usage (hint : Bytes)
  | unknown (cmd : Bytes)
  | nothing

/-- What a command leaves on the client: the result of a transfer, the result of a
request and the line that shows the answer, a text of the client itself, or the help. -/
inductive Outcome where
  | transferred (code : ErrorCode)
  | answered (code : ErrorCode) (output : Bytes)
  | advised (output : Bytes)
  | helped
  deriving DecidableEq

/-- `sscanf(line, "%63s %255s", cmd, arg)` into two empty strings. -/
def readWords (line : Bytes) : Bytes × Bytes :=
  match scanWord 63 line with
  | none => ([], [])
  | some (cmd, rest) =>
    match scanWord 255 rest with
    | none => (cmd, [])
    | some (arg, _) => (cmd, arg)

theorem readWords_argument {line : Bytes} (nulFree : 0 ∉ line) :
    0 ∉ (readWords line).2 ∧ (readWords line).2.length ≤ 255 := by
  rw [readWords]
  cases first : scanWord 63 line with
  | none => exact ⟨List.not_mem_nil, Nat.zero_le _⟩
  | some words =>
    obtain ⟨cmd, rest⟩ := words
    cases second : scanWord 255 rest with
    | none =>
      simp only [second]
      exact ⟨List.not_mem_nil, Nat.zero_le _⟩
    | some words =>
      obtain ⟨arg, behind⟩ := words
      simp only [second]
      constructor
      · intro member
        exact nulFree (scanWord_rest first 0 (scanWord_subset second 0 member))
      · simp only [scanWord] at second
        split at second
        · cases second
        · obtain ⟨rfl, -⟩ := Prod.mk.inj (Option.some.inj second)
          exact List.length_take_le _ _

/-- `arg` when a command needs it: its own command, or the hint. -/
def withArgument (line : CString) (command : Argument → Command) (hint : String) : Command :=
  if something : (readWords line.bytes).2 ≠ [] then
    command ⟨⟨(readWords line.bytes).2, (readWords_argument line.nulFree).1⟩, something,
      (readWords_argument line.nulFree).2⟩
  else .usage (text hint)

/-- The line of a turn of `client_interactive` up to its first newline. -/
def lineString (line : Bytes) : CString where
  bytes := (CString.ofBuffer line).bytes.takeWhile (· != 10)
  nulFree := fun member => (CString.ofBuffer line).nulFree ((List.takeWhile_sublist _).mem member)

/-- The chain of `strcmp` in `client_interactive`. -/
def readCommand (line : CString) : Command :=
  let cmd := (readWords line.bytes).1
  if cmd = text "list" then .list
  else if cmd = text "upload" then withArgument line .upload "Usage: upload <local_file>\n"
  else if cmd = text "download" then withArgument line .download "Usage: download <remote_file>\n"
  else if cmd = text "resume" then withArgument line .resume "Usage: resume <remote_file>\n"
  else if cmd = text "resume-upload" then
    withArgument line .resumeUpload "Usage: resume-upload <local_file>\n"
  else if cmd = text "delete" then withArgument line .delete "Usage: delete <remote_file>\n"
  else if cmd = text "mkdir" then withArgument line .mkdir "Usage: mkdir <directory>\n"
  else if cmd = text "rmdir" then withArgument line .rmdir "Usage: rmdir <directory>\n"
  else if cmd = text "pwd" then .pwd
  else if cmd = text "help" then .help
  else if cmd = text "quit" ∨ cmd = text "exit" then .quit
  else if cmd ≠ [] then .unknown cmd
  else .nothing

/-- A request whose answer is shown behind a label. `beyond` is what a message without
terminator runs into. -/
def clientAsk (beyond : Bytes) (cmd : CmdType) (name : CString) (label : Bytes) :
    Handler Outcome := do
  let sent ← sendOnce (requestHeader cmd 0 0 name).encode
  if sent.isSome then
    let response ← recvAll ResponseHeader.size []
    match response with
    | none => return .answered .errRecv []
    | some bytes =>
      let message := CString.ofBuffer ((ResponseHeader.decode bytes).message.bytes ++ beyond)
      return .answered .success (label ++ message.bytes ++ text "\n")
  else return .answered .errSend []

def clientDeleteFile (beyond : Bytes) (remoteName : CString) : Handler Outcome :=
  clientAsk beyond .delete remoteName (text "Delete " ++ remoteName.bytes ++ text ": ")

def clientMkdir (beyond : Bytes) (dirname : CString) : Handler Outcome :=
  clientAsk beyond .mkdir dirname (text "Mkdir " ++ dirname.bytes ++ text ": ")

def clientRmdir (beyond : Bytes) (dirname : CString) : Handler Outcome :=
  clientAsk beyond .rmdir dirname (text "Rmdir " ++ dirname.bytes ++ text ": ")

def clientPwd (beyond : Bytes) : Handler Outcome :=
  clientAsk beyond .pwd noName (text "Remote directory: ")

/-- `client_disconnect` of a connected client: the answer is not awaited. -/
def clientDisconnect : Handler Unit := do
  let _ ← sendOnce (requestHeader .quit 0 0 noName).encode
  return ()

/-- What the client knows of its memory: the bytes behind a response, whether so many
bytes are allocated, and what happens behind a buffer that is too small. -/
structure ClientMemory where
  beyond : Bytes
  malloc : UInt32 → Bool
  overrun : Handler ErrorCode

/-- The branches of `client_interactive`. The transfers are kept without what they print. -/
def clientCommand (memory : ClientMemory) : Command → Handler Outcome
  | .list => do
    let code ← clientListFiles memory.malloc memory.overrun
    return .transferred code
  | .upload file => do
    let code ← clientUploadFile file.string none
    return .transferred code
  | .download file => do
    let code ← clientDownloadFile file.string none
    return .transferred code
  | .resume file => do
    let code ← clientDownloadResume file.string none
    return .transferred code
  | .resumeUpload file => do
    let code ← clientUploadResume file.string none
    return .transferred code
  | .delete file => clientDeleteFile memory.beyond file.string
  | .mkdir dirname => clientMkdir memory.beyond dirname.string
  | .rmdir dirname => clientRmdir memory.beyond dirname.string
  | .pwd => clientPwd memory.beyond
  | .help => return .helped
  | .usage hint => return .advised hint
  | .unknown cmd => return .advised (text "Unknown command: " ++ cmd ++ text "\n")
  | .quit | .nothing => return .advised []

/-- `client_interactive` on the input that `fgets` has before it. -/
def clientInteractive (memory : ClientMemory) (input : Bytes) : Handler (List Outcome) :=
  if input = [] then return []
  else
    match readCommand (lineString (fgetsLine 511 input)) with
    | .quit => return []
    | command => do
      let outcome ← clientCommand memory command
      let outcomes ← clientInteractive memory (input.drop (fgetsLine 511 input).length)
      return outcome :: outcomes
termination_by input.length
decreasing_by
  rename_i nonempty
  exact drop_line_lt nonempty

/-- The client of `main` from its prompt on. -/
def clientMain (memory : ClientMemory) (input : Bytes) : Handler (List Outcome) := do
  let outcomes ← clientInteractive memory input
  clientDisconnect
  return outcomes

/-- The commands of an input up to the one that ends the loop. -/
def commandsOf (input : Bytes) : List Command :=
  if input = [] then []
  else
    match readCommand (lineString (fgetsLine 511 input)) with
    | .quit => []
    | command => command :: commandsOf (input.drop (fgetsLine 511 input).length)
termination_by input.length
decreasing_by
  rename_i nonempty
  exact drop_line_lt nonempty

/-- Commands one after the other. -/
def runCommands (memory : ClientMemory) : List Command → Handler (List Outcome)
  | [] => return []
  | command :: commands => do
    let outcome ← clientCommand memory command
    let outcomes ← runCommands memory commands
    return outcome :: outcomes

theorem clientInteractive_runs (memory : ClientMemory) (input : Bytes) :
    clientInteractive memory input = runCommands memory (commandsOf input) := by
  induction input using commandsOf.induct with
  | case1 =>
    rw [clientInteractive, commandsOf, if_pos rfl, if_pos rfl]
    rfl
  | case2 input nonempty quits =>
    rw [clientInteractive, commandsOf, if_neg nonempty, if_neg nonempty, quits]
    rfl
  | case3 input nonempty goes_on ih =>
    rw [clientInteractive, commandsOf, if_neg nonempty, if_neg nonempty]
    split
    · rename_i quits
      exact (goes_on quits).elim
    · rw [ih]
      rfl

theorem commandsOf_line {line rest : Bytes} (one : 10 ∉ line) (short : line.length < 511)
    (goes_on : readCommand (lineString (line ++ [10])) ≠ .quit) :
    commandsOf (line ++ 10 :: rest) = readCommand (lineString (line ++ [10])) ::
      commandsOf rest := by
  have stored : fgetsLine 511 (line ++ 10 :: rest) = line ++ [10] := by
    rw [fgetsLine_line one, List.take_of_length_le]
    rw [List.length_append]
    exact short
  have behind : (line ++ 10 :: rest).drop (line ++ [10]).length = rest := by
    have regroup : line ++ 10 :: rest = (line ++ [10]) ++ rest := by simp
    rw [regroup, List.drop_left]
  rw [commandsOf, if_neg (by simp), stored, behind]
  split
  · rename_i quits
    exact absurd quits goes_on
  · rfl

end LinuxCLearning.FileServer
