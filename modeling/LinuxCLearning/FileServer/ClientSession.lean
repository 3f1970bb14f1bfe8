import LinuxCLearning.FileServer.Exchanges

/-! Whole sessions of the interactive client: what the lines of a user do to the two
file systems through one connection is what the commands do one after the other. -/

namespace LinuxCLearning.FileServer
open Proc

/-- The file systems at the two ends of a connection. -/
structure Stores where
  client : FileSystem
  server : FileSystem

namespace Stores

/-- The client shows the answer to a request. -/
def answered (stores : Stores) (label : Bytes) (reply : Bytes × FileSystem) : Outcome × Stores :=
  (.answered .success (label ++ shownMessage reply.1 ++ text "\n"),
    { stores with server := reply.2 })

/-- What the server holds of the file that a client uploads. -/
def held (context : ServerContext) (stores : Stores) (file : Argument) : Bytes :=
  (stores.server.files (context.filepath (basename file.string))).getD []

/-- What the client holds of the file that it downloads. -/
def kept (stores : Stores) (file : Argument) : Bytes :=
  (stores.client.files file.string.bytes).getD []

/-- The server stores a file of the client. -/
def put (context : ServerContext) (stores : Stores) (file : Argument) (content : Bytes) :
    Outcome × Stores :=
  (.transferred .success,
    { stores with server := stores.server.setFile (context.filepath (basename file.string)) content })

/-- The client stores a file of the server. -/
def get (stores : Stores) (file : Argument) (content : Bytes) : Outcome × Stores :=
  (.transferred .success, { stores with client := stores.client.setFile file.string.bytes content })

/-- The content of a file that the server hands out. -/
def offered (context : ServerContext) (stores : Stores) (file : Argument) : Option Bytes :=
  if refusedName file.string then none else stores.server.files (context.filepath file.string)

end Stores

/-- What a command does, as if both file systems were at hand. A list is an error: of a
directory that can be opened it is sent with one `send` that may be cut. -/
def Command.effect (context : ServerContext) (stores : Stores) : Command → Outcome × Stores
  | .list => (.transferred .errProtocol, stores)
  | .upload file =>
    match stores.client.files file.string.bytes with
    | none => (.transferred .errFileOpen, stores)
    | some content => stores.put context file content
  | .download file =>
    match stores.offered context file with
    | none => (.transferred .errProtocol, stores)
    | some content => stores.get file content
  | .resume file =>
    match stores.offered context file with
    | none => (.transferred .errProtocol, stores)
    | some content =>
      if (stores.kept file).length ≤ content.length then
        stores.get file (continued (stores.kept file) content)
      else (.transferred .errProtocol, stores)
  | .resumeUpload file =>
    match stores.client.files file.string.bytes with
    | none => (.transferred .errFileOpen, stores)
    | some whole =>
      if stores.held context file = [] ∨ (stores.held context file).length < whole.length then
        stores.put context file (continued (stores.held context file) whole)
      else (.transferred .success, stores)
  | .delete file =>
    stores.answered (text "Delete " ++ file.string.bytes ++ text ": ")
      (deleted context file.string stores.server)
  | .mkdir dirname =>
    stores.answered (text "Mkdir " ++ dirname.string.bytes ++ text ": ")
      (directoryChanged context FileSystem.mkdir (text "Directory created")
        dirname.string stores.server)
  | .rmdir dirname =>
    stores.answered (text "Rmdir " ++ dirname.string.bytes ++ text ": ")
      (directoryChanged context FileSystem.rmdir (text "Directory removed")
        dirname.string stores.server)
  | .pwd => stores.answered (text "Remote directory: ") (context.sharedDir.bytes, stores.server)
  | .help => (.helped, stores)
  | .usage hint => (.advised hint, stores)
  | .unknown cmd => (.advised (text "Unknown command: " ++ cmd ++ text "\n"), stores)
  | .quit | .nothing => (.advised [], stores)

/-- How many requests a command makes. -/
def Command.requests (context : ServerContext) (stores : Stores) : Command → Nat
  | .upload file => if stores.client.files file.string.bytes = none then 0 else 1
  | .resumeUpload file =>
    match stores.client.files file.string.bytes with
    | none => 0
    | some whole =>
      if stores.held context file = [] ∨ (stores.held context file).length < whole.length then
        2 else 1
  | .help | .usage _ | .unknown _ | .quit | .nothing => 0
  | _ => 1

/-- A transfer between two paths that are no directories, of less than 4 GiB. -/
def Transferable (local_system remote : FileSystem) (localPath remotePath : Bytes) : Prop :=
  local_system.directories localPath = none ∧ remote.directories remotePath = none ∧
    (∀ content, local_system.files localPath = some content → content.length < 2 ^ 32) ∧
    ∀ content, remote.files remotePath = some content → content.length < 2 ^ 32

/-- The commands whose requests the two sides answer in step: no payload is left in the
connection, and none is missing. -/
def Command.Smooth (context : ServerContext) (stores : Stores) : Command → Prop
  | .list => stores.server.directories context.sharedDir.bytes = none
  | .upload file | .resumeUpload file =>
    refusedName (basename file.string) = false ∧
      Transferable stores.client stores.server file.string.bytes
        (context.filepath (basename file.string))
  | .download file | .resume file =>
    refusedName file.string = false → Transferable stores.client stores.server file.string.bytes
      (context.filepath file.string)
  | _ => True

/-- No call of either side fails for want of luck. -/
structure Stores.Steady (stores : Stores) : Prop where
  client : FileServer.Steady stores.client
  server : FileServer.Steady stores.server

section Step
variable {context : ServerContext} {stores : Stores}

theorem offered_none_iff (context : ServerContext) (stores : Stores) (file : Argument) :
    stores.offered context file = none ↔ refusedName file.string = true ∨
      refusedName file.string = false ∧
        stores.server.files (context.filepath file.string) = none := by
  rw [Stores.offered]
  cases refusedName file.string <;> simp

theorem offered_some_iff (context : ServerContext) (stores : Stores)
    (file : Argument) (content : Bytes) :
    stores.offered context file = some content ↔
      refusedName file.string = false ∧
        stores.server.files (context.filepath file.string) = some content := by
  rw [Stores.offered]
  cases refusedName file.string <;> simp

theorem held_some (context : ServerContext) (stores : Stores) (file : Argument)
    (something : stores.held context file ≠ []) :
    stores.server.files (context.filepath (basename file.string)) =
      some (stores.held context file) := by
  rw [Stores.held] at *
  cases found : stores.server.files (context.filepath (basename file.string)) with
  | none => simp [found] at something
  | some stored => rfl

theorem kept_small (stores : Stores) (file : Argument)
    (small : ∀ content, stores.client.files file.string.bytes = some content →
      content.length < 2 ^ 32) :
    (stores.kept file).length < 2 ^ 32 := by
  rw [Stores.kept]
  cases found : stores.client.files file.string.bytes with
  | none => decide
  | some content => exact small content found

/-- One command and the server that answers its requests. -/
def Command.Answered (context : ServerContext) (memory : ClientMemory)
    (stores : Stores) (turns : Nat) (command : Command) : Prop :=
  Exchange (clientCommand memory command)
    (serverHandleClient context (turns + command.requests context stores))
    stores.client stores.server (command.effect context stores).1
      (command.effect context stores).2.client
    (serverHandleClient context turns) (command.effect context stores).2.server

section Transfers
variable {file : Argument}

theorem upload_answered (memory : ClientMemory) (steady : stores.Steady)
    (smooth : (Command.upload file).Smooth context stores) (turns : Nat) :
    (Command.upload file).Answered context memory stores turns := by
  have rests := serverHandleClient_rests context turns stores.server
  obtain ⟨accepted, regular, remote, small, _⟩ := smooth
  simp only [Command.Answered, Command.requests, Command.effect, clientCommand]
  cases found : stores.client.files file.string.bytes with
  | none =>
    have opens := (clientUpload_missing steady.client regular found).1
    exact Exchange.map ⟨[], opens, pauses_here rests⟩ (plays_done _ _)
  | some content =>
    exact (upload_exchange steady.client steady.server file.short regular found accepted remote
      (small content found) turns).map (plays_done _ _)

theorem download_answered (memory : ClientMemory) (steady : stores.Steady)
    (smooth : (Command.download file).Smooth context stores) (turns : Nat) :
    (Command.download file).Answered context memory stores turns := by
  simp only [Command.Answered, Command.requests, Command.effect, clientCommand]
  cases found : stores.offered context file with
  | none =>
    have refused := (offered_none_iff context stores file).mp found
    refine (download_refused steady.server file.short ?_ turns).map (plays_done _ _)
    exact refused.imp_right fun missing => ⟨(smooth missing.1).2.1, missing.2⟩
  | some content =>
    obtain ⟨accepted, held⟩ := (offered_some_iff context stores file content).mp found
    obtain ⟨regular, remote, _, small⟩ := smooth accepted
    exact (download_exchange steady.client steady.server file.short regular accepted remote held
      (small content held) turns).map (plays_done _ _)

/-- The server refuses to resume a file that the client has as a whole. -/
theorem resume_answered (memory : ClientMemory) (steady : stores.Steady)
    (smooth : (Command.resume file).Smooth context stores) (turns : Nat) :
    (Command.resume file).Answered context memory stores turns := by
  simp only [Command.Answered, Command.requests, Command.effect, clientCommand]
  cases found : stores.offered context file with
  | none =>
    have refused := (offered_none_iff context stores file).mp found
    refine (resume_refused steady.server file.short rfl ?_ turns).map (plays_done _ _)
    refine refused.imp_right fun missing => ⟨(smooth missing.1).2.1, ?_⟩
    intro content held
    rw [missing.2] at held
    cases held
  | some content =>
    obtain ⟨accepted, held⟩ := (offered_some_iff context stores file content).mp found
    obtain ⟨regular, remote, fits, small⟩ := smooth accepted
    dsimp only
    split_ifs with shorter
    · exact (resume_exchange steady.client steady.server file.short regular accepted remote rfl held
        shorter (small content held) turns).map (plays_done _ _)
    · have asked := congrArg UInt64.ofNat (stat_kept steady.client regular)
      have length : (UInt64.ofNat (stores.kept file).length).toNat = (stores.kept file).length :=
        UInt64.toNat_ofNat_of_lt' ((kept_small stores file fits).trans (by decide))
      refine (resume_refused steady.server file.short asked (.inr ⟨remote, ?_⟩) turns).map
        (plays_done _ _)
      intro other sameFile
      obtain rfl : content = other := Option.some.inj (held.symm.trans sameFile)
      exact (not_le.mp shorter).trans_eq length.symm

/-- Two requests are made if the server has a part of the file, or nothing of it. -/
theorem resumeUpload_answered (memory : ClientMemory) (steady : stores.Steady)
    (smooth : (Command.resumeUpload file).Smooth context stores) (turns : Nat) :
    (Command.resumeUpload file).Answered context memory stores turns := by
  have rests := serverHandleClient_rests context turns stores.server
  obtain ⟨accepted, regular, remote, fits, small⟩ := smooth
  simp only [Command.Answered, Command.requests, Command.effect, clientCommand]
  cases found : stores.client.files file.string.bytes with
  | none =>
    have opens := (clientUpload_missing steady.client regular found).2
    exact Exchange.map ⟨[], opens, pauses_here rests⟩ (plays_done _ _)
  | some whole =>
    dsimp only
    have size := fits whole found
    split_ifs with more
    · refine Exchange.map ?_ (plays_done _ _)
      by_cases nothing : stores.held context file = []
      · rw [nothing]
        exact resumeUpload_fresh steady.client steady.server file.short regular
          found accepted remote
          nothing size turns
      · exact resumeUpload_continues steady.client steady.server file.short regular found accepted
          remote (held_some context stores file nothing) nothing
            (more.resolve_left nothing) size turns
    · obtain ⟨something, enough⟩ := not_or.mp more
      have stored := held_some context stores file something
      exact (resumeUpload_enough steady.client steady.server file.short regular
        found accepted remote
        stored something (not_lt.mp enough) size (small _ stored) turns).map (plays_done _ _)

end Transfers

theorem command_exchange (memory : ClientMemory) (steady : stores.Steady) (command : Command)
    (smooth : command.Smooth context stores) (turns : Nat) :
      command.Answered context memory stores turns := by
  have rests := serverHandleClient_rests context turns stores.server
  cases command with
  | list => exact (list_exchange smooth memory turns).map (plays_done _ _)
  | upload file => exact upload_answered memory steady smooth turns
  | download file => exact download_answered memory steady smooth turns
  | resume file => exact resume_answered memory steady smooth turns
  | resumeUpload file => exact resumeUpload_answered memory steady smooth turns
  | delete file =>
    obtain ⟨status, code, answers⟩ := @serverDeleteFile_plays context stores.server file.string
    exact ask_exchange _ _ (serverDispatch_delete file.short) answers turns
  | mkdir dirname =>
    obtain ⟨status, code, answers⟩ := @serverDirectory_plays context stores.server
      FileSystem.mkdir (text "Directory created") dirname.string
    exact ask_exchange _ _ (serverDispatch_mkdir dirname.short) answers turns
  | rmdir dirname =>
    obtain ⟨status, code, answers⟩ := @serverDirectory_plays context stores.server
      FileSystem.rmdir (text "Directory removed") dirname.string
    exact ask_exchange _ _ (serverDispatch_rmdir dirname.short) answers turns
  | pwd => exact ask_exchange _ _ (serverDispatch_pwd noName) (respond_plays _ _ _ _) turns
  | help => exact .silent rests _ _
  | quit => exact .silent rests _ _
  | usage hint => exact .silent rests _ _
  | unknown cmd => exact .silent rests _ _
  | nothing => exact .silent rests _ _

theorem effect_steady (steady : stores.Steady) (command : Command) :
    (command.effect context stores).2.Steady := by
  cases command with
  | list => exact steady
  | upload file =>
    simp only [Command.effect]
    cases stores.client.files file.string.bytes with
    | none => exact steady
    | some content => exact ⟨steady.client, steady.server.setFile _ _⟩
  | download file =>
    simp only [Command.effect]
    cases stores.offered context file with
    | none => exact steady
    | some content => exact ⟨steady.client.setFile _ _, steady.server⟩
  | resume file =>
    simp only [Command.effect]
    cases stores.offered context file with
    | none => exact steady
    | some content =>
      dsimp only
      split
      · exact ⟨steady.client.setFile _ _, steady.server⟩
      · exact steady
  | resumeUpload file =>
    simp only [Command.effect]
    cases stores.client.files file.string.bytes with
    | none => exact steady
    | some whole =>
      dsimp only
      split
      · exact ⟨steady.client, steady.server.setFile _ _⟩
      · exact steady
  | delete file =>
    refine ⟨steady.client, ?_⟩
    simp only [Command.effect, Stores.answered, deleted]
    split
    · exact steady.server
    · exact steady.server.unlink _
  | mkdir dirname =>
    refine ⟨steady.client, ?_⟩
    simp only [Command.effect, Stores.answered, directoryChanged]
    split
    · exact steady.server
    · exact steady.server.mkdir _
  | rmdir dirname =>
    refine ⟨steady.client, ?_⟩
    simp only [Command.effect, Stores.answered, directoryChanged]
    split
    · exact steady.server
    · exact steady.server.rmdir _
  | pwd | help | quit | usage | unknown | nothing => exact steady

end Step

/-- Commands one after the other on the two file systems. -/
def effects (context : ServerContext) : Stores → List Command → List Outcome × Stores :=
  Machine.run fun stores command => command.effect context stores

def requestsOf (context : ServerContext) : Stores → List Command → Nat
  | _, [] => 0
  | stores, command :: commands =>
    requestsOf context (command.effect context stores).2 commands + command.requests context stores

/-- Every command of the session is answered in step. -/
def SmoothSession (context : ServerContext) : Stores → List Command → Prop
  | _, [] => True
  | stores, command :: commands =>
    command.Smooth context stores ∧ SmoothSession context (command.effect context stores).2 commands

section Sessions
variable {context : ServerContext} {stores : Stores}

theorem runCommands_exchange (memory : ClientMemory) (steady : stores.Steady)
    (commands : List Command) (smooth : SmoothSession context stores commands) (turns : Nat) :
    Exchange (runCommands memory commands)
      (serverHandleClient context (turns + requestsOf context stores commands))
      stores.client stores.server (effects context stores commands).1
        (effects context stores commands).2.client
      (serverHandleClient context turns) (effects context stores commands).2.server := by
  induction commands generalizing stores with
  | nil => exact .silent (serverHandleClient_rests context turns stores.server) _ _
  | cons command commands ih =>
    have first := command_exchange memory steady command smooth.1 (turns + requestsOf context
      (command.effect context stores).2 commands)
    have rest := ih (effect_steady steady command) smooth.2
    rw [requestsOf, ← Nat.add_assoc]
    exact first.bind (rest.map (plays_done _ _))

theorem quit_pauses (context : ServerContext) (server : FileSystem) (turns : Nat) :
    (serverHandleClient context (turns + 1)).Pauses server
      ((requestHeader .quit 0 0 noName).encode.map .got ++
        (responseMessage .ok (text "Goodbye")).encode.map .sent)
      (.done ()) server := by
  have answered : (serverDispatch context (requestHeader .quit 0 0 noName)).Plays server
      ((responseMessage .ok (text "Goodbye")).encode.map .sent) false server := by
    rw [serverDispatch_quit]
    have sent : (serverSendResponse .ok (text "Goodbye")).Plays server _ .success server :=
      (serverSendResponse_follows trivial _ _).plays fun _ _ returned => returned
    exact sent.map (plays_done _ _)
  have requested : (serverRequest context).Plays server _ false server :=
    (serverRequest_follows trivial rfl
      (answered.weaken (fun _ _ ended => ended) fun _ _ _ => trivial)).plays
      fun _ _ ended => ended
  rw [serverHandleClient, ← List.append_nil (_ ++ _)]
  exact requested.pauses (pauses_here trivial)

theorem clientDisconnect_plays (client : FileSystem) :
    clientDisconnect.Plays client ((requestHeader .quit 0 0 noName).encode.map .sent) () client :=
  (sendOnce_plays client (request_ne_nil _)).map (plays_done () client)

/-- A client and a server with one file each. -/
def smallStores : Stores := ⟨singleFile smallName.bytes [1, 2, 3], singleFile (text "shared/b") [9]⟩

def smallMemory : ClientMemory := ⟨[], fun _ => true, .done .errProtocol⟩

def smallSession : Bytes := text "pwd\nupload a.txt\ndelete b\n"

def smallArgument : Argument := ⟨smallName, by decide, by decide⟩

def otherArgument : Argument := ⟨⟨text "b", by decide⟩, by decide, by decide⟩

theorem smallSession_commands :
    commandsOf smallSession = [.pwd, .upload smallArgument, .delete otherArgument] := by
  have first : readCommand (lineString (text "pwd" ++ [10])) = .pwd := rfl
  have second : readCommand (lineString (text "upload a.txt" ++ [10])) = .upload smallArgument :=
    rfl
  have third : readCommand (lineString (text "delete b" ++ [10])) = .delete otherArgument := rfl
  have lines : smallSession =
      text "pwd" ++ 10 :: (text "upload a.txt" ++ 10 :: (text "delete b" ++ 10 :: [])) := by
    decide
  rw [lines, commandsOf_line (by decide) (by decide) (by rw [first]; nofun),
    commandsOf_line (by decide) (by decide) (by rw [second]; nofun),
    commandsOf_line (by decide) (by decide) (by rw [third]; nofun), first, second, third,
    commandsOf, if_pos rfl]

end Sessions

end LinuxCLearning.FileServer
