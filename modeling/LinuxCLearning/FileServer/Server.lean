import LinuxCLearning.Base.Ctype
import LinuxCLearning.FileServer.FileSystem
import LinuxCLearning.FileServer.Protocol

/-! The request handlers of the server and the loop that serves one client. -/

namespace LinuxCLearning.FileServer

/-- What the handlers read of the server: `shared_dir`, the texts of `strerror`, and
the bytes that follow the header in memory, which a file name without terminator
runs into. -/
structure ServerContext where
  sharedDir : CString
  sharedDir_fits : sharedDir.length ≤ 255
  strerror : Nat → Bytes
  beyondHeader : Bytes

/-- A handler: a program on the connection and the file system. -/
abbrev Handler := Proc UInt8 FileSystem

/-- `strstr(filename, "..") || strchr(filename, '/')`. -/
def refusedName (filename : CString) : Bool :=
  decide (text ".." <:+: filename.bytes) || decide (text "/" <:+: filename.bytes)

/-- `snprintf(filepath, sizeof(filepath), "%s/%s", shared_dir, filename)` with 512 bytes. -/
def ServerContext.filepath (context : ServerContext) (filename : CString) : Bytes :=
  (context.sharedDir.bytes ++ text "/" ++ filename.bytes).take 511

/-- `lseek` from the start: an offset that is negative as `off_t` is refused and
leaves the position at the start. -/
def seekPosition (offset : UInt64) : Nat :=
  if offset.toNat < 2 ^ 63 then offset.toNat else 0

/-- The response of `server_send_response`. -/
def responseMessage (status : StatusCode) (message : Bytes) : ResponseHeader where
  status := status.code
  dataLen := 0
  message := .strncpy 256 message

def serverSendResponse (status : StatusCode) (message : Bytes) : Handler ErrorCode := do
  let result ← sendOnce (responseMessage status message).encode
  return if result.isSome then .success else .errSend

/-- A line `"%-30s %10ld bytes\n"` of the file list. -/
def listLine (name : Bytes) (size : Nat) : Bytes :=
  name ++ List.replicate (30 - name.length) 32 ++ text " " ++
    List.replicate (10 - (decimal size).length) 32 ++ decimal size ++ text " bytes\n"

/-- The text of `server_list_files`, as far as it stands inside `file_list[4096]`. -/
def fileList (context : ServerContext) (system : FileSystem) : Bytes :=
  let lines := (system.readdir context.sharedDir.bytes).filterMap fun name =>
    if name.head? = some 46 then none
    else (system.files ((context.sharedDir.bytes ++ text "/" ++ name).take 511)).map fun content =>
      listLine name content.length
  if lines.flatten = [] then text "(empty directory)\n" else lines.flatten.take 4095

def serverListFiles (context : ServerContext) : Handler ErrorCode := do
  let listing ← Proc.perform fun system =>
    ((system.directories context.sharedDir.bytes).map fun _ => fileList context system, system)
  match listing with
  | none =>
    let _ ← serverSendResponse .error (text "Failed to open directory")
    return .errFileOpen
  | some list =>
    let _ ← sendOnce (ResponseHeader.encode
      ⟨StatusCode.ok.code, UInt32.ofNat list.length, .strncpy 256 (text "File list")⟩)
    let _ ← Proc.send list false Proc.done
    return .success

/-- The loop of `server_send_file` and of the uploads of the client: `read` a buffer
from the file and `send_all` it, until the file ends or a send fails. -/
def sendFileContent {σ : Type} (content : Bytes) : Proc UInt8 σ Bool :=
  if content = [] then .done true
  else do
    let sent ← sendAll (content.take defaultBufferSize)
    if sent then sendFileContent (content.drop defaultBufferSize) else return false
termination_by content.length
decreasing_by
  rename_i nonempty
  rw [List.length_drop]
  exact Nat.sub_lt (List.length_pos_iff.mpr nonempty) (by decide)

/-- The response header of `server_send_file`. -/
def fileResponse (filename : CString) (sendSize : Nat) (offset : UInt64) : ResponseHeader where
  status := if offset > 0 then StatusCode.partially.code else StatusCode.ok.code
  dataLen := UInt32.ofNat sendSize
  message := .ofBytes 256 ((text "File: " ++ filename.bytes).take 255)

def serverSendFile (context : ServerContext) (filename : CString) (offset : UInt64) :
    Handler ErrorCode :=
  if refusedName filename then do
    let _ ← serverSendResponse .denied (text "Invalid filename")
    return .errFileOpen
  else do
    let opened ← Proc.perform (FileSystem.openRead (context.filepath filename))
    match opened with
    | none =>
      let _ ← serverSendResponse .notFound (text "File not found")
      return .errFileOpen
    | some (fileSize, content) =>
      if offset.toNat > fileSize then
        let _ ← serverSendResponse .error (text "Offset exceeds file size")
        return .errProtocol
      else
        let _ ← sendOnce (fileResponse filename (fileSize - offset.toNat) offset).encode
        let _ ← sendFileContent (content.drop (seekPosition offset))
        return .success

/-- How a loop that receives a payload into a file ends. -/
inductive Received where
  | complete
  | recvFailed
  | writeFailed
  deriving DecidableEq

/-- The loop of `server_recv_file` and of the downloads of the client: `recv` at most
a buffer of what remains and `write` it, until nothing remains or a call fails. -/
def receiveContent (path : Bytes) (position remaining : Nat) : Handler Received :=
  if remaining = 0 then .done .complete
  else .recv (min remaining defaultBufferSize) fun
    | none => .done .recvFailed
    | some chunk =>
      if chunk = [] then .done .recvFailed
      else do
        let written ← Proc.perform (FileSystem.writeFile path position chunk)
        if written then receiveContent path (position + chunk.length) (remaining - chunk.length)
        else return .writeFailed
termination_by remaining
decreasing_by
  rename_i more nonempty
  exact Nat.sub_lt (Nat.pos_of_ne_zero more) (List.length_pos_iff.mpr nonempty)

/-- A failed upload that started from nothing is deleted. -/
def unlinkFresh (path : Bytes) (offset : UInt64) : Handler Unit :=
  if offset = 0 then Proc.perform fun system => ((), (FileSystem.unlink path system).2)
  else .done ()

/-- `server_recv_file` after its loop. -/
def serverFinish (path : Bytes) (offset : UInt64) : Received → Handler ErrorCode
  | .complete => do
    let _ ← serverSendResponse .ok (text "File uploaded successfully")
    return .success
  | .recvFailed => do
    unlinkFresh path offset
    return .errRecv
  | .writeFailed => do
    unlinkFresh path offset
    return .errFileWrite

/-- `server_recv_file` once the file is open at a position. -/
def serverReceive (path : Bytes) (fileSize : UInt32) (offset : UInt64) (position : Nat) :
    Handler ErrorCode := do
  let received ← receiveContent path position fileSize.toNat
  serverFinish path offset received

def serverRecvFile (context : ServerContext) (filename : CString) (fileSize : UInt32)
    (offset : UInt64) : Handler ErrorCode :=
  if refusedName filename then do
    let _ ← serverSendResponse .denied (text "Invalid filename")
    return .errFileOpen
  else if offset > 0 then do
    let opened ← Proc.perform (FileSystem.openWrite (context.filepath filename) false)
    if opened then serverReceive (context.filepath filename) fileSize offset (seekPosition offset)
    else
      let _ ← serverSendResponse .error (text "Failed to open file for resume")
      return .errFileOpen
  else do
    let opened ← Proc.perform (FileSystem.openWrite (context.filepath filename) true)
    if opened then serverReceive (context.filepath filename) fileSize offset 0
    else
      let _ ← serverSendResponse .error (text "Failed to create file")
      return .errFileOpen

def serverDeleteFile (context : ServerContext) (filename : CString) : Handler ErrorCode :=
  if refusedName filename then do
    let _ ← serverSendResponse .denied (text "Invalid filename")
    return .errFileOpen
  else do
    let deleted ← Proc.perform (FileSystem.unlink (context.filepath filename))
    if deleted then
      let _ ← serverSendResponse .ok (text "File deleted")
      return .success
    else
      let _ ← serverSendResponse .notFound (text "File not found")
      return .errFileOpen

/-- `server_mkdir` and `server_rmdir`: a call on a directory and the text of its success. -/
def serverDirectory (context : ServerContext) (call : Bytes → FileSystem → Option Nat × FileSystem)
    (success : Bytes) (dirname : CString) : Handler ErrorCode :=
  if refusedName dirname then do
    let _ ← serverSendResponse .denied (text "Invalid directory name")
    return .errFileOpen
  else do
    let failure ← Proc.perform (call (context.filepath dirname))
    match failure with
    | none =>
      let _ ← serverSendResponse .ok success
      return .success
    | some errno =>
      let _ ← serverSendResponse .error (context.strerror errno)
      return .errFileOpen

def serverMkdir (context : ServerContext) : CString → Handler ErrorCode :=
  serverDirectory context FileSystem.mkdir (text "Directory created")

def serverRmdir (context : ServerContext) : CString → Handler ErrorCode :=
  serverDirectory context FileSystem.rmdir (text "Directory removed")

def serverPwd (context : ServerContext) : Handler ErrorCode := do
  let _ ← serverSendResponse .ok context.sharedDir.bytes
  return .success

/-- The `switch` of `server_handle_client`: whether its loop goes on. -/
def serverDispatch (context : ServerContext) (header : ProtocolHeader) : Handler Bool :=
  let filename := CString.ofBuffer (header.filename.bytes ++ context.beyondHeader)
  if header.cmd = CmdType.list.code then do
    let _ ← serverListFiles context
    return true
  else if header.cmd = CmdType.download.code then do
    let _ ← serverSendFile context filename header.offset
    return true
  else if header.cmd = CmdType.upload.code then do
    let _ ← serverRecvFile context filename header.dataLen header.offset
    return true
  else if header.cmd = CmdType.delete.code then do
    let _ ← serverDeleteFile context filename
    return true
  else if header.cmd = CmdType.mkdir.code then do
    let _ ← serverMkdir context filename
    return true
  else if header.cmd = CmdType.rmdir.code then do
    let _ ← serverRmdir context filename
    return true
  else if header.cmd = CmdType.pwd.code then do
    let _ ← serverPwd context
    return true
  else if header.cmd = CmdType.quit.code then do
    let _ ← serverSendResponse .ok (text "Goodbye")
    return false
  else do
    let _ ← serverSendResponse .error (text "Unknown command")
    return true

/-- One turn of the loop of `server_handle_client`: whether it goes on. -/
def serverRequest (context : ServerContext) : Handler Bool := do
  let received ← recvAll ProtocolHeader.size []
  match received with
  | none => return false
  | some bytes =>
    if (ProtocolHeader.decode bytes).magic = protocolMagic then
      serverDispatch context (ProtocolHeader.decode bytes)
    else
      let _ ← serverSendResponse .error (text "Invalid protocol")
      return false

/-- `server_handle_client`, where `turns` tests of its loop find the server running. -/
def serverHandleClient (context : ServerContext) : (turns : Nat) → Handler Unit
  | 0 => .done ()
  | turns + 1 => do
    let continues ← serverRequest context
    if continues then serverHandleClient context turns else return ()

end LinuxCLearning.FileServer
