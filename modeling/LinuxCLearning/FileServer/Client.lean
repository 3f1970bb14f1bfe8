import LinuxCLearning.FileServer.Server

/-! The transfers of the client. -/

namespace LinuxCLearning.FileServer

theorem nulFree_of_subset {bytes other : Bytes} (subset : other ⊆ bytes) (nulFree : 0 ∉ bytes) :
    0 ∉ other := fun member => nulFree (subset member)

/-- `strrchr(local_path, '/')`, past the slash, or the whole path. -/
def basename (path : CString) : CString where
  bytes := (path.bytes.reverse.takeWhile (· ≠ 47)).reverse
  nulFree := by
    refine nulFree_of_subset ?_ path.nulFree
    intro byte member
    exact List.mem_reverse.mp ((List.takeWhile_sublist _).mem (List.mem_reverse.mp member))

/-- The header of a request: zeros where the client sets nothing. -/
def requestHeader (cmd : CmdType) (dataLen : UInt32) (offset : UInt64) (name : CString) :
    ProtocolHeader where
  magic := protocolMagic
  cmd := cmd.code
  dataLen := dataLen
  checksum := 0
  offset := offset
  filename := .strncpy 256 name.bytes

def noName : CString := ⟨[], List.not_mem_nil⟩

/-- `client_list_files`. A list that is not received is not reported. `malloc` tells
whether so many bytes are allocated, a `uint32_t` here; `overrun` is whatever
happens once bytes are stored behind a buffer that is too small. -/
def clientListFiles (malloc : UInt32 → Bool) (overrun : Handler ErrorCode) : Handler ErrorCode := do
  let sent ← sendOnce (requestHeader .list 0 0 noName).encode
  if sent.isSome then
    let response ← recvAll ResponseHeader.size []
    match response with
    | none => return .errRecv
    | some bytes =>
      let response := ResponseHeader.decode bytes
      if response.status = StatusCode.ok.code then
        if response.dataLen > 0 ∧ malloc (response.dataLen + 1) then
          if response.dataLen + 1 = 0 then overrun
          else
            let _ ← recvAll response.dataLen.toNat []
            return .success
        else return .success
      else return .errProtocol
  else return .errSend

/-- The end of an upload: the content and then the response to it. -/
def clientSendContent (content : Bytes) : Handler ErrorCode := do
  let allSent ← sendFileContent content
  if allSent then
    let response ← recvAll ResponseHeader.size []
    match response with
    | none => return .errRecv
    | some _ => return .success
  else return .errSend

def clientUploadFile (localPath : CString) (remoteName : Option CString) : Handler ErrorCode := do
  let opened ← Proc.perform (FileSystem.openRead localPath.bytes)
  match opened with
  | none => return .errFileOpen
  | some (size, content) =>
    let name := remoteName.getD (basename localPath)
    let sent ← sendOnce (requestHeader .upload (UInt32.ofNat size) 0 name).encode
    if sent.isSome then clientSendContent content else return .errSend

/-- The end of a download: open the local file and receive what the response
announces. A loop that stops early is not reported. -/
def clientReceiveContent (path : Bytes) (truncate : Bool) (position : Nat) (dataLen : UInt32) :
    Handler ErrorCode := do
  let opened ← Proc.perform (FileSystem.openWrite path truncate)
  if opened then
    let _ ← receiveContent path position dataLen.toNat
    return .success
  else return .errFileOpen

def clientDownloadFile (remoteName : CString) (localPath : Option CString) : Handler ErrorCode := do
  let path := localPath.getD remoteName
  let sent ← sendOnce (requestHeader .download 0 0 remoteName).encode
  if sent.isSome then
    let response ← recvAll ResponseHeader.size []
    match response with
    | none => return .errRecv
    | some bytes =>
      let response := ResponseHeader.decode bytes
      if response.status = StatusCode.ok.code then
        clientReceiveContent path.bytes true 0 response.dataLen
      else return .errProtocol
  else return .errSend

def clientDownloadResume (remoteName : CString) (localPath : Option CString) :
    Handler ErrorCode := do
  let path := localPath.getD remoteName
  let localSize ← Proc.perform fun system =>
    (UInt64.ofNat ((system.stat path.bytes).getD 0), system)
  let sent ← sendOnce (requestHeader .download 0 localSize remoteName).encode
  if sent.isSome then
    let response ← recvAll ResponseHeader.size []
    match response with
    | none => return .errRecv
    | some bytes =>
      let response := ResponseHeader.decode bytes
      if response.status = StatusCode.ok.code ∨ response.status = StatusCode.partially.code then
        if response.status = StatusCode.partially.code ∧ localSize > 0 then
          clientReceiveContent path.bytes false (seekPosition localSize) response.dataLen
        else clientReceiveContent path.bytes true 0 response.dataLen
      else return .errProtocol
  else return .errSend

/-- The loop of `client_upload_resume` that drops the payload of its probe. -/
def skipContent (remaining : Nat) : Handler Unit :=
  if remaining = 0 then .done ()
  else .recv (min remaining defaultBufferSize) fun
    | none => .done ()
    | some chunk => if chunk = [] then .done () else skipContent (remaining - chunk.length)
termination_by remaining
decreasing_by
  rename_i more nonempty
  exact Nat.sub_lt (Nat.pos_of_ne_zero more) (List.length_pos_iff.mpr nonempty)

/-- `client_upload_resume` once the offset is known. -/
def clientUploadFrom (name : CString) (size : Nat) (content : Bytes) (resumeOffset : UInt64) :
    Handler ErrorCode := do
  let sendSize := UInt64.ofNat size - resumeOffset
  let sent ← sendOnce (requestHeader .upload sendSize.toUInt32 resumeOffset name).encode
  if sent.isSome then clientSendContent (content.drop (seekPosition resumeOffset))
  else return .errSend

def clientUploadResume (localPath : CString) (remoteName : Option CString) : Handler ErrorCode := do
  let opened ← Proc.perform (FileSystem.openRead localPath.bytes)
  match opened with
  | none => return .errFileOpen
  | some (size, content) =>
    let name := remoteName.getD (basename localPath)
    let sent ← sendOnce (requestHeader .download 0 0 name).encode
    if sent.isSome then
      let response ← recvAll ResponseHeader.size []
      match response with
      | none => return .errRecv
      | some bytes =>
        let response := ResponseHeader.decode bytes
        if response.status = StatusCode.ok.code ∧ response.dataLen > 0 then
          skipContent response.dataLen.toNat
          if response.dataLen < UInt32.ofNat size then
            clientUploadFrom name size content response.dataLen.toUInt64
          else return .success
        else clientUploadFrom name size content 0
    else return .errSend

end LinuxCLearning.FileServer
