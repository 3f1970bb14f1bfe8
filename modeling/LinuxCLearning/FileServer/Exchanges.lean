import LinuxCLearning.Base.Exchange
import LinuxCLearning.FileServer.Interactive
import LinuxCLearning.FileServer.RoundTrip

/-! One command of the client with the server that answers it, and what both file
systems are afterwards. -/

namespace LinuxCLearning.FileServer
open Proc

/-- No call is going to fail for want of luck. -/
structure Steady (system : FileSystem) : Prop where
  opens : system.openOutcomes = []
  writes : system.writeOutcomes = []

namespace Steady
variable {system : FileSystem} {path : Bytes}

theorem setFile (steady : Steady system) (path content : Bytes) :
    Steady (system.setFile path content) :=
  ⟨steady.opens, steady.writes⟩

theorem unlink (steady : Steady system) (path : Bytes) :
    Steady (FileSystem.unlink path system).2 := by
  rw [FileSystem.unlink]
  split <;> exact ⟨steady.opens, steady.writes⟩

theorem mkdir (steady : Steady system) (path : Bytes) :
    Steady (FileSystem.mkdir path system).2 := by
  rw [FileSystem.mkdir]
  split <;> exact ⟨steady.opens, steady.writes⟩

theorem rmdir (steady : Steady system) (path : Bytes) :
    Steady (FileSystem.rmdir path system).2 := by
  rw [FileSystem.rmdir]
  split_ifs <;> exact ⟨steady.opens, steady.writes⟩

theorem is_at (steady : Steady system) (regular : system.directories path = none) :
    system.At path (system.files path) :=
  ⟨steady.opens, steady.writes, regular, rfl⟩

theorem opened (steady : Steady system) :
    { system with openOutcomes := system.openOutcomes.tail } = system := by
  obtain ⟨files, directories, listed, openOutcomes, writeOutcomes⟩ := system
  obtain rfl : openOutcomes = [] := steady.opens
  rfl

theorem openWrite (steady : Steady system) (regular : system.directories path = none)
    (truncate : Bool) :
    FileSystem.openWrite path truncate system =
      (true, system.setFile path (if truncate then [] else (system.files path).getD [])) := by
  have allowed : system.openOutcomes.headD true = true ∧ system.directories path = none :=
    ⟨by rw [steady.opens]; rfl, regular⟩
  simp only [FileSystem.openWrite, steady.opened]
  exact if_pos allowed

theorem written (steady : Steady system) :
    { system with writeOutcomes := system.writeOutcomes.tail } = system := by
  obtain ⟨files, directories, listed, openOutcomes, writeOutcomes⟩ := system
  obtain rfl : writeOutcomes = [] := steady.writes
  rfl

theorem writeFile (steady : Steady system) (stored chunk : Bytes) :
    FileSystem.writeFile path stored.length chunk (system.setFile path stored) =
      (true, (system.setFile path stored).setFile path (stored ++ chunk)) := by
  have content : ((system.setFile path stored).files path).getD [] = stored := by
    simp [FileSystem.setFile]
  have appended : writeAt stored stored.length chunk = stored ++ chunk := by
    simp [writeAt]
  have full : (system.setFile path stored).writeOutcomes.headD .full = .full := by
    rw [(steady.setFile path stored).writes]
    rfl
  simp only [FileSystem.writeFile, full, (steady.setFile path stored).written, content, appended]

end Steady

section Files
variable {system : FileSystem} {path : Bytes}

@[simp] theorem setFile_files (system : FileSystem) (path content : Bytes) :
    (system.setFile path content).files path = some content := by
  simp [FileSystem.setFile]

@[simp] theorem setFile_setFile (system : FileSystem) (path first second : Bytes) :
    (system.setFile path first).setFile path second = system.setFile path second := by
  have listed : path ∈ (system.setFile path first).listed := by
    simp only [FileSystem.setFile]
    split_ifs with member
    · exact member
    · simp
  rw [FileSystem.setFile, if_pos listed]
  simp only [FileSystem.setFile, Function.update_idem]

end Files

section Loops
variable {system : FileSystem} {path : Bytes}

theorem sendOnce_plays (state : FileSystem) {bytes : Bytes} (nonempty : bytes ≠ []) :
    (sendOnce bytes).Plays state (bytes.map .sent) (some bytes.length) state :=
  (sendOnce_follows trivial nonempty).plays fun _ _ returned => returned

theorem recvResponse_plays (state : FileSystem) (response : ResponseHeader) :
    (recvAll ResponseHeader.size []).Plays state (response.encode.map .got)
      (some response.encode) state :=
  (recvResponse_follows trivial response).plays fun _ _ returned => returned

/-- A file on its way to `whole`, in a file system that is otherwise the first one. -/
def Growing (first : FileSystem) (path whole : Bytes) (position : Nat) (rest : Bytes)
    (state : FileSystem) : Prop :=
  ∃ held, state = first.setFile path held ∧ position = held.length ∧ held ++ rest = whole

/-- The loop that receives a payload puts exactly it behind what the file holds. -/
theorem receiveContent_plays (steady : Steady system) (stored data : Bytes) :
    (receiveContent path stored.length data.length).Plays (system.setFile path stored)
      (data.map .got) .complete
      (system.setFile path (stored ++ data)) := by
  have writes : ∀ position chunk rest state, chunk ≠ [] →
      Growing system path (stored ++ data) position (chunk ++ rest) state →
      (FileSystem.writeFile path position chunk state).1 = true ∧
        Growing system path (stored ++ data) (position + chunk.length) rest
          (FileSystem.writeFile path position chunk state).2 := by
    rintro position chunk rest state _ ⟨held, rfl, rfl, total⟩
    rw [steady.writeFile, setFile_setFile]
    exact ⟨rfl, held ++ chunk, rfl, List.length_append.symm, (List.append_assoc _ _ _).trans total⟩
  have follows := receiveContent_follows (Growing system path (stored ++ data)) writes
    (fun _ _ _ _ => trivial)
    stored.length data ⟨stored, rfl, rfl, rfl⟩
  refine follows.plays ?_
  rintro result after ⟨rfl, held, rfl, _, total⟩
  rw [List.append_nil] at total
  exact ⟨rfl, by rw [total]⟩

end Loops

section Server
variable {context : ServerContext} {system after : FileSystem} {name : CString} {turns : Nat}
  {dialogue : List (Mark UInt8)}

theorem respond_plays (system : FileSystem) (status : StatusCode)
    (message : Bytes) (code : ErrorCode) :
    (do let _ ← serverSendResponse status message; return code : Handler ErrorCode).Plays system
      ((responseMessage status message).encode.map .sent) code system :=
  (respond_follows trivial status message code).plays fun _ _ returned => returned

theorem serverHandleClient_rests (context : ServerContext) (turns : Nat) (system : FileSystem) :
    (serverHandleClient context turns).Waits (fun _ => True) (fun _ _ => True) system :=
  serverHandleClient_waits trivial turns

theorem serverHandleClient_pauses {header : ProtocolHeader} (magic : header.magic = protocolMagic)
    {handler : Handler ErrorCode} {code : ErrorCode}
    (dispatch : serverDispatch context header = do let _ ← handler; return true)
    (plays : handler.Plays system dialogue code after) (turns : Nat) :
    (serverHandleClient context (turns + 1)).Pauses system (header.encode.map .got ++ dialogue)
      (serverHandleClient context turns) after := by
  have dispatched : (serverDispatch context header).Plays system dialogue true after := by
    rw [dispatch]
    exact plays.map (plays_done true after)
  have requested : (serverRequest context).Plays system
      (header.encode.map .got ++ dialogue) true after :=
    (serverRequest_follows trivial magic
      (dispatched.weaken (fun _ _ ended => ended) fun _ _ _ => trivial)).plays
      fun _ _ ended => ended
  rw [serverHandleClient, ← List.append_nil (_ ++ dialogue)]
  exact requested.pauses (pauses_here (serverHandleClient_rests context turns after))

theorem request_exchange {α : Type} {program : Handler α} {client final : FileSystem}
    {value : α} {cmd : CmdType} {dataLen : UInt32} {offset : UInt64} {handler : Handler ErrorCode}
    (asks : program.Plays client ((requestHeader cmd dataLen offset name).encode.map .sent ++
      dialogue) value final)
    (dispatch : serverDispatch context (requestHeader cmd dataLen offset name) =
      do let _ ← handler; return true)
    (answers : ∃ code, handler.Plays system (dialogue.map Mark.dual) code after) (turns : Nat) :
    Exchange program (serverHandleClient context (turns + 1)) client system value final
      (serverHandleClient context turns) after := by
  obtain ⟨code, plays⟩ := answers
  refine ⟨_, asks, ?_⟩
  rw [List.map_append, List.map_map, Mark.dual_comp_sent]
  exact serverHandleClient_pauses rfl dispatch plays turns

theorem serverDispatch_list (name : CString) :
    serverDispatch context (requestHeader .list 0 0 name) =
      (do let _ ← serverListFiles context; return true) := rfl

theorem serverDispatch_delete (short : name.length ≤ 255) :
    serverDispatch context (requestHeader .delete 0 0 name) =
      (do let _ ← serverDeleteFile context name; return true) := by
  simp only [serverDispatch, requestHeader_name .delete 0 0 short]
  rfl

theorem serverDispatch_mkdir (short : name.length ≤ 255) :
    serverDispatch context (requestHeader .mkdir 0 0 name) =
      (do let _ ← serverMkdir context name; return true) := by
  simp only [serverDispatch, requestHeader_name .mkdir 0 0 short]
  rfl

theorem serverDispatch_rmdir (short : name.length ≤ 255) :
    serverDispatch context (requestHeader .rmdir 0 0 name) =
      (do let _ ← serverRmdir context name; return true) := by
  simp only [serverDispatch, requestHeader_name .rmdir 0 0 short]
  rfl

theorem serverDispatch_pwd (name : CString) :
    serverDispatch context (requestHeader .pwd 0 0 name) =
      (do let _ ← serverPwd context; return true) := rfl

theorem serverDispatch_quit (name : CString) :
    serverDispatch context (requestHeader .quit 0 0 name) =
      (do let _ ← serverSendResponse .ok (text "Goodbye"); return false) := rfl

/-- The response to a finished upload. -/
def uploaded : ResponseHeader := responseMessage .ok (text "File uploaded successfully")

theorem serverReceive_plays (steady : Steady system) {path : Bytes} (stored : Bytes)
    {data : Bytes} {fileSize : UInt32} (size : fileSize.toNat = data.length) (offset : UInt64) :
    (serverReceive path fileSize offset stored.length).Plays (system.setFile path stored)
      (data.map .got ++ uploaded.encode.map .sent) .success
        (system.setFile path (stored ++ data)) := by
  rw [serverReceive, size]
  exact (receiveContent_plays steady stored data).bind (respond_plays _ _ _ _)

theorem serverRecvFile_plays (steady : Steady system) (accepted : refusedName name = false)
    (regular : system.directories (context.filepath name) = none) {data : Bytes} {fileSize : UInt32}
    (size : fileSize.toNat = data.length) :
    (serverRecvFile context name fileSize 0).Plays system
      (data.map .got ++ uploaded.encode.map .sent) .success
      (system.setFile (context.filepath name) data) := by
  rw [serverRecvFile, accepted, if_neg (by decide), if_neg (by decide)]
  apply Plays.perform
  rw [steady.openWrite regular, if_pos rfl]
  exact serverReceive_plays steady [] size 0

theorem serverRecvFile_continues (steady : Steady system) (accepted : refusedName name = false)
    (regular : system.directories (context.filepath name) = none)
    {stored data : Bytes} {fileSize : UInt32}
    (file : system.files (context.filepath name) = some stored)
    (size : fileSize.toNat = data.length)
    {offset : UInt64} (positive : offset > 0) (atEnd : offset.toNat = stored.length)
    (small : stored.length < 2 ^ 63) :
    (serverRecvFile context name fileSize offset).Plays system
      (data.map .got ++ uploaded.encode.map .sent) .success
      (system.setFile (context.filepath name) (stored ++ data)) := by
  have position : seekPosition offset = stored.length := (if_pos (atEnd.trans_lt small)).trans atEnd
  rw [serverRecvFile, accepted, if_neg (by decide), if_pos positive, position]
  apply Plays.perform
  rw [steady.openWrite regular, file, if_pos rfl]
  exact serverReceive_plays steady stored size offset

theorem serverSendFile_plays (steady : Steady system) (accepted : refusedName name = false)
    (regular : system.directories (context.filepath name) = none)
    {content : Bytes} {offset : UInt64} (file : system.files (context.filepath name) = some content)
    (within : offset.toNat ≤ content.length) (size : content.length < 2 ^ 63) :
    (serverSendFile context name offset).Plays system
      ((fileResponse name (content.length - offset.toNat) offset).encode.map .sent ++
        (content.drop offset.toNat).map .sent) .success system :=
  (serverSendFile_follows trivial accepted (file ▸ steady.is_at regular) within size).plays
    fun _ _ returned => returned

theorem serverSendFile_refuses (steady : Steady system) (offset : UInt64)
    (refused : refusedName name = true ∨ system.directories (context.filepath name) = none ∧
      ∀ content, system.files (context.filepath name) = some content →
        content.length < offset.toNat) :
    ∃ (response : ResponseHeader) (code : ErrorCode), response.status ≠ StatusCode.ok.code ∧
      response.status ≠ StatusCode.partially.code ∧
      (serverSendFile context name offset).Plays system
        (response.encode.map .sent) code system := by
  rw [serverSendFile]
  split_ifs with denied
  · exact ⟨responseMessage .denied (text "Invalid filename"),
      .errFileOpen, by decide, by decide, respond_plays _ _ _ _⟩
  rcases refused with denies | ⟨regular, beyond⟩
  · exact absurd denies denied
  have held := steady.is_at regular
  cases file : system.files (context.filepath name) with
  | none =>
    refine ⟨responseMessage .notFound (text "File not found"),
      .errFileOpen, by decide, by decide, ?_⟩
    apply Plays.perform
    rw [held.openRead, file]
    exact respond_plays _ _ _ _
  | some content =>
    refine ⟨responseMessage .error (text "Offset exceeds file size"),
      .errProtocol, by decide, by decide, ?_⟩
    apply Plays.perform
    rw [held.openRead, file]
    simp only [Option.map_some, if_pos (beyond content file)]
    exact respond_plays _ _ _ _

end Server

section Client
variable {client : FileSystem} {path : Bytes} {name : CString} {dialogue : List (Mark UInt8)}

/-- The client writes the announced payload behind what it keeps of its file. -/
theorem clientReceiveContent_plays (steady : Steady client)
    (regular : client.directories path = none) (truncate : Bool) {kept data : Bytes}
    (keeps : (if truncate then [] else (client.files path).getD []) = kept)
    {dataLen : UInt32} (size : dataLen.toNat = data.length) :
    (clientReceiveContent path truncate kept.length dataLen).Plays client (data.map .got) .success
      (client.setFile path (kept ++ data)) := by
  apply Plays.perform
  rw [steady.openWrite regular, keeps, if_pos rfl, size]
  exact (receiveContent_plays steady kept data).map (plays_done _ _)

theorem clientDownloadFile_plays (steady : Steady client) (remoteName : CString)
    (regular : client.directories remoteName.bytes = none) {content : Bytes}
    (size : content.length < 2 ^ 32) :
    (clientDownloadFile remoteName none).Plays client
      ((requestHeader .download 0 0 remoteName).encode.map .sent ++
        ((fileResponse remoteName content.length 0).encode.map .got ++ content.map .got)) .success
      (client.setFile remoteName.bytes content) := by
  refine (sendOnce_plays client (request_ne_nil _)).bind ?_
  refine (recvResponse_plays client _).bind ?_
  simp only [ResponseHeader.decode_encode]
  exact clientReceiveContent_plays steady regular true rfl (UInt32.toNat_ofNat_of_lt' size)

theorem clientDownloadFile_refused (client : FileSystem) (remoteName : CString)
    {response : ResponseHeader} (refused : response.status ≠ StatusCode.ok.code) :
    (clientDownloadFile remoteName none).Plays client
      ((requestHeader .download 0 0 remoteName).encode.map .sent ++ response.encode.map .got)
        .errProtocol client := by
  refine (sendOnce_plays client (request_ne_nil _)).bind ?_
  refine (recvResponse_plays client _).map ?_
  simp only [ResponseHeader.decode_encode, if_neg refused]
  exact plays_done _ _

theorem stat_kept (steady : Steady client) (regular : client.directories path = none) :
    (client.stat path).getD 0 = ((client.files path).getD []).length := by
  rw [(steady.is_at regular).stat]
  cases client.files path <;> rfl

/-- A resumed download: what the server has behind the length of the local file. -/
theorem clientDownloadResume_plays (steady : Steady client) (remoteName : CString)
    (regular : client.directories remoteName.bytes = none) {kept content : Bytes}
    (keeps : (client.files remoteName.bytes).getD [] = kept)
    (shorter : kept.length ≤ content.length) (size : content.length < 2 ^ 32) :
    (clientDownloadResume remoteName none).Plays client
      ((requestHeader .download 0 (UInt64.ofNat kept.length) remoteName).encode.map .sent ++
        ((fileResponse remoteName (content.length - kept.length)
          (UInt64.ofNat kept.length)).encode.map .got ++
          (content.drop kept.length).map .got)) .success
      (client.setFile remoteName.bytes (kept ++ content.drop kept.length)) := by
  have localSize : (UInt64.ofNat kept.length).toNat = kept.length :=
    UInt64.toNat_ofNat_of_lt' ((shorter.trans_lt size).trans (by decide))
  have announced : (UInt32.ofNat (content.length - kept.length)).toNat =
      (content.drop kept.length).length := by
    rw [UInt32.toNat_ofNat_of_lt' ((Nat.sub_le _ _).trans_lt size), List.length_drop]
  apply Plays.perform
  simp only [Option.getD_none, stat_kept steady regular, keeps]
  refine (sendOnce_plays client (request_ne_nil _)).bind ?_
  refine (recvResponse_plays client _).bind ?_
  simp only [ResponseHeader.decode_encode]
  by_cases positive : UInt64.ofNat kept.length > 0
  · have status : (fileResponse remoteName (content.length - kept.length)
        (UInt64.ofNat kept.length)).status =
        StatusCode.partially.code := if_pos positive
    have position : seekPosition (UInt64.ofNat kept.length) = kept.length :=
      (if_pos (localSize.trans_lt ((shorter.trans_lt size).trans (by decide)))).trans localSize
    rw [if_pos (.inr status), if_pos ⟨status, positive⟩, position]
    exact clientReceiveContent_plays steady regular false keeps announced
  · have status : (fileResponse remoteName (content.length - kept.length)
        (UInt64.ofNat kept.length)).status =
        StatusCode.ok.code := if_neg positive
    have empty : kept = [] := by
      rw [gt_iff_lt, UInt64.lt_iff_toNat_lt, localSize] at positive
      exact List.length_eq_zero_iff.mp (Nat.eq_zero_of_not_pos positive)
    subst empty
    rw [if_pos (.inl status), if_neg (fun both => positive both.2)]
    exact clientReceiveContent_plays steady regular true rfl announced

theorem clientDownloadResume_refused (client : FileSystem) (remoteName : CString)
    {response : ResponseHeader} (notOk : response.status ≠ StatusCode.ok.code)
    (notPartial : response.status ≠ StatusCode.partially.code) :
    (clientDownloadResume remoteName none).Plays client
      ((requestHeader .download 0 (UInt64.ofNat ((client.stat remoteName.bytes).getD 0))
        remoteName).encode.map .sent ++
        response.encode.map .got) .errProtocol client := by
  apply Plays.perform
  refine (sendOnce_plays client (request_ne_nil _)).bind ?_
  refine (recvResponse_plays client _).map ?_
  have neither := not_or.mpr ⟨notOk, notPartial⟩
  simp only [ResponseHeader.decode_encode, if_neg neither]
  exact plays_done _ _

theorem clientUpload_missing (steady : Steady client) {localPath : CString}
    (regular : client.directories localPath.bytes = none)
    (missing : client.files localPath.bytes = none) :
    (clientUploadFile localPath none).Plays client [] .errFileOpen client ∧
      (clientUploadResume localPath none).Plays client [] .errFileOpen client := by
  have held := (steady.is_at regular).openRead
  constructor
  · apply Plays.perform
    rw [held, missing]
    exact plays_done _ _
  · apply Plays.perform
    rw [held, missing]
    exact plays_done _ _

/-- What the client shows of a message. -/
def shownMessage (message : Bytes) : Bytes := (CString.ofBuffer (message.take 255)).bytes

theorem strncpy_shown (message beyond : Bytes) :
    (CString.ofBuffer ((CharArray.strncpy 256 message).bytes ++ beyond)).bytes =
      shownMessage message := by
  obtain ⟨extra, total⟩ : ∃ extra, 256 = (message.take 255).length + (extra + 1) := by
    have fits := List.length_take_le 255 message
    exact ⟨255 - (message.take 255).length, by omega⟩
  have filled : (CharArray.strncpy 256 message).bytes =
      message.take 255 ++ 0 :: List.replicate extra 0 :=
    (congrArg (List.takeD · (message.take 255) 0) total).trans (CharArray.takeD_zeros _ extra)
  rw [filled, List.append_assoc, List.cons_append]
  exact takeWhile_first (by decide) _ _

theorem clientAsk_plays (client : FileSystem) (beyond : Bytes) (cmd : CmdType)
    (name : CString) (label : Bytes) (status : StatusCode) (message : Bytes) :
    (clientAsk beyond cmd name label).Plays client
      ((requestHeader cmd 0 0 name).encode.map .sent ++
        (responseMessage status message).encode.map .got)
      (.answered .success (label ++ shownMessage message ++ text "\n")) client := by
  refine (sendOnce_plays client (request_ne_nil _)).bind ?_
  refine (recvResponse_plays client _).map ?_
  simp only [ResponseHeader.decode_encode, responseMessage, strncpy_shown]
  exact plays_done _ _

end Client

section Commands
variable {context : ServerContext} {client server : FileSystem}

theorem basename_short {path : CString} (short : path.length ≤ 255) :
    (basename path).length ≤ 255 := by
  refine le_trans ?_ short
  show (path.bytes.reverse.takeWhile (· ≠ 47)).reverse.length ≤ path.bytes.length
  rw [List.length_reverse, ← path.bytes.length_reverse]
  exact (List.takeWhile_sublist _).length_le

theorem list_exchange (missing : server.directories context.sharedDir.bytes = none)
    (memory : ClientMemory) (turns : Nat) :
    Exchange (clientListFiles memory.malloc memory.overrun)
      (serverHandleClient context (turns + 1)) client server
      .errProtocol client (serverHandleClient context turns) server := by
  have asks : (clientListFiles memory.malloc memory.overrun).Plays client
      ((requestHeader .list 0 0 noName).encode.map .sent ++
        (responseMessage .error (text "Failed to open directory")).encode.map .got)
            .errProtocol client := by
    refine (sendOnce_plays client (request_ne_nil _)).bind ?_
    refine (recvResponse_plays client _).map ?_
    simp only [ResponseHeader.decode_encode]
    exact plays_done _ _
  refine request_exchange asks (serverDispatch_list noName) ⟨.errFileOpen, ?_⟩ turns
  rw [List.map_map, Mark.dual_comp_got, serverListFiles]
  apply Plays.perform
  rw [missing]
  exact respond_plays _ _ _ _

theorem upload_exchange (local_steady : Steady client) (steady : Steady server)
    {localPath : CString}
    (short : localPath.length ≤ 255) (regular : client.directories localPath.bytes = none)
    {content : Bytes} (file : client.files localPath.bytes = some content)
    (accepted : refusedName (basename localPath) = false)
    (remote : server.directories (context.filepath (basename localPath)) = none)
    (size : content.length < 2 ^ 32) (turns : Nat) :
    Exchange (clientUploadFile localPath none)
      (serverHandleClient context (turns + 1)) client server .success client
      (serverHandleClient context turns)
        (server.setFile (context.filepath (basename localPath)) content) := by
  have asks :=
    (clientUploadFile_follows trivial (file ▸ local_steady.is_at regular) none uploaded).plays
    fun _ _ returned => returned
  refine request_exchange asks (serverDispatch_upload (basename_short short) _ _)
    ⟨.success, ?_⟩ turns
  have received := serverRecvFile_plays steady accepted remote (UInt32.toNat_ofNat_of_lt' size)
  simpa using received

theorem download_exchange (local_steady : Steady client) (steady : Steady server) {name : CString}
    (short : name.length ≤ 255) (regular : client.directories name.bytes = none)
    (accepted : refusedName name = false)
    (remote : server.directories (context.filepath name) = none) {content : Bytes}
    (file : server.files (context.filepath name) = some content)
    (size : content.length < 2 ^ 32) (turns : Nat) :
    Exchange (clientDownloadFile name none)
      (serverHandleClient context (turns + 1)) client server .success
      (client.setFile name.bytes content) (serverHandleClient context turns) server := by
  refine request_exchange (clientDownloadFile_plays local_steady name regular size)
    (serverDispatch_download short _ _) ⟨.success, ?_⟩ turns
  have sent := serverSendFile_plays steady accepted remote file
    (show (0 : UInt64).toNat ≤ content.length from Nat.zero_le _) (size.trans (by decide))
  simpa using sent

theorem download_refused (steady : Steady server) {name : CString} (short : name.length ≤ 255)
    (refused : refusedName name = true ∨
      server.directories (context.filepath name) = none ∧
        server.files (context.filepath name) = none) (turns : Nat) :
    Exchange (clientDownloadFile name none)
      (serverHandleClient context (turns + 1)) client server .errProtocol client
      (serverHandleClient context turns) server := by
  have reason : refusedName name = true ∨ server.directories (context.filepath name) = none ∧
      ∀ content, server.files (context.filepath name) = some content →
          content.length < (0 : UInt64).toNat := by
    refine refused.imp_right ?_
    rintro ⟨regular, missing⟩
    exact ⟨regular, fun content file => by rw [missing] at file; cases file⟩
  obtain ⟨response, code, notOk, _, answers⟩ := serverSendFile_refuses steady 0 reason
  refine request_exchange (clientDownloadFile_refused client name notOk)
    (serverDispatch_download short _ _)
    ⟨code, ?_⟩ turns
  rw [List.map_map, Mark.dual_comp_got]
  exact answers

theorem resume_exchange (local_steady : Steady client) (steady : Steady server) {name : CString}
    (short : name.length ≤ 255) (regular : client.directories name.bytes = none)
    (accepted : refusedName name = false)
    (remote : server.directories (context.filepath name) = none) {kept content : Bytes}
    (keeps : (client.files name.bytes).getD [] = kept)
    (file : server.files (context.filepath name) = some content)
    (shorter : kept.length ≤ content.length) (size : content.length < 2 ^ 32) (turns : Nat) :
    Exchange (clientDownloadResume name none)
      (serverHandleClient context (turns + 1)) client server .success
      (client.setFile name.bytes (kept ++ content.drop kept.length))
        (serverHandleClient context turns) server := by
  have offset : (UInt64.ofNat kept.length).toNat = kept.length :=
    UInt64.toNat_ofNat_of_lt' ((shorter.trans_lt size).trans (by decide))
  refine request_exchange (clientDownloadResume_plays local_steady name regular keeps shorter size)
    (serverDispatch_download short _ _) ⟨.success, ?_⟩ turns
  have sent := serverSendFile_plays steady accepted remote file (offset.le.trans shorter)
    (size.trans (by decide))
  rw [offset] at sent
  simpa using sent

theorem resume_refused (steady : Steady server) {name : CString}
    (short : name.length ≤ 255) {offset : UInt64}
    (asked : UInt64.ofNat ((client.stat name.bytes).getD 0) = offset)
    (refused : refusedName name = true ∨ server.directories (context.filepath name) = none ∧
      ∀ content, server.files (context.filepath name) = some content →
        content.length < offset.toNat) (turns : Nat) :
    Exchange (clientDownloadResume name none)
      (serverHandleClient context (turns + 1)) client server .errProtocol client
      (serverHandleClient context turns) server := by
  obtain ⟨response, code, notOk, notPartial, answers⟩ :=
    serverSendFile_refuses steady offset refused
  have asks := clientDownloadResume_refused client name notOk notPartial
  rw [asked] at asks
  refine request_exchange asks (serverDispatch_download short _ _) ⟨code, ?_⟩ turns
  rw [List.map_map, Mark.dual_comp_got]
  exact answers

/-- What a server that has nothing of a file answers to the probe of a resumed upload. -/
theorem serverSendFile_probed (steady : Steady server) {name : CString}
    (accepted : refusedName name = false)
    (remote : server.directories (context.filepath name) = none)
    (nothing : (server.files (context.filepath name)).getD [] = []) :
    ∃ (probe : ResponseHeader) (code : ErrorCode),
      ¬(probe.status = StatusCode.ok.code ∧ probe.dataLen > 0) ∧
      (serverSendFile context name 0).Plays server (probe.encode.map .sent) code server := by
  cases file : server.files (context.filepath name) with
  | none =>
    have missing : ∀ content, server.files (context.filepath name) = some content →
        content.length < (0 : UInt64).toNat := fun content found => by
      rw [file] at found; cases found
    obtain ⟨probe, code, notOk, _, answers⟩ :=
      serverSendFile_refuses steady 0 (.inr ⟨remote, missing⟩)
    exact ⟨probe, code, fun present => notOk present.1, answers⟩
  | some stored =>
    rw [file] at nothing
    obtain rfl : stored = [] := nothing
    have sent := serverSendFile_plays steady accepted remote file
      (show (0 : UInt64).toNat ≤ ([] : Bytes).length from Nat.zero_le _) (by decide)
    exact ⟨fileResponse name 0 0, .success, fun present => absurd present.2
      (lt_irrefl 0), by simpa using sent⟩

/-- What a resumed transfer makes of a file: the rest of the other one behind it. -/
def continued (kept whole : Bytes) : Bytes := kept ++ whole.drop kept.length

theorem resumeUpload_fresh (local_steady : Steady client) (steady : Steady server)
    {localPath : CString}
    (short : localPath.length ≤ 255) (regular : client.directories localPath.bytes = none)
    {whole : Bytes} (file : client.files localPath.bytes = some whole)
    (accepted : refusedName (basename localPath) = false)
    (remote : server.directories (context.filepath (basename localPath)) = none)
    (nothing : (server.files (context.filepath (basename localPath))).getD [] = [])
    (size : whole.length < 2 ^ 32) (turns : Nat) :
    Exchange (clientUploadResume localPath none)
      (serverHandleClient context (turns + 2)) client server .success client
      (serverHandleClient context turns)
        (server.setFile (context.filepath (basename localPath)) whole) := by
  obtain ⟨probe, code, absent, answers⟩ := serverSendFile_probed steady accepted remote nothing
  have asks :=
    (clientUploadResume_fresh trivial (file ▸ local_steady.is_at regular)
      (size.trans (by decide)) none
    probe absent uploaded).plays fun _ _ returned => returned
  have received := serverRecvFile_plays steady accepted remote (UInt32.toNat_ofNat_of_lt' size)
  have first := serverHandleClient_pauses rfl
    (serverDispatch_download (basename_short short) 0 0) answers (turns + 1)
  have second := serverHandleClient_pauses rfl
    (serverDispatch_upload (basename_short short) _ _) received turns
  exact ⟨_, asks, by simpa using first.append second⟩

theorem resumeUpload_continues (local_steady : Steady client) (steady : Steady server)
    {localPath : CString}
    (short : localPath.length ≤ 255) (regular : client.directories localPath.bytes = none)
    {stored whole : Bytes} (file : client.files localPath.bytes = some whole)
    (accepted : refusedName (basename localPath) = false)
    (remote : server.directories (context.filepath (basename localPath)) = none)
    (held : server.files (context.filepath (basename localPath)) = some stored)
    (something : stored ≠ [])
    (shorter : stored.length < whole.length) (size : whole.length < 2 ^ 32) (turns : Nat) :
    Exchange (clientUploadResume localPath none)
      (serverHandleClient context (turns + 2)) client server .success client
      (serverHandleClient context turns)
      (server.setFile (context.filepath (basename localPath)) (continued stored whole)) := by
  have fits : stored.length < 2 ^ 32 := shorter.trans size
  have offset : (UInt64.ofNat stored.length).toNat = stored.length :=
    UInt64.toNat_ofNat_of_lt' (fits.trans (by decide))
  have positive : UInt64.ofNat stored.length > 0 := by
    rw [gt_iff_lt, UInt64.lt_iff_toNat_lt, offset]
    exact List.length_pos_iff.mpr something
  have announced : (UInt32.ofNat (whole.length - stored.length)).toNat =
      (whole.drop stored.length).length := by
    rw [List.length_drop]
    exact UInt32.toNat_ofNat_of_lt' ((Nat.sub_le _ _).trans_lt size)
  have asks :=
    (clientUploadResume_resumed trivial (file ▸ local_steady.is_at regular) size none something
    shorter.le uploaded).plays fun _ _ returned => returned
  rw [if_pos shorter] at asks
  have sent := serverSendFile_plays steady accepted remote held
    (show (0 : UInt64).toNat ≤ stored.length from Nat.zero_le _) (fits.trans (by decide))
  have received := serverRecvFile_continues steady accepted remote held announced positive offset
    (fits.trans (by decide))
  have first := serverHandleClient_pauses rfl
    (serverDispatch_download (basename_short short) 0 0) sent (turns + 1)
  have second := serverHandleClient_pauses rfl
    (serverDispatch_upload (basename_short short) _ _) received turns
  exact ⟨_, asks, by simpa [continued] using first.append second⟩

/-- A resumed upload to a server that has as much as the file. -/
theorem resumeUpload_enough (local_steady : Steady client) (steady : Steady server)
    {localPath : CString}
    (short : localPath.length ≤ 255) (regular : client.directories localPath.bytes = none)
    {stored whole : Bytes} (file : client.files localPath.bytes = some whole)
    (accepted : refusedName (basename localPath) = false)
    (remote : server.directories (context.filepath (basename localPath)) = none)
    (held : server.files (context.filepath (basename localPath)) = some stored)
    (something : stored ≠ []) (enough : whole.length ≤ stored.length) (size : whole.length < 2 ^ 32)
    (fits : stored.length < 2 ^ 32) (turns : Nat) :
    Exchange (clientUploadResume localPath none)
      (serverHandleClient context (turns + 1)) client server .success client
      (serverHandleClient context turns) server := by
  have announced : (UInt32.ofNat stored.length).toNat = stored.length :=
    UInt32.toNat_ofNat_of_lt' fits
  have total : (UInt32.ofNat whole.length).toNat = whole.length := UInt32.toNat_ofNat_of_lt' size
  have present : (fileResponse (basename localPath) stored.length 0).status = StatusCode.ok.code ∧
      (fileResponse (basename localPath) stored.length 0).dataLen > 0 := by
    refine ⟨rfl, UInt32.lt_iff_toNat_lt.mpr ?_⟩
    exact announced.symm ▸ List.length_pos_iff.mpr something
  have no_more : ¬ (fileResponse (basename localPath) stored.length 0).dataLen <
      UInt32.ofNat whole.length := by
    rw [UInt32.lt_iff_toNat_lt, total]
    exact not_lt.mpr (enough.trans announced.ge)
  have asks :=
    (clientUploadResume_probed trivial (file ▸ local_steady.is_at regular)
      (size.trans (by decide)) none _
    present announced uploaded).plays fun _ _ returned => returned
  rw [if_neg no_more, List.append_nil] at asks
  refine request_exchange asks (serverDispatch_download (basename_short short) _ _)
    ⟨.success, ?_⟩ turns
  have sent := serverSendFile_plays steady accepted remote held
    (show (0 : UInt64).toNat ≤ stored.length from Nat.zero_le _) (fits.trans (by decide))
  simpa using sent

theorem ask_exchange {cmd : CmdType} {name : CString}
    {handler : Handler ErrorCode} {code : ErrorCode}
    {status : StatusCode} {message : Bytes} {after : FileSystem} (beyond label : Bytes)
    (dispatch : serverDispatch context (requestHeader cmd 0 0 name) =
      do let _ ← handler; return true)
    (answers : handler.Plays server ((responseMessage status message).encode.map .sent) code after)
    (turns : Nat) :
    Exchange (clientAsk beyond cmd name label)
      (serverHandleClient context (turns + 1)) client server
      (.answered .success (label ++ shownMessage message ++ text "\n")) client
        (serverHandleClient context turns) after := by
  refine request_exchange (clientAsk_plays client beyond cmd name label status message)
    dispatch ⟨code, ?_⟩ turns
  rw [List.map_map, Mark.dual_comp_got]
  exact answers

/-- The message of `server_delete_file` and what it leaves. -/
def deleted (context : ServerContext) (name : CString) (server : FileSystem) : Bytes × FileSystem :=
  if refusedName name then (text "Invalid filename", server)
  else
    let result := FileSystem.unlink (context.filepath name) server
    (if result.1 then text "File deleted" else text "File not found", result.2)

theorem serverDeleteFile_plays (name : CString) :
    ∃ status code, (serverDeleteFile context name).Plays server
      ((responseMessage status (deleted context name server).1).encode.map .sent) code
        (deleted context name server).2 := by
  rw [serverDeleteFile, deleted]
  cases refused : refusedName name with
  | true => exact ⟨.denied, .errFileOpen, respond_plays _ _ _ _⟩
  | false =>
    cases result : (FileSystem.unlink (context.filepath name) server).1 with
    | true =>
      refine ⟨.ok, .success, Plays.perform ?_⟩
      simp only [result]
      exact respond_plays _ _ _ _
    | false =>
      refine ⟨.notFound, .errFileOpen, Plays.perform ?_⟩
      simp only [result]
      exact respond_plays _ _ _ _

/-- The message of `server_mkdir` or `server_rmdir` and what it leaves. -/
def directoryChanged (context : ServerContext) (call : Bytes → FileSystem → Option Nat × FileSystem)
    (success : Bytes) (dirname : CString) (server : FileSystem) : Bytes × FileSystem :=
  if refusedName dirname then (text "Invalid directory name", server)
  else
    let result := call (context.filepath dirname) server
    (result.1.elim success context.strerror, result.2)

theorem serverDirectory_plays (call : Bytes → FileSystem → Option Nat × FileSystem)
    (success : Bytes) (dirname : CString) :
    ∃ status code, (serverDirectory context call success dirname).Plays server
      ((responseMessage status
        (directoryChanged context call success dirname server).1).encode.map .sent) code
      (directoryChanged context call success dirname server).2 := by
  rw [serverDirectory, directoryChanged]
  cases refused : refusedName dirname with
  | true => exact ⟨.denied, .errFileOpen, respond_plays _ _ _ _⟩
  | false =>
    cases result : (call (context.filepath dirname) server).1 with
    | none =>
      refine ⟨.ok, .success, Plays.perform ?_⟩
      simp only [result]
      exact respond_plays _ _ _ _
    | some errno =>
      refine ⟨.error, .errFileOpen, Plays.perform ?_⟩
      simp only [result]
      exact respond_plays _ _ _ _

end Commands

end LinuxCLearning.FileServer
