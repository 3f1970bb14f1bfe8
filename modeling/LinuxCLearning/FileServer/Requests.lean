import LinuxCLearning.FileServer.Transfer

/-! The server's side of a download and of an upload. -/

namespace LinuxCLearning.FileServer
open Proc

section Requests
variable {context : ServerContext} {always : FileSystem → Prop}
  {state : FileSystem} {name : CString}

theorem response_ne_nil (response : ResponseHeader) : response.encode ≠ [] := by
  rw [← List.length_pos_iff, ResponseHeader.encode_length]
  decide

theorem request_ne_nil (header : ProtocolHeader) : header.encode ≠ [] := by
  rw [← List.length_pos_iff, ProtocolHeader.encode_length]
  decide

theorem serverSendResponse_follows (holds : always state) (status : StatusCode) (message : Bytes) :
    Follows always (Ends (Returns .success state)) (fun _ after => after = state)
      (serverSendResponse status message) state
        ((responseMessage status message).encode.map .sent) := by
  have sent := sendOnce_follows holds (response_ne_nil (responseMessage status message))
  rw [← List.append_nil (List.map _ _)]
  exact returned_andThen sent (.ends holds ⟨rfl, rfl⟩) ⟨holds, rfl⟩

theorem respond_follows (holds : always state) (status : StatusCode) (message : Bytes)
    (code : ErrorCode) :
    Follows always (Ends (Returns code state)) (fun _ after => after = state)
      (do let _ ← serverSendResponse status message; return code : Handler ErrorCode) state
      ((responseMessage status message).encode.map .sent) := by
  rw [← List.append_nil (List.map _ _)]
  refine (serverSendResponse_follows holds status message).andThen ?_ ?_
  · intro result after sent
    obtain ⟨_, rfl⟩ := sent
    exact .ends holds ⟨rfl, rfl⟩
  · intro result after unchanged
    subst after
    exact ⟨holds, rfl⟩

/-- The dialogue of `server_send_file` on a file it has. -/
theorem serverSendFile_follows (holds : always state) (accepted : refusedName name = false)
    {content : Bytes} (file : state.At (context.filepath name) (some content)) {offset : UInt64}
    (within : offset.toNat ≤ content.length) (size : content.length < 2 ^ 63) :
    Follows always (Ends (Returns .success state)) (fun _ after => after = state)
      (serverSendFile context name offset) state
      ((fileResponse name (content.length - offset.toNat) offset).encode.map .sent ++
        (content.drop offset.toNat).map .sent) := by
  have position : seekPosition offset = offset.toNat := if_pos (within.trans_lt size)
  rw [serverSendFile, accepted, if_neg (by decide)]
  refine .perform holds ?_
  rw [file.openRead]
  simp only [Option.map_some, if_neg (not_lt.mpr within), position]
  refine returned_andThen (sendOnce_follows holds (response_ne_nil _)) ?_ ?_
  · rw [← List.append_nil (List.map _ _)]
    exact returned_andThen (sendFileContent_follows holds _) (.ends holds ⟨rfl, rfl⟩) ⟨holds, rfl⟩
  · apply (sendFileContent_dies holds _).andThen
    intro result after unchanged
    subst after
    exact ⟨holds, rfl⟩

/-- The dialogue of `server_send_file` on a file it does not have. -/
theorem serverSendFile_missing (holds : always state) (accepted : refusedName name = false)
    (file : state.At (context.filepath name) none) (offset : UInt64) :
    Follows always (Ends (Returns .errFileOpen state)) (fun _ after => after = state)
      (serverSendFile context name offset) state
      ((responseMessage .notFound (text "File not found")).encode.map .sent) := by
  rw [serverSendFile, accepted, if_neg (by decide)]
  refine .perform holds ?_
  rw [file.openRead]
  exact respond_follows holds _ _ _

/-- A file that grows towards `whole`: what is there already and what is to come. -/
def Appending (path whole : Bytes) (position : Nat) (rest : Bytes) (state : FileSystem) : Prop :=
  ∃ stored, state.At path (some stored) ∧ position = stored.length ∧ stored ++ rest = whole

theorem Appending.writes {path whole : Bytes} (position : Nat) (chunk rest : Bytes)
    (state : FileSystem) (_ : chunk ≠ [])
    (appending : Appending path whole position (chunk ++ rest) state) :
    (FileSystem.writeFile path position chunk state).1 = true ∧
      Appending path whole (position + chunk.length) rest
        (FileSystem.writeFile path position chunk state).2 := by
  obtain ⟨stored, file, rfl, total⟩ := appending
  obtain ⟨written, longer⟩ := file.writeFile chunk
  exact ⟨written, stored ++ chunk, longer, by simp, by rw [List.append_assoc, total]⟩

theorem receiveContent_appends {path whole : Bytes}
    (keeps : ∀ stored state, stored <+: whole → state.At path (some stored) → always state)
    {stored : Bytes} (data : Bytes) (total : stored ++ data = whole)
    (file : state.At path (some stored)) :
    Follows always (Ends fun result after => result = .complete ∧ after.At path (some whole))
      (fun result after => result = .recvFailed ∧
        ∃ stored, stored <+: whole ∧ after.At path (some stored))
      (receiveContent path stored.length data.length) state (data.map .got) := by
  have follows := receiveContent_follows (Appending path whole) Appending.writes
    (fun position rest state ⟨stored, file, _, total⟩ => keeps stored state ⟨rest, total⟩ file)
    stored.length data ⟨stored, file, rfl, total⟩
  refine follows.weaken ?_ ?_
  · intro result after received
    obtain ⟨rfl, stored, file, _, total⟩ := received
    rw [List.append_nil] at total
    exact ⟨rfl, total ▸ file⟩
  · intro result after stopped
    obtain ⟨rfl, _, rest, stored, file, _, total⟩ := stopped
    exact ⟨rfl, stored, ⟨rest, total⟩, file⟩

theorem unlinkFresh_dies {path stored : Bytes} (file : state.At path (some stored))
    (holds : always state) (absent : ∀ state, state.At path none → always state) (offset : UInt64) :
    (unlinkFresh path offset).Dies always (fun _ after => always after) state := by
  rw [unlinkFresh]
  split_ifs with fresh
  · exact ⟨holds, absent _ file.unlink, absent _ file.unlink⟩
  · exact ⟨holds, holds⟩

/-- `server_recv_file` with its file open at the end of what it holds. -/
theorem serverReceive_follows {path whole : Bytes}
    (keeps : ∀ stored state, stored <+: whole → state.At path (some stored) → always state)
    (absent : ∀ state, state.At path none → always state) {stored : Bytes} (data : Bytes)
    (total : stored ++ data = whole) (file : state.At path (some stored)) {fileSize : UInt32}
    (size : fileSize.toNat = data.length) (offset : UInt64) :
    Follows always (Ends fun result after => result = .success ∧ after.At path (some whole))
      (fun _ after => always after) (serverReceive path fileSize offset stored.length) state
      (data.map .got ++
        (responseMessage .ok (text "File uploaded successfully")).encode.map .sent) := by
  rw [serverReceive, size]
  refine (receiveContent_appends keeps data total file).andThen ?_ ?_
  · intro result after received
    obtain ⟨rfl, complete⟩ := received
    have kept := keeps whole after (List.prefix_refl whole) complete
    refine (respond_follows kept _ _ _).weaken ?_ ?_
    · intro result final responded
      obtain ⟨rfl, rfl⟩ := responded
      exact ⟨rfl, complete⟩
    · intro result final unchanged
      subst final
      exact kept
  · intro result after stopped
    obtain ⟨rfl, partway, inside, file⟩ := stopped
    apply (unlinkFresh_dies file (keeps partway after inside file) absent offset).andThen
    intro _ final kept
    exact ⟨kept, kept⟩

theorem serverRecvFile_fresh (holds : always state) (accepted : refusedName name = false)
    {data : Bytes} {old : Option Bytes} (file : state.At (context.filepath name) old)
    (keeps : ∀ stored state, stored <+: data → state.At (context.filepath name) (some stored) →
      always state)
    (absent : ∀ state, state.At (context.filepath name) none → always state) {fileSize : UInt32}
    (size : fileSize.toNat = data.length) :
    Follows always
      (Ends fun result after => result = .success ∧ after.At (context.filepath name) (some data))
      (fun _ after => always after) (serverRecvFile context name fileSize 0) state
      (data.map .got ++
        (responseMessage .ok (text "File uploaded successfully")).encode.map .sent) := by
  obtain ⟨opened, empty⟩ := file.openWrite true
  rw [serverRecvFile, accepted, if_neg (by decide), if_neg (by decide)]
  refine .perform holds ?_
  rw [opened, if_pos rfl]
  exact serverReceive_follows keeps absent data (List.nil_append data) empty size 0

theorem serverRecvFile_resumed (holds : always state) (accepted : refusedName name = false)
    {stored data whole : Bytes} (file : state.At (context.filepath name) (some stored))
    (total : stored ++ data = whole)
    (keeps : ∀ stored state, stored <+: whole → state.At (context.filepath name) (some stored) →
      always state)
    (absent : ∀ state, state.At (context.filepath name) none → always state) {fileSize : UInt32}
    (size : fileSize.toNat = data.length) {offset : UInt64} (positive : offset > 0)
    (atEnd : offset.toNat = stored.length) (small : stored.length < 2 ^ 63) :
    Follows always
      (Ends fun result after => result = .success ∧ after.At (context.filepath name) (some whole))
      (fun _ after => always after) (serverRecvFile context name fileSize offset) state
      (data.map .got ++
        (responseMessage .ok (text "File uploaded successfully")).encode.map .sent) := by
  obtain ⟨opened, still⟩ := file.openWrite false
  have position : seekPosition offset = stored.length :=
    (if_pos (atEnd.trans_lt small)).trans atEnd
  rw [serverRecvFile, accepted, if_neg (by decide), if_pos positive, position]
  refine .perform holds ?_
  rw [opened, if_pos rfl]
  exact serverReceive_follows keeps absent data total still size offset

variable {post : Bool → FileSystem → Prop}

theorem serverRequest_follows (holds : always state) {header : ProtocolHeader}
    (magic : header.magic = protocolMagic) {dialogue : List (Mark UInt8)}
    (dispatch : Follows always (Ends post) (fun _ after => always after)
      (serverDispatch context header) state dialogue) :
    Follows always (Ends post) (fun _ after => always after) (serverRequest context) state
      (header.encode.map .got ++ dialogue) := by
  have received := recvAll_follows holds header.encode []
  rw [ProtocolHeader.encode_length, List.nil_append] at received
  refine returned_andThen received ?_ ⟨holds, holds⟩
  simpa only [ProtocolHeader.decode_encode, magic, if_true] using dispatch

theorem requestHeader_name (cmd : CmdType) (dataLen : UInt32) (offset : UInt64)
    (short : name.length ≤ 255) (rest : Bytes) :
    CString.ofBuffer ((requestHeader cmd dataLen offset name).filename.bytes ++ rest) = name :=
  CharArray.strncpy_string name (Nat.lt_succ_of_le short) rest

theorem serverDispatch_download (short : name.length ≤ 255) (dataLen : UInt32) (offset : UInt64) :
    serverDispatch context (requestHeader .download dataLen offset name) =
      (do let _ ← serverSendFile context name offset; return true) := by
  simp only [serverDispatch, requestHeader_name .download dataLen offset short]
  rfl

theorem serverDispatch_upload (short : name.length ≤ 255) (dataLen : UInt32) (offset : UInt64) :
    serverDispatch context (requestHeader .upload dataLen offset name) =
      (do let _ ← serverRecvFile context name dataLen offset; return true) := by
  simp only [serverDispatch, requestHeader_name .upload dataLen offset short]
  rfl

theorem dropResult_follows {handler : Handler ErrorCode} {code : ErrorCode → FileSystem → Prop}
    {dead : ErrorCode → FileSystem → Prop} {served : FileSystem → Prop}
    {dialogue : List (Mark UInt8)}
    (follows : Follows always (Ends code) dead handler state dialogue)
    (ends : ∀ result after, code result after → always after ∧ served after)
    (dies : ∀ result after, dead result after → always after) :
    Follows always (Ends fun continues after => continues = true ∧ served after)
      (fun _ after => always after) (do let _ ← handler; return true : Handler Bool) state
      dialogue := by
  rw [← List.append_nil dialogue]
  refine follows.andThen ?_ ?_
  · intro result after ended
    exact .ends (ends result after ended).1 ⟨rfl, (ends result after ended).2⟩
  · intro result after broken
    exact ⟨dies result after broken, dies result after broken⟩

theorem serverRequest_fresh (holds : always state) (short : name.length ≤ 255)
    (accepted : refusedName name = false) {content : Bytes} {old : Option Bytes}
    (file : state.At (context.filepath name) old)
    (keeps : ∀ stored state, stored <+: content → state.At (context.filepath name) (some stored) →
      always state)
    (absent : ∀ state, state.At (context.filepath name) none → always state)
    (size : content.length < 2 ^ 32) :
    Follows always
      (Ends fun continues after => continues = true ∧
        after.At (context.filepath name) (some content))
      (fun _ after => always after) (serverRequest context) state
      ((requestHeader .upload (UInt32.ofNat content.length) 0 name).encode.map .got ++
        (content.map .got ++
          (responseMessage .ok (text "File uploaded successfully")).encode.map .sent)) := by
  apply serverRequest_follows holds rfl
  rw [serverDispatch_upload short]
  have received := serverRecvFile_fresh holds accepted file keeps absent
    (UInt32.toNat_ofNat_of_lt' size)
  refine dropResult_follows received ?_ (fun _ _ kept => kept)
  intro result after ended
  exact ⟨keeps content after (List.prefix_refl content) ended.2, ended.2⟩

theorem serverRequest_download (holds : always state) (short : name.length ≤ 255)
    (accepted : refusedName name = false) {content : Bytes}
    (file : state.At (context.filepath name) (some content)) {offset : UInt64}
    (within : offset.toNat ≤ content.length) (size : content.length < 2 ^ 32) :
    Follows always (Ends fun continues after => continues = true ∧ after = state)
      (fun _ after => always after) (serverRequest context) state
      ((requestHeader .download 0 offset name).encode.map .got ++
        ((fileResponse name (content.length - offset.toNat) offset).encode.map .sent ++
          (content.drop offset.toNat).map .sent)) := by
  apply serverRequest_follows holds rfl
  rw [serverDispatch_download short]
  have sent := serverSendFile_follows holds accepted file within (size.trans (by decide))
  refine dropResult_follows sent ?_ ?_
  · intro result after ended
    obtain ⟨_, rfl⟩ := ended
    exact ⟨holds, rfl⟩
  · intro result after unchanged
    subst after
    exact holds

/-- The server's turn on an upload that goes on where the file ends. -/
theorem serverRequest_resumed (holds : always state) (short : name.length ≤ 255)
    (accepted : refusedName name = false) {stored whole : Bytes}
    (file : state.At (context.filepath name) (some stored)) (some_bytes : stored ≠ [])
    (inside : stored <+: whole)
    (keeps : ∀ stored state, stored <+: whole → state.At (context.filepath name) (some stored) →
      always state)
    (absent : ∀ state, state.At (context.filepath name) none → always state)
    (size : whole.length < 2 ^ 32) :
    Follows always
      (Ends fun continues after => continues = true ∧ after.At (context.filepath name) (some whole))
      (fun _ after => always after) (serverRequest context) state
      ((requestHeader .upload (UInt32.ofNat (whole.length - stored.length))
          (UInt64.ofNat stored.length) name).encode.map .got ++
        ((whole.drop stored.length).map .got ++
          (responseMessage .ok (text "File uploaded successfully")).encode.map .sent)) := by
  have smaller : stored.length < 2 ^ 32 := inside.length_le.trans_lt size
  have atEnd : (UInt64.ofNat stored.length).toNat = stored.length :=
    UInt64.toNat_ofNat_of_lt' (smaller.trans (by decide))
  have positive : UInt64.ofNat stored.length > 0 := by
    rw [gt_iff_lt, UInt64.lt_iff_toNat_lt, atEnd]
    exact List.length_pos_iff.mpr some_bytes
  have announced : (UInt32.ofNat (whole.length - stored.length)).toNat =
      (whole.drop stored.length).length := by
    rw [List.length_drop]
    exact UInt32.toNat_ofNat_of_lt' ((Nat.sub_le _ _).trans_lt size)
  have total : stored ++ whole.drop stored.length = whole := by
    obtain ⟨rest, rfl⟩ := inside
    rw [List.drop_left]
  apply serverRequest_follows holds rfl
  rw [serverDispatch_upload short]
  have received := serverRecvFile_resumed holds accepted file total keeps absent announced positive
    atEnd (smaller.trans (by decide))
  refine dropResult_follows received ?_ (fun _ _ kept => kept)
  intro result after ended
  exact ⟨keeps whole after (List.prefix_refl whole) ended.2, ended.2⟩

/-- The server's turn on a download of a file that is not there. -/
theorem serverRequest_missing (holds : always state) (short : name.length ≤ 255)
    (accepted : refusedName name = false) (file : state.At (context.filepath name) none)
    (offset : UInt64) :
    Follows always (Ends fun continues after => continues = true ∧ after = state)
      (fun _ after => always after) (serverRequest context) state
      ((requestHeader .download 0 offset name).encode.map .got ++
        (responseMessage .notFound (text "File not found")).encode.map .sent) := by
  apply serverRequest_follows holds rfl
  rw [serverDispatch_download short]
  refine dropResult_follows (serverSendFile_missing holds accepted file offset) ?_ ?_
  · intro result after ended
    obtain ⟨_, rfl⟩ := ended
    exact ⟨holds, rfl⟩
  · intro result after unchanged
    subst after
    exact holds

theorem serverHandleClient_dies (holds : always state) (turns : Nat) :
    (serverHandleClient context turns).Dies always (fun _ after => always after) state := by
  cases turns with
  | zero => exact ⟨holds, holds⟩
  | succ turns =>
    rw [serverHandleClient, serverRequest, recvAll]
    exact ⟨holds, holds, holds⟩

theorem serverHandleClient_waits (holds : always state) (turns : Nat) :
    (serverHandleClient context turns).Waits always (fun _ after => always after) state := by
  cases turns with
  | zero => trivial
  | succ turns =>
    rw [serverHandleClient, serverRequest, recvAll]
    exact ⟨holds, holds⟩

/-- The server between two requests, with so many turns to go. -/
def Between (context : ServerContext) (turns : Nat) (served : FileSystem → Prop)
    (program : Handler Unit) (state : FileSystem) : Prop :=
  program = serverHandleClient context turns ∧ served state

theorem serverHandleClient_follows {served : FileSystem → Prop} {dialogue : List (Mark UInt8)}
    (request : Follows always (Ends fun continues after => continues = true ∧ served after)
      (fun _ after => always after) (serverRequest context) state dialogue)
    (keeps : ∀ after, served after → always after) (turns : Nat) :
    Follows always (Between context turns served) (fun _ after => always after)
      (serverHandleClient context (turns + 1)) state dialogue := by
  rw [serverHandleClient, ← List.append_nil dialogue]
  refine request.andThen ?_ ?_
  · intro continues after requested
    obtain ⟨rfl, done⟩ := requested
    exact .waits (keeps after done) ⟨rfl, done⟩ (serverHandleClient_waits (keeps after done) turns)
  · intro continues after kept
    cases continues with
    | true => exact serverHandleClient_dies kept turns
    | false => exact ⟨kept, kept⟩

theorem serverHandleClient_download (always : FileSystem → Prop) (holds : always state)
    (short : name.length ≤ 255) (accepted : refusedName name = false) {content : Bytes}
    (file : state.At (context.filepath name) (some content)) {offset : UInt64}
    (within : offset.toNat ≤ content.length) (size : content.length < 2 ^ 32) (turns : Nat) :
    Follows always (Between context turns (· = state)) (fun _ after => always after)
      (serverHandleClient context (turns + 1)) state
      ((requestHeader .download 0 offset name).encode.map .got ++
        ((fileResponse name (content.length - offset.toNat) offset).encode.map .sent ++
          (content.drop offset.toNat).map .sent)) := by
  refine serverHandleClient_follows
    (serverRequest_download holds short accepted file within size) ?_ turns
  intro after same
  rw [same]
  exact holds

end Requests

end LinuxCLearning.FileServer
