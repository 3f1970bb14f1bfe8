import LinuxCLearning.FileServer.Requests

/-! The client's side of its four transfers. -/

namespace LinuxCLearning.FileServer
open Proc

section Uploads
variable {always : FileSystem → Prop} {state : FileSystem}

theorem recvResponse_follows (holds : always state) (response : ResponseHeader) :
    Follows always (Ends (Returns (some response.encode) state)) (Returns none state)
      (recvAll ResponseHeader.size []) state (response.encode.map .got) := by
  have received := recvAll_follows holds response.encode []
  rwa [ResponseHeader.encode_length, List.nil_append] at received

theorem clientSendContent_follows (holds : always state) (content : Bytes)
    (response : ResponseHeader) :
    Follows always (Ends (Returns .success state)) (fun _ after => after = state)
      (clientSendContent content) state (content.map .sent ++ response.encode.map .got) := by
  refine returned_andThen (sendFileContent_follows holds content) ?_ ⟨holds, rfl⟩
  rw [if_pos rfl, ← List.append_nil (List.map _ _)]
  exact returned_andThen (recvResponse_follows holds response) (.ends holds ⟨rfl, rfl⟩) ⟨holds, rfl⟩

theorem clientSendContent_dies (holds : always state) (content : Bytes) :
    (clientSendContent content).Dies always (fun _ after => after = state) state := by
  apply (sendFileContent_dies holds content).andThen
  intro result after unchanged
  subst after
  cases result with
  | false => exact ⟨holds, rfl⟩
  | true =>
    rw [if_pos rfl, recvAll]
    exact ⟨holds, holds, rfl⟩

theorem clientUploadFile_follows (holds : always state) {localPath : CString} {content : Bytes}
    (file : state.At localPath.bytes (some content)) (remoteName : Option CString)
    (response : ResponseHeader) :
    Follows always (Ends (Returns .success state)) (fun _ after => after = state)
      (clientUploadFile localPath remoteName) state
      ((requestHeader .upload (UInt32.ofNat content.length) 0
          (remoteName.getD (basename localPath))).encode.map .sent ++
        (content.map .sent ++ response.encode.map .got)) := by
  refine .perform holds ?_
  rw [file.openRead]
  refine returned_andThen (sendOnce_follows holds (request_ne_nil _)) ?_ ⟨holds, rfl⟩
  exact clientSendContent_follows holds content response

theorem clientUploadFrom_follows (holds : always state) (name : CString) {whole : Bytes}
    {resumeOffset : UInt64} (within : resumeOffset.toNat ≤ whole.length)
    (size : whole.length < 2 ^ 63) (response : ResponseHeader) :
    Follows always (Ends (Returns .success state)) (fun _ after => after = state)
      (clientUploadFrom name whole.length whole resumeOffset) state
      ((requestHeader .upload (UInt32.ofNat (whole.length - resumeOffset.toNat)) resumeOffset
          name).encode.map .sent ++
        ((whole.drop resumeOffset.toNat).map .sent ++ response.encode.map .got)) := by
  have position : seekPosition resumeOffset = resumeOffset.toNat :=
    if_pos (within.trans_lt size)
  have announced : (UInt64.ofNat whole.length - resumeOffset).toUInt32 =
      UInt32.ofNat (whole.length - resumeOffset.toNat) := by
    have length : (UInt64.ofNat whole.length).toNat = whole.length :=
      UInt64.toNat_ofNat_of_lt' (size.trans (by decide))
    have difference : (UInt64.ofNat whole.length - resumeOffset).toNat =
        whole.length - resumeOffset.toNat := by
      rw [UInt64.toNat_sub_of_le _ _ (UInt64.le_iff_toNat_le.mpr (by rwa [length])), length]
    rw [← difference, UInt32.ofNat_uInt64ToNat]
  simp only [clientUploadFrom, announced, position]
  refine returned_andThen (sendOnce_follows holds (request_ne_nil _)) ?_ ⟨holds, rfl⟩
  exact clientSendContent_follows holds _ response

theorem clientUploadFrom_dies (holds : always state) (name : CString) (size : Nat) (content : Bytes)
    (resumeOffset : UInt64) :
    (clientUploadFrom name size content resumeOffset).Dies always (fun _ after => after = state)
      state := by
  refine ⟨holds, ?_⟩
  intro result
  cases result with
  | none => exact ⟨holds, rfl⟩
  | some count => exact clientSendContent_dies holds _

/-- The client's side of a resumed upload when the server has nothing to go on from. -/
theorem clientUploadResume_fresh (holds : always state) {localPath : CString} {whole : Bytes}
    (file : state.At localPath.bytes (some whole)) (size : whole.length < 2 ^ 63)
    (remoteName : Option CString) (probe : ResponseHeader)
    (nothing : ¬(probe.status = StatusCode.ok.code ∧ probe.dataLen > 0))
    (response : ResponseHeader) :
    Follows always (Ends (Returns .success state)) (fun _ after => after = state)
      (clientUploadResume localPath remoteName) state
      ((requestHeader .download 0 0 (remoteName.getD (basename localPath))).encode.map .sent ++
        (probe.encode.map .got ++
          ((requestHeader .upload (UInt32.ofNat whole.length) 0
              (remoteName.getD (basename localPath))).encode.map .sent ++
            (whole.map .sent ++ response.encode.map .got)))) := by
  refine .perform holds ?_
  rw [file.openRead]
  refine returned_andThen (sendOnce_follows holds (request_ne_nil _)) ?_ ⟨holds, rfl⟩
  refine returned_andThen (recvResponse_follows holds probe) ?_ ⟨holds, rfl⟩
  simp only [ResponseHeader.decode_encode, if_neg nothing]
  exact clientUploadFrom_follows holds _ (Nat.zero_le _) size response

/-- The client's side of a resumed upload when the server has something: it drops the
payload of the probe and sends the rest, if there seems to be one. -/
theorem clientUploadResume_probed (holds : always state) {localPath : CString} {whole : Bytes}
    (file : state.At localPath.bytes (some whole)) (size : whole.length < 2 ^ 63)
    (remoteName : Option CString) (probe : ResponseHeader)
    (present : probe.status = StatusCode.ok.code ∧ probe.dataLen > 0) {skipped : Bytes}
    (length : probe.dataLen.toNat = skipped.length) (response : ResponseHeader) :
    Follows always (Ends (Returns .success state)) (fun _ after => after = state)
      (clientUploadResume localPath remoteName) state
      ((requestHeader .download 0 0 (remoteName.getD (basename localPath))).encode.map .sent ++
        (probe.encode.map .got ++
          (skipped.map .got ++
            if probe.dataLen < UInt32.ofNat whole.length then
              (requestHeader .upload (UInt32.ofNat (whole.length - skipped.length))
                  probe.dataLen.toUInt64 (remoteName.getD (basename localPath))).encode.map .sent ++
                ((whole.drop skipped.length).map .sent ++ response.encode.map .got)
            else []))) := by
  have offset : probe.dataLen.toUInt64.toNat = skipped.length :=
    (UInt32.toNat_toUInt64 _).trans length
  refine .perform holds ?_
  rw [file.openRead]
  refine returned_andThen (sendOnce_follows holds (request_ne_nil _)) ?_ ⟨holds, rfl⟩
  refine returned_andThen (recvResponse_follows holds probe) ?_ ⟨holds, rfl⟩
  simp only [ResponseHeader.decode_encode, if_pos present, length]
  refine returned_andThen (skipContent_follows holds skipped) ?_ ?_
  · split_ifs with less
    · have within : skipped.length ≤ whole.length := by
        rw [UInt32.lt_iff_toNat_lt, length, UInt32.toNat_ofNat'] at less
        exact less.le.trans (Nat.mod_le _ _)
      have rest := clientUploadFrom_follows holds (remoteName.getD (basename localPath))
        (offset.trans_le within) size response
      rwa [offset] at rest
    · exact .ends holds ⟨rfl, rfl⟩
  · split_ifs with less
    · exact clientUploadFrom_dies holds _ _ _ _
    · exact ⟨holds, rfl⟩

/-- The client's side of a resumed upload when the server has `stored` already. -/
theorem clientUploadResume_resumed (holds : always state) {localPath : CString} {whole : Bytes}
    (file : state.At localPath.bytes (some whole)) (size : whole.length < 2 ^ 32)
    (remoteName : Option CString) {stored : Bytes} (some_bytes : stored ≠ [])
    (shorter : stored.length ≤ whole.length) (response : ResponseHeader) :
    Follows always (Ends (Returns .success state)) (fun _ after => after = state)
      (clientUploadResume localPath remoteName) state
      ((requestHeader .download 0 0 (remoteName.getD (basename localPath))).encode.map .sent ++
        ((fileResponse (remoteName.getD (basename localPath)) stored.length 0).encode.map .got ++
          (stored.map .got ++
            if stored.length < whole.length then
              (requestHeader .upload (UInt32.ofNat (whole.length - stored.length))
                  (UInt64.ofNat stored.length)
                    (remoteName.getD (basename localPath))).encode.map .sent ++
                ((whole.drop stored.length).map .sent ++ response.encode.map .got)
            else []))) := by
  have announced : (UInt32.ofNat stored.length).toNat = stored.length :=
    UInt32.toNat_ofNat_of_lt' (shorter.trans_lt size)
  have total : (UInt32.ofNat whole.length).toNat = whole.length := UInt32.toNat_ofNat_of_lt' size
  have offset : (UInt32.ofNat stored.length).toUInt64 = UInt64.ofNat stored.length := by
    apply UInt64.toNat_inj.mp
    rw [UInt32.toNat_toUInt64, announced, UInt64.toNat_ofNat_of_lt']
    exact (shorter.trans_lt size).trans (by decide)
  have present : (fileResponse (remoteName.getD (basename localPath)) stored.length 0).status =
        StatusCode.ok.code ∧
      (fileResponse (remoteName.getD (basename localPath)) stored.length 0).dataLen > 0 := by
    refine ⟨rfl, UInt32.lt_iff_toNat_lt.mpr ?_⟩
    exact announced.symm ▸ List.length_pos_iff.mpr some_bytes
  have smaller : (UInt32.ofNat stored.length < UInt32.ofNat whole.length) =
      (stored.length < whole.length) := by
    rw [UInt32.lt_iff_toNat_lt, announced, total]
  have probed := clientUploadResume_probed holds file (size.trans (by decide)) remoteName _ present
    announced response
  simpa only [fileResponse, offset, smaller] using probed

end Uploads

section Downloads
variable {always : FileSystem → Prop} {state : FileSystem} {path whole : Bytes}

theorem clientReceiveContent_follows (holds : always state)
    (keeps : ∀ stored state, stored <+: whole → state.At path (some stored) → always state)
    {old : Option Bytes} (file : state.At path old) (truncate : Bool) {data : Bytes}
    (total : (if truncate then [] else old.getD []) ++ data = whole) {dataLen : UInt32}
    (size : dataLen.toNat = data.length) {position : Nat}
    (atEnd : position = (if truncate then [] else old.getD []).length) :
    Follows always (Ends fun result after => result = .success ∧ after.At path (some whole))
      (fun _ after => always after) (clientReceiveContent path truncate position dataLen) state
      (data.map .got) := by
  obtain ⟨opened, start⟩ := file.openWrite truncate
  subst position
  refine .perform holds ?_
  rw [opened, if_pos rfl, size, ← List.append_nil (data.map Mark.got)]
  refine (receiveContent_appends keeps data total start).andThen ?_ ?_
  · intro result after received
    obtain ⟨rfl, complete⟩ := received
    exact .ends (keeps whole after (List.prefix_refl whole) complete) ⟨rfl, complete⟩
  · intro result after stopped
    obtain ⟨rfl, partway, inside, file⟩ := stopped
    have kept := keeps partway after inside file
    exact ⟨kept, kept⟩

theorem clientDownloadFile_follows (holds : always state) (remoteName : CString)
    {localPath : Option CString} {content : Bytes} {old : Option Bytes}
    (file : state.At (localPath.getD remoteName).bytes old)
    (keeps : ∀ stored state, stored <+: content →
      state.At (localPath.getD remoteName).bytes (some stored) → always state)
    (size : content.length < 2 ^ 32) :
    Follows always
      (Ends fun result after => result = .success ∧
        after.At (localPath.getD remoteName).bytes (some content))
      (fun _ after => always after) (clientDownloadFile remoteName localPath) state
      ((requestHeader .download 0 0 remoteName).encode.map .sent ++
        ((fileResponse remoteName content.length 0).encode.map .got ++ content.map .got)) := by
  refine returned_andThen (sendOnce_follows holds (request_ne_nil _)) ?_ ⟨holds, holds⟩
  refine returned_andThen (recvResponse_follows holds _) ?_ ⟨holds, holds⟩
  simp only [ResponseHeader.decode_encode]
  exact clientReceiveContent_follows holds keeps file true (List.nil_append content)
    (UInt32.toNat_ofNat_of_lt' size) rfl

/-- The client's side of a resumed download: the local file, if there is one, holds
the beginning of the content. -/
theorem clientDownloadResume_follows (holds : always state) (remoteName : CString)
    {localPath : Option CString} {content : Bytes} {old : Option Bytes}
    (file : state.At (localPath.getD remoteName).bytes old) (inside : old.getD [] <+: content)
    (keeps : ∀ stored state, stored <+: content →
      state.At (localPath.getD remoteName).bytes (some stored) → always state)
    (size : content.length < 2 ^ 32) :
    Follows always
      (Ends fun result after => result = .success ∧
        after.At (localPath.getD remoteName).bytes (some content))
      (fun _ after => always after) (clientDownloadResume remoteName localPath) state
      ((requestHeader .download 0 (UInt64.ofNat (old.getD []).length) remoteName).encode.map .sent ++
        ((fileResponse remoteName (content.length - (old.getD []).length)
            (UInt64.ofNat (old.getD []).length)).encode.map .got ++
          (content.drop (old.getD []).length).map .got)) := by
  obtain ⟨rest, total⟩ := inside
  have shorter : (old.getD []).length ≤ content.length := by
    rw [← total]
    simp
  have dropped : content.drop (old.getD []).length = rest := by
    rw [← total, List.drop_left]
  have localSize : (UInt64.ofNat (old.getD []).length).toNat = (old.getD []).length :=
    UInt64.toNat_ofNat_of_lt' ((shorter.trans_lt size).trans (by decide))
  have announced : (UInt32.ofNat (content.length - (old.getD []).length)).toNat = rest.length := by
    rw [UInt32.toNat_ofNat_of_lt' ((Nat.sub_le _ _).trans_lt size), ← total]
    simp
  have stat : (state.stat (localPath.getD remoteName).bytes).getD 0 = (old.getD []).length := by
    rw [file.stat]
    cases old <;> rfl
  refine .perform holds ?_
  simp only [stat, dropped]
  refine returned_andThen (sendOnce_follows holds (request_ne_nil _)) ?_ ⟨holds, holds⟩
  refine returned_andThen (recvResponse_follows holds _) ?_ ⟨holds, holds⟩
  simp only [ResponseHeader.decode_encode]
  by_cases positive : UInt64.ofNat (old.getD []).length > 0
  · have status : (fileResponse remoteName (content.length - (old.getD []).length)
        (UInt64.ofNat (old.getD []).length)).status = StatusCode.partially.code := if_pos positive
    rw [if_pos (.inr status), if_pos ⟨status, positive⟩]
    apply clientReceiveContent_follows holds keeps file false total announced
    exact (if_pos (localSize.trans_lt ((shorter.trans_lt size).trans (by decide)))).trans localSize
  · have status : (fileResponse remoteName (content.length - (old.getD []).length)
        (UInt64.ofNat (old.getD []).length)).status = StatusCode.ok.code := if_neg positive
    have empty : old.getD [] = [] := by
      rw [gt_iff_lt, UInt64.lt_iff_toNat_lt, localSize] at positive
      exact List.length_eq_zero_iff.mp (Nat.eq_zero_of_not_pos positive)
    rw [empty, List.nil_append] at total
    rw [if_pos (.inl status), if_neg (fun both => positive both.2)]
    exact clientReceiveContent_follows holds keeps file true total announced rfl

end Downloads

end LinuxCLearning.FileServer
