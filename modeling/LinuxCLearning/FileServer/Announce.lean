import LinuxCLearning.FileServer.ClientTransfers
import LinuxCLearning.FileServer.RoundTrip

/-! The length that a transfer header announces and the number of bytes that follow
it. The senders narrow a size to 32 bits and then send to the end of the file. -/

namespace LinuxCLearning.FileServer
open Proc Relation

/-- Whatever the sizes of the pieces, a sender that is done has put out `before`, a
header and as many bytes as the header announces. -/
def Announces {Header : Type} (encode : Header → Bytes) (dataLen : Header → UInt32) (before : Bytes)
    (program : Handler ErrorCode) (state : FileSystem) (inbox : Bytes) : Prop :=
  ∀ final value, ReflTransGen End.Serves (⟨program, state, inbox⟩, []) final →
    final.1.program = .done value →
      ∃ header payload, final.2 = before ++ (encode header ++ payload) ∧
        (dataLen header).toNat = payload.length

section Senders
variable {state : FileSystem}

/-- A sender on its dialogue keeps what its header announces if the dialogue does. -/
theorem announces_iff {Header : Type} {encode : Header → Bytes} {decode : Bytes → Header}
    (dataLen : Header → UInt32) {size : Nat} (sized : ∀ header, (encode header).length = size)
    (decodes : ∀ header, decode (encode header) = header) {program : Handler ErrorCode}
    {dialogue : List (Mark UInt8)} {dead post : ErrorCode → FileSystem → Prop}
    (follows : Follows (fun _ => True) (Ends post) dead program state dialogue)
    {before payload : Bytes} {header : Header}
    (out : Mark.outgoing dialogue = before ++ (encode header ++ payload)) (rest : Bytes) :
    Announces encode dataLen before program state (Mark.incoming dialogue ++ rest) ↔
      (dataLen header).toNat = payload.length := by
  constructor
  · intro announces
    obtain ⟨value, final, ran⟩ := End.serves_to_end follows rest []
    obtain ⟨other, bytes, sent, same⟩ := announces _ value ran rfl
    rw [List.nil_append, out, List.append_cancel_left_eq] at sent
    obtain ⟨sameHeader, rfl⟩ := List.append_inj sent ((sized header).trans (sized other).symm)
    rwa [← decodes header, sameHeader, decodes]
  · intro same final value ran finished
    obtain ⟨_, _, sent⟩ := End.serves_exactly follows rfl ran finished
    rw [List.nil_append, out] at sent
    exact ⟨header, payload, sent, same⟩

/-- A number survives 32 bits exactly when it fits them. -/
theorem narrowed_iff (number : Nat) : (UInt32.ofNat number).toNat = number ↔ number < 2 ^ 32 := by
  rw [UInt32.toNat_ofNat']
  exact Nat.mod_eq_iff_lt (by decide)

theorem serverSendFile_announces {context : ServerContext} {name : CString}
    (accepted : refusedName name = false) {content : Bytes}
    (file : state.At (context.filepath name) (some content)) (size : content.length < 2 ^ 63)
    {offset : UInt64} (within : offset.toNat ≤ content.length) (inbox : Bytes) :
    Announces ResponseHeader.encode ResponseHeader.dataLen [] (serverSendFile context name offset)
      state inbox ↔ content.length - offset.toNat < 2 ^ 32 := by
  have follows : Follows (fun _ => True) _ _ _ state _ :=
    serverSendFile_follows trivial accepted file within size
  have out : Mark.outgoing
        ((fileResponse name (content.length - offset.toNat) offset).encode.map .sent ++
        (content.drop offset.toNat).map .sent) =
      [] ++ ((fileResponse name (content.length - offset.toNat) offset).encode ++
        content.drop offset.toNat) := by
    rw [Mark.outgoing_append, Mark.outgoing_sent, Mark.outgoing_sent, List.nil_append]
  have announces := announces_iff ResponseHeader.dataLen ResponseHeader.encode_length
    ResponseHeader.decode_encode follows out inbox
  simpa only [Mark.incoming_append, Mark.incoming_sent, List.nil_append,
    fileResponse, List.length_drop,
    narrowed_iff] using announces

theorem clientUploadFile_announces {localPath : CString} {content : Bytes}
    (file : state.At localPath.bytes (some content)) (remoteName : Option CString)
    (response : ResponseHeader) (rest : Bytes) :
    Announces ProtocolHeader.encode ProtocolHeader.dataLen []
      (clientUploadFile localPath remoteName)
      state (response.encode ++ rest) ↔ content.length < 2 ^ 32 := by
  have follows : Follows (fun _ => True) _ _ _ state _ :=
    clientUploadFile_follows trivial file remoteName response
  have out : Mark.outgoing ((requestHeader .upload (UInt32.ofNat content.length) 0
          (remoteName.getD (basename localPath))).encode.map .sent ++
        (content.map .sent ++ response.encode.map .got)) =
      [] ++ ((requestHeader .upload (UInt32.ofNat content.length) 0
          (remoteName.getD (basename localPath))).encode ++ content) := by
    simp
  have announces := announces_iff ProtocolHeader.dataLen ProtocolHeader.encode_length
    ProtocolHeader.decode_encode follows out rest
  simpa only [Mark.incoming_append, Mark.incoming_sent, Mark.incoming_got, List.nil_append,
    requestHeader, narrowed_iff] using announces

/-- Where `client_upload_resume` goes on after the response to its probe, if it uploads
anything. -/
def resumeFrom (size : Nat) (probe : ResponseHeader) : Option UInt64 :=
  if probe.status = StatusCode.ok.code ∧ probe.dataLen > 0 then
    if probe.dataLen < UInt32.ofNat size then some probe.dataLen.toUInt64 else none
  else some 0

theorem clientUploadResume_announces {localPath : CString} {content : Bytes}
    (file : state.At localPath.bytes (some content)) (size : content.length < 2 ^ 63)
    (remoteName : Option CString) (probe : ResponseHeader) {offset : UInt64}
    (resumes : resumeFrom content.length probe = some offset) {skipped : Bytes}
    (length : skipped.length = offset.toNat) (response : ResponseHeader) (rest : Bytes) :
    Announces ProtocolHeader.encode ProtocolHeader.dataLen
        (requestHeader .download 0 0 (remoteName.getD (basename localPath))).encode
        (clientUploadResume localPath remoteName) state
        (probe.encode ++ skipped ++ response.encode ++ rest) ↔
      content.length - offset.toNat < 2 ^ 32 := by
  have follows : Follows (fun _ => True) (Ends (Returns .success state))
      (fun _ after => after = state)
      (clientUploadResume localPath remoteName) state
      ((requestHeader .download 0 0 (remoteName.getD (basename localPath))).encode.map .sent ++
        (probe.encode.map .got ++ (skipped.map .got ++
          ((requestHeader .upload (UInt32.ofNat (content.length - offset.toNat)) offset
              (remoteName.getD (basename localPath))).encode.map .sent ++
            ((content.drop offset.toNat).map .sent ++ response.encode.map .got))))) := by
    rw [resumeFrom] at resumes
    split_ifs at resumes with present smaller
    · cases resumes
      rw [UInt32.toNat_toUInt64] at length
      have probed : Follows (fun _ => True) _ _ _ state _ :=
        clientUploadResume_probed trivial file size remoteName probe present length.symm response
      rw [if_pos smaller] at probed
      rwa [UInt32.toNat_toUInt64, ← length]
    · cases resumes
      obtain rfl := List.length_eq_zero_iff.mp length
      exact clientUploadResume_fresh trivial file size remoteName probe present response
  have out : Mark.outgoing
      ((requestHeader .download 0 0 (remoteName.getD (basename localPath))).encode.map .sent ++
        (probe.encode.map .got ++ (skipped.map .got ++
          ((requestHeader .upload (UInt32.ofNat (content.length - offset.toNat)) offset
              (remoteName.getD (basename localPath))).encode.map .sent ++
            ((content.drop offset.toNat).map .sent ++ response.encode.map .got))))) =
      (requestHeader .download 0 0 (remoteName.getD (basename localPath))).encode ++
        ((requestHeader .upload (UInt32.ofNat (content.length - offset.toNat)) offset
            (remoteName.getD (basename localPath))).encode ++ content.drop offset.toNat) := by
    simp only [Mark.outgoing_append, Mark.outgoing_sent, Mark.outgoing_got, List.nil_append,
      List.append_nil]
  have announces := announces_iff ProtocolHeader.dataLen ProtocolHeader.encode_length
    ProtocolHeader.decode_encode follows out rest
  simpa only [Mark.incoming_append, Mark.incoming_sent, Mark.incoming_got, List.nil_append,
    requestHeader, narrowed_iff, List.length_drop, List.append_assoc] using announces

end Senders

/-- Each of the three senders announces what it sends exactly when that is less than
4 GiB. The size of the file is one of `off_t`. -/
theorem announced_lengths (state : FileSystem) (content : Bytes) (size : content.length < 2 ^ 63) :
    (∀ (context : ServerContext) (name : CString) (offset : UInt64) (inbox : Bytes),
      refusedName name = false → state.At (context.filepath name) (some content) →
      offset.toNat ≤ content.length →
      (Announces ResponseHeader.encode ResponseHeader.dataLen []
        (serverSendFile context name offset)
        state inbox ↔ content.length - offset.toNat < 2 ^ 32)) ∧
    (∀ (localPath : CString) (remoteName : Option CString)
      (response : ResponseHeader) (rest : Bytes),
      state.At localPath.bytes (some content) →
      (Announces ProtocolHeader.encode ProtocolHeader.dataLen []
        (clientUploadFile localPath remoteName)
        state (response.encode ++ rest) ↔ content.length < 2 ^ 32)) ∧
    (∀ (localPath : CString) (remoteName : Option CString) (probe response : ResponseHeader)
        (offset : UInt64) (skipped rest : Bytes), state.At localPath.bytes (some content) →
      resumeFrom content.length probe = some offset → skipped.length = offset.toNat →
      (Announces ProtocolHeader.encode ProtocolHeader.dataLen
          (requestHeader .download 0 0 (remoteName.getD (basename localPath))).encode
          (clientUploadResume localPath remoteName) state
          (probe.encode ++ skipped ++ response.encode ++ rest) ↔
        content.length - offset.toNat < 2 ^ 32)) := by
  refine ⟨?_, ?_, ?_⟩
  · intro context name offset inbox accepted file within
    exact serverSendFile_announces accepted file size within inbox
  · intro localPath remoteName response rest file
    exact clientUploadFile_announces file remoteName response rest
  · intro localPath remoteName probe response offset skipped rest file resumes length
    exact clientUploadResume_announces file size remoteName probe resumes length response rest

/-- A file of three bytes. -/
theorem announced_lengths_small :
    Announces ResponseHeader.encode ResponseHeader.dataLen []
        (serverSendFile smallContext smallName 1)
        (singleFile (smallContext.filepath smallName) [7, 8, 9]) [] ∧
      Announces ProtocolHeader.encode ProtocolHeader.dataLen [] (clientUploadFile smallName none)
        (singleFile smallName.bytes [7, 8, 9]) ((responseMessage .ok []).encode ++ []) ∧
      Announces ProtocolHeader.encode ProtocolHeader.dataLen
        (requestHeader .download 0 0 (basename smallName)).encode
          (clientUploadResume smallName none)
        (singleFile smallName.bytes [7, 8, 9])
        ((fileResponse smallName 1 0).encode ++ [7] ++ (responseMessage .ok []).encode ++ []) := by
  obtain ⟨server, -, -⟩ := announced_lengths
    (singleFile (smallContext.filepath smallName) [7, 8, 9])
    [7, 8, 9] (by decide)
  obtain ⟨-, upload, resume⟩ := announced_lengths (singleFile smallName.bytes [7, 8, 9]) [7, 8, 9]
    (by decide)
  refine ⟨?_, ?_, ?_⟩
  · exact (server smallContext smallName 1 [] (by decide) (singleFile_at _ _) (by decide)).mpr
      (by decide)
  · exact (upload smallName none _ [] (singleFile_at _ _)).mpr (by decide)
  · exact (resume smallName none _ _ 1 [7] [] (singleFile_at _ _) (by decide) rfl).mpr (by decide)

/-- A file of 4 GiB is announced as empty. -/
theorem large_file_not_announced :
    ¬ Announces ResponseHeader.encode ResponseHeader.dataLen []
      (serverSendFile smallContext smallName 0)
      (singleFile (smallContext.filepath smallName) (List.replicate (2 ^ 32) 0)) [] := by
  rw [serverSendFile_announces (by decide) (singleFile_at _ _)
    (by rw [List.length_replicate]; decide)
    (Nat.zero_le _), List.length_replicate]
  decide

end LinuxCLearning.FileServer
