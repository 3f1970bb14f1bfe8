import LinuxCLearning.FileServer.ClientResponses

/-! What `SUCCESS` of a transfer of the client says about the transfer, whatever the peer
sends and however the local file calls turn out. -/

namespace LinuxCLearning.FileServer
open Proc Relation

section Calls

/-- `open` and `fstat` of the file to send, with any size, and with any bytes for `read`. -/
abbrev OpenFile := FileSystem → Option (Nat × Bytes) × FileSystem

/-- `client_upload_file` on a file that is opened and read in any way. -/
def uploadFileOf (openFile : OpenFile) (name : CString) : Handler ErrorCode := do
  let opened ← Proc.perform openFile
  match opened with
  | none => return .errFileOpen
  | some (size, content) =>
    let sent ← sendOnce (requestHeader .upload (UInt32.ofNat size) 0 name).encode
    if sent.isSome then clientSendContent content else return .errSend

/-- `client_upload_resume` on such a file. -/
def uploadResumeOf (openFile : OpenFile) (name : CString) : Handler ErrorCode := do
  let opened ← Proc.perform openFile
  match opened with
  | none => return .errFileOpen
  | some (size, content) =>
    let sent ← sendOnce (requestHeader .download 0 0 name).encode
    if sent.isSome then
      let response ← recvAll ResponseHeader.size []
      match response with
      | none => return .errRecv
      | some bytes =>
        let response := ResponseHeader.decode bytes
        if response.status = StatusCode.ok.code ∧ response.dataLen > 0 then
          skipContent response.dataLen.toNat
          if response.dataLen < UInt32.ofNat size then
            clientUploadFrom name size content response.dataLen.toUInt64
          else return .success
        else clientUploadFrom name size content 0
    else return .errSend

/-- `client_download_resume` when `stat` works or fails. -/
def downloadResumeOf (statFails : Bool) (remoteName : CString) (path : Bytes) :
    Handler ErrorCode := do
  let localSize ← Proc.perform fun system =>
    (UInt64.ofNat (if statFails then 0 else (system.stat path).getD 0), system)
  let sent ← sendOnce (requestHeader .download 0 localSize remoteName).encode
  if sent.isSome then
    let response ← recvAll ResponseHeader.size []
    match response with
    | none => return .errRecv
    | some bytes =>
      let response := ResponseHeader.decode bytes
      if response.status = StatusCode.ok.code ∨ response.status = StatusCode.partially.code then
        if response.status = StatusCode.partially.code ∧ localSize > 0 then
          clientReceiveContent path false (seekPosition localSize) response.dataLen
        else clientReceiveContent path true 0 response.dataLen
      else return .errProtocol
  else return .errSend

theorem clientUploadFile_eq (localPath : CString) (remoteName : Option CString) :
    clientUploadFile localPath remoteName =
      uploadFileOf (FileSystem.openRead localPath.bytes) (remoteName.getD (basename localPath)) :=
  rfl

theorem clientUploadResume_eq (localPath : CString) (remoteName : Option CString) :
    clientUploadResume localPath remoteName =
      uploadResumeOf (FileSystem.openRead localPath.bytes) (remoteName.getD (basename localPath)) :=
  rfl

theorem clientDownloadResume_eq (remoteName : CString) (localPath : Option CString) :
    clientDownloadResume remoteName localPath =
      downloadResumeOf false remoteName (localPath.getD remoteName).bytes := rfl

end Calls

/-- A transfer of the client. -/
inductive ClientTransfer where
  | uploadFile (openFile : OpenFile) (name : CString)
  | uploadResume (openFile : OpenFile) (name : CString)
  | downloadFile (remoteName : CString) (localPath : Option CString)
  | downloadResume (statFails : Bool) (remoteName : CString) (path : Bytes)

/-- The response at the beginning of what comes in. -/
def responseAt (inbox : Bytes) : ResponseHeader := .decode (inbox.take ResponseHeader.size)

/-- Everything that the response announces came in and is in the file behind `base`. -/
def Stored (path base : Bytes) (inbox : Bytes) (final : FileSystem) (left : Bytes) : Prop :=
  ∃ payload, payload.length = (responseAt inbox).dataLen.toNat ∧
    inbox.drop ResponseHeader.size = payload ++ left ∧ final.files path = some (base ++ payload)

/-- A response came in and it is `STATUS_OK`. -/
def Answered (inbox left : Bytes) : Prop :=
  ResponseHeader.size ≤ inbox.length ∧ left = inbox.drop ResponseHeader.size ∧
    (responseAt inbox).status = StatusCode.ok.code

/-- What comes in behind the response to the probe and the file that it brings. -/
def behindProbe (inbox : Bytes) : Bytes :=
  let rest := inbox.drop ResponseHeader.size
  if (responseAt inbox).status = StatusCode.ok.code then
    rest.drop (responseAt inbox).dataLen.toNat else rest

/-- The server has a file that is at least as large. -/
def Held (inbox : Bytes) (size : Nat) : Prop :=
  (responseAt inbox).status = StatusCode.ok.code ∧ size ≤ (responseAt inbox).dataLen.toNat

/-- What a resumed download keeps of the local file. -/
def keptContent (statFails : Bool) (path : Bytes) (state : FileSystem) (inbox : Bytes) : Bytes :=
  if (responseAt inbox).status = StatusCode.partially.code ∧ statFails = false then
    (state.files path).getD []
  else []

namespace ClientTransfer

def program : ClientTransfer → Handler ErrorCode
  | uploadFile openFile name => uploadFileOf openFile name
  | uploadResume openFile name => uploadResumeOf openFile name
  | downloadFile remoteName localPath => clientDownloadFile remoteName localPath
  | downloadResume statFails remoteName path => downloadResumeOf statFails remoteName path

/-- The transfer has been done. -/
def Done (state : FileSystem) (inbox : Bytes) (final : FileSystem) (left : Bytes) :
    ClientTransfer → Prop
  | uploadFile _ _ => Answered inbox left
  | uploadResume openFile _ =>
    Answered (behindProbe inbox) left ∨ ∀ size content, (openFile state).1 = some (size, content) →
      Held inbox size
  | downloadFile remoteName localPath =>
    Stored (localPath.getD remoteName).bytes [] inbox final left
  | downloadResume statFails _ path =>
    Stored path (keptContent statFails path state inbox) inbox final left

/-- Wherever the call returns `SUCCESS` when only these bytes come in, the transfer has been done.
-/
def Honest (transfer : ClientTransfer) (state : FileSystem) (inbox : Bytes) : Prop :=
  ∀ final left, ReflTransGen End.Outlives ⟨transfer.program, state, inbox⟩
    ⟨.done .success, final, left⟩ →
    transfer.Done state inbox final left

end ClientTransfer

section Rules
variable {σ : Type} {state : σ} {inbox : Bytes}

theorem sendOnce_yields {post : Option Nat → σ → Bytes → Prop} {bytes : Bytes}
    (something : bytes ≠ []) :
    (sendOnce bytes).Yields post state inbox ↔ post none state inbox ∧
      post (some bytes.length) state inbox := by
  constructor
  · intro yields
    exact ⟨yields.1, yields.2 _ (List.length_pos_iff.mpr something) (Nat.le_refl _) fun _ => rfl⟩
  · rintro ⟨failed, sent⟩
    refine ⟨failed, ?_⟩
    intro count _ _ whole
    rw [whole rfl]
    exact sent

/-- A `send_all` that may fail without harm yields what holds when it does not. -/
theorem sendAll_yields {post : Bool → σ → Bytes → Prop}
    (failed : post false state inbox) (buffer : Bytes) :
    (sendAll buffer).Yields post state inbox ↔ post true state inbox := by
  induction size : buffer.length using Nat.strong_induction_on generalizing buffer with
  | _ length ih =>
    subst size
    rw [sendAll]
    split
    · exact Iff.rfl
    · rename_i something
      apply yields_send something
      · exact failed
      · intro count positive within
        simp only [if_neg positive.ne']
        refine ih _ ?_ (buffer.drop count) rfl
        rw [List.length_drop]
        exact Nat.sub_lt (List.length_pos_iff.mpr something) positive

theorem sendFileContent_yields {post : Bool → σ → Bytes → Prop} (failed : post false state inbox)
    (content : Bytes) : (sendFileContent content).Yields post state inbox ↔
      post true state inbox := by
  induction size : content.length using Nat.strong_induction_on generalizing content with
  | _ length ih =>
    subst size
    rw [sendFileContent]
    split
    · exact Iff.rfl
    · rename_i something
      rw [yields_bind]
      refine (sendAll_yields ?_ _).trans ?_
      · exact failed
      · refine ih _ ?_ (content.drop defaultBufferSize) rfl
        rw [List.length_drop]
        exact Nat.sub_lt (List.length_pos_iff.mpr something) (by decide)

/-- `recv_all` fails exactly when too little comes in. -/
theorem recvAll_yields {post : Option Bytes → σ → Bytes → Prop} (missing : Nat) (received : Bytes) :
    (recvAll missing received).Yields post state inbox ↔
      if missing ≤ inbox.length then
        post (some (received ++ inbox.take missing)) state (inbox.drop missing)
      else post none state [] := by
  induction missing using Nat.strong_induction_on generalizing received inbox with
  | _ missing ih =>
    rw [recvAll]
    split
    · rename_i none_missing
      subst none_missing
      simp [Yields]
    · rename_i some_missing
      have positive := Nat.pos_of_ne_zero some_missing
      apply yields_recv positive
      · rintro rfl
        have short : ¬ missing ≤ ([] : Bytes).length := not_le.mpr positive
        rw [if_neg short]
        exact Iff.rfl
      · intro count some_bytes within available
        obtain ⟨nonempty, taken⟩ := take_piece some_bytes available
        have enough : missing - count ≤ (inbox.drop count).length ↔ missing ≤ inbox.length := by
          rw [List.length_drop]
          omega
        have both : inbox.take count ++ (inbox.drop count).take (missing - count) =
            inbox.take missing := by
          rw [← List.take_add, Nat.add_sub_cancel' within]
        simp only [if_neg nonempty, taken, ih (missing - count) (Nat.sub_lt positive some_bytes),
          enough, List.append_assoc, both, List.drop_drop, Nat.add_sub_cancel' within]

/-- The bytes that are dropped are gone even when fewer come in. -/
theorem skipContent_yields {post : Unit → FileSystem → Bytes → Prop}
    {state : FileSystem} {inbox : Bytes}
    (remaining : Nat) : (skipContent remaining).Yields post state inbox ↔
      post () state (inbox.drop remaining) := by
  induction remaining using Nat.strong_induction_on generalizing inbox with
  | _ remaining ih =>
    rw [skipContent]
    split
    · rename_i nothing
      subst nothing
      exact Iff.rfl
    · rename_i more
      have positive := Nat.pos_of_ne_zero more
      apply yields_recv (lt_min positive (by decide))
      · rintro rfl
        rw [List.drop_nil]
        exact Iff.rfl
      · intro count some_bytes within available
        obtain ⟨nonempty, taken⟩ := take_piece some_bytes available
        have inside : count ≤ remaining := within.trans (min_le_left _ _)
        simp only [if_neg nonempty, taken, ih (remaining - count) (Nat.sub_lt positive some_bytes),
          List.drop_drop,
          Nat.add_sub_cancel' inside]

/-- A call that sends a request and waits for the response to it. -/
theorem request_yields {post : ErrorCode → FileSystem → Bytes → Prop}
    {state : FileSystem} {inbox : Bytes}
    (header : ProtocolHeader) (after : Option Bytes → Handler ErrorCode)
    (failed : Handler ErrorCode)
    (unsent : failed.Yields post state inbox) (silent : (after none).Yields post state []) :
    (sendOnce header.encode >>= fun sent =>
        if sent.isSome then recvAll ResponseHeader.size [] >>= after
        else failed).Yields post state inbox ↔
      (ResponseHeader.size ≤ inbox.length →
        (after (some (inbox.take ResponseHeader.size))).Yields post state
          (inbox.drop ResponseHeader.size)) := by
  rw [yields_bind, sendOnce_yields (request_ne_nil header), Option.isSome_some,
    if_pos rfl, yields_bind,
    recvAll_yields, List.nil_append]
  refine (and_iff_right unsent).trans ?_
  split
  · rename_i whole
    exact ⟨fun yields _ => yields, fun yields => yields whole⟩
  · rename_i short
    exact iff_of_true silent fun whole => absurd whole short

end Rules

section Content
variable {state : FileSystem} {path content : Bytes}

/-- What a `write` at the end of the file does to it. -/
theorem writeFile_content (stored : state.files path = some content) (data : Bytes) :
    (FileSystem.writeFile path content.length data state).2.files path =
      some (content ++ match state.writeOutcomes.headD .full with
        | .full => data
        | .fails count => data.take (min count (data.length - 1))) := by
  have appended (piece : Bytes) : writeAt content content.length piece = content ++ piece := by
    simp [writeAt]
  rw [FileSystem.writeFile]
  cases state.writeOutcomes.headD .full with
  | full => simp [FileSystem.setFile, stored, appended]
  | fails count => simp [FileSystem.setFile, stored, appended]

/-- No write fails before the last byte, even when every byte comes by itself. -/
def WritesAll (outcomes : List WriteOutcome) (count : Nat) : Prop :=
  ∀ outcome ∈ outcomes.take count, outcome = .full

instance (outcomes : List WriteOutcome) (count : Nat) : Decidable (WritesAll outcomes count) :=
  inferInstanceAs (Decidable (∀ outcome ∈ outcomes.take count, outcome = .full))

theorem writesAll_step (outcomes : List WriteOutcome) (count : Nat) :
    WritesAll outcomes (count + 1) ↔ outcomes.headD .full = .full ∧
      WritesAll outcomes.tail count := by
  cases outcomes with
  | nil => simp [WritesAll]
  | cons first later => simp [WritesAll, List.take_succ_cons]

theorem WritesAll.mono {outcomes : List WriteOutcome} {count less : Nat}
    (all : WritesAll outcomes count) (shorter : less ≤ count) : WritesAll outcomes less :=
  fun outcome member => all outcome (List.take_subset_take_left outcomes shorter member)

/-- One round of the loop over the payload, whatever comes in. -/
theorem receiveContent_turn {post : Received → FileSystem → Bytes → Prop}
    {inbox : Bytes} (position : Nat) {remaining : Nat} (more : remaining ≠ 0) :
    (receiveContent path position remaining).Yields post state inbox ↔
      (inbox = [] → post .recvFailed state []) ∧
        ∀ count, 0 < count → count ≤ min remaining defaultBufferSize → count ≤ inbox.length →
          let (written, next) := FileSystem.writeFile path position (inbox.take count) state
          if written then
            (receiveContent path (position + count) (remaining - count)).Yields post
              next (inbox.drop count)
          else post .writeFailed next (inbox.drop count) := by
  rw [receiveContent, if_neg more]
  refine and_congr Iff.rfl (forall_congr' fun count => forall₃_congr fun positive _ available => ?_)
  obtain ⟨nonempty, taken⟩ := take_piece positive available
  simp only [if_neg nonempty, taken, yields_perform]
  split <;> exact Iff.rfl

/-- The payload is in the file as a whole, and what follows it is left. -/
def Received.Whole (path content inbox : Bytes) (remaining : Nat) (_ : Received)
    (final : FileSystem) (left : Bytes) : Prop :=
  remaining ≤ inbox.length ∧ left = inbox.drop remaining ∧
    final.files path = some (content ++ inbox.take remaining)

/-- A `write` that fails leaves a byte of the piece out. -/
theorem write_fails_short {inbox : Bytes} {remaining count : Nat} (positive : 0 < remaining)
    (stored : state.files path = some content) (available : 0 < inbox.length)
    (outcome : state.writeOutcomes.headD .full = .fails count) {result : Received} {left : Bytes} :
    ¬ Received.Whole path content inbox remaining result
      (FileSystem.writeFile path content.length (inbox.take 1) state).2 left := by
  rintro ⟨enough, -, whole⟩
  rw [writeFile_content stored, outcome] at whole
  have lengths := congrArg List.length (List.append_cancel_left (Option.some.inj whole))
  rw [List.length_take, List.length_take_of_le enough,
    List.length_take_of_le available] at lengths
  omega

/-- The rest of the loop behind a `write` that has stored its piece. -/
theorem receiveContent_onwards {inbox : Bytes} {remaining count : Nat}
    (stored : state.files path = some content) (outcome : state.writeOutcomes.headD .full = .full)
    (within : count ≤ remaining) (available : count ≤ inbox.length)
    (loop : ∀ {state : FileSystem} {content inbox : Bytes}, state.files path = some content →
      ((receiveContent path content.length (remaining - count)).Yields
          (Received.Whole path content inbox (remaining - count)) state inbox ↔
        remaining - count ≤ inbox.length ∧ WritesAll state.writeOutcomes (remaining - count))) :
    (receiveContent path (content.length + count) (remaining - count)).Yields
        (Received.Whole path content inbox remaining)
        (FileSystem.writeFile path content.length (inbox.take count) state).2 (inbox.drop count) ↔
      remaining ≤ inbox.length ∧ WritesAll state.writeOutcomes.tail (remaining - count) := by
  have written := writeFile_content stored (inbox.take count)
  rw [outcome] at written
  have taken : (content ++ inbox.take count).length = content.length + count := by
    rw [List.length_append, List.length_take_of_le available]
  have rest := @loop _ _ (inbox.drop count) written
  have enough : remaining - count ≤ (inbox.drop count).length ↔ remaining ≤ inbox.length := by
    rw [List.length_drop]
    omega
  have both : inbox.take count ++ (inbox.drop count).take (remaining - count) =
      inbox.take remaining := by
    rw [← List.take_add, Nat.add_sub_cancel' within]
  have same : Received.Whole path (content ++ inbox.take count) (inbox.drop count)
      (remaining - count) = Received.Whole path content inbox remaining := by
    funext result final left
    rw [Received.Whole, Received.Whole, enough, List.drop_drop, Nat.add_sub_cancel' within,
      List.append_assoc, both]
  rwa [taken, FileSystem.writeFile_outcomes, enough, same] at rest

/-- The loop over the payload leaves all of it behind the file exactly when all of it comes in
and no `write` fails. -/
theorem receiveContent_yields {inbox : Bytes} (remaining : Nat)
    (stored : state.files path = some content) :
    (receiveContent path content.length remaining).Yields
        (Received.Whole path content inbox remaining) state inbox ↔
      remaining ≤ inbox.length ∧ WritesAll state.writeOutcomes remaining := by
  induction remaining using Nat.strong_induction_on generalizing inbox content state with
  | _ remaining ih =>
    cases remaining with
    | zero =>
      rw [receiveContent, if_pos rfl]
      simp [Yields, WritesAll, Received.Whole, stored]
    | succ earlier =>
      rw [receiveContent_turn content.length (Nat.succ_ne_zero earlier)]
      by_cases empty : inbox = []
      · subst empty
        refine iff_of_false (fun yields => ?_) (fun both => ?_)
        · exact Nat.not_succ_le_zero earlier (yields.1 rfl).1
        · exact Nat.not_succ_le_zero earlier both.1
      have one : 1 ≤ min (earlier + 1) defaultBufferSize :=
        le_min (Nat.le_add_left 1 earlier) (by decide)
      have available := List.length_pos_iff.mpr empty
      cases outcome : state.writeOutcomes.headD .full with
      | fails count =>
        simp only [FileSystem.writeFile_fails outcome, Bool.false_eq_true, if_false]
        refine iff_of_false (fun yields => ?_) (fun both => ?_)
        · exact write_fails_short earlier.succ_pos stored available outcome
            (yields.2 1 Nat.one_pos one available)
        · rw [writesAll_step, outcome] at both
          cases both.2.1
      | full =>
        have onwards (count : Nat) (positive : 0 < count) (within : count ≤ earlier + 1)
            (available : count ≤ inbox.length) :=
          receiveContent_onwards stored outcome within available (ih (earlier + 1 - count) (by omega))
        simp only [FileSystem.writeFile_full outcome, if_true]
        rw [writesAll_step, outcome, and_iff_right rfl]
        constructor
        · intro yields
          exact (onwards 1 Nat.one_pos (Nat.le_add_left 1 earlier) available).mp
            (yields.2 1 Nat.one_pos one available)
        · rintro ⟨enough, all⟩
          refine ⟨fun nothing => absurd nothing empty, ?_⟩
          intro count positive within available
          refine (onwards count positive (within.trans (min_le_left _ _)) available).mpr
            ⟨enough, all.mono ?_⟩
          omega

theorem openWrite_file {truncate : Bool}
    (opened : (FileSystem.openWrite path truncate state).1 = true) :
    state.directories path = none ∧ (FileSystem.openWrite path truncate state).2.files path =
      some (if truncate then [] else (state.files path).getD []) := by
  unfold FileSystem.openWrite at opened ⊢
  split at opened
  · rename_i allowed
    rw [if_pos allowed]
    exact ⟨allowed.2, by simp [FileSystem.setFile]⟩
  · cases opened

theorem openWrite_opened (truncate : Bool) :
    (FileSystem.openWrite path truncate state).1 = (FileSystem.openWrite path true state).1 := by
  unfold FileSystem.openWrite
  split <;> rfl

/-- The payload of a response comes in and the local file takes it. -/
def Arrives (path : Bytes) (state : FileSystem) (inbox : Bytes) : Prop :=
  (FileSystem.openWrite path true state).1 = true →
    (responseAt inbox).dataLen.toNat ≤ (inbox.drop ResponseHeader.size).length ∧
      WritesAll state.writeOutcomes (responseAt inbox).dataLen.toNat

theorem stored_iff {base inbox left : Bytes} {final : FileSystem} :
    Stored path base inbox final left ↔
      (responseAt inbox).dataLen.toNat ≤ (inbox.drop ResponseHeader.size).length ∧
        left = (inbox.drop ResponseHeader.size).drop (responseAt inbox).dataLen.toNat ∧
        final.files path =
          some (base ++
            (inbox.drop ResponseHeader.size).take (responseAt inbox).dataLen.toNat) := by
  constructor
  · rintro ⟨payload, announced, split, file⟩
    rw [split, ← announced, List.take_left, List.drop_left, List.length_append]
    exact ⟨Nat.le_add_right _ _, rfl, file⟩
  · rintro ⟨enough, rfl, file⟩
    exact ⟨_, List.length_take_of_le enough, (List.take_append_drop _ _).symm, file⟩

/-- The end of a download tells the truth exactly when nothing fails behind `open`. -/
theorem clientReceiveContent_yields {truncate : Bool} {position : Nat} {base inbox : Bytes}
    (kept : (FileSystem.openWrite path truncate state).1 = true →
      base = (if truncate then [] else (state.files path).getD []) ∧ position = base.length) :
    (clientReceiveContent path truncate position (responseAt inbox).dataLen).Yields
        (fun code final left => code = .success → Stored path base inbox final left) state
        (inbox.drop ResponseHeader.size) ↔ Arrives path state inbox := by
  rw [clientReceiveContent, yields_perform, Arrives, ← openWrite_opened truncate]
  split
  · rename_i opened
    obtain ⟨rfl, rfl⟩ := kept opened
    have loop := @receiveContent_yields _ _ _ (inbox.drop ResponseHeader.size)
      (responseAt inbox).dataLen.toNat (openWrite_file opened).2
    rw [FileSystem.openWrite_outcomes] at loop
    rw [yields_bind, forall_prop_of_true opened, ← loop]
    simp only [stored_iff]
    exact ⟨fun yields => yields.mono fun _ _ _ stored => stored rfl,
      fun yields => yields.mono fun _ _ _ stored _ => stored⟩
  · rename_i refused
    refine iff_of_true ?_ (fun opened => absurd opened refused)
    intro same
    cases same

end Content

section Uploads
variable {state : FileSystem} {inbox : Bytes}

/-- The end of an upload returns `SUCCESS` whatever the response says. -/
theorem clientSendContent_yields {post : ErrorCode → FileSystem → Bytes → Prop}
    (unsent : post .errSend state inbox) (silent : post .errRecv state []) (content : Bytes) :
    (clientSendContent content).Yields post state inbox ↔
      (ResponseHeader.size ≤ inbox.length →
        post .success state (inbox.drop ResponseHeader.size)) := by
  rw [clientSendContent, yields_bind]
  refine (sendFileContent_yields ?_ content).trans ?_
  · exact unsent
  · rw [if_pos rfl, yields_bind, recvAll_yields]
    split
    · rename_i whole
      exact ⟨fun yields _ => yields, fun yields => yields whole⟩
    · rename_i short
      exact iff_of_true silent fun whole => absurd whole short

theorem clientUploadFrom_yields {post : ErrorCode → FileSystem → Bytes → Prop}
    (unsent : post .errSend state inbox) (silent : post .errRecv state [])
    (name : CString) (size : Nat) (content : Bytes) (resumeOffset : UInt64) :
    (clientUploadFrom name size content resumeOffset).Yields post state inbox ↔
      (ResponseHeader.size ≤ inbox.length →
        post .success state (inbox.drop ResponseHeader.size)) := by
  simp only [clientUploadFrom]
  rw [yields_bind, sendOnce_yields (request_ne_nil _), Option.isSome_some, if_pos rfl]
  refine (and_iff_right ?_).trans (clientSendContent_yields unsent silent _)
  exact unsent

/-- The client does not skip the upload. -/
def GoesOn (inbox : Bytes) (size : Nat) : Prop :=
  (responseAt inbox).status = StatusCode.ok.code → 0 < (responseAt inbox).dataLen →
    (responseAt inbox).dataLen < UInt32.ofNat size

end Uploads

namespace ClientTransfer

/-- What makes a transfer that returns `SUCCESS` one that has been done. -/
def Completes (state : FileSystem) (inbox : Bytes) : ClientTransfer → Prop
  | uploadFile openFile _ =>
    (openFile state).1.isSome → ResponseHeader.size ≤ inbox.length →
      (responseAt inbox).status = StatusCode.ok.code
  | uploadResume openFile _ =>
    ∀ size content, (openFile state).1 = some (size, content) → ResponseHeader.size ≤ inbox.length →
      Held inbox size ∨ GoesOn inbox size ∧
        (ResponseHeader.size ≤ (behindProbe inbox).length →
          (responseAt (behindProbe inbox)).status = StatusCode.ok.code)
  | downloadFile remoteName localPath =>
    ResponseHeader.size ≤ inbox.length → (responseAt inbox).status = StatusCode.ok.code →
      Arrives (localPath.getD remoteName).bytes state inbox
  | downloadResume _ _ path =>
    ResponseHeader.size ≤ inbox.length →
      (responseAt inbox).status = StatusCode.ok.code ∨
        (responseAt inbox).status = StatusCode.partially.code →
        Arrives path state inbox

variable {state : FileSystem} {inbox : Bytes}

theorem honest_yields (transfer : ClientTransfer) :
    transfer.Honest state inbox ↔
      transfer.program.Yields (fun code final left => code = .success →
        transfer.Done state inbox final left)
        state inbox := by
  rw [End.yields_iff]
  constructor
  · intro honest value final left ran succeeded
    subst succeeded
    exact honest final left ran
  · intro ends final left ran
    exact ends .success final left ran rfl

theorem uploadFile_honest (openFile : OpenFile) (name : CString) :
    (uploadFile openFile name).Honest state inbox ↔
      (uploadFile openFile name).Completes state inbox := by
  rw [honest_yields, program, uploadFileOf, yields_perform, Completes]
  cases opened : (openFile state).1 with
  | none =>
    refine iff_of_true (fun same => ?_) (fun impossible => ?_)
    · cases same
    · cases impossible
  | some file =>
    obtain ⟨size, content⟩ := file
    simp only [Option.isSome_some, forall_const]
    rw [yields_bind, sendOnce_yields (request_ne_nil _), Option.isSome_some, if_pos rfl]
    refine (and_iff_right ?_).trans ((clientSendContent_yields ?_ ?_ content).trans ?_)
    · intro same
      cases same
    · intro same
      cases same
    · intro same
      cases same
    · refine forall_congr' fun whole => ?_
      exact ⟨fun done => (done rfl).2.2, fun accepted _ => ⟨whole, rfl, accepted⟩⟩

theorem downloadFile_honest (remoteName : CString) (localPath : Option CString) :
    (downloadFile remoteName localPath).Honest state inbox ↔
      (downloadFile remoteName localPath).Completes state inbox := by
  rw [honest_yields, program, clientDownloadFile, Completes]
  refine (request_yields (requestHeader .download 0 0 remoteName) _ _ ?_ ?_).trans ?_
  · intro same
    cases same
  · intro same
    cases same
  refine forall_congr' fun whole => ?_
  simp only
  split
  · rename_i accepted
    refine Iff.trans ?_ (forall_prop_of_true accepted).symm
    exact clientReceiveContent_yields fun _ => ⟨rfl, rfl⟩
  · rename_i refused
    refine iff_of_true (fun same => ?_) (fun accepted => absurd accepted refused)
    cases same

theorem localSize_length {statFails : Bool} {path : Bytes} {localSize : UInt64}
    (sizes : ∀ content, state.files path = some content → content.length < 2 ^ 63)
    (stated : UInt64.ofNat (if statFails then 0 else (state.stat path).getD 0) = localSize)
    (opened : (FileSystem.openWrite path true state).1 = true) :
    localSize.toNat < 2 ^ 63 ∧
      localSize.toNat = if statFails then 0 else ((state.files path).getD []).length := by
  subst stated
  have regular := (openWrite_file opened).1
  cases statFails with
  | true =>
    rw [if_pos rfl]
    exact ⟨by decide, rfl⟩
  | false =>
    simp only [Bool.false_eq_true, if_false, FileSystem.stat, regular]
    cases file : state.files path with
    | none => exact ⟨by decide, rfl⟩
    | some content =>
      have small := sizes content file
      have exactly : (UInt64.ofNat content.length).toNat = content.length :=
        UInt64.toNat_ofNat_of_lt' (small.trans (by decide))
      simp only [Option.getD_some, exactly]
      exact ⟨small, trivial⟩

theorem downloadResume_honest (statFails : Bool) (remoteName : CString) {path : Bytes}
    (sizes : ∀ content, state.files path = some content → content.length < 2 ^ 63) :
    (downloadResume statFails remoteName path).Honest state inbox ↔
      (downloadResume statFails remoteName path).Completes state inbox := by
  rw [honest_yields, program, downloadResumeOf, Completes, yields_perform]
  dsimp only
  generalize stated : UInt64.ofNat (if statFails then 0 else (state.stat path).getD 0) = localSize
  refine (request_yields (requestHeader .download 0 localSize remoteName) _ _ ?_ ?_).trans ?_
  · intro same
    cases same
  · intro same
    cases same
  refine forall_congr' fun whole => ?_
  simp only
  split
  · rename_i accepted
    refine Iff.trans ?_ (forall_prop_of_true accepted).symm
    split
    · rename_i resumed
      refine clientReceiveContent_yields fun opened => ?_
      obtain ⟨small, length⟩ :=
        localSize_length sizes stated ((openWrite_opened false).symm.trans opened)
      have some_bytes := UInt64.lt_iff_toNat_lt.mp resumed.2
      cases statFails with
      | true =>
        rw [length] at some_bytes
        cases some_bytes
      | false =>
        have kept : keptContent false path state inbox = (state.files path).getD [] :=
          if_pos ⟨resumed.1, rfl⟩
        refine ⟨kept, ?_⟩
        rw [kept, seekPosition, if_pos small, length]
        rfl
    · rename_i fresh
      refine clientReceiveContent_yields fun opened => ?_
      obtain ⟨-, length⟩ := localSize_length sizes stated opened
      have nothing : keptContent statFails path state inbox = [] := by
        rw [keptContent]
        split
        · rename_i both
          have none_asked : localSize.toNat = 0 := by
            apply Nat.eq_zero_of_not_pos
            intro positive
            exact fresh ⟨both.1, UInt64.lt_iff_toNat_lt.mpr positive⟩
          rw [none_asked, both.2] at length
          exact List.eq_nil_of_length_eq_zero length.symm
        · rfl
      exact ⟨nothing, congrArg List.length nothing.symm⟩
  · rename_i refused
    refine iff_of_true (fun same => ?_) (fun accepted => absurd accepted refused)
    cases same

/-- A run of a resumed upload that sends has been done when it is answered. -/
theorem sent_done {final : FileSystem} {openFile : OpenFile} {name : CString}
    {size : Nat} {content : Bytes}
    (opened : (openFile state).1 = some (size, content)) (goesOn : GoesOn inbox size) :
    (ResponseHeader.size ≤ (behindProbe inbox).length →
        Done state inbox final ((behindProbe inbox).drop ResponseHeader.size)
          (uploadResume openFile name)) ↔
      Held inbox size ∨ GoesOn inbox size ∧
        (ResponseHeader.size ≤ (behindProbe inbox).length →
          (responseAt (behindProbe inbox)).status = StatusCode.ok.code) := by
  rw [Done]
  constructor
  · intro done
    by_cases held : Held inbox size
    · exact Or.inl held
    · refine Or.inr ⟨goesOn, fun whole => ?_⟩
      rcases done whole with answered | has
      · exact answered.2.2
      · exact absurd (has size content opened) held
  · rintro (held | ⟨-, accepted⟩) whole
    · right
      intro other more same
      obtain ⟨rfl, rfl⟩ := Prod.mk.inj (Option.some.inj (opened.symm.trans same))
      exact held
    · exact Or.inl ⟨whole, rfl, accepted whole⟩

/-- One that skips the upload has been done when the server has the file. -/
theorem skipped_done {final : FileSystem} {openFile : OpenFile} {name : CString}
    {size : Nat} {content : Bytes}
    (opened : (openFile state).1 = some (size, content)) (skips : ¬ GoesOn inbox size) :
    Done state inbox final (behindProbe inbox) (uploadResume openFile name) ↔
      Held inbox size ∨ GoesOn inbox size ∧
        (ResponseHeader.size ≤ (behindProbe inbox).length →
          (responseAt (behindProbe inbox)).status = StatusCode.ok.code) := by
  have unanswered : ¬ Answered (behindProbe inbox) (behindProbe inbox) := by
    rintro ⟨whole, same, -⟩
    have lengths := congrArg List.length same
    have positive : 0 < ResponseHeader.size := by decide
    rw [List.length_drop] at lengths
    omega
  simp only [Done, unanswered, false_or, skips, false_and, or_false]
  constructor
  · intro has
    exact has size content opened
  · intro held other more same
    obtain ⟨rfl, rfl⟩ := Prod.mk.inj (Option.some.inj (opened.symm.trans same))
    exact held

theorem uploadResume_honest (openFile : OpenFile) (name : CString) :
    (uploadResume openFile name).Honest state inbox ↔
      (uploadResume openFile name).Completes state inbox := by
  rw [honest_yields, program, uploadResumeOf, Completes, yields_perform]
  cases opened : (openFile state).1 with
  | none =>
    refine iff_of_true (fun same => ?_) (fun _ _ impossible => ?_)
    · cases same
    · cases impossible
  | some file =>
    obtain ⟨size, content⟩ := file
    have only {goal : Nat → Prop} :
        (∀ other more, some (size, content) = some (other, more) → goal other) ↔ goal size := by
      constructor
      · exact fun all => all size content rfl
      · rintro holds _ _ ⟨rfl, rfl⟩
        exact holds
    have succeeds {done : Prop} : (ErrorCode.success = .success → done) ↔ done :=
      forall_prop_of_true rfl
    rw [only]
    refine (request_yields (requestHeader .download 0 0 name) _ _ ?_ ?_).trans ?_
    · intro same
      cases same
    · intro same
      cases same
    refine forall_congr' fun whole => ?_
    simp only
    split
    · rename_i found
      have behind : (inbox.drop ResponseHeader.size).drop (responseAt inbox).dataLen.toNat =
          behindProbe inbox :=
        (if_pos found.1).symm
      rw [yields_bind, skipContent_yields, ← responseAt, behind]
      split
      · rename_i smaller
        refine (clientUploadFrom_yields ?_ ?_ _ _ _ _).trans ?_
        · intro same
          cases same
        · intro same
          cases same
        · simp only [true_implies]
          exact sent_done opened fun _ _ => smaller
      · rename_i larger
        refine succeeds.trans (skipped_done opened ?_)
        intro goesOn
        exact larger (goesOn found.1 found.2)
    · rename_i absent
      have behind : inbox.drop ResponseHeader.size = behindProbe inbox := by
        rw [behindProbe]
        split
        · rename_i accepted
          have nothing : (responseAt inbox).dataLen = 0 := by
            by_contra some_bytes
            exact absent ⟨accepted, UInt32.pos_iff_ne_zero.mpr some_bytes⟩
          rw [nothing]
          rfl
        · rfl
      refine (clientUploadFrom_yields ?_ ?_ _ _ _ _).trans ?_
      · intro same
        cases same
      · intro same
        cases same
      · simp only [true_implies, behind]
        exact sent_done opened fun accepted positive => absurd ⟨accepted, positive⟩ absent

end ClientTransfer

/-- `SUCCESS` tells the truth, whatever the sizes of the pieces and whichever calls on the socket
fail, exactly when what comes in and the local file calls make it true. -/
theorem success_honest_iff (transfer : ClientTransfer) {state : FileSystem}
    (sizes : ∀ path content, state.files path = some content → content.length < 2 ^ 63)
    (inbox : Bytes) :
    transfer.Honest state inbox ↔ transfer.Completes state inbox := by
  cases transfer with
  | uploadFile openFile name => exact ClientTransfer.uploadFile_honest openFile name
  | uploadResume openFile name => exact ClientTransfer.uploadResume_honest openFile name
  | downloadFile remoteName localPath =>
    exact ClientTransfer.downloadFile_honest remoteName localPath
  | downloadResume statFails remoteName path =>
    exact ClientTransfer.downloadResume_honest statFails remoteName (sizes path)

section Cases

/-- A response without a message. -/
def bareResponse (status : StatusCode) (dataLen : UInt32) : ResponseHeader :=
  ⟨status.code, dataLen, .ofBytes 256 []⟩

def emptySystem : FileSystem := ⟨fun _ => none, fun _ => none, [], [], []⟩

theorem responseAt_encode (response : ResponseHeader) (rest : Bytes) :
    responseAt (response.encode ++ rest) = response ∧
      (response.encode ++ rest).drop ResponseHeader.size = rest := by
  have length := response.encode_length
  rw [responseAt, ← length, List.take_left, List.drop_left]
  exact ⟨response.decode_encode, rfl⟩

/-- A download of two bytes that both come. -/
theorem success_honest_two :
    (ClientTransfer.downloadFile smallName none).Honest emptySystem
      ((bareResponse .ok 2).encode ++ [1, 2]) := by
  refine (success_honest_iff _ (fun path content found => ?_) _).mpr ?_
  · cases found
  · intro _ _ _
    obtain ⟨response, rest⟩ := responseAt_encode (bareResponse .ok 2) [1, 2]
    rw [response, rest]
    exact ⟨le_refl 2, fun outcome member => absurd member (by simp [emptySystem])⟩

/-- `SUCCESS` of a download whose payload does not come, of one whose bytes cannot be written,
of a refused upload and of a file of 4 GiB that is skipped as no larger than one byte. -/
theorem success_dishonest :
    ¬ (ClientTransfer.downloadFile smallName none).Honest emptySystem (bareResponse .ok 1).encode ∧
      ¬ (ClientTransfer.downloadResume false smallName smallName.bytes).Honest
        { emptySystem with writeOutcomes := [.fails 0] } ((bareResponse .ok 1).encode ++ [1]) ∧
      ¬ (ClientTransfer.uploadFile (fun state => (some (1, [1]), state)) smallName).Honest
        emptySystem
        (bareResponse .error 0).encode ∧
      ¬ (ClientTransfer.uploadResume (fun state => (some (2 ^ 32, []), state)) smallName).Honest
        emptySystem
        ((bareResponse .ok 1).encode ++ [1]) := by
  refine ⟨?_, ?_, ?_, ?_⟩
  · intro honest
    obtain ⟨response, rest⟩ := responseAt_encode (bareResponse .ok 1) []
    rw [List.append_nil] at response rest
    have arrives := (ClientTransfer.downloadFile_honest smallName none).mp honest
      (le_of_eq (ResponseHeader.encode_length _).symm) (by rw [response]; rfl)
    have enough := (arrives rfl).1
    rw [response, rest] at enough
    exact absurd enough (by decide)
  · intro honest
    obtain ⟨response, rest⟩ := responseAt_encode (bareResponse .ok 1) [1]
    have sizes : ∀ content, ({ emptySystem with writeOutcomes := [.fails 0] } :
        FileSystem).files smallName.bytes =
        some content → content.length < 2 ^ 63 := by
      intro content found
      cases found
    have whole : ResponseHeader.size ≤ ((bareResponse .ok 1).encode ++ [1]).length := by
      rw [List.length_append, ResponseHeader.encode_length]
      exact Nat.le_add_right _ _
    have arrives := (ClientTransfer.downloadResume_honest false smallName sizes).mp honest whole
      (by rw [response]; exact Or.inl rfl)
    have all := (arrives rfl).2
    rw [response] at all
    exact absurd all (by decide)
  · intro honest
    obtain ⟨response, rest⟩ := responseAt_encode (bareResponse .error 0) []
    rw [List.append_nil] at response
    have accepted := (ClientTransfer.uploadFile_honest _ smallName).mp honest rfl
      (le_of_eq (ResponseHeader.encode_length _).symm)
    rw [response] at accepted
    exact absurd accepted (by decide)
  · intro honest
    obtain ⟨response, rest⟩ := responseAt_encode (bareResponse .ok 1) [1]
    have whole : ResponseHeader.size ≤ ((bareResponse .ok 1).encode ++ [1]).length := by
      rw [List.length_append, ResponseHeader.encode_length]
      exact Nat.le_add_right _ _
    rcases (ClientTransfer.uploadResume_honest _ smallName).mp honest
      (2 ^ 32) [] rfl whole with held | goesOn
    · have large := held.2
      rw [response] at large
      exact absurd large (by decide)
    · have smaller := goesOn.1
      rw [GoesOn, response] at smaller
      exact absurd (smaller rfl (by decide)) (by decide)

end Cases

end LinuxCLearning.FileServer
