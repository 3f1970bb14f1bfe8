import LinuxCLearning.FileServer.RoundTrip

/-! How much of its input the server takes for an upload. The header announces a
payload, and the handler should take exactly the header and the payload and
answer once, so that it next reads the next header. It does so when it gets to
receive and store the whole payload; the paths that give up early do not. -/

namespace LinuxCLearning.FileServer
open Proc Relation

/-- The server at the head of its loop, with all it is going to receive. -/
def atRequest (context : ServerContext) (state : FileSystem) (input : Bytes) :
    End UInt8 FileSystem Bool × Bytes :=
  (⟨serverRequest context, state, input⟩, [])

/-- Whenever the handler of this upload returns to the loop, whatever the sizes of the
pieces it received, it has taken exactly the header and the payload and has sent
exactly one response. -/
def Framed (context : ServerContext) (state : FileSystem) (header : ProtocolHeader)
    (payload rest : Bytes) : Prop :=
  ∀ final, ReflTransGen End.Serves (atRequest context state (header.encode ++ payload ++ rest))
    final →
    final.1.program = .done true →
      final.1.inbox = rest ∧ ∃ response : ResponseHeader, final.2 = response.encode

/-- The file name as the handlers read it. -/
def headerName (context : ServerContext) (header : ProtocolHeader) : CString :=
  CString.ofBuffer (header.filename.bytes ++ context.beyondHeader)

/-- The `open` of an upload succeeds. -/
def Opens (path : Bytes) (state : FileSystem) : Prop :=
  state.openOutcomes.headD true = true ∧ state.directories path = none

/-- Every `write` of a payload of this length succeeds, in however many pieces. -/
def Writes (length : Nat) (state : FileSystem) : Prop :=
  ∀ outcome ∈ state.writeOutcomes.take length, outcome = .full

section Framing
variable {context : ServerContext} {state : FileSystem} {header : ProtocolHeader}

theorem serverDispatch_of_upload (command : header.cmd = CmdType.upload.code) :
    serverDispatch context header =
      (do let _ ← serverRecvFile context (headerName context header) header.dataLen header.offset
          return true) := by
  simp only [serverDispatch, command]
  rfl

theorem framed_of_follows (magic : header.magic = protocolMagic)
    (command : header.cmd = CmdType.upload.code) {payload : Bytes} (response : ResponseHeader)
    (follows : Follows (fun _ => True) (Ends fun _ _ => True) (fun _ _ => True)
      (serverRecvFile context (headerName context header) header.dataLen header.offset) state
      (payload.map .got ++ response.encode.map .sent)) (rest : Bytes) :
    Framed context state header payload rest := by
  intro final ran finished
  have served : Follows (fun _ => True)
      (Ends fun continues after => continues = true ∧ (fun _ => True) after) (fun _ _ => True)
      (serverRequest context) state
      (header.encode.map .got ++ (payload.map .got ++ response.encode.map .sent)) := by
    apply serverRequest_follows trivial magic
    rw [serverDispatch_of_upload command]
    exact dropResult_follows follows (fun _ _ _ => ⟨trivial, trivial⟩) (fun _ _ _ => trivial)
  have inbox : (atRequest context state (header.encode ++ payload ++ rest)).1.inbox = Mark.incoming
      (header.encode.map .got ++ (payload.map .got ++ response.encode.map .sent)) ++ rest := by
    simp [atRequest]
  obtain ⟨_, taken, sent⟩ := End.serves_exactly served inbox ran finished
  exact ⟨taken, response, by simpa [atRequest] using sent⟩

theorem writes_succ {length : Nat} :
    Writes (length + 1) state ↔ state.writeOutcomes.headD .full = .full ∧
      ∀ outcome ∈ state.writeOutcomes.tail.take length, outcome = .full := by
  rw [Writes]
  cases state.writeOutcomes <;> simp

theorem Writes.step {path : Bytes} (position : Nat) (chunk rest : Bytes) (state : FileSystem)
    (nonempty : chunk ≠ []) (writes : Writes (chunk ++ rest).length state) :
    (FileSystem.writeFile path position chunk state).1 = true ∧
      Writes rest.length (FileSystem.writeFile path position chunk state).2 := by
  obtain ⟨byte, chunk, rfl⟩ := List.exists_cons_of_ne_nil nonempty
  obtain ⟨next, later⟩ := writes_succ.mp writes
  refine ⟨FileSystem.writeFile_full next position _, ?_⟩
  intro outcome member
  rw [FileSystem.writeFile_outcomes] at member
  have inside : rest.length ≤ (chunk ++ rest).length := by simp
  exact later outcome ((List.take_prefix_take_left inside).subset member)

theorem opens_openWrite {path : Bytes} (opens : Opens path state) (truncate : Bool) :
    (FileSystem.openWrite path truncate state).1 = true := by
  rw [FileSystem.openWrite, if_pos]
  exact opens

theorem not_opens_openWrite {path : Bytes} (fails : ¬Opens path state) (truncate : Bool) :
    (FileSystem.openWrite path truncate state).1 = false := by
  rw [FileSystem.openWrite, if_neg]
  exact fails

/-- Once the file is open, a payload that can be written is taken and answered. -/
theorem serverReceive_frames {path payload : Bytes} {fileSize : UInt32}
    (size : fileSize.toNat = payload.length) (writes : Writes payload.length state)
    (offset : UInt64) (position : Nat) :
    Follows (fun _ => True) (Ends fun _ _ => True) (fun _ _ => True)
      (serverReceive path fileSize offset position) state
      (payload.map .got ++
        (responseMessage .ok (text "File uploaded successfully")).encode.map .sent) := by
  have received : Follows (fun _ => True) _ _ (receiveContent path position payload.length) state
      _ :=
    receiveContent_follows (fun _ rest state => Writes rest.length state) Writes.step
      (fun _ _ _ _ => trivial) position payload writes
  rw [serverReceive, size]
  refine received.andThen ?_ (fun _ _ _ => ?_)
  · intro result after ended
    obtain ⟨rfl, _⟩ := ended
    have answered : Follows (fun _ => True) _ _ _ after _ :=
      respond_follows trivial .ok (text "File uploaded successfully") .success
    exact answered.weaken (fun _ _ _ => trivial) (fun _ _ _ => trivial)
  · exact Proc.dies_trivially _ _

/-- The text of a failed `open`. -/
def openFailure (offset : UInt64) : Bytes :=
  if offset > 0 then text "Failed to open file for resume" else text "Failed to create file"

/-- Fresh and resumed uploads differ in the flags of `open` and in the text. -/
theorem serverRecvFile_accepted {name : CString} (accepted : refusedName name = false)
    (fileSize : UInt32) (offset : UInt64) :
    serverRecvFile context name fileSize offset =
      (do let opened ← Proc.perform
            (FileSystem.openWrite (context.filepath name) (decide ¬offset > 0))
          if opened then serverReceive (context.filepath name) fileSize offset (seekPosition offset)
          else do
            let _ ← serverSendResponse .error (openFailure offset)
            return .errFileOpen) := by
  rw [serverRecvFile, accepted, if_neg (by decide), openFailure]
  by_cases resumed : offset > 0
  · rw [if_pos resumed, if_pos resumed, decide_eq_false (not_not.mpr resumed)]
  · obtain rfl : offset = 0 := by
      apply UInt64.toNat_inj.mp
      exact Nat.eq_zero_of_not_pos (fun positive => resumed (UInt64.lt_iff_toNat_lt.mpr positive))
    rfl

theorem serverRecvFile_refused {name : CString} (refused : refusedName name = true)
    (fileSize : UInt32) (offset : UInt64) :
    serverRecvFile context name fileSize offset =
      (do let _ ← serverSendResponse .denied (text "Invalid filename"); return .errFileOpen) := by
  rw [serverRecvFile, refused, if_pos rfl]

/-- A response and nothing else is the dialogue of an upload without payload. -/
theorem respond_frames (status : StatusCode) (message : Bytes) (code : ErrorCode) :
    Follows (fun _ => True) (Ends fun _ _ => True) (fun _ _ => True)
      (do let _ ← serverSendResponse status message; return code : Handler ErrorCode) state
      (([] : Bytes).map .got ++ (responseMessage status message).encode.map .sent) := by
  have answered : Follows (fun _ => True) _ _ _ state _ :=
    respond_follows trivial status message code
  exact answered.weaken (fun _ _ _ => trivial) (fun _ _ _ => trivial)

/-- Whether the handler gets to take the payload, if there is one. -/
def TakesPayload (context : ServerContext) (state : FileSystem) (header : ProtocolHeader) : Prop :=
  header.dataLen = 0 ∨ (refusedName (headerName context header) = false ∧
    Opens (context.filepath (headerName context header)) state ∧
    Writes header.dataLen.toNat state)

theorem framed_of_takesPayload (magic : header.magic = protocolMagic)
    (command : header.cmd = CmdType.upload.code) {payload : Bytes}
    (size : header.dataLen.toNat = payload.length) (rest : Bytes)
    (takes : TakesPayload context state header) : Framed context state header payload rest := by
  have writes : Writes header.dataLen.toNat state := by
    rcases takes with empty | ⟨_, _, writes⟩
    · intro outcome member
      simp [empty] at member
    · exact writes
  have nothing : header.dataLen = 0 → payload = [] := by
    intro empty
    exact List.length_eq_zero_iff.mp (size.symm.trans (by rw [empty]; rfl))
  cases refused : refusedName (headerName context header) with
  | true =>
    obtain rfl := nothing (takes.resolve_right (fun all => by simp [refused] at all))
    refine framed_of_follows magic command
      (responseMessage .denied (text "Invalid filename")) ?_ rest
    rw [serverRecvFile_refused refused]
    exact respond_frames .denied (text "Invalid filename") .errFileOpen
  | false =>
    by_cases opens : Opens (context.filepath (headerName context header)) state
    · refine framed_of_follows magic command
        (responseMessage .ok (text "File uploaded successfully")) ?_ rest
      rw [serverRecvFile_accepted refused]
      refine .perform trivial ?_
      rw [opens_openWrite opens, if_pos rfl]
      refine serverReceive_frames size ?_ _ _
      rw [← size]
      simpa only [Writes, FileSystem.openWrite_outcomes] using writes
    · obtain rfl := nothing (takes.resolve_right (fun all => opens all.2.1))
      refine framed_of_follows magic command (responseMessage .error (openFailure header.offset)) ?_
        rest
      rw [serverRecvFile_accepted refused]
      refine .perform trivial ?_
      rw [not_opens_openWrite opens, if_neg (by decide)]
      exact respond_frames .error (openFailure header.offset) .errFileOpen

end Framing

/-! The runs on which the handler gives up. -/

section Breaking
variable {context : ServerContext} {state : FileSystem}
  {header : ProtocolHeader} {rest sent : Bytes}
  {α : Type}

theorem recvAll_serves {data : Bytes} (something : data ≠ [])
    (after : Option Bytes → Handler α) :
    ReflTransGen End.Serves (⟨recvAll data.length [] >>= after, state, data ++ rest⟩, sent)
      (⟨after (some data), state, rest⟩, sent) := by
  have length : data.length ≠ 0 := (List.length_pos_iff.mpr something).ne'
  have finished : (recvAll (data.length - data.length) ([] ++ data) : Handler (Option Bytes)) =
      .done (some data) := by
    rw [Nat.sub_self, recvAll, if_pos rfl, List.nil_append]
  rw [recvAll, if_neg length, bind_recv]
  refine .head (End.serves_recv something (le_refl _) _) ?_
  simp only [if_neg something, finished]
  exact .refl

theorem serverSendResponse_serves (status : StatusCode) (message : Bytes)
    (after : ErrorCode → Handler α) {inbox : Bytes} :
    ReflTransGen End.Serves (⟨serverSendResponse status message >>= after, state, inbox⟩, sent)
      (⟨after .success, state, inbox⟩, sent ++ (responseMessage status message).encode) :=
  .single (End.serves_send (response_ne_nil _) true _)

theorem perform_serves {β : Type} (call : FileSystem → β × FileSystem) (after : β → Handler α)
    {inbox : Bytes} :
    ReflTransGen End.Serves (⟨Proc.perform call >>= after, state, inbox⟩, sent)
      (⟨after (call state).1, (call state).2, inbox⟩, sent) :=
  .single (End.serves_act _ _)

theorem serverRequest_serves (context : ServerContext) (state : FileSystem)
    (magic : header.magic = protocolMagic) (command : header.cmd = CmdType.upload.code)
    (input : Bytes) :
    ReflTransGen End.Serves (atRequest context state (header.encode ++ input))
      (⟨serverRecvFile context (headerName context header) header.dataLen header.offset >>=
        fun _ => .done true, state, input⟩, []) := by
  rw [atRequest, serverRequest, ← ProtocolHeader.encode_length header]
  apply (recvAll_serves (request_ne_nil header) _).trans
  simp only [ProtocolHeader.decode_encode, magic, if_true, serverDispatch_of_upload command]
  exact .refl

theorem receiveContent_serves_byte (path : Bytes) (position : Nat) (byte : UInt8)
    (payload rest sent : Bytes) (state : FileSystem) (after : Received → Handler α) :
    ReflTransGen End.Serves
      (⟨receiveContent path position (byte :: payload).length >>= after, state,
        byte :: payload ++ rest⟩, sent)
      (⟨(if (FileSystem.writeFile path position [byte] state).1 then
          receiveContent path (position + 1) payload.length else return .writeFailed) >>= after,
        (FileSystem.writeFile path position [byte] state).2, payload ++ rest⟩, sent) := by
  have room : [byte].length ≤ min (byte :: payload).length defaultBufferSize := by
    simp [defaultBufferSize]
  rw [receiveContent, if_neg (by simp), bind_recv]
  refine .head (End.serves_recv (List.cons_ne_nil byte []) room _ :
    End.Serves (⟨_, state, [byte] ++ (payload ++ rest)⟩, sent) _) ?_
  exact .single (End.serves_act _ _)

/-- One byte at a time, the loop gets to the first `write` that fails. -/
theorem receiveContent_serves (path : Bytes) {payload : Bytes} (rest sent : Bytes) (position : Nat)
    (fails : ¬Writes payload.length state) (after : Received → Handler α) :
    ∃ final left, ReflTransGen End.Serves
      (⟨receiveContent path position payload.length >>= after, state, payload ++ rest⟩, sent)
      (⟨after .writeFailed, final, left⟩, sent) := by
  induction payload generalizing state position with
  | nil =>
    refine absurd ?_ fails
    intro outcome member
    simp at member
  | cons byte payload ih =>
    have first := receiveContent_serves_byte path position byte payload rest sent state after
    cases outcome : state.writeOutcomes.headD .full with
    | fails stored =>
      rw [FileSystem.writeFile_fails outcome] at first
      exact ⟨_, _, first⟩
    | full =>
      rw [FileSystem.writeFile_full outcome, if_pos rfl] at first
      have later : ¬Writes payload.length (FileSystem.writeFile path position [byte] state).2 := by
        intro writes
        rw [Writes, FileSystem.writeFile_outcomes] at writes
        exact fails (writes_succ.mpr ⟨outcome, writes⟩)
      obtain ⟨final, left, ran⟩ := ih (position + 1) later
      exact ⟨final, left, first.trans ran⟩

/-- The handler returns with nothing sent when a `write` fails. -/
theorem serverReceive_serves {path payload : Bytes} {fileSize : UInt32}
    (size : fileSize.toNat = payload.length) (fails : ¬Writes payload.length state)
    (offset : UInt64) (position : Nat) :
    ∃ final left, ReflTransGen End.Serves
      (⟨serverReceive path fileSize offset position >>= fun _ => .done true, state,
        payload ++ rest⟩, sent)
      (⟨.done true, final, left⟩, sent) := by
  rw [serverReceive, size, bind_assoc']
  obtain ⟨partway, left, ran⟩ := receiveContent_serves path rest sent position fails
    (fun received => serverFinish path offset received >>= fun _ => .done true)
  by_cases fresh : offset = 0
  · have unlinked : ReflTransGen End.Serves
        (⟨serverFinish path offset .writeFailed >>= fun _ => .done true, partway, left⟩, sent)
        (⟨.done true, (FileSystem.unlink path partway).2, left⟩, sent) := by
      rw [serverFinish, unlinkFresh, if_pos fresh]
      exact .single (End.serves_act _ _)
    exact ⟨_, _, ran.trans unlinked⟩
  · rw [serverFinish, unlinkFresh, if_neg fresh] at ran
    exact ⟨_, _, ran⟩

/-- An upload that is not taken leaves its payload to be read as headers, or is not
answered. -/
theorem not_framed (magic : header.magic = protocolMagic)
    (command : header.cmd = CmdType.upload.code) {payload : Bytes}
    (size : header.dataLen.toNat = payload.length) (rest : Bytes)
    (leaves : ¬TakesPayload context state header) : ¬Framed context state header payload rest := by
  obtain ⟨announced, unable⟩ := not_or.mp leaves
  have something : payload ≠ [] := by
    intro empty
    rw [empty] at size
    exact announced (UInt32.toNat_inj.mp size)
  intro framed
  have start := serverRequest_serves context state magic command (payload ++ rest)
  rw [← List.append_assoc] at start
  cases refused : refusedName (headerName context header) with
  | true =>
    rw [serverRecvFile_refused refused, bind_assoc'] at start
    obtain ⟨same, _⟩ := framed _ (start.trans (serverSendResponse_serves _ _ _)) rfl
    exact something (List.append_left_eq_self.mp same)
  | false =>
    rw [serverRecvFile_accepted refused, bind_assoc'] at start
    have opened := start.trans (perform_serves _ _)
    by_cases opens : Opens (context.filepath (headerName context header)) state
    · rw [opens_openWrite opens, if_pos rfl] at opened
      have fails : ¬Writes payload.length (FileSystem.openWrite
          (context.filepath (headerName context header)) (decide ¬header.offset > 0) state).2 := by
        rw [Writes, FileSystem.openWrite_outcomes, ← size]
        exact fun writes => unable ⟨refused, opens, writes⟩
      obtain ⟨final, left, ran⟩ := serverReceive_serves size fails header.offset _
      obtain ⟨_, response, sent⟩ := framed _ (opened.trans ran) rfl
      exact response_ne_nil response sent.symm
    · rw [not_opens_openWrite opens, if_neg (by decide), bind_assoc'] at opened
      obtain ⟨same, _⟩ := framed _ (opened.trans (serverSendResponse_serves _ _ _)) rfl
      exact something (List.append_left_eq_self.mp same)

end Breaking

section Result
variable {context : ServerContext} {state : FileSystem} {header : ProtocolHeader}

/-- Exactly the uploads whose payload the handler gets to take are framed. -/
theorem upload_framed_iff (magic : header.magic = protocolMagic)
    (command : header.cmd = CmdType.upload.code) {payload : Bytes}
    (size : header.dataLen.toNat = payload.length) (rest : Bytes) :
    Framed context state header payload rest ↔
      header.dataLen = 0 ∨ (refusedName (headerName context header) = false ∧
        Opens (context.filepath (headerName context header)) state ∧
        Writes header.dataLen.toNat state) := by
  constructor
  · intro framed
    by_contra leaves
    exact not_framed magic command size rest leaves framed
  · intro takes
    exact framed_of_takesPayload magic command size rest takes

/-- An upload of three bytes under a plain name, with another request behind it. -/
theorem upload_framed_iff_small :
    Framed smallContext (singleFile [] []) (requestHeader .upload 3 0 smallName) [7, 8, 9]
      (requestHeader .quit 0 0 smallName).encode := by
  have named : headerName smallContext (requestHeader .upload 3 0 smallName) = smallName :=
    requestHeader_name .upload 3 0 smallName_plain.short []
  refine (upload_framed_iff rfl rfl rfl _).mpr (.inr ?_)
  rw [named]
  refine ⟨smallName_plain.accepted, ⟨rfl, rfl⟩, ?_⟩
  intro outcome member
  cases member

def dotsName : CString := ⟨text "..", by decide⟩

/-- A refused name: the byte of payload behind the header is not taken. -/
theorem upload_dots_not_framed :
    ¬Framed smallContext (singleFile [] []) (requestHeader .upload 1 0 dotsName) [7] [] := by
  have named : headerName smallContext (requestHeader .upload 1 0 dotsName) = dotsName :=
    requestHeader_name .upload 1 0 (by decide) []
  apply not_framed rfl rfl rfl []
  intro takes
  rcases takes with empty | ⟨accepted, _⟩
  · exact absurd empty (by decide)
  · rw [named] at accepted
    exact absurd accepted (by decide)

end Result

end LinuxCLearning.FileServer
