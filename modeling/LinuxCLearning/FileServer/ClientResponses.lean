import LinuxCLearning.FileServer.RoundTrip

/-! How much of a response the client takes off the connection. A call that returns
before it has read the whole payload leaves the rest for the next call, which reads
it as its own response. -/

namespace LinuxCLearning.FileServer
open Proc Relation

/-- The calls of the client that get a payload. -/
inductive ClientCall where
  | list (malloc : UInt32 → Bool)
  | download (remoteName : CString) (localPath : Option CString)
  | resume (remoteName : CString) (localPath : Option CString)

def ClientCall.program (overrun : Handler ErrorCode) : ClientCall → Handler ErrorCode
  | .list malloc => clientListFiles malloc overrun
  | .download remoteName localPath => clientDownloadFile remoteName localPath
  | .resume remoteName localPath => clientDownloadResume remoteName localPath

/-- Wherever the call returns without a failure of the connection, it has taken the
response and its payload, whatever follows them, and no more. -/
def ClientCall.Consumes (call : ClientCall) (state : FileSystem) (response : ResponseHeader) :
    Prop :=
  ∀ overrun payload rest value final left sent, payload.length = response.dataLen.toNat →
    ReflTransGen End.Serves (⟨call.program overrun, state, response.encode ++ (payload ++ rest)⟩,
      [])
      (⟨.done value, final, left⟩, sent) → left = rest

/-- The statuses after which the call goes on to the payload. -/
def ClientCall.Accepts : ClientCall → UInt32 → Prop
  | .resume _ _, status => status = StatusCode.ok.code ∨ status = StatusCode.partially.code
  | _, status => status = StatusCode.ok.code

/-- No coming `write` fails before the last byte of the payload, even when every byte
comes by itself. -/
def WritesThrough (outcomes : List WriteOutcome) (dataLen : Nat) : Prop :=
  ∀ outcome ∈ outcomes.take (dataLen - 1), outcome = .full

def Receivable (path : Bytes) (state : FileSystem) (dataLen : Nat) : Prop :=
  (FileSystem.openWrite path true state).1 = true ∧ WritesThrough state.writeOutcomes dataLen

/-- The local operations that a payload of this length takes succeed. -/
def ClientCall.Succeeds (state : FileSystem) (dataLen : UInt32) : ClientCall → Prop
  | .list malloc => malloc (dataLen + 1) = true ∧ dataLen + 1 ≠ 0
  | .download remoteName localPath =>
    Receivable (localPath.getD remoteName).bytes state dataLen.toNat
  | .resume remoteName localPath => Receivable (localPath.getD remoteName).bytes state dataLen.toNat

section Calls
variable {σ α : Type} {state : σ} {inbox : Bytes}

theorem sendOnce_delivers {post : Option Nat → σ → Bytes → Prop} {bytes : Bytes}
    (something : bytes ≠ []) :
    (sendOnce bytes).Delivers post state inbox ↔ post (some bytes.length) state inbox := by
  constructor
  · intro delivers
    exact delivers _ (List.length_pos_iff.mpr something) (Nat.le_refl _) fun _ => rfl
  · intro sent count _ _ whole
    rw [whole rfl]
    exact sent

/-- `recv_all` returns with what it was asked for, if that much comes. -/
theorem recvAll_delivers {post : Option Bytes → σ → Bytes → Prop}
    (missing : Nat) (received : Bytes) :
    (recvAll missing received).Delivers post state inbox ↔
      (missing ≤ inbox.length → post (some (received ++ inbox.take missing)) state
        (inbox.drop missing)) := by
  induction missing using Nat.strong_induction_on generalizing received inbox with
  | _ missing ih =>
    rw [recvAll]
    split
    · rename_i none_missing
      subst none_missing
      simp [Delivers]
    · rename_i some_missing
      have onwards : ∀ count, 0 < count → count ≤ missing → count ≤ inbox.length →
          ((if inbox.take count = [] then Proc.done none
            else recvAll (missing - (inbox.take count).length)
              (received ++ inbox.take count)).Delivers
              post state (inbox.drop count) ↔
            (missing ≤ inbox.length →
              post (some (received ++ inbox.take missing)) state (inbox.drop missing))) := by
        intro count positive within available
        have taken : (inbox.take count).length = count := List.length_take_of_le available
        have nonempty : inbox.take count ≠ [] := by
          intro empty
          rw [empty, List.length_nil] at taken
          omega
        have enough : missing - count ≤ (inbox.drop count).length ↔ missing ≤ inbox.length := by
          rw [List.length_drop]
          omega
        have both : inbox.take count ++ (inbox.drop count).take (missing - count) =
            inbox.take missing := by
          rw [← List.take_add, Nat.add_sub_cancel' within]
        rw [if_neg nonempty, taken, ih _ (by omega), enough, List.append_assoc,
          both, List.drop_drop,
          Nat.add_sub_cancel' within]
      constructor
      · intro delivers whole
        have positive := Nat.pos_of_ne_zero some_missing
        exact (onwards missing positive (Nat.le_refl _) whole).mp
          (delivers missing positive (Nat.le_refl _) whole) whole
      · intro ends count positive within available
        exact (onwards count positive within available).mpr ends

end Calls

section Writes
variable {outcomes : List WriteOutcome} {dataLen less : Nat}

theorem WritesThrough.mono (through : WritesThrough outcomes dataLen) (shorter : less ≤ dataLen) :
    WritesThrough outcomes less := by
  intro outcome member
  exact through outcome ((List.take_subset_take_left outcomes (Nat.sub_le_sub_right shorter 1))
    member)

theorem writesThrough_full (full : outcomes.headD .full = .full) :
    WritesThrough outcomes dataLen ↔ WritesThrough outcomes.tail (dataLen - 1) := by
  cases outcomes with
  | nil => simp [WritesThrough]
  | cons first later =>
    obtain rfl : first = .full := full
    rcases dataLen with _ | _ | more
    · simp [WritesThrough]
    · simp [WritesThrough]
    · simp [WritesThrough, List.take_succ_cons]

theorem writesThrough_fails {stored : Nat} (fails : outcomes.headD .full = .fails stored) :
    WritesThrough outcomes dataLen ↔ dataLen ≤ 1 := by
  cases outcomes with
  | nil => cases fails
  | cons first later =>
    obtain rfl : first = .fails stored := fails
    rcases dataLen with _ | _ | more
    · simp [WritesThrough]
    · simp [WritesThrough]
    · simp [WritesThrough, List.take_succ_cons]

end Writes

section Payload
variable {state : FileSystem} {payload rest : Bytes}

theorem unread_iff : payload ++ rest = rest ↔ payload.length = 0 := by
  rw [List.append_left_eq_self, List.length_eq_zero_iff]

theorem none_left_iff {dataLen : UInt32} (size : payload.length = dataLen.toNat) :
    payload ++ rest = rest ↔ dataLen = 0 := by
  rw [unread_iff, size, ← UInt32.toNat_inj]
  rfl

/-- One round of the loop over the payload, whatever piece of it comes. -/
theorem receiveContent_round {post : Received → FileSystem → Bytes → Prop}
    (path : Bytes) (position : Nat) (nonempty : payload ≠ []) :
    (receiveContent path position payload.length).Delivers post state (payload ++ rest) ↔
      ∀ count, 0 < count → count ≤ min payload.length defaultBufferSize →
        let (written, next) := FileSystem.writeFile path position (payload.take count) state
        if written then
          (receiveContent path (position + count) (payload.length - count)).Delivers post next
            (payload.drop count ++ rest)
        else post .writeFailed next (payload.drop count ++ rest) := by
  have some_left : payload.length ≠ 0 :=
    fun none_left => nonempty (List.length_eq_zero_iff.mp none_left)
  rw [receiveContent, if_neg some_left]
  refine forall_congr' fun count => forall₂_congr fun positive within => ?_
  have inside : count ≤ payload.length := within.trans (min_le_left _ _)
  have available : count ≤ (payload ++ rest).length := by
    rw [List.length_append]
    exact inside.trans (Nat.le_add_right _ _)
  have taken : (payload.take count).length = count := List.length_take_of_le inside
  have something : payload.take count ≠ [] := List.length_pos_iff.mp (taken.symm ▸ positive)
  rw [List.take_append_of_le_length inside, List.drop_append_of_le_length inside]
  simp only [available, forall_const, if_neg something, taken, delivers_perform]
  split <;> exact Iff.rfl

/-- The loop over the payload reads all of it exactly when no `write` fails before. -/
theorem receiveContent_delivers (path : Bytes) (position : Nat) :
    (receiveContent path position payload.length).Delivers (fun _ _ left => left = rest) state
      (payload ++ rest) ↔ WritesThrough state.writeOutcomes payload.length := by
  induction size : payload.length using Nat.strong_induction_on generalizing payload position
    state with
  | _ remaining ih =>
    subst size
    by_cases empty : payload = []
    · subst empty
      rw [List.length_nil, receiveContent, if_pos rfl]
      simp [Delivers, WritesThrough]
    · have one : 1 ≤ min payload.length defaultBufferSize :=
        le_min (List.length_pos_iff.mpr empty) (by decide)
      rw [receiveContent_round path position empty]
      cases outcome : state.writeOutcomes.headD .full with
      | full =>
        have onwards : ∀ count, 0 < count → count ≤ payload.length →
            ((receiveContent path (position + count) (payload.length - count)).Delivers
              (fun _ _ left => left = rest)
              (FileSystem.writeFile path position (payload.take count) state).2
                (payload.drop count ++ rest) ↔
              WritesThrough state.writeOutcomes.tail (payload.length - count)) := by
          intro count positive inside
          rw [← FileSystem.writeFile_outcomes position (payload.take count), ← List.length_drop]
          exact ih _ (by rw [List.length_drop]; omega) _ rfl
        simp only [FileSystem.writeFile_full outcome, if_true]
        rw [writesThrough_full outcome]
        constructor
        · intro every
          exact (onwards 1 Nat.one_pos (one.trans (min_le_left _ _))).mp (every 1 Nat.one_pos one)
        · intro through count positive within
          exact (onwards count positive (within.trans (min_le_left _ _))).mpr
            (through.mono (Nat.sub_le_sub_left positive _))
      | fails stored =>
        simp only [FileSystem.writeFile_fails outcome, Bool.false_eq_true, if_false,
          unread_iff, List.length_drop]
        rw [writesThrough_fails outcome]
        constructor
        · intro every
          exact Nat.le_of_sub_eq_zero (every 1 Nat.one_pos one)
        · intro short count positive _
          exact Nat.sub_eq_zero_of_le (short.trans positive)

/-- The end of a download reads the whole payload exactly when there is none or the
local file takes it. -/
theorem clientReceiveContent_delivers (path : Bytes) (truncate : Bool)
    (position : Nat) {dataLen : UInt32} (size : payload.length = dataLen.toNat) :
    (clientReceiveContent path truncate position dataLen).Delivers (fun _ _ left => left = rest)
      state
      (payload ++ rest) ↔ dataLen = 0 ∨ Receivable path state dataLen.toNat := by
  have opens : (FileSystem.openWrite path truncate state).1 =
      (FileSystem.openWrite path true state).1 := by
    unfold FileSystem.openWrite
    split <;> rfl
  rw [clientReceiveContent, delivers_perform, Receivable, ← opens]
  split
  · rename_i opened
    have loop : (receiveContent path position payload.length).Delivers (fun _ _ left => left = rest)
        (FileSystem.openWrite path truncate state).2 (payload ++ rest) ↔ _ :=
      receiveContent_delivers path position
    rw [size, FileSystem.openWrite_outcomes] at loop
    rw [delivers_bind]
    refine loop.trans ⟨fun through => Or.inr ⟨opened, through⟩, ?_⟩
    rintro (rfl | ⟨_, through⟩)
    · exact fun _ member => absurd member (by simp)
    · exact through
  · rename_i refused
    refine (none_left_iff size).trans ⟨Or.inl, ?_⟩
    rintro (none_left | ⟨opened, _⟩)
    · exact none_left
    · exact absurd opened refused

end Payload

section Response
variable {post : ErrorCode → FileSystem → Bytes → Prop} {state : FileSystem} {inbox : Bytes}

/-- A call that has sent its request goes on with the header of the response. -/
theorem response_delivers (header : ProtocolHeader) (response : ResponseHeader)
    (after : Option Bytes → Handler ErrorCode) (failed : Handler ErrorCode) :
    (sendOnce header.encode >>= fun sent =>
        if sent.isSome then recvAll ResponseHeader.size [] >>= after
        else failed).Delivers post state
      (response.encode ++ inbox) ↔ (after (some response.encode)).Delivers post state inbox := by
  have whole : ResponseHeader.size = response.encode.length :=
    (ResponseHeader.encode_length response).symm
  have available : ResponseHeader.size ≤ (response.encode ++ inbox).length := by
    rw [whole, List.length_append]
    exact Nat.le_add_right _ _
  rw [delivers_bind, sendOnce_delivers (request_ne_nil header), Option.isSome_some,
    if_pos rfl, delivers_bind,
    recvAll_delivers]
  simp only [available, forall_const, List.nil_append]
  rw [whole, List.take_left, List.drop_left]

end Response

instance : Nonempty (Handler ErrorCode) := ⟨.done .success⟩

namespace ClientCall
variable {state : FileSystem} {response : ResponseHeader} {payload rest : Bytes}
  {overrun : Handler ErrorCode}

theorem refused_iff {goesOn : Prop} (refused : ¬ goesOn)
    (size : payload.length = response.dataLen.toNat) :
    payload ++ rest = rest ↔ response.dataLen = 0 ∨ goesOn := by
  rw [none_left_iff size]
  exact (or_iff_left refused).symm

theorem download_delivers (remoteName : CString) (localPath : Option CString)
    (size : payload.length = response.dataLen.toNat) :
    (clientDownloadFile remoteName localPath).Delivers (fun _ _ left => left = rest) state
        (response.encode ++ (payload ++ rest)) ↔
      response.dataLen = 0 ∨ response.status = StatusCode.ok.code ∧
        Receivable (localPath.getD remoteName).bytes state response.dataLen.toNat := by
  refine (response_delivers (requestHeader .download 0 0 remoteName) response _ _).trans ?_
  simp only [ResponseHeader.decode_encode]
  split
  · rename_i accepted
    simp only [accepted, true_and]
    exact clientReceiveContent_delivers _ true 0 size
  · rename_i refused
    exact refused_iff (fun both => refused both.1) size

theorem resume_delivers (remoteName : CString) (localPath : Option CString)
    (size : payload.length = response.dataLen.toNat) :
    (clientDownloadResume remoteName localPath).Delivers (fun _ _ left => left = rest) state
        (response.encode ++ (payload ++ rest)) ↔
      response.dataLen = 0 ∨
        (response.status = StatusCode.ok.code ∨ response.status = StatusCode.partially.code) ∧
          Receivable (localPath.getD remoteName).bytes state response.dataLen.toNat := by
  rw [clientDownloadResume, delivers_perform]
  refine (response_delivers (requestHeader .download 0 _ remoteName) response _ _).trans ?_
  simp only [ResponseHeader.decode_encode]
  split
  · rename_i accepted
    simp only [accepted, true_and]
    split
    · exact clientReceiveContent_delivers _ false _ size
    · exact clientReceiveContent_delivers _ true 0 size
  · rename_i refused
    exact refused_iff (fun both => refused both.1) size

theorem list_delivers (malloc : UInt32 → Bool) (size : payload.length = response.dataLen.toNat) :
    (∀ overrun, (clientListFiles malloc overrun).Delivers (fun _ _ left => left = rest) state
        (response.encode ++ (payload ++ rest))) ↔
      response.dataLen = 0 ∨ response.status = StatusCode.ok.code ∧
        malloc (response.dataLen + 1) = true ∧ response.dataLen + 1 ≠ 0 := by
  have each : ∀ overrun, (clientListFiles malloc overrun).Delivers (fun _ _ left => left = rest)
      state
      (response.encode ++ (payload ++ rest)) ↔ _ :=
    fun overrun => response_delivers (requestHeader .list 0 0 noName) response _ _
  simp only [each, ResponseHeader.decode_encode]
  split
  · rename_i accepted
    split
    · rename_i allocated
      split
      · rename_i wrapped
        have some_bytes : response.dataLen ≠ 0 := UInt32.pos_iff_ne_zero.mp allocated.1
        refine iff_of_false ?_ ?_
        · intro every
          exact some_bytes ((none_left_iff size).mp (every (.done .success)))
        · rintro (nothing | ⟨_, _, fits⟩)
          · exact some_bytes nothing
          · exact fits wrapped
      · rename_i fits
        refine iff_of_true ?_ (Or.inr ⟨accepted, allocated.2, fits⟩)
        intro overrun
        rw [delivers_bind, recvAll_delivers, ← size, List.drop_left]
        exact fun _ => rfl
    · rename_i refused
      rw [forall_const]
      refine (none_left_iff size).trans ⟨Or.inl, ?_⟩
      rintro (nothing | ⟨_, allocated, _⟩)
      · exact nothing
      · by_contra some_bytes
        exact refused ⟨UInt32.pos_iff_ne_zero.mpr some_bytes, allocated⟩
  · rename_i refused
    rw [forall_const]
    exact refused_iff (fun both => refused both.1) size

theorem consumes_of_delivers {call : ClientCall} {goesOn : Prop}
    (delivers : ∀ payload rest : Bytes, payload.length = response.dataLen.toNat →
      ((∀ overrun, (call.program overrun).Delivers (fun _ _ left => left = rest) state
        (response.encode ++ (payload ++ rest))) ↔ goesOn)) :
          call.Consumes state response ↔ goesOn := by
  constructor
  · intro consumes
    have size : (List.replicate response.dataLen.toNat (0 : UInt8)).length =
        response.dataLen.toNat :=
      List.length_replicate
    refine (delivers _ [] size).mp fun overrun => (End.delivers_iff []).mpr ?_
    intro value final left out ran
    exact consumes overrun _ [] value final left out size ran
  · intro holds overrun payload rest value final left sent size ran
    exact (End.delivers_iff []).mp ((delivers payload rest size).mpr holds overrun)
      value final left sent ran

theorem download_consumes (remoteName : CString) (localPath : Option CString) :
    (ClientCall.download remoteName localPath).Consumes state response ↔
      response.dataLen = 0 ∨ response.status = StatusCode.ok.code ∧
        Receivable (localPath.getD remoteName).bytes state response.dataLen.toNat := by
  refine consumes_of_delivers fun payload rest size => ?_
  exact (forall_const _).trans (download_delivers remoteName localPath size)

end ClientCall

/-- A call reads the whole response, however it comes, exactly when there is no payload
or its status is accepted and the local operations on the payload succeed. -/
theorem response_consumed_iff (call : ClientCall) (state : FileSystem) (response : ResponseHeader) :
    call.Consumes state response ↔ response.dataLen = 0 ∨
      call.Accepts response.status ∧ call.Succeeds state response.dataLen := by
  cases call with
  | list malloc =>
    exact ClientCall.consumes_of_delivers fun payload rest size =>
      ClientCall.list_delivers malloc size
  | download remoteName localPath => exact ClientCall.download_consumes remoteName localPath
  | resume remoteName localPath =>
    refine ClientCall.consumes_of_delivers fun payload rest size => ?_
    exact (forall_const _).trans (ClientCall.resume_delivers remoteName localPath size)

/-- The server sends a file of one byte and the local file cannot be created. -/
theorem refused_open_leaves_payload :
    ¬ (ClientCall.download smallName none).Consumes ⟨fun _ => none, fun _ => none, [], [false], []⟩
      (fileResponse smallName 1 0) := by
  intro consumes
  rcases (ClientCall.download_consumes smallName none).mp consumes with nothing | ⟨_, opened, _⟩
  · exact absurd nothing (by decide)
  · exact Bool.false_ne_true opened

end LinuxCLearning.FileServer
