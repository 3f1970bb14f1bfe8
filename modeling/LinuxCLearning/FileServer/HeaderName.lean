import LinuxCLearning.FileServer.FileListing

/-! The file name in the header of a request: what of the memory the handlers read as the
name, for every content of the field. -/

namespace LinuxCLearning.FileServer

/-- The commands for which `server_handle_client` passes `header.filename` on. -/
def PassesName (cmd : UInt32) : Prop :=
  cmd = CmdType.download.code ∨ cmd = CmdType.upload.code ∨ cmd = CmdType.delete.code ∨
    cmd = CmdType.mkdir.code ∨ cmd = CmdType.rmdir.code

instance (cmd : UInt32) : Decidable (PassesName cmd) :=
  inferInstanceAs (Decidable (cmd = CmdType.download.code ∨ cmd = CmdType.upload.code ∨
    cmd = CmdType.delete.code ∨
    cmd = CmdType.mkdir.code ∨ cmd = CmdType.rmdir.code))

/-- The string that a handler finds at the file name of a header. -/
def nameOf (context : ServerContext) (header : ProtocolHeader) : CString :=
  .ofBuffer (header.filename.bytes ++ context.beyondHeader)

/-- The file name that `server_handle_client` passes to a handler. -/
def passedName (context : ServerContext) (header : ProtocolHeader) : Option CString :=
  if header.magic = protocolMagic ∧ PassesName header.cmd then
    some (nameOf context header) else none

/-- The same server with other bytes behind the header in memory. -/
def ServerContext.followedBy (context : ServerContext) (beyond : Bytes) : ServerContext :=
  { context with beyondHeader := beyond }

section Strings

/-- A string that ends inside its buffer does not depend on what follows the buffer. -/
theorem ofBuffer_inside {buffer : Bytes} (terminated : 0 ∈ buffer) (beyond : Bytes) :
    CString.ofBuffer (buffer ++ beyond) = CString.ofBuffer buffer := by
  obtain ⟨before, behind, rfl, nulFree⟩ := List.eq_append_cons_of_mem terminated
  have ends (rest : Bytes) : CString.ofBuffer (before ++ 0 :: rest) = ⟨before, nulFree⟩ :=
    CString.ofBuffer_terminated ⟨before, nulFree⟩ rest
  rw [List.append_assoc, List.cons_append, ends, ends]

/-- A string is shorter than its buffer exactly if it ends in there. -/
theorem ofBuffer_length_lt_iff (buffer beyond : Bytes) :
    (CString.ofBuffer (buffer ++ beyond)).length < buffer.length ↔ 0 ∈ buffer := by
  constructor
  · intro shorter
    by_contra absent
    have plain : ∀ byte ∈ buffer, decide (byte ≠ 0) = true := by
      intro byte member
      exact decide_eq_true fun zero => absent (zero ▸ member)
    have longer : (CString.ofBuffer (buffer ++ beyond)).length =
        buffer.length + (beyond.takeWhile (· ≠ 0)).length := by
      change ((buffer ++ beyond).takeWhile (· ≠ 0)).length = _
      rw [List.takeWhile_append_of_pos plain, List.length_append]
    omega
  · intro terminated
    rw [ofBuffer_inside terminated]
    obtain ⟨before, behind, rfl, nulFree⟩ := List.eq_append_cons_of_mem terminated
    have ends : CString.ofBuffer (before ++ 0 :: behind) = ⟨before, nulFree⟩ :=
      CString.ofBuffer_terminated ⟨before, nulFree⟩ behind
    rw [ends, CString.length, List.length_append, List.length_cons]
    exact Nat.lt_add_of_pos_right (Nat.succ_pos _)

end Strings

section Dispatch
variable (context : ServerContext) (header : ProtocolHeader)

/-- A command for which no name is passed does not look at the name. -/
theorem dispatch_nameless (nameless : ¬ PassesName header.cmd) (beyond : Bytes) :
    serverDispatch (context.followedBy beyond) header = serverDispatch context header := by
  simp only [PassesName, not_or] at nameless
  obtain ⟨download, upload, delete, mkdir, rmdir⟩ := nameless
  simp only [serverDispatch, if_neg download, if_neg upload, if_neg delete,
    if_neg mkdir, if_neg rmdir]
  rfl

/-- The handlers read of the memory behind the header what belongs to the name. -/
theorem dispatch_same_name {beyond : Bytes}
    (same : nameOf (context.followedBy beyond) header = nameOf context header) :
    serverDispatch (context.followedBy beyond) header = serverDispatch context header := by
  change CString.ofBuffer (header.filename.bytes ++ beyond) = CString.ofBuffer
    (header.filename.bytes ++ context.beyondHeader)
    at same
  have other : (context.followedBy beyond).beyondHeader = beyond := rfl
  simp only [serverDispatch, other, same]
  rfl

end Dispatch

/-- Whatever is behind the header in memory, the name that is passed to a handler ends inside its
field, and the request is handled without that memory. -/
def NameConfined (header : ProtocolHeader) : Prop :=
  (∀ context name, passedName context header = some name → name.length < 256) ∧
    ∀ context beyond, serverDispatch (ServerContext.followedBy context beyond) header =
      serverDispatch context header

/-- The handlers stay inside the header exactly if its name field has a terminator or its command
takes no name. -/
theorem nameConfined_iff {received : Bytes} (whole : received.length = ProtocolHeader.size)
    (magic : (ProtocolHeader.decode received).magic = protocolMagic) :
    NameConfined (.decode received) ↔
      0 ∈ received.drop 24 ∨ ¬ PassesName (ProtocolHeader.decode received).cmd := by
  have field : (ProtocolHeader.decode received).filename.bytes = received.drop 24 := by
    have size : 256 ≤ (received.drop 24).length := by
      rw [List.length_drop, whole]
      decide
    change (received.drop 24).takeD 256 0 = _
    rw [List.takeD_eq_take 0 size, List.take_of_length_le]
    rw [List.length_drop, whole]
    decide
  have size : (ProtocolHeader.decode received).filename.bytes.length = 256 :=
    (ProtocolHeader.decode received).filename.full
  constructor
  · intro ⟨inside, _⟩
    by_cases passes : PassesName (ProtocolHeader.decode received).cmd
    · left
      have context : ServerContext := ⟨⟨[], by simp⟩, Nat.zero_le _, fun _ => [], []⟩
      have shorter := inside context _ (if_pos ⟨magic, passes⟩)
      rw [← field]
      apply (ofBuffer_length_lt_iff _ context.beyondHeader).mp
      rw [size]
      exact shorter
    · exact Or.inr passes
  · rintro (terminated | nameless)
    · rw [← field] at terminated
      constructor
      · intro context name passed
        rw [passedName] at passed
        split at passed
        · cases passed
          have shorter := (ofBuffer_length_lt_iff _ context.beyondHeader).mpr terminated
          rwa [size] at shorter
        · cases passed
      · intro context beyond
        apply dispatch_same_name
        rw [nameOf, nameOf, ofBuffer_inside terminated, ofBuffer_inside terminated]
    · constructor
      · intro context name passed
        rw [passedName, if_neg fun both => nameless both.2] at passed
        cases passed
      · intro context beyond
        exact dispatch_nameless context _ nameless beyond

/-- A download of a file with a short name. -/
def shortRequest : ProtocolHeader :=
  ⟨protocolMagic, CmdType.download.code, 0, 0, 0, .ofBytes 256 (text "notes")⟩

theorem nameConfined_iff_short : NameConfined (.decode shortRequest.encode) ↔
    0 ∈ shortRequest.encode.drop 24 ∨
      ¬ PassesName (ProtocolHeader.decode shortRequest.encode).cmd := by
  apply nameConfined_iff
  · exact shortRequest.encode_length
  · rw [ProtocolHeader.decode_encode]
    rfl

/-- A download whose name fills its field. -/
def filledRequest : ProtocolHeader :=
  ⟨protocolMagic, CmdType.download.code, 0, 0, 0, ⟨List.replicate 256 65, List.length_replicate⟩⟩

/-- A server with a slash behind the header in memory. -/
def slashBehind : ServerContext := { sharedContext with beyondHeader := text "/" }

/-- The name goes on behind the header, where a slash makes the difference between a file that
is not found and a name that is refused. -/
theorem name_runs_on :
    (ProtocolHeader.decode filledRequest.encode).magic = protocolMagic ∧
      (passedName slashBehind (.decode filledRequest.encode)).map CString.length = some 257 ∧
      (passedName slashBehind (.decode filledRequest.encode)).map refusedName = some true ∧
      (passedName (slashBehind.followedBy [0]) (.decode filledRequest.encode)).map refusedName =
        some false ∧
      ¬ NameConfined (.decode filledRequest.encode) := by
  rw [ProtocolHeader.decode_encode]
  refine ⟨rfl, by decide +kernel, by decide +kernel, by decide +kernel, ?_⟩
  intro ⟨inside, _⟩
  have shorter := inside slashBehind _ (if_pos (by decide +kernel))
  exact absurd shorter (by decide +kernel)

end LinuxCLearning.FileServer
