import LinuxCLearning.Base.PathName
import LinuxCLearning.FileServer.UploadFraming

/-! Where the handlers go in the file system. A handler that refuses a name makes
no file call at all; the others hand one path to all of theirs. -/

namespace LinuxCLearning.FileServer
open PathName

/-- The calls that the handlers make on a path. -/
inductive FileCall (path : Bytes) : {β : Type} → (FileSystem → β × FileSystem) → Prop where
  | openRead : FileCall path (FileSystem.openRead path)
  | openWrite (truncate : Bool) : FileCall path (FileSystem.openWrite path truncate)
  | writeFile (position : Nat) (data : Bytes) : FileCall path
      (FileSystem.writeFile path position data)
  | unlink : FileCall path (FileSystem.unlink path)
  | unlinkIgnored : FileCall path fun system => ((), (FileSystem.unlink path system).2)
  | mkdir : FileCall path (FileSystem.mkdir path)
  | rmdir : FileCall path (FileSystem.rmdir path)

/-- Every file call of a program is made on the path. -/
inductive WorksOn (path : Bytes) {α : Type} : Handler α → Prop where
  | done (value : α) : WorksOn path (.done value)
  | call {β : Type} {call : FileSystem → β × FileSystem} {rest : β → Handler α}
      (isCall : FileCall path call) (onwards : ∀ value, WorksOn path (rest value)) :
      WorksOn path (Proc.perform call >>= rest)
  | send {data : Bytes} {whole : Bool} {next : Option Nat → Handler α}
      (onwards : ∀ result, WorksOn path (next result)) : WorksOn path (.send data whole next)
  | recv {limit : Nat} {next : Option Bytes → Handler α}
      (onwards : ∀ result, WorksOn path (next result)) : WorksOn path (.recv limit next)

section Programs
variable {path : Bytes} {α β : Type}

theorem WorksOn.andThen {first : Handler α} {rest : α → Handler β} (works : WorksOn path first)
    (onwards : ∀ value, WorksOn path (rest value)) : WorksOn path (first >>= rest) := by
  induction works with
  | done value => exact onwards value
  | call isCall _ ih =>
    rw [Proc.bind_assoc']
    exact .call isCall ih
  | send _ ih => exact .send ih
  | recv _ ih => exact .recv ih

theorem sendAll_worksOn (buffer : Bytes) : WorksOn path (sendAll buffer) := by
  fun_induction sendAll buffer with
  | case1 => exact .done true
  | case2 buffer nonempty ih =>
    apply WorksOn.send
    intro result
    cases result with
    | none => exact .done false
    | some count =>
      dsimp only
      split
      · exact .done false
      · exact ih count ‹_›

theorem sendFileContent_worksOn (content : Bytes) : WorksOn path (sendFileContent content) := by
  fun_induction sendFileContent content with
  | case1 => exact .done true
  | case2 content nonempty ih =>
    apply (sendAll_worksOn _).andThen
    intro sent
    cases sent with
    | false => exact .done false
    | true => exact ih

theorem receiveContent_worksOn (position remaining : Nat) :
    WorksOn path (receiveContent path position remaining) := by
  fun_induction receiveContent path position remaining with
  | case1 => exact .done _
  | case2 position remaining more ih =>
    apply WorksOn.recv
    intro result
    cases result with
    | none => exact .done _
    | some chunk =>
      dsimp only
      split
      · exact .done _
      · rename_i nonempty
        apply WorksOn.call (.writeFile position chunk)
        intro written
        cases written with
        | false => exact .done _
        | true => exact ih chunk nonempty

theorem unlinkFresh_worksOn (offset : UInt64) : WorksOn path (unlinkFresh path offset) := by
  unfold unlinkFresh
  split
  · exact .call .unlinkIgnored .done
  · exact .done ()

theorem serverFinish_worksOn (offset : UInt64) (received : Received) :
    WorksOn path (serverFinish path offset received) := by
  cases received with
  | complete => exact .send fun _ => .done _
  | recvFailed => exact (unlinkFresh_worksOn offset).andThen fun _ => .done _
  | writeFailed => exact (unlinkFresh_worksOn offset).andThen fun _ => .done _

theorem serverReceive_worksOn (fileSize : UInt32) (offset : UInt64) (position : Nat) :
    WorksOn path (serverReceive path fileSize offset position) :=
  (receiveContent_worksOn position fileSize.toNat).andThen (serverFinish_worksOn offset)

end Programs

/-- A handler that refuses bad names and makes a file call at once for the others. -/
def Checks (context : ServerContext) (filename : CString) (handler : Handler ErrorCode) : Prop :=
  ∃ (message : Bytes) (β : Type) (call : FileSystem → β × FileSystem)
    (rest : β → Handler ErrorCode),
    FileCall (context.filepath filename) call ∧
      (∀ value, WorksOn (context.filepath filename) (rest value)) ∧
      handler = if refusedName filename then do
          let _ ← serverSendResponse .denied message
          return .errFileOpen
        else Proc.perform call >>= rest

section Handlers
variable (context : ServerContext) (filename : CString)

theorem serverSendFile_checks (offset : UInt64) :
    Checks context filename (serverSendFile context filename offset) := by
  refine ⟨_, _, _, _, .openRead, ?_, rfl⟩
  intro opened
  cases opened with
  | none => exact .send fun _ => .done _
  | some found =>
    dsimp only
    split
    · exact .send fun _ => .done _
    · exact .send fun _ => (sendFileContent_worksOn _).andThen fun _ => .done _

theorem serverRecvFile_checks (fileSize : UInt32) (offset : UInt64) :
    Checks context filename (serverRecvFile context filename fileSize offset) := by
  unfold serverRecvFile
  by_cases resumes : offset > 0
  · simp only [if_pos resumes]
    refine ⟨_, _, _, _, .openWrite false, ?_, rfl⟩
    intro opened
    cases opened with
    | false => exact .send fun _ => .done _
    | true => exact serverReceive_worksOn fileSize offset _
  · simp only [if_neg resumes]
    refine ⟨_, _, _, _, .openWrite true, ?_, rfl⟩
    intro opened
    cases opened with
    | false => exact .send fun _ => .done _
    | true => exact serverReceive_worksOn fileSize offset 0

theorem serverDeleteFile_checks : Checks context filename (serverDeleteFile context filename) := by
  refine ⟨_, _, _, _, .unlink, ?_, rfl⟩
  intro deleted
  cases deleted with
  | false => exact .send fun _ => .done _
  | true => exact .send fun _ => .done _

theorem serverDirectory_checks {call : Bytes → FileSystem → Option Nat × FileSystem}
    (isCall : ∀ path, FileCall path (call path)) (success : Bytes) :
    Checks context filename (serverDirectory context call success filename) := by
  refine ⟨_, _, _, _, isCall _, ?_, rfl⟩
  intro failure
  cases failure with
  | none => exact .send fun _ => .done _
  | some errno => exact .send fun _ => .done _

end Handlers

/-- The requests that name a file or a directory. -/
def namingCommands : List CmdType := [.download, .upload, .delete, .mkdir, .rmdir]

/-- The handler answers `STATUS_DENIED` and makes no file call. -/
def Refuses (program : Handler Bool) : Prop :=
  ∃ message, program = do
    let _ ← serverSendResponse .denied message
    return true

/-- Every file call of the handler is on the whole of `shared_dir/name`, which is a
strict child of `shared_dir`. -/
def Confined (context : ServerContext) (name : CString) (program : Handler Bool) : Prop :=
  WorksOn (context.filepath name) program ∧
    context.filepath name = context.sharedDir.bytes ++ text "/" ++ name.bytes ∧
    ∃ component, resolve (context.filepath name) = (resolve context.sharedDir.bytes).child component

theorem serverDispatch_checks (context : ServerContext) {header : ProtocolHeader}
    (naming : ∃ command ∈ namingCommands, header.cmd = command.code) :
    ∃ handler, Checks context (headerName context header) handler ∧
      serverDispatch context header = do
        let _ ← handler
        return true := by
  obtain ⟨command, member, code⟩ := naming
  simp only [namingCommands, List.mem_cons, List.not_mem_nil, or_false] at member
  obtain rfl | rfl | rfl | rfl | rfl := member
  · refine ⟨_, serverSendFile_checks context _ header.offset, ?_⟩
    simp only [serverDispatch, code]
    rfl
  · exact ⟨_, serverRecvFile_checks context _ header.dataLen header.offset,
      serverDispatch_of_upload code⟩
  · refine ⟨_, serverDeleteFile_checks context _, ?_⟩
    simp only [serverDispatch, code]
    rfl
  · refine ⟨_, serverDirectory_checks context _ (fun _ => .mkdir) (text "Directory created"), ?_⟩
    simp only [serverDispatch, code]
    rfl
  · refine ⟨_, serverDirectory_checks context _ (fun _ => .rmdir) (text "Directory removed"), ?_⟩
    simp only [serverDispatch, code]
    rfl

section Dispatch
variable {context : ServerContext} {header : ProtocolHeader}
  (naming : ∃ command ∈ namingCommands, header.cmd = command.code)
include naming

/-- Exactly the bad names are refused. -/
theorem refuses_iff :
    Refuses (serverDispatch context header) ↔ refusedName (headerName context header) = true := by
  obtain ⟨handler, ⟨message, β, call, rest, isCall, works, rfl⟩, dispatch⟩ :=
    serverDispatch_checks context naming
  rw [dispatch]
  constructor
  · intro refuses
    obtain ⟨other, same⟩ := refuses
    by_contra accepted
    rw [if_neg accepted] at same
    cases same
  · intro refused
    rw [if_pos refused]
    exact ⟨message, rfl⟩

theorem serverDispatch_worksOn :
    WorksOn (context.filepath (headerName context header)) (serverDispatch context header) := by
  obtain ⟨handler, ⟨message, β, call, rest, isCall, works, rfl⟩, dispatch⟩ :=
    serverDispatch_checks context naming
  rw [dispatch]
  split
  · exact .send fun _ => .done true
  · exact (WorksOn.call isCall works).andThen fun _ => .done true

end Dispatch

section Paths
variable {context : ServerContext} {name : CString}

theorem headerName_length {header : ProtocolHeader} (terminated : 0 ∈ header.filename.bytes) :
    (headerName context header).length ≤ 255 := by
  obtain ⟨before, after, split, nulFree⟩ := List.eq_append_cons_of_mem terminated
  have name : (headerName context header).bytes = before := by
    rw [headerName, CString.ofBuffer, split, List.append_assoc, List.cons_append]
    exact takeWhile_nulFree nulFree _
  have full := header.filename.full
  rw [split, List.length_append, List.length_cons] at full
  rw [CString.length, name]
  omega

theorem filepath_whole (short : name.length ≤ 255) :
    context.filepath name = context.sharedDir.bytes ++ text "/" ++ name.bytes := by
  apply List.take_of_length_le
  have fits : context.sharedDir.bytes.length ≤ 255 := context.sharedDir_fits
  have named : name.bytes.length ≤ 255 := short
  have slash : (text "/").length = 1 := rfl
  simp only [List.length_append]
  omega

theorem resolve_filepath (short : name.length ≤ 255) (configured : context.sharedDir.bytes ≠ []) :
    resolve (context.filepath name) =
      (resolve context.sharedDir.bytes).walk (components name.bytes) := by
  have separated : context.sharedDir.bytes ++ text "/" ++ name.bytes =
      context.sharedDir.bytes ++ 47 :: name.bytes := List.append_assoc _ _ _
  rw [filepath_whole short, resolve, separated, start_append configured, components_append,
    Location.walk_append, resolve]

theorem resolve_unconfigured (short : name.length ≤ 255)
    (unconfigured : context.sharedDir.bytes = []) (component : Bytes) :
    resolve (context.filepath name) ≠ (resolve context.sharedDir.bytes).child component := by
  intro same
  have absolute := congrArg Location.absolute same
  simp [filepath_whole short, unconfigured, resolve, start, text, Location.child] at absolute

theorem plain_of_accepted (accepted : refusedName name = false) :
    47 ∉ name.bytes ∧ name.bytes ≠ [46, 46] := by
  simp only [refusedName, Bool.or_eq_false_iff, decide_eq_false_iff_not] at accepted
  constructor
  · intro member
    obtain ⟨before, after, split⟩ := List.mem_iff_append.mp member
    exact accepted.2 ⟨before, after, by simp [split, text]⟩
  · intro same
    exact accepted.1 ⟨[], [], by rw [same]; rfl⟩

/-- An accepted name leads to a child exactly when it is a name at all. -/
theorem resolve_child_iff (short : name.length ≤ 255) (accepted : refusedName name = false) :
    (∃ component, resolve (context.filepath name) =
      (resolve context.sharedDir.bytes).child component) ↔
      name.bytes ≠ [] ∧ name.bytes ≠ [46] ∧ context.sharedDir.bytes ≠ [] := by
  obtain ⟨noSlash, noParent⟩ := plain_of_accepted accepted
  by_cases configured : context.sharedDir.bytes = []
  · constructor
    · intro inside
      obtain ⟨component, same⟩ := inside
      exact absurd same (resolve_unconfigured short configured component)
    · intro condition
      exact absurd configured condition.2.2
  · rw [resolve_filepath short configured]
    constructor
    · intro inside
      obtain ⟨component, same⟩ := inside
      refine ⟨?_, ?_, configured⟩
      · intro empty
        rw [empty] at same
        exact Location.child_ne _ _ same.symm
      · intro dot
        rw [dot] at same
        exact Location.child_ne _ _ same.symm
    · intro condition
      refine ⟨name.bytes, ?_⟩
      rw [components_plain noSlash condition.1 condition.2.1]
      exact Location.walk_child noParent _ []

end Paths

/-- A handler that does not refuse a terminated name works on a strict child of
`shared_dir`, as long as the name is neither empty nor `.` and there is a directory. -/
theorem names_confined (context : ServerContext) (header : ProtocolHeader)
    (naming : ∃ command ∈ namingCommands, header.cmd = command.code)
    (terminated : 0 ∈ header.filename.bytes) :
    (¬ Refuses (serverDispatch context header) →
        Confined context (headerName context header) (serverDispatch context header)) ↔
      refusedName (headerName context header) = true ∨
        (headerName context header).bytes ≠ [] ∧ (headerName context header).bytes ≠ text "." ∧
          context.sharedDir.bytes ≠ [] := by
  have short : (headerName context header).length ≤ 255 := headerName_length terminated
  rw [refuses_iff naming]
  cases refused : refusedName (headerName context header) with
  | true => simp
  | false =>
    simp only [Bool.false_eq_true, not_false_eq_true, forall_const, false_or]
    constructor
    · intro confined
      exact (resolve_child_iff short refused).mp confined.2.2
    · intro condition
      exact ⟨serverDispatch_worksOn naming, filepath_whole short,
        (resolve_child_iff short refused).mpr condition⟩

/-- A request to remove the directory of this name. -/
def rmdirHeader (name : Bytes) : ProtocolHeader :=
  ⟨protocolMagic, CmdType.rmdir.code, 0, 0, 0, .strncpy 256 name⟩

theorem rmdirHeader_naming (name : Bytes) :
    ∃ command ∈ namingCommands, (rmdirHeader name).cmd = command.code :=
  ⟨.rmdir, by simp [namingCommands], rfl⟩

theorem names_confined_docs :
    Confined smallContext (headerName smallContext (rmdirHeader (text "docs")))
      (serverDispatch smallContext (rmdirHeader (text "docs"))) := by
  have accepted : ¬ Refuses (serverDispatch smallContext (rmdirHeader (text "docs"))) := by
    rw [refuses_iff (rmdirHeader_naming _)]
    decide
  apply (names_confined smallContext (rmdirHeader (text "docs"))
    (rmdirHeader_naming _) (by decide)).mpr
  · exact .inr (by decide)
  · exact accepted

/-- The empty name is accepted and denotes the shared directory itself. -/
theorem empty_name_escapes :
    ¬ (¬ Refuses (serverDispatch smallContext (rmdirHeader [])) →
      Confined smallContext (headerName smallContext (rmdirHeader []))
        (serverDispatch smallContext (rmdirHeader []))) := by
  intro confined
  have accepted : ¬ Refuses (serverDispatch smallContext (rmdirHeader [])) := by
    rw [refuses_iff (rmdirHeader_naming _)]
    decide
  obtain ⟨-, -, component, child⟩ := confined accepted
  have itself : resolve (smallContext.filepath (headerName smallContext (rmdirHeader []))) =
      resolve smallContext.sharedDir.bytes := by decide
  exact Location.child_ne _ component (child.symm.trans itself)

end LinuxCLearning.FileServer
