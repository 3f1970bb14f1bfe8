import LinuxCLearning.FileServer.Resume

/-! Uploads that are interrupted and taken up again. A connection that breaks ends the call
of the client but not the server's thread, which goes on beside the attempts that follow. -/

namespace LinuxCLearning.FileServer
open Proc Machine

section Uploads
variable {context : ServerContext} {name localPath : CString} {remoteName : Option CString}
  {whole : Bytes} {client server : FileSystem}

/-- The server done with a resumed upload: it has everything. -/
def Uploaded (context : ServerContext) (name : CString) (whole : Bytes) (program : Handler Unit)
    (state : FileSystem) : Prop :=
  ∃ turns, Between context turns (·.At (context.filepath name) (some whole)) program state

theorem serverHandleClient_uploaded {served : FileSystem → Prop} {dialogue : List (Mark UInt8)}
    (request : Follows (Beginning (context.filepath name) whole)
      (Ends fun continues after => continues = true ∧ served after)
      (fun _ after => Beginning (context.filepath name) whole after) (serverRequest context) server
      dialogue)
    (complete : ∀ after, served after → after.At (context.filepath name) (some whole))
    (turns : Nat) :
    Follows (Beginning (context.filepath name) whole) (Uploaded context name whole)
      (fun _ after => Beginning (context.filepath name) whole after)
      (serverHandleClient context (turns + 1)) server dialogue := by
  have holds : ∀ after, served after → Beginning (context.filepath name) whole after :=
    fun after done => .of_stored (List.prefix_refl whole) (complete after done)
  rw [← List.append_nil dialogue]
  apply (serverHandleClient_follows request holds turns).append
  intro program state between
  obtain ⟨rfl, done⟩ := between
  exact .waits (holds state done) ⟨turns, rfl, complete state done⟩
    (serverHandleClient_waits (holds state done) turns)

/-- After a probe that left it as it was, the server receives the upload. -/
theorem serverHandleClient_probed {probe upload : List (Mark UInt8)}
    (probed : Follows (Beginning (context.filepath name) whole)
      (Ends fun continues after => continues = true ∧ after = server)
      (fun _ after => Beginning (context.filepath name) whole after) (serverRequest context) server
      probe)
    (received : Follows (Beginning (context.filepath name) whole)
      (Ends fun continues after => continues = true ∧ after.At (context.filepath name) (some whole))
      (fun _ after => Beginning (context.filepath name) whole after) (serverRequest context) server
      upload) (turns : Nat) :
    Follows (Beginning (context.filepath name) whole) (Uploaded context name whole)
      (fun _ after => Beginning (context.filepath name) whole after)
      (serverHandleClient context (turns + 2)) server (probe ++ upload) := by
  apply (serverHandleClient_follows probed (fun _ same => same ▸ received.holds) (turns + 1)).append
  intro program state between
  obtain ⟨rfl, rfl⟩ := between
  exact serverHandleClient_uploaded received (fun _ file => file) turns

/-- What one attempt at a resumed upload does on both sides, from any state in which
the server's file is absent or a beginning of the local one. -/
theorem uploadResume_dialogue (short : (remoteName.getD (basename localPath)).length ≤ 255)
    (accepted : refusedName (remoteName.getD (basename localPath)) = false)
    (size : whole.length < 2 ^ 32) (source : client.At localPath.bytes (some whole))
    (held : Beginning (context.filepath (remoteName.getD (basename localPath))) whole server)
    (turns : Nat) :
    ∃ dialogue,
      Follows (· = client) (Ends (Returns .success client)) (fun _ after => after = client)
        (clientUploadResume localPath remoteName) client dialogue ∧
      Follows (Beginning (context.filepath (remoteName.getD (basename localPath))) whole)
        (Uploaded context (remoteName.getD (basename localPath)) whole)
        (fun _ after => Beginning (context.filepath (remoteName.getD (basename localPath))) whole
          after)
        (serverHandleClient context (turns + 2)) server (dialogue.map Mark.dual) := by
  generalize named : remoteName.getD (basename localPath) = name at *
  have keeps : ∀ stored state, stored <+: whole → state.At (context.filepath name) (some stored) →
      Beginning (context.filepath name) whole state := fun _ _ inside file => .of_stored inside file
  have absent : ∀ state, state.At (context.filepath name) none →
      Beginning (context.filepath name) whole state := fun _ file => .of_absent whole file
  obtain ⟨old, file, inside⟩ := id held
  have fresh := serverRequest_fresh held short accepted file keeps absent size
  cases old with
  | none =>
    refine ⟨_, clientUploadResume_fresh ?_ source (size.trans (by decide)) remoteName
      (responseMessage .notFound (text "File not found")) (by decide)
      (responseMessage .ok (text "File uploaded successfully")), ?_⟩
    · rfl
    · have probed := serverRequest_missing held short accepted file 0
      simpa [named] using serverHandleClient_probed probed fresh turns
  | some stored =>
    have probed := serverRequest_download held short accepted file
      (show (0 : UInt64).toNat ≤ stored.length from Nat.zero_le _) (inside.length_le.trans_lt size)
    by_cases empty : stored = []
    · refine ⟨_, clientUploadResume_fresh ?_ source (size.trans (by decide)) remoteName
        (fileResponse name 0 0)
        (fun both => absurd (show (0 : UInt32) < UInt32.ofNat 0 from both.2) (by decide))
        (responseMessage .ok (text "File uploaded successfully")), ?_⟩
      · rfl
      · simpa [named, empty] using serverHandleClient_probed probed fresh turns
    · refine ⟨_, clientUploadResume_resumed ?_ source size remoteName empty inside.length_le
        (responseMessage .ok (text "File uploaded successfully")), ?_⟩
      · rfl
      · by_cases shorter : stored.length < whole.length
        · have resumed := serverRequest_resumed held short accepted file empty
            inside keeps absent size
          simpa [named, shorter] using serverHandleClient_probed probed resumed turns
        · have complete : stored = whole :=
            inside.eq_of_length (le_antisymm inside.length_le (not_lt.mp shorter))
          simpa [named, shorter] using
            serverHandleClient_uploaded probed (fun after same => same ▸ complete ▸ file)
              (turns + 1)

end Uploads

/-- A thread of the server whose connection is down, and the bytes still under way to it. -/
structure UploadWorker where
  program : Handler Unit
  inbox : Bytes

/-- A client that uploads one file. `link` is the connection of the latest attempt, with the
file systems of both sides, and `workers` are the threads of the connections before it, which
reach their files by path. -/
structure UploadSystem where
  link : Link UInt8 FileSystem ErrorCode FileSystem Unit
  workers : List UploadWorker

/-- Something happens on the connection, a thread of an earlier one takes a step, or the
client calls `client_upload_resume` on a new one. -/
inductive UploadAction where
  | link (event : Link.Event)
  | worker (index : Nat) (size : Option Nat)
  | begin (turns : Nat)

namespace UploadSystem

/-- Before the first attempt. -/
def start (client server : FileSystem) : UploadSystem :=
  ⟨⟨⟨.done .success, client, []⟩, ⟨.done (), server, []⟩, false⟩, []⟩

/-- One step of an earlier thread on the file system of the server. -/
def moveWorker (system : UploadSystem) (index : Nat) (size : Option Nat) : Option UploadSystem := do
  let worker ← system.workers[index]?
  let (moved, _) ← End.move false ⟨worker.program, system.link.right.state, worker.inbox⟩ size
  return { system with
    link.right.state := moved.state
    workers := system.workers.set index ⟨moved.program, moved.inbox⟩ }

/-- The next attempt: the last connection is down and the client's call on it has returned. -/
def nextAttempt (context : ServerContext) (localPath : CString) (remoteName : Option CString)
    (system : UploadSystem) (turns : Nat) : Option UploadSystem :=
  let ⟨left, right, up⟩ := system.link
  if up = false ∧ left.program.result.isSome then
    some ⟨connect (clientUploadResume localPath remoteName) left.state context
      (turns + 2) right.state,
      system.workers ++ [⟨right.program, right.inbox⟩]⟩
  else none

def step (context : ServerContext) (localPath : CString) (remoteName : Option CString)
    (system : UploadSystem) : UploadAction → Option UploadSystem
  | .link event => (system.link.step event).map fun link => { system with link }
  | .worker index size => system.moveWorker index size
  | .begin turns => system.nextAttempt context localPath remoteName turns

/-- A step while the connection is left alone. -/
def calmStep (context : ServerContext) (localPath : CString) (remoteName : Option CString)
    (system : UploadSystem) : UploadAction → Option UploadSystem
  | .link (.cut _ _) | .begin _ => none
  | action => system.step context localPath remoteName action

/-- An attempt begins when the threads of all earlier ones have ended. -/
def Admitted (system : UploadSystem) : UploadAction → Prop
  | .begin _ => system.link.right.program.result.isSome ∧
      ∀ worker ∈ system.workers, worker.program.result.isSome
  | _ => True

end UploadSystem

section Systems
variable {context : ServerContext} {localPath : CString}
  {remoteName : Option CString} {whole : Bytes}
  {client server : FileSystem} {system next : UploadSystem}

/-- The client's side of the attempts at an upload. -/
def uploadingClient (client : FileSystem) : Contract UInt8 FileSystem ErrorCode :=
  ⟨(· = client), Ends (Returns .success client), fun _ after => after = client⟩

/-- The server's side of the attempts to upload `whole` under a name. -/
def receivingServer (context : ServerContext) (name : CString) (whole : Bytes) :
    Contract UInt8 FileSystem Unit :=
  ⟨Beginning (context.filepath name) whole, Uploaded context name whole,
    fun _ after => Beginning (context.filepath name) whole after⟩

/-- The latest connection keeps to its dialogue and no earlier thread is left. -/
structure UploadSystem.Orderly (context : ServerContext) (name : CString) (whole : Bytes)
    (client : FileSystem) (system : UploadSystem) : Prop where
  kept : Link.Kept (uploadingClient client) (receivingServer context name whole) system.link
  ended : ∀ worker ∈ system.workers, worker.program.result.isSome

namespace UploadSystem.Orderly

theorem start {name : CString} (held : Beginning (context.filepath name) whole server) :
    (UploadSystem.start client server).Orderly context name whole client := by
  refine ⟨.inr ⟨rfl, .inr ⟨rfl, rfl, rfl⟩, .inr ⟨rfl, held, held⟩⟩, ?_⟩
  intro worker member
  cases member

theorem no_worker {name : CString} (orderly : system.Orderly context name whole client)
    (index : Nat) (size : Option Nat) : system.moveWorker index size = none := by
  unfold UploadSystem.moveWorker
  cases found : system.workers[index]? with
  | none => rfl
  | some worker =>
    obtain ⟨value, returned⟩ :=
      Option.isSome_iff_exists.mp (orderly.ended worker (List.mem_of_getElem? found))
    have stopped : worker.program = .done value := result_eq_some.mp returned
    simp [stopped, End.move]

theorem begins (plain : PlainName (remoteName.getD (basename localPath)))
    (size : whole.length < 2 ^ 32) (source : client.At localPath.bytes (some whole))
    (orderly : system.Orderly context (remoteName.getD (basename localPath)) whole client)
    {turns : Nat} (admitted : system.Admitted (.begin turns))
    (begun : system.nextAttempt context localPath remoteName turns = some next) :
    next.Orderly context (remoteName.getD (basename localPath)) whole client ∧
      Link.Synced (uploadingClient client)
        (receivingServer context (remoteName.getD (basename localPath)) whole)
        next.link := by
  obtain ⟨ended, all⟩ := admitted
  obtain ⟨unchanged, beginning⟩ := orderly.kept.holds
  obtain ⟨⟨left, right, up⟩, workers⟩ := system
  obtain ⟨_, same⟩ := Option.ite_none_right_eq_some.mp begun
  cases same
  obtain rfl : left.state = client := unchanged
  obtain ⟨dialogue, clientFollows, serverFollows⟩ :=
    uploadResume_dialogue plain.short plain.accepted size source beginning turns
  have synced := Link.synced_start clientFollows serverFollows
  refine ⟨⟨.inl synced, ?_⟩, synced⟩
  intro worker member
  rcases List.mem_append.mp member with earlier | last
  · exact all worker earlier
  · obtain rfl := List.mem_singleton.mp last
    exact ended

theorem step (plain : PlainName (remoteName.getD (basename localPath)))
    (size : whole.length < 2 ^ 32) (source : client.At localPath.bytes (some whole))
    (orderly : system.Orderly context (remoteName.getD (basename localPath)) whole client)
    {action : UploadAction} (admitted : system.Admitted action)
    (stepped : system.step context localPath remoteName action = some next) :
    next.Orderly context (remoteName.getD (basename localPath)) whole client := by
  cases action with
  | link event =>
    obtain ⟨link, moved, rfl⟩ := Option.map_eq_some_iff.mp stepped
    exact ⟨orderly.kept.step moved, orderly.ended⟩
  | worker index size =>
    have stuck := orderly.no_worker index size
    cases stuck.symm.trans stepped
  | begin turns => exact (begins plain size source orderly admitted stepped).1

/-- Without earlier threads only the connection moves. -/
theorem inevitable {name : CString} {goal : Link UInt8 FileSystem ErrorCode FileSystem Unit → Prop}
    (orderly : system.Orderly context name whole client)
    (reaches : Inevitable Link.advance goal system.link) :
    Inevitable (UploadSystem.calmStep context localPath remoteName)
      (fun final => goal final.link) system := by
  generalize same : system.link = link at reaches
  induction reaches generalizing system with
  | here reached =>
    subst same
    exact .here reached
  | later enabled _ ih =>
    subst same
    obtain ⟨choice, link, moved⟩ := enabled
    refine .later ⟨.link (.move choice.1 choice.2), { system with link }, ?_⟩ ?_
    · exact Option.map_eq_some_iff.mpr ⟨link, moved, rfl⟩
    · intro action next stepped
      cases action with
      | link event =>
        cases event with
        | move isLeft size =>
          obtain ⟨after, ends, rfl⟩ := Option.map_eq_some_iff.mp stepped
          have moved : system.link.step (.move isLeft size) = some after := ends
          have still : UploadSystem.Orderly context name whole client
              { system with link := after } :=
            ⟨orderly.kept.step moved, orderly.ended⟩
          exact ih (isLeft, size) after ends still rfl
        | cut toLeft toRight => cases stepped
      | worker index size =>
        have stuck := orderly.no_worker index size
        cases stuck.symm.trans stepped
      | begin turns => cases stepped

end UploadSystem.Orderly

/-- However often a resumed upload is cut and wherever, as long as each attempt begins when the
server's threads of the ones before have ended: the server has a beginning of the local file
or none, the local file stays, and an attempt that is left alone completes the upload. -/
theorem upload_resumes (localPath : CString) (remoteName : Option CString)
    (plain : PlainName (remoteName.getD (basename localPath))) (size : whole.length < 2 ^ 32)
    (source : client.At localPath.bytes (some whole))
    (start : Beginning (context.filepath (remoteName.getD (basename localPath))) whole server)
    (reached : Machine.Arrives (UploadSystem.step context localPath remoteName) UploadSystem.Admitted
      (UploadSystem.start client server) system) :
    (system.link.right.state.files (context.filepath (remoteName.getD (basename localPath))) =
      none ∨
      ∃ stored,
        system.link.right.state.files (context.filepath (remoteName.getD (basename localPath))) =
          some stored ∧
        stored <+: whole) ∧
    system.link.left.state = client ∧
    ∀ turns begun, system.Admitted (.begin turns) →
      system.step context localPath remoteName (.begin turns) = some begun →
      Inevitable (UploadSystem.calmStep context localPath remoteName)
        (fun final => (∃ left, MessageBoundary context left final.link) ∧
          final.link.right.state.files (context.filepath (remoteName.getD (basename localPath))) =
            some whole)
        begun := by
  have orderly : system.Orderly context (remoteName.getD (basename localPath)) whole client := by
    refine reached.keeps (.start start) ?_
    intro state action next holds admitted stepped
    exact holds.step plain size source admitted stepped
  obtain ⟨unchanged, beginning⟩ := orderly.kept.holds
  refine ⟨Beginning.absent_or beginning, unchanged, ?_⟩
  intro turns begun admitted stepped
  obtain ⟨still, synced⟩ := orderly.begins plain size source admitted stepped
  have reaches : Inevitable Link.advance
      (fun link => (∃ left, MessageBoundary context left link) ∧
        link.right.state.files (context.filepath (remoteName.getD (basename localPath))) =
          some whole)
      begun.link := by
    apply synced.settles.mono
    intro final settled
    obtain ⟨up, leftEmpty, rightEmpty, ⟨code, finished, rfl, _⟩, left, looping, complete⟩ := settled
    exact ⟨⟨left, finished, looping, leftEmpty, rightEmpty, up⟩, complete.file⟩
  exact still.inevitable reaches

end Systems

section Small

/-- A move of the client. -/
def UploadAction.client (size : Option Nat) : UploadAction := .link (.move true size)

/-- A move of the server's thread on the same connection. -/
def UploadAction.thread (size : Option Nat) : UploadAction := .link (.move false size)

/-- A first upload of three bytes, whose connection breaks when the thread has stored one. -/
def brokenUpload : List UploadAction :=
  [.begin 0, .client none, .client (some 280), .thread (some 280), .thread none, .thread (some 264),
    .client (some 264), .client (some 280), .thread (some 280), .thread none, .client (some 3),
    .thread (some 1), .thread none, .link (.cut 0 0), .client none]

/-- The thread of the broken connection finds out and ends. -/
def threadEnds : List UploadAction := [.thread none, .thread none]

/-- The next attempt up to the thread's last response. -/
def restOfUpload : List UploadAction :=
  [.client none, .client (some 280), .thread (some 280), .thread none,
    .thread (some 264), .thread (some 1),
    .client (some 264), .client (some 1), .client (some 280), .client (some 2), .thread (some 280),
    .thread none, .thread (some 2), .thread none, .thread (some 264)]

/-- The first thread finds out that its connection is down and removes the file. -/
def oldThreadEnds : List UploadAction := [.worker 1 none, .worker 1 none]

/-- The file [1, 2, 3] and a server without it. -/
def UploadSystem.small : UploadSystem :=
  .start (singleFile smallName.bytes [1, 2, 3]) (singleFile [] [])

theorem upload_resumes_small :
    PlainName smallName ∧ ∃ system begun,
      follow (UploadSystem.step smallContext smallName (some smallName)) .small
        (brokenUpload ++ threadEnds) =
        some system ∧
      system.step smallContext smallName (some smallName) (.begin 0) = some begun ∧
      Inevitable (UploadSystem.calmStep smallContext smallName (some smallName))
        (fun final => (∃ left, MessageBoundary smallContext left final.link) ∧
          final.link.right.state.files (smallContext.filepath smallName) = some [1, 2, 3])
        begun := by
  have enabled :
      ((UploadSystem.small.step smallContext smallName (some smallName) (.begin 0)).bind fun first =>
        (follow (UploadSystem.step smallContext smallName (some smallName)) first
          (brokenUpload.tail ++ threadEnds)).bind fun system =>
            (system.step smallContext smallName (some smallName) (.begin 0)).bind fun _ =>
              if system.link.right.program.result.isSome ∧
                ∀ worker ∈ system.workers, worker.program.result.isSome then some ()
              else none).isSome = true := by
    decide +kernel
  obtain ⟨_, all⟩ := Option.isSome_iff_exists.mp enabled
  obtain ⟨first, starts, all⟩ := Option.bind_eq_some_iff.mp all
  obtain ⟨system, ran, all⟩ := Option.bind_eq_some_iff.mp all
  obtain ⟨begun, begins, all⟩ := Option.bind_eq_some_iff.mp all
  split at all
  · rename_i ended
    have fresh : UploadSystem.small.Admitted (.begin 0) := by
      refine ⟨rfl, ?_⟩
      intro worker member
      cases member
    have reached : Machine.Arrives (UploadSystem.step smallContext smallName (some smallName))
        UploadSystem.Admitted
        UploadSystem.small system := by
      refine (Machine.Arrives.start.next (.begin 0) fresh starts).follow ?_ ran
      intro action member state
      have alone : ∀ action ∈ brokenUpload.tail ++ threadEnds, ∃ event, action = .link event := by
        simp [brokenUpload, threadEnds, UploadAction.client, UploadAction.thread]
      obtain ⟨event, rfl⟩ := alone action member
      trivial
    obtain ⟨_, _, completes⟩ :=
      upload_resumes smallName (some smallName) smallName_plain (by decide)
      (singleFile_at _ _) (.of_absent _ (singleFile_lacks (by decide))) reached
    refine ⟨smallName_plain, system, begun, ?_, begins, completes 0 begun ended begins⟩
    exact Option.bind_eq_some_iff.mpr ⟨first, starts, ran⟩
  · cases all

/-- The second attempt is not disturbed and returns success. The thread of the first one, which
was a new upload, has removed the file. -/
theorem old_thread_removes_upload :
    ∃ system begun final,
      follow (UploadSystem.step smallContext smallName (some smallName)) .small brokenUpload =
        some system ∧
      system.step smallContext smallName (some smallName) (.begin 0) = some begun ∧
      follow (UploadSystem.calmStep smallContext smallName (some smallName)) begun
        (restOfUpload ++ oldThreadEnds ++ [.client (some 264)]) = some final ∧
      final.link.left.program = .done .success ∧ final.link.up = true ∧
      final.link.left.inbox = [] ∧ final.link.right.inbox = [] ∧
      final.link.right.state.files (smallContext.filepath smallName) = none := by
  have enabled :
      ((follow (UploadSystem.step smallContext smallName (some smallName)) .small
        brokenUpload).bind fun system =>
          (system.step smallContext smallName (some smallName) (.begin 0)).bind fun begun =>
            (follow (UploadSystem.calmStep smallContext smallName (some smallName)) begun
              (restOfUpload ++ oldThreadEnds ++ [.client (some 264)])).bind fun final =>
                if final.link.left.program.result = some .success ∧ final.link.up = true ∧
                  final.link.left.inbox = [] ∧ final.link.right.inbox = [] ∧
                  final.link.right.state.files (smallContext.filepath smallName) = none then
                    some ()
                else none).isSome = true := by
    decide +kernel
  obtain ⟨_, all⟩ := Option.isSome_iff_exists.mp enabled
  obtain ⟨system, ran, all⟩ := Option.bind_eq_some_iff.mp all
  obtain ⟨begun, begins, all⟩ := Option.bind_eq_some_iff.mp all
  obtain ⟨final, calm, all⟩ := Option.bind_eq_some_iff.mp all
  split at all
  · rename_i ends
    obtain ⟨returned, up, leftEmpty, rightEmpty, missing⟩ := ends
    exact ⟨system, begun, final, ran, begins, calm, Proc.result_eq_some.mp returned, up,
      leftEmpty, rightEmpty,
      missing⟩
  · cases all

end Small

end LinuxCLearning.FileServer
