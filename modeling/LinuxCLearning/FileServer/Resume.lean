import LinuxCLearning.FileServer.RoundTrip

/-! Downloads that are interrupted and taken up again. Each attempt has a
connection of its own, which may be cut at any byte in either direction. -/

namespace LinuxCLearning.FileServer
open Proc Machine

/-- What happens to the connection of an attempt, and how many more requests the
server would serve on it. -/
structure Attempt where
  events : List Link.Event
  turns : Nat

/-- The file systems of client and server after an attempt with a client program that
makes so many requests. What the server's thread still does behind a cut is left out: while
it sends a file it changes none. -/
def Attempt.leaves (attempt : Attempt) (program : Handler ErrorCode) (requests : Nat)
    (context : ServerContext) (systems : FileSystem × FileSystem) :
    Option (FileSystem × FileSystem) :=
  (follow Link.step
    (connect program systems.1 context (attempt.turns + requests) systems.2) attempt.events).map
      fun final => (final.left.state, final.right.state)

/-- An attempt keeps what the two programs promise, wherever its connection is cut. -/
theorem Attempt.leaves_keeps {attempt : Attempt} {program : Handler ErrorCode} {requests : Nat}
    {context : ServerContext} {systems left : FileSystem × FileSystem}
    {always always' : FileSystem → Prop} {rest : Handler ErrorCode → FileSystem → Prop}
    {rest' : Handler Unit → FileSystem → Prop} {dead : ErrorCode → FileSystem → Prop}
    {dead' : Unit → FileSystem → Prop} {dialogue : List (Mark UInt8)}
    (client : Follows always rest dead program systems.1 dialogue)
    (server : Follows always' rest' dead' (serverHandleClient context (attempt.turns + requests))
      systems.2 (dialogue.map Mark.dual))
    (leaves : attempt.leaves program requests context systems = some left) :
    always left.1 ∧ always' left.2 := by
  obtain ⟨final, ran, rfl⟩ := Option.map_eq_some_iff.mp leaves
  exact Link.dialogue_keeps client server ran

/-- The file is absent or holds a beginning of `whole`. -/
def Beginning (path whole : Bytes) (state : FileSystem) : Prop :=
  ∃ old : Option Bytes, state.At path old ∧ old.getD [] <+: whole

theorem Beginning.of_stored {path whole stored : Bytes} {state : FileSystem}
    (inside : stored <+: whole) (file : state.At path (some stored)) : Beginning path whole state :=
  ⟨some stored, file, inside⟩

theorem Beginning.of_absent {path : Bytes} (whole : Bytes) {state : FileSystem}
    (file : state.At path none) : Beginning path whole state :=
  ⟨none, file, List.nil_prefix⟩

theorem Beginning.absent_or {path whole : Bytes} {state : FileSystem}
    (beginning : Beginning path whole state) :
    state.files path = none ∨ ∃ stored, state.files path = some stored ∧ stored <+: whole := by
  obtain ⟨old, file, inside⟩ := beginning
  cases old with
  | none => exact .inl file.file
  | some stored => exact .inr ⟨stored, file.file, inside⟩

section Downloads
variable {context : ServerContext} {name : CString} {target : Option CString} {content : Bytes}
  {client server : FileSystem}

/-- What one download attempt does on both sides, from any state in which the local
file is absent or a beginning of the content. -/
theorem downloadResume_dialogue (short : name.length ≤ 255) (accepted : refusedName name = false)
    (size : content.length < 2 ^ 32) (remote : server.At (context.filepath name) (some content))
    (held : Beginning (target.getD name).bytes content client) (turns : Nat) :
    ∃ dialogue,
      Follows (Beginning (target.getD name).bytes content)
        (Ends fun result after => result = .success ∧
          after.At (target.getD name).bytes (some content))
        (fun _ after => Beginning (target.getD name).bytes content after)
        (clientDownloadResume name target) client dialogue ∧
      Follows (· = server) (Between context turns (· = server)) (fun _ after => after = server)
        (serverHandleClient context (turns + 1)) server (dialogue.map Mark.dual) := by
  obtain ⟨old, file, inside⟩ := id held
  have shorter : (old.getD []).length ≤ content.length := inside.length_le
  have offset : (UInt64.ofNat (old.getD []).length).toNat = (old.getD []).length :=
    UInt64.toNat_ofNat_of_lt' ((shorter.trans_lt size).trans (by decide))
  refine ⟨_, clientDownloadResume_follows held name file inside
    (fun stored state inside file => .of_stored inside file) size, ?_⟩
  have served := serverHandleClient_download (· = server) rfl short accepted remote
    (offset.trans_le shorter) size turns
  simpa [offset] using served

theorem downloadFile_dialogue (short : name.length ≤ 255) (accepted : refusedName name = false)
    (size : content.length < 2 ^ 32) (remote : server.At (context.filepath name) (some content))
    (held : Beginning (target.getD name).bytes content client) (turns : Nat) :
    ∃ dialogue,
      Follows (Beginning (target.getD name).bytes content)
        (Ends fun result after => result = .success ∧
          after.At (target.getD name).bytes (some content))
        (fun _ after => Beginning (target.getD name).bytes content after)
        (clientDownloadFile name target) client dialogue ∧
      Follows (· = server) (Between context turns (· = server)) (fun _ after => after = server)
        (serverHandleClient context (turns + 1)) server (dialogue.map Mark.dual) := by
  obtain ⟨old, file, inside⟩ := id held
  refine ⟨_, clientDownloadFile_follows held name file
    (fun stored state inside file => .of_stored inside file) size, ?_⟩
  have served := serverHandleClient_download (· = server) rfl short accepted remote
    (show (0 : UInt64).toNat ≤ content.length from Nat.zero_le _) size turns
  simpa using served

/-- A download attempt: from the start, or resumed where the local file ends. -/
def downloadAttempt (context : ServerContext) (name : CString) (target : Option CString)
    (systems : FileSystem × FileSystem) (action : Bool × Attempt) :
    Option (FileSystem × FileSystem) :=
  action.2.leaves
    (if action.1 then clientDownloadResume name target else clientDownloadFile name target) 1
      context
    systems

/-- Every download attempt keeps the server's file and leaves a beginning of it. -/
theorem downloadAttempt_keeps (short : name.length ≤ 255) (accepted : refusedName name = false)
    (size : content.length < 2 ^ 32) (remote : server.At (context.filepath name) (some content))
    {systems left : FileSystem × FileSystem} {action : Bool × Attempt}
    (held : Beginning (target.getD name).bytes content systems.1 ∧ systems.2 = server)
    (leaves : downloadAttempt context name target systems action = some left) :
    Beginning (target.getD name).bytes content left.1 ∧ left.2 = server := by
  obtain ⟨client, current⟩ := systems
  obtain ⟨beginning, rfl⟩ : _ ∧ current = server := held
  obtain ⟨resume, attempt⟩ := action
  cases resume with
  | true =>
    obtain ⟨dialogue, clientFollows, serverFollows⟩ :=
      downloadResume_dialogue short accepted size remote beginning attempt.turns
    exact Attempt.leaves_keeps clientFollows serverFollows leaves
  | false =>
    obtain ⟨dialogue, clientFollows, serverFollows⟩ :=
      downloadFile_dialogue short accepted size remote beginning attempt.turns
    exact Attempt.leaves_keeps clientFollows serverFollows leaves

/-- However often a download is cut and wherever, what is there is a beginning of the
server's file, and a resumed download that is left alone completes it. -/
theorem download_resumes {attempts : List (Bool × Attempt)} {client' server' : FileSystem}
    (plain : PlainName name) (size : content.length < 2 ^ 32)
    (remote : server.At (context.filepath name) (some content))
    (fresh : client.At (target.getD name).bytes none)
    (ran : follow (downloadAttempt context name target) (client, server) attempts =
      some (client', server')) :
    (client'.files (target.getD name).bytes = none ∨
      ∃ stored, client'.files (target.getD name).bytes = some stored ∧ stored <+: content) ∧
    ∀ turns, Inevitable Link.advance
      (fun final => MessageBoundary context turns final ∧
        final.left.state.files (target.getD name).bytes = some content)
      (connect (clientDownloadResume name target) client' context (turns + 1) server') := by
  have keeps : ∀ systems action left,
      Beginning (target.getD name).bytes content systems.1 ∧ systems.2 = server →
      downloadAttempt context name target systems action = some left →
      Beginning (target.getD name).bytes content left.1 ∧ left.2 = server :=
    fun _ _ _ held leaves =>
      downloadAttempt_keeps plain.short plain.accepted size remote held leaves
  obtain ⟨beginning, unchanged⟩ := follow_keeps keeps ⟨.of_absent content fresh, rfl⟩ ran
  refine ⟨beginning.absent_or, ?_⟩
  intro turns
  obtain rfl : server' = server := unchanged
  obtain ⟨dialogue, clientFollows, serverFollows⟩ :=
    downloadResume_dialogue plain.short plain.accepted size remote beginning turns
  apply (Link.dialogue_settles clientFollows serverFollows).mono
  intro final settled
  obtain ⟨⟨code, finished, rfl, complete⟩, ⟨looping, _⟩, quiet⟩ := settled
  exact ⟨⟨finished, looping, quiet⟩, complete.file⟩

def cutOnce : Attempt := ⟨[.cut 0 0], 0⟩

/-- A download that is cut at once and one that is cut after the request. -/
theorem download_resumes_small :
    PlainName smallName ∧
    ∃ client server,
      follow (downloadAttempt smallContext smallName none)
        (singleFile [] [], singleFile (smallContext.filepath smallName) [1, 2, 3])
        [(false, cutOnce), (true, ⟨[.move true none, .move true (some 280), .cut 0 100], 0⟩)] =
          some (client, server) ∧
      (client.files smallName.bytes = none ∨
        ∃ stored, client.files smallName.bytes = some stored ∧ stored <+: [1, 2, 3]) ∧
      Inevitable Link.advance
        (fun final => MessageBoundary smallContext 0 final ∧
          final.left.state.files smallName.bytes = some [1, 2, 3])
        (connect (clientDownloadResume smallName none) client smallContext 1 server) := by
  have finishes : (follow (downloadAttempt smallContext smallName none)
      (singleFile [] [], singleFile (smallContext.filepath smallName) [1, 2, 3])
      [(false, cutOnce), (true,
          ⟨[.move true none, .move true (some 280), .cut 0 100], 0⟩)]).isSome := by
    decide +kernel
  obtain ⟨⟨client, server⟩, ran⟩ := Option.isSome_iff_exists.mp finishes
  have result := download_resumes smallName_plain (by decide) (singleFile_at _ _)
    (singleFile_lacks (by decide)) ran
  exact ⟨smallName_plain, client, server, ran, result.1, result.2 0⟩

end Downloads

end LinuxCLearning.FileServer
