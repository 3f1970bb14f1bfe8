import LinuxCLearning.Base.Link
import LinuxCLearning.FileServer.ClientTransfers

/-! An upload and a download of the same file over one connection. -/

namespace LinuxCLearning.FileServer
open Proc Machine

/-- A client program and the server's loop at the two ends of a fresh connection. -/
def connect (program : Handler ErrorCode) (client : FileSystem) (context : ServerContext)
    (turns : Nat) (server : FileSystem) : Link UInt8 FileSystem ErrorCode FileSystem Unit :=
  ⟨⟨program, client, []⟩, ⟨serverHandleClient context turns, server, []⟩, true⟩

/-- The file names that the transfers are for. -/
structure PlainName (name : CString) : Prop where
  nonempty : name.bytes ≠ []
  short : name.length ≤ 255
  noSlash : ¬ text "/" <:+: name.bytes
  noDots : ¬ text ".." <:+: name.bytes
  notDot : name.bytes ≠ text "."

theorem PlainName.accepted {name : CString} (plain : PlainName name) :
    refusedName name = false := by
  simp [refusedName, plain.noSlash, plain.noDots]

/-- Both ends are between two requests: the client is done, the server is at the head
of its loop, and nothing is under way. -/
def MessageBoundary (context : ServerContext) (turns : Nat)
    (link : Link UInt8 FileSystem ErrorCode FileSystem Unit) : Prop :=
  link.left.program = .done .success ∧ link.right.program = serverHandleClient context turns ∧
    link.left.inbox = [] ∧ link.right.inbox = [] ∧ link.up = true

section RoundTrip
variable {context : ServerContext} {content : Bytes} {client server : FileSystem}

/-- What is sent arrives: the upload leaves the content under its name on the server
and a following download leaves it in the local file, for every way in which the
transport splits the bytes, with both ends between two messages after either. -/
theorem upload_then_download (localPath : CString) (remoteName target : Option CString)
    {old oldTarget : Option Bytes} (turns : Nat)
    (plain : PlainName (remoteName.getD (basename localPath))) (size : content.length < 2 ^ 32)
    (source : client.At localPath.bytes (some content))
    (local_file : client.At (target.getD (remoteName.getD (basename localPath))).bytes oldTarget)
    (remote_file : server.At (context.filepath (remoteName.getD (basename localPath))) old) :
    Inevitable Link.advance
      (fun uploaded => MessageBoundary context (turns + 1) uploaded ∧
        uploaded.right.state.files (context.filepath (remoteName.getD (basename localPath))) =
          some content ∧
        Inevitable Link.advance
          (fun downloaded => MessageBoundary context turns downloaded ∧
            downloaded.left.state.files (target.getD (remoteName.getD (basename localPath))).bytes =
              some content)
          (uploaded.proceed
            (clientDownloadFile (remoteName.getD (basename localPath)) target)))
      (connect (clientUploadFile localPath remoteName) client context (turns + 2) server) := by
  generalize named : remoteName.getD (basename localPath) = name at *
  have upload : Follows (fun _ => True) _ _ (clientUploadFile localPath remoteName) client _ :=
    clientUploadFile_follows trivial source remoteName
      (responseMessage .ok (text "File uploaded successfully"))
  have received : Follows (fun _ => True) _ _ (serverHandleClient context (turns + 2)) server _ :=
    serverHandleClient_follows (serverRequest_fresh trivial plain.short plain.accepted remote_file
      (fun _ _ _ _ => trivial) (fun _ _ => trivial) size) (fun _ _ => trivial) (turns + 1)
  rw [named] at upload
  apply (Link.dialogue_settles upload (by simpa using received)).mono
  intro uploaded settled
  obtain ⟨⟨code, finished, rfl, unchanged⟩, ⟨looping, stored⟩, quiet⟩ := settled
  refine ⟨⟨finished, looping, quiet⟩, stored.file, ?_⟩
  have download : Follows (fun _ => True) _ _ (clientDownloadFile name target)
      uploaded.left.state _ :=
    clientDownloadFile_follows trivial name (unchanged ▸ local_file) (fun _ _ _ _ => trivial) size
  have sent : Follows (fun _ => True) _ _ (serverHandleClient context (turns + 1))
      uploaded.right.state _ :=
    serverHandleClient_download _ trivial plain.short plain.accepted stored
      (show (0 : UInt64).toNat ≤ content.length from Nat.zero_le _) size turns
  obtain ⟨⟨clientProgram, clientState, clientInbox⟩, ⟨serverProgram, serverState, serverInbox⟩,
      up⟩ :=
    uploaded
  obtain ⟨rfl, rfl, rfl⟩ : clientInbox = [] ∧ serverInbox = [] ∧ up = true := quiet
  obtain rfl : serverProgram = serverHandleClient context (turns + 1) := looping
  apply (Link.dialogue_settles download (by simpa using sent)).mono
  intro downloaded settled
  obtain ⟨⟨code, finished, rfl, complete⟩, ⟨looping, _⟩, quiet⟩ := settled
  exact ⟨⟨finished, looping, quiet⟩, complete.file⟩

/-- A file system with a single file and no failures to come. -/
def singleFile (path content : Bytes) : FileSystem where
  files := fun other => if other = path then some content else none
  directories := fun _ => none
  listed := [path]
  openOutcomes := []
  writeOutcomes := []

theorem singleFile_at (path content : Bytes) : (singleFile path content).At path (some content) :=
  ⟨rfl, rfl, rfl, if_pos rfl⟩

theorem singleFile_lacks {path content other : Bytes} (different : other ≠ path) :
    (singleFile path content).At other none :=
  ⟨rfl, rfl, rfl, if_neg different⟩

def smallContext : ServerContext where
  sharedDir := ⟨text "shared", by decide⟩
  sharedDir_fits := by decide
  strerror := fun _ => []
  beyondHeader := []

def smallName : CString := ⟨text "a.txt", by decide⟩

theorem smallName_plain : PlainName smallName :=
  ⟨by decide, by decide, by decide, by decide, by decide⟩

theorem upload_then_download_small :
    PlainName smallName ∧
    Inevitable Link.advance
      (fun uploaded => MessageBoundary smallContext 1 uploaded ∧
        uploaded.right.state.files (smallContext.filepath smallName) = some [1, 2, 3] ∧
        Inevitable Link.advance
          (fun downloaded => MessageBoundary smallContext 0 downloaded ∧
            downloaded.left.state.files (text "copy") = some [1, 2, 3])
          (uploaded.proceed (clientDownloadFile smallName (some ⟨text "copy", by decide⟩))))
      (connect (clientUploadFile smallName (some smallName)) (singleFile smallName.bytes [1, 2, 3])
        smallContext 2 (singleFile (text "shared/a.txt") [9])) :=
  ⟨smallName_plain, upload_then_download smallName (some smallName)
    (some ⟨text "copy", by decide⟩) 0
    smallName_plain (by decide) (singleFile_at _ _) (singleFile_lacks (by decide))
    (singleFile_at _ _)⟩

end RoundTrip

end LinuxCLearning.FileServer
