import Mathlib
import LinuxCLearning.Base.Bytes

/-! The file calls that the server and the client make. A file system carries
the outcomes of the coming `open` and `write` calls, so that every failure is a
state to start from; calls past the given outcomes succeed. -/

namespace LinuxCLearning.FileServer

/-- What a `write` does: store everything, or report a failure after storing at
most so many bytes. -/
inductive WriteOutcome where
  | full
  | fails (stored : Nat)
  deriving DecidableEq

/-- Regular files by path, directories by path with the size `stat` gives them, and
the paths in the order in which `readdir` lists them. -/
structure FileSystem where
  files : Bytes → Option Bytes
  directories : Bytes → Option Nat
  listed : List Bytes
  openOutcomes : List Bool
  writeOutcomes : List WriteOutcome

/-- The content after a `write` at a position: a gap before it is filled with zeros. -/
def writeAt (content : Bytes) (position : Nat) (data : Bytes) : Bytes :=
  content.take position ++ List.replicate (position - content.length) 0 ++ data ++
    content.drop (position + data.length)

namespace FileSystem

def setFile (system : FileSystem) (path content : Bytes) : FileSystem :=
  { system with
    files := Function.update system.files path (some content)
    listed := if path ∈ system.listed then system.listed else system.listed ++ [path] }

/-- The `st_size` of a regular file or a directory. -/
def stat (system : FileSystem) (path : Bytes) : Option Nat :=
  match system.files path with
  | some content => some content.length
  | none => system.directories path

/-- `open(path, O_RDONLY)` and `fstat`: the size and the bytes that `read` will
return, none for a directory. -/
def openRead (path : Bytes) (system : FileSystem) : Option (Nat × Bytes) × FileSystem :=
  let found := (system.stat path).map fun size => (size, (system.files path).getD [])
  (if system.openOutcomes.headD true then found else none,
    { system with openOutcomes := system.openOutcomes.tail })

/-- `open(path, O_WRONLY | O_CREAT)`, with `O_TRUNC` when `truncate`. -/
def openWrite (path : Bytes) (truncate : Bool) (system : FileSystem) : Bool × FileSystem :=
  let called := { system with openOutcomes := system.openOutcomes.tail }
  if system.openOutcomes.headD true = true ∧ system.directories path = none then
    (true, called.setFile path (if truncate then [] else (system.files path).getD []))
  else (false, called)

/-- `write` to an open file at a position: whether it returned the full length. -/
def writeFile (path : Bytes) (position : Nat) (data : Bytes) (system : FileSystem) :
    Bool × FileSystem :=
  let called := { system with writeOutcomes := system.writeOutcomes.tail }
  let content := (system.files path).getD []
  match system.writeOutcomes.headD .full with
  | .full => (true, called.setFile path (writeAt content position data))
  | .fails stored =>
    (false, called.setFile path
      (writeAt content position (data.take (min stored (data.length - 1)))))

/-- `unlink`: whether there was a file. -/
def unlink (path : Bytes) (system : FileSystem) : Bool × FileSystem :=
  if (system.files path).isSome then
    (true, { system with
      files := Function.update system.files path none
      listed := system.listed.erase path })
  else (false, system)

/-- The names in a directory. -/
def readdir (system : FileSystem) (directory : Bytes) : List Bytes :=
  system.listed.filterMap fun path =>
    let name := path.drop (directory.length + 1)
    if path = directory ++ text "/" ++ name ∧ ¬ text "/" <:+: name then some name else none

/-- `mkdir`: the error number of a failure. -/
def mkdir (path : Bytes) (system : FileSystem) : Option Nat × FileSystem :=
  if (system.stat path).isSome then (some 17, system)
  else (none, { system with
    directories := Function.update system.directories path (some 4096)
    listed := system.listed ++ [path] })

/-- `rmdir`: the error number of a failure. -/
def rmdir (path : Bytes) (system : FileSystem) : Option Nat × FileSystem :=
  if (system.files path).isSome then (some 20, system)
  else if (system.directories path).isNone then (some 2, system)
  else if system.readdir path ≠ [] then (some 39, system)
  else (none, { system with
    directories := Function.update system.directories path none
    listed := system.listed.erase path })

section Outcomes
variable {system : FileSystem} {path : Bytes}

theorem writeFile_outcomes (position : Nat) (data : Bytes) :
    (writeFile path position data system).2.writeOutcomes = system.writeOutcomes.tail := by
  rw [writeFile]
  cases system.writeOutcomes.headD .full <;> rfl

theorem writeFile_full (full : system.writeOutcomes.headD .full = .full) (position : Nat)
    (data : Bytes) : (writeFile path position data system).1 = true := by
  rw [writeFile, full]

theorem writeFile_fails {stored : Nat} (fails : system.writeOutcomes.headD .full = .fails stored)
    (position : Nat) (data : Bytes) : (writeFile path position data system).1 = false := by
  rw [writeFile, fails]

theorem openWrite_outcomes (truncate : Bool) :
    (openWrite path truncate system).2.writeOutcomes = system.writeOutcomes := by
  rw [openWrite]
  split_ifs <;> rfl

end Outcomes

/-- No failure is to come, and the path is a file with this content or is absent. -/
structure At (path : Bytes) (content : Option Bytes) (system : FileSystem) : Prop where
  opens : system.openOutcomes = []
  writes : system.writeOutcomes = []
  regular : system.directories path = none
  file : system.files path = content

namespace At
variable {path : Bytes} {content : Option Bytes} {system : FileSystem}

theorem setFile (held : At path content system) (new : Bytes) :
    At path (some new) (system.setFile path new) :=
  ⟨held.opens, held.writes, held.regular, by simp [FileSystem.setFile]⟩

theorem stat (held : At path content system) : system.stat path = content.map List.length := by
  rw [FileSystem.stat, held.file, held.regular]
  cases content <;> rfl

theorem openRead (held : At path content system) :
    openRead path system = (content.map fun bytes => (bytes.length, bytes), system) := by
  obtain ⟨opens, writes, regular, file⟩ := held
  obtain ⟨files, directories, listed, openOutcomes, writeOutcomes⟩ := system
  simp only at opens regular file
  simp only [FileSystem.openRead, FileSystem.stat, file, opens, regular]
  cases content <;> rfl

theorem openWrite (held : At path content system) (truncate : Bool) :
    (openWrite path truncate system).1 = true ∧
      At path (some (if truncate then [] else content.getD []))
        (openWrite path truncate system).2 := by
  obtain ⟨opens, writes, regular, file⟩ := held
  simp only [FileSystem.openWrite, opens, regular, file]
  refine ⟨rfl, ?_⟩
  have called : At path content { system with openOutcomes := [].tail } :=
    ⟨rfl, writes, regular, file⟩
  exact called.setFile _

theorem writeFile {bytes : Bytes} (held : At path (some bytes) system) (data : Bytes) :
    (writeFile path bytes.length data system).1 = true ∧
      At path (some (bytes ++ data)) (writeFile path bytes.length data system).2 := by
  obtain ⟨opens, writes, regular, file⟩ := held
  have appended : writeAt bytes bytes.length data = bytes ++ data := by
    simp [writeAt]
  simp only [FileSystem.writeFile, writes, file, Option.getD_some, List.headD_nil, appended]
  refine ⟨trivial, ?_⟩
  have called : At path (some bytes) { system with writeOutcomes := [].tail } :=
    ⟨opens, rfl, regular, file⟩
  exact called.setFile _

theorem unlink (held : At path content system) : At path none (unlink path system).2 := by
  obtain ⟨opens, writes, regular, file⟩ := held
  cases content with
  | none =>
    simpa [FileSystem.unlink, file] using (⟨opens, writes, regular, file⟩ : At path none system)
  | some bytes =>
    simp only [FileSystem.unlink, file, Option.isSome_some, if_pos]
    exact ⟨opens, writes, regular, by simp⟩

end At

end FileSystem

end LinuxCLearning.FileServer
