import LinuxCLearning.LogSystem.FileTarget

/-! The threads of the log system around `g_log.mutex`. Every access to what the
threads share is one step; a thread at a lock of the mutex waits until no thread
holds it. The ring of the asynchronous mode is behind a lock of its own, and each
of its sections is one step. -/

namespace LinuxCLearning.LogSystem

/-- Where a thread stands: outside the logger, at the lock of `log_write`, at
`ring_buffer_push`, at `ring_buffer_pop`, in one of the stages of the output, or in
`log_rotate`, which goes back to `output_file` when it comes with a line. -/
inductive Place where
  | idle
  | entering (entry : LogEntry)
  | pushing (entry : LogEntry)
  | popping
  | console (entry : LogEntry)
  | file (entry : LogEntry)
  | measuring (line : Bytes)
  | rotating (back : Option Bytes)
  | relocking (back : Option Bytes)
  | closing (back : Option Bytes)
  | reopening (back : Option Bytes)
  | releasing (back : Option Bytes)
  | appending (line : Bytes)
  | callback
  | counting
  | unlocking
  deriving DecidableEq

/-- Where `log_rotate` goes back to. -/
def Place.resumed : Option Bytes → Place
  | none => .idle
  | some line => .appending line

/-- A thread and the `log_write` calls it still has to make inside `log_hexdump`. -/
structure LogThread where
  place : Place
  pending : List WriteCall

/-- The log system in a running process. -/
structure LogProcess where
  log : GLog
  mutex : Option Nat
  ring : Ring LogEntry
  threads : List LogThread

/-- The calls of a program, with the clock and the thread number they see. -/
inductive LogRequest where
  | write (call : WriteCall)
  | writeVa (call : WriteCall)
  | hexdump (level : LogLevel) (data : Bytes) (label : CString)
      (clock : Nat → UInt64) (tid : UInt32)
  | rotate

/-- What a step reads from outside: the date and the outcome of `fopen`. -/
structure Outside where
  date : Tm
  opens : Bool

/-- A step of a thread: a new call, or the next step of the one it is in. -/
inductive LogStep where
  | request (index : Nat) (request : LogRequest)
  | advance (index : Nat) (outside : Outside)

/-- The thread of a step. -/
def LogStep.index : LogStep → Nat
  | .request index _ => index
  | .advance index _ => index

/-- `log_write` up to its first lock. -/
def GLog.writePlace (log : GLog) (call : WriteCall) : Place :=
  if call.level.code < log.config.level.code then .idle
  else if log.config.asyncMode then .pushing call.entry
  else .entering call.entry

/-- The `log_write` calls of `log_hexdump`. -/
def hexdumpCalls (level : LogLevel) (data : Bytes) (label : CString) (clock : Nat → UInt64)
    (tid : UInt32) : Option (List WriteCall) :=
  (hexdumpLines label data).map fun lines => lines.zipIdx.map fun (line, position) =>
    { level
      file := .ofBuffer (text "src/log.c")
      line := if position = 0 then 523 else 549
      func := .ofBuffer (text "log_hexdump")
      formatted := .ofBuffer line
      timestamp := clock position
      tid }

/-- A call of the log system by a thread outside it. -/
def GLog.start (log : GLog) : LogRequest → Option LogThread
  | .write call => some ⟨log.writePlace call, []⟩
  | .writeVa call => some ⟨log.writePlace call, []⟩
  | .hexdump level data label clock tid =>
    if level.code < log.config.level.code then some ⟨.idle, []⟩
    else (hexdumpCalls level data label clock tid).map (⟨.idle, ·⟩)
  | .rotate => some ⟨.rotating none, []⟩

namespace LogProcess

def put (process : LogProcess) (index : Nat) (thread : LogThread) : LogProcess :=
  { process with threads := process.threads.set index thread }

/-- The output stages that read nothing but the configuration and the entry. -/
def outputConsole (localtime : Nat → Tm) (log : GLog) (entry : LogEntry) : Option Place :=
  if hasFlag log.config.targets targetConsole then
    (formatEntry localtime log.config.format 4096 entry).map fun _ => .file entry
  else some (.file entry)

/-- `output_file` up to the test of the size. -/
def outputFile (localtime : Nat → Tm) (log : GLog) (entry : LogEntry) : Option Place :=
  if hasFlag log.config.targets targetFile && log.logFile.isSome then
    (formatEntry localtime log.config.format 4096 entry).map .measuring
  else some .callback

/-- The next step of a thread inside the log system, `none` when it has to wait or the
process ends. -/
def advance (localtime : Nat → Tm) (process : LogProcess) (index : Nat) (outside : Outside)
    (thread : LogThread) : Option LogProcess :=
  let moved (place : Place) : LogProcess := process.put index { thread with place }
  match thread.place with
  | .idle =>
    match thread.pending with
    | [] => none
    | call :: pending => some (process.put index ⟨process.log.writePlace call, pending⟩)
  | .entering entry =>
    if process.mutex = none then some { moved (.console entry) with mutex := some index } else none
  | .pushing entry =>
    if process.ring.count ≥ process.ring.capacity then none
    else some { moved .idle with ring := process.ring.push entry }
  | .popping =>
    if process.ring.count = 0 then none
    else some { moved (.console process.ring.front) with ring := process.ring.pop }
  | .console entry => (outputConsole localtime process.log entry).map moved
  | .file entry => (outputFile localtime process.log entry).map moved
  | .measuring line =>
    some (moved (if process.log.exceeds line then .rotating (some line) else .appending line))
  | .rotating back =>
    some (moved (if process.log.logFile = none then .resumed back else .relocking back))
  | .relocking back =>
    if process.mutex = none then some { moved (.closing back) with mutex := some index } else none
  | .closing back => some { moved (.reopening back) with log := process.log.closeForRotation }
  | .reopening back =>
    some { moved (.releasing back) with
      log := process.log.openLogFile outside.date outside.opens }
  | .releasing back => some { moved (.resumed back) with mutex := none }
  | .appending line =>
    (process.log.appendLine line).map fun log => { moved .callback with log }
  | .callback => some (moved .counting)
  | .counting =>
    some { moved (if process.log.config.asyncMode then .popping else .unlocking) with
      log := { process.log with totalEntries := process.log.totalEntries + 1 } }
  | .unlocking => some { moved .idle with mutex := none }

/-- The state after a step of a thread. -/
def step (localtime : Nat → Tm) (process : LogProcess) : LogStep → Option LogProcess
  | .request index request =>
    match process.threads[index]? with
    | some ⟨.idle, []⟩ => (process.log.start request).map (process.put index)
    | _ => none
  | .advance index outside =>
    process.threads[index]?.bind (process.advance localtime index outside)

/-- The thread is about to lock the mutex that it already holds. -/
def Relocks (process : LogProcess) (index : Nat) : Prop :=
  process.mutex = some index ∧ ∃ thread, process.threads[index]? = some thread ∧
    ((∃ entry, thread.place = .entering entry) ∨ ∃ back, thread.place = .relocking back)

/-- The thread of a step is not one that, under the mutex of a synchronous `log_write`,
finds its line too long for what is left of the open file. -/
def WritesFit (process : LogProcess) (action : LogStep) : Prop :=
  ∀ thread line, process.threads[action.index]? = some thread → thread.place = .measuring line →
    process.log.config.asyncMode = false → process.log.exceeds line = false

end LogProcess

/-- A process in which `log_init` has just returned 0: in asynchronous mode the
background thread stands behind the threads of the program. -/
def startProcess (log : GLog) (threads : Nat) : LogProcess where
  log
  mutex := none
  ring := .empty log.config.ringBufferSize blankEntry
  threads := List.replicate threads ⟨.idle, []⟩ ++ if log.config.asyncMode then
    [⟨.popping, []⟩] else []

end LinuxCLearning.LogSystem
