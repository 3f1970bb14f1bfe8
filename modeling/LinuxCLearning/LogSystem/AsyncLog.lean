import LinuxCLearning.Base.Bytes
import LinuxCLearning.Base.Machine
import LinuxCLearning.Base.Ring

/-! The asynchronous mode of the log system: producers inside `log_write`, the
background thread and one `log_close` over a ring of entries behind a mutex. Every
section under the mutex is one step, and so is every access to `running` outside
it. A condition wait may end at any time, which covers the signals that end it. -/

namespace LinuxCLearning.LogSystem

/-- `log_level_t`. -/
inductive LogLevel where
  | trace | debug | info | warn | error | fatal | off
  deriving DecidableEq

def LogLevel.code : LogLevel → Nat
  | trace => 0
  | debug => 1
  | info => 2
  | warn => 3
  | error => 4
  | fatal => 5
  | off => 6

/-- `log_entry_t`. -/
structure LogEntry where
  level : LogLevel
  file : CString
  line : Int
  func : CString
  timestamp : UInt64
  tid : UInt32
  message : CString
  deriving DecidableEq

/-- The arguments of a `log_write`: the formatted text, the clock and the thread. -/
structure WriteCall where
  level : LogLevel
  file : CString
  line : Int
  func : CString
  formatted : CString
  timestamp : UInt64
  tid : UInt32

/-- `vsnprintf` into `message[4096]`. -/
def messageOf (formatted : CString) : CString := CString.ofBuffer (formatted.bytes.take 4095)

/-- The entry that `log_write` builds. -/
def WriteCall.entry (call : WriteCall) : LogEntry where
  level := call.level
  file := call.file
  line := call.line
  func := call.func
  timestamp := call.timestamp
  tid := call.tid
  message := messageOf call.formatted

/-- Where a producer stands: outside the logger, before the mutex of
`ring_buffer_push`, or in its wait for `not_full`. -/
inductive Producer where
  | idle
  | pushing (entry : LogEntry)
  | waiting (entry : LogEntry)
  deriving DecidableEq

/-- Where the background thread stands: at the test of its first loop, before the
mutex of `ring_buffer_pop`, in its wait for `not_empty`, about to output an entry,
about to count it, or past its end. `draining` tells the second loop. -/
inductive Background where
  | testing
  | popping (draining : Bool)
  | waiting (draining : Bool)
  | holding (draining : Bool) (entry : LogEntry)
  | counting (draining : Bool)
  | terminated
  deriving DecidableEq

/-- Where `log_close` stands: not called, before its signal, in `pthread_join`, or
past it. -/
inductive Closer where
  | idle
  | signalling
  | joining
  | closed
  deriving DecidableEq

/-- The logger and its threads. The two histories list the entries that were pushed
and that were output. -/
structure Logger where
  level : LogLevel
  ring : Ring LogEntry
  running : Bool
  totalEntries : UInt64
  producers : List Producer
  background : Background
  closer : Closer
  pushed : List LogEntry
  emitted : List LogEntry

/-- What `calloc` leaves in a slot. -/
def blankEntry : LogEntry := ⟨.trace, ⟨[], by simp⟩, 0, ⟨[], by simp⟩, 0, 0, ⟨[], by simp⟩⟩

/-- `log_init` in asynchronous mode, for so many threads that will write. `opens`,
`allocated` and `starts` are the outcomes of the log file, of `ring_buffer_init`
and of `pthread_create`; the counter goes on from its former value. -/
def logInit (level : LogLevel) (ringBufferSize : Nat) (totalEntries : UInt64) (threads : Nat)
    (opens allocated starts : Bool) : Option Logger :=
  if opens && allocated && starts then
    some {
      level, totalEntries
      ring := .empty ringBufferSize blankEntry
      running := true
      producers := List.replicate threads .idle
      background := .testing
      closer := .idle
      pushed := [], emitted := [] }
  else none

namespace Logger

def setProducer (system : Logger) (index : Nat) (producer : Producer) : Logger :=
  { system with producers := system.producers.set index producer }

/-- `log_write` up to the mutex: entries below the level are dropped. -/
def logWrite (system : Logger) (index : Nat) (call : WriteCall) : Logger :=
  if call.level.code < system.level.code then system
  else system.setProducer index (.pushing call.entry)

/-- `ring_buffer_push` under the mutex, from the lock or from the end of a wait on. -/
def ringBufferPush (system : Logger) (index : Nat) (entry : LogEntry) : Logger :=
  if system.ring.count ≥ system.ring.capacity then system.setProducer index (.waiting entry)
  else
    { system.setProducer index .idle with
      ring := system.ring.push entry
      pushed := system.pushed ++ [entry] }

/-- `ring_buffer_pop` under the mutex, from the lock or from the end of a wait on. A
failure ends the second loop and takes the first one back to its test. -/
def ringBufferPop (system : Logger) (draining : Bool) : Logger :=
  if system.ring.count = 0 ∧ system.running = true then
    { system with background := .waiting draining }
  else if system.ring.count = 0 then
    { system with background := if draining then .terminated else .testing }
  else
    { system with
      background := .holding draining system.ring.front
      ring := system.ring.pop }

/-- The next step of `async_thread_func`. -/
def asyncThread (system : Logger) : Option Logger :=
  match system.background with
  | .testing => some { system with background := .popping (!system.running) }
  | .popping draining => some (system.ringBufferPop draining)
  | .waiting draining => some (system.ringBufferPop draining)
  | .holding draining entry =>
    some { system with background := .counting draining, emitted := system.emitted ++ [entry] }
  | .counting draining =>
    some { system with
      background := if draining then .popping true else .testing
      totalEntries := system.totalEntries + 1 }
  | .terminated => none

/-- The next step of `log_close`, which starts when no `log_write` is under way. -/
def logClose (system : Logger) : Option Logger :=
  match system.closer with
  | .idle =>
    if system.producers.all (· = .idle) then
      some { system with running := false, closer := .signalling }
    else none
  | .signalling => some { system with closer := .joining }
  | .joining =>
    if system.background = .terminated then some { system with closer := .closed } else none
  | .closed => none

end Logger

/-- One step of one thread. -/
inductive LogAction where
  | write (index : Nat) (call : WriteCall)
  | push (index : Nat)
  | background
  | close

namespace Logger

/-- The state after a step of a thread, `none` when that thread cannot take it. No
`log_write` starts once `log_close` has. -/
def step (system : Logger) : LogAction → Option Logger
  | .write index call =>
    match system.producers[index]?, system.closer with
    | some .idle, .idle => some (system.logWrite index call)
    | _, _ => none
  | .push index =>
    match system.producers[index]? with
    | some (.pushing entry) => some (system.ringBufferPush index entry)
    | some (.waiting entry) => some (system.ringBufferPush index entry)
    | _ => none
  | .background => system.asyncThread
  | .close => system.logClose

end Logger

end LinuxCLearning.LogSystem
