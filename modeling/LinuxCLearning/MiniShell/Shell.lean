import LinuxCLearning.Base.Bytes
import LinuxCLearning.Base.SlotTable

/-! The data types of the mini shell: parsed command lines and the job table. -/

namespace LinuxCLearning.MiniShell

def maxArgs : Nat := 256

def maxLine : Nat := 4096

def maxJobs : Nat := 64

instance : NeZero maxJobs := ⟨by decide⟩

def maxPipes : Nat := 16

/-- `command_t`: `argv` up to `argc`. -/
structure Command where
  argv : List Bytes
  inputFile : Option Bytes
  outputFile : Option Bytes
  append : Bool
  background : Bool
  deriving DecidableEq

/-- `pipeline_t`: the commands up to `num_commands`. -/
structure Pipeline where
  commands : List Command
  background : Bool
  deriving DecidableEq

/-- `job_state_t`. -/
inductive JobState where
  | running | stopped | done
  deriving DecidableEq

/-- `job_t`: the pids up to `num_pids`. A free slot has id 0. -/
structure Job where
  id : Int
  pgid : Int
  pids : List Int
  state : JobState
  command : Bytes
  background : Bool
  deriving DecidableEq

/-- What `memset` leaves in a slot. -/
def Job.zero : Job := ⟨0, 0, [], .running, [], false⟩

def Job.occupied (job : Job) : Bool := job.id != 0

/-- The parts of `shell_t` that the job table is about. -/
structure Shell where
  jobs : Fin maxJobs → Job
  numJobs : Int
  lastExitStatus : Int

/-- `shell_init`. -/
def Shell.init : Shell := ⟨fun _ => .zero, 0, 0⟩

/-- What `waitpid` says about a process. -/
inductive WaitStatus where
  | exited (code : UInt8)
  | signaled (signal : UInt8)
  | stopped (signal : UInt8)
  | continued
  deriving DecidableEq

def WaitStatus.finished : WaitStatus → Bool
  | exited _ => true
  | signaled _ => true
  | stopped _ => false
  | continued => false

def WaitStatus.isStopped : WaitStatus → Bool
  | stopped _ => true
  | _ => false

end LinuxCLearning.MiniShell
