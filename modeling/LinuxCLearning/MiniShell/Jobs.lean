import LinuxCLearning.Base.Ctype
import LinuxCLearning.MiniShell.Shell

/-! Job control: the job table, the pipelines that enter it, and the builtins `fg` and
`bg`. Terminal control and the printed messages are left out. -/

namespace LinuxCLearning.MiniShell

namespace Shell

def setJob (shell : Shell) (slot : Fin maxJobs) (job : Job) : Shell :=
  { shell with jobs := Function.update shell.jobs slot job }

/-- The largest id in use. -/
def maxId (shell : Shell) : Int := SlotTable.highest shell.jobs Job.id

/-- The id of the next job. -/
def nextId (shell : Shell) : Int := (shell.maxId + 1).bmod (2 ^ 32)

/-- `job_add`: the new id, or -1 when every slot is in use. -/
def jobAdd (shell : Shell) (pgid : Int) (command : Bytes) (background : Bool) : Int × Shell :=
  match SlotTable.first shell.jobs fun job => job.id == 0 with
  | none => (-1, shell)
  | some slot =>
    let id := shell.nextId
    let job : Job := ⟨id, pgid, [], .running, command.take (maxLine - 1), background⟩
    (id, { shell.setJob slot job with numJobs := shell.numJobs + 1 })

/-- `job_find`. -/
def jobFind (shell : Shell) (id : Int) : Option (Fin maxJobs) :=
  SlotTable.first shell.jobs fun job => job.id == id

/-- `job_remove`. -/
def jobRemove (shell : Shell) (id : Int) : Shell :=
  match shell.jobFind id with
  | none => shell
  | some slot => { shell.setJob slot .zero with numJobs := shell.numJobs - 1 }

end Shell

/-- A process that `waitpid(-1, …)` reports, and for which pids `kill(pid, 0)` then
succeeds. -/
structure WaitEvent where
  pid : Int
  positive : 0 < pid
  status : WaitStatus
  alive : Int → Bool

/-- The event is about a process of the job. -/
def Job.tracks (job : Job) (pid : Int) : Bool :=
  job.occupied && (job.pgid == pid || job.pids.contains pid)

/-- A finished process is marked with -1. -/
def markFinished (pid : Int) (pids : List Int) : List Int :=
  pids.map fun other => if other = pid then -1 else other

/-- The loop for `all_done`: marks the pids that are gone up to the first one alive. -/
def sweep (alive : Int → Bool) : List Int → Bool × List Int
  | [] => (true, [])
  | pid :: pids =>
    if pid > 0 then
      if alive pid then (false, pid :: pids)
      else
        let (allDone, marked) := sweep alive pids
        (allDone, -1 :: marked)
    else
      let (allDone, marked) := sweep alive pids
      (allDone, pid :: marked)

namespace Shell

/-- The branch of `job_update` for a process of this slot that has finished. -/
def finishProcess (shell : Shell) (slot : Fin maxJobs) (event : WaitEvent) : Shell :=
  let job := shell.jobs slot
  let (allDone, pids) := sweep event.alive (markFinished event.pid job.pids)
  if allDone then (shell.setJob slot { job with pids, state := .done }).jobRemove job.id
  else shell.setJob slot { job with pids }

/-- One turn of the loop of `job_update`. -/
def jobUpdateEvent (shell : Shell) (event : WaitEvent) : Shell :=
  match SlotTable.first shell.jobs fun job => job.tracks event.pid with
  | none => shell
  | some slot =>
    match event.status with
    | .exited _ | .signaled _ => shell.finishProcess slot event
    | .stopped _ => shell.setJob slot { shell.jobs slot with state := .stopped }
    | .continued => shell.setJob slot { shell.jobs slot with state := .running }

/-- `job_update`, for the events that `waitpid` reports until it has none. -/
def jobUpdate (shell : Shell) (events : List WaitEvent) : Shell :=
  events.foldl jobUpdateEvent shell

end Shell

/-- The variables of the loop of `job_wait`. -/
structure JobWaiting where
  status : WaitStatus
  lastStatus : Int
  job : Job

/-- One turn of that loop for a process that is waited for. A failed `waitpid` leaves
`status` as it was. -/
def JobWaiting.await (waiting : JobWaiting) (wait : Option WaitStatus) : JobWaiting :=
  match wait.getD waiting.status with
  | .exited code => { waiting with status := .exited code, lastStatus := code.toNat }
  | .signaled signal =>
    { waiting with status := .signaled signal, lastStatus := 128 + signal.toNat }
  | .stopped signal =>
    { waiting with
      status := .stopped signal
      lastStatus := 128 + signal.toNat
      job := { waiting.job with state := .stopped, background := true } }
  | .continued => { waiting with status := .continued }

/-- The loop of `job_wait` over the processes from the given index on. -/
def JobWaiting.awaitAll (waits : Nat → Option WaitStatus) :
    JobWaiting → List Int → Nat → JobWaiting
  | waiting, [], _ => waiting
  | waiting, pid :: pids, index =>
    let waiting := if pid ≤ 0 then waiting else waiting.await (waits index)
    waiting.awaitAll waits pids (index + 1)

/-- The job when `job_wait` starts to wait for it. -/
def Job.resumed (job : Job) : Job :=
  { job with
    state := if job.state = .stopped then .running else job.state
    background := false }

/-- The waits of `job_wait` for the processes of a job. -/
def Job.awaited (job : Job) (waits : Nat → Option WaitStatus) : JobWaiting :=
  JobWaiting.awaitAll waits ⟨.exited 0, 0, job.resumed⟩ job.pids 0

namespace Shell

/-- `job_wait`, for what `waitpid` says about each process, `none` when it fails. -/
def jobWait (shell : Shell) (id : Int) (waits : Nat → Option WaitStatus) : Int × Shell :=
  match shell.jobFind id with
  | none => (1, shell)
  | some slot =>
    let waited := (shell.jobs slot).awaited waits
    let shell := shell.setJob slot waited.job
    let shell := if waited.job.state ≠ .stopped then shell.jobRemove id else shell
    (waited.lastStatus, { shell with lastExitStatus := waited.lastStatus })

end Shell

/-- The number that an argument of `fg` or `bg` asks for. -/
def requestedId (argument : Bytes) : Int :=
  atoi (if argument.head? = some 37 then argument.tail else argument)

namespace Shell

/-- The job that `fg` picks. -/
def fgJobId (shell : Shell) : Option Bytes → Int
  | some argument => requestedId argument
  | none =>
    match SlotTable.last shell.jobs fun job => job.id > 0 with
    | some slot => (shell.jobs slot).id
    | none => -1

/-- The job that `bg` picks. -/
def bgJobId (shell : Shell) : Option Bytes → Int
  | some argument => requestedId argument
  | none =>
    match SlotTable.last shell.jobs fun job => job.id > 0 && job.state == .stopped with
    | some slot => (shell.jobs slot).id
    | none => -1

/-- `builtin_fg`. -/
def builtinFg (shell : Shell) (argument : Option Bytes) (waits : Nat → Option WaitStatus) :
    Int × Shell :=
  let id := shell.fgJobId argument
  if id < 0 then (1, shell) else shell.jobWait id waits

/-- `builtin_bg`; `delivered` is the outcome of `kill(-pgid, SIGCONT)`. -/
def builtinBg (shell : Shell) (argument : Option Bytes) (delivered : Bool) : Int × Shell :=
  let id := shell.bgJobId argument
  if id < 0 then (1, shell)
  else
    match shell.jobFind id with
    | none => (1, shell)
    | some slot =>
      if delivered then
        (0, shell.setJob slot { shell.jobs slot with state := .running, background := true })
      else (1, shell)

/-- The end of `builtin_execute`. -/
def builtinResult (outcome : Int × Shell) : Shell :=
  { outcome.2 with lastExitStatus := outcome.1 }

end Shell

end LinuxCLearning.MiniShell
