import LinuxCLearning.Base.Machine
import LinuxCLearning.MiniShell.Jobs

/-! `executor_run` in the shell process, and the calls that work on the job table. -/

namespace LinuxCLearning.MiniShell

/-- The arguments of a command in the text of a job. -/
def appendArguments (buffer : Bytes) (argv : List Bytes) : Bytes :=
  argv.zipIdx.foldl (fun buffer (argument, index) =>
    let spaced := if index > 0 then buffer ++ text " " else buffer
    spaced ++ argument.take (maxLine - spaced.length - 1)) buffer

/-- `cmd_str` of `executor_run`. -/
def commandText (pipeline : Pipeline) : Bytes :=
  let buffer := pipeline.commands.zipIdx.foldl (fun buffer (command, index) =>
    appendArguments (if index > 0 then buffer ++ text " | " else buffer) command.argv) []
  if pipeline.background then buffer ++ (text " &").take (maxLine - buffer.length - 1) else buffer

/-- What the system answers to `executor_run`: whether the pipes open, the result of
each `fork`, and what `waitpid` says about each process, `none` when it fails. -/
structure Launch where
  pipes : Bool
  forks : Nat → Int
  waits : Nat → Option WaitStatus

/-- Every pipe and every process of so many commands came into being. -/
def Launch.started (launch : Launch) (numCommands : Nat) : Bool :=
  launch.pipes && (List.range numCommands).all fun index => launch.forks index ≥ 0

/-- The variables of the wait loop of `executor_run`. -/
structure Waiting where
  status : WaitStatus
  lastStatus : Int
  shell : Shell

namespace Shell

/-- The pids that `executor_run` stores in the job with this id. -/
def setPids (shell : Shell) (id : Int) (pids : List Int) (state : Option JobState) : Shell :=
  match shell.jobFind id with
  | none => shell
  | some slot =>
    let job := shell.jobs slot
    shell.setJob slot { job with pids, state := state.getD job.state }

/-- How `executor_run` enters a pipeline into the job table. -/
def recordJob (shell : Shell) (pids : List Int) (command : Bytes) (background : Bool)
    (state : Option JobState) : Shell :=
  let (id, shell) := shell.jobAdd (pids.headD 0) command background
  if id > 0 then shell.setPids id pids state else shell

/-- The branch of `executor_run` for a background pipeline. -/
def runBackground (shell : Shell) (pids : List Int) (command : Bytes) : Shell :=
  { shell.recordJob pids command true none with lastExitStatus := 0 }

/-- A stopped process of a foreground pipeline adds a job. -/
def addStopped (shell : Shell) (pids : List Int) (command : Bytes) : Shell :=
  shell.recordJob pids command false (some .stopped)

end Shell

/-- One turn of the wait loop of `executor_run`. A failed `waitpid` leaves `status` as
it was. -/
def Waiting.await (pids : List Int) (command : Bytes) (waiting : Waiting)
    (wait : Option WaitStatus) : Waiting :=
  match wait.getD waiting.status with
  | .exited code => { waiting with status := .exited code, lastStatus := code.toNat }
  | .signaled signal =>
    { waiting with status := .signaled signal, lastStatus := 128 + signal.toNat }
  | .stopped signal =>
    ⟨.stopped signal, 128 + signal.toNat, waiting.shell.addStopped pids command⟩
  | .continued => { waiting with status := .continued }

namespace Shell

/-- The branch of `executor_run` for a foreground pipeline. -/
def runForeground (shell : Shell) (pids : List Int) (command : Bytes)
    (waits : List (Option WaitStatus)) : Int × Shell :=
  let waited := waits.foldl (Waiting.await pids command) ⟨.exited 0, 0, shell⟩
  (waited.lastStatus, { waited.shell with lastExitStatus := waited.lastStatus })

/-- `executor_run`. -/
def executorRun (shell : Shell) (pipeline : Pipeline) (launch : Launch) : Int × Shell :=
  let numCommands := pipeline.commands.length
  let pids := (List.range numCommands).map launch.forks
  if numCommands = 0 then (0, shell)
  else if !launch.started numCommands then (1, shell)
  else if pipeline.background then (0, shell.runBackground pids (commandText pipeline))
  else
    shell.runForeground pids (commandText pipeline) ((List.range numCommands).map launch.waits)

end Shell

/-- The calls that work on the job table. -/
inductive ShellCall where
  | run (pipeline : Pipeline) (launch : Launch)
  | update (events : List WaitEvent)
  | fg (argument : Option Bytes) (waits : Nat → Option WaitStatus)
  | bg (argument : Option Bytes) (delivered : Bool)

namespace Shell

def perform (shell : Shell) : ShellCall → Shell
  | .run pipeline launch => (shell.executorRun pipeline launch).2
  | .update events => shell.jobUpdate events
  | .fg argument waits => builtinResult (shell.builtinFg argument waits)
  | .bg argument delivered => builtinResult (shell.builtinBg argument delivered)

/-- The id that a call asks for and the slot it then works on, when it does. -/
def actsOn (shell : Shell) : ShellCall → Option (Int × Fin maxJobs)
  | .run _ _ => none
  | .update _ => none
  | .fg argument _ => acted (shell.fgJobId argument)
  | .bg argument _ => acted (shell.bgJobId argument)
where
  acted (id : Int) : Option (Int × Fin maxJobs) :=
    if id < 0 then none else (shell.jobFind id).map fun slot => (id, slot)

end Shell

end LinuxCLearning.MiniShell
