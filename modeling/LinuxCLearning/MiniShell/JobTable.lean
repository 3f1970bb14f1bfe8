import LinuxCLearning.MiniShell.Executor

/-! What every call keeps of the job table, and where a request for job 0 breaks it. -/

namespace LinuxCLearning.MiniShell

namespace Shell
variable {shell : Shell} {slot : Fin maxJobs} {job : Job} {id : Int}

def freeSlots (shell : Shell) : Nat := SlotTable.tally shell.jobs fun job => job.id == 0

@[simp] theorem setJob_same : (shell.setJob slot job).jobs slot = job := by simp [setJob]

theorem setJob_other {other : Fin maxJobs} (different : other ≠ slot) :
    (shell.setJob slot job).jobs other = shell.jobs other := Function.update_of_ne different _ _

theorem jobFind_id (found : shell.jobFind id = some slot) : (shell.jobs slot).id = id := by
  simpa using SlotTable.first_wanted found

theorem id_le_maxId (shell : Shell) (slot : Fin maxJobs) : (shell.jobs slot).id ≤ shell.maxId :=
  SlotTable.le_highest shell.jobs Job.id slot

theorem maxId_nonneg (shell : Shell) : 0 ≤ shell.maxId := SlotTable.highest_nonneg shell.jobs Job.id

/-- An id below the last `int` is followed by the next number. -/
theorem nextId_eq (within : shell.maxId + 1 < 2 ^ 31) : shell.nextId = shell.maxId + 1 := by
  have nonneg := shell.maxId_nonneg
  apply Int.bmod_eq_of_le
  · omega
  · omega

/-- After the last `int` the ids go on with the first one. -/
theorem nextId_wrapped (last : shell.maxId + 1 = 2 ^ 31) : shell.nextId = -2 ^ 31 := by
  rw [nextId, last]
  decide

theorem nextId_of_positive (ints : shell.maxId < 2 ^ 31) (positive : shell.nextId > 0) :
    shell.nextId = shell.maxId + 1 := by
  by_cases last : shell.maxId + 1 = 2 ^ 31
  · rw [nextId_wrapped last] at positive
    omega
  · exact nextId_eq (by omega)

/-- The invariant of the job table. -/
structure Consistent (shell : Shell) : Prop where
  counted : shell.numJobs = SlotTable.tally shell.jobs Job.occupied
  positive : ∀ slot, (shell.jobs slot).id ≠ 0 → 0 < (shell.jobs slot).id
  distinct : ∀ first second, (shell.jobs first).id ≠ 0 →
    (shell.jobs first).id = (shell.jobs second).id → first = second

theorem init_consistent : init.Consistent := by
  constructor
  · have none_occupied : SlotTable.tally init.jobs Job.occupied = 0 :=
      SlotTable.tally_eq_zero.mpr fun _ => rfl
    rw [none_occupied]
    rfl
  · exact fun _ nonzero => absurd rfl nonzero
  · exact fun _ _ nonzero => absurd rfl nonzero

namespace Consistent

/-- A slot may be given any job whose id is free, with the count to match. -/
theorem replace (consistent : shell.Consistent) {numJobs : Int}
    (counted : numJobs + (shell.jobs slot).occupied.toNat = shell.numJobs + job.occupied.toNat)
    (fresh : job.id ≠ 0 → 0 < job.id ∧ ∀ other, other ≠ slot → (shell.jobs other).id ≠ job.id) :
    { shell.setJob slot job with numJobs }.Consistent := by
  constructor
  · have tallied := SlotTable.tally_update shell.jobs Job.occupied slot job
    have before := consistent.counted
    change numJobs = ((SlotTable.tally (Function.update shell.jobs slot job) Job.occupied : Nat) :
      Int)
    omega
  · intro other nonzero
    by_cases here : other = slot
    · subst here
      simp only [setJob_same] at nonzero ⊢
      exact (fresh nonzero).1
    · simp only [setJob_other here] at nonzero ⊢
      exact consistent.positive other nonzero
  · intro first second nonzero same
    by_cases firstHere : first = slot
    · by_cases secondHere : second = slot
      · exact firstHere.trans secondHere.symm
      · subst firstHere
        simp only [setJob_same, setJob_other secondHere] at nonzero same
        exact absurd same.symm ((fresh nonzero).2 second secondHere)
    · by_cases secondHere : second = slot
      · subst secondHere
        simp only [setJob_same, setJob_other firstHere] at nonzero same
        exact absurd same ((fresh (same ▸ nonzero)).2 first firstHere)
      · simp only [setJob_other firstHere, setJob_other secondHere] at nonzero same
        exact consistent.distinct first second nonzero same

theorem setJob (consistent : shell.Consistent) (same : job.id = (shell.jobs slot).id) :
    (shell.setJob slot job).Consistent := by
  apply consistent.replace
  · simp only [Job.occupied, same]
  · intro nonzero
    rw [same] at nonzero ⊢
    refine ⟨consistent.positive slot nonzero, ?_⟩
    intro other different equal
    exact different (consistent.distinct slot other nonzero equal.symm).symm

theorem setStatus (consistent : shell.Consistent) (status : Int) :
    { shell with lastExitStatus := status }.Consistent :=
  ⟨consistent.counted, consistent.positive, consistent.distinct⟩

theorem jobRemove (consistent : shell.Consistent) (nonzero : id ≠ 0) :
    (shell.jobRemove id).Consistent := by
  unfold Shell.jobRemove
  cases found : shell.jobFind id with
  | none => exact consistent
  | some slot =>
    apply consistent.replace
    · have occupied : (shell.jobs slot).occupied = true := by
        simp [Job.occupied, jobFind_id found, nonzero]
      rw [occupied]
      simp [Job.occupied, Job.zero]
    · exact fun never => absurd rfl never

theorem finishProcess (consistent : shell.Consistent) (event : WaitEvent)
    (nonzero : (shell.jobs slot).id ≠ 0) : (shell.finishProcess slot event).Consistent := by
  unfold Shell.finishProcess
  dsimp only
  split_ifs
  · apply jobRemove _ nonzero
    exact consistent.setJob rfl
  · exact consistent.setJob rfl

theorem jobUpdateEvent (consistent : shell.Consistent) (event : WaitEvent) :
    (shell.jobUpdateEvent event).Consistent := by
  unfold Shell.jobUpdateEvent
  cases found : SlotTable.first shell.jobs (fun job => job.tracks event.pid) with
  | none => exact consistent
  | some slot =>
    have nonzero : (shell.jobs slot).id ≠ 0 := by
      have tracked := SlotTable.first_wanted found
      simp only [Job.tracks, Job.occupied, Bool.and_eq_true, bne_iff_ne] at tracked
      exact tracked.1
    cases event.status with
    | exited code => exact consistent.finishProcess event nonzero
    | signaled signal => exact consistent.finishProcess event nonzero
    | stopped signal => exact consistent.setJob rfl
    | continued => exact consistent.setJob rfl

theorem jobUpdate (consistent : shell.Consistent) (events : List WaitEvent) :
    (shell.jobUpdate events).Consistent := by
  unfold Shell.jobUpdate
  induction events generalizing shell with
  | nil => exact consistent
  | cons event events ih => exact ih (consistent.jobUpdateEvent event)

end Consistent

end Shell

theorem JobWaiting.await_id (waiting : JobWaiting) (wait : Option WaitStatus) :
    (waiting.await wait).job.id = waiting.job.id := by
  unfold JobWaiting.await
  split <;> rfl

theorem JobWaiting.awaitAll_id (waits : Nat → Option WaitStatus) (waiting : JobWaiting)
    (pids : List Int) (index : Nat) :
    (waiting.awaitAll waits pids index).job.id = waiting.job.id := by
  induction pids generalizing waiting index with
  | nil => rfl
  | cons pid pids ih =>
    rw [JobWaiting.awaitAll, ih]
    split_ifs
    · rfl
    · exact waiting.await_id _

theorem Job.awaited_id (job : Job) (waits : Nat → Option WaitStatus) :
    (job.awaited waits).job.id = job.id :=
  JobWaiting.awaitAll_id waits _ job.pids 0

namespace Shell
variable {shell : Shell} {slot : Fin maxJobs} {id : Int}

/-- The slot that a request finds is in use and has the requested id, when the request
is not for 0 or no slot is free. -/
theorem jobFind_occupied (request : id = 0 → shell.freeSlots = 0)
    (found : shell.jobFind id = some slot) :
    (shell.jobs slot).id = id ∧ (shell.jobs slot).id ≠ 0 := by
  have here := jobFind_id found
  refine ⟨here, ?_⟩
  intro zero
  have no_free := SlotTable.tally_eq_zero.mp (request (here ▸ zero)) slot
  simp [zero] at no_free

namespace Consistent

theorem jobWait (consistent : shell.Consistent) (request : id = 0 → shell.freeSlots = 0)
    (waits : Nat → Option WaitStatus) : (shell.jobWait id waits).2.Consistent := by
  unfold Shell.jobWait
  cases found : shell.jobFind id with
  | none => exact consistent
  | some slot =>
    obtain ⟨same, nonzero⟩ := jobFind_occupied request found
    have waited := consistent.setJob ((shell.jobs slot).awaited_id waits)
    apply setStatus
    split_ifs
    · exact waited.jobRemove (same ▸ nonzero)
    · exact waited

theorem builtinFg (consistent : shell.Consistent) {argument : Option Bytes}
    (request : shell.fgJobId argument = 0 → shell.freeSlots = 0)
    (waits : Nat → Option WaitStatus) : (shell.builtinFg argument waits).2.Consistent := by
  unfold Shell.builtinFg
  dsimp only
  split_ifs
  · exact consistent
  · exact consistent.jobWait request waits

theorem builtinBg (consistent : shell.Consistent) (argument : Option Bytes) (delivered : Bool) :
    (shell.builtinBg argument delivered).2.Consistent := by
  unfold Shell.builtinBg
  dsimp only
  split_ifs
  · exact consistent
  · split
    · exact consistent
    · exact consistent.setJob rfl
  · split
    · exact consistent
    · exact consistent

end Consistent

/-- The entry that `executor_run` makes for a pipeline; without its processes when the
ids have run out. -/
def recordedJob (shell : Shell) (pids : List Int) (command : Bytes) (background : Bool)
    (state : Option JobState) : Job :=
  let job : Job :=
    ⟨shell.nextId, pids.headD 0, [], .running, command.take (maxLine - 1), background⟩
  if shell.nextId > 0 then { job with pids, state := state.getD .running } else job

section Record
variable (pids : List Int) (command : Bytes) (background : Bool) (state : Option JobState)

@[simp] theorem recordedJob_id :
    (shell.recordedJob pids command background state).id = shell.nextId := by
  unfold recordedJob
  split_ifs <;> rfl

@[simp] theorem recordedJob_pgid :
    (shell.recordedJob pids command background state).pgid = pids.headD 0 := by
  unfold recordedJob
  split_ifs <;> rfl

theorem recordJob_full (full : shell.freeSlots = 0) :
    shell.recordJob pids command background state = shell := by
  have none_free : SlotTable.first shell.jobs (fun job => job.id == 0) = none :=
    SlotTable.first_eq_none.mpr (SlotTable.tally_eq_zero.mp full)
  simp [recordJob, jobAdd, none_free]

theorem first_free (free : 0 < shell.freeSlots) :
    ∃ slot, SlotTable.first shell.jobs (fun job => job.id == 0) = some slot := by
  cases found : SlotTable.first shell.jobs (fun job => job.id == 0) with
  | none =>
    have none_free : shell.freeSlots = 0 :=
      SlotTable.tally_eq_zero.mpr (SlotTable.first_eq_none.mp found)
    omega
  | some slot => exact ⟨slot, rfl⟩

theorem recordJob_free (ints : shell.maxId < 2 ^ 31) (free : 0 < shell.freeSlots) :
    ∃ slot, (shell.jobs slot).id = 0 ∧
      shell.recordJob pids command background state =
        { shell.setJob slot (shell.recordedJob pids command background state) with
          numJobs := shell.numJobs + 1 } := by
  obtain ⟨slot, first⟩ := first_free free
  refine ⟨slot, by simpa using SlotTable.first_wanted first, ?_⟩
  unfold recordJob
  simp only [jobAdd, first]
  by_cases positive : shell.nextId > 0
  · have next := nextId_of_positive ints positive
    have found : ∀ job : Job, job.id = shell.nextId → ∀ numJobs,
        jobFind { shell.setJob slot job with numJobs } shell.nextId = some slot := by
      intro job same numJobs
      apply SlotTable.first_unique
      · simp [same]
      · intro other equal
        by_contra different
        have bound := shell.id_le_maxId other
        simp only [setJob_other different, beq_iff_eq] at equal
        omega
    rw [if_pos positive, setPids, found _ rfl]
    simp [recordedJob, positive, setJob]
  · rw [if_neg positive]
    simp [recordedJob, positive]

theorem nextId_ne_zero (ints : shell.maxId < 2 ^ 31) : shell.nextId ≠ 0 := by
  have nonneg := shell.maxId_nonneg
  by_cases last : shell.maxId + 1 = 2 ^ 31
  · rw [nextId_wrapped last]
    decide
  · rw [nextId_eq (by omega)]
    omega

theorem freeSlots_recordJob (ints : shell.maxId < 2 ^ 31) (free : 0 < shell.freeSlots) :
    (shell.recordJob pids command background state).freeSlots + 1 = shell.freeSlots := by
  obtain ⟨slot, empty, recorded⟩ := recordJob_free pids command background state ints free
  have counted := SlotTable.tally_update shell.jobs (fun job => job.id == 0) slot
    (shell.recordedJob pids command background state)
  have taken : (shell.nextId == 0) = false := by simpa using nextId_ne_zero ints
  rw [recorded]
  simpa [freeSlots, setJob, empty, taken] using counted

theorem maxId_recordJob (within : shell.maxId + 1 < 2 ^ 31) (free : 0 < shell.freeSlots) :
    (shell.recordJob pids command background state).maxId = shell.maxId + 1 := by
  obtain ⟨slot, empty, recorded⟩ := recordJob_free pids command background state (by omega) free
  have nonneg := shell.maxId_nonneg
  rw [recorded]
  apply le_antisymm
  · apply SlotTable.highest_le (by omega)
    intro other
    by_cases here : other = slot
    · subst here
      simp [nextId_eq within]
    · simp only [setJob_other here]
      exact (shell.id_le_maxId other).trans (by omega)
  · have bound := SlotTable.le_highest
      (shell.setJob slot (shell.recordedJob pids command background state)).jobs Job.id slot
    simpa [maxId, nextId_eq within] using bound

theorem Consistent.recordJob (consistent : shell.Consistent)
    (within : 0 < shell.freeSlots → shell.maxId + 1 < 2 ^ 31) :
    (shell.recordJob pids command background state).Consistent := by
  rcases Nat.eq_zero_or_pos shell.freeSlots with full | free
  · rw [recordJob_full pids command background state full]
    exact consistent
  · have fits := within free
    have nonneg := shell.maxId_nonneg
    obtain ⟨slot, empty, recorded⟩ := recordJob_free pids command background state (by omega) free
    rw [recorded]
    apply consistent.replace
    · have nonzero : (shell.nextId != 0) = true := by simpa using nextId_ne_zero (by omega)
      simp [Job.occupied, empty, nonzero]
    · intro _
      simp only [recordedJob_id, nextId_eq fits]
      refine ⟨by omega, ?_⟩
      intro other _ same
      have bound := shell.id_le_maxId other
      omega

/-- So many new entries of one pipeline keep the table consistent while there are ids
for them. -/
theorem Consistent.recordJobs (consistent : shell.Consistent) (count : Nat)
    (within : shell.maxId + min count shell.freeSlots < 2 ^ 31) :
    ((fun shell => Shell.recordJob shell pids command background state)^[count]
      shell).Consistent := by
  induction count generalizing shell with
  | zero => exact consistent
  | succ count ih =>
    rw [Function.iterate_succ_apply]
    rcases Nat.eq_zero_or_pos shell.freeSlots with full | free
    · rw [recordJob_full pids command background state full]
      exact ih consistent (by omega)
    · have fits : shell.maxId + 1 < 2 ^ 31 := by omega
      have slots := freeSlots_recordJob pids command background state (by omega) free
      apply ih (consistent.recordJob pids command background state fun _ => fits)
      rw [maxId_recordJob pids command background state fits free]
      omega

end Record

end Shell

/-- The statuses that the turns of the wait loop of `executor_run` look at. -/
def seenStatuses : WaitStatus → List (Option WaitStatus) → List WaitStatus
  | _, [] => []
  | status, wait :: waits => wait.getD status :: seenStatuses (wait.getD status) waits

/-- The wait loop enters the pipeline into the table once for every stopped status. -/
theorem Waiting.await_all (pids : List Int) (command : Bytes) (waiting : Waiting)
    (waits : List (Option WaitStatus)) :
    (waits.foldl (Waiting.await pids command) waiting).shell =
      (fun shell => shell.addStopped pids command)^[
        (seenStatuses waiting.status waits).countP WaitStatus.isStopped] waiting.shell := by
  induction waits generalizing waiting with
  | nil => rfl
  | cons wait waits ih =>
    rw [List.foldl_cons, ih, seenStatuses, Waiting.await]
    cases wait.getD waiting.status with
    | exited code => rw [List.countP_cons_of_neg (by simp [WaitStatus.isStopped])]
    | signaled signal => rw [List.countP_cons_of_neg (by simp [WaitStatus.isStopped])]
    | stopped signal => rw [List.countP_cons_of_pos rfl, Function.iterate_succ_apply]
    | continued => rw [List.countP_cons_of_neg (by simp [WaitStatus.isStopped])]

/-- How often `executor_run` calls `job_add`. -/
def jobRequests (pipeline : Pipeline) (launch : Launch) : Nat :=
  let numCommands := pipeline.commands.length
  if numCommands = 0 then 0
  else if !launch.started numCommands then 0
  else if pipeline.background then 1
  else (seenStatuses (.exited 0) ((List.range numCommands).map launch.waits)).countP
    WaitStatus.isStopped

namespace Shell
variable {shell : Shell}

theorem runForeground_jobs (shell : Shell) (pids : List Int) (command : Bytes)
    (waits : List (Option WaitStatus)) :
    (shell.runForeground pids command waits).2 =
      { (fun shell => addStopped shell pids command)^[
          (seenStatuses (.exited 0) waits).countP WaitStatus.isStopped] shell with
        lastExitStatus := (shell.runForeground pids command waits).1 } := by
  simp only [runForeground, Waiting.await_all]

/-- `executor_run` enters the pipeline as often as it calls `job_add`. -/
theorem executorRun_jobs (shell : Shell) (pipeline : Pipeline) (launch : Launch) :
    ∃ pids command background state status,
      (shell.executorRun pipeline launch).2 =
        { (fun shell => recordJob shell pids command background state)^[
            jobRequests pipeline launch] shell with lastExitStatus := status } := by
  unfold executorRun jobRequests
  dsimp only
  split_ifs
  · exact ⟨[], [], false, none, shell.lastExitStatus, rfl⟩
  · exact ⟨[], [], false, none, shell.lastExitStatus, rfl⟩
  · exact ⟨_, commandText pipeline, true, none, 0, rfl⟩
  · exact ⟨_, commandText pipeline, false, some .stopped, _, runForeground_jobs shell _ _ _⟩

/-- When a call keeps the job table: a launch needs ids for the jobs it adds, and `fg`
and `bg` are not to ask for job 0 while a slot is free. -/
def Admitted (shell : Shell) : ShellCall → Prop
  | .run pipeline launch =>
    shell.maxId + min (jobRequests pipeline launch) shell.freeSlots < 2 ^ 31
  | .update _ => True
  | .fg argument _ => shell.fgJobId argument = 0 → shell.freeSlots = 0
  | .bg argument _ => shell.bgJobId argument = 0 → shell.freeSlots = 0

instance (shell : Shell) (call : ShellCall) : Decidable (shell.Admitted call) :=
  match call with
  | .run pipeline launch =>
    inferInstanceAs (Decidable
      (shell.maxId + min (jobRequests pipeline launch) shell.freeSlots < 2 ^ 31))
  | .update _ => inferInstanceAs (Decidable True)
  | .fg argument _ =>
    inferInstanceAs (Decidable (shell.fgJobId argument = 0 → shell.freeSlots = 0))
  | .bg argument _ =>
    inferInstanceAs (Decidable (shell.bgJobId argument = 0 → shell.freeSlots = 0))

theorem Consistent.perform (consistent : shell.Consistent) {call : ShellCall}
    (admitted : shell.Admitted call) : (shell.perform call).Consistent := by
  cases call with
  | run pipeline launch =>
    obtain ⟨pids, command, background, state, status, ran⟩ := shell.executorRun_jobs pipeline launch
    rw [Shell.perform, ran]
    apply setStatus
    exact consistent.recordJobs pids command background state _ admitted
  | update events => exact consistent.jobUpdate events
  | fg argument waits => exact (consistent.builtinFg admitted waits).setStatus _
  | bg argument delivered => exact (consistent.builtinBg argument delivered).setStatus _

/-- An admitted request works on a slot in use that has the requested id. -/
theorem actsOn_occupied {call : ShellCall} (admitted : shell.Admitted call) {id : Int}
    {slot : Fin maxJobs} (acts : shell.actsOn call = some (id, slot)) :
    (shell.jobs slot).id = id ∧ (shell.jobs slot).id ≠ 0 := by
  have found : ∀ wanted : Int, (wanted = 0 → shell.freeSlots = 0) →
      actsOn.acted shell wanted = some (id, slot) →
        (shell.jobs slot).id = id ∧ (shell.jobs slot).id ≠ 0 := by
    intro wanted request acted
    unfold actsOn.acted at acted
    split_ifs at acted
    obtain ⟨here, found, same⟩ := Option.map_eq_some_iff.mp acted
    cases same
    exact jobFind_occupied request found
  cases call with
  | run pipeline launch => cases acts
  | update events => cases acts
  | fg argument waits => exact found _ admitted acts
  | bg argument delivered => exact found _ admitted acts

/-- Every run of the shell whose calls are admitted keeps the job table consistent, and
its requests work on jobs in use with the requested id. -/
theorem job_table_consistent
    (reached : Machine.Reachable perform Admitted Shell.init shell) :
    shell.Consistent ∧
      ∀ call, shell.Admitted call → ∀ id slot, shell.actsOn call = some (id, slot) →
        (shell.jobs slot).id = id ∧ (shell.jobs slot).id ≠ 0 := by
  constructor
  · exact reached.keeps init_consistent fun _ _ consistent => consistent.perform
  · intro call admitted id slot acts
    exact actsOn_occupied admitted acts

/-- A background pipeline, then a pipeline that is stopped, then a request for the
second job. -/
theorem job_table_consistent_two_jobs :
    let command : Command := ⟨[text "a"], none, none, false, false⟩
    let first : ShellCall := .run ⟨[command, command], true⟩
      ⟨true, fun index => 10 + index, fun _ => none⟩
    let second : ShellCall :=
      .run ⟨[command], false⟩ ⟨true, fun _ => 20, fun _ => some (.stopped 20)⟩
    let shell := (Shell.init.perform first).perform second
    shell.Consistent ∧ shell.numJobs = 2 ∧
      shell.actsOn (.fg (some (text "%2")) fun _ => none) = some (2, 1) ∧
      (shell.jobs 1).id = 2 := by
  intro command first second shell
  have reached : Machine.Reachable perform Admitted Shell.init shell := by
    apply Machine.Reachable.call
    · exact Machine.Reachable.call .start first (by decide +kernel)
    · decide +kernel
  obtain ⟨consistent, acts⟩ := job_table_consistent reached
  have request : shell.actsOn (.fg (some (text "%2")) fun _ => none) = some (2, 1) := by
    decide +kernel
  refine ⟨consistent, by decide +kernel, request, ?_⟩
  exact (acts (.fg (some (text "%2")) fun _ => none) (by decide +kernel) 2 1 request).1

/-- `fg abc` asks for job 0, finds a free slot and counts it off. -/
theorem fg_word_breaks_job_table :
    let call : ShellCall := .fg (some (text "abc")) fun _ => none
    Shell.init.actsOn call = some (0, 0) ∧ (Shell.init.jobs 0).id = 0 ∧
      (Shell.init.perform call).numJobs = -1 ∧ ¬(Shell.init.perform call).Consistent := by
  intro call
  have counted : (Shell.init.perform call).numJobs = -1 := by decide +kernel
  refine ⟨by decide +kernel, rfl, counted, ?_⟩
  intro consistent
  have nonneg : 0 ≤ (Shell.init.perform call).numJobs := by
    rw [consistent.counted]
    exact Int.natCast_nonneg _
  omega

end Shell

end LinuxCLearning.MiniShell
