import LinuxCLearning.MiniShell.JobTable

/-! Which entries of the job table a foreground pipeline is left with. The wait loop of
`executor_run` enters the pipeline anew for every process that it sees stopped. -/

namespace LinuxCLearning.MiniShell.Shell

/-- How many jobs name a process. -/
def entriesOf (shell : Shell) (pid : Int) : Nat :=
  SlotTable.tally shell.jobs fun job => job.occupied && job.pids.contains pid

/-- How many jobs belong to a process group. -/
def groupEntries (shell : Shell) (pgid : Int) : Nat :=
  SlotTable.tally shell.jobs fun job => job.occupied && job.pgid == pgid

/-- How many ids are left above the largest one. -/
def idsLeft (shell : Shell) : Nat := (2 ^ 31 - 1 - shell.maxId).toNat

variable {shell : Shell} (pids : List Int) (command : Bytes) (background : Bool)
  (state : Option JobState)

/-- The largest id grows by one, up to the largest `int`. -/
theorem maxId_recordJob_le (ints : shell.maxId < 2 ^ 31) (free : 0 < shell.freeSlots) :
    (shell.recordJob pids command background state).maxId = min (shell.maxId + 1) (2 ^ 31 - 1) := by
  by_cases last : shell.maxId + 1 = 2 ^ 31
  · obtain ⟨slot, empty, recorded⟩ := recordJob_free pids command background state ints free
    have nonneg := shell.maxId_nonneg
    have same : (shell.recordJob pids command background state).maxId = shell.maxId := by
      rw [recorded]
      apply le_antisymm
      · apply SlotTable.highest_le nonneg
        intro other
        by_cases here : other = slot
        · subst here
          simp only [setJob_same, recordedJob_id, nextId_wrapped last]
          omega
        · simp only [setJob_other here]
          exact shell.id_le_maxId other
      · apply SlotTable.highest_le (maxId_nonneg _)
        intro other
        by_cases here : other = slot
        · subst here
          rw [empty]
          exact maxId_nonneg _
        · have bound := SlotTable.le_highest
            (shell.setJob slot (shell.recordedJob pids command background state)).jobs Job.id other
          rwa [setJob_other here] at bound
    rw [same]
    omega
  · rw [maxId_recordJob pids command background state (by omega) free]
    omega

theorem idsLeft_recordJob (ints : shell.maxId < 2 ^ 31) (free : 0 < shell.freeSlots) :
    (shell.recordJob pids command background state).idsLeft = shell.idsLeft - 1 := by
  simp only [idsLeft, maxId_recordJob_le pids command background state ints free]
  omega

/-- A count of jobs in use grows by the new entry when it is one of them. -/
theorem tally_recordJob (wanted : Job → Bool) (in_use : ∀ job, job.id = 0 → wanted job = false)
    (ints : shell.maxId < 2 ^ 31) (free : 0 < shell.freeSlots) :
    SlotTable.tally (shell.recordJob pids command background state).jobs wanted =
      SlotTable.tally shell.jobs wanted +
        (wanted (shell.recordedJob pids command background state)).toNat := by
  obtain ⟨slot, empty, recorded⟩ := recordJob_free pids command background state ints free
  have counted := SlotTable.tally_update shell.jobs wanted slot
    (shell.recordedJob pids command background state)
  rw [in_use _ empty] at counted
  rw [recorded]
  exact counted

theorem recordedJob_occupied (ints : shell.maxId < 2 ^ 31) :
    (shell.recordedJob pids command background state).occupied = true := by
  simpa [Job.occupied] using nextId_ne_zero ints

theorem groupEntries_recordJob (ints : shell.maxId < 2 ^ 31) (free : 0 < shell.freeSlots) :
    (shell.recordJob pids command background state).groupEntries (pids.headD 0) =
      shell.groupEntries (pids.headD 0) + 1 := by
  have counted := tally_recordJob pids command background state
    (fun job => job.occupied && job.pgid == pids.headD 0)
    (fun job zero => by simp [Job.occupied, zero]) ints free
  rw [recordedJob_occupied pids command background state ints, recordedJob_pgid] at counted
  simpa [groupEntries] using counted

/-- A new entry names the processes of the pipeline, unless the ids have run out. -/
theorem entriesOf_recordJob {pid : Int} (member : pid ∈ pids) (ints : shell.maxId < 2 ^ 31)
    (free : 0 < shell.freeSlots) :
    (shell.recordJob pids command background state).entriesOf pid =
      shell.entriesOf pid + min 1 shell.idsLeft := by
  have counted := tally_recordJob pids command background state
    (fun job => job.occupied && job.pids.contains pid)
    (fun job zero => by simp [Job.occupied, zero]) ints free
  rw [recordedJob_occupied pids command background state ints, Bool.true_and] at counted
  refine counted.trans (congrArg _ ?_)
  have nonneg := shell.maxId_nonneg
  by_cases last : shell.maxId + 1 = 2 ^ 31
  · have none_left : shell.idsLeft = 0 := by
      simp only [idsLeft]
      omega
    simp [recordedJob, nextId_wrapped last, none_left]
  · have some_left : min 1 shell.idsLeft = 1 := by
      simp only [idsLeft]
      omega
    have positive : shell.nextId > 0 := by
      rw [nextId_eq (by omega)]
      omega
    simp [recordedJob, positive, member, some_left]

/-- What so many new entries of a pipeline amount to: as many as there are slots, and
named as long as there are ids. -/
theorem recordJobs_entries (count : Nat) (ints : shell.maxId < 2 ^ 31) :
    let after := (fun shell => recordJob shell pids command background state)^[count] shell
    after.groupEntries (pids.headD 0) =
        shell.groupEntries (pids.headD 0) + min count shell.freeSlots ∧
      ∀ pid ∈ pids, after.entriesOf pid =
        shell.entriesOf pid + min (min count shell.freeSlots) shell.idsLeft := by
  induction count generalizing shell with
  | zero => simp
  | succ count ih =>
    rw [Function.iterate_succ_apply]
    rcases Nat.eq_zero_or_pos shell.freeSlots with full | free
    · rw [recordJob_full pids command background state full]
      obtain ⟨groups, entries⟩ := ih ints
      refine ⟨by omega, ?_⟩
      intro pid member
      have counted := entries pid member
      omega
    · have largest := maxId_recordJob_le pids command background state ints free
      have slots := freeSlots_recordJob pids command background state ints free
      have ids := idsLeft_recordJob pids command background state ints free
      have oneGroup := groupEntries_recordJob pids command background state ints free
      have still : (shell.recordJob pids command background state).maxId < 2 ^ 31 := by omega
      obtain ⟨groups, entries⟩ := ih still
      refine ⟨by omega, ?_⟩
      intro pid member
      have counted := entries pid member
      have oneEntry := entriesOf_recordJob pids command background state member ints free
      omega

/-- Without failures the loop sees the statuses that `waitpid` reports. -/
theorem seenStatuses_reported (status : WaitStatus) (statuses : List WaitStatus) :
    seenStatuses status (statuses.map some) = statuses := by
  induction statuses generalizing status with
  | nil => rfl
  | cons head rest ih => simp [seenStatuses, ih]

theorem maxId_lt (ints : ∀ slot, (shell.jobs slot).id < 2 ^ 31) : shell.maxId < 2 ^ 31 := by
  have bound : shell.maxId ≤ 2 ^ 31 - 1 := by
    apply SlotTable.highest_le (by omega)
    intro slot
    have within := ints slot
    omega
  omega

/-- How often the wait loop sees a stopped process. -/
def stopsOf (statuses : Nat → WaitStatus) (numCommands : Nat) : Nat :=
  (List.range numCommands).countP fun index => (statuses index).isStopped

/-- `executor_run` on a foreground pipeline whose processes all come into being enters it
once for every stop. -/
theorem executorRun_foreground (shell : Shell) {pipeline : Pipeline} {forks : Nat → Int}
    (statuses : Nat → WaitStatus) (foreground : pipeline.background = false)
    (nonempty : pipeline.commands ≠ [])
    (forked : ∀ index < pipeline.commands.length, 0 < forks index) :
    ∃ status,
      (shell.executorRun pipeline ⟨true, forks, fun index => some (statuses index)⟩).2 =
        { (fun shell => addStopped shell ((List.range pipeline.commands.length).map forks)
            (commandText pipeline))^[stopsOf statuses pipeline.commands.length] shell with
          lastExitStatus := status } := by
  have some_command : pipeline.commands.length ≠ 0 := by simpa using nonempty
  have started : Launch.started ⟨true, forks, fun index => some (statuses index)⟩
      pipeline.commands.length = true := by
    simpa [Launch.started] using fun index within => (forked index within).le
  have waits : (List.range pipeline.commands.length).map (fun index => some (statuses index)) =
      ((List.range pipeline.commands.length).map statuses).map some := by simp
  have ran := shell.runForeground_jobs ((List.range pipeline.commands.length).map forks)
    (commandText pipeline)
    ((List.range pipeline.commands.length).map fun index => some (statuses index))
  simp only [executorRun, some_command, started, foreground, if_false, Bool.not_true,
    Bool.false_eq_true]
  rw [ran, waits, seenStatuses_reported, List.countP_map]
  exact ⟨_, rfl⟩

/-- Every process of a foreground pipeline has been reported as finished or belongs to
exactly one job, and the pipeline has at most one job. -/
structure Accounted (shell : Shell) (numCommands : Nat) (forks : Nat → Int)
    (statuses : Nat → WaitStatus) : Prop where
  each : ∀ index < numCommands, (statuses index).finished = true ∨ shell.entriesOf (forks index) = 1
  once : shell.groupEntries (forks 0) ≤ 1

/-- A foreground pipeline is accounted for exactly when the entries that its stopped
statuses add, as far as slots and ids go, make one with those that were there. -/
theorem foreground_pipeline_accounted (pipeline : Pipeline) (forks : Nat → Int)
    (statuses : Nat → WaitStatus) (ints : ∀ slot, (shell.jobs slot).id < 2 ^ 31)
    (foreground : pipeline.background = false) (nonempty : pipeline.commands ≠ [])
    (forked : ∀ index < pipeline.commands.length, 0 < forks index) :
    let numCommands := pipeline.commands.length
    let stops := stopsOf statuses numCommands
    (shell.executorRun pipeline ⟨true, forks, fun index => some (statuses index)⟩).2.Accounted
        numCommands forks statuses ↔
      (∀ index < numCommands, (statuses index).finished = true ∨
          shell.entriesOf (forks index) + min (min stops shell.freeSlots) shell.idsLeft = 1) ∧
        shell.groupEntries (forks 0) + min stops shell.freeSlots ≤ 1 := by
  intro numCommands stops
  obtain ⟨status, ran⟩ := shell.executorRun_foreground statuses foreground nonempty forked
  obtain ⟨groups, entries⟩ := recordJobs_entries ((List.range numCommands).map forks)
    (commandText pipeline) false (some .stopped) stops (maxId_lt ints)
  have leader : ((List.range numCommands).map forks).headD 0 = forks 0 := by
    have some_command : numCommands ≠ 0 := by simpa [numCommands] using nonempty
    obtain ⟨others, counted⟩ := Nat.exists_eq_succ_of_ne_zero some_command
    simp [counted, List.range_succ_eq_map]
  rw [leader] at groups
  have named : ∀ index < numCommands, _ := fun index within =>
    entries (forks index) (List.mem_map.mpr ⟨index, List.mem_range.mpr within, rfl⟩)
  rw [ran]
  constructor
  · intro accounted
    refine ⟨?_, groups ▸ accounted.once⟩
    intro index within
    exact (accounted.each index within).imp_right fun one => (named index within).symm.trans one
  · intro condition
    obtain ⟨each, once⟩ := condition
    refine ⟨?_, groups.trans_le once⟩
    intro index within
    exact (each index within).imp_right fun one => (named index within).trans one

/-- Two processes, the first of which is stopped while the second one ends. -/
theorem foreground_pipeline_accounted_one_stop :
    let command : Command := ⟨[text "a"], none, none, false, false⟩
    let statuses : Nat → WaitStatus := fun index => if index = 0 then .stopped 20 else .exited 0
    (Shell.init.executorRun ⟨[command, command], false⟩
        ⟨true, fun index => 10 + index, fun index => some (statuses index)⟩).2.Accounted 2
      (fun index => 10 + index) statuses := by
  intro command statuses
  refine (foreground_pipeline_accounted ⟨[command, command], false⟩ _ statuses ?_ rfl
    (by simp) ?_).mpr ?_
  · decide +kernel
  · intro index _
    omega
  · decide +kernel

/-- Ctrl-Z stops both processes of a pipeline, which then has two jobs. -/
theorem ctrl_z_adds_two_jobs :
    let command : Command := ⟨[text "a"], none, none, false, false⟩
    let statuses : Nat → WaitStatus := fun _ => .stopped 20
    let after := (Shell.init.executorRun ⟨[command, command], false⟩
      ⟨true, fun index => 10 + index, fun index => some (statuses index)⟩).2
    after.groupEntries 10 = 2 ∧ after.entriesOf 11 = 2 ∧
      ¬after.Accounted 2 (fun index => 10 + index) statuses := by
  intro command statuses after
  have twice : after.groupEntries 10 = 2 := by decide +kernel
  refine ⟨twice, by decide +kernel, ?_⟩
  intro accounted
  have once : after.groupEntries 10 ≤ 1 := accounted.once
  omega

end LinuxCLearning.MiniShell.Shell
