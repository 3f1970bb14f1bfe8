import LinuxCLearning.MiniShell.JobTable

/-! When `job_update` removes a job. Over any order of events the marks in the pid lists
are exactly the processes reported as finished, so a job goes with its last one. -/

namespace LinuxCLearning.MiniShell

/-- The processes that the events report as finished. -/
def finishedPids (events : List WaitEvent) : List Int :=
  (events.filter fun event => event.status.finished).map WaitEvent.pid

section Marks
variable {past : List WaitEvent} {event : WaitEvent} {finished pids : List Int} {pid : Int}

theorem finishedPids_snoc_finished (ended : event.status.finished = true) :
    finishedPids (past ++ [event]) = finishedPids past ++ [event.pid] := by
  simp [finishedPids, ended]

theorem finishedPids_snoc_unfinished (going : event.status.finished = false) :
    finishedPids (past ++ [event]) = finishedPids past := by
  simp [finishedPids, going]

/-- A pid list in which the finished processes are marked. -/
def marked (finished pids : List Int) : List Int :=
  pids.map fun pid => if pid ∈ finished then -1 else pid

theorem marked_nil (pids : List Int) : marked [] pids = pids := by simp [marked]

theorem mem_marked (positive : 0 < pid) :
    pid ∈ marked finished pids ↔ pid ∈ pids ∧ pid ∉ finished := by
  constructor
  · intro member
    obtain ⟨other, inside, same⟩ := List.mem_map.mp member
    split_ifs at same with ended
    · omega
    · exact same ▸ ⟨inside, ended⟩
  · intro present
    exact List.mem_map.mpr ⟨pid, present.1, if_neg present.2⟩

theorem marked_other (absent : pid ∉ pids) :
    marked (finished ++ [pid]) pids = marked finished pids := by
  apply List.map_congr_left
  intro other member
  have different : other ≠ pid := fun same => absent (same ▸ member)
  simp [different]

theorem markFinished_marked (positive : 0 < pid) :
    markFinished pid (marked finished pids) = marked (finished ++ [pid]) pids := by
  rw [markFinished, marked, List.map_map]
  apply List.map_congr_left
  intro other _
  by_cases ended : other ∈ finished
  · have different : (-1 : Int) ≠ pid := by omega
    simp [ended, different]
  · simp [ended]

/-- When `kill` knows exactly the unfinished processes, the search for them changes no
mark and succeeds when there is none. -/
theorem sweep_marked {alive : Int → Bool} (positive : ∀ pid ∈ pids, 0 < pid)
    (known : ∀ pid ∈ pids, (alive pid = true ↔ pid ∉ finished)) :
    sweep alive (marked finished pids) =
      (decide (∀ pid ∈ pids, pid ∈ finished), marked finished pids) := by
  induction pids with
  | nil => simp [marked, sweep]
  | cons pid pids ih =>
    have rest := ih (fun other member => positive other (by simp [member]))
      (fun other member => known other (by simp [member]))
    by_cases ended : pid ∈ finished
    · have head : marked finished (pid :: pids) = -1 :: marked finished pids := by
        simp [marked, ended]
      rw [head, sweep, rest]
      simp [ended]
    · have head : marked finished (pid :: pids) = pid :: marked finished pids := by
        simp [marked, ended]
      have here : alive pid = true := (known pid (by simp)).mpr ended
      have above : pid > 0 := positive pid (by simp)
      rw [head, sweep, if_pos above, if_pos here]
      simp [ended]

end Marks

/-- What became of an entry when these processes have finished. -/
structure Job.Follows (before now : Job) (finished : List Int) : Prop where
  vacant : before.occupied = false → now.occupied = false
  gone : before.occupied = true → (∀ pid ∈ before.pids, pid ∈ finished) → now.occupied = false
  kept : before.occupied = true → (∃ pid ∈ before.pids, pid ∉ finished) →
    now.id = before.id ∧ now.pgid = before.pgid ∧ now.pids = marked finished before.pids

/-- An entry does not notice the end of a process that is not its own. -/
theorem Job.Follows.other {before now : Job} {finished : List Int} {pid : Int}
    (follows : before.Follows now finished)
    (foreign : before.occupied = true → pid ∉ before.pids) :
    before.Follows now (finished ++ [pid]) := by
  have same : before.occupied = true → ∀ own ∈ before.pids,
      (own ∈ finished ++ [pid] ↔ own ∈ finished) := by
    intro occupied own inside
    have different : own ≠ pid := fun equal => foreign occupied (equal ▸ inside)
    simp [different]
  constructor
  · exact follows.vacant
  · intro occupied all
    exact follows.gone occupied fun own inside => (same occupied own inside).mp (all own inside)
  · intro occupied some_left
    obtain ⟨own, inside, left⟩ := some_left
    rw [marked_other (foreign occupied)]
    exact follows.kept occupied
      ⟨own, inside, fun ended => left ((same occupied own inside).mpr ended)⟩

namespace Shell

/-- A process of a job in the table. -/
def Process (table : Shell) (pid : Int) : Prop :=
  ∃ slot, (table.jobs slot).occupied = true ∧ pid ∈ (table.jobs slot).pids

/-- A job table as `executor_run` builds it for background pipelines. -/
structure Built (table : Shell) : Prop where
  distinct : ∀ first second, (table.jobs first).occupied = true →
    (table.jobs first).id = (table.jobs second).id → first = second
  positive : ∀ pid, table.Process pid → 0 < pid
  leader : ∀ slot, (table.jobs slot).occupied = true →
    (table.jobs slot).pids.head? = some (table.jobs slot).pgid
  disjoint : ∀ first second pid, (table.jobs first).occupied = true →
    (table.jobs second).occupied = true → pid ∈ (table.jobs first).pids →
    pid ∈ (table.jobs second).pids → first = second

/-- Events in an order in which `waitpid` can report them: of processes of the table that
are not reaped yet, with `kill` succeeding for exactly those. -/
inductive Reported (table : Shell) : List WaitEvent → Prop where
  | start : Reported table []
  | next {past : List WaitEvent} {event : WaitEvent} (reported : Reported table past)
      (process : table.Process event.pid) (unreaped : event.pid ∉ finishedPids past)
      (alive : ∀ pid, table.Process pid →
        (event.alive pid = true ↔ pid ∉ finishedPids (past ++ [event]))) :
      Reported table (past ++ [event])

/-- Every slot followed the events. -/
def Tracks (table now : Shell) (finished : List Int) : Prop :=
  ∀ slot, (table.jobs slot).Follows (now.jobs slot) finished

variable {table now : Shell} {finished : List Int} {slot : Fin maxJobs} {pid : Int}

theorem Built.nonempty (built : table.Built) (occupied : (table.jobs slot).occupied = true) :
    (table.jobs slot).pgid ∈ (table.jobs slot).pids :=
  List.mem_of_mem_head? (built.leader slot occupied)

theorem Built.tracks (built : table.Built) : table.Tracks table [] := by
  intro slot
  constructor
  · exact fun vacant => vacant
  · intro occupied all
    exact absurd (all _ (built.nonempty occupied)) (by simp)
  · intro _ _
    exact ⟨rfl, rfl, (marked_nil _).symm⟩

namespace Tracks

/-- A slot still in use belongs to the same job as at first. -/
theorem of_occupied (tracks : table.Tracks now finished)
    (occupied : (now.jobs slot).occupied = true) :
    (table.jobs slot).occupied = true ∧ (∃ pid ∈ (table.jobs slot).pids, pid ∉ finished) := by
  have before : (table.jobs slot).occupied = true := by
    by_contra vacant
    have free := (tracks slot).vacant (by simpa using vacant)
    exact absurd (occupied.symm.trans free) (by simp)
  refine ⟨before, ?_⟩
  by_contra all
  push Not at all
  exact absurd (occupied.symm.trans ((tracks slot).gone before all)) (by simp)

theorem occupied_iff (tracks : table.Tracks now finished)
    (occupied : (table.jobs slot).occupied = true) :
    (now.jobs slot).occupied = true ↔ ∃ pid ∈ (table.jobs slot).pids, pid ∉ finished := by
  constructor
  · exact fun still => (tracks.of_occupied still).2
  · intro unfinished
    simpa [Job.occupied, ((tracks slot).kept occupied unfinished).1] using occupied

/-- An unfinished process is found in its own job and in no other one. -/
theorem tracks_iff (tracks : table.Tracks now finished) (built : table.Built) (positive : 0 < pid)
    (unfinished : pid ∉ finished) :
    (now.jobs slot).tracks pid = true ↔
      (table.jobs slot).occupied = true ∧ pid ∈ (table.jobs slot).pids := by
  constructor
  · intro found
    simp only [Job.tracks, Bool.and_eq_true, Bool.or_eq_true, beq_iff_eq,
      List.contains_iff_mem] at found
    obtain ⟨occupied, named⟩ := found
    obtain ⟨before, some_left⟩ := tracks.of_occupied occupied
    obtain ⟨_, group, pids⟩ := (tracks slot).kept before some_left
    refine ⟨before, ?_⟩
    rcases named with leads | listed
    · rw [← leads, group]
      exact built.nonempty before
    · rw [pids] at listed
      exact ((mem_marked positive).mp listed).1
  · intro member
    have left := (tracks slot).kept member.1 ⟨pid, member.2, unfinished⟩
    have still := (tracks.occupied_iff member.1).mpr ⟨pid, member.2, unfinished⟩
    have listed : pid ∈ (now.jobs slot).pids := by
      rw [left.2.2]
      exact (mem_marked positive).mpr ⟨member.2, unfinished⟩
    simp [Job.tracks, still, listed]

theorem first_tracking (tracks : table.Tracks now finished) (built : table.Built)
    (positive : 0 < pid) (unfinished : pid ∉ finished)
    (occupied : (table.jobs slot).occupied = true) (member : pid ∈ (table.jobs slot).pids) :
    SlotTable.first now.jobs (fun job => job.tracks pid) = some slot := by
  apply SlotTable.first_unique
  · exact (tracks.tracks_iff built positive unfinished).mpr ⟨occupied, member⟩
  · intro other found
    obtain ⟨otherOccupied, otherMember⟩ := (tracks.tracks_iff built positive unfinished).mp found
    exact built.disjoint other slot pid otherOccupied occupied otherMember member

theorem same_id (tracks : table.Tracks now finished) (built : table.Built)
    (occupied : (table.jobs slot).occupied = true) {other : Fin maxJobs}
    (same : (now.jobs other).id = (table.jobs slot).id) : other = slot := by
  have still : (now.jobs other).occupied = true := by
    simpa [Job.occupied, same] using occupied
  obtain ⟨before, some_left⟩ := tracks.of_occupied still
  rw [((tracks other).kept before some_left).1] at same
  exact built.distinct other slot before same

end Tracks

theorem jobRemove_slot {shell : Shell} {id : Int} (here : (shell.jobs slot).id = id)
    (only : ∀ other, (shell.jobs other).id = id → other = slot) :
    (shell.jobRemove id).jobs = (shell.setJob slot .zero).jobs := by
  have found : shell.jobFind id = some slot := by
    apply SlotTable.first_unique
    · simpa using here
    · intro other same
      exact only other (by simpa using same)
  simp [jobRemove, found]

/-- The slot of a process after an event about it: empty when the process was the last
one, and otherwise the same job with one more mark or another state. -/
structure Noted (table now : Shell) (finished : List Int) (event : WaitEvent)
    (slot : Fin maxJobs) (after : Job) : Prop where
  last : event.status.finished = true →
    (∀ pid ∈ (table.jobs slot).pids, pid ∈ finished ++ [event.pid]) → after = .zero
  more : event.status.finished = true →
    (∃ pid ∈ (table.jobs slot).pids, pid ∉ finished ++ [event.pid]) →
    after = { now.jobs slot with
      pids := marked (finished ++ [event.pid]) (table.jobs slot).pids }
  going : event.status.finished = false →
    after.id = (now.jobs slot).id ∧ after.pgid = (now.jobs slot).pgid ∧
      after.pids = (now.jobs slot).pids

namespace Tracks
variable {event : WaitEvent}

theorem finishProcess_jobs (tracks : table.Tracks now finished) (built : table.Built)
    (occupied : (table.jobs slot).occupied = true) (member : event.pid ∈ (table.jobs slot).pids)
    (unfinished : event.pid ∉ finished) (ended : event.status.finished = true)
    (alive : ∀ pid ∈ (table.jobs slot).pids,
      (event.alive pid = true ↔ pid ∉ finished ++ [event.pid])) :
    ∃ after, table.Noted now finished event slot after ∧
      (now.finishProcess slot event).jobs = Function.update now.jobs slot after := by
  obtain ⟨sameId, _, pids⟩ := (tracks slot).kept occupied ⟨event.pid, member, unfinished⟩
  have swept : sweep event.alive (marked (finished ++ [event.pid]) (table.jobs slot).pids) = _ :=
    sweep_marked (fun pid inside => built.positive pid ⟨slot, occupied, inside⟩) alive
  have not_going : event.status.finished = false → False := fun going =>
    absurd (ended.symm.trans going) (by simp)
  simp only [Shell.finishProcess, pids, markFinished_marked event.positive, swept]
  by_cases all : ∀ pid ∈ (table.jobs slot).pids, pid ∈ finished ++ [event.pid]
  · refine ⟨.zero, ⟨fun _ _ => rfl, ?_, fun going => (not_going going).elim⟩, ?_⟩
    · intro _ some_left
      obtain ⟨pid, inside, left⟩ := some_left
      exact absurd (all pid inside) left
    · have only : ∀ other, ((now.setJob slot { now.jobs slot with
          pids := marked (finished ++ [event.pid]) (table.jobs slot).pids
          state := .done }).jobs other).id = (now.jobs slot).id → other = slot := by
        intro other same
        by_contra different
        rw [setJob_other different, sameId] at same
        exact different (tracks.same_id built occupied same)
      rw [if_pos (by simpa using all), jobRemove_slot (by simp) only]
      simp [setJob]
  · refine ⟨_, ⟨fun _ whole => absurd whole all, fun _ _ => rfl,
      fun going => (not_going going).elim⟩, ?_⟩
    rw [if_neg (by simpa using all)]
    rfl

/-- What an event does: it works on the job of its process alone. -/
theorem jobUpdateEvent_jobs (tracks : table.Tracks now finished) (built : table.Built)
    (occupied : (table.jobs slot).occupied = true) (member : event.pid ∈ (table.jobs slot).pids)
    (unfinished : event.pid ∉ finished)
    (alive : event.status.finished = true → ∀ pid ∈ (table.jobs slot).pids,
      (event.alive pid = true ↔ pid ∉ finished ++ [event.pid])) :
    ∃ after, table.Noted now finished event slot after ∧
      (now.jobUpdateEvent event).jobs = Function.update now.jobs slot after := by
  have found := tracks.first_tracking built event.positive unfinished occupied member
  have finish : event.status.finished = true → _ := fun ended =>
    tracks.finishProcess_jobs built occupied member unfinished ended (alive ended)
  have going : ∀ state, event.status.finished = false →
      table.Noted now finished event slot { now.jobs slot with state } := by
    intro state unended
    constructor
    · exact fun ended => absurd (ended.symm.trans unended) (by simp)
    · exact fun ended => absurd (ended.symm.trans unended) (by simp)
    · exact fun _ => ⟨rfl, rfl, rfl⟩
  simp only [Shell.jobUpdateEvent, found]
  cases status : event.status with
  | exited code => exact finish (by rw [status]; rfl)
  | signaled signal => exact finish (by rw [status]; rfl)
  | stopped signal => exact ⟨_, going .stopped (by rw [status]; rfl), rfl⟩
  | continued => exact ⟨_, going .running (by rw [status]; rfl), rfl⟩

theorem noted_follows (tracks : table.Tracks now finished)
    (occupied : (table.jobs slot).occupied = true) (member : event.pid ∈ (table.jobs slot).pids)
    (unfinished : event.pid ∉ finished) {after : Job}
    (noted : table.Noted now finished event slot after) :
    (table.jobs slot).Follows after
      (if event.status.finished then finished ++ [event.pid] else finished) := by
  have left := (tracks slot).kept occupied ⟨event.pid, member, unfinished⟩
  have in_use : (table.jobs slot).occupied = false → False := fun vacant =>
    absurd (occupied.symm.trans vacant) (by simp)
  cases ended : event.status.finished with
  | true =>
    refine ⟨fun vacant => (in_use vacant).elim, ?_, ?_⟩
    · intro _ all
      rw [noted.last ended all]
      rfl
    · intro _ some_left
      rw [noted.more ended some_left]
      exact ⟨left.1, left.2.1, rfl⟩
  | false =>
    obtain ⟨sameId, group, pids⟩ := noted.going ended
    refine ⟨fun vacant => (in_use vacant).elim, ?_, ?_⟩
    · intro _ all
      exact absurd (all _ member) unfinished
    · intro _ _
      exact ⟨sameId.trans left.1, group.trans left.2.1, pids.trans left.2.2⟩

end Tracks

theorem finishedPids_snoc (past : List WaitEvent) (event : WaitEvent) :
    finishedPids (past ++ [event]) =
      if event.status.finished then finishedPids past ++ [event.pid] else finishedPids past := by
  cases ended : event.status.finished with
  | true => exact finishedPids_snoc_finished ended
  | false => exact finishedPids_snoc_unfinished ended

/-- An event as `waitpid` can report it after these ones changes the job of its process
alone and keeps the marks right. -/
theorem Tracks.next {past : List WaitEvent} {event : WaitEvent}
    (tracks : table.Tracks now (finishedPids past)) (built : table.Built)
    (process : table.Process event.pid) (unreaped : event.pid ∉ finishedPids past)
    (alive : ∀ pid, table.Process pid →
      (event.alive pid = true ↔ pid ∉ finishedPids (past ++ [event]))) :
    table.Tracks (now.jobUpdateEvent event) (finishedPids (past ++ [event])) ∧
      ∀ slot, event.pid ∉ (table.jobs slot).pids →
        (now.jobUpdateEvent event).jobs slot = now.jobs slot := by
  obtain ⟨slot, occupied, member⟩ := process
  have known : event.status.finished = true → ∀ pid ∈ (table.jobs slot).pids,
      (event.alive pid = true ↔ pid ∉ finishedPids past ++ [event.pid]) := by
    intro ended pid inside
    rw [← finishedPids_snoc_finished ended]
    exact alive pid ⟨slot, occupied, inside⟩
  obtain ⟨after, noted, changed⟩ :=
    tracks.jobUpdateEvent_jobs built occupied member unreaped known
  constructor
  · intro other
    rw [changed, finishedPids_snoc]
    by_cases same : other = slot
    · rw [same, Function.update_self]
      exact tracks.noted_follows occupied member unreaped noted
    · rw [Function.update_of_ne same]
      split_ifs
      · apply (tracks other).other
        intro inUse inside
        exact same (built.disjoint other slot event.pid inUse occupied inside member)
      · exact tracks other
  · intro other foreign
    rw [changed, Function.update_of_ne]
    intro same
    exact foreign (same ▸ member)

theorem Reported.tracks (built : table.Built) {events : List WaitEvent}
    (reported : table.Reported events) :
    table.Tracks (table.jobUpdate events) (finishedPids events) := by
  induction reported with
  | start => exact built.tracks
  | next reported process unreaped alive ih =>
    rw [jobUpdate, List.foldl_append]
    exact (ih.next built process unreaped alive).1

theorem Reported.last {past : List WaitEvent} {event : WaitEvent}
    (reported : table.Reported (past ++ [event])) :
    table.Reported past ∧ table.Process event.pid ∧ event.pid ∉ finishedPids past ∧
      ∀ pid, table.Process pid →
        (event.alive pid = true ↔ pid ∉ finishedPids (past ++ [event])) := by
  generalize whole : past ++ [event] = events at reported
  cases reported with
  | start => simp at whole
  | next reported process unreaped alive =>
    obtain ⟨rfl, same⟩ := List.append_inj' whole rfl
    cases same
    exact ⟨reported, process, unreaped, alive⟩

theorem init_built : init.Built := by
  have vacant : ∀ slot, ¬(init.jobs slot).occupied = true := fun _ => by
    simp [init, Job.occupied, Job.zero]
  constructor
  · exact fun first _ occupied => absurd occupied (vacant first)
  · intro pid process
    obtain ⟨slot, occupied, _⟩ := process
    exact absurd occupied (vacant slot)
  · exact fun slot occupied => absurd occupied (vacant slot)
  · exact fun first _ _ occupied => absurd occupied (vacant first)

/-- A job of new processes with a new id may be put in any free slot. -/
theorem Built.place (built : table.Built) {after : Shell} {job : Job}
    (placed : after.jobs = Function.update table.jobs slot job)
    (newId : ∀ other, (table.jobs other).id ≠ job.id)
    (leader : job.pids.head? = some job.pgid) (positive : ∀ pid ∈ job.pids, 0 < pid)
    (fresh : ∀ pid ∈ job.pids, ¬table.Process pid) : after.Built := by
  have here : after.jobs slot = job := by rw [placed, Function.update_self]
  have other : ∀ other, other ≠ slot → after.jobs other = table.jobs other := by
    intro other different
    rw [placed, Function.update_of_ne different]
  constructor
  · intro first second occupied same
    by_cases firstHere : first = slot
    · by_contra different
      have secondOther : second ≠ slot := fun equal => different (firstHere.trans equal.symm)
      rw [firstHere, here, other second secondOther] at same
      exact newId second same.symm
    · rw [other first firstHere] at occupied same
      have secondOther : second ≠ slot := by
        intro equal
        rw [equal, here] at same
        exact newId first same
      rw [other second secondOther] at same
      exact built.distinct first second occupied same
  · intro pid process
    obtain ⟨at_slot, occupied, inside⟩ := process
    by_cases same : at_slot = slot
    · rw [same, here] at inside
      exact positive pid inside
    · rw [other at_slot same] at occupied inside
      exact built.positive pid ⟨at_slot, occupied, inside⟩
  · intro at_slot occupied
    by_cases same : at_slot = slot
    · rw [same, here]
      exact leader
    · rw [other at_slot same] at occupied ⊢
      exact built.leader at_slot occupied
  · intro first second pid firstOccupied secondOccupied firstMember secondMember
    by_cases firstHere : first = slot
    · by_contra different
      have secondOther : second ≠ slot := fun equal => different (firstHere.trans equal.symm)
      rw [firstHere, here] at firstMember
      rw [other second secondOther] at secondOccupied secondMember
      exact fresh pid firstMember ⟨second, secondOccupied, secondMember⟩
    · rw [other first firstHere] at firstOccupied firstMember
      have secondOther : second ≠ slot := by
        intro equal
        rw [equal, here] at secondMember
        exact fresh pid secondMember ⟨first, firstOccupied, firstMember⟩
      rw [other second secondOther] at secondOccupied secondMember
      exact built.disjoint first second pid firstOccupied secondOccupied firstMember secondMember

/-- A background pipeline of new processes keeps the table as it should be. -/
theorem Built.runBackground (built : table.Built) {pids : List Int} (command : Bytes)
    (within : 0 < table.freeSlots → table.maxId + 1 < 2 ^ 31) (nonempty : pids ≠ [])
    (positive : ∀ pid ∈ pids, 0 < pid) (fresh : ∀ pid ∈ pids, ¬table.Process pid) :
    (table.runBackground pids command).Built := by
  rcases Nat.eq_zero_or_pos table.freeSlots with full | free
  · rw [Shell.runBackground, recordJob_full pids command true none full]
    exact ⟨built.distinct, built.positive, built.leader, built.disjoint⟩
  · have fits := within free
    have nonneg := table.maxId_nonneg
    obtain ⟨slot, _, recorded⟩ := recordJob_free pids command true none (by omega) free
    have next := nextId_eq fits
    have above : table.maxId + 1 > 0 := by omega
    have job : table.recordedJob pids command true none =
        ⟨table.maxId + 1, pids.headD 0, pids, .running, command.take (maxLine - 1), true⟩ := by
      simp [recordedJob, next, above]
    rw [job] at recorded
    refine built.place (congrArg Shell.jobs recorded) ?_ ?_ positive fresh
    · intro other same
      have bound := table.id_le_maxId other
      change _ = table.maxId + 1 at same
      omega
    · obtain ⟨head, tail, rfl⟩ := List.exists_cons_of_ne_nil nonempty
      rfl

/-- After every event a job is in use exactly while one of its processes is unfinished;
the event that removes it is the one that reports its last unfinished process; and no
event changes a job that its process does not belong to. -/
theorem job_update_removes_finished (built : table.Built) {past : List WaitEvent}
    {event : WaitEvent} (reported : table.Reported (past ++ [event])) :
    let before := table.jobUpdate past
    let after := table.jobUpdate (past ++ [event])
    (∀ slot, (table.jobs slot).occupied = true →
      ((after.jobs slot).occupied = false ↔
        ∀ pid ∈ (table.jobs slot).pids, pid ∈ finishedPids (past ++ [event]))) ∧
    (∀ slot, (table.jobs slot).occupied = true →
      ((before.jobs slot).occupied = true ∧ (after.jobs slot).occupied = false ↔
        event.status.finished = true ∧ event.pid ∈ (table.jobs slot).pids ∧
          ∀ pid ∈ (table.jobs slot).pids, pid ≠ event.pid → pid ∈ finishedPids past)) ∧
    ∀ slot, event.pid ∉ (table.jobs slot).pids → after.jobs slot = before.jobs slot := by
  intro before after
  obtain ⟨earlier, process, unreaped, alive⟩ := reported.last
  have past_tracks := earlier.tracks built
  have tracks := reported.tracks built
  have removed : ∀ slot, (table.jobs slot).occupied = true →
      ((after.jobs slot).occupied = false ↔
        ∀ pid ∈ (table.jobs slot).pids, pid ∈ finishedPids (past ++ [event])) := by
    intro slot occupied
    rw [← Bool.not_eq_true, tracks.occupied_iff occupied]
    push Not
    exact Iff.rfl
  refine ⟨removed, ?_, ?_⟩
  · intro slot occupied
    rw [removed slot occupied, past_tracks.occupied_iff occupied, finishedPids_snoc]
    constructor
    · intro both
      obtain ⟨⟨pid, inside, left⟩, all⟩ := both
      cases ended : event.status.finished with
      | false =>
        simp only [ended, Bool.false_eq_true, if_false] at all
        exact absurd (all pid inside) left
      | true =>
        simp only [ended, if_true, List.mem_append, List.mem_singleton] at all
        have last : pid = event.pid := (all pid inside).resolve_left left
        refine ⟨rfl, last ▸ inside, ?_⟩
        intro other within different
        exact (all other within).resolve_right different
    · intro reports
      obtain ⟨ended, inside, others⟩ := reports
      refine ⟨⟨event.pid, inside, unreaped⟩, ?_⟩
      intro pid within
      by_cases same : pid = event.pid
      · simp [ended, same]
      · simp [ended, others pid within same]
  · have changed : after = before.jobUpdateEvent event := by
      simp [after, before, jobUpdate, List.foldl_append]
    rw [changed]
    exact (past_tracks.next built process unreaped alive).2

/-- The leader of a group of two ends first, then the other process is killed. -/
theorem job_update_removes_finished_leader_first :
    let table := Shell.init.runBackground [10, 11] (text "a | b")
    let leader : WaitEvent := ⟨10, by decide, .exited 0, fun pid => pid == 11⟩
    let other : WaitEvent := ⟨11, by decide, .signaled 9, fun _ => false⟩
    ((table.jobUpdate [leader]).jobs 0).occupied = true ∧
      ((table.jobUpdate ([leader] ++ [other])).jobs 0).occupied = false := by
  intro table leader other
  have built : table.Built := by
    apply init_built.runBackground
    · decide +kernel
    · simp
    · simp
    · intro pid _ process
      obtain ⟨slot, occupied, _⟩ := process
      exact absurd occupied (by simp [Shell.init, Job.occupied, Job.zero])
  have inUse : (table.jobs 0).occupied = true := by decide +kernel
  have pids : (table.jobs 0).pids = [10, 11] := by decide +kernel
  have known : ∀ pid, table.Process pid → pid = 10 ∨ pid = 11 := by
    intro pid process
    obtain ⟨slot, occupied, inside⟩ := process
    have only : ∀ slot, (table.jobs slot).occupied = true → slot = 0 := by decide +kernel
    rw [only slot occupied, pids] at inside
    simpa using inside
  have first : table.Reported ([] ++ [leader]) := by
    refine .next .start ⟨0, inUse, by simp [pids, leader]⟩ (by simp [finishedPids]) ?_
    intro pid process
    rcases known pid process with rfl | rfl <;> decide
  have reported : table.Reported ([leader] ++ [other]) := by
    refine .next first ⟨0, inUse, by simp [pids, other]⟩ (by decide) ?_
    intro pid process
    rcases known pid process with rfl | rfl <;> decide
  obtain ⟨_, removes, _⟩ := job_update_removes_finished built reported
  have last : ∀ pid ∈ (table.jobs 0).pids, pid ≠ other.pid → pid ∈ finishedPids [leader] := by
    rw [pids]
    decide
  have killed : other.status.finished = true := rfl
  have member : other.pid ∈ (table.jobs 0).pids := by simp [pids, other]
  exact (removes 0 inUse).mpr ⟨killed, member, last⟩

end Shell

end LinuxCLearning.MiniShell
