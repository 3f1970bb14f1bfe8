import LinuxCLearning.FileServer.ThreadPool

/-! What every step of the thread pool keeps, and what follows once the workers
are joined. -/

namespace LinuxCLearning.FileServer
open LinkedList

/-- The node a worker took off the queue and has not freed yet. -/
def Worker.task? : Worker → Option Nat
  | .holding task => task
  | _ => none

def heldTasks (workers : List Worker) : List Nat :=
  workers.filterMap Worker.task?

theorem heldTasks_set {workers : List Worker} {index : Nat} {old : Worker}
    (at_index : workers[index]? = some old) :
    ∃ others, (heldTasks workers).Perm (old.task?.toList ++ others) ∧
      ∀ worker : Worker, (heldTasks (workers.set index worker)).Perm
        (worker.task?.toList ++ others) := by
  obtain ⟨within, same⟩ := List.getElem?_eq_some_iff.mp at_index
  have around : ∀ worker : Worker,
      (heldTasks (workers.take index ++ worker :: workers.drop (index + 1))).Perm
        (worker.task?.toList ++
          (heldTasks (workers.take index) ++ heldTasks (workers.drop (index + 1)))) := by
    intro worker
    rw [heldTasks, List.filterMap_append, List.filterMap_cons]
    cases worker.task? with
    | none => simp [heldTasks]
    | some task => simp [heldTasks]
  refine ⟨heldTasks (workers.take index) ++ heldTasks (workers.drop (index + 1)), ?_, ?_⟩
  · have split : workers = workers.take index ++ old :: workers.drop (index + 1) := by
      rw [← same, List.cons_getElem_drop_succ, List.take_append_drop]
    have whole := around old
    rwa [← split] at whole
  · intro worker
    rw [List.set_eq_take_append_cons_drop, if_pos within]
    exact around worker

namespace PoolSystem

def next (system : PoolSystem) (task : Nat) : Option Nat := (system.heap task).next

def jobOf (system : PoolSystem) (task : Nat) : Job := (system.heap task).job

/-- The invariant of the pool with the nodes of its queue: what the pointers and
the counter say, who owns which node, what the histories have in common, and how
far a shutdown has come. -/
structure Intact (system : PoolSystem) (maxTasks : Int) (nodes : List Nat) : Prop where
  capacity : system.pool.maxTasks = maxTasks
  staffed : 0 < system.pool.threadCount
  queue : Queue system.next system.pool.taskHead system.pool.taskTail nodes
  count : system.pool.taskCount = nodes.length
  room : (nodes.length : Int) ≤ maxTasks
  owned : (nodes ++ heldTasks system.workers).Nodup
  alive : ∀ task ∈ nodes ++ heldTasks system.workers, system.allocated task = true
  order : system.enqueued = system.dequeued ++ nodes.map system.jobOf
  once : (system.enqueued.map Job.call).Nodup
  accepted : ∀ job : Job, job ∈ system.enqueued ↔
    system.calls job.call = some ⟨job.function, job.arg, .returned 0⟩
  taken : system.dequeued.Perm
    (system.executed ++ (heldTasks system.workers).map system.jobOf)
  drained : .exited ∈ system.workers → system.pool.shutdown = true ∧ nodes = []
  crew : system.pool.threadCount = system.workers.length
  closing : system.destroyer ≠ .idle → system.pool.shutdown = true
  joined : ∀ index, system.destroyer = .joining index →
    ∀ worker ∈ system.workers.take index, worker = .exited
  gone : system.destroyer = .done → ∀ worker ∈ system.workers, worker = .exited

variable {system : PoolSystem} {maxTasks : Int} {nodes : List Nat}

theorem threadPoolCreate_intact {threadCount : Int} {heap : Nat → Task} {allocated : Nat → Bool}
    {resources : Bool} {threadStarts : Nat → Bool}
    (created : threadPoolCreate threadCount maxTasks heap allocated resources threadStarts =
      some system) : system.Intact maxTasks [] := by
  unfold threadPoolCreate at created
  split_ifs at created with invalid started
  obtain ⟨positive, room⟩ := not_or.mp invalid
  cases created
  have idle : heldTasks (List.replicate threadCount.toNat Worker.locking) = [] := by
    simp [heldTasks, Worker.task?]
  refine ⟨rfl, not_le.mp positive, ⟨rfl, rfl, trivial⟩, rfl, ?_, ?_, ?_, rfl,
    ?_, ?_, ?_, ?_, ?_, ?_,
    ?_, ?_⟩
  · simpa using (not_le.mp room).le
  · simp [idle]
  · simp [idle]
  · exact List.nodup_nil
  · simp
  · simp [idle]
  · simp
  · simpa using (not_le.mp positive).le
  · simp
  · simp
  · simp

namespace Intact

/-- A call that does not end in success leaves everything but itself unchanged. -/
theorem setCall (intact : system.Intact maxTasks nodes) {id : Nat} {call : AddCall}
    (pending : id ∉ system.enqueued.map Job.call) (refused : call.stage ≠ .returned 0) :
    (system.setCall id call).Intact maxTasks nodes := by
  refine { intact with accepted := ?_ }
  intro job
  by_cases same : job.call = id
  · have absent : job ∉ system.enqueued := by
      intro member
      exact pending (same ▸ List.mem_map_of_mem member)
    refine ⟨fun member => absurd member absent, ?_⟩
    intro returned
    have given : call = ⟨job.function, job.arg, .returned 0⟩ := by
      simpa [PoolSystem.setCall, same] using returned
    exact absurd (congrArg AddCall.stage given) refused
  · simpa [PoolSystem.setCall, Function.update_of_ne same] using intact.accepted job

theorem not_enqueued (intact : system.Intact maxTasks nodes) {id : Nat}
    (running : ∀ call, system.calls id = some call → call.stage ≠ .returned 0) :
    id ∉ system.enqueued.map Job.call := by
  intro member
  obtain ⟨job, queued, rfl⟩ := List.mem_map.mp member
  exact running _ ((intact.accepted job).mp queued) rfl

@[simp] theorem linkTail_job (heap : Nat → Task) (tail : Option Nat) (task other : Nat) :
    (linkTail heap tail task other).job = (heap other).job := by
  cases tail with
  | none => rfl
  | some last =>
    by_cases same : other = last
    · subst other
      simp [linkTail, Task.job]
    · simp [linkTail, Function.update_of_ne same]

theorem linkTail_of_ne {heap : Nat → Task} {tail : Option Nat} {task other : Nat}
    (inner : tail ≠ some other) : linkTail heap tail task other = heap other := by
  cases tail with
  | none => rfl
  | some last =>
    have different : other ≠ last := by
      intro same
      exact inner (by rw [same])
    simp [linkTail, Function.update_of_ne different]

/-- The tasks of the nodes in use do not change when a fresh node is appended. -/
theorem jobOf_appendTask {id function arg task other : Nat} (different : other ≠ task) :
    (system.appendTask id function arg task).jobOf other = system.jobOf other := by
  simp [jobOf, appendTask, Function.update_of_ne different]

theorem jobOf_appendTask_self {id function arg task : Nat} :
    (system.appendTask id function arg task).jobOf task = ⟨id, function, arg⟩ := by
  rw [jobOf, appendTask, linkTail_job, Function.update_self, Task.job]

theorem queue_appendTask {id function arg task : Nat}
    (queue : Queue system.next system.pool.taskHead system.pool.taskTail nodes)
    (distinct : nodes.Nodup) (fresh : task ∉ nodes) :
    Queue (system.appendTask id function arg task).next
      (system.appendTask id function arg task).pool.taskHead (some task) (nodes ++ [task]) := by
  have ne_task : ∀ other ∈ nodes, other ≠ task := by
    intro other member same
    exact fresh (same ▸ member)
  have head : (system.appendTask id function arg task).pool.taskHead =
      system.pool.taskHead.or (some task) := by
    rw [queue.head]
    simp only [appendTask, queue.tail, queue.head]
    cases nodes <;> simp [List.getLast?_cons]
  rw [head]
  refine queue.enqueue ?_ ?_ ?_
  · have outside : system.pool.taskTail ≠ some task := by
      intro same
      exact fresh (List.mem_of_getLast? (queue.tail.symm.trans same))
    simp [next, appendTask, linkTail_of_ne outside]
  · intro last same
    simp [next, appendTask, same, linkTail]
  · intro other member
    have inner : system.pool.taskTail ≠ some other := by
      rw [queue.tail]
      exact getLast?_ne_of_mem_dropLast distinct member
    have different := ne_task other (List.dropLast_subset nodes member)
    simp [next, appendTask, linkTail_of_ne inner, Function.update_of_ne different]

theorem appendTask (intact : system.Intact maxTasks nodes) {id task : Nat} (function arg : Nat)
    (opened : system.pool.shutdown = false) (space : system.pool.taskCount < system.pool.maxTasks)
    (fresh : system.allocated task = false) (pending : id ∉ system.enqueued.map Job.call) :
    ((system.appendTask id function arg task).setCall id ⟨function, arg, .returned 0⟩).Intact
      maxTasks (nodes ++ [task]) := by
  have unused : task ∉ nodes ++ heldTasks system.workers := by
    intro member
    simp [intact.alive task member] at fresh
  have outside : ∀ other ∈ nodes ++ heldTasks system.workers, other ≠ task := by
    intro other member same
    exact unused (same ▸ member)
  obtain ⟨notQueued, notHeld⟩ := not_or.mp (mt List.mem_append.mpr unused)
  obtain ⟨distinct, _, _⟩ := List.nodup_append.mp intact.owned
  have still : ∀ others ⊆ nodes ++ heldTasks system.workers,
      others.map (system.appendTask id function arg task).jobOf = others.map system.jobOf := by
    intro others inside
    apply List.map_congr_left
    intro other member
    exact jobOf_appendTask (outside other (inside member))
  have nobody : .exited ∉ system.workers := by
    intro member
    simp [(intact.drained member).1] at opened
  refine ⟨intact.capacity, intact.staffed, queue_appendTask intact.queue distinct notQueued, ?_, ?_,
    ?_, ?_, ?_, ?_, ?_, ?_, ?_, intact.crew, intact.closing, intact.joined, intact.gone⟩
  · simp [PoolSystem.setCall, PoolSystem.appendTask, intact.count]
  · rw [intact.count, intact.capacity] at space
    simpa using space
  · change (nodes ++ [task] ++ heldTasks system.workers).Nodup
    rw [List.append_assoc, List.singleton_append, List.nodup_middle]
    exact List.nodup_cons.mpr ⟨unused, intact.owned⟩
  · intro other member
    by_cases same : other = task
    · simp [PoolSystem.setCall, PoolSystem.appendTask, same]
    · have old : other ∈ nodes ++ heldTasks system.workers := by
        simpa [PoolSystem.setCall, PoolSystem.appendTask, same] using member
      simpa [PoolSystem.setCall, PoolSystem.appendTask, Function.update_of_ne same] using
        intact.alive other old
  · change system.enqueued ++ [⟨id, function, arg⟩] = system.dequeued ++ (nodes ++ [task]).map
      (system.appendTask id function arg task).jobOf
    rw [List.map_append, still nodes (List.subset_append_left _ _), intact.order, List.append_assoc]
    simp [jobOf_appendTask_self]
  · change ((system.enqueued ++ [(⟨id, function, arg⟩ : Job)]).map Job.call).Nodup
    rw [List.map_append]
    exact List.nodup_append_comm.mp (List.nodup_cons.mpr ⟨pending, intact.once⟩)
  · intro job
    change job ∈ system.enqueued ++ [(⟨id, function, arg⟩ : Job)] ↔ Function.update system.calls id
      (some ⟨function, arg, .returned 0⟩) job.call = _
    rw [List.mem_append, List.mem_singleton]
    by_cases same : job.call = id
    · have absent : job ∉ system.enqueued := by
        intro member
        exact pending (same ▸ List.mem_map_of_mem member)
      subst id
      cases job
      simp [absent, eq_comm]
    · have other : job ≠ ⟨id, function, arg⟩ := by
        intro equal
        exact same (by rw [equal])
      rw [Function.update_of_ne same, ← intact.accepted job]
      simp [other]
  · change system.dequeued.Perm (system.executed ++ (heldTasks system.workers).map
      (system.appendTask id function arg task).jobOf)
    rw [still _ (List.subset_append_right _ _)]
    exact intact.taken
  · intro member
    exact absurd member nobody

theorem threadPoolAddTask (intact : system.Intact maxTasks nodes) {after : PoolSystem}
    {id function arg : Nat} {malloc : Option Nat} (pending : id ∉ system.enqueued.map Job.call)
    (ran : system.threadPoolAddTask id function arg malloc = some after) :
    ∃ nodes, after.Intact maxTasks nodes := by
  unfold PoolSystem.threadPoolAddTask at ran
  split_ifs at ran with closed full
  · cases ran
    exact ⟨nodes, intact.setCall pending (by simp)⟩
  · cases ran
    exact ⟨nodes, intact.setCall pending (by simp)⟩
  · cases malloc with
    | none =>
      cases ran
      exact ⟨nodes, intact.setCall pending (by simp)⟩
    | some task =>
      obtain ⟨fresh, rfl⟩ : system.allocated task = false ∧ _ := by simpa using ran
      exact ⟨_, intact.appendTask function arg (by simpa using closed)
        (not_le.mp full) fresh pending⟩

section Worker
variable {index : Nat} {old : Worker}

theorem joined_set (intact : system.Intact maxTasks nodes)
    (standing : system.workers[index]? = some old)
    (running : old ≠ .exited) (worker : Worker) (count : Nat)
    (destroyer : system.destroyer = .joining count) :
    ∀ other ∈ (system.workers.set index worker).take count, other = .exited := by
  have later : count ≤ index := by
    by_contra early
    have seen : (system.workers.take count)[index]? = some old := by
      rw [List.getElem?_take_of_lt (not_le.mp early)]
      exact standing
    exact running (intact.joined count destroyer old (List.mem_of_getElem? seen))
  rw [List.take_set_of_le later]
  exact intact.joined count destroyer

theorem gone_set (intact : system.Intact maxTasks nodes)
    (standing : system.workers[index]? = some old)
    (running : old ≠ .exited) (worker : Worker) (destroyer : system.destroyer = .done) :
    ∀ other ∈ system.workers.set index worker, other = .exited :=
  absurd (intact.gone destroyer old (List.mem_of_getElem? standing)) running

/-- A worker that goes to wait, or exits once the pool is shut down and drained. -/
theorem setWorker (intact : system.Intact maxTasks nodes) {worker : Worker}
    (standing : system.workers[index]? = some old) (running : old ≠ .exited)
    (empty : old.task? = none) (stillEmpty : worker.task? = none)
    (exits : worker = .exited → system.pool.shutdown = true ∧ nodes = []) :
    (system.setWorker index worker).Intact maxTasks nodes := by
  obtain ⟨others, before, after⟩ := heldTasks_set standing
  have same : (heldTasks (system.workers.set index worker)).Perm (heldTasks system.workers) := by
    refine (after worker).trans (before.trans ?_).symm
    rw [empty, stillEmpty]
  refine { intact with
    owned := ?_, alive := ?_, taken := ?_, drained := ?_, crew := ?_,
    joined := intact.joined_set standing running worker,
    gone := intact.gone_set standing running worker }
  · exact ((same.append_left nodes).nodup_iff).mpr intact.owned
  · intro task member
    exact intact.alive task ((same.append_left nodes).mem_iff.mp member)
  · exact intact.taken.trans ((same.symm.map _).append_left _)
  · intro member
    rcases List.mem_or_eq_of_mem_set member with earlier | now
    · exact intact.drained earlier
    · exact exits now.symm
  · exact intact.crew.trans (by simp [PoolSystem.setWorker])

theorem takeTask {task : Nat} (intact : system.Intact maxTasks (task :: nodes))
    (standing : system.workers[index]? = some old) (running : old ≠ .exited)
    (empty : old.task? = none) :
    ((system.takeTask task).setWorker index (.holding (some task))).Intact maxTasks nodes := by
  obtain ⟨others, before, after⟩ := heldTasks_set standing
  rw [empty] at before
  have moved : (heldTasks (system.workers.set index (.holding (some task)))).Perm
      (task :: heldTasks system.workers) :=
    (after _).trans (List.Perm.cons task before).symm
  have owners : (nodes ++ heldTasks (system.workers.set index (.holding (some task)))).Perm
      (task :: nodes ++ heldTasks system.workers) :=
    (moved.append_left nodes).trans List.perm_middle
  refine ⟨intact.capacity, intact.staffed, intact.queue.dequeue, ?_, ?_, ?_, ?_, ?_, intact.once,
    intact.accepted, ?_, ?_, ?_, intact.closing, intact.joined_set standing running _,
    intact.gone_set standing running _⟩
  · simp [PoolSystem.setWorker, PoolSystem.takeTask, intact.count]
  · have room := intact.room
    rw [List.length_cons, Nat.cast_add] at room
    exact (Int.le_add_one (Int.le_refl _)).trans room
  · exact owners.nodup_iff.mpr intact.owned
  · intro other member
    exact intact.alive other (owners.mem_iff.mp member)
  · change system.enqueued = system.dequeued ++ [system.jobOf task] ++ nodes.map system.jobOf
    rw [intact.order]
    simp
  · change (system.dequeued ++ [system.jobOf task]).Perm (system.executed ++
      (heldTasks (system.workers.set index (.holding (some task)))).map system.jobOf)
    calc (system.dequeued ++ [system.jobOf task]).Perm
          (system.executed ++ (heldTasks system.workers).map system.jobOf ++ [system.jobOf task]) :=
            intact.taken.append_right _
      List.Perm _ (system.executed ++ (task :: heldTasks system.workers).map system.jobOf) := by
            rw [List.append_assoc, List.map_cons]
            exact (List.perm_append_singleton _ _).append_left _
      List.Perm _ _ := ((moved.map _).append_left _).symm
  · intro member
    rcases List.mem_or_eq_of_mem_set member with earlier | now
    · exact absurd (intact.drained earlier).2 (List.cons_ne_nil _ _)
    · cases now
  · exact intact.crew.trans (by simp [PoolSystem.setWorker, PoolSystem.takeTask])

theorem workerLocked (intact : system.Intact maxTasks nodes)
    (standing : system.workers[index]? = some old) (running : old ≠ .exited)
    (empty : old.task? = none) : ∃ nodes, (system.workerLocked index).Intact maxTasks nodes := by
  unfold PoolSystem.workerLocked
  split_ifs with idle leave
  · exact ⟨nodes, intact.setWorker standing running empty rfl (by simp)⟩
  · have none_left : nodes = [] := by simpa [intact.count] using leave.2
    exact ⟨nodes, intact.setWorker standing running empty rfl fun _ => ⟨leave.1, none_left⟩⟩
  · rw [intact.queue.head]
    cases nodes with
    | nil => exact ⟨[], intact.setWorker standing running empty rfl (by simp)⟩
    | cons task nodes => exact ⟨nodes, intact.takeTask standing running empty⟩

theorem workerExecute (intact : system.Intact maxTasks nodes) {task : Option Nat}
    (standing : system.workers[index]? = some (.holding task)) :
    (system.workerExecute index task).Intact maxTasks nodes := by
  cases task with
  | none => exact intact.setWorker standing (by simp) rfl rfl (by simp)
  | some task =>
    obtain ⟨others, before, after⟩ := heldTasks_set standing
    have kept : (heldTasks (system.workers.set index .locking)).Perm others := after .locking
    have owners : (nodes ++ heldTasks system.workers).Perm
        (task :: (nodes ++ heldTasks (system.workers.set index .locking))) :=
      calc (nodes ++ heldTasks system.workers).Perm (nodes ++ task :: others) :=
            before.append_left nodes
        List.Perm _ (task :: (nodes ++ others)) := List.perm_middle
        List.Perm _ _ := ((kept.append_left nodes).symm).cons task
    obtain ⟨released, distinct⟩ := List.nodup_cons.mp (owners.nodup_iff.mp intact.owned)
    refine { intact with
      owned := distinct, alive := ?_, taken := ?_, drained := ?_, crew := ?_,
      joined := intact.joined_set standing (by simp) .locking,
      gone := intact.gone_set standing (by simp) .locking }
    · intro other member
      have different : other ≠ task := by
        intro same
        exact released (same ▸ member)
      have old : system.allocated other = true :=
        intact.alive other (owners.mem_iff.mpr (List.mem_cons_of_mem _ member))
      simpa [PoolSystem.workerExecute, Function.update_of_ne different] using old
    · change system.dequeued.Perm (system.executed ++ [system.jobOf task] ++
        (heldTasks (system.workers.set index .locking)).map system.jobOf)
      rw [List.append_assoc, List.singleton_append, ← List.map_cons]
      refine intact.taken.trans ((List.Perm.map _ ?_).append_left _)
      exact before.trans (kept.symm.cons task)
    · intro member
      rcases List.mem_or_eq_of_mem_set member with earlier | now
      · exact intact.drained earlier
      · cases now
    · exact intact.crew.trans (by simp [PoolSystem.setWorker, PoolSystem.workerExecute])

end Worker

theorem joinNext (intact : system.Intact maxTasks nodes) {index : Nat}
    (destroyer : system.destroyer = .joining index)
    (standing : system.workers[index]? = some .exited) :
    ({ system with destroyer := .joining (index + 1) } : PoolSystem).Intact maxTasks nodes := by
  refine { intact with closing := ?_, joined := ?_, gone := by simp }
  · intro _
    exact intact.closing (by simp [destroyer])
  · intro count same worker member
    cases same
    rw [List.take_add_one, standing, List.mem_append] at member
    rcases member with earlier | last
    · exact intact.joined index destroyer worker earlier
    · simpa using last

theorem all_exited (intact : system.Intact maxTasks nodes) (joined : system.Joined) :
    ∀ worker ∈ system.workers, worker = .exited := by
  cases destroyer : system.destroyer with
  | idle => simp [Joined, destroyer] at joined
  | joining index =>
    have enough : system.workers.length ≤ index := by
      simpa [Joined, destroyer, intact.crew] using joined
    have joined := intact.joined index destroyer
    rwa [List.take_of_length_le enough] at joined
  | done => exact intact.gone destroyer

theorem drained_of_joined (intact : system.Intact maxTasks nodes) (joined : system.Joined) :
    nodes = [] ∧ heldTasks system.workers = [] := by
  have exited := intact.all_exited joined
  constructor
  · have staffed := intact.staffed
    rw [intact.crew, Int.natCast_pos] at staffed
    obtain ⟨worker, member⟩ := List.exists_mem_of_length_pos staffed
    exact (intact.drained (exited worker member ▸ member)).2
  · rw [heldTasks, List.filterMap_eq_nil_iff]
    intro worker member
    rw [exited worker member]
    rfl

theorem cleanup (intact : system.Intact maxTasks nodes) (joined : system.Joined) (fuel : Nat)
    (closed : system.destroyer ≠ .idle) :
    ({ system with
        allocated := freeTasks system.heap fuel system.allocated system.pool.taskHead,
        destroyer := .done } : PoolSystem).Intact maxTasks nodes := by
  obtain ⟨rfl, _⟩ := intact.drained_of_joined joined
  have nothing : freeTasks system.heap fuel system.allocated system.pool.taskHead =
      system.allocated := by
    rw [intact.queue.head]
    cases fuel <;> rfl
  refine { intact with alive := ?_, closing := ?_, joined := by simp, gone := ?_ }
  · rw [nothing]
    exact intact.alive
  · intro _
    exact intact.closing closed
  · intro _
    exact intact.all_exited joined

/-- Every step of every thread keeps the invariant. -/
theorem step (intact : system.Intact maxTasks nodes) {action : PoolAction} {after : PoolSystem}
    (ran : system.step action = some after) : ∃ nodes, after.Intact maxTasks nodes := by
  unfold PoolSystem.step at ran
  rw [Option.ite_none_left_eq_some] at ran
  obtain ⟨_, ran⟩ := ran
  cases action with
  | call id function arg =>
    cases standing : system.calls id with
    | some call => simp [standing] at ran
    | none =>
      have pending : id ∉ system.enqueued.map Job.call := intact.not_enqueued (by simp [standing])
      cases function with
      | none =>
        simp only [standing, Option.some.injEq] at ran
        subst after
        exact ⟨nodes, intact.setCall pending (by simp)⟩
      | some function =>
        simp only [standing, Option.some.injEq] at ran
        subst after
        exact ⟨nodes, intact.setCall pending (by simp)⟩
  | add id malloc =>
    rcases standing : system.calls id with _ | ⟨_ | function, arg, _ | _ | code⟩ <;>
      simp only [standing, reduceCtorEq] at ran
    · exact intact.threadPoolAddTask (intact.not_enqueued (by simp [standing])) ran
    · exact intact.threadPoolAddTask (intact.not_enqueued (by simp [standing])) ran
  | work index =>
    rcases standing : system.workers[index]? with _ | (_ | _ | task | _) <;>
      simp only [standing, reduceCtorEq, Option.some.injEq] at ran
    · subst after
      exact intact.workerLocked standing (by simp) rfl
    · subst after
      exact intact.workerLocked standing (by simp) rfl
  | execute index =>
    rcases standing : system.workers[index]? with _ | (_ | _ | task | _) <;>
      simp only [standing, reduceCtorEq, Option.some.injEq] at ran
    subst after
    exact ⟨nodes, intact.workerExecute standing⟩
  | shutdown =>
    rcases standing : system.destroyer with _ | index | _ <;>
      simp only [standing, reduceCtorEq, Option.some.injEq] at ran
    subst after
    refine ⟨nodes, { intact with drained := ?_, closing := ?_, joined := ?_, gone := by simp }⟩
    · intro member
      exact ⟨rfl, (intact.drained member).2⟩
    · intro _
      rfl
    · intro index same
      cases same
      simp
  | join =>
    rcases standing : system.destroyer with _ | index | _ <;>
      simp only [standing, reduceCtorEq] at ran
    obtain ⟨_, ran⟩ := Option.ite_none_right_eq_some.mp ran
    rcases finished : system.workers[index]? with _ | (_ | _ | task | _) <;>
      simp only [finished, reduceCtorEq, Option.some.injEq] at ran
    subst after
    exact ⟨nodes, intact.joinNext standing finished⟩
  | cleanup =>
    rcases standing : system.destroyer with _ | index | _ <;>
      simp only [standing, reduceCtorEq] at ran
    obtain ⟨enough, ran⟩ := Option.ite_none_left_eq_some.mp ran
    cases ran
    have joined : system.Joined := by
      rw [Joined, standing]
      exact not_lt.mp enough
    exact ⟨nodes, intact.cleanup joined _ (by simp [standing])⟩

end Intact

/-- With one task for each call, the executions of a call's task are all of them. -/
theorem filter_call {jobs : List Job} (distinct : (jobs.map Job.call).Nodup) {job : Job}
    (member : job ∈ jobs) : jobs.filter (·.call = job.call) = [job] := by
  apply List.perm_singleton.mp
  apply (List.perm_ext_iff_of_nodup (distinct.of_map.filter _) (List.nodup_singleton job)).mpr
  intro other
  simp only [List.mem_filter, decide_eq_true_eq, List.mem_singleton]
  constructor
  · intro ⟨present, same⟩
    exact List.inj_on_of_nodup_map distinct present member same
  · intro same
    subst other
    exact ⟨member, rfl⟩

/-- Every interleaving of producers, workers and one destroy, from creation on. -/
theorem thread_pool_every_interleaving {threadCount maxTasks : Int} {heap : Nat → Task}
    {allocated : Nat → Bool} {resources : Bool} {threadStarts : Nat → Bool}
    {start system : PoolSystem} {actions : List PoolAction}
    (created : threadPoolCreate threadCount maxTasks heap allocated resources threadStarts =
      some start)
    (ran : Machine.follow PoolSystem.step start actions = some system) :
    (∃ nodes, Queue system.next system.pool.taskHead system.pool.taskTail nodes ∧
      system.pool.taskCount = nodes.length ∧
      0 ≤ system.pool.taskCount ∧ system.pool.taskCount ≤ maxTasks ∧
      system.enqueued = system.dequeued ++ nodes.map system.jobOf) ∧
    (system.Joined →
      (∀ id function arg, system.calls id = some ⟨some function, arg, .returned 0⟩ →
        system.executed.filter (·.call = id) = [⟨id, function, arg⟩]) ∧
      (∀ id function arg, system.calls id = some ⟨function, arg, .returned (-1)⟩ →
        system.executed.filter (·.call = id) = [])) := by
  have keeps : ∀ (state : PoolSystem) (action : PoolAction) (next : PoolSystem),
      (∃ nodes, state.Intact maxTasks nodes) → state.step action = some next →
        ∃ nodes, next.Intact maxTasks nodes := by
    intro state action next ⟨nodes, intact⟩ stepped
    exact intact.step stepped
  obtain ⟨nodes, intact⟩ :=
    Machine.follow_keeps keeps ⟨[], threadPoolCreate_intact created⟩ ran
  refine ⟨⟨nodes, intact.queue, intact.count, ?_, ?_, intact.order⟩, ?_⟩
  · rw [intact.count]
    exact Int.natCast_nonneg _
  · rw [intact.count]
    exact intact.room
  · intro joined
    obtain ⟨rfl, nothingHeld⟩ := intact.drained_of_joined joined
    have all : system.enqueued.Perm system.executed := by
      simpa [intact.order, nothingHeld] using intact.taken
    refine ⟨?_, ?_⟩
    · intro id function arg success
      have member := all.mem_iff.mp ((intact.accepted ⟨id, function, arg⟩).mpr success)
      exact filter_call ((all.map _).nodup_iff.mp intact.once) member
    · intro id function arg failure
      rw [List.filter_eq_nil_iff]
      intro job member
      have success := (intact.accepted job).mp (all.mem_iff.mpr member)
      intro same
      rw [of_decide_eq_true same, failure] at success
      cases success

/-- Two workers, room for one task: a producer waits for space, a second one is
refused after the shutdown, and the destroy joins both workers. -/
def waitingProducerRun : List PoolAction :=
  [.call 0 (some 7) 1, .add 0 (some 100), .call 1 (some 8) 2, .add 1 (some 101), .work 0,
    .execute 0, .add 1 (some 100), .call 2 (some 9) 3, .add 2 (some 102), .shutdown,
    .add 2 (some 102), .work 1, .execute 1, .work 0, .work 1, .join, .join]

theorem thread_pool_every_interleaving_waiting_producer :
    ∃ start system, threadPoolCreate 2 1 (fun _ => ⟨0, 0, none, 0⟩) (fun _ => false) true
        (fun _ => true) = some start ∧
      Machine.follow PoolSystem.step start waitingProducerRun = some system ∧ system.Joined ∧
      system.executed.filter (·.call = 0) = [⟨0, 7, 1⟩] ∧
      system.executed.filter (·.call = 1) = [⟨1, 8, 2⟩] ∧
      system.executed.filter (·.call = 2) = [] := by
  let start := (threadPoolCreate 2 1 (fun _ => ⟨0, 0, none, 0⟩) (fun _ => false) true
    (fun _ => true)).get rfl
  have created : threadPoolCreate 2 1 (fun _ => ⟨0, 0, none, 0⟩) (fun _ => false) true
    (fun _ => true) = some start := rfl
  have finishes : (Machine.follow PoolSystem.step start waitingProducerRun).isSome := by
    decide +kernel
  obtain ⟨system, ran⟩ := Option.isSome_iff_exists.mp finishes
  have calls : (Machine.follow PoolSystem.step start waitingProducerRun).map
      (fun final => (final.calls 0, final.calls 1, final.calls 2, final.destroyer,
        final.pool.threadCount)) =
      some (some ⟨some 7, 1, .returned 0⟩, some ⟨some 8, 2, .returned 0⟩,
        some ⟨some 9, 3, .returned (-1)⟩, .joining 2, 2) := by
    decide +kernel
  simp only [ran, Option.map_some, Option.some.injEq, Prod.mk.injEq] at calls
  obtain ⟨first, second, third, destroyer, count⟩ := calls
  have joined : system.Joined := by
    rw [Joined, destroyer, count]
    decide
  obtain ⟨executed, refused⟩ := (thread_pool_every_interleaving created ran).2 joined
  exact ⟨start, system, created, ran, joined, executed 0 7 1 first, executed 1 8 2 second,
    refused 2 (some 9) 3 third⟩

end PoolSystem

end LinuxCLearning.FileServer
