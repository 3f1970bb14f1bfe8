import Mathlib
import LinuxCLearning.Base.LinkedList
import LinuxCLearning.Base.Machine

/-! The thread pool of the file server: producers inside `thread_pool_add_task`,
worker threads and one `thread_pool_destroy` over a task queue behind a mutex.
Every section under the mutex is one step and so is every execution of a task.
A condition wait may end at any time, which covers the signals that end it. -/

namespace LinuxCLearning.FileServer

/-- `task_t`. The field `call` is not in the code: it says which call of
`thread_pool_add_task` made the node. -/
structure Task where
  function : Nat
  arg : Nat
  next : Option Nat
  call : Nat

/-- What a call of `thread_pool_add_task` asks for. -/
structure Job where
  call : Nat
  function : Nat
  arg : Nat
  deriving DecidableEq

def Task.job (task : Task) : Job := ⟨task.call, task.function, task.arg⟩

structure ThreadPool where
  taskHead : Option Nat
  taskTail : Option Nat
  threadCount : Int
  taskCount : Int
  maxTasks : Int
  shutdown : Bool

/-- Where one call of `thread_pool_add_task` stands: before the mutex, in the wait
for `not_full`, or back with its result. -/
inductive AddStage where
  | entered
  | waiting
  | returned (code : Int)
  deriving DecidableEq

/-- A call with its arguments; a null `function` is `none`. -/
structure AddCall where
  function : Option Nat
  arg : Nat
  stage : AddStage
  deriving DecidableEq

/-- Where a worker stands: before its mutex, in the wait for `not_empty`, about
to execute what it took off the queue, or past `pthread_exit`. -/
inductive Worker where
  | locking
  | waiting
  | holding (task : Option Nat)
  | exited

/-- Where `thread_pool_destroy` stands: joining the worker with an index, or done. -/
inductive Destroyer where
  | idle
  | joining (index : Nat)
  | done
  deriving DecidableEq

/-- The pool, the heap and all threads. The three histories list the tasks that were
enqueued, dequeued and executed, in this order. -/
structure PoolSystem where
  pool : ThreadPool
  heap : Nat → Task
  allocated : Nat → Bool
  calls : Nat → Option AddCall
  workers : List Worker
  destroyer : Destroyer
  enqueued : List Job
  dequeued : List Job
  executed : List Job

/-- `thread_pool_create`. `resources` is the outcome of the allocations and of the
mutex and condition initialisers, `threadStarts` that of each `pthread_create`. -/
def threadPoolCreate (threadCount maxTasks : Int) (heap : Nat → Task) (allocated : Nat → Bool)
    (resources : Bool) (threadStarts : Nat → Bool) : Option PoolSystem :=
  if threadCount ≤ 0 ∨ maxTasks ≤ 0 then none
  else if resources && (List.range threadCount.toNat).all threadStarts then
    some {
      pool := ⟨none, none, threadCount, 0, maxTasks, false⟩
      heap, allocated
      calls := fun _ => none
      workers := List.replicate threadCount.toNat .locking
      destroyer := .idle
      enqueued := [], dequeued := [], executed := [] }
  else none

namespace PoolSystem

def setCall (system : PoolSystem) (id : Nat) (call : AddCall) : PoolSystem :=
  { system with calls := Function.update system.calls id (some call) }

def setWorker (system : PoolSystem) (index : Nat) (worker : Worker) : PoolSystem :=
  { system with workers := system.workers.set index worker }

/-- `pool->task_tail->next = task`, when there is a tail. -/
def linkTail (heap : Nat → Task) (tail : Option Nat) (task : Nat) : Nat → Task :=
  match tail with
  | some last => Function.update heap last { heap last with next := some task }
  | none => heap

/-- A node just allocated goes behind the tail. -/
def appendTask (system : PoolSystem) (id function arg task : Nat) : PoolSystem :=
  let filled := Function.update system.heap task ⟨function, arg, none, id⟩
  { system with
    heap := linkTail filled system.pool.taskTail task
    allocated := Function.update system.allocated task true
    pool := { system.pool with
      taskHead := if system.pool.taskTail.isSome then system.pool.taskHead else some task
      taskTail := some task
      taskCount := system.pool.taskCount + 1 }
    enqueued := system.enqueued ++ [⟨id, function, arg⟩] }

/-- `thread_pool_add_task` under the mutex, from the lock or from the end of a
wait on: give up after a shutdown, wait while the queue is full, else allocate
and append. `malloc` is the outcome of the allocation; the call that it does not
reach ignores it. -/
def threadPoolAddTask (system : PoolSystem) (id function arg : Nat) (malloc : Option Nat) :
    Option PoolSystem :=
  if system.pool.shutdown then some (system.setCall id ⟨function, arg, .returned (-1)⟩)
  else if system.pool.taskCount ≥ system.pool.maxTasks then
    some (system.setCall id ⟨function, arg, .waiting⟩)
  else
    match malloc with
    | none => some (system.setCall id ⟨function, arg, .returned (-1)⟩)
    | some task =>
      if system.allocated task then none
      else some ((system.appendTask id function arg task).setCall id ⟨function, arg, .returned 0⟩)

/-- The part of `worker_thread` that takes the first task off the queue. -/
def takeTask (system : PoolSystem) (task : Nat) : PoolSystem :=
  let next := (system.heap task).next
  { system with
    pool := { system.pool with
      taskHead := next
      taskTail := if next = none then none else system.pool.taskTail
      taskCount := system.pool.taskCount - 1 }
    dequeued := system.dequeued ++ [(system.heap task).job] }

/-- `worker_thread` under the mutex, from the lock or from the end of a wait on. -/
def workerLocked (system : PoolSystem) (index : Nat) : PoolSystem :=
  if system.pool.taskCount = 0 ∧ system.pool.shutdown = false then system.setWorker index .waiting
  else if system.pool.shutdown = true ∧ system.pool.taskCount = 0 then
    system.setWorker index .exited
  else
    match system.pool.taskHead with
    | none => system.setWorker index (.holding none)
    | some task => (system.takeTask task).setWorker index (.holding (some task))

/-- `worker_thread` outside the mutex: execute the task, if any, and free it. -/
def workerExecute (system : PoolSystem) (index : Nat) : Option Nat → PoolSystem
  | none => system.setWorker index .locking
  | some task =>
    { system.setWorker index .locking with
      allocated := Function.update system.allocated task false
      executed := system.executed ++ [(system.heap task).job] }

/-- The loop of `thread_pool_destroy` that frees what is left in the queue; `fuel`
bounds the number of nodes. -/
def freeTasks (heap : Nat → Task) : Nat → (Nat → Bool) → Option Nat → (Nat → Bool)
  | fuel + 1, allocated, some task =>
    freeTasks heap fuel (Function.update allocated task false) (heap task).next
  | _, allocated, _ => allocated

end PoolSystem

/-- One step of one thread. -/
inductive PoolAction where
  | call (id : Nat) (function : Option Nat) (arg : Nat)
  | add (id : Nat) (malloc : Option Nat)
  | work (index : Nat)
  | execute (index : Nat)
  | shutdown
  | join
  | cleanup

namespace PoolSystem

/-- The state after a step of a thread, `none` when that thread cannot take it.
Once `thread_pool_destroy` has freed the pool nobody may use it. -/
def step (system : PoolSystem) (action : PoolAction) : Option PoolSystem :=
  if system.destroyer = .done then none else
  match action with
  | .call id function arg =>
    match system.calls id, function with
    | some _, _ => none
    | none, none => some (system.setCall id ⟨none, arg, .returned (-1)⟩)
    | none, some function => some (system.setCall id ⟨function, arg, .entered⟩)
  | .add id malloc =>
    match system.calls id with
    | some ⟨some function, arg, .entered⟩ => system.threadPoolAddTask id function arg malloc
    | some ⟨some function, arg, .waiting⟩ => system.threadPoolAddTask id function arg malloc
    | _ => none
  | .work index =>
    match system.workers[index]? with
    | some .locking => some (system.workerLocked index)
    | some .waiting => some (system.workerLocked index)
    | _ => none
  | .execute index =>
    match system.workers[index]? with
    | some (.holding task) => some (system.workerExecute index task)
    | _ => none
  | .shutdown =>
    match system.destroyer with
    | .idle => some { system with pool.shutdown := true, destroyer := .joining 0 }
    | _ => none
  | .join =>
    match system.destroyer with
    | .joining index =>
      if index < system.pool.threadCount then
        match system.workers[index]? with
        | some .exited => some { system with destroyer := .joining (index + 1) }
        | _ => none
      else none
    | _ => none
  | .cleanup =>
    match system.destroyer with
    | .joining index =>
      if index < system.pool.threadCount then none
      else some { system with
        allocated := freeTasks system.heap system.pool.taskCount.toNat system.allocated
          system.pool.taskHead
        destroyer := .done }
    | _ => none

/-- `thread_pool_destroy` has joined every worker. -/
def Joined (system : PoolSystem) : Prop :=
  match system.destroyer with
  | .idle => False
  | .joining index => system.pool.threadCount ≤ index
  | .done => True

end PoolSystem

end LinuxCLearning.FileServer
