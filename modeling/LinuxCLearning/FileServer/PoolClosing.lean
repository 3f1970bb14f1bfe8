import LinuxCLearning.Base.Monitor
import LinuxCLearning.FileServer.ThreadPool

/-! How the workers of the thread pool end: `thread_pool_destroy` sets `shutdown` under the mutex,
the way back in `thread_pool_create` sets it without. -/

namespace LinuxCLearning.FileServer

open Machine Monitor LinkedList

/-- The part of the pool that the workers share. -/
structure SharedPool where
  pool : ThreadPool
  heap : Nat → Task

def SharedPool.next (shared : SharedPool) (task : Nat) : Option Nat := (shared.heap task).next

/-- The first task off the queue. -/
def SharedPool.take (shared : SharedPool) (task : Nat) : SharedPool :=
  let next := shared.next task
  { shared with pool := { shared.pool with
      taskHead := next
      taskTail := if next = none then none else shared.pool.taskTail
      taskCount := shared.pool.taskCount - 1 } }

/-- `worker_thread`; its place is `task`. -/
def poolLoop : Loop SharedPool (Option Nat) where
  head _ _ := some none
  blocks shared := shared.pool.taskCount = 0 && !shared.pool.shutdown
  enter shared _ :=
    if shared.pool.shutdown ∧ shared.pool.taskCount = 0 then (shared, .ended)
    else
      match shared.pool.taskHead with
      | none => (shared, .outside none)
      | some task => (shared.take task, .busy (some task))

/-- The pool is shut down and its counter says how many tasks are in the queue. -/
def ShutDown (shared : SharedPool) : Prop :=
  shared.pool.shutdown = true ∧ ∃ nodes,
    Queue shared.next shared.pool.taskHead shared.pool.taskTail nodes ∧
    shared.pool.taskCount = nodes.length

def poolRank : Phase (Option Nat) → Nat
  | .outside _ => 2
  | .locking _ => 1
  | .busy _ => 3
  | .checked _ => 1
  | .asleep _ => 0
  | .ended => 0

theorem poolLoop_enter {shared : SharedPool} (closed : ShutDown shared) (place : Option Nat) :
    (poolLoop.enter shared place = (shared, .ended)) ∨
      ∃ task after, poolLoop.enter shared place = (after, .busy (some task)) ∧ ShutDown after ∧
        after.pool.taskCount.toNat < shared.pool.taskCount.toNat := by
  obtain ⟨shutdown, nodes, queue, count⟩ := closed
  cases nodes with
  | nil =>
    left
    simp [poolLoop, shutdown, count]
  | cons task nodes =>
    right
    have some_task : ¬ (shared.pool.shutdown = true ∧ shared.pool.taskCount = 0) := by
      rw [count]
      simp
      omega
    have first : shared.pool.taskHead = some task := queue.head
    refine ⟨task, shared.take task, ?_, ⟨shutdown, nodes, queue.dequeue, ?_⟩, ?_⟩
    · simp only [poolLoop, if_neg some_task, first]
    · simp [SharedPool.take, count]
    · simp [SharedPool.take, count]

theorem poolLoop_finishing :
    poolLoop.Finishing ShutDown (fun shared => shared.pool.taskCount.toNat) poolRank where
  passes shared closed := by simp [poolLoop, closed.1]
  keeps shared place closed := by
    rcases poolLoop_enter closed place with entered | ⟨task, after, entered, still, _⟩
    · rwa [entered]
    · rwa [entered]
  enters shared place closed := by
    rcases poolLoop_enter closed place with entered | ⟨task, after, entered, _, fewer⟩
    · exact Or.inr ⟨by rw [entered], by simp [entered, poolRank]⟩
    · exact Or.inl (by rwa [entered])
  lively shared place := by
    simp only [poolLoop]
    split
    · rfl
    · split <;> rfl
  heads shared place closed := by simp [poolLoop, poolRank]
  works place := by simp [poolRank]
  rests place := by simp [poolRank]

/-- `thread_pool_destroy` up to the joins, for which it needs the mutex. -/
def threadPoolDestroy (state : State SharedPool (Option Nat)) :
    Option (State SharedPool (Option Nat)) :=
  if state.free then some (State.broadcast { state with shared.pool.shutdown := true }) else none

/-- `thread_pool_create` where `pthread_create` fails, after its store to `shutdown`; what is left
up to the joins of the workers that it has created is the broadcast. -/
def rollBack (state : State SharedPool (Option Nat)) : Ending SharedPool (Option Nat) :=
  ⟨{ state with shared.pool.shutdown := true }, false⟩

/-- One worker at the mutex and one in its wait, with a task in the queue. -/
def twoWorkers : State SharedPool (Option Nat) :=
  ⟨⟨⟨some 7, some 7, 2, 1, 4, false⟩, fun _ => ⟨0, 0, none, 0⟩⟩, [.locking none, .asleep none]⟩

end LinuxCLearning.FileServer
