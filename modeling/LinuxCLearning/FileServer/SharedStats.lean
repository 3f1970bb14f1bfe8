import LinuxCLearning.Base.SharedLock

/-! The statistics in shared memory: worker processes count under a lock for readers and writers,
the admin interface reads, and the pool may terminate the workers at any time. -/

namespace LinuxCLearning.FileServer

open Machine SharedLock

/-- The counters of `shm_stats_t`. -/
@[ext] structure ShmStats where
  clientCount : Int32
  totalRequests : Int32
  totalBytesSent : UInt64
  totalBytesRecv : UInt64
  deriving DecidableEq

inductive ShmCall where
  | incClients
  | decClients
  | addBytes (sent recv : UInt64)
  | incRequests
  | getStats
  deriving DecidableEq

/-- A process loads a counter into its own copy, and stores what it makes of that. -/
abbrev ShmStep := Step ShmStats ShmStats

def loadClients : ShmStep :=
  fun stats copy => (stats, { copy with clientCount := stats.clientCount })

def storeClients (change : Int32 → Int32) : ShmStep :=
  fun stats copy => ({ stats with clientCount := change copy.clientCount }, copy)

def loadRequests : ShmStep :=
  fun stats copy => (stats, { copy with totalRequests := stats.totalRequests })

def storeRequests (change : Int32 → Int32) : ShmStep :=
  fun stats copy => ({ stats with totalRequests := change copy.totalRequests }, copy)

def loadSent : ShmStep :=
  fun stats copy => (stats, { copy with totalBytesSent := stats.totalBytesSent })

def storeSent (change : UInt64 → UInt64) : ShmStep :=
  fun stats copy => ({ stats with totalBytesSent := change copy.totalBytesSent }, copy)

def loadRecv : ShmStep :=
  fun stats copy => (stats, { copy with totalBytesRecv := stats.totalBytesRecv })

def storeRecv (change : UInt64 → UInt64) : ShmStep :=
  fun stats copy => ({ stats with totalBytesRecv := change copy.totalBytesRecv }, copy)

namespace ShmCall

/-- What stands between the lock and the unlock. -/
def steps : ShmCall → List ShmStep
  | incClients => [loadClients, storeClients (· + 1)]
  | decClients => [loadClients, storeClients (· - 1)]
  | addBytes sent recv => [loadSent, storeSent (· + sent), loadRecv, storeRecv (· + recv)]
  | incRequests => [loadRequests, storeRequests (· + 1)]
  | getStats => [loadClients, loadRequests, loadSent, loadRecv]

/-- `pthread_rwlock_wrlock` or `pthread_rwlock_rdlock`. -/
def writes : ShmCall → Bool
  | getStats => false
  | _ => true

theorem steps_reading (call : ShmCall) (reads : call.writes = false) :
    ∀ step ∈ call.steps, ∀ stats copy, (step stats copy).1 = stats := by
  cases call with
  | getStats =>
    intro step member stats copy
    fin_cases member <;> rfl
  | _ => cases reads

def operation (call : ShmCall) : Operation ShmCall ShmStats ShmStats :=
  ⟨call, call.writes, ⟨0, 0, 0, 0⟩, call.steps, call.steps_reading⟩

/-- The bytes that a call adds. -/
def sent : ShmCall → UInt64
  | addBytes sent _ => sent
  | _ => 0

def recv : ShmCall → UInt64
  | addBytes _ recv => recv
  | _ => 0

end ShmCall

/-- The counters after some calls. -/
def counted (start : ShmStats) (calls : List ShmCall) : ShmStats where
  clientCount := start.clientCount + Int32.ofNat (calls.count .incClients) -
    Int32.ofNat (calls.count .decClients)
  totalRequests := start.totalRequests + Int32.ofNat (calls.count .incRequests)
  totalBytesSent := start.totalBytesSent + (calls.map ShmCall.sent).sum
  totalBytesRecv := start.totalBytesRecv + (calls.map ShmCall.recv).sum

section Counting

theorem operation_apply (call : ShmCall) (stats : ShmStats) :
    (call.operation.apply stats).2 = counted stats [call] := by
  cases call with
  | incClients =>
    simp [counted, ShmCall.sent, ShmCall.recv, Operation.apply, ShmCall.operation,
      ShmCall.steps, perform,
      loadClients, storeClients]
  | decClients =>
    simp [counted, ShmCall.sent, ShmCall.recv, Operation.apply, ShmCall.operation,
      ShmCall.steps, perform,
      loadClients, storeClients]
  | addBytes =>
    simp [counted, ShmCall.sent, ShmCall.recv, Operation.apply, ShmCall.operation,
      ShmCall.steps, perform,
      loadSent, storeSent, loadRecv, storeRecv]
  | incRequests =>
    simp [counted, ShmCall.sent, ShmCall.recv, Operation.apply, ShmCall.operation,
      ShmCall.steps, perform,
      loadRequests, storeRequests]
  | getStats =>
    simp [counted, ShmCall.sent, ShmCall.recv, Operation.apply, ShmCall.operation,
      ShmCall.steps, perform,
      loadClients, loadRequests, loadSent, loadRecv]

theorem getStats_answer (stats : ShmStats) : (ShmCall.getStats.operation.apply stats).1 = stats :=
  rfl

theorem counted_cons (start : ShmStats) (call : ShmCall) (calls : List ShmCall) :
    counted (counted start [call]) calls = counted start (call :: calls) := by
  cases call with
  | incClients =>
    simp [counted, ShmCall.sent, ShmCall.recv]
    grind
  | decClients =>
    simp [counted, ShmCall.sent, ShmCall.recv]
    grind
  | addBytes =>
    simp [counted, ShmCall.sent, ShmCall.recv]
    grind
  | incRequests =>
    simp [counted, ShmCall.sent, ShmCall.recv]
    grind
  | getStats => simp [counted, ShmCall.sent, ShmCall.recv]

theorem history_counted (start : ShmStats) (calls : List ShmCall) :
    (Machine.run Operation.apply start (calls.map ShmCall.operation)).2 = counted start calls := by
  induction calls generalizing start with
  | nil => simp [counted, Machine.run]
  | cons call calls ih =>
    rw [List.map_cons, run_cons, operation_apply]
    exact (ih _).trans (counted_cons start call calls)

end Counting

section Runs
variable {Owner : Type} [DecidableEq Owner] {start : ShmStats} {calls : Owner → List ShmCall}
  {state : State Owner ShmCall ShmStats ShmStats}

/-- Only what has been called stands in the log. -/
theorem calls_logged (consistent : Consistent (fun owner => (calls owner).map ShmCall.operation)
    start state) (owner : Owner) :
    ((state.log.filter (·.owner = owner)).map fun entry => entry.operation.call) <+:
      calls owner := by
  have split := congrArg (List.map Operation.call) (consistent.ordered owner)
  have same : Operation.call ∘ ShmCall.operation = id := rfl
  rw [List.map_append, List.map_map, List.map_map, same, List.map_id] at split
  exact ⟨_, split.symm⟩

theorem operation_logged (consistent : Consistent
    (fun owner => (calls owner).map ShmCall.operation) start state)
    {entry : Entry Owner ShmCall ShmStats ShmStats} (member : entry ∈ state.log) :
    entry.operation = entry.operation.call.operation := by
  have own : entry.operation ∈ (calls entry.owner).map ShmCall.operation := by
    rw [consistent.ordered entry.owner]
    exact List.mem_append_left
      _ (List.mem_map.mpr ⟨entry, List.mem_filter.mpr ⟨member, decide_eq_true rfl⟩, rfl⟩)
  obtain ⟨call, _, same⟩ := List.mem_map.mp own
  rw [← same]
  rfl

theorem history_logged (consistent : Consistent
    (fun owner => (calls owner).map ShmCall.operation) start state)
    {log : List (Entry Owner ShmCall ShmStats ShmStats)} (part : log ⊆ state.log) :
    (history start log).2 = counted start (log.map fun entry => entry.operation.call) := by
  have operations : log.map Entry.operation =
      (log.map fun entry => entry.operation.call).map ShmCall.operation := by
    rw [List.map_map]
    exact List.map_congr_left fun entry member => operation_logged consistent (part member)
  rw [history, operations, history_counted]

end Runs

/-- However the steps of the processes interleave and whoever is terminated on the way: no count is
lost or made twice. A reader gets the counters as they are between two calls, and when nobody
counts they are what the calls that have returned add up to. -/
theorem shared_stats_exact {Owner : Type} [Fintype Owner] [DecidableEq Owner] (start : ShmStats)
    (calls : Owner → List ShmCall)
    (state : State Owner ShmCall ShmStats ShmStats) (reached : Arrives State.step (fun _ _ => True)
      (.initial start fun owner => (calls owner).map ShmCall.operation) state) :
    (∀ owner, ((state.log.filter (·.owner = owner)).map fun entry => entry.operation.call) <+:
      calls owner) ∧
    (∀ front entry back, state.log = front ++ entry :: back → entry.operation.call = .getStats →
      entry.answer = counted start (front.map fun entry => entry.operation.call)) ∧
    ((∀ owner, (state.processes owner).writing = false) →
      state.data = counted start (state.log.map fun entry => entry.operation.call)) := by
  have consistent := consistent_of_arrives reached
  refine ⟨calls_logged consistent, ?_, ?_⟩
  · intro front entry back split reader
    have member : entry ∈ state.log := split ▸ List.mem_append_right _ List.mem_cons_self
    have part : front ⊆ state.log := split ▸ List.subset_append_left _ _
    rw [consistent.answer split, operation_logged consistent member, reader, getStats_answer,
      history_logged consistent part]
  · intro nobody
    rw [← consistent.settled nobody, history_logged consistent (List.Subset.refl _)]

/-- A worker that counts a client and the interface that reads. -/
def twoCalls : Bool → List ShmCall
  | true => [.incClients]
  | false => [.getStats]

/-- The interface reads behind the worker, which is terminated at its end. -/
theorem shared_stats_exact_two : ∃ state,
    follow State.step (State.initial ⟨0, 0, 0, 0⟩ fun owner =>
      (twoCalls owner).map ShmCall.operation)
      [.run true, .run true, .run true, .run true, .kill true, .run false] = some state ∧
      state.data = counted ⟨0, 0, 0, 0⟩ [.incClients] := by
  have run : ∃ state, follow State.step
      (State.initial ⟨0, 0, 0, 0⟩ fun owner => (twoCalls owner).map ShmCall.operation)
      [.run true, .run true, .run true, .run true, .kill true, .run false] = some state ∧
      state.log.map (fun entry => entry.operation.call) = [.incClients] ∧
      ∀ owner, (state.processes owner).writing = false := ⟨_, rfl, rfl, by decide⟩
  obtain ⟨state, ran, logged, nobody⟩ := run
  have reached := Arrives.start.follow (fun _ _ _ => trivial) ran
  refine ⟨state, ran, ?_⟩
  rw [(shared_stats_exact ⟨0, 0, 0, 0⟩ twoCalls state reached).2.2 nobody, logged]

/-- The processes, and which of them wait inside `pthread_rwlock_wrlock` or
`pthread_rwlock_rdlock`. -/
structure StatsSession (Worker : Type) where
  state : State (Option Worker) ShmCall ShmStats ShmStats
  waiting : Option Worker → Bool

/-- A process asks for the lock while it cannot have it, goes on, or is terminated. -/
inductive StatsAction (Worker : Type) where
  | asks (owner : Option Worker)
  | run (owner : Option Worker)
  | kill (worker : Worker)

/-- `process_pool_destroy` terminates the workers; the thread of the admin interface goes on. -/
def terminateWorkers {Worker : Type} (state : State (Option Worker) ShmCall ShmStats ShmStats) :
    State (Option Worker) ShmCall ShmStats ShmStats where
  data := state.data
  processes
    | none => state.processes none
    | some worker => { state.processes (some worker) with killed := true }
  log := state.log

namespace StatsSession
variable {Worker : Type} [Fintype Worker] [DecidableEq Worker]

def initial (start : ShmStats) (calls : Option Worker → List ShmCall) : StatsSession Worker :=
  ⟨.initial start fun owner => (calls owner).map ShmCall.operation, fun _ => false⟩

def step (session : StatsSession Worker) : StatsAction Worker → Option (StatsSession Worker)
  | .asks owner =>
    match session.state.processes owner with
    | ⟨.outside, operation :: _, false⟩ =>
      if session.state.free operation.writes then none
      else some { session with waiting := Function.update session.waiting owner true }
    | _ => none
  | .run owner =>
    (session.state.step (.run owner)).map fun state =>
      ⟨state, Function.update session.waiting owner false⟩
  | .kill worker =>
    (session.state.step (.kill (some worker))).map fun state => { session with state }

/-- Who is terminated does not wait for the lock, where a dead writer would keep its place. -/
def Admitted (session : StatsSession Worker) : StatsAction Worker → Prop
  | .kill worker => session.waiting (some worker) = false
  | _ => True

end StatsSession

section Termination
variable {Worker : Type} {state : State (Option Worker) ShmCall ShmStats ShmStats}

theorem terminate_current (owner : Option Worker) :
    ((terminateWorkers state).processes owner).current = (state.processes owner).current := by
  cases owner <;> rfl

variable [Fintype Worker] [DecidableEq Worker] {start : ShmStats}
  {calls : Option Worker → List ShmCall}
  {session : StatsSession Worker}

theorem session_consistent
    (reached : Arrives StatsSession.step StatsSession.Admitted (.initial start calls) session) :
    (session.state.processes none).killed = false ∧
      Consistent (fun owner => (calls owner).map ShmCall.operation) start session.state := by
  have ran {state next : State (Option Worker) ShmCall ShmStats ShmStats}
      {action : Action (Option Worker)}
      (other : action ≠ .kill none) (held : (state.processes none).killed = false ∧
        Consistent (fun owner => (calls owner).map ShmCall.operation) start state)
      (stepped : state.step action = some next) : (next.processes none).killed = false ∧
        Consistent (fun owner => (calls owner).map ShmCall.operation) start next := by
    refine ⟨?_, held.2.step stepped⟩
    cases action with
    | kill owner =>
      cases stepped
      have different : none ≠ owner := fun same => other (congrArg Action.kill same.symm)
      dsimp only
      rw [replace_other _ _ _ different]
      exact held.1
    | run owner =>
      obtain ⟨living, moves⟩ := run_eq_some.mp stepped
      by_cases same : none = owner
      · subst same
        rw [moves.forward.killed, living]
      · rw [moves.forward.others none same]
        exact held.1
  have initially : ((StatsSession.initial start calls).state.processes none).killed = false ∧
      Consistent (fun owner => (calls owner).map ShmCall.operation) start
          (StatsSession.initial start calls).state :=
    ⟨rfl, initial_consistent _ _⟩
  have keeps (session : StatsSession Worker) (action : StatsAction Worker)
      (next : StatsSession Worker)
      (held : (session.state.processes none).killed = false ∧
        Consistent (fun owner => (calls owner).map ShmCall.operation) start session.state)
      (_ : session.Admitted action) (stepped : session.step action = some next) :
      (next.state.processes none).killed = false ∧
        Consistent (fun owner => (calls owner).map ShmCall.operation) start next.state := by
    cases action with
    | asks owner =>
      simp only [StatsSession.step] at stepped
      split at stepped
      · split at stepped
        · cases stepped
        · cases stepped
          exact held
      · cases stepped
    | run owner =>
      obtain ⟨state, moved, rfl⟩ := Option.map_eq_some_iff.mp stepped
      have other : Action.run owner ≠ .kill none := by simp
      exact ran other held moved
    | kill worker =>
      cases stepped
      have other : Action.kill (some worker) ≠ .kill none := by simp
      exact ran other held rfl
  exact reached.keeps initially keeps

omit [Fintype Worker] [DecidableEq Worker] in
/-- Behind the termination somebody keeps the lock from the interface exactly if there is something
to read and a worker was between lock and unlock of a count. -/
theorem terminate_blocked_iff (living : (state.processes none).killed = false)
    (reading : ∀ wanted ∈ (state.processes none).remaining, wanted.writes = false) :
    (terminateWorkers state).Blocked ↔
      (state.processes none).remaining ≠ [] ∧ ∃ worker,
        (state.processes (some worker)).writing = true := by
  constructor
  · rintro ⟨holder, waiter, killed, alive, held, wanted, holds, member, conflict⟩
    cases waiter with
    | some worker => cases alive
    | none =>
      cases holder with
      | none => cases killed.symm.trans living
      | some worker =>
        rw [reading wanted member, Bool.or_false] at conflict
        refine ⟨List.ne_nil_of_mem member, worker, ?_⟩
        rw [terminate_current] at holds
        rw [Process.writing, holds, Option.any_some, conflict]
  · rintro ⟨more, worker, writing⟩
    obtain ⟨wanted, rest, remaining⟩ := List.exists_cons_of_ne_nil more
    rw [Process.writing, Option.any_eq_true] at writing
    obtain ⟨held, holds, writes⟩ := writing
    refine ⟨some worker, none, rfl, living, held, wanted, holds, ?_, by rw [writes, Bool.true_or]⟩
    exact remaining ▸ List.mem_cons_self

end Termination

/-- When the pool is destroyed at any moment at which no worker waits for the lock, the interface
gets to its end in every order of its steps exactly if nothing is to be read any more or no worker
has been terminated between lock and unlock of a count; else it does in no order. -/
theorem stats_read_after_destroy_iff {Worker : Type} [Fintype Worker]
    [DecidableEq Worker] (start : ShmStats)
    (calls : Option Worker → List ShmCall) (reads : ∀ call ∈ calls none, call = .getStats)
    (session : StatsSession Worker)
    (reached : Arrives StatsSession.step StatsSession.Admitted (.initial start calls) session)
    (_nobody_waits : ∀ worker, session.waiting (some worker) = false) :
    (Inevitable (fun state owner => State.step state (.run owner)) State.AllDone
      (terminateWorkers session.state) ↔
      (session.state.processes none).remaining = [] ∨
        ∀ worker, (session.state.processes (some worker)).writing = false) ∧
    ((session.state.processes none).remaining ≠ [] →
      (∃ worker, (session.state.processes (some worker)).writing = true) →
      ∀ owners final, follow (fun state owner => State.step state (.run owner))
        (terminateWorkers session.state) owners =
        some final → (final.processes none).remaining ≠ []) := by
  obtain ⟨living, consistent⟩ := session_consistent reached
  have reading (wanted : Operation ShmCall ShmStats ShmStats)
      (member : wanted ∈ (session.state.processes none).remaining) : wanted.writes = false := by
    have listed : wanted ∈ (calls none).map ShmCall.operation := by
      rw [consistent.ordered none]
      exact List.mem_append_right _ (List.mem_append_right _ member)
    obtain ⟨call, called, rfl⟩ := List.mem_map.mp listed
    rw [reads call called]
    rfl
  have blocked := terminate_blocked_iff living reading
  constructor
  · rw [finishes_iff, blocked, not_and_or, not_not, not_exists]
    simp
  · intro more writing owners final ran
    obtain ⟨⟨_, waiter, _, alive, _, wanted, _, member, _⟩, killed⟩ :=
      run_blocked (blocked.mpr ⟨more, writing⟩) ran
    rw [killed] at alive
    cases waiter with
    | none => exact List.ne_nil_of_mem member
    | some worker => cases alive

/-- One worker and the interface. -/
def poolCalls : Option Unit → List ShmCall
  | none => [.getStats]
  | some _ => [.incRequests]

/-- The worker is terminated between its store and the unlock. -/
theorem stats_read_after_destroy_iff_hang : ∃ session,
    follow StatsSession.step (StatsSession.initial ⟨0, 0, 0, 0⟩ poolCalls)
      [.run (some ()), .run (some ()), .run (some ()), .asks none] = some session ∧
      ¬ Inevitable (fun state owner => State.step state (.run owner)) State.AllDone
        (terminateWorkers session.state) := by
  have run : ∃ session, follow StatsSession.step (StatsSession.initial ⟨0, 0, 0, 0⟩ poolCalls)
      [.run (some ()), .run (some ()), .run (some ()), .asks none] = some session ∧
      session.waiting (some ()) = false ∧ (session.state.processes none).remaining ≠ [] ∧
      (session.state.processes (some ())).writing = true := ⟨_, rfl, rfl, by decide, rfl⟩
  obtain ⟨session, ran, patient, more, writing⟩ := run
  have allowed : ∀ action ∈ [StatsAction.run (some ()), .run (some ()), .run (some ()), .asks none],
      ∀ other : StatsSession Unit, other.Admitted action := by
    simp [StatsSession.Admitted]
  have reached := Arrives.start.follow allowed ran
  have reads : ∀ call ∈ poolCalls none, call = .getStats := by decide
  have ends := stats_read_after_destroy_iff ⟨0, 0, 0, 0⟩ poolCalls reads session reached
    fun _ => patient
  refine ⟨session, ran, ?_⟩
  rw [ends.1, not_or]
  refine ⟨more, fun nobody => ?_⟩
  rw [nobody ()] at writing
  cases writing

end LinuxCLearning.FileServer
