import LinuxCLearning.Base.Machine

/-! Processes that work on shared data under a lock for readers and writers, and may be killed at
any time: what they do is what their operations do one after the other. -/

namespace LinuxCLearning.SharedLock

open Machine

variable {Owner Call Data Register : Type}

/-- A step inside: what a process does to the data and to its own registers without interruption. -/
abbrev Step (Data Register : Type) := Data → Register → Data × Register

/-- What a call does: it takes the lock for reading or for writing, and readers leave the data
alone. -/
structure Operation (Call Data Register : Type) where
  call : Call
  writes : Bool
  initial : Register
  steps : List (Step Data Register)
  reading : writes = false → ∀ step ∈ steps, ∀ data register, (step data register).1 = data

/-- Steps without anybody in between. -/
def perform (steps : List (Step Data Register)) (data : Data) (register : Register) :
    Data × Register :=
  steps.foldl (fun (data, register) step => step data register) (data, register)

/-- The operation as one step: what it answers and what it leaves. -/
def Operation.apply (data : Data) (operation : Operation Call Data Register) : Register × Data :=
  (perform operation.steps data operation.initial).swap

inductive Phase (Call Data Register : Type) where
  | outside
  | inside (operation : Operation Call Data Register) (left : List (Step Data Register))
      (register : Register)

structure Process (Call Data Register : Type) where
  phase : Phase Call Data Register
  remaining : List (Operation Call Data Register)
  killed : Bool

namespace Process
variable (process : Process Call Data Register)

/-- The operation that the process has the lock for. -/
def current : Option (Operation Call Data Register) :=
  match process.phase with
  | .outside => none
  | .inside operation _ _ => some operation

/-- It has the lock for writing. -/
def writing : Bool := process.current.any Operation.writes

/-- How many steps it has to go. -/
def work : Nat :=
  (match process.phase with
  | .outside => 0
  | .inside _ left _ =>
    left.length + 1) + (process.remaining.map fun operation => operation.steps.length + 2).sum

end Process

/-- An operation that has given back the lock. -/
structure Entry (Owner Call Data Register : Type) where
  owner : Owner
  operation : Operation Call Data Register
  answer : Register

/-- The operations that are done, one after the other. -/
def history (start : Data) (log : List (Entry Owner Call Data Register)) : List Register × Data :=
  Machine.run Operation.apply start (log.map Entry.operation)

structure State (Owner Call Data Register : Type) where
  data : Data
  processes : Owner → Process Call Data Register
  log : List (Entry Owner Call Data Register)

inductive Action (Owner : Type) where
  | run (owner : Owner)
  | kill (owner : Owner)

namespace State
variable [Fintype Owner] [DecidableEq Owner] (state : State Owner Call Data Register)

/-- All processes with one of them as given. -/
def replace (owner : Owner) (process : Process Call Data Register) :
    Owner → Process Call Data Register :=
  Function.update state.processes owner process

/-- The lock can be taken: for reading if nobody writes, for writing if nobody has it. -/
def free (writes : Bool) : Bool :=
  decide (∀ other, if writes then (state.processes other).current = none
    else (state.processes other).writing = false)

/-- The next step of a process: through its operation, out of it, or into the next one. -/
def advance (owner : Owner) : Option (State Owner Call Data Register) :=
  match state.processes owner with
  | ⟨.inside operation (step :: left) register, remaining, killed⟩ =>
    let (data, register) := step state.data register
    some ⟨data, state.replace owner ⟨.inside operation left register, remaining, killed⟩, state.log⟩
  | ⟨.inside operation [] register, remaining, killed⟩ =>
    some ⟨state.data, state.replace owner ⟨.outside, remaining, killed⟩, state.log ++
      [⟨owner, operation, register⟩]⟩
  | ⟨.outside, operation :: remaining, killed⟩ =>
    if state.free operation.writes then
      some { state with
        processes := state.replace owner
          ⟨.inside operation operation.steps operation.initial, remaining, killed⟩ }
    else none
  | ⟨.outside, [], _⟩ => none

def step : Action Owner → Option (State Owner Call Data Register)
  | .run owner => if (state.processes owner).killed then none else state.advance owner
  | .kill owner =>
    some { state with processes := state.replace owner { state.processes owner with killed := true } }

/-- The data and the programs at the start. -/
def initial (start : Data) (programs : Owner → List (Operation Call Data Register)) :
    State Owner Call Data Register :=
  ⟨start, fun owner => ⟨.outside, programs owner, false⟩, []⟩

/-- Every process that has not been killed has come to its end. -/
def AllDone : Prop :=
  ∀ owner, (state.processes owner).killed = false →
    (state.processes owner).current = none ∧ (state.processes owner).remaining = []

/-- A process has been killed with the lock, and another one wants it that cannot have it besides.
-/
def Blocked : Prop :=
  ∃ holder waiter, (state.processes holder).killed = true ∧
    (state.processes waiter).killed = false ∧
    ∃ held wanted, (state.processes holder).current = some held ∧
    wanted ∈ (state.processes waiter).remaining ∧
      (held.writes || wanted.writes) = true

end State

section Operations
variable {steps : List (Step Data Register)}

theorem perform_append (first second : List (Step Data Register)) (data : Data)
    (register : Register) :
    perform (first ++ second) data register =
      perform second (perform first data register).1 (perform first data register).2 :=
  List.foldl_append

theorem perform_reading (reading : ∀ step ∈ steps, ∀ data register, (step data register).1 = data)
    (data : Data) (register : Register) : (perform steps data register).1 = data := by
  induction steps generalizing register with
  | nil => rfl
  | cons step steps ih =>
    have same := reading step List.mem_cons_self data register
    have rest := ih (fun other member => reading other (List.mem_cons_of_mem _ member))
      (step data register).2
    have unfolded : perform (step :: steps) data register =
        perform steps (step data register).1 (step data register).2 := rfl
    rw [unfolded, same]
    exact rest

end Operations

theorem history_snoc (start : Data) (log : List (Entry Owner Call Data Register))
    (entry : Entry Owner Call Data Register) :
    history start (log ++ [entry]) =
      ((history start log).1 ++ [(entry.operation.apply (history start log).2).1],
        (entry.operation.apply (history start log).2).2) := by
  rw [history, List.map_append, run_append]
  rfl

section Replacing
variable [DecidableEq Owner] (state : State Owner Call Data Register) (owner : Owner)
  (process : Process Call Data Register)

@[simp] theorem replace_same : state.replace owner process owner = process :=
  Function.update_self _ _ _

theorem replace_other {other : Owner} (different : other ≠ owner) :
    state.replace owner process other = state.processes other := Function.update_of_ne different _ _

end Replacing

section Lock
variable [Fintype Owner] {state : State Owner Call Data Register}

theorem free_reading : state.free false = true ↔
    ∀ other, (state.processes other).writing = false := by
  simp [State.free]

theorem free_writing : state.free true = true ↔
    ∀ other, (state.processes other).current = none := by
  simp [State.free]

theorem free_settled {writes : Bool} (free : state.free writes = true) (other : Owner) :
    (state.processes other).writing = false := by
  cases writes with
  | false => exact free_reading.mp free other
  | true => rw [Process.writing, free_writing.mp free other, Option.any_none]

end Lock

section Steps
variable [Fintype Owner] [DecidableEq Owner] {state next : State Owner Call Data Register}
  {owner : Owner}

/-- What a step can be. -/
inductive Moves (state : State Owner Call Data Register) (owner : Owner) :
    State Owner Call Data Register → Prop where
  | through {operation : Operation Call Data Register} {step : Step Data Register}
      {left : List (Step Data Register)}
    {register : Register} {remaining : List (Operation Call Data Register)} {killed : Bool}
    (found : state.processes owner =
      ⟨.inside operation (step :: left) register, remaining, killed⟩) :
    Moves state owner ⟨(step state.data register).1,
      state.replace owner ⟨.inside operation left (step state.data register).2, remaining, killed⟩,
      state.log⟩
  | leaves {operation : Operation Call Data Register} {register : Register}
      {remaining : List (Operation Call Data Register)}
    {killed : Bool} (found : state.processes owner =
      ⟨.inside operation [] register, remaining, killed⟩) :
    Moves state owner ⟨state.data, state.replace owner ⟨.outside, remaining, killed⟩,
      state.log ++ [⟨owner, operation, register⟩]⟩
  | enters {operation : Operation Call Data Register}
      {remaining : List (Operation Call Data Register)} {killed : Bool}
    (found : state.processes owner = ⟨.outside, operation :: remaining, killed⟩)
      (free : state.free operation.writes = true) :
    Moves state owner ⟨state.data,
      state.replace owner ⟨.inside operation operation.steps operation.initial, remaining, killed⟩,
      state.log⟩

theorem advance_iff : state.advance owner = some next ↔ Moves state owner next := by
  constructor
  · intro advanced
    unfold State.advance at advanced
    split at advanced
    · rename_i found
      cases advanced
      exact .through found
    · rename_i found
      cases advanced
      exact .leaves found
    · rename_i found
      split at advanced
      · rename_i free
        cases advanced
        exact .enters found free
      · cases advanced
    · cases advanced
  · intro moves
    cases moves with
    | through found => simp only [State.advance, found]
    | leaves found => simp only [State.advance, found]
    | enters found free => simp only [State.advance, found, free, if_true]

end Steps

/-- What holds at any time: a writer is alone with the lock, a process under way has made the first
of its steps on what the operations before it have left, these have answered as one after the other,
and every process has done, does and will do what it was to do. -/
structure Consistent [DecidableEq Owner] (programs : Owner → List (Operation Call Data Register))
    (start : Data) (state : State Owner Call Data Register) : Prop where
  alone : ∀ first second, (state.processes first).writing = true →
    (state.processes second).current ≠ none → first = second
  under_way : ∀ owner operation left register, (state.processes owner).phase =
    .inside operation left register →
    ∃ made, operation.steps = made ++ left ∧
      perform made (history start state.log).2 operation.initial = (state.data, register)
  settled : (∀ owner, (state.processes owner).writing = false) →
    (history start state.log).2 = state.data
  answered : state.log.map Entry.answer = (history start state.log).1
  ordered : ∀ owner, programs owner = (state.log.filter (·.owner = owner)).map Entry.operation ++
    ((state.processes owner).current.toList ++ (state.processes owner).remaining)

section Histories
variable [DecidableEq Owner] {state next : State Owner Call Data Register} {owner : Owner}
  {programs : Owner → List (Operation Call Data Register)} {start : Data}
  {operation : Operation Call Data Register}
  {remaining : List (Operation Call Data Register)} {killed : Bool} {register : Register}

theorem initial_consistent (start : Data) (programs : Owner → List (Operation Call Data Register)) :
    Consistent programs start (.initial start programs) := by
  refine ⟨?_, ?_, fun _ => rfl, rfl, fun _ => rfl⟩
  · intro first second writing
    cases writing
  · intro owner operation left register phase
    cases phase

/-- Every call has answered as it does behind those that were done before it. -/
theorem Consistent.answer (consistent : Consistent programs start state)
    {front back : List (Entry Owner Call Data Register)}
    {entry : Entry Owner Call Data Register} (split : state.log = front ++ entry :: back) :
    entry.answer = (entry.operation.apply (history start front).2).1 := by
  have answered := consistent.answered
  rw [split, history, List.map_append, List.map_append, run_append] at answered
  have lengths : (front.map Entry.answer).length =
      (Machine.run Operation.apply start (front.map Entry.operation)).1.length := by
    rw [run_length, List.length_map, List.length_map]
  have rest := (List.append_inj answered lengths).2
  rw [List.map_cons, List.map_cons, run_cons] at rest
  exact (List.cons.inj rest).1

theorem Consistent.readers (consistent : Consistent programs start state)
    {left : List (Step Data Register)}
    (found : state.processes owner = ⟨.inside operation left register, remaining, killed⟩)
    {other : Owner} (different : other ≠ owner) (holds : (state.processes other).current ≠ none) :
      operation.writes = false := by
  by_contra writes
  have writing : (state.processes owner).writing = true := by
    rw [found]
    exact Bool.not_eq_false _ ▸ writes
  exact different (consistent.alone owner other writing holds).symm

theorem Consistent.through (consistent : Consistent programs start state)
    {step : Step Data Register} {left : List (Step Data Register)}
    (found : state.processes owner =
      ⟨.inside operation (step :: left) register, remaining, killed⟩) :
    Consistent programs start ⟨(step state.data register).1,
      state.replace owner ⟨.inside operation left (step state.data register).2, remaining, killed⟩,
      state.log⟩ := by
  obtain ⟨made, split, done⟩ :=
    consistent.under_way owner operation (step :: left) register (by rw [found])
  have unchanged (reads : operation.writes = false) : (step state.data register).1 = state.data :=
    operation.reading reads step (split ▸ List.mem_append_right _ List.mem_cons_self) _ _
  have current (other : Owner) :
      (state.replace owner ⟨.inside operation left (step state.data register).2, remaining,
        killed⟩ other).current =
        (state.processes other).current := by
    by_cases same : other = owner
    · rw [same, replace_same, found]
      rfl
    · rw [replace_other _ _ _ same]
  refine ⟨?_, ?_, ?_, consistent.answered, ?_⟩
  · intro first second writing holds
    rw [Process.writing, current] at writing
    rw [current] at holds
    exact consistent.alone first second writing holds
  · intro other operation' left' register' phase
    dsimp only at phase ⊢
    by_cases same : other = owner
    · subst same
      rw [replace_same] at phase
      cases phase
      refine ⟨made ++ [step], by rw [split, List.append_assoc]; rfl, ?_⟩
      rw [perform_append, done]
      rfl
    · rw [replace_other _ _ _ same] at phase
      obtain ⟨made', split', done'⟩ := consistent.under_way other operation' left' register' phase
      refine ⟨made', split', ?_⟩
      rw [unchanged (consistent.readers found same (by simp [Process.current, phase])), done']
  · intro nobody
    dsimp only at nobody ⊢
    have reads : operation.writes = false := by
      have own := nobody owner
      rwa [replace_same] at own
    rw [unchanged reads]
    refine consistent.settled fun other => ?_
    rw [Process.writing, ← current]
    exact nobody other
  · intro other
    dsimp only
    rw [consistent.ordered other, current]
    by_cases same : other = owner
    · subst same
      rw [replace_same, found]
    · rw [replace_other _ _ _ same]

theorem Consistent.leaves (consistent : Consistent programs start state)
    (found : state.processes owner = ⟨.inside operation [] register, remaining, killed⟩) :
    Consistent programs start ⟨state.data, state.replace owner ⟨.outside, remaining, killed⟩,
      state.log ++ [⟨owner, operation, register⟩]⟩ := by
  obtain ⟨made, split, done⟩ := consistent.under_way owner operation [] register (by rw [found])
  rw [List.append_nil] at split
  rw [← split] at done
  have applied : operation.apply (history start state.log).2 = (register, state.data) := by
    rw [Operation.apply, done]
    rfl
  have unchanged (reads : operation.writes = false) : (history start state.log).2 = state.data := by
    have same := perform_reading (operation.reading reads)
      (history start state.log).2 operation.initial
    rw [done] at same
    exact same.symm
  have others {other : Owner}
      (holds : (state.replace owner ⟨.outside, remaining, killed⟩ other).current ≠ none) :
      other ≠ owner := by
    rintro rfl
    rw [replace_same] at holds
    exact holds rfl
  refine ⟨?_, ?_, ?_, ?_, ?_⟩
  · intro first second writing holds
    dsimp only at writing holds
    have inside : (state.replace owner ⟨.outside, remaining, killed⟩ first).current ≠ none := by
      intro outside
      rw [Process.writing, outside] at writing
      cases writing
    rw [replace_other _ _ _ (others holds)] at holds
    rw [replace_other _ _ _ (others inside)] at writing
    exact consistent.alone first second writing holds
  · intro other operation' left' register' phase
    dsimp only at phase ⊢
    have different := others (by rw [Process.current, phase]; nofun)
    rw [replace_other _ _ _ different] at phase
    obtain ⟨made', split', done'⟩ := consistent.under_way other operation' left' register' phase
    refine ⟨made', split', ?_⟩
    rw [unchanged (consistent.readers found different (by simp [Process.current, phase]))] at done'
    rw [history_snoc, applied, done']
  · intro _
    dsimp only
    rw [history_snoc, applied]
  · dsimp only
    rw [history_snoc, applied, List.map_append, consistent.answered]
    rfl
  · intro other
    dsimp only
    rw [consistent.ordered other, List.filter_append, List.map_append]
    by_cases same : other = owner
    · subst same
      rw [replace_same, found]
      simp [Process.current]
    · rw [replace_other _ _ _ same]
      simp [Ne.symm same]

theorem Consistent.kills (consistent : Consistent programs start state) (owner : Owner) :
    Consistent programs start
      { state with processes := state.replace owner { state.processes owner with killed := true } } := by
  have phases (other : Owner) :
      (state.replace owner { state.processes owner with killed := true } other).phase =
        (state.processes other).phase ∧
      (state.replace owner { state.processes owner with killed := true } other).remaining =
        (state.processes other).remaining := by
    by_cases same : other = owner
    · subst same
      rw [replace_same]
      exact ⟨rfl, rfl⟩
    · rw [replace_other _ _ _ same]
      exact ⟨rfl, rfl⟩
  have current (other : Owner) :
      (state.replace owner { state.processes owner with killed := true } other).current =
          (state.processes other).current := by
    rw [Process.current, (phases other).1]
    rfl
  refine ⟨?_, ?_, ?_, consistent.answered, ?_⟩
  · intro first second
    simp only [Process.writing, current]
    exact consistent.alone first second
  · intro other
    dsimp only
    rw [(phases other).1]
    exact consistent.under_way other
  · simp only [Process.writing, current]
    exact consistent.settled
  · intro other
    rw [current, (phases other).2]
    exact consistent.ordered other

end Histories

section Runs
variable [Fintype Owner] [DecidableEq Owner] {state next : State Owner Call Data Register}
  {owner : Owner}
  {programs : Owner → List (Operation Call Data Register)} {start : Data}
  {operation : Operation Call Data Register}
  {remaining : List (Operation Call Data Register)} {killed : Bool}

theorem Consistent.enters (consistent : Consistent programs start state)
    (found : state.processes owner = ⟨.outside, operation :: remaining, killed⟩)
    (free : state.free operation.writes = true) :
    Consistent programs start ⟨state.data,
      state.replace owner ⟨.inside operation operation.steps operation.initial, remaining, killed⟩,
      state.log⟩ := by
  have settled := consistent.settled (free_settled free)
  refine ⟨?_, ?_, fun _ => settled, consistent.answered, ?_⟩
  · intro first second writing holds
    dsimp only at writing holds
    have one : first = owner := by
      by_contra different
      rw [replace_other _ _ _ different, free_settled free first] at writing
      cases writing
    subst one
    rw [replace_same] at writing
    change operation.writes = true at writing
    rw [writing] at free
    by_contra different
    rw [replace_other _ _ _ (Ne.symm different)] at holds
    exact holds (free_writing.mp free second)
  · intro other operation' left' register' phase
    dsimp only at phase ⊢
    by_cases same : other = owner
    · subst same
      rw [replace_same] at phase
      cases phase
      exact ⟨[], rfl, Prod.ext settled rfl⟩
    · rw [replace_other _ _ _ same] at phase
      exact consistent.under_way other operation' left' register' phase
  · intro other
    dsimp only
    rw [consistent.ordered other]
    by_cases same : other = owner
    · subst same
      rw [replace_same, found]
      rfl
    · rw [replace_other _ _ _ same]

theorem Consistent.step (consistent : Consistent programs start state) {action : Action Owner}
    (stepped : state.step action = some next) : Consistent programs start next := by
  cases action with
  | kill owner =>
    cases stepped
    exact consistent.kills owner
  | run owner =>
    rw [State.step] at stepped
    split at stepped
    · cases stepped
    · cases advance_iff.mp stepped with
      | through found => exact consistent.through found
      | leaves found => exact consistent.leaves found
      | enters found free => exact consistent.enters found free

/-- Whatever the order of the steps and whoever is killed in between: what has been done is a run of
whole operations one after the other. -/
theorem consistent_of_arrives
    (reached : Arrives State.step (fun _ _ => True) (.initial start programs) state) :
    Consistent programs start state :=
  reached.keeps (initial_consistent start programs) fun _ _ _ consistent _ stepped =>
    consistent.step stepped

end Runs

section Ends
variable [Fintype Owner] [DecidableEq Owner] {state next : State Owner Call Data Register}
  {owner : Owner}

/-- What a step does to its process: it has less to go, and what it is still to begin is a part of
what it was, without anything that somebody else keeps the lock from. -/
structure Forward (state : State Owner Call Data Register) (owner : Owner)
    (next : State Owner Call Data Register) : Prop where
  others : ∀ other, other ≠ owner → next.processes other = state.processes other
  killed : (next.processes owner).killed = (state.processes owner).killed
  fewer : (next.processes owner).work < (state.processes owner).work
  part : (next.processes owner).remaining <:+ (state.processes owner).remaining
  begun : ∀ wanted ∈ (state.processes owner).remaining, wanted ∈ (next.processes owner).remaining ∨
    state.free wanted.writes = true

theorem Moves.forward (moves : Moves state owner next) : Forward state owner next := by
  cases moves with
  | through found =>
    refine ⟨fun other different => replace_other _ _ _ different, ?_, ?_, ?_, ?_⟩
    all_goals dsimp only; rw [replace_same, found]
    · simp [Process.work]
    · exact fun wanted member => Or.inl member
  | leaves found =>
    refine ⟨fun other different => replace_other _ _ _ different, ?_, ?_, ?_, ?_⟩
    all_goals dsimp only; rw [replace_same, found]
    · simp [Process.work]
    · exact fun wanted member => Or.inl member
  | enters found free =>
    refine ⟨fun other different => replace_other _ _ _ different, ?_, ?_, ?_, ?_⟩
    all_goals dsimp only; rw [replace_same, found]
    · simp [Process.work]
    · exact List.suffix_cons _ _
    · intro wanted member
      rcases List.mem_cons.mp member with rfl | later
      · exact Or.inr free
      · exact Or.inl later

theorem Forward.same_killed (forward : Forward state owner next) (other : Owner) :
    (next.processes other).killed = (state.processes other).killed := by
  by_cases same : other = owner
  · exact same ▸ forward.killed
  · rw [forward.others other same]

theorem Forward.blocked_iff (forward : Forward state owner next)
    (alive : (state.processes owner).killed = false) :
    next.Blocked ↔ state.Blocked := by
  have dead {holder : Owner} (killed : (state.processes holder).killed = true) : holder ≠
      owner := by
    rintro rfl
    rw [killed] at alive
    cases alive
  constructor
  · rintro ⟨holder, waiter, killed, living, held, wanted, holds, member, conflict⟩
    rw [forward.same_killed] at killed living
    rw [forward.others holder (dead killed)] at holds
    refine ⟨holder, waiter, killed, living, held, wanted, holds, ?_, conflict⟩
    by_cases same : waiter = owner
    · subst same
      exact forward.part.subset member
    · rwa [forward.others waiter same] at member
  · rintro ⟨holder, waiter, killed, living, held, wanted, holds, member, conflict⟩
    refine ⟨holder, waiter, (forward.same_killed holder).trans killed,
      (forward.same_killed waiter).trans living, held, wanted,
      ?_, ?_, conflict⟩
    · rw [forward.others holder (dead killed)]
      exact holds
    · by_cases same : waiter = owner
      · subst same
        rcases forward.begun wanted member with later | free
        · exact later
        · exfalso
          rcases Bool.or_eq_true_iff.mp conflict with writes | writes
          · have quiet := free_settled free holder
            rw [Process.writing, holds, Option.any_some, writes] at quiet
            cases quiet
          · rw [writes] at free
            rw [free_writing.mp free holder] at holds
            cases holds
      · rwa [forward.others waiter same]

/-- All the work that is left. -/
def State.work (state : State Owner Call Data Register) : Nat :=
  ∑ owner, (state.processes owner).work

theorem Forward.work_lt (forward : Forward state owner next) : next.work < state.work := by
  refine Finset.sum_lt_sum ?_ ⟨owner, Finset.mem_univ owner, forward.fewer⟩
  intro other _
  by_cases same : other = owner
  · exact same ▸ forward.fewer.le
  · rw [forward.others other same]

theorem run_eq_some : state.step (.run owner) = some next ↔
    (state.processes owner).killed = false ∧ Moves state owner next := by
  rw [State.step, ← advance_iff]
  cases (state.processes owner).killed <;> simp

/-- A process that cannot go on is at its end, or the lock that it wants is taken. -/
theorem moves_or_waits (state : State Owner Call Data Register) (owner : Owner) :
    (∃ next, Moves state owner next) ∨
    (state.processes owner).current = none ∧ ∀ wanted ∈ (state.processes owner).remaining.head?,
      state.free wanted.writes = false := by
  rcases found : state.processes owner with ⟨phase, remaining, killed⟩
  cases phase with
  | inside operation left register =>
    cases left with
    | nil => exact Or.inl ⟨_, .leaves found⟩
    | cons step left => exact Or.inl ⟨_, .through found⟩
  | outside =>
    cases remaining with
    | nil => exact Or.inr ⟨rfl, nofun⟩
    | cons operation remaining =>
      cases free : state.free operation.writes with
      | true => exact Or.inl ⟨_, .enters found free⟩
      | false =>
        refine Or.inr ⟨rfl, ?_⟩
        rintro wanted ⟨⟩
        exact free

/-- When nobody can go on that is alive, all is done or the lock is kept by somebody who is not. -/
theorem stuck_cases (stuck : ∀ owner, (state.processes owner).killed = false → ¬ ∃ next,
    Moves state owner next) :
    state.AllDone ∨ state.Blocked := by
  by_contra neither
  obtain ⟨unfinished, unblocked⟩ := not_or.mp neither
  have outside {owner : Owner} (alive : (state.processes owner).killed = false) :=
    (moves_or_waits state owner).resolve_left (stuck owner alive)
  refine unfinished fun waiter alive => ⟨(outside alive).1, ?_⟩
  by_contra more
  obtain ⟨wanted, rest, remaining⟩ := List.exists_cons_of_ne_nil more
  have taken := (outside alive).2 wanted (by rw [remaining]; rfl)
  have member : wanted ∈ (state.processes waiter).remaining := remaining ▸ List.mem_cons_self
  obtain ⟨holder, held, holds, conflict⟩ : ∃ holder held,
      (state.processes holder).current = some held ∧
      (held.writes || wanted.writes) = true := by
    by_contra nobody
    push Not at nobody
    have free : state.free wanted.writes = true := by
      cases writes : wanted.writes with
      | true =>
        refine free_writing.mpr fun other => ?_
        cases holds : (state.processes other).current with
        | none => rfl
        | some held => exact absurd (by rw [writes, Bool.or_true]) (nobody other held holds)
      | false =>
        refine free_reading.mpr fun other => ?_
        cases holds : (state.processes other).current with
        | none => rw [Process.writing, holds, Option.any_none]
        | some held =>
          have reads := nobody other held holds
          rw [writes, Bool.or_false, ne_eq, Bool.not_eq_true] at reads
          rw [Process.writing, holds, Option.any_some, reads]
    rw [free] at taken
    cases taken
  refine unblocked ⟨holder, waiter, ?_, alive, held, wanted, holds, member, conflict⟩
  by_contra living
  rw [(outside (Bool.not_eq_true _ ▸ living)).1] at holds
  cases holds

/-- No order of the steps gives the lock back, or brings anybody to life. -/
theorem run_blocked {owners : List Owner} {final : State Owner Call Data Register}
    (blocked : state.Blocked)
    (ran : follow (fun state owner => State.step state (.run owner)) state owners = some final) :
    final.Blocked ∧ ∀ owner, (final.processes owner).killed = (state.processes owner).killed := by
  have keeps (between : State Owner Call Data Register) (owner : Owner)
      (next : State Owner Call Data Register)
      (held : between.Blocked ∧ ∀ owner, (between.processes owner).killed =
        (state.processes owner).killed)
      (stepped : between.step (.run owner) = some next) :
      next.Blocked ∧ ∀ owner, (next.processes owner).killed = (state.processes owner).killed := by
    obtain ⟨alive, moves⟩ := run_eq_some.mp stepped
    refine ⟨(moves.forward.blocked_iff alive).mpr held.1, fun other => ?_⟩
    rw [moves.forward.same_killed, held.2]
  exact follow_keeps keeps ⟨blocked, fun _ => rfl⟩ ran

/-- When nobody is killed any more: all that are alive come to their ends, in whatever order they
run, exactly if nobody has been killed with the lock that another one still wants. -/
theorem finishes_iff (state : State Owner Call Data Register) :
    Inevitable (fun state owner => State.step state (.run owner)) State.AllDone state ↔
      ¬ state.Blocked := by
  have keeps (state : State Owner Call Data Register) (owner : Owner)
      (next : State Owner Call Data Register)
      (stepped : state.step (.run owner) = some next) : (next.Blocked ↔ state.Blocked) ∧
          next.work < state.work := by
    obtain ⟨alive, moves⟩ := run_eq_some.mp stepped
    exact ⟨moves.forward.blocked_iff alive, moves.forward.work_lt⟩
  constructor
  · intro ends blocked
    have kept (state : State Owner Call Data Register) (owner : Owner)
        (next : State Owner Call Data Register)
        (blocked : state.Blocked) (stepped : state.step (.run owner) = some next) : next.Blocked :=
      (keeps state owner next stepped).1.mpr blocked
    obtain ⟨final, still, done⟩ := ends.meets kept blocked
    obtain ⟨_, waiter, _, living, _, wanted, _, member, _⟩ := still
    rw [(done waiter living).2] at member
    cases member
  · have lower (state : State Owner Call Data Register) (owner : Owner)
        (next : State Owner Call Data Register)
        (unblocked : ¬ state.Blocked) (stepped : state.step (.run owner) = some next) :
        ¬ next.Blocked ∧ next.work < state.work := by
      obtain ⟨same, less⟩ := keeps state owner next stepped
      exact ⟨fun blocked => unblocked (same.mp blocked), less⟩
    have progress (state : State Owner Call Data Register) (unblocked : ¬ state.Blocked) :
        state.AllDone ∨ ∃ owner next, state.step (.run owner) = some next := by
      by_cases enabled : ∃ owner next, state.step (.run owner) = some next
      · exact Or.inr enabled
      · refine Or.inl ((stuck_cases ?_).resolve_right unblocked)
        intro owner alive ⟨next, moves⟩
        exact enabled ⟨owner, next, run_eq_some.mpr ⟨alive, moves⟩⟩
    exact inevitable_of_invariant wellFounded_lt
      (fun state : State Owner Call Data Register => state.work) lower progress

end Ends

end LinuxCLearning.SharedLock
