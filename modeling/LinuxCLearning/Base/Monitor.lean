import LinuxCLearning.Base.Machine

/-! Threads that wait at a condition variable for work or for the end. A thread tests its
condition under the mutex and then calls the wait; what is signalled between the two is lost. -/

namespace LinuxCLearning.Monitor

open Machine

universe u v
variable {Shared : Type u} {Place : Type v}

/-- Where a thread stands: at the test of its loop, at the mutex, between the condition that
makes it wait and the wait itself, in the wait, outside the mutex with some work, or past its
end. Between two steps only a thread that has `checked` holds the mutex. -/
inductive Phase (Place : Type v) where
  | outside (place : Place)
  | locking (place : Place)
  | checked (place : Place)
  | asleep (place : Place)
  | busy (place : Place)
  | ended

def Phase.holds : Phase Place → Bool
  | checked _ => true
  | _ => false

def Phase.sleeps : Phase Place → Bool
  | asleep _ => true
  | _ => false

def Phase.isEnded : Phase Place → Bool
  | ended => true
  | _ => false

/-- It is in the wait or on its way into it. -/
def Phase.waits (phase : Phase Place) : Bool := phase.holds || phase.sleeps

/-- What the wait returns to. -/
def Phase.wake : Phase Place → Phase Place
  | asleep place => locking place
  | other => other

/-- The loop of a thread: the test before the mutex, which may leave it, the condition of the
wait, and the section behind the wait, which says where the thread goes on. -/
structure Loop (Shared : Type u) (Place : Type v) where
  head : Shared → Place → Option Place
  blocks : Shared → Bool
  enter : Shared → Place → Shared × Phase Place

structure State (Shared : Type u) (Place : Type v) where
  shared : Shared
  threads : List (Phase Place)

namespace State

def free (state : State Shared Place) : Bool := state.threads.all fun phase => !phase.holds

def broadcast (state : State Shared Place) : State Shared Place :=
  { state with threads := state.threads.map Phase.wake }

/-- `pthread_cond_signal` where this thread is the one that is woken. -/
def signal (state : State Shared Place) (woken : Nat) : State Shared Place :=
  { state with threads := state.threads.modify woken Phase.wake }

/-- What `pthread_join` of every thread waits for. -/
def AllEnded (state : State Shared Place) : Prop := ∀ phase ∈ state.threads, phase.isEnded = true

/-- Every thread has come to its end or is in the wait. -/
def Settled (state : State Shared Place) : Prop :=
  ∀ phase ∈ state.threads, phase.isEnded = true ∨ phase.sleeps = true

end State

namespace Loop
variable (loop : Loop Shared Place)

/-- The next step of a thread, where the mutex is free or not. A wait does not end by itself. -/
def advance (free : Bool) (shared : Shared) : Phase Place → Option (Shared × Phase Place)
  | .outside place => some (shared, (loop.head shared place).elim .ended .locking)
  | .locking place =>
    if free then some (if loop.blocks shared then (shared, .checked place)
    else loop.enter shared place)
    else none
  | .checked place => some (shared, .asleep place)
  | .asleep _ => none
  | .busy place => some (shared, .outside place)
  | .ended => none

def step (state : State Shared Place) (index : Nat) : Option (State Shared Place) :=
  state.threads[index]?.bind fun phase =>
    (loop.advance state.free state.shared phase).map fun (shared, phase) =>
      ⟨shared, state.threads.set index phase⟩

/-- A loop that comes to its end once the shared data say so: nothing blocks any more, and
every step of a thread makes the weight of the data or the rank of the thread smaller. -/
structure Finishing (stopped : Shared → Prop) (weight : Shared → Nat) (rank : Phase Place → Nat) :
    Prop where
  passes : ∀ shared, stopped shared → loop.blocks shared = false
  keeps : ∀ shared place, stopped shared → stopped (loop.enter shared place).1
  enters : ∀ shared place, stopped shared → weight (loop.enter shared place).1 < weight shared ∨
    weight (loop.enter shared place).1 = weight shared ∧
      rank (loop.enter shared place).2 < rank (.locking place)
  lively : ∀ shared place, (loop.enter shared place).2.waits = false
  heads : ∀ shared place, stopped shared →
    rank ((loop.head shared place).elim .ended .locking) < rank (.outside place)
  works : ∀ place, rank (.outside place) < rank (.busy place)
  rests : ∀ place, rank (.asleep place) < rank (.checked place)

variable {loop} {stopped : Shared → Prop} {weight : Shared → Nat} {rank : Phase Place → Nat}
  {state next : State Shared Place} {index : Nat}

theorem step_cases (stepped : loop.step state index = some next) :
    ∃ phase moved, state.threads[index]? = some phase ∧
      loop.advance state.free state.shared phase = some (next.shared, moved) ∧
      next.threads = state.threads.set index moved := by
  obtain ⟨phase, found, after⟩ := Option.bind_eq_some_iff.mp stepped
  obtain ⟨⟨shared, moved⟩, advanced, rfl⟩ := Option.map_eq_some_iff.mp after
  exact ⟨phase, moved, found, advanced, rfl⟩

theorem step_exclusive (exclusive : state.threads.countP Phase.holds ≤ 1)
    (stepped : loop.step state index = some next) : next.threads.countP Phase.holds ≤ 1 := by
  obtain ⟨phase, moved, found, advanced, threads⟩ := step_cases stepped
  obtain ⟨inside, same⟩ := List.getElem?_eq_some_iff.mp found
  rw [threads, List.countP_set inside, same]
  cases phase with
  | outside place =>
    simp only [advance, Option.some.injEq, Prod.mk.injEq] at advanced
    obtain ⟨_, rfl⟩ := advanced
    cases loop.head state.shared place <;> simpa [Phase.holds] using exclusive
  | locking place =>
    simp only [advance] at advanced
    split at advanced
    · rename_i free
      have none_holds : state.threads.countP Phase.holds = 0 := by
        rw [List.countP_eq_zero]
        intro other member
        simpa using List.all_eq_true.mp free other member
      rw [none_holds, Nat.zero_sub, Nat.zero_add]
      split <;> omega
    · cases advanced
  | checked place =>
    simp only [advance, Option.some.injEq, Prod.mk.injEq] at advanced
    obtain ⟨_, rfl⟩ := advanced
    simp only [Phase.holds, Bool.false_eq_true, if_false, if_true]
    omega
  | asleep place => cases advanced
  | busy place =>
    simp only [advance, Option.some.injEq, Prod.mk.injEq] at advanced
    obtain ⟨_, rfl⟩ := advanced
    simpa [Phase.holds] using exclusive
  | ended => cases advanced

theorem wake_holds (phase : Phase Place) : phase.wake.holds = phase.holds := by
  cases phase <;> rfl

theorem signal_exclusive (state : State Shared Place) (woken : Nat) :
    (state.signal woken).threads.countP Phase.holds = state.threads.countP Phase.holds := by
  simp only [State.signal]
  induction state.threads generalizing woken with
  | nil => simp
  | cons phase phases ih =>
    cases woken with
    | zero => simp [List.countP_cons, wake_holds]
    | succ woken => simp [List.countP_cons, ih]

/-- The measure of a state that is coming to its end. -/
def measure (weight : Shared → Nat) (rank : Phase Place → Nat) (state : State Shared Place) :
    Nat × Nat :=
  (weight state.shared, (state.threads.map rank).sum)

theorem sum_set_lt {phases : List (Phase Place)} {phase moved : Phase Place}
    (found : phases[index]? = some phase) (smaller : rank moved < rank phase) :
      ((phases.set index moved).map rank).sum < (phases.map rank).sum := by
  induction phases generalizing index with
  | nil => simp at found
  | cons first phases ih =>
    cases index with
    | zero =>
      obtain rfl : first = phase := by simpa using found
      simpa using smaller
    | succ index =>
      have rest : phases[index]? = some phase := by simpa using found
      simpa using ih rest

/-- What one step does once the loop is finishing: who waits goes on waiting, and nobody else
begins to. -/
theorem Finishing.step (finishing : loop.Finishing stopped weight rank)
    (halted : stopped state.shared) (stepped : loop.step state index = some next) :
    stopped next.shared ∧ next.threads.map Phase.waits = state.threads.map Phase.waits ∧
      Prod.Lex (· < ·) (· < ·) (measure weight rank next) (measure weight rank state) := by
  obtain ⟨phase, moved, found, advanced, threads⟩ := step_cases stepped
  have step_of (kept : stopped next.shared) (same : moved.waits = phase.waits)
      (smaller : weight next.shared < weight state.shared ∨
        weight next.shared = weight state.shared ∧ rank moved < rank phase) :
      stopped next.shared ∧ next.threads.map Phase.waits = state.threads.map Phase.waits ∧
        Prod.Lex (· < ·) (· < ·) (measure weight rank next) (measure weight rank state) := by
    refine ⟨kept, ?_, ?_⟩
    · obtain ⟨inside, is_phase⟩ := List.getElem?_eq_some_iff.mp found
      rw [threads, List.map_set, same, ← is_phase, ← List.getElem_map Phase.waits,
        List.set_getElem_self]
      simpa using inside
    · rw [Prod.lex_def]
      simp only [measure, threads]
      exact smaller.imp id fun ⟨same, lower⟩ => ⟨same, sum_set_lt found lower⟩
  cases phase with
  | outside place =>
    simp only [advance, Option.some.injEq, Prod.mk.injEq] at advanced
    obtain ⟨same, rfl⟩ := advanced
    rw [← same] at step_of ⊢
    refine step_of halted ?_ (Or.inr ⟨rfl, finishing.heads _ _ halted⟩)
    cases loop.head state.shared place <;> rfl
  | locking place =>
    simp only [advance, finishing.passes _ halted, Bool.false_eq_true, if_false] at advanced
    split at advanced
    · have entered := Option.some.inj advanced
      have keeps := finishing.keeps state.shared place halted
      have enters := finishing.enters state.shared place halted
      have lively := finishing.lively state.shared place
      rw [entered] at keeps enters lively
      exact step_of keeps lively enters
    · cases advanced
  | checked place =>
    simp only [advance, Option.some.injEq, Prod.mk.injEq] at advanced
    obtain ⟨same, rfl⟩ := advanced
    rw [← same] at step_of ⊢
    exact step_of halted rfl (Or.inr ⟨rfl, finishing.rests place⟩)
  | asleep place => cases advanced
  | busy place =>
    simp only [advance, Option.some.injEq, Prod.mk.injEq] at advanced
    obtain ⟨same, rfl⟩ := advanced
    rw [← same] at step_of ⊢
    exact step_of halted rfl (Or.inr ⟨rfl, finishing.works place⟩)
  | ended => cases advanced

theorem step_of_advance {phase : Phase Place} {after : Shared × Phase Place}
    (found : state.threads[index]? = some phase)
    (advanced : loop.advance state.free state.shared phase = some after) :
    loop.step state index = some ⟨after.1, state.threads.set index after.2⟩ := by
  rw [step, found, Option.bind_some, advanced]
  rfl

/-- As long as the threads have not settled, one of them can go on: the one that has the mutex,
or any that is neither in the wait nor past its end. -/
theorem step_enabled (unsettled : ¬ state.Settled) :
    ∃ index next, loop.step state index = some next := by
  by_cases free : state.free = true
  · unfold State.Settled at unsettled
    push Not at unsettled
    obtain ⟨phase, member, going, awake⟩ := unsettled
    obtain ⟨index, inside, rfl⟩ := List.mem_iff_getElem.mp member
    have found := List.getElem?_eq_getElem inside
    have advances : ∃ after, loop.advance state.free state.shared state.threads[index] =
        some after := by
      cases phase : state.threads[index] <;> rw [phase] at going awake <;>
        simp [Phase.isEnded, Phase.sleeps] at going awake
      · exact ⟨_, rfl⟩
      · rw [advance, free]
        exact ⟨_, rfl⟩
      · exact ⟨_, rfl⟩
      · exact ⟨_, rfl⟩
    obtain ⟨after, advanced⟩ := advances
    exact ⟨index, _, step_of_advance found advanced⟩
  · rw [Bool.not_eq_true, State.free, List.all_eq_false] at free
    obtain ⟨phase, member, holds⟩ := free
    obtain ⟨index, inside, rfl⟩ := List.mem_iff_getElem.mp member
    have found := List.getElem?_eq_getElem inside
    cases phase : state.threads[index] <;> rw [phase] at holds found <;> simp [Phase.holds] at holds
    exact ⟨index, _, step_of_advance found rfl⟩

/-- Once the data say so, whatever order the threads run in, they all end but those that waited
or were on their way into the wait, and these wait for ever. -/
theorem Finishing.settles (finishing : loop.Finishing stopped weight rank)
    (halted : stopped state.shared) :
    Inevitable loop.step (fun final => final.Settled ∧
      final.threads.map Phase.sleeps = state.threads.map Phase.waits)
      state := by
  have keeps : ∀ between index next,
      (stopped between.shared ∧ between.threads.map Phase.waits = state.threads.map Phase.waits) →
      loop.step between index = some next →
      (stopped next.shared ∧ next.threads.map Phase.waits = state.threads.map Phase.waits) ∧
        Prod.Lex (· < ·) (· < ·) (measure weight rank next) (measure weight rank between) := by
    intro between index next ⟨halted, same⟩ stepped
    obtain ⟨kept, still, smaller⟩ := finishing.step halted stepped
    exact ⟨⟨kept, still.trans same⟩, smaller⟩
  refine inevitable_of_invariant (Prod.instWellFoundedRelation).wf (measure weight rank)
    keeps ?_ ⟨halted, rfl⟩
  intro between ⟨_, same⟩
  by_cases settled : between.Settled
  · refine Or.inl ⟨settled, ?_⟩
    rw [← same]
    refine List.map_congr_left fun phase member => ?_
    cases phase <;> simp [Phase.waits, Phase.holds, Phase.sleeps]
    exact absurd (settled _ member) (by simp [Phase.isEnded, Phase.sleeps])
  · exact Or.inr (step_enabled settled)

theorem broadcast_waits (state : State Shared Place) :
    state.broadcast.threads.map Phase.waits = state.threads.map Phase.holds := by
  simp only [State.broadcast, List.map_map]
  refine List.map_congr_left fun phase _ => ?_
  cases phase <;> rfl

/-- A broadcast makes all threads end but the one that stands between its condition and its wait
at that moment. -/
theorem Finishing.broadcast_settles (finishing : loop.Finishing stopped weight rank)
    (halted : stopped state.shared) :
    Inevitable loop.step (fun final => final.Settled ∧
      final.threads.map Phase.sleeps = state.threads.map Phase.holds)
      state.broadcast := by
  have still : stopped state.broadcast.shared := halted
  have settles := finishing.settles still
  rwa [broadcast_waits] at settles

/-- Threads that have settled have all ended exactly where none sleeps. -/
theorem allEnded_iff {final : State Shared Place} (settled : final.Settled) :
    final.AllEnded ↔ ∀ sleeping ∈ final.threads.map Phase.sleeps, sleeping = false := by
  rw [List.forall_mem_map]
  refine forall₂_congr fun phase member => ?_
  have either := settled phase member
  cases phase <;> simp [Phase.isEnded, Phase.sleeps] at either ⊢

/-- So all of them end exactly where nobody stands there. -/
theorem Finishing.broadcast_iff (finishing : loop.Finishing stopped weight rank)
    (halted : stopped state.shared) :
    Inevitable loop.step State.AllEnded state.broadcast ↔ ∀ phase ∈ state.threads,
      phase.holds = false := by
  have settles := finishing.broadcast_settles halted
  constructor
  · intro ends phase member
    have keeps : ∀ between index next,
        (stopped between.shared ∧ between.threads.map Phase.waits =
          state.broadcast.threads.map Phase.waits) →
        loop.step between index = some next →
        stopped next.shared ∧ next.threads.map Phase.waits =
            state.broadcast.threads.map Phase.waits := by
      intro between index next ⟨halted, same⟩ stepped
      obtain ⟨kept, still, _⟩ := finishing.step halted stepped
      exact ⟨kept, still.trans same⟩
    obtain ⟨final, ⟨_, same⟩, ended⟩ := ends.meets keeps ⟨halted, rfl⟩
    rw [broadcast_waits] at same
    have listed : phase.holds ∈ final.threads.map Phase.waits := same ▸ List.mem_map_of_mem member
    obtain ⟨last, last_member, last_waits⟩ := List.mem_map.mp listed
    have last_ended := ended last last_member
    rw [← last_waits]
    cases last <;> simp [Phase.isEnded, Phase.waits, Phase.holds, Phase.sleeps] at last_ended ⊢
  · intro none_holds
    refine settles.mono fun final ⟨settled, sleeping⟩ => ?_
    rw [allEnded_iff settled, sleeping, List.forall_mem_map]
    exact none_holds

theorem step_eq_none (settled : state.Settled) (index : Nat) : loop.step state index = none := by
  cases stepped : loop.step state index with
  | none => rfl
  | some next =>
    obtain ⟨phase, moved, found, advanced, _⟩ := step_cases stepped
    have either := settled phase (List.mem_of_getElem? found)
    cases phase <;> simp [advance, Phase.isEnded, Phase.sleeps] at advanced either

/-- Once the loop is finishing, nobody gets between the condition and the wait. -/
theorem Finishing.step_awake (finishing : loop.Finishing stopped weight rank)
    (halted : stopped state.shared) (awake : ∀ phase ∈ state.threads, phase.holds = false)
    (stepped : loop.step state index = some next) :
    ∀ phase ∈ next.threads, phase.holds = false := by
  obtain ⟨phase, moved, found, advanced, threads⟩ := step_cases stepped
  have before := awake phase (List.mem_of_getElem? found)
  have after : moved.holds = false := by
    cases phase with
    | outside place =>
      simp only [advance, Option.some.injEq, Prod.mk.injEq] at advanced
      obtain ⟨_, rfl⟩ := advanced
      cases loop.head state.shared place <;> rfl
    | locking place =>
      simp only [advance, finishing.passes _ halted, Bool.false_eq_true, if_false] at advanced
      split at advanced
      · have entered := Option.some.inj advanced
        have lively := finishing.lively state.shared place
        rw [entered] at lively
        exact (Bool.or_eq_false_iff.mp lively).1
      · cases advanced
    | checked place => cases before
    | asleep place => cases advanced
    | busy place =>
      simp only [advance, Option.some.injEq, Prod.mk.injEq] at advanced
      obtain ⟨_, rfl⟩ := advanced
      rfl
    | ended => cases advanced
  intro other member
  rw [threads] at member
  rcases List.mem_or_eq_of_mem_set member with old | rfl
  · exact awake other old
  · exact after

end Loop

/-- A loop whose end has been asked for without the mutex. `woken` tells whether the call that
wakes who waits has been made yet. -/
structure Ending (Shared : Type u) (Place : Type v) where
  state : State Shared Place
  woken : Bool

/-- A step of a thread, or that call. -/
inductive EndingAction where
  | thread (index : Nat)
  | wake

namespace Ending

def step (loop : Loop Shared Place) (wake : State Shared Place → State Shared Place)
    (ending : Ending Shared Place) :
    EndingAction → Option (Ending Shared Place)
  | .thread index => (loop.step ending.state index).map fun state => { ending with state }
  | .wake => if ending.woken then none else some ⟨wake ending.state, true⟩

/-- The call has been made and `pthread_join` of every thread returns. -/
def Joined (ending : Ending Shared Place) : Prop := ending.woken = true ∧ ending.state.AllEnded

/-- Nobody waits any more, or the call that wakes who does is still to come. -/
structure Awake (stopped : Shared → Prop) (count : Nat) (ending : Ending Shared Place) : Prop where
  halted : stopped ending.state.shared
  length : ending.state.threads.length = count
  awake : ∀ phase ∈ ending.state.threads, phase.holds = false
  none_left : ending.woken = true → ∀ phase ∈ ending.state.threads, phase.waits = false

def measure (weight : Shared → Nat) (rank : Phase Place → Nat) (ending : Ending Shared Place) :
    Nat × (Nat × Nat) :=
  (if ending.woken then 0 else 1, Loop.measure weight rank ending.state)

section Steps
variable {loop : Loop Shared Place} {stopped : Shared → Prop} {weight : Shared → Nat}
  {rank : Phase Place → Nat}
  {wake : State Shared Place → State Shared Place} {ending next : Ending Shared Place} {count : Nat}
  {action : EndingAction} {state : State Shared Place}

/-- What one step does: the measure gets smaller, and who is awake stays so. -/
theorem Awake.step (finishing : loop.Finishing stopped weight rank)
    (wakes : ∀ state : State Shared Place, state.threads.length = count →
      wake state = state.broadcast)
    (awake : ending.Awake stopped count) (stepped : ending.step loop wake action = some next) :
    next.Awake stopped count ∧
      Prod.Lex (· < ·) (Prod.Lex (· < ·) (· < ·)) (measure weight rank next)
        (measure weight rank ending) := by
  cases action with
  | thread index =>
    obtain ⟨after, moved, rfl⟩ := Option.map_eq_some_iff.mp stepped
    obtain ⟨kept, same, smaller⟩ := finishing.step awake.halted moved
    refine ⟨⟨kept, ?_, finishing.step_awake awake.halted awake.awake moved, ?_⟩, .right _ smaller⟩
    · have lengths := congrArg List.length same
      simpa [awake.length] using lengths
    · intro woken phase member
      have listed : phase.waits ∈ ending.state.threads.map Phase.waits :=
        same ▸ List.mem_map_of_mem member
      obtain ⟨before, old, waits⟩ := List.mem_map.mp listed
      rw [← waits]
      exact awake.none_left woken before old
  | wake =>
    simp only [Ending.step] at stepped
    split at stepped
    · cases stepped
    · rename_i asleep
      cases stepped
      rw [wakes _ awake.length]
      have waits := Loop.broadcast_waits ending.state
      refine ⟨⟨awake.halted, ?_, ?_, ?_⟩, .left _ _ ?_⟩
      · simpa [State.broadcast] using awake.length
      · intro phase member
        obtain ⟨before, old, rfl⟩ := List.mem_map.mp member
        rw [Loop.wake_holds]
        exact awake.awake before old
      · intro _ phase member
        have listed : phase.waits ∈ ending.state.threads.map Phase.holds :=
          waits ▸ List.mem_map_of_mem member
        obtain ⟨before, old, holds⟩ := List.mem_map.mp listed
        rw [← holds]
        exact awake.awake before old
      · simp [asleep]

theorem Awake.progress (awake : ending.Awake stopped count) :
    ending.Joined ∨ ∃ action next, ending.step loop wake action = some next := by
  cases woken : ending.woken with
  | false =>
    have moves : ending.step loop wake .wake = some ⟨wake ending.state, true⟩ := by
      rw [Ending.step, woken]
      rfl
    exact Or.inr ⟨.wake, _, moves⟩
  | true =>
    by_cases settled : ending.state.Settled
    · refine Or.inl ⟨woken, ?_⟩
      intro phase member
      have waits := awake.none_left woken phase member
      exact (settled phase member).resolve_right fun sleeps => by
        simp [Phase.waits, sleeps] at waits
    · obtain ⟨index, after, moved⟩ := @Loop.step_enabled Shared Place loop ending.state settled
      exact Or.inr ⟨.thread index, _, Option.map_eq_some_iff.mpr ⟨after, moved, rfl⟩⟩

/-- Behind the call only the threads move. -/
theorem loop_of_woken (ends : Inevitable (Ending.step loop wake) Joined ending)
    (woken : ending.woken = true) :
    Inevitable loop.step State.AllEnded ending.state := by
  induction ends with
  | here joined => exact .here joined.2
  | @later ending enabled _ ih =>
    obtain ⟨action, next, stepped⟩ := enabled
    have moves : ∀ index after, loop.step ending.state index = some after →
        ending.step loop wake (.thread index) = some { ending with state := after } :=
      fun index after moved => Option.map_eq_some_iff.mpr ⟨after, moved, rfl⟩
    refine .later ?_ fun index after moved => ih _ _ (moves index after moved) woken
    cases action with
    | thread index =>
      obtain ⟨after, moved, _⟩ := Option.map_eq_some_iff.mp stepped
      exact ⟨index, after, moved⟩
    | wake =>
      rw [step, woken] at stepped
      cases stepped

/-- All threads are joined on every schedule exactly where none is between its condition and its
wait when the end is asked for. -/
theorem joined_iff (finishing : loop.Finishing stopped weight rank) (halted : stopped state.shared)
    (wakes : ∀ other : State Shared Place, other.threads.length = state.threads.length →
      wake other = other.broadcast) :
    Inevitable (Ending.step loop wake) Joined ⟨state, false⟩ ↔ ∀ phase ∈ state.threads,
      phase.holds = false := by
  constructor
  · intro ends
    cases ends with
    | here joined => cases joined.1
    | later enabled all =>
      have woken := loop_of_woken (all .wake ⟨wake state, true⟩ rfl) rfl
      rw [wakes state rfl] at woken
      exact (finishing.broadcast_iff halted).mp woken
  · intro awake
    have start : Awake stopped state.threads.length ⟨state, false⟩ := by
      refine ⟨halted, rfl, awake, ?_⟩
      intro woken
      cases woken
    refine inevitable_of_invariant
      (WellFounded.prod_lex Nat.lt_wfRel.wf (WellFounded.prod_lex Nat.lt_wfRel.wf Nat.lt_wfRel.wf))
      (measure weight rank) ?_ (fun ending awake => Awake.progress awake) start
    intro ending action next awake stepped
    exact awake.step finishing wakes stepped

/-- Where one is, some schedule ends with a thread asleep and nobody left to wake it. -/
theorem may_sleep (finishing : loop.Finishing stopped weight rank) (halted : stopped state.shared)
    (wakes : wake state = state.broadcast) {phase : Phase Place} (member : phase ∈ state.threads)
    (holds : phase.holds = true) :
    ∃ actions final, follow (Ending.step loop wake) ⟨state, false⟩ actions = some final ∧
      (∃ phase ∈ final.state.threads, phase.sleeps = true) ∧ ∀ action,
        final.step loop wake action = none := by
  obtain ⟨indices, final, ran, settled, sleeping⟩ := (finishing.broadcast_settles halted).can_reach
  have lifted : ∀ (indices : List Nat) (before : State Shared Place),
      follow loop.step before indices = some final →
      follow (Ending.step loop wake) ⟨before, true⟩ (indices.map .thread) = some ⟨final, true⟩ := by
    intro indices
    induction indices with
    | nil =>
      intro before ran
      cases ran
      rfl
    | cons index indices ih =>
      intro before ran
      obtain ⟨next, moved, rest⟩ := Option.bind_eq_some_iff.mp ran
      exact Option.bind_eq_some_iff.mpr
        ⟨⟨next, true⟩, Option.map_eq_some_iff.mpr ⟨next, moved, rfl⟩, ih next rest⟩
  refine ⟨.wake :: indices.map .thread, ⟨final, true⟩, ?_, ?_, ?_⟩
  · refine Option.bind_eq_some_iff.mpr ⟨⟨state.broadcast, true⟩, ?_, lifted indices _ ran⟩
    rw [← wakes]
    rfl
  · have listed : true ∈ final.threads.map Phase.sleeps := by
      rw [sleeping, ← holds]
      exact List.mem_map_of_mem member
    obtain ⟨last, present, sleeps⟩ := List.mem_map.mp listed
    exact ⟨last, present, sleeps⟩
  · intro action
    cases action with
    | thread index => rw [step, Loop.step_eq_none settled, Option.map_none]
    | wake => rfl

end Steps

end Ending

end LinuxCLearning.Monitor
