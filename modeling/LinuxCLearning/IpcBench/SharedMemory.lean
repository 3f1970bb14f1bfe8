import LinuxCLearning.Base.Machine

/-! The handshake of `bench_shm` over the flags `ready` and `done` of the shared region.
Every read and every write of a flag is one step of the parent or of the child, in any
order. -/

namespace LinuxCLearning.IpcBench

open Machine

/-- Where the parent stands in a round: before `ready = 1`, in its wait for `done`, before
`done = 0`, or past its loop. -/
inductive ParentPlace where
  | raising
  | waiting
  | clearing
  | finished
  deriving DecidableEq

/-- Where the child stands in a round: in its wait for `ready`, before `done = 1`, before
`ready = 0`, or past its loop. -/
inductive ChildPlace where
  | waiting
  | raising
  | clearing
  | finished
  deriving DecidableEq

/-- The flags and the two processes with their loop counters. `signals` counts the writes
of `ready = 1`, and `consumed` lists which of them each round of the child saw. -/
structure Handshake where
  iterations : Nat
  ready : Bool
  done : Bool
  parent : ParentPlace
  parentRound : Nat
  child : ChildPlace
  childRound : Nat
  signals : Nat
  consumed : List Nat

inductive Process where
  | parent
  | child

/-- The head of the parent's loop. -/
def parentLoop (iterations round : Nat) : ParentPlace :=
  if round < iterations then .raising else .finished

/-- The head of the child's loop. -/
def childLoop (iterations round : Nat) : ChildPlace :=
  if round < iterations then .waiting else .finished

namespace Handshake

/-- Both processes after the `fork`. -/
def start (iterations : Int) : Handshake where
  iterations := iterations.toNat
  ready := false
  done := false
  parent := parentLoop iterations.toNat 0
  parentRound := 0
  child := childLoop iterations.toNat 0
  childRound := 0
  signals := 0
  consumed := []

/-- The next step of the parent. -/
def parentStep (state : Handshake) : Option Handshake :=
  match state.parent with
  | .raising => some { state with parent := .waiting, ready := true, signals := state.signals + 1 }
  | .waiting => some { state with parent := if state.done then .clearing else .waiting }
  | .clearing =>
    some { state with
      parent := parentLoop state.iterations (state.parentRound + 1)
      parentRound := state.parentRound + 1
      done := false }
  | .finished => none

/-- The next step of the child. -/
def childStep (state : Handshake) : Option Handshake :=
  match state.child with
  | .waiting =>
    if state.ready then
      some { state with child := .raising, consumed := state.consumed ++ [state.signals - 1] }
    else some state
  | .raising => some { state with child := .clearing, done := true }
  | .clearing =>
    some { state with
      child := childLoop state.iterations (state.childRound + 1)
      childRound := state.childRound + 1
      ready := false }
  | .finished => none

def step (state : Handshake) : Process → Option Handshake
  | .parent => state.parentStep
  | .child => state.childStep

/-- Both processes wait for a flag that only the other one sets. -/
def Stuck (state : Handshake) : Prop :=
  state.parent = .waiting ∧ state.done = false ∧ state.child = .waiting ∧ state.ready = false

/-- Every signal was seen by one round of the child, or is the last one and still up for
the child that waits for it. -/
def EachConsumed (state : Handshake) : Prop :=
  state.consumed.Nodup ∧ ∀ signal < state.signals, signal ∈ state.consumed ∨
    (signal + 1 = state.signals ∧ state.child = .waiting ∧ state.ready = true)

/-- The parent does not write `ready = 1` while the child is between `done = 1` and
`ready = 0`. -/
def Ordered (state : Handshake) : Process → Prop
  | .parent => state.parent = .raising → state.child ≠ .clearing
  | .child => True

end Handshake

/-- The states of the handshake with `round` rounds behind the parent or the child. In the
last two a signal has been, or is about to be, wiped out. -/
inductive Phase (iterations round : Nat) : (lost : Bool) → Handshake → Prop where
  | between (within : round ≤ iterations) : Phase iterations round false
      ⟨iterations, false, false, parentLoop iterations round, round,
        childLoop iterations round, round,
        round, List.range round⟩
  | signalled (within : round < iterations) : Phase iterations round false
      ⟨iterations, true, false, .waiting, round, .waiting, round, round + 1, List.range round⟩
  | seen (within : round < iterations) : Phase iterations round false
      ⟨iterations, true, false, .waiting, round, .raising, round, round + 1, List.range (round + 1)⟩
  | answered (within : round < iterations) (parent : ParentPlace)
      (place : parent = .waiting ∨ parent = .clearing) : Phase iterations round false
      ⟨iterations, true, true, parent, round, .clearing, round, round + 1, List.range (round + 1)⟩
  | childAhead (within : round < iterations) (parent : ParentPlace)
      (place : parent = .waiting ∨ parent = .clearing) : Phase iterations round false
      ⟨iterations, false, true, parent, round, childLoop iterations (round + 1),
        round + 1, round + 1,
        List.range (round + 1)⟩
  | parentAhead (within : round < iterations) : Phase iterations round false
      ⟨iterations, true, false, parentLoop iterations (round + 1), round + 1,
        .clearing, round, round + 1,
        List.range (round + 1)⟩
  | overrun (within : round + 1 < iterations) : Phase iterations round true
      ⟨iterations, true, false, .waiting, round + 1, .clearing, round, round + 2,
        List.range (round + 1)⟩
  | stuck (within : round + 1 < iterations) : Phase iterations round true
      ⟨iterations, false, false, .waiting, round + 1, .waiting, round + 1, round + 2,
        List.range (round + 1)⟩

section Phases
variable {iterations round : Nat} {lost : Bool} {state next : Handshake}

theorem Phase.parentStep (phase : Phase iterations round lost state)
    (stepped : state.parentStep = some next) :
    ∃ round lost', Phase iterations round lost' next ∧
      (lost' = true → lost = true ∨ ¬ state.Ordered .parent) := by
  cases phase with
  | between within =>
    by_cases more : round < iterations
    · simp only [Handshake.parentStep, parentLoop, childLoop, more, if_true,
        Option.some.injEq] at stepped
      subst stepped
      exact ⟨round, false, .signalled more, fun lost => by cases lost⟩
    · simp [Handshake.parentStep, parentLoop, more] at stepped
  | signalled within =>
    cases stepped
    exact ⟨round, false, .signalled within, fun lost => by cases lost⟩
  | seen within =>
    cases stepped
    exact ⟨round, false, .seen within, fun lost => by cases lost⟩
  | answered within parent place =>
    rcases place with rfl | rfl
    · cases stepped
      exact ⟨round, false, .answered within _ (Or.inr rfl), fun lost => by cases lost⟩
    · cases stepped
      exact ⟨round, false, .parentAhead within, fun lost => by cases lost⟩
  | childAhead within parent place =>
    rcases place with rfl | rfl
    · cases stepped
      exact ⟨round, false, .childAhead within _ (Or.inr rfl), fun lost => by cases lost⟩
    · cases stepped
      exact ⟨round + 1, false, .between within, fun lost => by cases lost⟩
  | parentAhead within =>
    by_cases more : round + 1 < iterations
    · have place : parentLoop iterations (round + 1) = .raising := if_pos more
      rw [place] at stepped ⊢
      cases stepped
      refine ⟨round, true, .overrun more, fun _ => Or.inr ?_⟩
      intro ordered
      exact ordered rfl rfl
    · simp [Handshake.parentStep, parentLoop, more] at stepped
  | overrun within =>
    cases stepped
    exact ⟨round, true, .overrun within, fun _ => Or.inl rfl⟩
  | stuck within =>
    cases stepped
    exact ⟨round, true, .stuck within, fun _ => Or.inl rfl⟩

theorem Phase.childStep (phase : Phase iterations round lost state)
    (stepped : state.childStep = some next) : ∃ round, Phase iterations round lost next := by
  cases phase with
  | between within =>
    by_cases more : round < iterations
    · have place : childLoop iterations round = .waiting := if_pos more
      rw [place] at stepped
      cases stepped
      refine ⟨round, ?_⟩
      rw [← place]
      exact .between within
    · simp [Handshake.childStep, childLoop, more] at stepped
  | signalled within =>
    cases stepped
    refine ⟨round, ?_⟩
    have consumed : List.range round ++ [round + 1 - 1] = List.range (round + 1) := by
      rw [Nat.add_sub_cancel, List.range_succ]
    simp only [consumed]
    exact .seen within
  | seen within =>
    cases stepped
    exact ⟨round, .answered within _ (Or.inl rfl)⟩
  | answered within parent place =>
    cases stepped
    exact ⟨round, .childAhead within parent place⟩
  | childAhead within parent place =>
    by_cases more : round + 1 < iterations
    · have head : childLoop iterations (round + 1) = .waiting := if_pos more
      rw [head] at stepped
      cases stepped
      refine ⟨round, ?_⟩
      rw [← head]
      exact .childAhead within parent place
    · simp [Handshake.childStep, childLoop, more] at stepped
  | parentAhead within =>
    cases stepped
    exact ⟨round + 1, .between within⟩
  | overrun within =>
    cases stepped
    refine ⟨round, ?_⟩
    have head : childLoop iterations (round + 1) = .waiting := if_pos within
    rw [head]
    exact .stuck within
  | stuck within =>
    cases stepped
    exact ⟨round, .stuck within⟩

theorem Phase.step {process : Process} (phase : Phase iterations round lost state)
    (stepped : state.step process = some next) :
    ∃ round lost', Phase iterations round lost' next ∧
      (lost' = true → lost = true ∨ ¬ state.Ordered process) := by
  cases process with
  | parent => exact phase.parentStep stepped
  | child =>
    obtain ⟨round, following⟩ := phase.childStep stepped
    exact ⟨round, lost, following, Or.inl⟩

theorem start_phase (iterations : Int) :
    Phase iterations.toNat 0 false (Handshake.start iterations) :=
  .between (Nat.zero_le _)

theorem parentLoop_ne_waiting (iterations round : Nat) :
    parentLoop iterations round ≠ .waiting := by
  unfold parentLoop
  split <;> simp

theorem Phase.not_stuck (phase : Phase iterations round false state) : ¬ state.Stuck := by
  intro ⟨parent, done, child, ready⟩
  cases phase with
  | between within => exact parentLoop_ne_waiting iterations round parent
  | signalled within => cases ready
  | seen within => cases ready
  | answered within place which => cases ready
  | childAhead within place which => cases done
  | parentAhead within => cases ready

theorem Phase.eachConsumed (phase : Phase iterations round false state) : state.EachConsumed := by
  cases phase with
  | signalled within =>
    refine ⟨List.nodup_range, ?_⟩
    intro signal earlier
    rcases Nat.lt_succ_iff_lt_or_eq.mp earlier with before | rfl
    · exact Or.inl (List.mem_range.mpr before)
    · exact Or.inr ⟨rfl, rfl, rfl⟩
  | _ => exact ⟨List.nodup_range, fun signal earlier => Or.inl (List.mem_range.mpr earlier)⟩

theorem Phase.more_of_lost (phase : Phase iterations round true state) : 1 < iterations := by
  cases phase with
  | overrun within => omega
  | stuck within => omega

/-- A parent that raises the next signal before the child has cleared the last one. -/
theorem Phase.stuck_of_unordered (phase : Phase iterations round lost state)
    (unordered : ¬ state.Ordered .parent) :
    ∃ later, follow Handshake.step state [.parent, .child] = some later ∧ later.Stuck := by
  simp only [Handshake.Ordered, not_forall, not_not] at unordered
  obtain ⟨parent, child⟩ := unordered
  cases phase with
  | between within =>
    simp only [childLoop] at child
    split at child <;> cases child
  | signalled within => cases parent
  | seen within => cases parent
  | answered within place which => rcases which with rfl | rfl <;> cases parent
  | childAhead within place which => rcases which with rfl | rfl <;> cases parent
  | parentAhead within =>
    have more : round + 1 < iterations := by
      by_contra last
      simp [parentLoop, last] at parent
    have head : parentLoop iterations (round + 1) = .raising := if_pos more
    have after : childLoop iterations (round + 1) = .waiting := if_pos more
    rw [head]
    exact ⟨_, rfl, rfl, rfl, after, rfl⟩
  | overrun within => cases parent
  | stuck within => cases parent

/-- Some phase describes the state. -/
def InPhase (iterations : Nat) (state : Handshake) : Prop :=
  ∃ round lost, Phase iterations round lost state

/-- Some phase without a lost signal does. -/
def InOrder (iterations : Nat) (state : Handshake) : Prop :=
  ∃ round, Phase iterations round false state

theorem InPhase.step {process : Process} (inPhase : InPhase iterations state)
    (stepped : state.step process = some next) : InPhase iterations next := by
  obtain ⟨round, lost, phase⟩ := inPhase
  obtain ⟨following, lost', after, -⟩ := phase.step stepped
  exact ⟨following, lost', after⟩

theorem InOrder.step {process : Process} (inOrder : InOrder iterations state)
    (ordered : state.Ordered process) (stepped : state.step process = some next) :
    InOrder iterations next := by
  obtain ⟨round, phase⟩ := inOrder
  obtain ⟨following, lost, after, why⟩ := phase.step stepped
  cases lost with
  | false => exact ⟨following, after⟩
  | true =>
    rcases why rfl with already | unordered
    · cases already
    · exact absurd ordered unordered

theorem arrives_inPhase {iterations : Int}
    (reached : Arrives Handshake.step (fun _ _ => True) (Handshake.start iterations) state) :
    InPhase iterations.toNat state := by
  refine reached.keeps ⟨0, false, start_phase iterations⟩ ?_
  intro before process after holds _ stepped
  exact holds.step stepped

theorem stuck_of_two_iterations {iterations : Int} (more : 1 < iterations) :
    ∃ state, follow Handshake.step (Handshake.start iterations)
      [.parent, .child, .child, .parent, .parent, .parent, .child] = some state ∧ state.Stuck := by
  obtain ⟨extra, rfl⟩ : ∃ extra : Nat, iterations = (extra + 2 : Nat) :=
    ⟨(iterations - 2).toNat, by omega⟩
  exact ⟨_, rfl, rfl, rfl, rfl, rfl⟩

end Phases

/-- In every run in which the parent raises no signal before the child has cleared the last
one, the two never wait for each other and each signal is consumed once; a parent that
does raise one too early gets both stuck. So every interleaving is sound only up to one
iteration. -/
theorem shm_handshake_sound (iterations : Int) :
    (∀ state, Arrives Handshake.step Handshake.Ordered (Handshake.start iterations) state →
      ¬ state.Stuck ∧ state.EachConsumed) ∧
    (∀ state, Arrives Handshake.step (fun _ _ => True) (Handshake.start iterations) state →
      ¬ state.Ordered .parent →
      ∃ later, follow Handshake.step state [.parent, .child] = some later ∧ later.Stuck) ∧
    ((∀ state, Arrives Handshake.step (fun _ _ => True) (Handshake.start iterations) state →
      ¬ state.Stuck ∧ state.EachConsumed) ↔ iterations ≤ 1) := by
  refine ⟨?_, ?_, ?_, ?_⟩
  · intro state reached
    have inOrder : InOrder iterations.toNat state := by
      refine reached.keeps ⟨0, start_phase iterations⟩ ?_
      intro before process after holds ordered stepped
      exact holds.step ordered stepped
    obtain ⟨round, phase⟩ := inOrder
    exact ⟨phase.not_stuck, phase.eachConsumed⟩
  · intro state reached unordered
    obtain ⟨round, lost, phase⟩ := arrives_inPhase reached
    exact phase.stuck_of_unordered unordered
  · intro always
    by_contra more
    obtain ⟨state, ran, stuck⟩ := stuck_of_two_iterations (not_le.mp more)
    exact (always state (Arrives.start.follow (fun _ _ _ => trivial) ran)).1 stuck
  · intro few state reached
    obtain ⟨round, lost, phase⟩ := arrives_inPhase reached
    cases lost with
    | false => exact ⟨phase.not_stuck, phase.eachConsumed⟩
    | true =>
      have more := phase.more_of_lost
      omega

/-- Two iterations: the child is late with its `ready = 0`, which wipes out the second
signal. -/
theorem second_signal_lost :
    ¬ ∀ (iterations : Int) (state : Handshake),
      Arrives Handshake.step (fun _ _ => True) (Handshake.start iterations) state →
      ¬ state.Stuck ∧ state.EachConsumed := by
  intro always
  have run : ∃ state, follow Handshake.step (Handshake.start 2)
      [.parent, .child, .child, .parent, .parent, .parent, .child] = some state ∧ state.Stuck :=
    ⟨_, rfl, rfl, rfl, rfl, rfl⟩
  obtain ⟨state, ran, stuck⟩ := run
  exact (always 2 state (Arrives.start.follow (fun _ _ _ => trivial) ran)).1 stuck

end LinuxCLearning.IpcBench
