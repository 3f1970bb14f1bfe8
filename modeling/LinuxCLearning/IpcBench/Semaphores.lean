import LinuxCLearning.Base.Machine
import LinuxCLearning.Base.Bytes

/-! The exchange of `bench_shm_semaphore`: the parent copies the message into the shared region and
posts `sem_prod`, the child waits for that and posts `sem_cons`. Every byte that is copied and every
call on a semaphore is one step, in any order. -/

namespace LinuxCLearning.IpcBench

open Machine

/-- Where the parent stands in a round: before the copy of a byte, before `sem_post`, in
`sem_wait`, or past its loop. -/
inductive ProducerPlace where
  | copying (offset : Nat)
  | posting
  | waiting
  | finished
  deriving DecidableEq

/-- Where the child stands: in `sem_wait`, before `sem_post`, or past its loop. -/
inductive ConsumerPlace where
  | waiting
  | posting
  | finished
  deriving DecidableEq

/-- The semaphores and the region with the two processes and their loop counters. -/
structure Exchange where
  data : Bytes
  iterations : Nat
  region : Bytes
  prod : Nat
  cons : Nat
  producer : ProducerPlace
  producerRound : Nat
  consumer : ConsumerPlace
  consumerRound : Nat

/-- The head of the parent's loop. -/
def producerLoop (iterations round : Nat) : ProducerPlace :=
  if round < iterations then .copying 0 else .finished

/-- The head of the child's loop. -/
def consumerLoop (iterations round : Nat) : ConsumerPlace :=
  if round < iterations then .waiting else .finished

namespace Exchange

/-- Both processes after the `fork`. -/
def start (data : Bytes) (iterations : Int) (garbage : Bytes) : Exchange where
  data := data
  iterations := iterations.toNat
  region := garbage
  prod := 0
  cons := 0
  producer := producerLoop iterations.toNat 0
  producerRound := 0
  consumer := consumerLoop iterations.toNat 0
  consumerRound := 0

/-- The next step of the parent; `sem_wait` needs a post. -/
def producerStep (state : Exchange) : Option Exchange :=
  match state.producer with
  | .copying offset =>
    match state.data[offset]? with
    | some byte =>
      some { state with region := state.region.set offset byte, producer := .copying (offset + 1) }
    | none => some { state with producer := .posting }
  | .posting => some { state with prod := state.prod + 1, producer := .waiting }
  | .waiting =>
    if 0 < state.cons then
      some { state with
        cons := state.cons - 1
        producer := producerLoop state.iterations (state.producerRound + 1)
        producerRound := state.producerRound + 1 }
    else none
  | .finished => none

/-- The next step of the child. -/
def consumerStep (state : Exchange) : Option Exchange :=
  match state.consumer with
  | .waiting =>
    if 0 < state.prod then some { state with prod := state.prod - 1, consumer := .posting }
    else none
  | .posting =>
    some { state with
      cons := state.cons + 1
      consumer := consumerLoop state.iterations (state.consumerRound + 1)
      consumerRound := state.consumerRound + 1 }
  | .finished => none

/-- A step of the parent or of the child. -/
def step (state : Exchange) (parent : Bool) : Option Exchange :=
  if parent then state.producerStep else state.consumerStep

/-- Both processes are past their loops after so many rounds, with no post left. -/
def Finished (iterations : Nat) (state : Exchange) : Prop :=
  state.producer = .finished ∧ state.consumer = .finished ∧ state.producerRound = iterations ∧
    state.consumerRound = iterations ∧ state.prod = 0 ∧ state.cons = 0

end Exchange

/-- The states of the exchange with so many rounds behind both processes: who can move in each of
them, and how many steps are left. -/
inductive Turn (data : Bytes) (iterations round : Nat) :
    (parent : Bool) → (left : Nat) → Exchange → Prop where
  | copying (within : round < iterations) (offset : Nat)
      (inside : offset ≤ data.length) (region : Bytes)
      (length : region.length = data.length) (copied : region.take offset = data.take offset) :
      Turn data iterations round true (data.length - offset + 5)
        ⟨data, iterations, region, 0, 0, .copying offset, round, .waiting, round⟩
  | posting (within : round < iterations) :
      Turn data iterations round true 4 ⟨data, iterations, data, 0, 0, .posting,
        round, .waiting, round⟩
  | posted (within : round < iterations) :
      Turn data iterations round false 3 ⟨data, iterations, data, 1, 0, .waiting,
        round, .waiting, round⟩
  | taken (within : round < iterations) :
      Turn data iterations round false 2 ⟨data, iterations, data, 0, 0, .waiting,
        round, .posting, round⟩
  | answered (within : round < iterations) :
      Turn data iterations round true 1
        ⟨data, iterations, data, 0, 1, .waiting, round, consumerLoop iterations (round + 1),
          round + 1⟩

/-- The steps that are left after this round and in it. -/
def remaining (data : Bytes) (iterations round left : Nat) : Nat :=
  (iterations - (round + 1)) * (data.length + 6) + left

/-- In turn with so many steps left, or past all rounds. -/
inductive InTurn (data : Bytes) (iterations : Nat) : Nat → Exchange → Prop where
  | turn {round left : Nat} {parent : Bool} {state : Exchange}
      (turn : Turn data iterations round parent left state) :
      InTurn data iterations (remaining data iterations round left + 1) state
  | finished {state : Exchange} (past : state.Finished iterations) : InTurn data iterations 0 state

section Turns
variable {data : Bytes} {iterations round left : Nat} {parent : Bool} {state next : Exchange}

theorem inTurn_loop (within : round ≤ iterations) (region : Bytes)
    (length : region.length = data.length) :
    ∃ steps ≤ (iterations - round) * (data.length + 6), InTurn data iterations steps
      ⟨data, iterations, region, 0, 0, producerLoop iterations round, round,
        consumerLoop iterations round,
        round⟩ := by
  by_cases more : round < iterations
  · have turn : Turn data iterations round true (data.length - 0 + 5)
        ⟨data, iterations, region, 0, 0, .copying 0, round, .waiting, round⟩ :=
      .copying more 0 (Nat.zero_le _) region length rfl
    rw [producerLoop, consumerLoop, if_pos more, if_pos more]
    refine ⟨_, ?_, .turn turn⟩
    have rounds : iterations - round = iterations - (round + 1) + 1 := by omega
    rw [remaining, rounds, Nat.add_mul]
    omega
  · refine ⟨0, Nat.zero_le _, .finished ?_⟩
    rw [producerLoop, consumerLoop, if_neg more, if_neg more]
    exact ⟨rfl, rfl, le_antisymm within (not_lt.mp more), le_antisymm within (not_lt.mp more), rfl,
      rfl⟩

/-- Exactly one of the processes can move, and its step goes on in turn. -/
theorem Turn.step (turn : Turn data iterations round parent left state) :
    state.step (!parent) = none ∧ ∃ next, state.step parent = some next ∧
      ∃ steps ≤ remaining data iterations round left, InTurn data iterations steps next := by
  cases turn with
  | copying within offset inside region length copied =>
    refine ⟨rfl, ?_⟩
    by_cases more : offset < data.length
    · have copies : (region.set offset data[offset]).take (offset + 1) =
          data.take (offset + 1) := by
        rw [List.take_add_one, List.take_add_one, List.take_set_of_le (le_refl offset), copied,
          List.getElem?_set_self (by rwa [length]), List.getElem?_eq_getElem more]
      refine ⟨_, by simp only [Exchange.step, Exchange.producerStep, List.getElem?_eq_getElem more]; rfl, ?_⟩
      refine ⟨_, ?_, .turn (.copying within (offset + 1) more
        (region.set offset data[offset]) ?_ copies)⟩
      · simp only [remaining]
        omega
      · rw [List.length_set, length]
    · obtain rfl : offset = data.length := by omega
      obtain rfl : region = data := by
        rwa [List.take_length, List.take_of_length_le length.le] at copied
      refine ⟨_, by simp only [Exchange.step, Exchange.producerStep, List.getElem?_eq_none (le_refl _)]; rfl, ?_⟩
      refine ⟨_, ?_, .turn (.posting within)⟩
      simp only [remaining]
      omega
  | posting within => exact ⟨rfl, _, rfl, _, le_refl _, .turn (.posted within)⟩
  | posted within => exact ⟨rfl, _, rfl, _, le_refl _, .turn (.taken within)⟩
  | taken within => exact ⟨rfl, _, rfl, _, le_refl _, .turn (.answered within)⟩
  | answered within =>
    refine ⟨?_, _, rfl, ?_⟩
    · by_cases more : round + 1 < iterations <;>
        simp [Exchange.step, Exchange.consumerStep, consumerLoop, more]
    · have next : round + 1 ≤ iterations := within
      obtain ⟨steps, few, inTurn⟩ := inTurn_loop next data rfl
      exact ⟨steps, by rw [remaining]; omega, inTurn⟩

/-- The child has its turn only with the whole message in the region. -/
theorem Turn.region (turn : Turn data iterations round false left state) : state.region = data := by
  cases turn <;> rfl

theorem InTurn.step {steps : Nat} (inTurn : InTurn data iterations steps state)
    (stepped : state.step parent = some next) :
      ∃ fewer < steps, InTurn data iterations fewer next := by
  cases inTurn with
  | turn turn =>
    rename_i round left turned
    obtain ⟨idle, following, moves, fewer, few, again⟩ := turn.step
    have same : turned = parent := by
      by_contra different
      have other : parent = !turned := by cases turned <;> cases parent <;> simp_all
      rw [other, idle] at stepped
      cases stepped
    rw [same, stepped] at moves
    cases moves
    exact ⟨fewer, Nat.lt_succ_of_le few, again⟩
  | finished past =>
    obtain ⟨producer, consumer, _⟩ := past
    cases parent <;> simp [Exchange.step, Exchange.producerStep, Exchange.consumerStep,
      producer, consumer] at stepped

theorem InTurn.ends {steps : Nat} (inTurn : InTurn data iterations steps state) :
    Inevitable Exchange.step (Exchange.Finished iterations) state := by
  induction steps using Nat.strong_induction_on generalizing state with
  | _ steps ih =>
    cases inTurn with
    | turn turn =>
      obtain ⟨_, following, moves, _⟩ := turn.step
      refine .later ⟨_, following, moves⟩ ?_
      intro parent next stepped
      obtain ⟨fewer, few, again⟩ := InTurn.step (.turn turn) stepped
      exact ih fewer few again
    | finished past => exact .here past

end Turns

/-- For every message and number of iterations, and in whatever order the processes run: one of
them, and never the other, can move until both have done all their rounds, which they do, and the
child finds the whole message in the region whenever it is its turn. -/
theorem semaphore_exchange (data garbage : Bytes) (iterations : Int)
    (same : garbage.length = data.length) :
    Inevitable Exchange.step (Exchange.Finished iterations.toNat)
      (Exchange.start data iterations garbage) ∧
    ∀ state, Arrives Exchange.step (fun _ _ => True)
      (Exchange.start data iterations garbage) state →
      state.Finished iterations.toNat ∨ ∃ parent, (state.step parent).isSome ∧
        state.step (!parent) = none ∧
        (parent = false → state.region = data) := by
  obtain ⟨steps, _, start⟩ : ∃ steps ≤ (iterations.toNat - 0) * (data.length + 6),
    InTurn data iterations.toNat steps (Exchange.start data iterations garbage) :=
      inTurn_loop (Nat.zero_le _) garbage same
  refine ⟨start.ends, ?_⟩
  intro state reached
  have inTurn : ∃ steps, InTurn data iterations.toNat steps state := by
    induction reached with
    | start => exact ⟨steps, start⟩
    | next _ parent _ stepped ih =>
      obtain ⟨steps, inTurn⟩ := ih
      obtain ⟨fewer, _, again⟩ := inTurn.step stepped
      exact ⟨fewer, again⟩
  obtain ⟨steps, inTurn⟩ := inTurn
  cases inTurn with
  | turn turn =>
    rename_i parent
    obtain ⟨idle, next, moves, _⟩ := turn.step
    refine Or.inr ⟨parent, by rw [moves]; rfl, idle, ?_⟩
    rintro rfl
    exact turn.region
  | finished past => exact Or.inl past

/-- Two rounds with a message of one byte. -/
theorem semaphore_exchange_two :
    Inevitable Exchange.step (Exchange.Finished 2) (Exchange.start [7] 2 [0]) :=
  (semaphore_exchange [7] [0] 2 rfl).1

end LinuxCLearning.IpcBench
