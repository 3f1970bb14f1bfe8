import Mathlib

/-! Runs of state machines. A total machine answers every call; a partial
machine refuses an action that is not enabled. Both come with the induction
that turns a fact about one step into a fact about every run. -/

namespace LinuxCLearning.Machine

universe u v w x
variable {State : Type u} {Call : Type v} {Reply : Type w} {Abstract : Type x}

/-- Replies to a sequence of calls, in order, and the state they end in. -/
def run (step : State → Call → Reply × State) : State → List Call → List Reply × State
  | state, [] => ([], state)
  | state, call :: calls =>
    let (reply, next) := step state call
    let (replies, final) := run step next calls
    (reply :: replies, final)

theorem run_cons (step : State → Call → Reply × State) (state : State) (call : Call)
    (calls : List Call) :
    run step state (call :: calls) =
      ((step state call).1 :: (run step (step state call).2 calls).1,
        (run step (step state call).2 calls).2) := rfl

theorem run_append (step : State → Call → Reply × State) (state : State) (calls more : List Call) :
    run step state (calls ++ more) =
      ((run step state calls).1 ++ (run step (run step state calls).2 more).1,
        (run step (run step state calls).2 more).2) := by
  induction calls generalizing state with
  | nil => rfl
  | cons call calls ih => rw [List.cons_append, run_cons, ih, run_cons, List.cons_append]

theorem run_length (step : State → Call → Reply × State) (state : State) (calls : List Call) :
    (run step state calls).1.length = calls.length := by
  induction calls generalizing state with
  | nil => rfl
  | cons call calls ih => rw [run_cons, List.length_cons, List.length_cons, ih]

/-- A relation kept by every admitted call, with equal replies, makes runs of admitted
calls equal. -/
theorem run_simulates_admitted {concrete : State → Call → Reply × State}
    {abstract : Abstract → Call → Reply × Abstract} {related : State → Abstract → Prop}
    {admitted : Call → Prop}
    (simulates : ∀ state model call, admitted call → related state model →
      (concrete state call).1 = (abstract model call).1 ∧
        related (concrete state call).2 (abstract model call).2)
    (calls : List Call) (all : ∀ call ∈ calls, admitted call) {state : State} {model : Abstract}
    (start : related state model) :
    (run concrete state calls).1 = (run abstract model calls).1 ∧
      related (run concrete state calls).2 (run abstract model calls).2 := by
  induction calls generalizing state model with
  | nil => exact ⟨rfl, start⟩
  | cons call calls ih =>
    obtain ⟨sameReply, next⟩ := simulates state model call (all call (by simp)) start
    obtain ⟨sameRest, final⟩ := ih (fun other member => all other (by simp [member])) next
    simp only [run_cons]
    exact ⟨by rw [sameReply, sameRest], final⟩

/-- A relation kept by every call, with equal replies, makes whole runs equal. -/
theorem run_simulates {concrete : State → Call → Reply × State}
    {abstract : Abstract → Call → Reply × Abstract} {related : State → Abstract → Prop}
    (simulates : ∀ state model call, related state model →
      (concrete state call).1 = (abstract model call).1 ∧
        related (concrete state call).2 (abstract model call).2)
    (calls : List Call) {state : State} {model : Abstract} (start : related state model) :
    (run concrete state calls).1 = (run abstract model calls).1 ∧
      related (run concrete state calls).2 (run abstract model calls).2 := by
  have every : ∀ call ∈ calls, True := fun _ _ => trivial
  exact run_simulates_admitted (fun state model call _ => simulates state model call) calls every
    start

/-- A property that every admitted call keeps holds at the end of every run
made of admitted calls. -/
theorem run_keeps {step : State → Call → Reply × State} {admitted : Call → Prop}
    {invariant : State → Prop}
    (keeps : ∀ state call, admitted call → invariant state → invariant (step state call).2)
    (calls : List Call) (all : ∀ call ∈ calls, admitted call) {state : State}
    (start : invariant state) : invariant (run step state calls).2 := by
  induction calls generalizing state with
  | nil => exact start
  | cons call calls ih =>
    have next := keeps state call (all call (by simp)) start
    exact ih (fun other member => all other (by simp [member])) next

/-- The states that admitted calls lead to. -/
inductive Reachable (step : State → Call → State) (admitted : State → Call → Prop)
    (start : State) : State → Prop where
  | start : Reachable step admitted start start
  | call {state : State} (reached : Reachable step admitted start state) (call : Call)
      (allowed : admitted state call) : Reachable step admitted start (step state call)

theorem Reachable.keeps {step : State → Call → State} {admitted : State → Call → Prop}
    {invariant : State → Prop} {start state : State}
    (reached : Reachable step admitted start state) (initially : invariant start)
    (kept : ∀ state call, invariant state → admitted state call → invariant (step state call)) :
    invariant state := by
  induction reached with
  | start => exact initially
  | call reached call allowed ih => exact kept _ call ih allowed

section Partial
variable {Action : Type v}

/-- Follow a sequence of actions; `none` when one of them is not enabled. -/
def follow (step : State → Action → Option State) : State → List Action → Option State
  | state, [] => some state
  | state, action :: actions => (step state action).bind (follow step · actions)

theorem follow_keeps {step : State → Action → Option State} {invariant : State → Prop}
    (keeps : ∀ state action next, invariant state → step state action = some next → invariant next)
    {actions : List Action} {state final : State} (start : invariant state)
    (ran : follow step state actions = some final) : invariant final := by
  induction actions generalizing state with
  | nil =>
    cases ran
    exact start
  | cons action actions ih =>
    obtain ⟨next, stepped, rest⟩ := Option.bind_eq_some_iff.mp ran
    exact ih (keeps state action next start stepped) rest

/-- The states that enabled and admitted actions lead to. -/
inductive Arrives (step : State → Action → Option State) (admitted : State → Action → Prop)
    (start : State) : State → Prop where
  | start : Arrives step admitted start start
  | next {state next : State} (reached : Arrives step admitted start state) (action : Action)
      (allowed : admitted state action) (stepped : step state action = some next) :
      Arrives step admitted start next

/-- A property that every enabled and admitted action keeps holds wherever they lead. -/
theorem Arrives.keeps {step : State → Action → Option State} {admitted : State → Action → Prop}
    {invariant : State → Prop} {start state : State} (reached : Arrives step admitted start state)
    (initially : invariant start)
    (kept : ∀ state action next, invariant state → admitted state action →
      step state action = some next → invariant next) : invariant state := by
  induction reached with
  | start => exact initially
  | next reached action allowed stepped ih => exact kept _ action _ ih allowed stepped

theorem Arrives.follow {step : State → Action → Option State} {admitted : State → Action → Prop}
    {start state : State} (reached : Arrives step admitted start state) {actions : List Action}
    (allowed : ∀ action ∈ actions, ∀ state, admitted state action) {final : State}
    (ran : Machine.follow step state actions = some final) : Arrives step admitted start final := by
  induction actions generalizing state with
  | nil =>
    cases ran
    exact reached
  | cons action actions ih =>
    obtain ⟨next, stepped, rest⟩ := Option.bind_eq_some_iff.mp ran
    refine ih (reached.next action (allowed action (by simp) state) stepped) ?_ rest
    intro other member
    exact allowed other (by simp [member])

/-- Whatever actions are taken from here, a state with this property is reached:
every run can go on until then and none goes on forever before. -/
inductive Inevitable (step : State → Action → Option State) (goal : State → Prop) :
    State → Prop where
  | here {state : State} (reached : goal state) : Inevitable step goal state
  | later {state : State} (enabled : ∃ action next, step state action = some next)
      (all : ∀ action next, step state action = some next → Inevitable step goal next) :
      Inevitable step goal state

/-- An invariant under which the goal is reached or some action is enabled, with
a measure that every action decreases, makes the goal inevitable. -/
theorem inevitable_of_measure {Measure : Type w} {smaller : Measure → Measure → Prop}
    (wellFounded : WellFounded smaller) (measure : State → Measure)
    {step : State → Action → Option State} {invariant goal : State → Prop}
    (keeps : ∀ state action next, invariant state → step state action = some next → invariant next)
    (decreases : ∀ state action next, step state action = some next →
      smaller (measure next) (measure state))
    (progress : ∀ state, invariant state → goal state ∨ ∃ action next,
      step state action = some next)
    {state : State} (start : invariant state) : Inevitable step goal state := by
  have every : ∀ value, ∀ state, measure state = value → invariant state →
      Inevitable step goal state := by
    intro value
    induction value using wellFounded.induction with
    | _ value ih =>
      intro state same holds
      rcases progress state holds with reached | enabled
      · exact .here reached
      · refine .later enabled ?_
        intro action next stepped
        refine ih (measure next) ?_ next rfl (keeps state action next holds stepped)
        exact same ▸ decreases state action next stepped
  exact every (measure state) state rfl start

/-- The same where the invariant is what makes the measure decrease. -/
theorem inevitable_of_invariant {Measure : Type w} {smaller : Measure → Measure → Prop}
    (wellFounded : WellFounded smaller) (measure : State → Measure)
    {step : State → Action → Option State} {invariant goal : State → Prop}
    (keeps : ∀ state action next, invariant state → step state action = some next →
      invariant next ∧ smaller (measure next) (measure state))
    (progress : ∀ state, invariant state → goal state ∨ ∃ action next,
      step state action = some next)
    {state : State} (start : invariant state) : Inevitable step goal state := by
  induction same : measure state using wellFounded.induction generalizing state with
  | _ value ih =>
    rcases progress state start with reached | enabled
    · exact .here reached
    · refine .later enabled ?_
      intro action next stepped
      obtain ⟨kept, lower⟩ := keeps state action next start stepped
      exact ih (measure next) (same ▸ lower) kept rfl

/-- What holds in every state that has the goal's property may replace the goal. -/
theorem Inevitable.mono {step : State → Action → Option State} {goal weaker : State → Prop}
    {state : State} (inevitable : Inevitable step goal state)
    (weaken : ∀ state, goal state → weaker state) : Inevitable step weaker state := by
  induction inevitable with
  | here reached => exact .here (weaken _ reached)
  | later enabled all ih => exact .later enabled ih

theorem Inevitable.keeping {step : State → Action → Option State} {goal invariant : State → Prop}
    {state : State} (inevitable : Inevitable step goal state)
    (keeps : ∀ state action next, invariant state → step state action = some next → invariant next)
    (start : invariant state) :
      Inevitable step (fun state => goal state ∧ invariant state) state := by
  induction inevitable with
  | here reached => exact .here ⟨reached, start⟩
  | later enabled _ ih =>
    refine .later enabled ?_
    intro action next stepped
    exact ih action next stepped (keeps _ action next start stepped)

/-- What every action keeps holds in some state that has the goal's property. -/
theorem Inevitable.meets {step : State → Action → Option State} {goal invariant : State → Prop}
    {state : State} (inevitable : Inevitable step goal state)
    (keeps : ∀ state action next, invariant state → step state action = some next → invariant next)
    (start : invariant state) : ∃ final, invariant final ∧ goal final := by
  induction inevitable with
  | here reached => exact ⟨_, start, reached⟩
  | later enabled _ ih =>
    obtain ⟨action, next, stepped⟩ := enabled
    exact ih action next stepped (keeps _ action next start stepped)

theorem Inevitable.can_reach {step : State → Action → Option State}
    {goal : State → Prop} {state : State} (inevitable : Inevitable step goal state) :
    ∃ actions final, Machine.follow step state actions = some final ∧ goal final := by
  induction inevitable with
  | here reached => exact ⟨[], _, rfl, reached⟩
  | later enabled _ ih =>
    obtain ⟨action, next, stepped⟩ := enabled
    obtain ⟨actions, final, ran, reached⟩ := ih action next stepped
    exact ⟨action :: actions, final, Option.bind_eq_some_iff.mpr ⟨next, stepped, ran⟩, reached⟩

end Partial

end LinuxCLearning.Machine
