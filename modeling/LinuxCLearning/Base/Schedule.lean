import LinuxCLearning.Base.Process

/-! A program whose calls are answered from a list: each call fails, or moves some letters, as
many as the list and the request allow. -/

namespace LinuxCLearning

/-- A program behind the calls that a schedule has answers for: its result if it has ended, its
state, the letters that it has sent, those that it has not received, and the answers that are
left. -/
structure Play (Letter σ α : Type) where
  ended : Option α
  state : σ
  sent : List Letter
  inbox : List Letter
  rest : List (Option Nat)

namespace Play
variable {Letter σ α β : Type}

/-- Letters that have been sent before. -/
def after (play : Play Letter σ α) (sent : List Letter) : Play Letter σ α :=
  { play with sent := sent ++ play.sent }

theorem after_after (play : Play Letter σ α) (first second : List Letter) :
    (play.after second).after first = play.after (first ++ second) := by
  rw [after, after, after, List.append_assoc]

end Play

namespace Proc
variable {Letter σ α β : Type}

/-- Run a program by a schedule. The answer `none` is a failure, and `some more` one letter and
up to so many more; a `recv` without any letter to receive waits. -/
def play : Proc Letter σ α → σ → List Letter → List (Option Nat) → Play Letter σ α
  | done value, state, inbox, schedule => ⟨some value, state, [], inbox, schedule⟩
  | act update next, state, inbox, schedule => (next state).play (update state) inbox schedule
  | send _ _ _, state, inbox, [] => ⟨none, state, [], inbox, []⟩
  | send _ _ next, state, inbox, none :: schedule => (next none).play state inbox schedule
  | send data whole next, state, inbox, some more :: schedule =>
    let count := if whole then data.length else min (more + 1) data.length
    ((next (some count)).play state inbox schedule).after (data.take count)
  | recv _ _, state, inbox, [] => ⟨none, state, [], inbox, []⟩
  | recv _ next, state, inbox, none :: schedule => (next none).play state inbox schedule
  | recv limit next, state, inbox, some more :: schedule =>
    if inbox = [] then ⟨none, state, [], [], some more :: schedule⟩
    else
      let count := min (more + 1) limit
      (next (some (inbox.take count))).play state (inbox.drop count) schedule

/-- Where the first program ends, the rest goes on. -/
def continuePlay (first : Play Letter σ α) (rest : α → Proc Letter σ β) : Play Letter σ β :=
  match first.ended with
  | some value => ((rest value).play first.state first.inbox first.rest).after first.sent
  | none => ⟨none, first.state, first.sent, first.inbox, first.rest⟩

theorem continuePlay_after (first : Play Letter σ α) (rest : α → Proc Letter σ β)
    (sent : List Letter) :
    continuePlay (first.after sent) rest = (continuePlay first rest).after sent := by
  obtain ⟨ended, state, out, inbox, left⟩ := first
  cases ended with
  | none => rfl
  | some value => exact (Play.after_after _ _ _).symm

/-- A sequence of programs runs as the first one and then the rest. -/
theorem play_bind (first : Proc Letter σ α) (rest : α → Proc Letter σ β) (state : σ)
    (inbox : List Letter) (schedule : List (Option Nat)) :
    (first >>= rest).play state inbox schedule =
      continuePlay (first.play state inbox schedule) rest := by
  induction first generalizing state inbox schedule with
  | done value => rfl
  | act update next ih => exact ih state (update state) inbox schedule
  | send data whole next ih =>
    cases schedule with
    | nil => rfl
    | cons call schedule =>
      cases call with
      | none => exact ih none state inbox schedule
      | some more =>
        have later := ih (some (if whole then data.length else min (more + 1) data.length)) state
          inbox schedule
        have split := congrArg
          (Play.after · (data.take (if whole then data.length else min (more + 1) data.length))) later
        exact split.trans (continuePlay_after _ _ _).symm
  | recv limit next ih =>
    cases schedule with
    | nil => rfl
    | cons call schedule =>
      cases call with
      | none => exact ih none state inbox schedule
      | some more =>
        by_cases empty : inbox = []
        · have waits : (recv limit next).play state inbox (some more :: schedule) =
              ⟨none, state, [], [], some more :: schedule⟩ := if_pos empty
          rw [waits]
          exact if_pos empty
        · have goes : (recv limit next).play state inbox (some more :: schedule) =
              (next (some (inbox.take (min (more + 1) limit)))).play state
                  (inbox.drop (min (more + 1) limit)) schedule :=
            if_neg empty
          rw [goes, ← ih]
          exact if_neg empty

end Proc

/-- The course of a loop that has to move some letters: by the schedule, the number of those that
it moves, its result and the answers that are left. It succeeds when all are moved, fails with
a call, and waits when there is no answer, or when it is blocked. -/
inductive Course {α : Type} (success failure : α) (blocked : Prop) :
    (goal : Nat) → List (Option Nat) → (moved : Nat) → Option α → List (Option Nat) → Prop where
  | succeeds {rest : List (Option Nat)} : Course success failure blocked 0 rest
      0 (some success) rest
  | fails {goal : Nat} {rest : List (Option Nat)} (more : 0 < goal) :
      Course success failure blocked goal (none :: rest) 0 (some failure) rest
  | waits {goal : Nat} {rest : List (Option Nat)} (more : 0 < goal) (dry : rest = [] ∨ blocked) :
      Course success failure blocked goal rest 0 none rest
  | moves {goal count more moved : Nat} {schedule rest : List (Option Nat)} {ended : Option α}
      (positive : 0 < count)
      (behind : Course success failure blocked goal schedule moved ended rest) :
      Course success failure blocked (count + goal) (some more :: schedule)
        (count + moved) ended rest

namespace Course
variable {α : Type} {success failure : α} {blocked : Prop} {goal moved : Nat}
  {schedule rest : List (Option Nat)} {ended : Option α}

theorem moved_le (course : Course success failure blocked goal schedule moved ended rest) :
    moved ≤ goal := by
  induction course with
  | succeeds => exact le_rfl
  | fails more => exact Nat.zero_le _
  | waits more dry => exact Nat.zero_le _
  | moves positive behind ih => exact Nat.add_le_add_left ih _

/-- It succeeds exactly if all letters have been moved. -/
theorem success_iff (course : Course success failure blocked goal schedule moved ended rest)
    (different : success ≠ failure) :
    ended = some success ↔ moved = goal := by
  induction course with
  | succeeds => exact iff_of_true rfl rfl
  | fails more => exact iff_of_false (fun same => different (Option.some.inj same).symm) more.ne
  | waits more dry => exact iff_of_false (Option.some_ne_none _).symm more.ne
  | moves positive behind ih => rw [ih, Nat.add_right_inj]

theorem ended_cases (course : Course success failure blocked goal schedule moved ended rest) :
    ended = some success ∨ ended = some failure ∨ ended = none := by
  induction course with
  | succeeds => exact .inl rfl
  | fails more => exact .inr (.inl rfl)
  | waits more dry => exact .inr (.inr rfl)
  | moves positive behind ih => exact ih

/-- It fails only with a call that fails, the last one that it makes. -/
theorem failed_call (course : Course success failure blocked goal schedule moved ended rest)
    (different : success ≠ failure) (failed : ended = some failure) :
      moved < goal ∧ ∃ calls, none ∉ calls ∧ schedule = calls ++ none :: rest := by
  induction course with
  | succeeds => exact absurd (Option.some.inj failed) different
  | fails more => exact ⟨more, [], List.not_mem_nil, rfl⟩
  | waits more dry => cases failed
  | @moves goal count more moved schedule rest ended positive behind ih =>
    obtain ⟨short, calls, plain, split⟩ := ih failed
    refine ⟨Nat.add_lt_add_left short _, some more :: calls, ?_, ?_⟩
    · simp [plain]
    · rw [split, List.cons_append]

theorem used (course : Course success failure blocked goal schedule moved ended rest)
    (going : ended ≠ some failure) :
    (∃ calls, schedule = calls ++ rest) ∧ schedule.length ≤ moved + rest.length := by
  induction course with
  | succeeds => exact ⟨⟨[], rfl⟩, Nat.le_add_left _ _⟩
  | fails more => exact absurd rfl going
  | waits more dry => exact ⟨⟨[], rfl⟩, Nat.le_add_left _ _⟩
  | @moves goal count more moved schedule rest ended positive behind ih =>
    obtain ⟨⟨calls, split⟩, short⟩ := ih going
    refine ⟨⟨some more :: calls, by rw [split, List.cons_append]⟩, ?_⟩
    rw [List.length_cons]
    omega

/-- A loop that is not blocked ends when there are as many answers as letters. -/
theorem ends (course : Course success failure blocked goal schedule moved ended rest)
    (different : success ≠ failure)
    (unblocked : ¬blocked) (enough : goal ≤ schedule.length) : ended ≠ none := by
  intro waiting
  have dry : rest = [] := by
    induction course with
    | succeeds => cases waiting
    | fails more => cases waiting
    | waits more dry => exact dry.resolve_right unblocked
    | moves positive behind ih =>
      apply ih _ waiting
      rw [List.length_cons] at enough
      omega
  have unfinished : moved ≠ goal := by
    rw [Ne, ← course.success_iff different, waiting]
    exact (Option.some_ne_none _).symm
  have inside := course.moved_le
  have short := (course.used (by rw [waiting]; exact (Option.some_ne_none _).symm)).2
  rw [dry, List.length_nil] at short
  omega

/-- A loop that has not succeeded would not have with more to move. -/
theorem further (course : Course success failure blocked goal schedule moved ended rest)
    (other : ended ≠ some success)
    (more : Nat) : Course success failure blocked (goal + more) schedule moved ended rest := by
  induction course with
  | succeeds => exact absurd rfl other
  | fails positive => exact .fails (Nat.add_pos_left positive more)
  | waits positive dry => exact .waits (Nat.add_pos_left positive more) dry
  | moves positive behind ih =>
    rw [Nat.add_assoc]
    exact .moves positive (ih other)

/-- Where a loop has succeeded another one goes on with the answers that are left. -/
theorem andThen {next more : Nat} {final : List (Option Nat)} {result : Option α}
    (different : success ≠ failure)
    (course : Course success failure blocked goal schedule moved ended rest)
    (succeeded : ended = some success)
    (later : Course success failure blocked next rest more result final) :
    Course success failure blocked (goal + next) schedule (moved + more) result final := by
  induction course with
  | succeeds => rwa [Nat.zero_add, Nat.zero_add]
  | fails positive => exact absurd (Option.some.inj succeeded).symm different
  | waits positive dry => cases succeeded
  | moves positive behind ih =>
    rw [Nat.add_assoc, Nat.add_assoc]
    exact .moves positive (ih succeeded later)

end Course

end LinuxCLearning
