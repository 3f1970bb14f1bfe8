import Mathlib

/-! Sequential programs that talk over one byte stream. A program is the tree of
its socket calls: what a call returns decides how the program goes on. A program
is specified by the dialogue it takes part in, the letters it sends and receives
in order, however the transport splits them into calls. -/

namespace LinuxCLearning

/-- A program with private state `σ` and result `α`. A `send` returns how many of
its letters went out and a `recv` the letters that came in; `none` is a failed
call. A `whole` send is never split. -/
inductive Proc (Letter σ α : Type) where
  | done (value : α)
  | act (update : σ → σ) (next : σ → Proc Letter σ α)
  | send (data : List Letter) (whole : Bool) (next : Option Nat → Proc Letter σ α)
  | recv (limit : Nat) (next : Option (List Letter) → Proc Letter σ α)

/-- A letter of a dialogue, seen from one side. -/
inductive Mark (Letter : Type) where
  | sent (letter : Letter)
  | got (letter : Letter)

namespace Mark
variable {Letter : Type}

/-- The same letter seen from the other side. -/
def dual : Mark Letter → Mark Letter
  | sent letter => got letter
  | got letter => sent letter

@[simp] theorem dual_comp_sent : (dual ∘ sent : Letter → Mark Letter) = got := rfl

@[simp] theorem dual_comp_got : (dual ∘ got : Letter → Mark Letter) = sent := rfl

@[simp] theorem dual_comp_dual : (dual ∘ dual : Mark Letter → Mark Letter) = id := by
  funext mark
  cases mark <;> rfl

/-- The letters of a dialogue that come in. -/
def incoming (dialogue : List (Mark Letter)) : List Letter :=
  dialogue.filterMap fun
    | got letter => some letter
    | sent _ => none

/-- The letters of a dialogue that go out. -/
def outgoing (dialogue : List (Mark Letter)) : List Letter :=
  dialogue.filterMap fun
    | got _ => none
    | sent letter => some letter

@[simp] theorem incoming_nil : incoming ([] : List (Mark Letter)) = [] := rfl

@[simp] theorem outgoing_nil : outgoing ([] : List (Mark Letter)) = [] := rfl

@[simp] theorem incoming_append (first second : List (Mark Letter)) :
    incoming (first ++ second) = incoming first ++ incoming second := List.filterMap_append

@[simp] theorem outgoing_append (first second : List (Mark Letter)) :
    outgoing (first ++ second) = outgoing first ++ outgoing second := List.filterMap_append

@[simp] theorem incoming_got (data : List Letter) : incoming (data.map got) = data := by
  simp [incoming, List.filterMap_map]

@[simp] theorem incoming_sent (data : List Letter) : incoming (data.map sent) = [] := by
  simp [incoming, List.filterMap_map]

@[simp] theorem outgoing_got (data : List Letter) : outgoing (data.map got) = [] := by
  simp [outgoing, List.filterMap_map]

@[simp] theorem outgoing_sent (data : List Letter) : outgoing (data.map sent) = data := by
  simp [outgoing, List.filterMap_map]

theorem got_injective : Function.Injective (got : Letter → Mark Letter) := by
  intro first second same
  cases same
  rfl

/-- Letters that came in before a letter went out were all there are. -/
theorem got_eq_sent {incoming outgoing : List Letter} {first second : List (Mark Letter)}
    (same : incoming.map got ++ first = outgoing.map sent ++ second) (some_out : outgoing ≠ []) :
    incoming = [] := by
  cases incoming with
  | nil => rfl
  | cons letter rest =>
    cases outgoing with
    | nil => exact absurd rfl some_out
    | cons other outgoing => simp at same

/-- Two readings of the same dialogue agree on the letters both see coming in. -/
theorem take_of_same {first second : List Letter} {firstRest secondRest : List (Mark Letter)}
    (same : first.map got ++ firstRest = second.map got ++ secondRest) {count : Nat}
    (inFirst : count ≤ first.length) (inSecond : count ≤ second.length) :
    first.take count = second.take count ∧
      (first.drop count).map got ++ firstRest = (second.drop count).map got ++ secondRest := by
  have heads := congrArg (List.take count) same
  have tails := congrArg (List.drop count) same
  rw [List.take_append_of_le_length (by simpa using inFirst),
    List.take_append_of_le_length (by simpa using inSecond), ← List.map_take,
    ← List.map_take] at heads
  rw [List.drop_append_of_le_length (by simpa using inFirst),
    List.drop_append_of_le_length (by simpa using inSecond), ← List.map_drop,
    ← List.map_drop] at tails
  exact ⟨List.map_injective_iff.mpr got_injective heads, tails⟩

end Mark

namespace Proc
variable {Letter σ α β : Type}

/-- What a program that is over has returned. -/
def result : Proc Letter σ α → Option α
  | done value => some value
  | _ => none

theorem result_eq_some {program : Proc Letter σ α} {value : α} :
    program.result = some value ↔ program = done value := by
  cases program <;> simp [result]

/-- Run one program and go on with its result. -/
def andThen (first : Proc Letter σ α) (rest : α → Proc Letter σ β) : Proc Letter σ β :=
  match first with
  | done value => rest value
  | act update next => act update fun state => (next state).andThen rest
  | send data whole next => send data whole fun result => (next result).andThen rest
  | recv limit next => recv limit fun result => (next result).andThen rest

instance : Monad (Proc Letter σ) where
  pure := done
  bind := andThen

@[simp] theorem bind_recv (limit : Nat) (next : Option (List Letter) → Proc Letter σ α)
    (rest : α → Proc Letter σ β) :
    (recv limit next >>= rest : Proc Letter σ β) = recv limit fun result => next result >>= rest :=
  rfl

theorem bind_assoc' {γ : Type} (first : Proc Letter σ α) (second : α → Proc Letter σ β)
    (third : β → Proc Letter σ γ) :
    (first >>= second >>= third : Proc Letter σ γ) = first >>= fun value =>
      second value >>= third := by
  induction first with
  | done value => rfl
  | act update next ih => exact congrArg (act update) (funext ih)
  | send data whole next ih => exact congrArg (send data whole) (funext ih)
  | recv limit next ih => exact congrArg (recv limit) (funext ih)

/-- A step on the private state. -/
def perform (call : σ → β × σ) : Proc Letter σ β :=
  act (fun state => (call state).2) fun state => done (call state).1

/-- What stays true of a program whose connection is gone: every `recv` fails, a
`send` returns anything. `always` holds in every state on the way and `post` of
the result. -/
def Dies (always : σ → Prop) (post : α → σ → Prop) : Proc Letter σ α → σ → Prop
  | done value, state => always state ∧ post value state
  | act update next, state => always state ∧ (next state).Dies always post (update state)
  | send _ _ next, state => always state ∧ ∀ result, (next result).Dies always post state
  | recv _ next, state => always state ∧ (next none).Dies always post state

/-- The program waits: it is done, or in a `recv` whose failure it survives. -/
def Waits (always : σ → Prop) (post : α → σ → Prop) : Proc Letter σ α → σ → Prop
  | done _, _ => True
  | recv _ next, state => (next none).Dies always post state
  | _, _ => False

/-- The program takes its side of a dialogue, whatever the sizes of the pieces in
which its letters go out and come in, and then waits in `rest`. It never asks for
letters past the ones the dialogue still has for it. `always` holds in every
state, and a connection that breaks at any letter leads to `dead`. -/
inductive Follows (always : σ → Prop) (rest : Proc Letter σ α → σ → Prop) (dead : α → σ → Prop) :
    Proc Letter σ α → σ → List (Mark Letter) → Prop where
  | waits {program : Proc Letter σ α} {state : σ} (holds : always state)
      (resting : rest program state)
      (waiting : program.Waits always dead state) : Follows always rest dead program state []
  | act {update : σ → σ} {next : σ → Proc Letter σ α} {state : σ} {dialogue : List (Mark Letter)}
      (holds : always state) (follows : Follows always rest dead (next state)
        (update state) dialogue) :
      Follows always rest dead (.act update next) state dialogue
  | send {data : List Letter} {whole : Bool} {next : Option Nat → Proc Letter σ α} {state : σ}
      {dialogue : List (Mark Letter)} (holds : always state) (something : data ≠ [])
      (follows : ∀ count, 0 < count → count ≤ data.length → (whole = true → count = data.length) →
        Follows always rest dead (next (some count)) state
          ((data.drop count).map .sent ++ dialogue))
      (dies : (next none).Dies always dead state) :
      Follows always rest dead (.send data whole next) state (data.map .sent ++ dialogue)
  | recv {limit : Nat} {next : Option (List Letter) → Proc Letter σ α}
      {data : List Letter} {state : σ}
      {dialogue : List (Mark Letter)} (holds : always state) (something : 0 < limit)
      (inside : limit ≤ data.length)
      (follows : ∀ count, 0 < count → count ≤ limit → Follows always rest dead
        (next (some (data.take count))) state ((data.drop count).map .got ++ dialogue))
      (dies : (next none).Dies always dead state) :
      Follows always rest dead (.recv limit next) state (data.map .got ++ dialogue)

/-- What holds wherever the program ends on a connection that does not fail, whatever
the sizes of the pieces: `post` of its result, its state and the incoming letters
that it has left. -/
def Delivers (post : α → σ → List Letter → Prop) : Proc Letter σ α → σ → List Letter → Prop
  | done value, state, inbox => post value state inbox
  | act update next, state, inbox => (next state).Delivers post (update state) inbox
  | send data whole next, state, inbox =>
    ∀ count, 0 < count → count ≤ data.length → (whole = true → count = data.length) →
      (next (some count)).Delivers post state inbox
  | recv limit next, state, inbox =>
    ∀ count, 0 < count → count ≤ limit → count ≤ inbox.length →
      (next (some (inbox.take count))).Delivers post state (inbox.drop count)

/-- What holds wherever the program ends when only the letters of `inbox` come in: any
`send` may fail, and a `recv` fails once they are used up. -/
def Yields (post : α → σ → List Letter → Prop) : Proc Letter σ α → σ → List Letter → Prop
  | done value, state, inbox => post value state inbox
  | act update next, state, inbox => (next state).Yields post (update state) inbox
  | send data whole next, state, inbox =>
    (next none).Yields post state inbox ∧
      ∀ count, 0 < count → count ≤ data.length → (whole = true → count = data.length) →
        (next (some count)).Yields post state inbox
  | recv limit next, state, inbox =>
    (inbox = [] → (next none).Yields post state []) ∧
      ∀ count, 0 < count → count ≤ limit → count ≤ inbox.length →
        (next (some (inbox.take count))).Yields post state (inbox.drop count)

/-- Rest that is an end with a result. -/
def Ends (post : α → σ → Prop) (program : Proc Letter σ α) (state : σ) : Prop :=
  ∃ value, program = done value ∧ post value state

section Rules
variable {always : σ → Prop} {post : α → σ → Prop} {state : σ} {program : Proc Letter σ α}

theorem Dies.holds (dies : program.Dies always post state) : always state := by
  cases program <;> exact dies.1

theorem Dies.andThen {first : Proc Letter σ α} {after : α → Proc Letter σ β} {final : β → σ → Prop}
    (dies : first.Dies always post state)
    (onwards : ∀ value state, post value state → (after value).Dies always final state) :
    (first >>= after).Dies always final state := by
  induction first generalizing state with
  | done value => exact onwards value state dies.2
  | act update next ih => exact ⟨dies.1, ih state dies.2⟩
  | send data whole next ih => exact ⟨dies.1, fun result => ih result (dies.2 result)⟩
  | recv limit next ih => exact ⟨dies.1, ih none dies.2⟩

theorem Dies.mono {weaker : α → σ → Prop} (dies : program.Dies always post state)
    (weaken : ∀ value state, post value state → weaker value state) :
    program.Dies always weaker state := by
  induction program generalizing state with
  | done value => exact ⟨dies.1, weaken value state dies.2⟩
  | act update next ih => exact ⟨dies.1, ih state dies.2⟩
  | send data whole next ih => exact ⟨dies.1, fun result => ih result (dies.2 result)⟩
  | recv limit next ih => exact ⟨dies.1, ih none dies.2⟩

theorem dies_trivially (program : Proc Letter σ α) (state : σ) :
    program.Dies (fun _ => True) (fun _ _ => True) state := by
  induction program generalizing state with
  | done value => exact ⟨trivial, trivial⟩
  | act update next ih => exact ⟨trivial, ih state (update state)⟩
  | send data whole next ih => exact ⟨trivial, fun result => ih result state⟩
  | recv limit next ih => exact ⟨trivial, ih none state⟩

variable {rest : Proc Letter σ α → σ → Prop} {dead : α → σ → Prop} {dialogue : List (Mark Letter)}

theorem Follows.holds (follows : Follows always rest dead program state dialogue) :
    always state := by
  cases follows <;> assumption

theorem Follows.ends {value : α} (holds : always state) (ended : post value state) :
    Follows always (Ends post) dead (done value : Proc Letter σ α) state [] :=
  .waits holds ⟨value, rfl, ended⟩ trivial

/-- The dialogue of a sequence is the dialogues of its parts one after the other. -/
theorem Follows.andThen {first : Proc Letter σ α} {after : α → Proc Letter σ β}
    {rest : Proc Letter σ β → σ → Prop} {final : β → σ → Prop} {later : List (Mark Letter)}
    (follows : Follows always (Ends post) dead first state dialogue)
    (onwards : ∀ value state, post value state →
      Follows always rest final (after value) state later)
    (broken : ∀ value state, dead value state → (after value).Dies always final state) :
    Follows always rest final (first >>= after) state (dialogue ++ later) := by
  induction follows with
  | waits holds resting waiting =>
    obtain ⟨value, rfl, ended⟩ := resting
    exact onwards value _ ended
  | act holds follows ih => exact .act holds ih
  | send holds something follows dies ih =>
    rw [List.append_assoc]
    refine .send holds something ?_ (dies.andThen broken)
    intro count positive within whole
    rw [← List.append_assoc]
    exact ih count positive within whole
  | recv holds something inside follows dies ih =>
    rw [List.append_assoc]
    refine .recv holds something inside ?_ (dies.andThen broken)
    intro count positive within
    rw [← List.append_assoc]
    exact ih count positive within

theorem Follows.append {final : Proc Letter σ α → σ → Prop} {later : List (Mark Letter)}
    (follows : Follows always rest dead program state dialogue)
    (onwards : ∀ program state, rest program state →
      Follows always final dead program state later) :
    Follows always final dead program state (dialogue ++ later) := by
  induction follows with
  | waits holds resting waiting => exact onwards _ _ resting
  | act holds follows ih => exact .act holds ih
  | send holds something follows dies ih =>
    rw [List.append_assoc]
    refine .send holds something ?_ dies
    intro count positive within whole
    rw [← List.append_assoc]
    exact ih count positive within whole
  | recv holds something inside follows dies ih =>
    rw [List.append_assoc]
    refine .recv holds something inside ?_ dies
    intro count positive within
    rw [← List.append_assoc]
    exact ih count positive within

theorem Follows.weaken {weaker deader : α → σ → Prop}
    (follows : Follows always (Ends post) dead program state dialogue)
    (ends : ∀ value state, post value state → weaker value state)
    (dies : ∀ value state, dead value state → deader value state) :
    Follows always (Ends weaker) deader program state dialogue := by
  induction follows with
  | waits holds resting waiting =>
    obtain ⟨value, rfl, ended⟩ := resting
    exact .ends holds (ends value _ ended)
  | act holds follows ih => exact .act holds ih
  | send holds something follows broken ih => exact .send holds something ih (broken.mono dies)
  | recv holds something inside follows broken ih =>
    exact .recv holds something inside ih (broken.mono dies)

theorem Follows.perform {call : σ → β × σ} {after : β → Proc Letter σ α} (holds : always state)
    (follows : Follows always rest dead (after (call state).1) (call state).2 dialogue) :
    Follows always rest dead (Proc.perform call >>= after) state dialogue :=
  .act holds follows

/-- A sequence is asked what its first part is asked to leave for the second. -/
theorem delivers_bind {post : β → σ → List Letter → Prop} (first : Proc Letter σ α)
    (after : α → Proc Letter σ β) {inbox : List Letter} :
    (first >>= after).Delivers post state inbox ↔
      first.Delivers (fun value state inbox => (after value).Delivers post state inbox) state
        inbox := by
  induction first generalizing state inbox with
  | done value => exact Iff.rfl
  | act update next ih => exact ih state
  | send data whole next ih =>
    exact forall_congr' fun count => forall₃_congr fun _ _ _ => ih (some count)
  | recv limit next ih =>
    exact forall_congr' fun count => forall₃_congr fun _ _ _ => ih (some _)

theorem delivers_perform {post : α → σ → List Letter → Prop} (call : σ → β × σ)
    (after : β → Proc Letter σ α) {inbox : List Letter} :
    (perform call >>= after).Delivers post state inbox ↔
      (after (call state).1).Delivers post (call state).2 inbox := Iff.rfl

theorem yields_bind {post : β → σ → List Letter → Prop} (first : Proc Letter σ α)
    (after : α → Proc Letter σ β) {inbox : List Letter} :
    (first >>= after).Yields post state inbox ↔
      first.Yields (fun value state inbox => (after value).Yields post state inbox) state
        inbox := by
  induction first generalizing state inbox with
  | done value => exact Iff.rfl
  | act update next ih => exact ih state
  | send data whole next ih =>
    exact and_congr (ih none)
      (forall_congr' fun count => forall₃_congr fun _ _ _ => ih (some count))
  | recv limit next ih =>
    exact and_congr (forall_congr' fun _ => ih none)
      (forall_congr' fun count => forall₃_congr fun _ _ _ => ih (some _))

theorem yields_perform {post : α → σ → List Letter → Prop} (call : σ → β × σ)
    (after : β → Proc Letter σ α) {inbox : List Letter} :
    (perform call >>= after).Yields post state inbox ↔
      (after (call state).1).Yields post (call state).2 inbox := Iff.rfl

theorem Yields.mono {stronger weaker : α → σ → List Letter → Prop} {inbox : List Letter}
    (yields : program.Yields stronger state inbox)
    (weaken : ∀ value state inbox, stronger value state inbox → weaker value state inbox) :
    program.Yields weaker state inbox := by
  induction program generalizing state inbox with
  | done value => exact weaken value state inbox yields
  | act update next ih => exact ih state yields
  | send data whole next ih =>
    refine ⟨ih none yields.1, ?_⟩
    intro count positive within uncut
    exact ih (some count) (yields.2 count positive within uncut)
  | recv limit next ih =>
    refine ⟨fun empty => ih none (yields.1 empty), ?_⟩
    intro count positive within available
    exact ih (some _) (yields.2 count positive within available)

/-- A `send` that may fail without harm yields what holds after every piece. -/
theorem yields_send {post : α → σ → List Letter → Prop} {data : List Letter} {whole : Bool}
    {next : Option Nat → Proc Letter σ α} {inbox : List Letter} {goal : Prop}
    (something : data ≠ []) (failed : (next none).Yields post state inbox)
    (onwards : ∀ count, 0 < count → count ≤ data.length →
      ((next (some count)).Yields post state inbox ↔ goal)) :
    (send data whole next).Yields post state inbox ↔ goal := by
  have positive := List.length_pos_iff.mpr something
  constructor
  · intro yields
    exact (onwards data.length positive (le_refl _)).mp (yields.2 data.length positive
      (le_refl _) fun _ => rfl)
  · intro holds
    refine ⟨failed, ?_⟩
    intro count positive within _
    exact (onwards count positive within).mpr holds

/-- A `recv` yields what holds after every piece, and after its failure when nothing comes in. -/
theorem yields_recv {post : α → σ → List Letter → Prop} {limit : Nat}
    {next : Option (List Letter) → Proc Letter σ α} {inbox : List Letter} {goal : Prop}
    (some_room : 0 < limit) (dry : inbox = [] → ((next none).Yields post state [] ↔ goal))
    (onwards : ∀ count, 0 < count → count ≤ limit → count ≤ inbox.length →
      ((next (some (inbox.take count))).Yields post state (inbox.drop count) ↔ goal)) :
    (recv limit next).Yields post state inbox ↔ goal := by
  by_cases empty : inbox = []
  · subst empty
    rw [← dry rfl]
    refine ⟨fun yields => yields.1 rfl, fun failed => ⟨fun _ => failed, ?_⟩⟩
    intro count positive _ available
    exact absurd available (not_le.mpr positive)
  · have available := List.length_pos_iff.mpr empty
    constructor
    · intro yields
      exact (onwards 1 Nat.one_pos some_room available).mp
        (yields.2 1 Nat.one_pos some_room available)
    · intro holds
      refine ⟨fun nothing => absurd nothing empty, ?_⟩
      intro count positive within available
      exact (onwards count positive within available).mpr holds

end Rules

end Proc

end LinuxCLearning
