import LinuxCLearning.Base.Link

/-! Connections with room for so many letters in each direction: a call that sends waits until
there is room. Two programs that take the two sides of one dialogue still get to its end. -/

namespace LinuxCLearning

variable {Letter σ α τ β : Type}

namespace Proc

/-- What the program sends may go out in pieces, or is one letter. -/
inductive Piecewise : Proc Letter σ α → Prop where
  | done (value : α) : Piecewise (done value)
  | act {update : σ → σ} {next : σ → Proc Letter σ α} (rest : ∀ state, (next state).Piecewise) :
      Piecewise (act update next)
  | send {data : List Letter} {whole : Bool} {next : Option Nat → Proc Letter σ α}
      (small : whole = true → data.length ≤ 1) (rest : ∀ result, (next result).Piecewise) :
      Piecewise (send data whole next)
  | recv {limit : Nat} {next : Option (List Letter) → Proc Letter σ α}
      (rest : ∀ result, (next result).Piecewise) : Piecewise (recv limit next)

theorem Piecewise.andThen {first : Proc Letter σ α} {after : α → Proc Letter σ β}
    (piecewise : first.Piecewise)
    (onwards : ∀ value, (after value).Piecewise) : (first >>= after).Piecewise := by
  induction piecewise with
  | done value => exact onwards value
  | act rest ih => exact .act ih
  | send small rest ih => exact .send small ih
  | recv rest ih => exact .recv ih

theorem Piecewise.child {program next : Proc Letter σ α} (piecewise : program.Piecewise)
    (child : Child next program) : next.Piecewise := by
  cases child <;> cases piecewise <;> rename_i rest <;> exact rest _

/-- Go on only after a success. -/
def guarded (first rest : Proc Letter σ Bool) : Proc Letter σ Bool :=
  first >>= fun success => if success then rest else pure false

/-- Any number of rounds, as long as they succeed. -/
def rounds (body : Proc Letter σ Bool) : Nat → Proc Letter σ Bool
  | 0 => pure true
  | count + 1 => guarded body (rounds body count)

theorem Piecewise.guarded {first rest : Proc Letter σ Bool} (piecewise : first.Piecewise)
    (onwards : rest.Piecewise) :
    (guarded first rest).Piecewise := by
  refine piecewise.andThen fun success => ?_
  split
  · exact onwards
  · exact .done false

theorem Piecewise.rounds {body : Proc Letter σ Bool} (piecewise : body.Piecewise) (count : Nat) :
    (body.rounds count).Piecewise := by
  induction count with
  | zero => exact .done true
  | succ count ih => exact piecewise.guarded ih

/-- The program takes its side of the dialogue and then succeeds with this of its state; where the
connection breaks it fails. -/
def Succeeds (post : σ → Prop) (program : Proc Letter σ Bool) (state : σ)
    (dialogue : List (Mark Letter)) : Prop :=
  Follows (fun _ => True) (Ends fun success after => success = true ∧ post after)
    (fun success _ => success = false)
    program state dialogue

theorem Succeeds.pure {post : σ → Prop} {state : σ} (holds : post state) :
    Succeeds post (pure true : Proc Letter σ Bool) state [] :=
  .ends trivial ⟨rfl, holds⟩

theorem Succeeds.guarded {between post : σ → Prop} {first rest : Proc Letter σ Bool} {state : σ}
    {dialogue later : List (Mark Letter)} (succeeds : Succeeds between first state dialogue)
    (onwards : ∀ after, between after → Succeeds post rest after later) :
    Succeeds post (guarded first rest) state (dialogue ++ later) := by
  refine Follows.andThen succeeds ?_ ?_
  · rintro _ after ⟨rfl, holds⟩
    exact onwards after holds
  · rintro _ after rfl
    exact ⟨trivial, rfl⟩

/-- The dialogue of the rounds is that of one round so many times. -/
theorem Succeeds.rounds {invariant : Nat → σ → Prop} {body : Proc Letter σ Bool}
    {dialogue : List (Mark Letter)} (succeeds : ∀ round state, invariant round state →
      Succeeds (invariant (round + 1)) body state dialogue)
    (count round : Nat) {state : σ} (start : invariant round state) :
    Succeeds (invariant (round + count))
      (body.rounds count) state (List.replicate count dialogue).flatten := by
  induction count generalizing round state with
  | zero => exact .pure start
  | succ count ih =>
    have total : round + (count + 1) = round + 1 + count := by omega
    rw [List.replicate_succ, List.flatten_cons, total]
    exact (succeeds round state start).guarded fun after next => ih (round + 1) next

end Proc

namespace End
variable {contract : Contract Letter σ α} {side : End Letter σ α} {dialogue : List (Mark Letter)}

/-- An end that can move can do so with one letter at most. -/
theorem small_move_or_wait (piecewise : side.program.Piecewise)
    (follows : contract.Follows side.program side.state (side.inbox.map .got ++ dialogue)) :
    (∃ size moved, side.move true size = some moved ∧ moved.1.inbox.length ≤ side.inbox.length ∧
      moved.2.length ≤ 1 ∧ (side.inbox ≠ [] → moved.2 = [])) ∨
    (side.inbox = [] ∧ ((dialogue = [] ∧ contract.rest side.program side.state) ∨
      ∃ letter later, dialogue = .got letter :: later)) := by
  rcases move_or_wait follows with can_move | waits
  · left
    obtain ⟨program, state, inbox⟩ := side
    obtain ⟨size, moved, moves⟩ := can_move
    generalize whole : inbox.map Mark.got ++ dialogue = speech at follows
    cases program with
    | done value => simp [move] at moves
    | act update after => exact ⟨none, _, rfl, le_refl _, Nat.zero_le 1, fun _ => rfl⟩
    | send data uncut after =>
      cases piecewise with
      | send small rest =>
        cases follows with
        | waits holds resting waiting => exact waiting.elim
        | send holds something follows dies =>
          obtain rfl := Mark.got_eq_sent whole something
          have one : 1 ≤ data.length := List.length_pos_iff.mpr something
          have exactly : uncut = true → 1 = data.length :=
            fun uncut => le_antisymm one (small uncut)
          refine ⟨some 1, _, if_pos ⟨one_pos, one, exactly⟩, le_refl _, ?_,
            fun more => absurd rfl more⟩
          simp
    | recv limit after =>
      cases size with
      | none =>
        simp only [move, Option.ite_none_right_eq_some] at moves
        cases moves.1.1
      | some count =>
        simp only [move, Option.ite_none_right_eq_some] at moves
        obtain ⟨⟨positive, within, available⟩, _⟩ := moves
        refine ⟨some count, _, if_pos ⟨positive, within, available⟩, ?_,
          Nat.zero_le 1, fun _ => rfl⟩
        simp
  · exact Or.inr waits

end End

namespace Link
variable {first : Contract Letter σ α} {second : Contract Letter τ β}
  {link next : Link Letter σ α τ β}
  {room : Nat}

/-- There is room for what is under way. -/
def Fits (room : Nat) (link : Link Letter σ α τ β) : Prop :=
  link.left.inbox.length ≤ room ∧ link.right.inbox.length ≤ room

instance (room : Nat) (link : Link Letter σ α τ β) : Decidable (link.Fits room) :=
  inferInstanceAs (Decidable (_ ∧ _))

/-- A step after which there is room for what is under way. -/
def boundedAdvance (room : Nat) (link : Link Letter σ α τ β) (choice : Bool × Option Nat) :
    Option (Link Letter σ α τ β) :=
  (link.advance choice).filter fun next => next.Fits room

theorem boundedAdvance_eq_some {choice : Bool × Option Nat} :
    link.boundedAdvance room choice = some next ↔
      link.advance choice = some next ∧ next.Fits room := by
  simp [boundedAdvance, Option.filter_eq_some_iff]

def Piecewise (link : Link Letter σ α τ β) : Prop :=
  link.left.program.Piecewise ∧ link.right.program.Piecewise

theorem Piecewise.advance {choice : Bool × Option Nat} (piecewise : link.Piecewise)
    (moved : link.advance choice = some next) : next.Piecewise := by
  obtain ⟨isLeft, size⟩ := choice
  cases isLeft with
  | true =>
    obtain ⟨left, out, ends, rfl⟩ := moveLeft_cases moved
    exact ⟨piecewise.1.child (End.move_child ends), piecewise.2⟩
  | false =>
    obtain ⟨other, same, rfl⟩ := Option.map_eq_some_iff.mp moved
    obtain ⟨right, out, ends, rfl⟩ := moveLeft_cases same
    exact ⟨piecewise.1, piecewise.2.child (End.move_child ends)⟩

theorem small_moveLeft {size : Option Nat} {moved : End Letter σ α × List Letter}
    (up : link.up = true) (fits : link.Fits room) (ends : link.left.move true size = some moved)
    (shorter : moved.1.inbox.length ≤ link.left.inbox.length)
    (space : link.right.inbox.length + moved.2.length ≤ room) :
    ∃ next, link.boundedAdvance room (true, size) = some next := by
  have moves : link.advance (true, size) =
      some { link with left := moved.1, right.inbox := link.right.inbox ++ moved.2 } := by
    simp [Link.advance, moveLeft, up, ends]
  refine ⟨_, boundedAdvance_eq_some.mpr ⟨moves, shorter.trans fits.1, ?_⟩⟩
  rw [List.length_append]
  exact space

theorem boundedAdvance_swap {choice : Bool × Option Nat} {other : Link Letter τ β σ α}
    (moved : link.swap.boundedAdvance room choice = some other) :
    link.boundedAdvance room (!choice.1, choice.2) = some other.swap := by
  obtain ⟨moves, fits⟩ := boundedAdvance_eq_some.mp moved
  exact boundedAdvance_eq_some.mpr ⟨advance_swap moves, fits.2, fits.1⟩

/-- With room for one letter, two ends in step never both wait: the one that is behind can take a
letter, and when nothing is under way there is room. -/
theorem Ahead.bounded_progress (up : link.up = true) (ahead : Ahead first second link)
    (piecewise : link.Piecewise) (fits : link.Fits room) (one : 1 ≤ room) :
    Settled first second link ∨ ∃ choice next, link.boundedAdvance room choice = some next := by
  obtain ⟨empty, dialogue, follows, other⟩ := ahead
  have right_moves {size : Option Nat} {moved : End Letter τ β × List Letter}
      (ends : link.right.move true size = some moved)
        (shorter : moved.1.inbox.length ≤ link.right.inbox.length)
      (small : moved.2.length ≤ 1) : ∃ choice next,
          link.boundedAdvance room choice = some next := by
    have space : link.swap.right.inbox.length + moved.2.length ≤ room := by
      rw [show link.swap.right.inbox = [] from empty, List.length_nil, Nat.zero_add]
      exact small.trans one
    have swapped : link.swap.up = true := up
    obtain ⟨next, moves⟩ := small_moveLeft swapped ⟨fits.2, fits.1⟩ ends shorter space
    exact ⟨_, _, boundedAdvance_swap moves⟩
  rcases End.small_move_or_wait piecewise.2 other with
    ⟨size, moved, ends, shorter, small, _⟩ | ⟨rightEmpty, rightWaits⟩
  · exact Or.inr (right_moves ends shorter small)
  rcases End.small_move_or_wait piecewise.1 (End.follows_of_empty empty follows) with
    ⟨size, moved, ends, shorter, small, _⟩ | ⟨_, leftWaits⟩
  · have space : link.right.inbox.length + moved.2.length ≤ room := by
      rw [rightEmpty, List.length_nil, Nat.zero_add]
      exact small.trans one
    obtain ⟨next, moves⟩ := small_moveLeft up fits ends shorter space
    exact Or.inr ⟨_, _, moves⟩
  left
  rcases leftWaits with ⟨finished, leftRests⟩ | ⟨letter, later, expects⟩
  · obtain rfl := List.map_eq_nil_iff.mp finished
    rcases rightWaits with ⟨_, rightRests⟩ | ⟨letter, later, more⟩
    · exact ⟨up, empty, rightEmpty, leftRests, rightRests⟩
    · cases more
  · rcases rightWaits with ⟨rfl, _⟩ | ⟨other, rest, rfl⟩
    · cases expects
    · cases expects

theorem Synced.bounded_progress (synced : Synced first second link) (piecewise : link.Piecewise)
    (fits : link.Fits room) (one : 1 ≤ room) :
    Settled first second link ∨ ∃ choice next, link.boundedAdvance room choice = some next := by
  rcases synced with ⟨up, ahead | behind⟩
  · exact ahead.bounded_progress up piecewise fits one
  · have swapped : link.swap.up = true := up
    rcases behind.bounded_progress swapped ⟨piecewise.2, piecewise.1⟩ ⟨fits.2, fits.1⟩ one with
      settled | ⟨choice, other, moved⟩
    · exact .inl settled.swap
    · exact .inr ⟨_, _, boundedAdvance_swap moved⟩

/-- Two programs in step get to the end of their dialogue, however little room there is. -/
theorem Synced.bounded_settles (synced : Synced first second link) (piecewise : link.Piecewise)
    (fits : link.Fits room) (one : 1 ≤ room) :
    Machine.Inevitable (boundedAdvance room) (Settled first second) link := by
  have keeps : ∀ (link : Link Letter σ α τ β) (choice : Bool × Option Nat)
      (next : Link Letter σ α τ β),
      Synced first second link ∧ link.Piecewise ∧ link.Fits room →
        link.boundedAdvance room choice = some next →
      (Synced first second next ∧ next.Piecewise ∧ next.Fits room) ∧
        Prod.GameAdd Proc.Child Proc.Child (next.left.program, next.right.program)
          (link.left.program, link.right.program) := by
    intro link choice next ⟨synced, piecewise, _⟩ moved
    obtain ⟨moves, fits⟩ := boundedAdvance_eq_some.mp moved
    exact ⟨⟨synced.advance moves, piecewise.advance moves, fits⟩, advance_decreases moves⟩
  exact Machine.inevitable_of_invariant (Proc.child_wellFounded.prod_gameAdd Proc.child_wellFounded)
    (fun link : Link Letter σ α τ β => (link.left.program, link.right.program)) keeps
    (fun _ holds => holds.1.bounded_progress holds.2.1 holds.2.2 one) ⟨synced, piecewise, fits⟩

theorem bounded_rounds {post : σ → Prop} {post' : τ → Prop} {client : Proc Letter σ Bool}
    {server : Proc Letter τ Bool} {state : σ} {store : τ} {dialogue : List (Mark Letter)}
    (left : client.Succeeds post state dialogue)
    (right : server.Succeeds post' store (dialogue.map Mark.dual)) (piecewise : client.Piecewise)
    (piecewise' : server.Piecewise) (one : 1 ≤ room) :
    Machine.Inevitable (boundedAdvance room)
      (fun link => link.left.program = .done true ∧ post link.left.state ∧
        link.right.program = .done true ∧
        post' link.right.state ∧ link.left.inbox = [] ∧ link.right.inbox = [])
      ⟨⟨client, state, []⟩, ⟨server, store, []⟩, true⟩ := by
  have fits : Fits room (⟨⟨client, state, []⟩, ⟨server, store, []⟩, true⟩ :
      Link Letter σ Bool τ Bool) :=
    ⟨Nat.zero_le room, Nat.zero_le room⟩
  refine ((synced_start left right).bounded_settles ⟨piecewise, piecewise'⟩ fits one).mono ?_
  rintro link ⟨_, leftEmpty, rightEmpty, ⟨_, leftDone, rfl, leftHolds⟩,
    ⟨_, rightDone, rfl, rightHolds⟩⟩
  exact ⟨leftDone, leftHolds, rightDone, rightHolds, leftEmpty, rightEmpty⟩

end Link

end LinuxCLearning
