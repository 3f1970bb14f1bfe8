import LinuxCLearning.Base.Machine
import LinuxCLearning.Base.Process

/-! Two programs at the ends of one connection. Either end may move at any time
and the transport decides the size of every piece. The connection delivers all
letters in order until it is cut; a cut may lose a tail of what is under way in
either direction, and calls fail after it. When both programs follow the two
sides of one dialogue, they cannot get out of step. -/

namespace LinuxCLearning

/-- A program with its private state and the letters under way to it. -/
structure End (Letter σ α : Type) where
  program : Proc Letter σ α
  state : σ
  inbox : List Letter

structure Link (Letter σ α τ β : Type) where
  left : End Letter σ α
  right : End Letter τ β
  up : Bool

variable {Letter σ α τ β : Type}

/-- The next step of an end, with the letters it puts on the wire. `size` is what
a call returns: a number of letters, or `none` for a failure, which takes a
connection that is down. Letters sent on such a connection are lost. -/
def End.move (up : Bool) (side : End Letter σ α) (size : Option Nat) :
    Option (End Letter σ α × List Letter) :=
  match side.program, size with
  | .done _, _ => none
  | .act update next, _ => some (⟨next side.state, update side.state, side.inbox⟩, [])
  | .send data whole next, some count =>
    if 0 < count ∧ count ≤ data.length ∧ (whole = true → count = data.length) then
      some (⟨next (some count), side.state, side.inbox⟩, if up then data.take count else [])
    else none
  | .send _ _ next, none =>
    if up = false then some (⟨next none, side.state, side.inbox⟩, []) else none
  | .recv limit next, some count =>
    if 0 < count ∧ count ≤ limit ∧ count ≤ side.inbox.length then
      some (⟨next (some (side.inbox.take count)), side.state, side.inbox.drop count⟩, [])
    else none
  | .recv _ next, none =>
    if up = false ∧ side.inbox = [] then some (⟨next none, side.state, []⟩, []) else none

namespace Link

def swap (link : Link Letter σ α τ β) : Link Letter τ β σ α :=
  ⟨link.right, link.left, link.up⟩

/-- The left end starts another program on the same connection. -/
def proceed (link : Link Letter σ α τ β) (program : Proc Letter σ α) : Link Letter σ α τ β :=
  { link with left.program := program }

/-- The left end moves and its letters reach the inbox of the right one. -/
def moveLeft (link : Link Letter σ α τ β) (size : Option Nat) : Option (Link Letter σ α τ β) :=
  (link.left.move link.up size).map fun moved =>
    { link with left := moved.1, right.inbox := link.right.inbox ++ moved.2 }

/-- A step of a connection that is left alone: which end moves and by how much. -/
def advance (link : Link Letter σ α τ β) : Bool × Option Nat → Option (Link Letter σ α τ β)
  | (true, size) => link.moveLeft size
  | (false, size) => (link.swap.moveLeft size).map swap

/-- What can happen: an end moves, or the connection is cut and only so many of the
letters under way to each end arrive. -/
inductive Event where
  | move (left : Bool) (size : Option Nat)
  | cut (toLeft toRight : Nat)

def step (link : Link Letter σ α τ β) : Event → Option (Link Letter σ α τ β)
  | .move left size => link.advance (left, size)
  | .cut toLeft toRight =>
    if link.up then
      some ⟨{ link.left with inbox := link.left.inbox.take toLeft },
        { link.right with inbox := link.right.inbox.take toRight }, false⟩
    else none

end Link

/-- What a program promises: `always` in every state, `rest` when its dialogue is
over, `dead` when the connection broke. -/
structure Contract (Letter σ α : Type) where
  always : σ → Prop
  rest : Proc Letter σ α → σ → Prop
  dead : α → σ → Prop

namespace Contract

def Follows (contract : Contract Letter σ α) : Proc Letter σ α → σ → List (Mark Letter) → Prop :=
  Proc.Follows contract.always contract.rest contract.dead

def Dies (contract : Contract Letter σ α) : Proc Letter σ α → σ → Prop :=
  Proc.Dies contract.always contract.dead

end Contract

namespace End
variable {contract : Contract Letter σ α} {side next : End Letter σ α}
  {out : List Letter} {up : Bool}
  {size : Option Nat} {dialogue : List (Mark Letter)}

theorem move_dies (dies : contract.Dies side.program side.state) (empty : side.inbox = [])
    (moved : side.move up size = some (next, out)) :
    contract.Dies next.program next.state ∧ next.inbox = [] := by
  obtain ⟨program, state, inbox⟩ := side
  cases empty
  cases program with
  | done value => simp [move] at moved
  | act update after =>
    cases moved
    exact ⟨dies.2, rfl⟩
  | send data whole after =>
    cases size <;> simp only [move, Option.ite_none_right_eq_some] at moved <;>
      obtain ⟨_, moved⟩ := moved <;> cases moved
    · exact ⟨dies.2 none, rfl⟩
    · exact ⟨dies.2 (some _), rfl⟩
  | recv limit after =>
    cases size with
    | none =>
      simp only [move, Option.ite_none_right_eq_some] at moved
      obtain ⟨_, moved⟩ := moved
      cases moved
      exact ⟨dies.2, rfl⟩
    | some count =>
      simp only [move, Option.ite_none_right_eq_some] at moved
      obtain ⟨⟨positive, _, available⟩, _⟩ := moved
      exact absurd available (not_le.mpr positive)

theorem move_silent (moved : side.move false size = some (next, out)) : out = [] := by
  obtain ⟨program, state, inbox⟩ := side
  cases program with
  | done value => simp [move] at moved
  | act update after =>
    cases moved
    rfl
  | send data whole after =>
    cases size <;> simp only [move, Option.ite_none_right_eq_some] at moved <;>
      obtain ⟨_, moved⟩ := moved <;> cases moved <;> rfl
  | recv limit after =>
    cases size <;> simp only [move, Option.ite_none_right_eq_some] at moved <;>
      obtain ⟨_, moved⟩ := moved <;> cases moved <;> rfl

/-- One move of an end that follows a dialogue whose next letters are in its inbox:
it stays on the dialogue, or sends the next letters of it, or the connection is
down and it dies. -/
theorem move_follows
    (follows : contract.Follows side.program side.state (side.inbox.map .got ++ dialogue))
    (moved : side.move up size = some (next, out)) :
    (contract.Follows next.program next.state (next.inbox.map .got ++ dialogue) ∧ out = [] ∧
      (side.inbox = [] → next.inbox = [])) ∨
    (side.inbox = [] ∧ next.inbox = [] ∧ ∃ data later, dialogue = data.map .sent ++ later ∧
      contract.Follows next.program next.state later ∧ out = if up then data else []) ∨
    (up = false ∧ next.inbox = [] ∧ out = [] ∧ contract.Dies next.program next.state) := by
  obtain ⟨program, state, inbox⟩ := side
  generalize whole : inbox.map Mark.got ++ dialogue = speech at follows
  cases follows with
  | waits holds resting waiting =>
    obtain ⟨nothing, rfl⟩ := List.append_eq_nil_iff.mp whole
    obtain rfl := List.map_eq_nil_iff.mp nothing
    cases program with
    | done value => simp [move] at moved
    | act update after => exact waiting.elim
    | send data whole after => exact waiting.elim
    | recv limit after =>
      right; right
      cases size with
      | none =>
        simp only [move, Option.ite_none_right_eq_some] at moved
        obtain ⟨⟨down, _⟩, moved⟩ := moved
        cases moved
        exact ⟨down, rfl, rfl, waiting⟩
      | some count =>
        simp only [move, Option.ite_none_right_eq_some] at moved
        obtain ⟨⟨positive, _, available⟩, _⟩ := moved
        exact absurd available (not_le.mpr positive)
  | act holds follows =>
    cases moved
    subst whole
    exact .inl ⟨follows, rfl, id⟩
  | send holds something follows dies =>
    obtain rfl := Mark.got_eq_sent whole something
    right
    cases size with
    | none =>
      simp only [move, Option.ite_none_right_eq_some] at moved
      obtain ⟨down, moved⟩ := moved
      cases moved
      exact .inr ⟨down, rfl, rfl, dies⟩
    | some count =>
      simp only [move, Option.ite_none_right_eq_some] at moved
      obtain ⟨⟨positive, within, uncut⟩, moved⟩ := moved
      cases moved
      refine .inl ⟨rfl, rfl, _, _, ?_, follows count positive within uncut, rfl⟩
      rw [← List.append_assoc, ← List.map_append, List.take_append_drop]
      exact whole
  | recv holds something inside follows dies =>
    cases size with
    | none =>
      simp only [move, Option.ite_none_right_eq_some] at moved
      obtain ⟨⟨down, _⟩, moved⟩ := moved
      cases moved
      exact .inr (.inr ⟨down, rfl, rfl, dies⟩)
    | some count =>
      simp only [move, Option.ite_none_right_eq_some] at moved
      obtain ⟨⟨positive, within, available⟩, moved⟩ := moved
      cases moved
      obtain ⟨same, later⟩ := Mark.take_of_same whole available (within.trans inside)
      left
      rw [same, later]
      refine ⟨follows count positive within, rfl, ?_⟩
      intro empty
      exact (congrArg (List.drop count) empty).trans List.drop_nil

theorem follows_of_empty (empty : side.inbox = [])
    (follows : contract.Follows side.program side.state dialogue) :
    contract.Follows side.program side.state (side.inbox.map .got ++ dialogue) := by
  rw [empty]
  exact follows

/-- An end that follows a dialogue on a working connection can move, unless it has
nothing left to do or waits for a letter that is not there yet. -/
theorem move_or_wait
    (follows : contract.Follows side.program side.state (side.inbox.map .got ++ dialogue)) :
    (∃ size moved, side.move true size = some moved) ∨
    (side.inbox = [] ∧ ((dialogue = [] ∧ contract.rest side.program side.state) ∨
      ∃ letter later, dialogue = .got letter :: later)) := by
  obtain ⟨program, state, inbox⟩ := side
  generalize whole : inbox.map Mark.got ++ dialogue = speech at follows
  cases follows with
  | waits holds resting waiting =>
    obtain ⟨nothing, none_left⟩ := List.append_eq_nil_iff.mp whole
    exact .inr ⟨List.map_eq_nil_iff.mp nothing, .inl ⟨none_left, resting⟩⟩
  | act holds follows => exact .inl ⟨none, _, rfl⟩
  | @send data _ _ _ _ holds something follows dies =>
    exact .inl ⟨some data.length, _,
      if_pos ⟨List.length_pos_iff.mpr something, le_refl _, fun _ => rfl⟩⟩
  | recv holds something inside follows dies =>
    cases inbox with
    | nil =>
      right
      refine ⟨rfl, .inr ?_⟩
      obtain ⟨letter, rest, rfl⟩ :=
        List.exists_cons_of_length_pos (something.trans_le inside)
      exact ⟨letter, _, whole⟩
    | cons letter inbox =>
      exact .inl ⟨some 1, _, if_pos ⟨one_pos, something, by simp⟩⟩

end End

namespace Proc

/-- One program is what another goes on with. -/
inductive Child : Proc Letter σ α → Proc Letter σ α → Prop where
  | act {update : σ → σ} {next : σ → Proc Letter σ α}
      (state : σ) : Child (next state) (act update next)
  | send {data : List Letter} {whole : Bool} {next : Option Nat → Proc Letter σ α}
      (result : Option Nat) : Child (next result) (send data whole next)
  | recv {limit : Nat} {next : Option (List Letter) → Proc Letter σ α}
      (result : Option (List Letter)) : Child (next result) (recv limit next)

/-- A program takes finitely many steps, whatever its calls return. -/
theorem child_wellFounded : WellFounded (Child : Proc Letter σ α → Proc Letter σ α → Prop) := by
  refine ⟨fun program => ?_⟩
  induction program with
  | done value => exact ⟨_, fun _ child => nomatch child⟩
  | act update next ih =>
    refine ⟨_, ?_⟩
    intro other child
    cases child with
    | act state => exact ih state
  | send data whole next ih =>
    refine ⟨_, ?_⟩
    intro other child
    cases child with
    | send result => exact ih result
  | recv limit next ih =>
    refine ⟨_, ?_⟩
    intro other child
    cases child with
    | recv result => exact ih result

end Proc

theorem End.move_child {side next : End Letter σ α} {out : List Letter}
    {up : Bool} {size : Option Nat}
    (moved : side.move up size = some (next, out)) : Proc.Child next.program side.program := by
  obtain ⟨program, state, inbox⟩ := side
  cases program with
  | done value => simp [move] at moved
  | act update after =>
    cases moved
    exact .act state
  | send data whole after =>
    cases size <;> simp only [move, Option.ite_none_right_eq_some] at moved <;>
      obtain ⟨_, moved⟩ := moved <;> cases moved <;> exact .send _
  | recv limit after =>
    cases size <;> simp only [move, Option.ite_none_right_eq_some] at moved <;>
      obtain ⟨_, moved⟩ := moved <;> cases moved <;> exact .recv _

namespace Link
variable {first : Contract Letter σ α} {second : Contract Letter τ β}
  {link next : Link Letter σ α τ β}

/-- The left end has sent all letters under way; the rest of the dialogue is ahead
of both. -/
def Ahead (first : Contract Letter σ α) (second : Contract Letter τ β)
    (link : Link Letter σ α τ β) : Prop :=
  link.left.inbox = [] ∧ ∃ dialogue : List (Mark Letter),
    first.Follows link.left.program link.left.state (dialogue.map Mark.dual) ∧
    second.Follows link.right.program link.right.state (link.right.inbox.map .got ++ dialogue)

/-- Both ends follow one dialogue and one of them is ahead by what is under way. -/
def Synced (first : Contract Letter σ α) (second : Contract Letter τ β)
    (link : Link Letter σ α τ β) : Prop :=
  link.up = true ∧ (Ahead first second link ∨ Ahead second first link.swap)

theorem Synced.swap (synced : Synced first second link) : Synced second first link.swap :=
  ⟨synced.1, synced.2.symm⟩

theorem moveLeft_cases {size : Option Nat} (moved : link.moveLeft size = some next) :
    ∃ left out, link.left.move link.up size = some (left, out) ∧
      next = ⟨left, { link.right with inbox := link.right.inbox ++ out }, link.up⟩ := by
  obtain ⟨⟨left, out⟩, ends, rfl⟩ := Option.map_eq_some_iff.mp moved
  exact ⟨left, out, ends, rfl⟩

theorem Ahead.moveLeft (up : link.up = true) (ahead : Ahead first second link) {size : Option Nat}
    (moved : link.moveLeft size = some next) : Ahead first second next := by
  obtain ⟨left, out, ends, rfl⟩ := moveLeft_cases moved
  obtain ⟨empty, dialogue, follows, other⟩ := ahead
  rcases End.move_follows (End.follows_of_empty empty follows) ends with
    ⟨still, rfl, none_left⟩ | ⟨_, stillEmpty, data, later, split, still, sent⟩ | ⟨down, _⟩
  · rw [none_left empty] at still
    exact ⟨none_left empty, dialogue, still, by simpa using other⟩
  · have letters : dialogue = data.map .got ++ later.map Mark.dual := by
      have twice := congrArg (List.map Mark.dual) split
      simpa using twice
    rw [if_pos up] at sent
    refine ⟨stillEmpty, later.map Mark.dual, ?_, ?_⟩
    · simpa using still
    · simpa [letters, sent] using other
  · rw [up] at down
    cases down

/-- A move of the end that is behind: it catches up or takes over the lead. -/
theorem Ahead.moveRight (up : link.up = true) (ahead : Ahead second first link.swap)
    {size : Option Nat} (moved : link.moveLeft size = some next) : Synced first second next := by
  obtain ⟨left, out, ends, rfl⟩ := moveLeft_cases moved
  obtain ⟨empty, dialogue, other, follows⟩ := ahead
  rcases End.move_follows follows ends with
    ⟨still, rfl, _⟩ | ⟨_, stillEmpty, data, later, rfl, still, sent⟩ | ⟨down, _⟩
  · refine ⟨up, .inr ⟨?_, dialogue, other, still⟩⟩
    simpa [Link.swap] using empty
  · rw [if_pos up] at sent
    refine ⟨up, .inl ⟨stillEmpty, later.map Mark.dual, ?_, ?_⟩⟩
    · simpa using still
    · have nothing : link.right.inbox = [] := empty
      simpa [nothing, sent, Link.swap] using other
  · rw [up] at down
    cases down

theorem Synced.moveLeft (synced : Synced first second link) {size : Option Nat}
    (moved : link.moveLeft size = some next) : Synced first second next := by
  rcases synced with ⟨up, ahead | behind⟩
  · obtain ⟨left, out, _, rfl⟩ := moveLeft_cases moved
    exact ⟨up, .inl (ahead.moveLeft up moved)⟩
  · exact behind.moveRight up moved

theorem Synced.advance (synced : Synced first second link) {choice : Bool × Option Nat}
    (moved : link.advance choice = some next) : Synced first second next := by
  obtain ⟨isLeft, size⟩ := choice
  cases isLeft with
  | true => exact synced.moveLeft moved
  | false =>
    obtain ⟨other, ends, rfl⟩ := Option.map_eq_some_iff.mp moved
    exact (synced.swap.moveLeft ends).swap

/-- The dialogue is over: nothing is under way and both ends rest. -/
def Settled (first : Contract Letter σ α) (second : Contract Letter τ β)
    (link : Link Letter σ α τ β) : Prop :=
  link.up = true ∧ link.left.inbox = [] ∧ link.right.inbox = [] ∧
    first.rest link.left.program link.left.state ∧ second.rest link.right.program link.right.state

theorem Settled.swap (settled : Settled first second link) : Settled second first link.swap :=
  ⟨settled.1, settled.2.2.1, settled.2.1, settled.2.2.2.2, settled.2.2.2.1⟩

theorem moveLeft_enabled (up : link.up = true) {size : Option Nat}
    {moved : End Letter σ α × List Letter}
    (ends : link.left.move true size = some moved) : ∃ next, link.moveLeft size = some next := by
  rw [moveLeft, up, ends]
  exact ⟨_, rfl⟩

theorem advance_swap {choice : Bool × Option Nat} {other : Link Letter τ β σ α}
    (moved : link.swap.advance choice = some other) :
    link.advance (!choice.1, choice.2) = some other.swap := by
  obtain ⟨isLeft, size⟩ := choice
  cases isLeft with
  | true => exact Option.map_eq_some_iff.mpr ⟨other, moved, rfl⟩
  | false =>
    obtain ⟨same, ends, rfl⟩ := Option.map_eq_some_iff.mp moved
    exact ends

/-- Two ends in step never both wait for the other. -/
theorem Ahead.progress (up : link.up = true) (ahead : Ahead first second link) :
    Settled first second link ∨ ∃ choice next, link.advance choice = some next := by
  obtain ⟨empty, dialogue, follows, other⟩ := ahead
  rcases End.move_or_wait (End.follows_of_empty empty follows) with ⟨size, moved,
    ends⟩ | ⟨_, leftWaits⟩
  · obtain ⟨next, moves⟩ := moveLeft_enabled up ends
    exact .inr ⟨(true, size), next, moves⟩
  rcases End.move_or_wait other with ⟨size, moved, ends⟩ | ⟨rightEmpty, rightWaits⟩
  · obtain ⟨next, moves⟩ := moveLeft_enabled (show link.swap.up = true from up) ends
    exact .inr ⟨_, _, advance_swap (show link.swap.advance (true, size) = some next from moves)⟩
  left
  rcases leftWaits with ⟨finished, leftRests⟩ | ⟨letter, later, expects⟩
  · obtain rfl := List.map_eq_nil_iff.mp finished
    rcases rightWaits with ⟨_, rightRests⟩ | ⟨letter, later, more⟩
    · exact ⟨up, empty, rightEmpty, leftRests, rightRests⟩
    · cases more
  · rcases rightWaits with ⟨rfl, _⟩ | ⟨other, rest, rfl⟩
    · cases expects
    · cases expects

theorem Synced.progress (synced : Synced first second link) :
    Settled first second link ∨ ∃ choice next, link.advance choice = some next := by
  rcases synced with ⟨up, ahead | behind⟩
  · exact ahead.progress up
  · have swapped : link.swap.up = true := up
    rcases behind.progress swapped with settled | ⟨choice, other, moved⟩
    · exact .inl settled.swap
    · exact .inr ⟨_, _, advance_swap moved⟩

theorem advance_decreases {choice : Bool × Option Nat} (moved : link.advance choice = some next) :
    Prod.GameAdd Proc.Child Proc.Child (next.left.program, next.right.program)
      (link.left.program, link.right.program) := by
  obtain ⟨isLeft, size⟩ := choice
  cases isLeft with
  | true =>
    obtain ⟨left, out, ends, rfl⟩ := moveLeft_cases moved
    exact .fst (End.move_child ends)
  | false =>
    obtain ⟨other, same, rfl⟩ := Option.map_eq_some_iff.mp moved
    obtain ⟨right, out, ends, rfl⟩ := moveLeft_cases same
    exact .snd (End.move_child ends)

/-- Two programs in step, left alone, always get to the end of their dialogue. -/
theorem Synced.settles (synced : Synced first second link) :
    Machine.Inevitable Link.advance (Settled first second) link :=
  Machine.inevitable_of_measure
    (Proc.child_wellFounded.prod_gameAdd Proc.child_wellFounded)
    (fun link : Link Letter σ α τ β => (link.left.program, link.right.program))
    (fun _ _ _ synced moved => Synced.advance synced moved)
    (fun _ _ _ moved => advance_decreases moved)
    (fun _ synced => Synced.progress synced) synced

/-- An end of a connection that is down: on its dialogue with what still arrives,
or past the failure. -/
def Orphaned (contract : Contract Letter σ α) (side : End Letter σ α) : Prop :=
  (∃ dialogue, contract.Follows side.program side.state (side.inbox.map .got ++ dialogue)) ∨
    (side.inbox = [] ∧ contract.Dies side.program side.state)

theorem Orphaned.move {contract : Contract Letter σ α} {side after : End Letter σ α}
    {out : List Letter} {size : Option Nat} (orphaned : Orphaned contract side)
    (moved : side.move false size = some (after, out)) : Orphaned contract after ∧ out = [] := by
  rcases orphaned with ⟨dialogue, follows⟩ | ⟨empty, dies⟩
  · rcases End.move_follows follows moved with
      ⟨still, nothing, _⟩ | ⟨_, stillEmpty, data, later, _, still, nothing⟩ |
        ⟨_, none_left, nothing, dies⟩
    · exact ⟨.inl ⟨dialogue, still⟩, nothing⟩
    · exact ⟨.inl ⟨later, End.follows_of_empty stillEmpty still⟩, nothing⟩
    · exact ⟨.inr ⟨none_left, dies⟩, nothing⟩
  · obtain ⟨stillDies, stillEmpty⟩ := End.move_dies dies empty moved
    refine ⟨.inr ⟨stillEmpty, stillDies⟩, ?_⟩
    exact End.move_silent moved

/-- Whatever happens to the connection of two programs in step. -/
def Kept (first : Contract Letter σ α) (second : Contract Letter τ β)
    (link : Link Letter σ α τ β) : Prop :=
  Synced first second link ∨
    (link.up = false ∧ Orphaned first link.left ∧ Orphaned second link.right)

theorem Kept.swap (kept : Kept first second link) : Kept second first link.swap := by
  rcases kept with synced | ⟨down, left, right⟩
  · exact .inl synced.swap
  · exact .inr ⟨down, right, left⟩

theorem Kept.moveLeft (kept : Kept first second link) {size : Option Nat}
    (moved : link.moveLeft size = some next) : Kept first second next := by
  rcases kept with synced | ⟨down, left, right⟩
  · exact .inl (synced.moveLeft moved)
  · obtain ⟨after, out, ends, rfl⟩ := moveLeft_cases moved
    rw [down] at ends
    obtain ⟨still, rfl⟩ := left.move ends
    refine .inr ⟨down, still, ?_⟩
    simpa using right

/-- A cut loses a tail of what was under way, so the rest is still on the dialogue. -/
theorem orphaned_take {contract : Contract Letter σ α} {side : End Letter σ α}
    {dialogue : List (Mark Letter)}
    (follows : contract.Follows side.program side.state (side.inbox.map .got ++ dialogue))
    (count : Nat) : Orphaned contract { side with inbox := side.inbox.take count } := by
  refine .inl ⟨(side.inbox.drop count).map .got ++ dialogue, ?_⟩
  rw [← List.append_assoc, ← List.map_append, List.take_append_drop]
  exact follows

theorem Ahead.orphaned (ahead : Ahead first second link) (toLeft toRight : Nat) :
    Orphaned first { link.left with inbox := link.left.inbox.take toLeft } ∧
      Orphaned second { link.right with inbox := link.right.inbox.take toRight } := by
  obtain ⟨empty, dialogue, follows, other⟩ := ahead
  exact ⟨orphaned_take (End.follows_of_empty empty follows) toLeft, orphaned_take other toRight⟩

theorem Kept.step (kept : Kept first second link) {event : Event}
    (moved : link.step event = some next) :
    Kept first second next := by
  cases event with
  | move isLeft size =>
    cases isLeft with
    | true => exact kept.moveLeft moved
    | false =>
      obtain ⟨other, ends, rfl⟩ := Option.map_eq_some_iff.mp moved
      exact (kept.swap.moveLeft ends).swap
  | cut toLeft toRight =>
    obtain ⟨up, cut⟩ := Option.ite_none_right_eq_some.mp moved
    cases cut
    rcases kept with ⟨_, ahead | behind⟩ | ⟨down, _⟩
    · exact .inr ⟨rfl, ahead.orphaned toLeft toRight⟩
    · exact .inr ⟨rfl, (behind.orphaned toRight toLeft).symm⟩
    · rw [down] at up
      cases up

theorem Orphaned.holds {contract : Contract Letter σ α} {side : End Letter σ α}
    (orphaned : Orphaned contract side) : contract.always side.state := by
  rcases orphaned with ⟨dialogue, follows⟩ | ⟨_, dies⟩
  · exact Proc.Follows.holds follows
  · exact Proc.Dies.holds dies

theorem Kept.holds (kept : Kept first second link) :
    first.always link.left.state ∧ second.always link.right.state := by
  rcases kept with ⟨_, ⟨_, _, left, right⟩ | ⟨_, _, right, left⟩⟩ | ⟨_, left, right⟩
  · exact ⟨Proc.Follows.holds left, Proc.Follows.holds right⟩
  · exact ⟨Proc.Follows.holds left, Proc.Follows.holds right⟩
  · exact ⟨left.holds, right.holds⟩

section Start
variable {always : σ → Prop} {rest : Proc Letter σ α → σ → Prop} {dead : α → σ → Prop}
  {always' : τ → Prop} {rest' : Proc Letter τ β → τ → Prop} {dead' : β → τ → Prop}
  {client : Proc Letter σ α} {server : Proc Letter τ β} {state : σ} {store : τ}
  {dialogue : List (Mark Letter)}

/-- A connection between two programs that follow the two sides of a dialogue. -/
theorem synced_start (left : Proc.Follows always rest dead client state dialogue)
    (right : Proc.Follows always' rest' dead' server store (dialogue.map Mark.dual)) :
    Synced ⟨always, rest, dead⟩ ⟨always', rest', dead'⟩
      ⟨⟨client, state, []⟩, ⟨server, store, []⟩, true⟩ := by
  refine ⟨rfl, .inl ⟨rfl, dialogue.map Mark.dual, ?_, right⟩⟩
  rw [List.map_map, Mark.dual_comp_dual, List.map_id]
  exact left

theorem dialogue_settles (left : Proc.Follows always rest dead client state dialogue)
    (right : Proc.Follows always' rest' dead' server store (dialogue.map Mark.dual)) :
    Machine.Inevitable advance
      (fun link => rest link.left.program link.left.state ∧
        rest' link.right.program link.right.state ∧
        link.left.inbox = [] ∧ link.right.inbox = [] ∧ link.up = true)
      ⟨⟨client, state, []⟩, ⟨server, store, []⟩, true⟩ := by
  apply (synced_start left right).settles.mono
  intro link settled
  obtain ⟨up, leftEmpty, rightEmpty, leftRests, rightRests⟩ := settled
  exact ⟨leftRests, rightRests, leftEmpty, rightEmpty, up⟩

/-- Whatever happens to the connection, such programs keep what they promise. -/
theorem dialogue_keeps (left : Proc.Follows always rest dead client state dialogue)
    (right : Proc.Follows always' rest' dead' server store (dialogue.map Mark.dual))
    {events : List Event} {final : Link Letter σ α τ β}
    (ran : Machine.follow step ⟨⟨client, state, []⟩, ⟨server, store, []⟩, true⟩ events =
      some final) :
    always final.left.state ∧ always' final.right.state := by
  have kept : Kept ⟨always, rest, dead⟩ ⟨always', rest', dead'⟩ final :=
    Machine.follow_keeps (fun _ _ _ kept moved => Kept.step kept moved)
      (.inl (synced_start left right)) ran
  exact kept.holds

end Start

end Link

namespace End

/-- One end by itself, with everything it will receive in its inbox, and what it has
sent so far. -/
def Serves (before after : End Letter σ α × List Letter) : Prop :=
  ∃ size out, before.1.move true size = some (after.1, out) ∧ after.2 = before.2 ++ out

section Steps
variable {state : σ} {inbox sent : List Letter}

theorem serves_act (update : σ → σ) (next : σ → Proc Letter σ α) :
    Serves (⟨.act update next, state, inbox⟩, sent) (⟨next state, update state, inbox⟩, sent) :=
  ⟨none, [], rfl, (List.append_nil sent).symm⟩

theorem serves_send {data : List Letter} (something : data ≠ []) (whole : Bool)
    (next : Option Nat → Proc Letter σ α) :
    Serves (⟨.send data whole next, state, inbox⟩, sent)
      (⟨next (some data.length), state, inbox⟩, sent ++ data) := by
  refine ⟨some data.length, data, ?_, rfl⟩
  have allowed : 0 < data.length ∧ data.length ≤ data.length ∧
      (whole = true → data.length = data.length) :=
    ⟨List.length_pos_iff.mpr something, le_refl _, fun _ => rfl⟩
  apply (if_pos allowed).trans
  rw [if_pos rfl, List.take_length]

theorem serves_recv {limit : Nat} {piece rest : List Letter} (something : piece ≠ [])
    (fits : piece.length ≤ limit) (next : Option (List Letter) → Proc Letter σ α) :
    Serves (⟨.recv limit next, state, piece ++ rest⟩, sent)
      (⟨next (some piece), state, rest⟩, sent) := by
  refine ⟨some piece.length, [], ?_, (List.append_nil sent).symm⟩
  have allowed : 0 < piece.length ∧ piece.length ≤ limit ∧ piece.length ≤ (piece ++ rest).length :=
    ⟨List.length_pos_iff.mpr something, fits, by simp⟩
  apply (if_pos allowed).trans
  rw [List.take_left, List.drop_left]

end Steps

/-- A program on its dialogue takes exactly the incoming letters from a longer stream. -/
theorem serves_follows {always : σ → Prop} {post : α → σ → Prop} {dead : α → σ → Prop}
    {before after : End Letter σ α × List Letter}
    {dialogue : List (Mark Letter)} {rest : List Letter}
    (follows : Proc.Follows always (Proc.Ends post) dead before.1.program before.1.state dialogue)
    (inbox : before.1.inbox = Mark.incoming dialogue ++ rest) (serves : Serves before after) :
    ∃ later, Proc.Follows always (Proc.Ends post) dead after.1.program after.1.state later ∧
      after.1.inbox = Mark.incoming later ++ rest ∧
      after.2 ++ Mark.outgoing later = before.2 ++ Mark.outgoing dialogue := by
  obtain ⟨⟨program, state, letters⟩, sent⟩ := before
  obtain ⟨⟨program', state', letters'⟩, sent'⟩ := after
  obtain ⟨size, out, moved, rfl⟩ := serves
  obtain rfl : letters = Mark.incoming dialogue ++ rest := inbox
  cases follows with
  | waits holds resting waiting =>
    obtain ⟨value, rfl, _⟩ := resting
    simp [move] at moved
  | act holds follows =>
    cases moved
    exact ⟨dialogue, follows, rfl, by simp⟩
  | send holds something follows dies =>
    cases size with
    | none => simp [move] at moved
    | some count =>
      simp only [move, Option.ite_none_right_eq_some] at moved
      obtain ⟨⟨positive, within, uncut⟩, moved⟩ := moved
      cases moved
      refine ⟨_, follows count positive within uncut, ?_, ?_⟩
      · simp only [Mark.incoming_append, Mark.incoming_sent]
      · simp only [Mark.outgoing_append, Mark.outgoing_sent, if_true, ← List.append_assoc]
        rw [List.append_assoc sent, List.take_append_drop]
  | @recv limit next data _ later holds something inside follows dies =>
    cases size with
    | none => simp [move] at moved
    | some count =>
      simp only [move, Option.ite_none_right_eq_some] at moved
      obtain ⟨⟨positive, within, _⟩, moved⟩ := moved
      cases moved
      have available := within.trans inside
      refine ⟨(data.drop count).map .got ++ later, ?_, ?_, ?_⟩
      · have taken := follows count positive within
        rw [Mark.incoming_append, Mark.incoming_got, List.append_assoc,
          List.take_append_of_le_length available]
        exact taken
      · simp only [Mark.incoming_append, Mark.incoming_got, List.append_assoc]
        rw [List.drop_append_of_le_length available]
      · simp only [Mark.outgoing_append, Mark.outgoing_got, List.append_nil]

/-- A program on its dialogue that is done has received and sent exactly the letters of
the dialogue, whatever the stream holds after them. -/
theorem serves_exactly {always : σ → Prop} {post : α → σ → Prop} {dead : α → σ → Prop}
    {before after : End Letter σ α × List Letter}
    {dialogue : List (Mark Letter)} {rest : List Letter}
    (follows : Proc.Follows always (Proc.Ends post) dead before.1.program before.1.state dialogue)
    (inbox : before.1.inbox = Mark.incoming dialogue ++ rest)
    (ran : Relation.ReflTransGen Serves before after) {value : α}
    (finished : after.1.program = .done value) :
    post value after.1.state ∧ after.1.inbox = rest ∧
      after.2 = before.2 ++ Mark.outgoing dialogue := by
  induction ran using Relation.ReflTransGen.head_induction_on generalizing dialogue with
  | refl =>
    rw [finished] at follows
    cases follows with
    | waits holds resting waiting =>
      obtain ⟨other, same, ended⟩ := resting
      cases same
      exact ⟨ended, by simpa using inbox, by simp⟩
  | head serves _ ih =>
    obtain ⟨later, follows, inbox, total⟩ := serves_follows follows inbox serves
    obtain ⟨ended, empty, sent⟩ := ih follows inbox
    exact ⟨ended, empty, sent.trans total⟩

theorem serves_to_end {always : σ → Prop} {post : α → σ → Prop} {dead : α → σ → Prop}
    {program : Proc Letter σ α} {state : σ} {dialogue : List (Mark Letter)}
    (follows : Proc.Follows always (Proc.Ends post) dead program state dialogue)
    (rest sent : List Letter) :
    ∃ value final, Relation.ReflTransGen Serves
      (⟨program, state, Mark.incoming dialogue ++ rest⟩, sent)
      (⟨.done value, final, rest⟩, sent ++ Mark.outgoing dialogue) := by
  induction follows generalizing sent with
  | @waits program state holds resting waiting =>
    obtain ⟨value, rfl, _⟩ := resting
    refine ⟨value, state, ?_⟩
    rw [Mark.outgoing_nil, List.append_nil]
    exact .refl
  | act holds follows ih =>
    obtain ⟨value, final, ran⟩ := ih sent
    exact ⟨value, final, .head (serves_act _ _) ran⟩
  | @send data whole next state dialogue holds something follows dies ih =>
    obtain ⟨value, final, ran⟩ := ih data.length (List.length_pos_iff.mpr something) (le_refl _)
      (fun _ => rfl) (sent ++ data)
    refine ⟨value, final, .head (serves_send something whole next) ?_⟩
    simpa using ran
  | @recv limit next data state dialogue holds something inside follows dies ih =>
    obtain ⟨value, final, ran⟩ := ih limit something (le_refl _) sent
    have taken : (data.take limit).length = limit := by rw [List.length_take, min_eq_left inside]
    have piece : data.take limit ≠ [] := by rwa [← List.length_pos_iff, taken]
    have received : Serves (⟨.recv limit next, state,
        data.take limit ++ (data.drop limit ++ (Mark.incoming dialogue ++ rest))⟩, sent) _ :=
      serves_recv piece taken.le next
    rw [← List.append_assoc, List.take_append_drop] at received
    simp only [Mark.incoming_append, Mark.outgoing_append, Mark.incoming_got, Mark.outgoing_got,
      List.nil_append, List.append_assoc] at ran ⊢
    exact ⟨value, final, .head received ran⟩

theorem serves_delivers {post : α → σ → List Letter → Prop}
    {before after : End Letter σ α × List Letter}
    (delivers : before.1.program.Delivers post before.1.state before.1.inbox)
    (serves : Serves before after) :
    after.1.program.Delivers post after.1.state after.1.inbox := by
  obtain ⟨⟨program, state, inbox⟩, sent⟩ := before
  obtain ⟨⟨program', state', inbox'⟩, sent'⟩ := after
  obtain ⟨size, out, moved, _⟩ := serves
  cases program with
  | done value => simp [move] at moved
  | act update next =>
    cases moved
    exact delivers
  | send data whole next =>
    cases size with
    | none => simp [move] at moved
    | some count =>
      simp only [move, Option.ite_none_right_eq_some] at moved
      obtain ⟨⟨positive, within, uncut⟩, moved⟩ := moved
      cases moved
      exact delivers count positive within uncut
  | recv limit next =>
    cases size with
    | none => simp [move] at moved
    | some count =>
      simp only [move, Option.ite_none_right_eq_some] at moved
      obtain ⟨⟨positive, within, available⟩, moved⟩ := moved
      cases moved
      exact delivers count positive within available

/-- What a program delivers is what holds at the end of each of its runs. -/
theorem delivers_iff {post : α → σ → List Letter → Prop} {program : Proc Letter σ α} {state : σ}
    {inbox : List Letter} (sent : List Letter) :
    program.Delivers post state inbox ↔
      ∀ value final left out, Relation.ReflTransGen Serves (⟨program, state, inbox⟩, sent)
        (⟨.done value, final, left⟩, out) → post value final left := by
  constructor
  · intro delivers value final left out ran
    have kept : ∀ before, Relation.ReflTransGen Serves before (⟨.done value, final, left⟩, out) →
        before.1.program.Delivers post before.1.state before.1.inbox → post value final left := by
      intro before ran
      induction ran using Relation.ReflTransGen.head_induction_on with
      | refl => exact id
      | head serves _ ih => exact fun delivers => ih (serves_delivers delivers serves)
    exact kept _ ran delivers
  · intro ends
    induction program generalizing state inbox sent with
    | done value => exact ends value state inbox sent .refl
    | act update next ih =>
      exact ih state sent fun value final left out ran =>
        ends value final left out (.head (serves_act _ _) ran)
    | send data whole next ih =>
      intro count positive within uncut
      apply ih (some count) (sent ++ data.take count)
      intro value final left out ran
      refine ends value final left out (.head ⟨some count, _, ?_, rfl⟩ ran)
      exact if_pos ⟨positive, within, uncut⟩
    | recv limit next ih =>
      intro count positive within available
      apply ih (some _) sent
      intro value final left out ran
      refine ends value final left out (.head ⟨some count, _, ?_, (List.append_nil sent).symm⟩ ran)
      exact if_pos ⟨positive, within, available⟩

/-- One end by itself on a connection that is down: what is in its inbox is all that
still comes in. -/
def Outlives (before after : End Letter σ α) : Prop :=
  ∃ size out, before.move false size = some (after, out)

theorem outlives_yields {post : α → σ → List Letter → Prop} {before after : End Letter σ α}
    (yields : before.program.Yields post before.state before.inbox)
    (outlives : Outlives before after) :
    after.program.Yields post after.state after.inbox := by
  obtain ⟨program, state, inbox⟩ := before
  obtain ⟨size, out, moved⟩ := outlives
  cases program with
  | done value => simp [move] at moved
  | act update next =>
    cases moved
    exact yields
  | send data whole next =>
    cases size with
    | none =>
      cases moved
      exact yields.1
    | some count =>
      simp only [move, Option.ite_none_right_eq_some] at moved
      obtain ⟨⟨positive, within, uncut⟩, moved⟩ := moved
      cases moved
      exact yields.2 count positive within uncut
  | recv limit next =>
    cases size with
    | none =>
      simp only [move, Option.ite_none_right_eq_some] at moved
      obtain ⟨⟨_, empty⟩, moved⟩ := moved
      cases moved
      exact yields.1 empty
    | some count =>
      simp only [move, Option.ite_none_right_eq_some] at moved
      obtain ⟨⟨positive, within, available⟩, moved⟩ := moved
      cases moved
      exact yields.2 count positive within available

/-- What a program yields is what holds at the end of each of its runs. -/
theorem yields_iff {post : α → σ → List Letter → Prop} {program : Proc Letter σ α} {state : σ}
    {inbox : List Letter} :
    program.Yields post state inbox ↔
      ∀ value final left, Relation.ReflTransGen Outlives ⟨program, state, inbox⟩
        ⟨.done value, final, left⟩ →
        post value final left := by
  constructor
  · intro yields value final left ran
    have kept : ∀ before : End Letter σ α, Relation.ReflTransGen Outlives before
        ⟨.done value, final, left⟩ →
        before.program.Yields post before.state before.inbox → post value final left := by
      intro before ran
      induction ran using Relation.ReflTransGen.head_induction_on with
      | refl => exact id
      | head outlives _ ih => exact fun yields => ih (outlives_yields yields outlives)
    exact kept _ ran yields
  · intro ends
    induction program generalizing state inbox with
    | done value => exact ends value state inbox .refl
    | act update next ih =>
      apply ih
      intro value final left ran
      exact ends value final left (.head ⟨none, [], rfl⟩ ran)
    | send data whole next ih =>
      constructor
      · apply ih
        intro value final left ran
        exact ends value final left (.head ⟨none, [], rfl⟩ ran)
      · intro count positive within uncut
        apply ih
        intro value final left ran
        refine ends value final left (.head ⟨some count, [], ?_⟩ ran)
        exact if_pos ⟨positive, within, uncut⟩
    | recv limit next ih =>
      constructor
      · rintro rfl
        apply ih
        intro value final left ran
        refine ends value final left (.head ⟨none, [], ?_⟩ ran)
        simp [move]
      · intro count positive within available
        apply ih
        intro value final left ran
        refine ends value final left (.head ⟨some count, [], ?_⟩ ran)
        exact if_pos ⟨positive, within, available⟩

end End

end LinuxCLearning
