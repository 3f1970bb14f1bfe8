import LinuxCLearning.Base.Link

/-! Two programs with one way through a dialogue, exchange after exchange, and an
end that leaves while the last letters to it are still under way. -/

namespace LinuxCLearning

variable {Letter σ τ α β γ : Type}

namespace Proc

/-- The program takes its side of a dialogue and ends with this value in this state. -/
def Plays (program : Proc Letter σ α) (state : σ) (dialogue : List (Mark Letter)) (value : α)
    (after : σ) : Prop :=
  Follows (fun _ => True) (Ends fun result final => result = value ∧ final = after)
    (fun _ _ => True)
    program state dialogue

/-- The program takes its side of a dialogue and then waits as this one in this state. -/
def Pauses (program : Proc Letter σ α) (state : σ) (dialogue : List (Mark Letter))
    (resting : Proc Letter σ α) (after : σ) : Prop :=
  Follows (fun _ => True) (fun rest final => rest = resting ∧ final = after) (fun _ _ => True)
    program state dialogue

section Rules
variable {program : Proc Letter σ α} {state middle after : σ} {value : α}
  {first second : List (Mark Letter)}

theorem plays_done (value : α) (state : σ) :
    (done value : Proc Letter σ α).Plays state [] value state :=
  .ends trivial ⟨rfl, rfl⟩

theorem Follows.plays {post dead : α → σ → Prop}
    (follows : Follows (fun _ => True) (Ends post) dead program state first)
    (only : ∀ result final, post result final → result = value ∧ final = after) :
    program.Plays state first value after :=
  follows.weaken only fun _ _ _ => trivial

theorem Plays.bind {next : α → Proc Letter σ γ} {result : γ}
    (plays : program.Plays state first value middle)
    (onwards : (next value).Plays middle second result after) :
    (program >>= next).Plays state (first ++ second) result after := by
  refine plays.andThen ?_ fun _ _ _ => dies_trivially _ _
  rintro _ _ ⟨rfl, rfl⟩
  exact onwards

theorem Plays.map {next : α → Proc Letter σ γ} {result : γ}
    (plays : program.Plays state first value middle)
    (onwards : (next value).Plays middle [] result after) :
      (program >>= next).Plays state first result after := by
  rw [← List.append_nil first]
  exact plays.bind onwards

theorem Plays.perform {call : σ → γ × σ} {next : γ → Proc Letter σ α}
    (plays : (next (call state).1).Plays (call state).2 first value after) :
    (Proc.perform call >>= next).Plays state first value after :=
  Follows.perform trivial plays

theorem Plays.pauses {next : α → Proc Letter σ γ} {resting : Proc Letter σ γ}
    (plays : program.Plays state first value middle)
    (onwards : (next value).Pauses middle second resting after) :
    (program >>= next).Pauses state (first ++ second) resting after := by
  refine plays.andThen ?_ fun _ _ _ => dies_trivially _ _
  rintro _ _ ⟨rfl, rfl⟩
  exact onwards

/-- A program that is done or in a `recv` pauses as itself. -/
theorem pauses_here (waiting : program.Waits (fun _ => True) (fun _ _ => True) state) :
    program.Pauses state [] program state :=
  .waits trivial ⟨rfl, rfl⟩ waiting

theorem Pauses.append {resting final : Proc Letter σ α}
    (pauses : program.Pauses state first resting middle)
    (onwards : resting.Pauses middle second final after) :
      program.Pauses state (first ++ second) final after := by
  refine Follows.append pauses ?_
  rintro _ _ ⟨rfl, rfl⟩
  exact onwards

end Rules

/-- A program and the partner that serves it get through a dialogue: the program ends
with this value, the partner waits for more. -/
def Exchange (program : Proc Letter σ α) (partner : Proc Letter τ β) (state : σ)
    (store : τ) (value : α) (after : σ) (resting : Proc Letter τ β) (stored : τ) : Prop :=
  ∃ dialogue, program.Plays state dialogue value after ∧
    partner.Pauses store (dialogue.map Mark.dual) resting stored

namespace Exchange
variable {program : Proc Letter σ α} {partner resting final : Proc Letter τ β}
  {state middle after : σ}
  {store served stored : τ} {value : α}

theorem silent (waiting : partner.Waits (fun _ => True) (fun _ _ => True) store)
    (value : α) (state : σ) :
    Exchange (done value) partner state store value state partner store :=
  ⟨[], plays_done value state, pauses_here waiting⟩

theorem bind {next : α → Proc Letter σ γ} {result : γ}
    (first : Exchange program partner state store value middle resting served)
    (second : Exchange (next value) resting middle served result after final stored) :
    Exchange (program >>= next) partner state store result after final stored := by
  obtain ⟨early, plays, pauses⟩ := first
  obtain ⟨late, onwards, goes⟩ := second
  refine ⟨early ++ late, plays.bind onwards, ?_⟩
  rw [List.map_append]
  exact pauses.append goes

theorem map {next : α → Proc Letter σ γ} {result : γ}
    (first : Exchange program partner state store value middle resting stored)
    (onwards : (next value).Plays middle [] result after) :
    Exchange (program >>= next) partner state store result after resting stored := by
  obtain ⟨dialogue, plays, pauses⟩ := first
  exact ⟨dialogue, plays.map onwards, pauses⟩

theorem perform {call : σ → γ × σ} {next : γ → Proc Letter σ α}
    (exchange : Exchange (next (call state).1) partner (call state).2 store value
      after resting stored) :
    Exchange (Proc.perform call >>= next) partner state store value after resting stored := by
  obtain ⟨dialogue, plays, pauses⟩ := exchange
  exact ⟨dialogue, plays.perform, pauses⟩

end Exchange

end Proc

namespace End
variable {side next : End Letter σ α} {out : List Letter} {size : Option Nat}
  {unread early : List Letter} {value : α}
  {after : σ}

/-- What is under way behind the last letter of a dialogue is not touched. -/
theorem move_unread (plays : side.program.Plays side.state (unread.map .got) value after)
    (inbox : side.inbox = unread ++ early) (moved : side.move true size = some (next, out)) :
    ∃ still, next.program.Plays next.state (still.map .got) value after ∧
      next.inbox = still ++ early ∧ out = [] := by
  obtain ⟨program, state, letters⟩ := side
  obtain rfl : letters = unread ++ early := inbox
  generalize whole : unread.map Mark.got = speech at plays
  cases plays with
  | waits holds resting waiting =>
    obtain ⟨_, rfl, _⟩ := resting
    simp [move] at moved
  | act holds follows =>
    cases moved
    subst whole
    exact ⟨unread, follows, rfl, rfl⟩
  | send holds something follows dies =>
    have same : unread.map Mark.got ++ [] = _ := (List.append_nil _).trans whole
    obtain rfl := Mark.got_eq_sent same something
    obtain ⟨letters, _⟩ := List.append_eq_nil_iff.mp whole.symm
    exact absurd (List.map_eq_nil_iff.mp letters) something
  | @recv limit _ _ _ _ holds something inside follows dies =>
    have same : unread.map Mark.got ++ [] = _ := (List.append_nil _).trans whole
    have available : limit ≤ unread.length := by
      have lengths := congrArg (fun speech => (Mark.incoming speech).length) whole
      simp only [Mark.incoming_got, Mark.incoming_append, List.length_append] at lengths
      exact inside.trans (lengths ▸ Nat.le_add_right _ _)
    cases size with
    | none => simp [move] at moved
    | some count =>
      simp only [move, Option.ite_none_right_eq_some] at moved
      obtain ⟨⟨positive, within, _⟩, moved⟩ := moved
      cases moved
      have fits := within.trans available
      obtain ⟨taken, later⟩ := Mark.take_of_same same fits (within.trans inside)
      have rest := follows count positive within
      rw [← taken, ← later, List.append_nil] at rest
      refine ⟨unread.drop count, ?_, List.drop_append_of_le_length fits, rfl⟩
      simp only [List.take_append_of_le_length fits]
      exact rest

/-- An end that has only letters to receive goes on until it is done. -/
theorem move_or_done (plays : side.program.Plays side.state (unread.map .got) value after)
    (inbox : side.inbox = unread ++ early) :
    (∃ size moved, side.move true size = some moved) ∨
      (side.program = .done value ∧ side.state = after ∧ unread = []) := by
  obtain ⟨program, state, letters⟩ := side
  obtain rfl : letters = unread ++ early := inbox
  generalize whole : unread.map Mark.got = speech at plays
  cases plays with
  | waits holds resting waiting =>
    obtain ⟨_, rfl, rfl, rfl⟩ := resting
    exact .inr ⟨rfl, rfl, List.map_eq_nil_iff.mp whole⟩
  | act holds follows => exact .inl ⟨none, _, rfl⟩
  | @send data _ _ _ _ holds something follows dies =>
    exact .inl ⟨some data.length, _,
      if_pos ⟨List.length_pos_iff.mpr something, le_refl _, fun _ => rfl⟩⟩
  | recv holds something inside follows dies =>
    cases unread with
    | nil =>
      obtain ⟨letters, _⟩ := List.append_eq_nil_iff.mp whole.symm
      rw [List.map_eq_nil_iff.mp letters] at inside
      exact absurd inside (not_le.mpr something)
    | cons letter unread => exact .inl ⟨some 1, _, if_pos ⟨one_pos, something, by simp⟩⟩

end End

namespace Link
variable {contract : Contract Letter τ β} {link next : Link Letter σ α τ β}
  {extra : List Letter} {value : α}
  {after : σ}

/-- Both ends are on one dialogue, behind which the right one sends more letters than
the left one reads. -/
inductive Parting (contract : Contract Letter τ β) (value : α) (after : σ) (extra : List Letter)
    (link : Link Letter σ α τ β) : Prop where
  | ahead (dialogue : List (Mark Letter)) (empty : link.left.inbox = [])
      (left : link.left.program.Plays link.left.state (dialogue.map Mark.dual) value after)
      (right : contract.Follows link.right.program link.right.state
        (link.right.inbox.map .got ++ (dialogue ++ extra.map .sent)))
  | behind (dialogue : List (Mark Letter)) (empty : link.right.inbox = [])
      (left : link.left.program.Plays link.left.state
        (link.left.inbox.map .got ++ dialogue) value after)
      (right : contract.Follows link.right.program link.right.state
        (dialogue.map Mark.dual ++ extra.map .sent))
  | past (unread early late : List Letter) (inbox : link.left.inbox = unread ++ early)
      (all : early ++ late = extra)
        (left : link.left.program.Plays link.left.state (unread.map .got) value after)
      (right : contract.Follows link.right.program link.right.state
        (link.right.inbox.map .got ++ late.map .sent))

theorem sent_split {dialogue later : List (Mark Letter)} {extra data : List Letter}
    (same : dialogue ++ extra.map .sent = data.map .sent ++ later) :
    (∃ rest, dialogue = data.map .sent ++ rest ∧ later = rest ++ extra.map .sent) ∨
      ∃ first second late, data = first ++ second ∧ dialogue = first.map .sent ∧
        extra = second ++ late ∧
        later = late.map .sent := by
  rcases List.append_eq_append_iff.mp same with ⟨rest, letters, behind⟩ | ⟨rest, front, back⟩
  · right
    obtain ⟨first, second, rfl, rfl, rfl⟩ := List.map_eq_append_iff.mp letters
    obtain ⟨early, late, rfl, sameLetters, rfl⟩ := List.map_eq_append_iff.mp behind
    obtain rfl := List.map_injective_iff.mpr (fun _ _ same => Mark.sent.inj same) sameLetters
    exact ⟨first, early, late, rfl, rfl, rfl, rfl⟩
  · exact .inl ⟨rest, front, back⟩

theorem Parting.moveLeft (up : link.up = true) (parting : Parting contract value after extra link)
    {size : Option Nat}
    (moved : link.moveLeft size = some next) : Parting contract value after extra next := by
  obtain ⟨left, out, ends, rfl⟩ := moveLeft_cases moved
  cases parting with
  | ahead dialogue empty plays right =>
    have follows : Contract.Follows ⟨_, _, _⟩ _ _ _ := End.follows_of_empty empty plays
    rcases End.move_follows follows ends with
      ⟨still, rfl, none_left⟩ | ⟨_, stillEmpty, data, later, split, still, sent⟩ | ⟨down, _⟩
    · rw [none_left empty] at still
      refine .ahead dialogue (none_left empty) still ?_
      simpa using right
    · have letters : dialogue = data.map .got ++ later.map Mark.dual := by
        have twice := congrArg (List.map Mark.dual) split
        simpa using twice
      rw [if_pos up] at sent
      refine .ahead (later.map Mark.dual) stillEmpty ?_ ?_
      · simp only [List.map_map, Mark.dual_comp_dual, List.map_id]
        exact still
      · simpa [letters, sent] using right
    · rw [up] at down
      cases down
  | behind dialogue empty plays right =>
    have follows : Contract.Follows ⟨_, _, _⟩ _ _ _ := plays
    rcases End.move_follows follows ends with
      ⟨still, rfl, _⟩ | ⟨_, stillEmpty, data, later, rfl, still, sent⟩ | ⟨down, _⟩
    · refine .behind dialogue ?_ still right
      simpa using empty
    · rw [if_pos up] at sent
      refine .ahead (later.map Mark.dual) stillEmpty ?_ ?_
      · simp only [List.map_map, Mark.dual_comp_dual, List.map_id]
        exact still
      · simpa [empty, sent] using right
    · rw [up] at down
      cases down
  | past unread early late inbox all plays right =>
    rw [up] at ends
    obtain ⟨still, onwards, rest, rfl⟩ := End.move_unread plays inbox ends
    refine .past still early late rest all onwards ?_
    simpa using right

/-- The right end sends the next letters, of the dialogue or from behind it. -/
theorem Parting.sends {left : End Letter σ α} {right : End Letter τ β}
    {dialogue later : List (Mark Letter)} {data : List Letter} (empty : right.inbox = [])
    (plays : left.program.Plays left.state (left.inbox.map .got ++ dialogue) value after)
    (same : dialogue.map Mark.dual ++ extra.map .sent = data.map .sent ++ later)
    (follows : contract.Follows right.program right.state later) (up : Bool) :
    Parting contract value after extra ⟨{ left with inbox := left.inbox ++ data }, right, up⟩ := by
  rcases sent_split same with ⟨rest, split, rfl⟩ | ⟨first, second, late, rfl, split, rfl, rfl⟩
  · have letters : dialogue = data.map .got ++ rest.map Mark.dual := by
      have twice := congrArg (List.map Mark.dual) split
      simpa using twice
    refine .behind (rest.map Mark.dual) empty ?_ ?_
    · rw [letters, ← List.append_assoc, ← List.map_append] at plays
      exact plays
    · simp only [List.map_map, Mark.dual_comp_dual, List.map_id]
      exact follows
  · have letters : dialogue = first.map .got := by
      have twice := congrArg (List.map Mark.dual) split
      simpa using twice
    refine .past (left.inbox ++ first) second late (List.append_assoc _ _ _).symm rfl ?_ ?_
    · rw [letters, ← List.map_append] at plays
      exact plays
    · rw [empty]
      exact follows

theorem Parting.moveRight (up : link.up = true) (parting : Parting contract value after extra link)
    {size : Option Nat} {other : Link Letter τ β σ α}
    (moved : link.swap.moveLeft size = some other) :
    Parting contract value after extra other.swap := by
  obtain ⟨right, out, ends, rfl⟩ := moveLeft_cases moved
  have lifted : link.swap.up = true := up
  cases parting with
  | ahead dialogue empty plays follows =>
    rcases End.move_follows follows ends with
      ⟨still, rfl, _⟩ | ⟨_, stillEmpty, data, later, same, still, sent⟩ | ⟨down, _⟩
    · refine .ahead dialogue ?_ plays still
      simpa [swap] using empty
    · rw [if_pos lifted] at sent
      subst sent
      have waits : link.left.program.Plays link.left.state
          (link.left.inbox.map .got ++ dialogue.map Mark.dual)
          value after := by
        rw [empty]
        exact plays
      exact .sends stillEmpty waits (by simpa using same) still link.up
    · rw [lifted] at down
      cases down
  | behind dialogue empty plays follows =>
    rcases End.move_follows (End.follows_of_empty empty follows) ends with
      ⟨still, rfl, none_left⟩ | ⟨_, stillEmpty, data, later, same, still, sent⟩ | ⟨down, _⟩
    · rw [none_left empty] at still
      refine .behind dialogue (none_left empty) ?_ still
      simpa [swap] using plays
    · rw [if_pos lifted] at sent
      subst sent
      exact .sends stillEmpty plays same still link.up
    · rw [lifted] at down
      cases down
  | past unread early late inbox all plays follows =>
    rcases End.move_follows follows ends with
      ⟨still, rfl, _⟩ | ⟨_, stillEmpty, data, later, same, still, sent⟩ | ⟨down, _⟩
    · refine .past unread early late ?_ all plays still
      simpa [swap] using inbox
    · rw [if_pos lifted] at sent
      subst sent
      obtain ⟨front, back, rfl, sameLetters, rfl⟩ := List.map_eq_append_iff.mp same
      obtain rfl := List.map_injective_iff.mpr (fun _ _ same => Mark.sent.inj same) sameLetters
      refine .past unread (early ++ front) back ?_ ?_ plays ?_
      · simp [swap, inbox]
      · rw [List.append_assoc]
        exact all
      · show contract.Follows right.program right.state (right.inbox.map .got ++ back.map .sent)
        rw [stillEmpty]
        exact still
    · rw [lifted] at down
      cases down

theorem Parting.advance (up : link.up = true) (parting : Parting contract value after extra link)
    {choice : Bool × Option Nat} (moved : link.advance choice = some next) :
    next.up = true ∧ Parting contract value after extra next := by
  obtain ⟨isLeft, size⟩ := choice
  cases isLeft with
  | true =>
    obtain ⟨left, out, _, rfl⟩ := moveLeft_cases moved
    exact ⟨up, parting.moveLeft up moved⟩
  | false =>
    obtain ⟨other, ends, rfl⟩ := Option.map_eq_some_iff.mp moved
    obtain ⟨right, out, _, rfl⟩ := moveLeft_cases ends
    exact ⟨up, parting.moveRight up ends⟩

/-- The left end is done and the letters that it does not read have all arrived. -/
def Parted (contract : Contract Letter τ β) (value : α) (after : σ) (extra : List Letter)
    (link : Link Letter σ α τ β) :
    Prop :=
  link.left = ⟨.done value, after, extra⟩ ∧ contract.rest link.right.program link.right.state ∧
    link.right.inbox = []

theorem moveRight_enabled (up : link.up = true) {size : Option Nat}
    {moved : End Letter τ β × List Letter} (ends : link.right.move true size = some moved) :
      ∃ choice next, link.advance choice = some next := by
  obtain ⟨other, moves⟩ := moveLeft_enabled (show link.swap.up = true from up) ends
  exact ⟨_, _, advance_swap (show link.swap.advance (true, size) = some other from moves)⟩

/-- Past the last letter that is read, somebody can move until all letters have arrived. -/
theorem past_progress (up : link.up = true) {unread early late : List Letter}
    (inbox : link.left.inbox = unread ++ early) (all : early ++ late = extra)
    (left : link.left.program.Plays link.left.state (unread.map .got) value after)
    (right : contract.Follows link.right.program link.right.state
      (link.right.inbox.map .got ++ late.map .sent)) :
    Parted contract value after extra link ∨ ∃ choice next, link.advance choice = some next := by
  rcases End.move_or_done left inbox with ⟨size, moved, ends⟩ | ⟨finished, sameState, nothing⟩
  · obtain ⟨next, moves⟩ := moveLeft_enabled up ends
    exact .inr ⟨(true, size), next, moves⟩
  rcases End.move_or_wait right with ⟨size, moved, ends⟩ | ⟨rightEmpty,
    ⟨finish, rests⟩ | ⟨letter, later, expects⟩⟩
  · exact .inr (moveRight_enabled up ends)
  · obtain rfl := List.map_eq_nil_iff.mp finish
    obtain rfl : early = extra := (List.append_nil early).symm.trans all
    left
    obtain ⟨⟨program, state, letters⟩, other, _⟩ := link
    simp only [nothing, List.nil_append] at inbox finished sameState
    exact ⟨by rw [finished, sameState, inbox], rests, rightEmpty⟩
  · cases late <;> cases expects

theorem Parting.progress (up : link.up = true) (parting : Parting contract value after extra link) :
    Parted contract value after extra link ∨ ∃ choice next, link.advance choice = some next := by
  have waiting : ∀ dialogue : List (Mark Letter), link.left.inbox = [] →
      link.left.program.Plays link.left.state (dialogue.map Mark.dual) value after →
      contract.Follows link.right.program link.right.state
        (link.right.inbox.map .got ++ (dialogue ++ extra.map .sent)) →
      Parted contract value after extra link ∨ ∃ choice next, link.advance choice = some next := by
    intro dialogue empty plays follows
    have both : Contract.Follows ⟨_, _, _⟩ _ _ _ := End.follows_of_empty empty plays
    rcases End.move_or_wait both with ⟨size, moved, ends⟩ | ⟨_,
      ⟨finish, _⟩ | ⟨letter, later, expects⟩⟩
    · obtain ⟨next, moves⟩ := moveLeft_enabled up ends
      exact .inr ⟨(true, size), next, moves⟩
    · obtain rfl := List.map_eq_nil_iff.mp finish
      exact past_progress up (empty.trans (List.append_nil []).symm)
        (List.nil_append extra) plays follows
    · rcases End.move_or_wait follows with ⟨size, moved, ends⟩ | ⟨_,
        ⟨finish, _⟩ | ⟨other, rest, more⟩⟩
      · exact .inr (moveRight_enabled up ends)
      · rw [(List.append_eq_nil_iff.mp finish).1] at expects
        cases expects
      · cases dialogue with
        | nil => cases expects
        | cons mark dialogue =>
          obtain ⟨rfl, _⟩ := List.cons.inj more
          cases expects
  cases parting with
  | ahead dialogue empty plays follows => exact waiting dialogue empty plays follows
  | behind dialogue empty plays follows =>
    have both : Contract.Follows ⟨_, _, _⟩ _ _ _ := plays
    rcases End.move_or_wait both with ⟨size, moved, ends⟩ | ⟨leftEmpty, _⟩
    · obtain ⟨next, moves⟩ := moveLeft_enabled up ends
      exact .inr ⟨(true, size), next, moves⟩
    · refine waiting (dialogue.map Mark.dual) leftEmpty ?_ (End.follows_of_empty empty follows)
      rw [leftEmpty] at plays
      simp only [List.map_map, Mark.dual_comp_dual, List.map_id]
      exact plays
  | past unread early late inbox all plays follows => exact past_progress up inbox all plays follows

/-- Left alone, an end that leaves early gets to its own end, and the other one to its. -/
theorem Parting.settles (up : link.up = true) (parting : Parting contract value after extra link) :
    Machine.Inevitable Link.advance (Parted contract value after extra) link :=
  Machine.inevitable_of_measure (Proc.child_wellFounded.prod_gameAdd Proc.child_wellFounded)
    (fun link : Link Letter σ α τ β => (link.left.program, link.right.program))
    (fun _ _ _ (parting : _ ∧ _) moved => Parting.advance parting.1 parting.2 moved)
    (fun _ _ _ moved => advance_decreases moved)
    (fun _ parting => Parting.progress parting.1 parting.2) ⟨up, parting⟩

/-- Two programs on one dialogue, whose last letters the left one does not read. -/
theorem parting_settles {program : Proc Letter σ α} {partner : Proc Letter τ β}
    {state : σ} {store : τ}
    {dialogue : List (Mark Letter)} (left : program.Plays state dialogue value after)
    (right : contract.Follows partner store (dialogue.map Mark.dual ++ extra.map .sent)) :
    Machine.Inevitable Link.advance (Parted contract value after extra)
      ⟨⟨program, state, []⟩, ⟨partner, store, []⟩, true⟩ := by
  refine Parting.settles rfl (.ahead (dialogue.map Mark.dual) rfl ?_ right)
  simp only [List.map_map, Mark.dual_comp_dual, List.map_id]
  exact left

end Link

end LinuxCLearning
