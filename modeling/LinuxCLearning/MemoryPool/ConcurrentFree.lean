import LinuxCLearning.MemoryPool.Ownership

/-! Two threads that free the same pointer. `mempool_free` checks the header before it takes
the lock and moves the block under the lock, so that each call has two steps. -/

namespace LinuxCLearning.MemoryPool

/-- The two callers of `mempool_free`. -/
inductive Caller where
  | first
  | second
  deriving DecidableEq

def Caller.other : Caller → Caller
  | first => second
  | second => first

/-- Where a caller is: before the check, between the check and the lock, or back. -/
inductive FreePlace where
  | entered
  | checked
  | returned (err : MempoolErr)
  deriving DecidableEq

/-- Two calls of `mempool_free` with the same pointer on the same pool. -/
structure FreeRace where
  heap : Heap
  pool : Mempool
  places : Caller → FreePlace

namespace FreeRace

def start (heap : Heap) (pool : Mempool) : FreeRace := ⟨heap, pool, fun _ => .entered⟩

/-- The next step of a caller: the check of the header, or the update under the lock. -/
def step (ptr : Nat) (race : FreeRace) (caller : Caller) : Option FreeRace :=
  let block := getBlockHeader ptr
  match race.places caller with
  | .entered =>
    match freeCheck race.heap block with
    | some err => some { race with places := Function.update race.places caller (.returned err) }
    | none => some { race with places := Function.update race.places caller .checked }
  | .checked =>
    let (heap, pool) := freeMove race.heap race.pool block
    some ⟨heap, pool, Function.update race.places caller (.returned .ok)⟩
  | .returned _ => none

/-- Both calls have returned. -/
def Complete (race : FreeRace) : Prop := ∀ caller, ∃ err, race.places caller = .returned err

/-- One call has freed the block, the other one has been refused, and the lists hold every
block of the pool once. -/
def FreedOnce (race : FreeRace) : Prop :=
  ∃ winner : Caller, race.places winner = .returned .ok ∧
    race.places winner.other = .returned .doubleFree ∧
    ∃ free used, ListsHold race.heap race.pool free used

section Steps
variable {ptr : Nat} {race final : FreeRace} {caller : Caller}

theorem step_check (entered : race.places caller = .entered)
    (passes : freeCheck race.heap (getBlockHeader ptr) = none) :
    race.step ptr caller =
      some { race with places := Function.update race.places caller .checked } := by
  simp only [step, entered, passes]

theorem step_refused {err : MempoolErr} (entered : race.places caller = .entered)
    (refused : freeCheck race.heap (getBlockHeader ptr) = some err) :
    race.step ptr caller =
      some { race with places := Function.update race.places caller (.returned err) } := by
  simp only [step, entered, refused]

theorem step_move (checked : race.places caller = .checked) :
    race.step ptr caller = some ⟨(freeMove race.heap race.pool (getBlockHeader ptr)).1,
      (freeMove race.heap race.pool (getBlockHeader ptr)).2, Function.update race.places caller
        (.returned .ok)⟩ := by
  simp only [step, checked]

theorem step_returned {err : MempoolErr} (returned : race.places caller = .returned err) :
    race.step ptr caller = none := by
  simp only [step, returned]

/-- Past the check, or back with success. -/
def Passed (race : FreeRace) : Prop :=
  ∀ caller, race.places caller = .checked ∨ race.places caller = .returned .ok

theorem Passed.step {next : FreeRace} (passed : race.Passed)
    (stepped : race.step ptr caller = some next) :
    next.Passed := by
  rcases passed caller with checked | returned
  · rw [step_move checked] at stepped
    cases stepped
    intro someone
    by_cases same : someone = caller
    · subst same
      exact Or.inr (Function.update_self ..)
    · dsimp only
      rw [Function.update_of_ne same]
      exact passed someone
  · rw [step_returned returned] at stepped
    cases stepped

theorem Passed.not_freedOnce (passed : race.Passed) : ¬ race.FreedOnce := by
  rintro ⟨winner, _, refused, _⟩
  rcases passed winner.other with checked | returned
  · rw [checked] at refused
    cases refused
  · rw [returned] at refused
    cases refused

theorem follow_complete (complete : race.Complete) {schedule : List Caller}
    (ran : Machine.follow (FreeRace.step ptr) race schedule = some final) : final = race := by
  cases schedule with
  | nil =>
    cases ran
    rfl
  | cons caller schedule =>
    obtain ⟨next, stepped, _⟩ := Option.bind_eq_some_iff.mp ran
    obtain ⟨err, returned⟩ := complete caller
    rw [step_returned returned] at stepped
    cases stepped

end Steps

theorem other_ne (caller : Caller) : caller.other ≠ caller := by cases caller <;> decide

theorem eq_or_other (caller someone : Caller) : someone = caller ∨ someone = caller.other := by
  cases caller <;> cases someone <;> decide

section Race
variable {heap : Heap} {pool : Mempool} {ptr : Nat} {final : FreeRace}

theorem serial_steps {caller : Caller} {rest : List Caller}
    (passes : freeCheck heap (getBlockHeader ptr) = none)
    (ran : Machine.follow (FreeRace.step ptr) (FreeRace.start heap pool)
      (caller :: caller :: rest) = some final) :
    Machine.follow (FreeRace.step ptr) ⟨(freeMove heap pool (getBlockHeader ptr)).1,
      (freeMove heap pool (getBlockHeader ptr)).2,
      Function.update (fun _ => .entered) caller (.returned .ok)⟩ rest = some final := by
  obtain ⟨checked, first, ran⟩ := Option.bind_eq_some_iff.mp ran
  rw [step_check rfl passes] at first
  cases first
  obtain ⟨moved, second, ran⟩ := Option.bind_eq_some_iff.mp ran
  rw [step_move (Function.update_self ..)] at second
  cases second
  dsimp only [FreeRace.start] at ran
  rw [Function.update_idem] at ran
  exact ran

theorem crossed_steps {caller : Caller} {rest : List Caller}
    (passes : freeCheck heap (getBlockHeader ptr) = none)
    (ran : Machine.follow (FreeRace.step ptr) (FreeRace.start heap pool)
      (caller :: caller.other :: rest) =
      some final) : final.Passed := by
  obtain ⟨one, first, ran⟩ := Option.bind_eq_some_iff.mp ran
  rw [step_check rfl passes] at first
  cases first
  obtain ⟨both, second, ran⟩ := Option.bind_eq_some_iff.mp ran
  rw [step_check (Function.update_of_ne (other_ne caller) ..) passes] at second
  cases second
  refine Machine.follow_keeps (fun _ _ _ passed stepped => Passed.step passed stepped) ?_ ran
  intro someone
  left
  rcases eq_or_other caller someone with rfl | rfl
  · dsimp only
    rw [Function.update_of_ne (other_ne someone).symm, Function.update_self]
  · exact Function.update_self ..

theorem freeMove_refuses (passes : freeCheck heap (getBlockHeader ptr) = none) :
    freeCheck (freeMove heap pool (getBlockHeader ptr)).1 (getBlockHeader ptr) =
      some .doubleFree := by
  obtain ⟨flag, magic, _⟩ := freeMove_header heap pool (getBlockHeader ptr) (getBlockHeader ptr)
  rw [if_pos rfl] at flag
  simp only [freeCheck, checkMagic, magic, (freeCheck_eq_none.mp passes).1, flag,
    beq_self_eq_true, Bool.not_true,
    Bool.false_eq_true, if_false, if_true]

theorem serial_rest {caller : Caller} {rest : List Caller}
    (passes : freeCheck heap (getBlockHeader ptr) = none)
    (ran : Machine.follow (FreeRace.step ptr) ⟨(freeMove heap pool (getBlockHeader ptr)).1,
      (freeMove heap pool (getBlockHeader ptr)).2,
      Function.update (fun _ => .entered) caller (.returned .ok)⟩ rest = some final)
    (complete : final.Complete) :
    final.heap = (freeMove heap pool (getBlockHeader ptr)).1 ∧
      final.pool = (freeMove heap pool (getBlockHeader ptr)).2 ∧
      final.places caller = .returned .ok ∧
      final.places caller.other = .returned .doubleFree := by
  have apart := other_ne caller
  have back : Function.update (fun _ => FreePlace.entered) caller (.returned .ok) caller =
      .returned .ok :=
    Function.update_self ..
  have waiting : Function.update (fun _ => FreePlace.entered) caller (.returned .ok) caller.other =
      .entered :=
    Function.update_of_ne apart ..
  cases rest with
  | nil =>
    cases ran
    obtain ⟨err, returned⟩ := complete caller.other
    cases waiting.symm.trans returned
  | cons someone rest =>
    obtain ⟨next, stepped, ran⟩ := Option.bind_eq_some_iff.mp ran
    rcases eq_or_other caller someone with rfl | rfl
    · rw [step_returned back] at stepped
      cases stepped
    · rw [step_refused waiting (freeMove_refuses passes)] at stepped
      cases stepped
      have stopped := follow_complete ?_ ran
      · subst stopped
        dsimp only
        refine ⟨rfl, rfl, ?_, Function.update_self ..⟩
        rw [Function.update_of_ne apart.symm, Function.update_self]
      · intro who
        rcases eq_or_other caller who with rfl | rfl
        · exact ⟨.ok, by dsimp only; rw [Function.update_of_ne apart.symm, Function.update_self]⟩
        · exact ⟨.doubleFree, Function.update_self ..⟩

end Race

end FreeRace

/-- A live pointer passes the check, and the update under the lock keeps the lists. -/
theorem live_freed {session : Session} {free used : List Nat}
    (owned : session.Owned free used) {ptr : Nat} (live : ptr ∈ session.live) :
    freeCheck session.heap (getBlockHeader ptr) = none ∧
      ListsHold (freeMove session.heap session.pool (getBlockHeader ptr)).1
        (freeMove session.heap session.pool (getBlockHeader ptr)).2 (getBlockHeader ptr :: free)
        (used.erase (getBlockHeader ptr)) := by
  have lists := owned.lists
  rw [owned.live] at live
  obtain ⟨block, busy, rfl⟩ := List.mem_map.mp live
  rw [getBlockHeader_getBlockData]
  have magic := lists.magic block (List.mem_append_right free busy)
  exact ⟨freeCheck_eq_none.mpr ⟨magic, lists.usedFlag block busy⟩, (mempoolFree_used lists busy).2⟩

/-- Two threads free a live pointer of a thread-safe pool in any reachable state. When both
calls have returned, one has freed the block, the other one has been refused and the lists
are whole exactly if the caller that made the first check also updated the lists before the
other one made its check. -/
theorem freed_once_iff {structOk : Bool} {memory : Option Nat} {before heap : Heap}
    {blockSize blockCount : Nat}
    {pool : Mempool} (created : mempoolCreate structOk memory before blockSize blockCount true =
      some (heap, pool))
    {ops : List Op} {session : Session}
    (ran : Machine.follow Session.step ⟨heap, pool, [], []⟩ ops = some session)
    {ptr : Nat} (live : ptr ∈ session.live) {schedule : List Caller} {final : FreeRace}
    (raced : Machine.follow (FreeRace.step ptr) (FreeRace.start session.heap session.pool)
      schedule = some final)
    (complete : final.Complete) :
    final.FreedOnce ↔ ∃ caller, [caller, caller] <+: schedule := by
  obtain ⟨free, used, owned⟩ := session_owned created ran
  obtain ⟨passes, lists⟩ := live_freed owned live
  constructor
  · intro once
    cases schedule with
    | nil =>
      cases raced
      obtain ⟨err, returned⟩ := complete .first
      cases returned
    | cons caller schedule =>
      cases schedule with
      | nil =>
        obtain ⟨next, stepped, rest⟩ := Option.bind_eq_some_iff.mp raced
        rw [FreeRace.step_check rfl passes] at stepped
        cases stepped
        cases rest
        obtain ⟨err, returned⟩ := complete caller
        dsimp only at returned
        rw [Function.update_self] at returned
        cases returned
      | cons someone schedule =>
        rcases FreeRace.eq_or_other caller someone with rfl | rfl
        · exact ⟨someone, schedule, rfl⟩
        · exact absurd once (FreeRace.crossed_steps passes raced).not_freedOnce
  · rintro ⟨caller, rest, rfl⟩
    obtain ⟨sameHeap, samePool, winner, loser⟩ :=
      FreeRace.serial_rest passes (FreeRace.serial_steps passes raced) complete
    refine ⟨caller, winner, loser, getBlockHeader ptr :: free, used.erase (getBlockHeader ptr), ?_⟩
    rw [sameHeap, samePool]
    exact lists

private theorem two_blocks_race (schedule : List Caller) (firstResult secondResult : MempoolErr)
    (enabled : ((mempoolCreate true (some 4096) zeroHeap 16 2 true).bind fun created =>
      (Machine.follow Session.step ⟨created.1, created.2, [], []⟩ [.alloc 8]).bind fun session =>
        (Machine.follow (FreeRace.step 4128) (FreeRace.start session.heap session.pool)
          schedule).bind fun final =>
          if 4128 ∈ session.live ∧ final.places .first = .returned firstResult ∧
            final.places .second = .returned secondResult then some () else none).isSome = true) :
    ∃ heap pool session final, mempoolCreate true (some 4096) zeroHeap 16 2 true =
      some (heap, pool) ∧
      Machine.follow Session.step ⟨heap, pool, [], []⟩ [.alloc 8] = some session ∧
      4128 ∈ session.live ∧
      Machine.follow (FreeRace.step 4128) (FreeRace.start session.heap session.pool) schedule =
        some final ∧
      final.places .first = .returned firstResult ∧
      final.places .second = .returned secondResult := by
  obtain ⟨_, all⟩ := Option.isSome_iff_exists.mp enabled
  obtain ⟨⟨heap, pool⟩, created, all⟩ := Option.bind_eq_some_iff.mp all
  obtain ⟨session, ran, all⟩ := Option.bind_eq_some_iff.mp all
  obtain ⟨final, raced, all⟩ := Option.bind_eq_some_iff.mp all
  split at all
  · rename_i checked
    exact ⟨heap, pool, session, final, created, ran, checked.1, raced, checked.2⟩
  · cases all

theorem FreeRace.complete_of_returned {race : FreeRace} {firstResult secondResult : MempoolErr}
    (first : race.places .first = .returned firstResult)
    (second : race.places .second = .returned secondResult) :
    race.Complete := by
  intro caller
  cases caller with
  | first => exact ⟨firstResult, first⟩
  | second => exact ⟨secondResult, second⟩

/-- One call after the other. -/
theorem freed_once_iff_serial : ∃ (session : Session) (final : FreeRace), 4128 ∈ session.live ∧
    Machine.follow (FreeRace.step 4128) (FreeRace.start session.heap session.pool)
      [.first, .first, .second] =
      some final ∧ final.FreedOnce := by
  obtain ⟨heap, pool, session, final, created, ran, live, raced, first, second⟩ :=
    two_blocks_race [.first, .first, .second] .ok .doubleFree (by decide +kernel)
  exact ⟨session, final, live, raced, (freed_once_iff created ran live raced
    (FreeRace.complete_of_returned first second)).mpr ⟨.first, [.second], rfl⟩⟩

/-- Both calls check the header before one of them takes the lock: both succeed. -/
theorem both_frees_succeed : ∃ heap pool session final,
    mempoolCreate true (some 4096) zeroHeap 16 2 true = some (heap, pool) ∧
      Machine.follow Session.step ⟨heap, pool, [], []⟩ [.alloc 8] = some session ∧
      4128 ∈ session.live ∧
      Machine.follow (FreeRace.step 4128) (FreeRace.start session.heap session.pool)
        [.first, .second, .first, .second] = some final ∧
      final.Complete ∧ final.places .first = .returned .ok ∧ final.places .second = .returned .ok ∧
      ¬ final.FreedOnce := by
  obtain ⟨heap, pool, session, final, created, ran, live, raced, first, second⟩ :=
    two_blocks_race [.first, .second, .first, .second] .ok .ok (by decide +kernel)
  refine ⟨heap, pool, session, final, created, ran, live, raced,
    FreeRace.complete_of_returned first second, first,
    second, ?_⟩
  rintro ⟨winner, _, refused, _⟩
  cases winner with
  | first => cases second.symm.trans refused
  | second => cases first.symm.trans refused

end LinuxCLearning.MemoryPool
