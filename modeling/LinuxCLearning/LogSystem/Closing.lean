import LinuxCLearning.Base.Monitor
import LinuxCLearning.LogSystem.AsyncLog

/-! How `log_close` ends the background thread: it clears `running` without the mutex of the ring,
signals `not_empty` and joins. -/

namespace LinuxCLearning.LogSystem

open Machine Monitor

/-- The part of the logger that the background thread looks at. -/
structure SharedRing where
  ring : Ring LogEntry
  running : Bool

/-- The variables of `async_thread_func`: in which of its loops it is, and its entry. -/
structure AsyncPlace where
  draining : Bool
  entry : LogEntry

/-- `async_thread_func` with `ring_buffer_pop`. -/
def asyncLoop : Loop SharedRing AsyncPlace where
  head logger place := some { place with draining := place.draining || !logger.running }
  blocks logger := logger.ring.count = 0 && logger.running
  enter logger place :=
    if logger.ring.count = 0 then (logger, if place.draining then .ended else .outside place)
    else ({ logger with ring := logger.ring.pop }, .busy { place with entry := logger.ring.front })

def asyncRank : Phase AsyncPlace → Nat
  | .outside _ => 2
  | .locking place => if place.draining then 1 else 3
  | .busy _ => 3
  | .checked _ => 1
  | .asleep _ => 0
  | .ended => 0

theorem asyncLoop_finishing :
    asyncLoop.Finishing (fun logger => logger.running = false)
      (fun logger => logger.ring.count) asyncRank where
  passes logger stopped := by simp [asyncLoop, stopped]
  keeps logger place stopped := by
    simp only [asyncLoop]
    split <;> exact stopped
  enters logger place stopped := by
    simp only [asyncLoop]
    split
    · right
      cases draining : place.draining <;> simp [asyncRank, draining]
    · left
      simp only [Ring.pop]
      omega
  lively logger place := by
    simp only [asyncLoop]
    split
    · cases place.draining <;> rfl
    · rfl
  heads logger place stopped := by simp [asyncLoop, stopped, asyncRank]
  works place := by simp [asyncRank]
  rests place := by simp [asyncRank]

/-- The call of `pthread_cond_signal` in `log_close`: only the background thread waits for
`not_empty`. -/
def signalThread (logger : State SharedRing AsyncPlace) :
    State SharedRing AsyncPlace := logger.signal 0

/-- `log_close` after its store to `running`; what is left up to the join is the signal. -/
def closeLog (logger : State SharedRing AsyncPlace) : Ending SharedRing AsyncPlace :=
  ⟨{ logger with shared.running := false }, false⟩

/-- The background thread has ended with nothing left in the ring. -/
def Drained (logger : State SharedRing AsyncPlace) : Prop :=
  (∃ phase ∈ logger.threads, phase.isEnded = true) → logger.shared.ring.count = 0

theorem asyncLoop_drained {logger next : State SharedRing AsyncPlace} {index : Nat}
    (one : logger.threads.length = 1) (stepped : asyncLoop.step logger index = some next) :
    next.threads.length = 1 ∧ Drained next := by
  obtain ⟨phase, moved, found, advanced, threads⟩ := Loop.step_cases stepped
  obtain ⟨only, same⟩ := List.length_eq_one_iff.mp one
  obtain rfl : index = 0 := by
    obtain ⟨inside, _⟩ := List.getElem?_eq_some_iff.mp found
    omega
  have after : next.threads = [moved] := by rw [threads, same, List.set_cons_zero]
  refine ⟨by rw [after]; rfl, ?_⟩
  rintro ⟨last, member, ended⟩
  rw [after, List.mem_singleton] at member
  subst member
  cases phase with
  | outside place =>
    simp only [Loop.advance, asyncLoop, Option.elim_some, Option.some.injEq,
      Prod.mk.injEq] at advanced
    rw [← advanced.2] at ended
    cases ended
  | locking place =>
    simp only [Loop.advance, asyncLoop] at advanced
    split at advanced
    · rw [Option.some.injEq] at advanced
      by_cases empty : logger.shared.ring.count = 0
      · have unchanged : next.shared = logger.shared := by
          cases running : logger.shared.running <;> simp [empty,
            running] at advanced <;> exact advanced.1.symm
        rw [unchanged]
        exact empty
      · simp only [empty, decide_false, Bool.false_and, Bool.false_eq_true, if_false,
          Prod.mk.injEq] at advanced
        rw [← advanced.2] at ended
        cases ended
    · cases advanced
  | checked place =>
    simp only [Loop.advance, Option.some.injEq, Prod.mk.injEq] at advanced
    rw [← advanced.2] at ended
    cases ended
  | asleep place => cases advanced
  | busy place =>
    simp only [Loop.advance, Option.some.injEq, Prod.mk.injEq] at advanced
    rw [← advanced.2] at ended
    cases ended
  | ended => cases advanced

theorem signalThread_eq {logger : State SharedRing AsyncPlace} (one : logger.threads.length = 1) :
    signalThread logger = logger.broadcast := by
  obtain ⟨phase, same⟩ := List.length_eq_one_iff.mp one
  simp [signalThread, State.signal, State.broadcast, same]

/-- The thread has only ever ended with nothing left. -/
theorem closing_drained {ending next : Ending SharedRing AsyncPlace} {action : EndingAction}
    (kept : ending.state.threads.length = 1 ∧ Drained ending.state)
    (stepped : ending.step asyncLoop signalThread action = some next) :
    next.state.threads.length = 1 ∧ Drained next.state := by
  cases action with
  | thread index =>
    obtain ⟨after, moved, rfl⟩ := Option.map_eq_some_iff.mp stepped
    exact asyncLoop_drained kept.1 moved
  | wake =>
    simp only [Ending.step] at stepped
    split at stepped
    · cases stepped
    · cases stepped
      obtain ⟨phase, same⟩ := List.length_eq_one_iff.mp kept.1
      have woken : (signalThread ending.state).threads = [phase.wake] := by
        rw [signalThread_eq kept.1, State.broadcast, same]
        rfl
      refine ⟨by rw [woken]; rfl, ?_⟩
      rintro ⟨last, member, ended⟩
      rw [woken, List.mem_singleton] at member
      subst member
      refine kept.2 ⟨phase, by simp [same], ?_⟩
      cases phase <;> first | rfl | cases ended

/-- When nobody writes any more and no wait ends by itself, `log_close` joins the background thread
on every schedule, with everything in the ring output, exactly where that thread has not just found
the ring empty as `running` is cleared; else it may happen that it sleeps and nobody wakes it. -/
theorem log_close_returns_iff (shared : SharedRing) (phase : Phase AsyncPlace)
    (ended : phase.isEnded = true → shared.ring.count = 0) :
    (Inevitable (Ending.step asyncLoop signalThread)
      (fun final => final.Joined ∧ final.state.shared.ring.count = 0) (closeLog ⟨shared, [phase]⟩) ↔
        phase.holds = false) ∧
    (phase.holds = true → ∃ actions final,
      follow (Ending.step asyncLoop signalThread)
        (closeLog ⟨shared, [phase]⟩) actions = some final ∧
        (∃ phase ∈ final.state.threads, phase.sleeps = true) ∧
        ∀ action, final.step asyncLoop signalThread action = none) := by
  have stopped : (State.shared ⟨{ shared with running := false }, [phase]⟩ : SharedRing).running =
    false := rfl
  have wakes : ∀ other : State SharedRing AsyncPlace, other.threads.length = [phase].length →
      signalThread other = other.broadcast := fun other one => signalThread_eq one
  have returns := Ending.joined_iff asyncLoop_finishing stopped wakes
  rw [List.forall_mem_singleton] at returns
  refine ⟨⟨fun ends => returns.mp (ends.mono fun final both => both.1), ?_⟩, ?_⟩
  · intro awake
    have start : Drained (closeLog ⟨shared, [phase]⟩).state := by
      rintro ⟨last, member, last_ended⟩
      obtain rfl := List.mem_singleton.mp member
      exact ended last_ended
    refine ((returns.mpr awake).keeping (fun _ _ _ kept stepped => closing_drained kept stepped)
      ⟨rfl, start⟩).mono ?_
    rintro final ⟨joined, one, drained⟩
    obtain ⟨last, same⟩ := List.length_eq_one_iff.mp one
    exact ⟨joined, drained ⟨last, by simp [same], joined.2 last (by simp [same])⟩⟩
  · intro holds
    exact Ending.may_sleep asyncLoop_finishing stopped (wakes _ rfl)
      (List.mem_singleton_self phase) holds

/-- What is left to output. -/
def lastEntry : LogEntry := { blankEntry with level := .error, tid := 1 }

/-- The thread is outputting an entry when the logger is closed, or has just found nothing. -/
theorem log_close_returns_iff_both :
    Inevitable (Ending.step asyncLoop signalThread)
      (fun final => final.Joined ∧ final.state.shared.ring.count = 0)
      (closeLog ⟨⟨(Ring.empty 4 blankEntry).push lastEntry, true⟩, [.busy ⟨false, lastEntry⟩]⟩) ∧
    ¬ Inevitable (Ending.step asyncLoop signalThread)
      (fun final => final.Joined ∧ final.state.shared.ring.count = 0)
      (closeLog ⟨⟨Ring.empty 4 blankEntry, true⟩, [.checked ⟨false, lastEntry⟩]⟩) := by
  constructor
  · exact (log_close_returns_iff ⟨(Ring.empty 4 blankEntry).push lastEntry, true⟩
      (.busy ⟨false, lastEntry⟩)
      (by simp [Phase.isEnded])).1.mpr rfl
  · intro ends
    cases (log_close_returns_iff ⟨Ring.empty 4 blankEntry, true⟩ (.checked ⟨false, lastEntry⟩)
      (by simp [Phase.isEnded])).1.mp ends

end LinuxCLearning.LogSystem
