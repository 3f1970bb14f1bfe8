import LinuxCLearning.LogSystem.AsyncLog

/-! What every step of the asynchronous log system keeps, and what it says once the
background thread has ended. -/

namespace LinuxCLearning.LogSystem

/-- The entry that left the ring and is not output yet. -/
def Background.held : Background → List LogEntry
  | .holding _ entry => [entry]
  | _ => []

/-- How many output entries are not counted yet. -/
def Background.uncounted : Background → UInt64
  | .counting _ => 1
  | _ => 0

/-- The thread has left its first loop. -/
def Background.pastFirstLoop : Background → Bool
  | .testing => false
  | .popping draining => draining
  | .waiting draining => draining
  | .holding draining _ => draining
  | .counting draining => draining
  | .terminated => true

namespace Logger

/-- The invariant of the logger: where each pushed entry is, what is counted, and how
far a `log_close` has come. -/
structure Intact (system : Logger) (capacity : Nat) (initial : UInt64) : Prop where
  capacity : system.ring.capacity = capacity
  sound : system.ring.Sound
  order : system.pushed = system.emitted ++ system.background.held ++ system.ring.contents
  counted : system.totalEntries + system.background.uncounted =
    initial + UInt64.ofNat system.emitted.length
  closing : system.running = false ↔ system.closer ≠ .idle
  quiet : system.running = false → ∀ producer ∈ system.producers, producer = .idle
  stopped : system.background.pastFirstLoop = true → system.running = false
  drained : system.background = .terminated → system.ring.count = 0

variable {system next : Logger} {capacity : Nat} {initial : UInt64}

theorem logInit_intact {level : LogLevel} {threads : Nat} {opens allocated starts : Bool}
    (positive : 1 ≤ capacity)
    (created : logInit level capacity initial threads opens allocated starts = some system) :
    system.Intact capacity initial := by
  unfold logInit at created
  split_ifs at created with succeeded
  cases created
  constructor
  · rfl
  · exact .empty positive blankEntry
  · rfl
  · rfl
  · simp
  · simp
  · simp [Background.pastFirstLoop]
  · simp

namespace Intact

theorem setProducer (intact : system.Intact capacity initial) (running : system.running = true)
    (index : Nat) (producer : Producer) :
    (system.setProducer index producer).Intact capacity initial := by
  refine { intact with quiet := ?_ }
  intro ended
  exact absurd (running.symm.trans ended) (by simp)

theorem logWrite (intact : system.Intact capacity initial) (running : system.running = true)
    (index : Nat) (call : WriteCall) : (system.logWrite index call).Intact capacity initial := by
  unfold Logger.logWrite
  split_ifs
  · exact intact
  · exact intact.setProducer running index _

theorem ringBufferPush (intact : system.Intact capacity initial) (running : system.running = true)
    (index : Nat) (entry : LogEntry) :
    (system.ringBufferPush index entry).Intact capacity initial := by
  unfold Logger.ringBufferPush
  split_ifs with full
  · exact intact.setProducer running index _
  · have room : system.ring.count < system.ring.capacity := not_le.mp full
    have moved := intact.setProducer running index .idle
    refine { moved with
      capacity := intact.capacity
      sound := intact.sound.push room entry
      order := ?_
      drained := ?_ }
    · have contents : (system.ring.push entry).contents = system.ring.contents ++ [entry] :=
        intact.sound.push_contents room entry
      change system.pushed ++ [entry] =
        system.emitted ++ system.background.held ++ (system.ring.push entry).contents
      rw [contents, intact.order]
      simp only [List.append_assoc]
    · intro ended
      have stopped : system.running = false := by
        apply intact.stopped
        rw [show system.background = .terminated from ended]
        rfl
      exact absurd (running.symm.trans stopped) (by simp)

theorem ringBufferPop (intact : system.Intact capacity initial) {draining : Bool}
    (none_held : system.background.held = []) (all_counted : system.background.uncounted = 0)
    (inside : system.background.pastFirstLoop = draining) :
    (system.ringBufferPop draining).Intact capacity initial := by
  have order := intact.order
  have counted := intact.counted
  have stopped : draining = true → system.running = false := fun past =>
    intact.stopped (inside.trans past)
  rw [none_held] at order
  rw [all_counted] at counted
  unfold Logger.ringBufferPop
  split_ifs with blocked empty past
  · refine { intact with order := order, counted := counted, stopped := stopped, drained := ?_ }
    intro ended
    cases ended
  · exact { intact with
      order := order, counted := counted
      stopped := fun _ => stopped past
      drained := fun _ => empty }
  · refine { intact with order := order, counted := counted, stopped := ?_, drained := ?_ }
    · intro past
      cases past
    · intro ended
      cases ended
  · have some_item : 0 < system.ring.count := Nat.pos_of_ne_zero empty
    refine { intact with
      sound := intact.sound.pop some_item
      order := ?_
      counted := counted
      stopped := stopped
      drained := ?_ }
    · rw [intact.sound.contents_pop some_item] at order
      simpa [Background.held] using order
    · intro ended
      cases ended

theorem asyncThread (intact : system.Intact capacity initial)
    (stepped : system.asyncThread = some next) : next.Intact capacity initial := by
  have order := intact.order
  have counted := intact.counted
  have stopped := intact.stopped
  unfold Logger.asyncThread at stepped
  split at stepped
  case h_1 here =>
    cases stepped
    rw [here] at order counted
    refine { intact with order := order, counted := counted, stopped := ?_, drained := ?_ }
    · intro past
      simpa [Background.pastFirstLoop] using past
    · intro ended
      cases ended
  case h_2 draining here =>
    cases stepped
    apply intact.ringBufferPop <;> rw [here] <;> rfl
  case h_3 draining here =>
    cases stepped
    apply intact.ringBufferPop <;> rw [here] <;> rfl
  case h_4 draining entry here =>
    cases stepped
    rw [here] at order counted stopped
    refine { intact with order := ?_, counted := ?_, stopped := stopped, drained := ?_ }
    · simpa [Background.held] using order
    · have equal : system.totalEntries = initial + UInt64.ofNat system.emitted.length := by
        simpa [Background.uncounted] using counted
      simp only [Background.uncounted, equal, List.length_append, List.length_singleton,
        UInt64.ofNat_add, UInt64.add_assoc]
      rfl
    · intro ended
      cases ended
  case h_5 draining here =>
    cases stepped
    rw [here] at order counted stopped
    refine { intact with order := ?_, counted := ?_, stopped := ?_, drained := ?_ }
    · cases draining <;> exact order
    · cases draining <;> simpa [Background.uncounted] using counted
    · intro past
      cases draining with
      | false => cases past
      | true => exact stopped rfl
    · intro ended
      cases draining <;> cases ended
  case h_6 => cases stepped

theorem logClose (intact : system.Intact capacity initial)
    (stepped : system.logClose = some next) : next.Intact capacity initial := by
  have closing := intact.closing
  unfold Logger.logClose at stepped
  split at stepped
  case h_1 here =>
    split_ifs at stepped with all_idle
    cases stepped
    refine { intact with closing := by simp, quiet := ?_, stopped := fun _ => rfl }
    intro _ producer member
    simpa using List.all_eq_true.mp all_idle producer member
  case h_2 here =>
    cases stepped
    exact { intact with closing := by simp [closing, here] }
  case h_3 here =>
    split_ifs at stepped
    cases stepped
    exact { intact with closing := by simp [closing, here] }
  case h_4 => cases stepped

theorem running_of_busy (intact : system.Intact capacity initial) {index : Nat}
    {producer : Producer} (at_index : system.producers[index]? = some producer)
    (busy : producer ≠ .idle) : system.running = true := by
  by_contra ended
  have stopped : system.running = false := by simpa using ended
  exact busy (intact.quiet stopped producer (List.mem_of_getElem? at_index))

theorem running_of_open (intact : system.Intact capacity initial)
    (open_still : system.closer = .idle) : system.running = true := by
  by_contra ended
  have stopped : system.running = false := by simpa using ended
  exact intact.closing.mp stopped open_still

theorem step (intact : system.Intact capacity initial) {action : LogAction}
    (stepped : system.step action = some next) : next.Intact capacity initial := by
  cases action with
  | write index call =>
    simp only [Logger.step] at stepped
    split at stepped
    case h_1 open_still =>
      cases stepped
      exact intact.logWrite (intact.running_of_open open_still) index call
    case h_2 => cases stepped
  | push index =>
    simp only [Logger.step] at stepped
    split at stepped
    case h_1 entry at_index =>
      cases stepped
      exact intact.ringBufferPush (intact.running_of_busy at_index (by simp)) index entry
    case h_2 entry at_index =>
      cases stepped
      exact intact.ringBufferPush (intact.running_of_busy at_index (by simp)) index entry
    case h_3 => cases stepped
  | background => exact intact.asyncThread stepped
  | close => exact intact.logClose stepped

/-- Once the background thread has ended, it has output and counted every entry. -/
theorem terminated (intact : system.Intact capacity initial)
    (ended : system.background = .terminated) :
    system.emitted = system.pushed ∧
      system.totalEntries = initial + UInt64.ofNat system.pushed.length := by
  have order := intact.order
  have counted := intact.counted
  have empty : system.ring.contents = [] := by
    rw [← List.length_eq_zero_iff, Ring.contents_length]
    exact intact.drained ended
  rw [ended, empty] at order
  rw [ended] at counted
  have same : system.pushed = system.emitted := by simpa [Background.held] using order
  refine ⟨same.symm, ?_⟩
  rw [same]
  simpa [Background.uncounted] using counted

end Intact

theorem follow_intact {level : LogLevel} {threads : Nat} {opens allocated starts : Bool}
    {start : Logger} (positive : 1 ≤ capacity)
    (created : logInit level capacity initial threads opens allocated starts = some start)
    {actions : List LogAction} (ran : Machine.follow step start actions = some system) :
    system.Intact capacity initial := by
  have kept : ∀ state action next, Intact state capacity initial →
      state.step action = some next → Intact next capacity initial :=
    fun _ _ _ intact stepped => intact.step stepped
  exact Machine.follow_keeps kept (logInit_intact positive created) ran

/-- In every interleaving the ring stays within its capacity, the entries leave in the
order in which they were pushed, and when the background thread has ended it has
output and counted exactly the pushed ones. -/
theorem async_log_emits_pushed {level : LogLevel} {ringBufferSize threads : Nat}
    {totalEntries : UInt64} {opens allocated starts : Bool} {start : Logger}
    (positive : 1 ≤ ringBufferSize)
    (created : logInit level ringBufferSize totalEntries threads opens allocated starts =
      some start)
    (actions : List LogAction) (ran : Machine.follow step start actions = some system) :
    system.ring.capacity = ringBufferSize ∧
      system.ring.count ≤ system.ring.capacity ∧
      system.ring.tail = (system.ring.head + system.ring.count) % system.ring.capacity ∧
      system.emitted <+: system.pushed ∧
      (system.background = .terminated →
        system.emitted = system.pushed ∧
          system.totalEntries = totalEntries + UInt64.ofNat system.pushed.length) := by
  have intact := follow_intact positive created ran
  refine ⟨intact.capacity, intact.sound.bounded, intact.sound.tailEq, ?_, intact.terminated⟩
  rw [intact.order, List.append_assoc]
  exact List.prefix_append _ _

/-- A second producer waits for room in a ring of one entry, and `log_close` finds its
entry still in the ring. -/
theorem async_log_emits_pushed_two_writers :
    let first : WriteCall := ⟨.info, ⟨[97], by simp⟩, 1, ⟨[98], by simp⟩, ⟨[99], by simp⟩, 5, 6⟩
    let second : WriteCall := ⟨.warn, ⟨[97], by simp⟩, 2, ⟨[98], by simp⟩, ⟨[100], by simp⟩, 7, 8⟩
    ∃ start system : Logger, logInit .info 1 0 2 true true true = some start ∧
      Machine.follow step start
        (([.write 0 first, .write 1 second, .push 0, .push 1, .background, .background, .push 1,
          .close, .close] : List LogAction) ++ List.replicate 7 .background ++
            [.close]) = some system ∧
      system.pushed.length = 2 ∧ system.emitted = system.pushed ∧ system.totalEntries = 2 := by
  intro first second
  have reached : ((logInit .info 1 0 2 true true true).bind fun start =>
      Machine.follow step start
        (([.write 0 first, .write 1 second, .push 0, .push 1, .background, .background, .push 1,
          .close, .close] : List LogAction) ++ List.replicate 7 .background ++ [.close])).map
      (fun system => (system.background, system.pushed.length)) = some (.terminated, 2) := by
    decide +kernel
  obtain ⟨system, followed, outcome⟩ := Option.map_eq_some_iff.mp reached
  obtain ⟨ended, pushed⟩ := Prod.mk.inj outcome
  obtain ⟨start, created, ran⟩ := Option.bind_eq_some_iff.mp followed
  obtain ⟨emitted, counted⟩ := (async_log_emits_pushed (le_refl 1) created _ ran).2.2.2.2 ended
  rw [pushed] at counted
  exact ⟨start, system, created, ran, pushed, emitted, counted⟩

end Logger

end LinuxCLearning.LogSystem
