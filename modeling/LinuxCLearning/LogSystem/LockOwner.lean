import LinuxCLearning.Base.SlotTable
import LinuxCLearning.LogSystem.Locking

/-! Who holds `g_log.mutex`. A thread holds it exactly at the places between a lock
and its unlock, and in synchronous mode those include `log_rotate` called by
`output_file`: there the second lock is reached by the thread that already holds it. -/

namespace LinuxCLearning.LogSystem

open Machine

/-- The places at which a thread holds the mutex. -/
def Place.holds (asyncMode : Bool) : Place → Bool
  | .idle | .entering _ | .pushing _ | .popping => false
  | .rotating none | .relocking none => false
  | .closing _ | .reopening _ | .releasing _ => true
  | .rotating (some _) | .relocking (some _) => !asyncMode
  | .console _ | .file _ | .measuring _ | .appending _ | .callback | .counting | .unlocking =>
    !asyncMode

/-- The places that a mode can lead to, as long as no thread passes a lock it waits for. -/
def Place.legal (asyncMode : Bool) : Place → Bool
  | .popping | .closing (some _) | .reopening (some _) | .releasing (some _) => asyncMode
  | .entering _ | .unlocking => !asyncMode
  | _ => true

/-- The places of `output_file` at which its thread has seen an open file. -/
def Place.sawFile : Place → Bool
  | .measuring _ | .rotating (some _) | .relocking (some _) => true
  | _ => false

/-- The places of a `log_rotate` that `output_file` called, up to its lock. -/
def Place.nested : Place → Bool
  | .rotating (some _) | .relocking (some _) => true
  | _ => false

/-- What a step of a thread does to the mutex. -/
inductive LockMove (asyncMode : Bool) (index : Nat) (before after : Place)
    (mutex next : Option Nat) :
    Prop where
  | keep (unchanged : next = mutex) (same : after.holds asyncMode = before.holds asyncMode)
  | take (free : mutex = none) (taken : next = some index)
      (without : before.holds asyncMode = false)
      (gained : after.holds asyncMode = true)
  | drop (dropped : next = none) (held : before.holds asyncMode = true)
      (released : after.holds asyncMode = false)

namespace LogProcess

/-- The mutex belongs to the thread whose place says so, every place fits the mode, and
in synchronous mode a thread that saw the file open still finds it so. -/
structure LockInvariant (process : LogProcess) : Prop where
  owner : ∀ index : Nat, process.mutex = some index ↔
    ∃ thread, process.threads[index]? = some thread ∧
    thread.place.holds process.log.config.asyncMode = true
  legal : ∀ (index : Nat) (thread : LogThread), process.threads[index]? = some thread →
    thread.place.legal process.log.config.asyncMode = true
  opened : process.log.config.asyncMode = false → ∀ (index : Nat) (thread : LogThread),
    process.threads[index]? = some thread →
    thread.place.sawFile = true → process.log.logFile.isSome = true

end LogProcess

/-- A state after a step: one thread has moved. -/
structure Moved (process next : LogProcess) (index : Nat) (before after : LogThread) : Prop where
  threads : next.threads = process.threads.set index after
  config : next.log.config = process.log.config
  legal : after.place.legal process.log.config.asyncMode = true
  mutex : LockMove process.log.config.asyncMode index before.place after.place
    process.mutex next.mutex
  file : process.log.config.asyncMode = false → before.place.holds false = true ∨
    next.log.logFile = process.log.logFile
  saw : after.place.sawFile = true →
    (process.log.config.asyncMode = false → next.log.logFile.isSome = true) ∧
    (after.place.nested = true → before.place.nested = true ∨
      ∃ line, before.place = .measuring line ∧ process.log.exceeds line = true)

/-- A move to a place at which the file has not been looked at. -/
theorem Moved.quiet {process next : LogProcess} {index : Nat} {before after : LogThread}
    (threads : next.threads = process.threads.set index after)
    (config : next.log.config = process.log.config)
    (legal : after.place.legal process.log.config.asyncMode = true)
    (mutex : LockMove process.log.config.asyncMode index before.place after.place
      process.mutex next.mutex)
    (file : before.place.holds false = true ∨ next.log.logFile = process.log.logFile)
    (unseen : after.place.sawFile = false) : Moved process next index before after := by
  refine ⟨threads, config, legal, mutex, fun _ => file, ?_⟩
  intro saw
  rw [unseen] at saw
  cases saw

theorem writePlace_quiet (log : GLog) (call : WriteCall) :
    (log.writePlace call).holds log.config.asyncMode = false ∧
      (log.writePlace call).legal log.config.asyncMode = true ∧
      (log.writePlace call).sawFile = false := by
  unfold GLog.writePlace
  split
  · exact ⟨rfl, rfl, rfl⟩
  · split
    · exact ⟨rfl, rfl, rfl⟩
    · rename_i synchronous
      simp only [Bool.not_eq_true] at synchronous
      simp [Place.holds, Place.legal, Place.sawFile, synchronous]

theorem start_quiet {log : GLog} {request : LogRequest} {thread : LogThread}
    (started : log.start request = some thread) :
    thread.place.holds log.config.asyncMode = false ∧
      thread.place.legal log.config.asyncMode = true ∧ thread.place.sawFile = false := by
  cases request with
  | write call =>
    cases started
    exact writePlace_quiet log call
  | writeVa call =>
    cases started
    exact writePlace_quiet log call
  | hexdump level data label clock tid =>
    simp only [GLog.start] at started
    split at started
    · cases started
      exact ⟨rfl, rfl, rfl⟩
    · obtain ⟨calls, -, rfl⟩ := Option.map_eq_some_iff.mp started
      exact ⟨rfl, rfl, rfl⟩
  | rotate =>
    cases started
    exact ⟨rfl, rfl, rfl⟩

theorem outputConsole_place {localtime : Nat → Tm} {log : GLog} {entry : LogEntry} {place : Place}
    (printed : LogProcess.outputConsole localtime log entry = some place) :
      place = .file entry := by
  unfold LogProcess.outputConsole at printed
  split at printed
  · obtain ⟨line, -, rfl⟩ := Option.map_eq_some_iff.mp printed
    rfl
  · cases printed
    rfl

theorem outputFile_place {localtime : Nat → Tm} {log : GLog} {entry : LogEntry} {place : Place}
    (printed : LogProcess.outputFile localtime log entry = some place) :
    place = .callback ∨ ∃ line, place = .measuring line ∧ log.logFile.isSome = true := by
  unfold LogProcess.outputFile at printed
  split at printed
  · rename_i reaches
    obtain ⟨line, -, rfl⟩ := Option.map_eq_some_iff.mp printed
    exact Or.inr ⟨line, rfl, (Bool.and_eq_true_iff.mp reaches).2⟩
  · cases printed
    exact Or.inl rfl

section Step
variable {localtime : Nat → Tm} {process next : LogProcess} {index : Nat} {outside : Outside}
  {before : LogThread}

section Places
variable {pending : List WriteCall}

/-- `log_write` locks in synchronous mode only. -/
theorem entering_moved {entry : LogEntry}
    (legal : (Place.entering entry).legal process.log.config.asyncMode = true)
    (stepped : process.advance localtime index outside ⟨.entering entry, pending⟩ = some next) :
    ∃ after, Moved process next index ⟨.entering entry, pending⟩ after := by
  simp only [LogProcess.advance] at stepped
  split at stepped
  · rename_i free
    cases stepped
    have synchronous : process.log.config.asyncMode = false := by simpa [Place.legal] using legal
    have gained : (Place.console entry).holds process.log.config.asyncMode = true := by
      simp [Place.holds, synchronous]
    exact ⟨⟨.console entry, pending⟩,
      .quiet rfl rfl rfl (.take free rfl rfl gained) (Or.inr rfl) rfl⟩
  · cases stepped

theorem pushing_moved {entry : LogEntry}
    (stepped : process.advance localtime index outside ⟨.pushing entry, pending⟩ = some next) :
    ∃ after, Moved process next index ⟨.pushing entry, pending⟩ after := by
  simp only [LogProcess.advance] at stepped
  split at stepped
  · cases stepped
  · cases stepped
    exact ⟨⟨.idle, pending⟩, .quiet rfl rfl rfl (.keep rfl rfl) (Or.inr rfl) rfl⟩

theorem popping_moved
    (legal : Place.popping.legal process.log.config.asyncMode = true)
    (stepped : process.advance localtime index outside ⟨.popping, pending⟩ = some next) :
    ∃ after, Moved process next index ⟨.popping, pending⟩ after := by
  simp only [LogProcess.advance] at stepped
  split at stepped
  · cases stepped
  · cases stepped
    have asynchronous : process.log.config.asyncMode = true := by simpa [Place.legal] using legal
    have without : (Place.console process.ring.front).holds process.log.config.asyncMode =
        false := by
      simp [Place.holds, asynchronous]
    exact ⟨⟨.console process.ring.front, pending⟩,
      .quiet rfl rfl rfl (.keep rfl without) (Or.inr rfl) rfl⟩

theorem file_moved {entry : LogEntry}
    (stepped : process.advance localtime index outside ⟨.file entry, pending⟩ = some next) :
    ∃ after, Moved process next index ⟨.file entry, pending⟩ after := by
  obtain ⟨place, printed, rfl⟩ := Option.map_eq_some_iff.mp stepped
  obtain rfl | ⟨line, rfl, present⟩ := outputFile_place printed
  · exact ⟨⟨.callback, pending⟩, .quiet rfl rfl rfl (.keep rfl rfl) (Or.inr rfl) rfl⟩
  · refine ⟨⟨.measuring line, pending⟩, rfl, rfl, rfl, .keep rfl rfl, fun _ => Or.inr rfl, ?_⟩
    intro _
    refine ⟨fun _ => present, ?_⟩
    intro nested
    cases nested

theorem measuring_moved {line : Bytes}
    (opened : process.log.config.asyncMode = false → process.log.logFile.isSome = true)
    (stepped : process.advance localtime index outside ⟨.measuring line, pending⟩ = some next) :
    ∃ after, Moved process next index ⟨.measuring line, pending⟩ after := by
  cases stepped
  refine ⟨⟨_, pending⟩, rfl, rfl, ?_, .keep rfl ?_, fun _ => Or.inr rfl, ?_⟩
  · split <;> rfl
  · split <;> rfl
  · intro _
    refine ⟨opened, ?_⟩
    intro nested
    split at nested
    · rename_i exceeds
      exact Or.inr ⟨line, rfl, exceeds⟩
    · cases nested

theorem rotating_moved {back : Option Bytes}
    (opened : process.log.config.asyncMode = false → (Place.rotating back).sawFile = true →
      process.log.logFile.isSome = true)
    (stepped : process.advance localtime index outside ⟨.rotating back, pending⟩ = some next) :
    ∃ after, Moved process next index ⟨.rotating back, pending⟩ after := by
  cases stepped
  refine ⟨⟨_, pending⟩, rfl, rfl, ?_, .keep rfl ?_, fun _ => Or.inr rfl, ?_⟩
  · cases back <;> split <;> rfl
  · cases back <;> split <;> rfl
  · intro saw
    cases back with
    | none => split at saw <;> cases saw
    | some line => exact ⟨fun synchronous => opened synchronous rfl, fun _ => Or.inl rfl⟩

/-- The second lock of `log_rotate` is not passed by the thread that holds the first one. -/
theorem relocking_moved {back : Option Bytes}
    (held : (Place.relocking back).holds process.log.config.asyncMode = true → process.mutex ≠ none)
    (stepped : process.advance localtime index outside ⟨.relocking back, pending⟩ = some next) :
    ∃ after, Moved process next index ⟨.relocking back, pending⟩ after := by
  simp only [LogProcess.advance] at stepped
  split at stepped
  · rename_i free
    cases stepped
    have without : (Place.relocking back).holds process.log.config.asyncMode = false := by
      by_contra holds
      exact held (by simpa using holds) free
    refine ⟨⟨.closing back, pending⟩,
      .quiet rfl rfl ?_ (.take free rfl without rfl) (Or.inr rfl) rfl⟩
    cases back with
    | none => rfl
    | some line => simpa [Place.holds, Place.legal] using without
  · cases stepped

theorem closing_moved {back : Option Bytes}
    (legal : (Place.closing back).legal process.log.config.asyncMode = true)
    (stepped : process.advance localtime index outside ⟨.closing back, pending⟩ = some next) :
    ∃ after, Moved process next index ⟨.closing back, pending⟩ after := by
  cases stepped
  refine ⟨⟨.reopening back, pending⟩, .quiet rfl rfl ?_ (.keep rfl rfl) (Or.inl rfl) rfl⟩
  cases back <;> exact legal

theorem reopening_moved {back : Option Bytes}
    (legal : (Place.reopening back).legal process.log.config.asyncMode = true)
    (stepped : process.advance localtime index outside ⟨.reopening back, pending⟩ = some next) :
    ∃ after, Moved process next index ⟨.reopening back, pending⟩ after := by
  cases stepped
  refine ⟨⟨.releasing back, pending⟩, .quiet rfl (by simp) ?_ (.keep rfl rfl) (Or.inl rfl) rfl⟩
  cases back <;> exact legal

theorem releasing_moved {back : Option Bytes}
    (legal : (Place.releasing back).legal process.log.config.asyncMode = true)
    (stepped : process.advance localtime index outside ⟨.releasing back, pending⟩ = some next) :
    ∃ after, Moved process next index ⟨.releasing back, pending⟩ after := by
  cases stepped
  refine ⟨⟨.resumed back, pending⟩, .quiet rfl rfl ?_ (.drop rfl rfl ?_) (Or.inr rfl) ?_⟩
  · cases back <;> rfl
  · cases back with
    | none => rfl
    | some line => simpa [Place.holds, Place.legal, Place.resumed] using legal
  · cases back <;> rfl

theorem counting_moved
    (stepped : process.advance localtime index outside ⟨.counting, pending⟩ = some next) :
    ∃ after, Moved process next index ⟨.counting, pending⟩ after := by
  cases stepped
  refine ⟨⟨_, pending⟩, .quiet rfl rfl ?_ (.keep rfl ?_) (Or.inr rfl) ?_⟩
  · cases mode : process.log.config.asyncMode <;> simp [Place.legal]
  · cases mode : process.log.config.asyncMode <;> simp [Place.holds]
  · split <;> rfl

theorem unlocking_moved
    (legal : Place.unlocking.legal process.log.config.asyncMode = true)
    (stepped : process.advance localtime index outside ⟨.unlocking, pending⟩ = some next) :
    ∃ after, Moved process next index ⟨.unlocking, pending⟩ after := by
  cases stepped
  have synchronous : process.log.config.asyncMode = false := by simpa [Place.legal] using legal
  have held : Place.unlocking.holds process.log.config.asyncMode = true := by
    simp [Place.holds, synchronous]
  exact ⟨⟨.idle, pending⟩, .quiet rfl rfl rfl (.drop rfl held rfl) (Or.inr rfl) rfl⟩

end Places

theorem advance_moved (legal : before.place.legal process.log.config.asyncMode = true)
    (held : before.place.holds process.log.config.asyncMode = true → process.mutex ≠ none)
    (opened : process.log.config.asyncMode = false → before.place.sawFile = true →
      process.log.logFile.isSome = true)
    (stepped : process.advance localtime index outside before = some next) :
    ∃ after, Moved process next index before after := by
  obtain ⟨place, pending⟩ := before
  cases place with
  | idle =>
    cases pending with
    | nil => cases stepped
    | cons call pending =>
      cases stepped
      obtain ⟨without, fits, unseen⟩ := writePlace_quiet process.log call
      exact ⟨_, .quiet rfl rfl fits (.keep rfl without) (Or.inr rfl) unseen⟩
  | entering entry => exact entering_moved legal stepped
  | pushing entry => exact pushing_moved stepped
  | popping => exact popping_moved legal stepped
  | console entry =>
    obtain ⟨place, printed, rfl⟩ := Option.map_eq_some_iff.mp stepped
    cases outputConsole_place printed
    exact ⟨⟨.file entry, pending⟩, .quiet rfl rfl rfl (.keep rfl rfl) (Or.inr rfl) rfl⟩
  | file entry => exact file_moved stepped
  | measuring line => exact measuring_moved (fun synchronous => opened synchronous rfl) stepped
  | rotating back => exact rotating_moved opened stepped
  | relocking back => exact relocking_moved held stepped
  | closing back => exact closing_moved legal stepped
  | reopening back => exact reopening_moved legal stepped
  | releasing back => exact releasing_moved legal stepped
  | appending line =>
    obtain ⟨log, appended, rfl⟩ := Option.map_eq_some_iff.mp stepped
    obtain ⟨path, present, rfl⟩ := GLog.appendLine_eq_some appended
    exact ⟨⟨.callback, pending⟩, .quiet rfl rfl rfl (.keep rfl rfl) (Or.inr rfl) rfl⟩
  | callback =>
    cases stepped
    exact ⟨⟨.counting, pending⟩, .quiet rfl rfl rfl (.keep rfl rfl) (Or.inr rfl) rfl⟩
  | counting => exact counting_moved stepped
  | unlocking => exact unlocking_moved legal stepped

theorem request_moved {request : LogRequest} (here : process.threads[index]? = some before)
    (stepped : process.step localtime (.request index request) = some next) :
    ∃ after, Moved process next index before after ∧
      process.log.start request = some after := by
  simp only [LogProcess.step] at stepped
  split at stepped
  · rename_i idle
    obtain ⟨after, started, rfl⟩ := Option.map_eq_some_iff.mp stepped
    obtain ⟨without, fits, unseen⟩ := start_quiet started
    cases here.symm.trans idle
    exact ⟨after, .quiet rfl rfl fits (.keep rfl without) (Or.inr rfl) unseen, started⟩
  · cases stepped

end Step

section Invariant
variable {process next : LogProcess} {index : Nat} {before after : LogThread}

theorem Moved.get (moved : Moved process next index before after)
    (here : process.threads[index]? = some before) (other : Nat) :
    next.threads[other]? = if other = index then some after else process.threads[other]? := by
  rw [moved.threads]
  exact SlotTable.get_set (List.getElem?_eq_some_iff.mp here).1 after other

theorem Moved.owner (moved : Moved process next index before after)
    (here : process.threads[index]? = some before) (invariant : process.LockInvariant)
    (other : Nat) :
    next.mutex = some other ↔ ∃ thread, next.threads[other]? = some thread ∧
      thread.place.holds process.log.config.asyncMode = true := by
  have owner := invariant.owner other
  have mine := invariant.owner index
  rw [moved.get here other]
  rw [here] at mine
  by_cases same : other = index
  · subst same
    rcases moved.mutex with ⟨unchanged, alike⟩ | ⟨-, taken, -, gained⟩ | ⟨dropped, -, released⟩
    · simpa [unchanged, alike] using mine
    · simp [taken, gained]
    · simp [dropped, released]
  · rw [if_neg same, ← owner]
    rcases moved.mutex with ⟨unchanged, -⟩ | ⟨free, taken, -⟩ | ⟨dropped, held, -⟩
    · rw [unchanged]
    · simp [free, taken, Ne.symm same]
    · have ours : process.mutex = some index := by simpa [held] using mine
      simp [dropped, ours, Ne.symm same]

/-- The invariant survives a step of one thread. -/
theorem LogProcess.LockInvariant.moved (invariant : process.LockInvariant)
    (here : process.threads[index]? = some before) (moved : Moved process next index before after) :
    next.LockInvariant := by
  constructor
  · intro other
    rw [moved.config]
    exact moved.owner here invariant other
  · intro other thread present
    rw [moved.config]
    rw [moved.get here other] at present
    split at present
    · cases present
      exact moved.legal
    · exact invariant.legal other thread present
  · intro synchronous other thread present saw
    rw [moved.config] at synchronous
    rw [moved.get here other] at present
    split at present
    · cases present
      exact (moved.saw saw).1 synchronous
    · rename_i different
      rcases moved.file synchronous with held | unchanged
      · have ours := (invariant.owner index).mpr ⟨before, here, by rw [synchronous]; exact held⟩
        have theirs : process.mutex = some other := by
          refine (invariant.owner other).mpr ⟨thread, present, ?_⟩
          rw [synchronous]
          cases place : thread.place with
          | rotating back => cases back <;> simp_all [Place.sawFile, Place.holds]
          | relocking back => cases back <;> simp_all [Place.sawFile, Place.holds]
          | _ => simp_all [Place.sawFile, Place.holds]
        exact absurd (Option.some.inj (theirs.symm.trans ours)) different
      · rw [unchanged]
        exact invariant.opened synchronous other thread present saw

theorem step_moved {localtime : Nat → Tm} {action : LogStep} (invariant : process.LockInvariant)
    (stepped : process.step localtime action = some next) :
    ∃ before after, process.threads[action.index]? = some before ∧
      Moved process next action.index before after := by
  cases action with
  | request index request =>
    cases present : process.threads[index]? with
    | none => simp [LogProcess.step, present] at stepped
    | some before =>
      obtain ⟨after, moved, -⟩ := request_moved present stepped
      exact ⟨before, after, present, moved⟩
  | advance index outside =>
    obtain ⟨before, present, advanced⟩ := Option.bind_eq_some_iff.mp stepped
    have held : before.place.holds process.log.config.asyncMode = true → process.mutex ≠ none := by
      intro holds
      simp [(invariant.owner index).mpr ⟨before, present, holds⟩]
    obtain ⟨after, moved⟩ := advance_moved (invariant.legal index before present) held
      (fun synchronous => invariant.opened synchronous index before present) advanced
    exact ⟨before, after, present, moved⟩

theorem LogProcess.LockInvariant.step {localtime : Nat → Tm} {action : LogStep}
    (invariant : process.LockInvariant) (stepped : process.step localtime action = some next) :
    next.LockInvariant := by
  obtain ⟨before, after, here, moved⟩ := step_moved invariant stepped
  exact invariant.moved here moved

/-- No thread is on its way to a second lock. -/
def LogProcess.Calm (process : LogProcess) : Prop :=
  process.log.config.asyncMode = false → ∀ (index : Nat) (thread : LogThread),
    process.threads[index]? = some thread → thread.place.nested = false

/-- What holds throughout a run in which every line fits. -/
structure LogProcess.Quiet (process : LogProcess) : Prop where
  locks : process.LockInvariant
  calm : process.Calm

theorem Place.sawFile_of_nested {place : Place} (nested : place.nested = true) :
    place.sawFile = true := by
  unfold Place.nested at nested
  split at nested
  · rfl
  · rfl
  · cases nested

theorem LogProcess.Calm.step {localtime : Nat → Tm} {action : LogStep} (calm : process.Calm)
    (invariant : process.LockInvariant) (fits : process.WritesFit action)
    (stepped : process.step localtime action = some next) : next.Calm := by
  obtain ⟨before, after, here, moved⟩ := step_moved invariant stepped
  intro synchronous other thread present
  rw [moved.config] at synchronous
  rw [moved.get here other] at present
  split at present
  · cases present
    by_contra nested
    rw [Bool.not_eq_false] at nested
    rcases (moved.saw (Place.sawFile_of_nested nested)).2
      nested with earlier | ⟨line, place, exceeds⟩
    · simp [calm synchronous _ before here] at earlier
    · simp [fits before line here place synchronous] at exceeds
  · exact calm synchronous other thread present

/-- A second lock under the first one is the one of a `log_rotate` that `output_file`
called in synchronous mode. -/
theorem LogProcess.LockInvariant.nested_of_relocks (invariant : process.LockInvariant)
    (relocks : process.Relocks index) : process.log.config.asyncMode = false ∧
      ∃ thread, process.threads[index]? = some thread ∧ thread.place.nested = true := by
  obtain ⟨mine, thread, present, locking⟩ := relocks
  obtain ⟨holder, found, holds⟩ := (invariant.owner index).mp mine
  cases present.symm.trans found
  rcases locking with ⟨entry, place⟩ | ⟨back, place⟩
  · simp [place, Place.holds] at holds
  · cases back with
    | none => simp [place, Place.holds] at holds
    | some line =>
      refine ⟨by simpa [place, Place.holds] using holds, thread, present, ?_⟩
      rw [place]
      rfl

theorem startProcess_thread {log : GLog} {threads : Nat} {thread : LogThread}
    (present : (startProcess log threads).threads[index]? = some thread) :
    thread.place = .idle ∨ thread.place = .popping ∧ log.config.asyncMode = true := by
  have member := List.mem_of_getElem? present
  simp only [startProcess, List.mem_append, List.mem_replicate] at member
  rcases member with ⟨-, rfl⟩ | last
  · exact Or.inl rfl
  · split at last
    · rename_i asynchronous
      cases List.mem_singleton.mp last
      exact Or.inr ⟨rfl, asynchronous⟩
    · cases last

theorem startProcess_invariant (log : GLog) (threads : Nat) :
    (startProcess log threads).LockInvariant := by
  constructor
  · intro index
    constructor
    · intro held
      cases held
    · intro ⟨thread, present, holds⟩
      rcases startProcess_thread present with idle | ⟨popping, -⟩
      · simp [idle, Place.holds] at holds
      · simp [popping, Place.holds] at holds
  · intro index thread present
    rcases startProcess_thread present with idle | ⟨popping, asynchronous⟩
    · simp [idle, Place.legal]
    · rw [popping]
      exact asynchronous
  · intro _ index thread present saw
    rcases startProcess_thread present with idle | ⟨popping, -⟩
    · simp [idle, Place.sawFile] at saw
    · simp [popping, Place.sawFile] at saw

theorem startProcess_calm (log : GLog) (threads : Nat) : (startProcess log threads).Calm := by
  intro _ index thread present
  rcases startProcess_thread present with idle | ⟨popping, -⟩
  · simp [idle, Place.nested]
  · simp [popping, Place.nested]

/-- A line that does not fit takes its thread to the second lock. -/
theorem LogProcess.LockInvariant.relocks {localtime : Nat → Tm} {thread : LogThread} {line : Bytes}
    (invariant : process.LockInvariant) (here : process.threads[index]? = some thread)
    (place : thread.place = .measuring line) (synchronous : process.log.config.asyncMode = false)
    (exceeds : process.log.exceeds line = true) (outside : Outside) :
    ∃ later, follow (LogProcess.step localtime) process
      [.advance index outside, .advance index outside] = some later ∧ later.Relocks index := by
  obtain ⟨_, pending⟩ := thread
  cases place
  have inside : index < process.threads.length := (List.getElem?_eq_some_iff.mp here).1
  have mine : process.mutex = some index :=
    (invariant.owner index).mpr ⟨_, here, by simp [Place.holds, synchronous]⟩
  have present : process.log.logFile ≠ none := by
    have opened := invariant.opened synchronous index _ here rfl
    intro missing
    simp [missing] at opened
  let rotating := process.put index ⟨.rotating (some line), pending⟩
  have measured : process.step localtime (.advance index outside) = some rotating := by
    simp only [LogProcess.step, here, Option.bind_some, LogProcess.advance, exceeds]
    rfl
  have rotated : rotating.threads[index]? = some ⟨.rotating (some line), pending⟩ := by
    simp [rotating, LogProcess.put, inside]
  have tested : rotating.step localtime (.advance index outside) =
      some (rotating.put index ⟨.relocking (some line), pending⟩) := by
    simp only [LogProcess.step, rotated, Option.bind_some, LogProcess.advance]
    rw [if_neg (show rotating.log.logFile ≠ none from present)]
  refine ⟨rotating.put index ⟨.relocking (some line), pending⟩, ?_, mine,
    ⟨.relocking (some line), pending⟩, ?_, Or.inr ⟨some line, rfl⟩⟩
  · rw [follow, measured, Option.bind_some, follow, tested]
    rfl
  · simp [LogProcess.put, rotating, inside]

end Invariant

/-- In every run of which no step finds, under the mutex of a synchronous write, a line
too long for the open file, no thread locks the mutex it holds; and a thread that
does find one comes to that second lock. -/
theorem log_mutex_locked_once (localtime : Nat → Tm) (config : LogConfig) (date : Tm) (index : Nat)
    (totalBytes totalEntries : UInt64) (files : CString → Option Bytes) (threads : Nat) :
    (∀ process, Arrives (LogProcess.step localtime) LogProcess.WritesFit
      (startProcess (logStart config date index totalBytes totalEntries files) threads) process →
      ∀ thread, ¬ process.Relocks thread) ∧
    ∀ process action, Arrives (LogProcess.step localtime) (fun _ _ => True)
      (startProcess (logStart config date index totalBytes totalEntries files) threads) process →
      ¬ process.WritesFit action → ∀ outside, ∃ later,
        follow (LogProcess.step localtime) process
          [.advance action.index outside, .advance action.index outside] = some later ∧
        later.Relocks action.index := by
  constructor
  · intro process arrives thread relocks
    have quiet : process.Quiet := by
      refine arrives.keeps ⟨startProcess_invariant _ threads, startProcess_calm _ threads⟩ ?_
      intro state action next holds fits stepped
      exact ⟨holds.locks.step stepped, holds.calm.step holds.locks fits stepped⟩
    obtain ⟨synchronous, found, present, nested⟩ := quiet.locks.nested_of_relocks relocks
    simp [quiet.calm synchronous thread found present] at nested
  · intro process action arrives overflows outside
    have invariant := arrives.keeps (startProcess_invariant _ threads)
      (fun _ _ _ holds _ stepped => holds.step stepped)
    simp only [LogProcess.WritesFit, not_forall, Bool.not_eq_false] at overflows
    obtain ⟨thread, line, here, place, synchronous, exceeds⟩ := overflows
    exact invariant.relocks here place synchronous exceeds outside

/-- The settings of a small synchronous log: lines without fields in front, at most ten
bytes in a file. -/
def smallConfig : LogConfig where
  level := .info
  targets := targetFile
  format := 0
  logDir := .ofBuffer (text "./log")
  logPrefix := .ofBuffer (text "app")
  maxFileSize := 10
  maxFileCount := 3
  rotatePolicy := .size
  asyncMode := false
  ringBufferSize := 4

def someDate : Tm := ⟨126, 0, 15, 12, 0, 0⟩

def helloCall : WriteCall :=
  ⟨.info, .ofBuffer (text "main.c"), 7, .ofBuffer (text "main"), .ofBuffer (text "hello"), 0, 1⟩

/-- Two writes of six bytes: the second one finds four bytes left and stops at the
second lock. -/
theorem second_write_relocks :
    ¬ ∀ process, Arrives (LogProcess.step fun _ => someDate) (fun _ _ => True)
      (startProcess (logStart smallConfig someDate 0 0 0 fun _ => none) 1) process →
      ∀ thread, ¬ process.Relocks thread := by
  intro never
  have run : ∃ process, follow (LogProcess.step fun _ => someDate)
      (startProcess (logStart smallConfig someDate 0 0 0 fun _ => none) 1)
      (.request 0 (.write helloCall) :: List.replicate 8 (.advance 0 ⟨someDate, true⟩) ++
        .request 0 (.write helloCall) :: List.replicate 5 (.advance 0 ⟨someDate, true⟩)) =
        some process ∧ process.Relocks 0 := by
    refine ⟨_, rfl, rfl, ⟨.relocking (some (text "hello\n")), []⟩, rfl, Or.inr ⟨_, rfl⟩⟩
  obtain ⟨process, ran, relocks⟩ := run
  exact never process (Arrives.start.follow (fun _ _ _ => trivial) ran) 0 relocks

end LinuxCLearning.LogSystem
