import LinuxCLearning.KvDatabase.WalReplay

/-! The order of the log entries when several threads write. The lock is released before
the log entry is appended, so each call of a thread is two steps. -/

namespace LinuxCLearning.KvDatabase

variable {Thread : Type}

/-- The database, the updates whose log entries are not yet appended, and all updates in
the order in which they were made. -/
structure WriterProcess (Thread : Type) where
  db : Kvdb
  pending : Thread → Option MapUpdate
  applied : List MapUpdate

/-- `kvdb_set` or `kvdb_delete` up to the end of its lock, or the rest of the call. -/
inductive WriterStep (Thread : Type) where
  | set (thread : Thread) (alloc : Nat → Bool) (key : Option CString) (value : Option Bytes)
  | delete (thread : Thread) (key : Option CString)
  | append (thread : Thread) (now : Nat)

namespace WriterProcess

def started (db : Kvdb) : WriterProcess Thread := ⟨db, fun _ => none, []⟩

variable [DecidableEq Thread]

/-- A call that has come to the end of its lock; without an update it returns. -/
def locked (process : WriterProcess Thread) (thread : Thread) (result : Option MapUpdate × Kvdb) :
    WriterProcess Thread where
  db := result.2
  pending := Function.update process.pending thread result.1
  applied := process.applied ++ result.1.toList

def step (process : WriterProcess Thread) : WriterStep Thread → Option (WriterProcess Thread)
  | .set thread alloc key value =>
    if (process.pending thread).isSome then none
    else some (process.locked thread (process.db.lockedSet alloc key value))
  | .delete thread key =>
    if (process.pending thread).isSome then none
    else some (process.locked thread (process.db.lockedDelete key))
  | .append thread now =>
    (process.pending thread).map fun update =>
      { process with
        db := process.db.logUpdate now update
        pending := Function.update process.pending thread none }

omit [DecidableEq Thread] in
/-- An update of a key that the log entry holds whole, and that no other thread has
updated without having appended the entry for it. -/
def Alone (process : WriterProcess Thread) (update : MapUpdate) : Prop :=
  update.key.length < maxKeySize ∧
    ∀ thread other, process.pending thread = some other → other.key ≠ update.key

omit [DecidableEq Thread] in
/-- The updates made one after the other for each key. -/
def Exclusive (process : WriterProcess Thread) : WriterStep Thread → Prop
  | .set _ alloc key value =>
    ∀ update, process.db.setUpdate alloc key value = some update → process.Alone update
  | .delete _ key => ∀ update, process.db.deleteUpdate key = some update → process.Alone update
  | .append _ _ => True

end WriterProcess

/-- The log entries for a key. -/
def entriesFor (key : CString) (log : List WalRecord) : List WalRecord :=
  log.filter fun record => CString.ofBuffer record.key = key

/-- The updates of a key, as log entries. -/
def updatesFor (key : CString) (applied : List MapUpdate) : List WalRecord :=
  (applied.filter fun update => update.key = key).map MapUpdate.record

/-- For every key the log entries are those for its first updates, in their order, and when
no update waits for its entry the last one says what the key is bound to. -/
def Ordered (opened : Kvdb) (process : WriterProcess Thread) : Prop :=
  ∀ key, entriesFor key (opened.appended process.db) <+: updatesFor key process.applied ∧
    ((∀ thread update, process.pending thread = some update → update.key ≠ key) →
      ∀ last, (entriesFor key (opened.appended process.db)).getLast? = some last →
        WalRecord.on process.db.hashmap.lookup last key = process.db.hashmap.lookup key)

/-- What every run of exclusive updates keeps while the log is open. -/
structure InStep (opened : Kvdb) (process : WriterProcess Thread) : Prop where
  follows : Follows opened process.db
  whole : ∀ thread update, process.pending thread = some update → update.key.length < maxKeySize
  unique : ∀ first second update other, process.pending first = some update →
    process.pending second = some other → update.key = other.key → first = second
  settled : ∀ key, (∀ thread update, process.pending thread = some update → update.key ≠ key) →
    updatesFor key process.applied = entriesFor key (opened.appended process.db)
  waiting : ∀ thread update, process.pending thread = some update →
    updatesFor update.key process.applied =
      entriesFor update.key (opened.appended process.db) ++ [update.record]
  short : ∀ update ∈ process.applied, update.key.length < maxKeySize
  bound : ∀ key update, (process.applied.filter fun other => other.key = key).getLast? =
    some update →
    process.db.hashmap.lookup key = update.value

section Entries

theorem record_key {update : MapUpdate} (whole : update.key.length < maxKeySize) :
    CString.ofBuffer update.record.key = update.key := by
  have same : CString.ofBuffer update.record.key = recordedKey update.key := by
    cases update with
    | bind key value => rfl
    | unbind key => rfl
  rw [same, recordedKey_eq.mpr whole]

theorem updatesFor_append (key : CString) (applied : List MapUpdate) (update : MapUpdate) :
    updatesFor key (applied ++ [update]) =
      updatesFor key applied ++ if update.key = key then [update.record] else [] := by
  rw [updatesFor, List.filter_append, List.map_append]
  congr 1
  by_cases same : update.key = key
  · simp [same]
  · simp [same]

theorem entriesFor_append (key : CString) (log : List WalRecord) {update : MapUpdate}
    (whole : update.key.length < maxKeySize) :
    entriesFor key (log ++ [update.record]) =
      entriesFor key log ++ if update.key = key then [update.record] else [] := by
  rw [entriesFor, List.filter_append]
  congr 1
  by_cases same : update.key = key
  · simp [record_key whole, same]
  · simp [record_key whole, same]

theorem latest_append (key : CString) (applied : List MapUpdate) (update : MapUpdate) :
    ((applied ++ [update]).filter fun other => other.key = key).getLast? =
      if update.key = key then some update
      else (applied.filter fun other => other.key = key).getLast? := by
  rw [List.filter_append]
  by_cases same : update.key = key
  · simp [same]
  · simp [same]

/-- The entry for an update says what the update has bound its key to. -/
theorem record_on_key {update : MapUpdate} (whole : update.key.length < maxKeySize)
    (bindings : Bindings) :
    WalRecord.on bindings update.record update.key = update.value := by
  rw [record_on, recordedKey_eq.mpr whole, Function.update_self]

theorem pending_cases [DecidableEq Thread] {pending : Thread → Option MapUpdate}
    {thread other : Thread} {update : Option MapUpdate} {change : MapUpdate}
    (waits : Function.update pending thread update other = some change) :
    other = thread ∧ update = some change ∨ other ≠ thread ∧ pending other = some change := by
  by_cases same : other = thread
  · subst same
    rw [Function.update_self] at waits
    exact Or.inl ⟨rfl, waits⟩
  · rw [Function.update_of_ne same] at waits
    exact Or.inr ⟨same, waits⟩

end Entries

/-- What a step can do: a call up to the end of its lock, or a log entry. -/
theorem step_cases [DecidableEq Thread] {process next : WriterProcess Thread}
    {action : WriterStep Thread}
    (valid : process.db.hashmap.Valid) (stepped : process.step action = some next) :
    (∃ thread update result, ¬ (process.pending thread).isSome ∧
      next = process.locked thread result ∧
      (result.1 = update ∧ Locked process.db update result.2) ∧
      (process.Exclusive action → ∀ change, update = some change → process.Alone change)) ∨
    ∃ thread update now, process.pending thread = some update ∧
      next = { process with
        db := process.db.logUpdate now update
        pending := Function.update process.pending thread none } := by
  cases action with
  | set thread alloc key value =>
    simp only [WriterProcess.step] at stepped
    split at stepped
    · cases stepped
    · rename_i idle
      cases stepped
      exact Or.inl ⟨thread, _, _, idle, rfl, lockedSet_spec valid alloc key value, id⟩
  | delete thread key =>
    simp only [WriterProcess.step] at stepped
    split at stepped
    · cases stepped
    · rename_i idle
      cases stepped
      exact Or.inl ⟨thread, _, _, idle, rfl, lockedDelete_spec valid key, id⟩
  | append thread now =>
    obtain ⟨update, waits, same⟩ := Option.map_eq_some_iff.mp stepped
    exact Or.inr ⟨thread, update, now, waits, same.symm⟩

namespace InStep
variable {opened : Kvdb} {process : WriterProcess Thread}

theorem ordered (inStep : InStep opened process) : Ordered opened process := by
  intro key
  constructor
  · by_cases waits : ∃ thread update, process.pending thread = some update ∧ update.key = key
    · obtain ⟨thread, update, pending, rfl⟩ := waits
      rw [inStep.waiting thread update pending]
      exact List.prefix_append _ _
    · rw [inStep.settled key]
      intro thread update pending same
      exact waits ⟨thread, update, pending, same⟩
  · intro nothing last isLast
    rw [← inStep.settled key nothing, updatesFor, List.getLast?_map] at isLast
    obtain ⟨update, final, rfl⟩ := Option.map_eq_some_iff.mp isLast
    have member := List.mem_filter.mp (List.mem_of_getLast? final)
    obtain rfl : update.key = key := by simpa using member.2
    rw [inStep.bound update.key update final, record_on_key (inStep.short update member.1)]

theorem started (db : Kvdb) (valid : db.hashmap.Valid) :
    InStep db (WriterProcess.started db : WriterProcess Thread) := by
  have nothing : db.appended db = [] := List.drop_length
  refine ⟨.self valid, ?_, ?_, ?_, ?_, ?_, ?_⟩
  · intro thread update pending
    cases pending
  · intro first second update other pending
    cases pending
  · intro key _
    change [] = entriesFor key (db.appended db)
    rw [nothing]
    rfl
  · intro thread update pending
    cases pending
  · intro update member
    cases member
  · intro key update final
    cases final

/-- Only the table changes under the lock. -/
theorem appended_locked {after : Kvdb} {update : Option MapUpdate}
    (locked : Locked process.db update after) :
    opened.appended after = opened.appended process.db := by
  rw [Kvdb.appended, Kvdb.appended, locked.log]

variable [DecidableEq Thread]

theorem refused (inStep : InStep opened process) {thread : Thread}
    (idle : process.pending thread = none) {after : Kvdb} (locked : Locked process.db none after) :
    InStep opened (process.locked thread (none, after)) := by
  have pending : Function.update process.pending thread none = process.pending := by
    rw [← idle, Function.update_eq_self]
  have applied : process.applied ++ (none : Option MapUpdate).toList = process.applied :=
    List.append_nil _
  have bindings : after.hashmap.lookup = process.db.hashmap.lookup := locked.bindings
  rw [WriterProcess.locked, pending, applied]
  refine ⟨inStep.follows.locked locked, inStep.whole, inStep.unique, ?_, ?_, inStep.short, ?_⟩
  · intro key nothing
    rw [appended_locked locked]
    exact inStep.settled key nothing
  · intro other update waits
    rw [appended_locked locked]
    exact inStep.waiting other update waits
  · intro key update final
    rw [bindings]
    exact inStep.bound key update final

theorem made (inStep : InStep opened process) {thread : Thread}
    (idle : process.pending thread = none)
    {after : Kvdb} {update : MapUpdate} (alone : process.Alone update)
    (locked : Locked process.db (some update) after) :
    InStep opened (process.locked thread (some update, after)) := by
  have bindings : after.hashmap.lookup = update.on process.db.hashmap.lookup := locked.bindings
  refine ⟨inStep.follows.locked locked, ?_, ?_, ?_, ?_, ?_, ?_⟩
  · intro other change waits
    rcases pending_cases waits with ⟨_, ⟨⟩⟩ | ⟨_, before⟩
    · exact alone.1
    · exact inStep.whole other change before
  · intro first second change other firstWaits secondWaits same
    rcases pending_cases firstWaits with ⟨rfl, ⟨⟩⟩ | ⟨_, firstBefore⟩
    · rcases pending_cases secondWaits with ⟨rfl, _⟩ | ⟨_, secondBefore⟩
      · rfl
      · exact absurd same.symm (alone.2 second other secondBefore)
    · rcases pending_cases secondWaits with ⟨_, ⟨⟩⟩ | ⟨_, secondBefore⟩
      · exact absurd same (alone.2 first change firstBefore)
      · exact inStep.unique first second change other firstBefore secondBefore same
  · intro key nothing
    have different : update.key ≠ key := nothing thread update (Function.update_self ..)
    change updatesFor key (process.applied ++ [update]) = entriesFor key (opened.appended after)
    rw [updatesFor_append, if_neg different, List.append_nil, appended_locked locked]
    apply inStep.settled key
    intro other change before
    have elsewhere : other ≠ thread := by
      rintro rfl
      rw [idle] at before
      cases before
    exact nothing other change ((Function.update_of_ne elsewhere ..).trans before)
  · intro other change waits
    change updatesFor change.key (process.applied ++ [update]) =
      entriesFor change.key (opened.appended after) ++ [change.record]
    rw [updatesFor_append, appended_locked locked]
    rcases pending_cases waits with ⟨_, ⟨⟩⟩ | ⟨_, before⟩
    · rw [if_pos rfl, inStep.settled update.key alone.2]
    · rw [if_neg (Ne.symm (alone.2 other change before)), List.append_nil]
      exact inStep.waiting other change before
  · intro change member
    rcases List.mem_append.mp member with earlier | last
    · exact inStep.short change earlier
    · rw [List.mem_singleton.mp last]
      exact alone.1
  · intro key change final
    change after.hashmap.lookup key = change.value
    rw [bindings]
    have latest := (latest_append key process.applied update).symm.trans final
    split at latest
    · rename_i same
      cases latest
      rw [← same]
      exact Function.update_self ..
    · rename_i different
      exact (Function.update_of_ne (Ne.symm different) ..).trans (inStep.bound key change latest)

theorem appended (inStep : InStep opened process)
    (openLog : opened.walFile.isSome) {thread : Thread}
    {update : MapUpdate} (waits : process.pending thread = some update) (now : Nat) :
    InStep opened
      { process with
        db := process.db.logUpdate now update
        pending := Function.update process.pending thread none } := by
  have whole := inStep.whole thread update waits
  have log := logUpdate_log process.db now update
  have isOpen : process.db.walFile.isSome := by
    obtain ⟨entries, grown⟩ := inStep.follows.grown
    rw [grown, Option.isSome_map]
    exact openLog
  have entries := inStep.follows.appended log
  rw [if_pos isOpen] at entries
  have pending {other : Thread} {change : MapUpdate}
      (before : Function.update process.pending thread none other = some change) :
      other ≠ thread ∧ process.pending other = some change :=
    (pending_cases before).resolve_left fun both => Option.some_ne_none change both.2.symm
  have different {other : Thread} {change : MapUpdate} (elsewhere : other ≠ thread)
      (before : process.pending other = some change) : update.key ≠ change.key := by
    intro same
    exact elsewhere (inStep.unique thread other update change waits before same).symm
  refine ⟨inStep.follows.logged now update, ?_, ?_, ?_, ?_, inStep.short, ?_⟩
  · intro other change before
    exact inStep.whole other change (pending before).2
  · intro first second change other firstWaits secondWaits same
    exact inStep.unique first second change other (pending firstWaits).2
      (pending secondWaits).2 same
  · intro key nothing
    change updatesFor key process.applied =
      entriesFor key (opened.appended (process.db.logUpdate now update))
    rw [entries, entriesFor_append key _ whole]
    by_cases same : update.key = key
    · subst same
      rw [if_pos rfl]
      exact inStep.waiting thread update waits
    · rw [if_neg same, List.append_nil]
      apply inStep.settled key
      intro other change before
      by_cases itself : other = thread
      · subst itself
        rw [waits] at before
        cases before
        exact same
      · exact nothing other change ((Function.update_of_ne itself ..).trans before)
  · intro other change before
    obtain ⟨elsewhere, old⟩ := pending before
    change updatesFor change.key process.applied =
      entriesFor change.key (opened.appended (process.db.logUpdate now update)) ++ [change.record]
    rw [entries, entriesFor_append _ _ whole, if_neg (different elsewhere old), List.append_nil]
    exact inStep.waiting other change old
  · intro key change final
    change (process.db.logUpdate now update).hashmap.lookup key = change.value
    rw [logUpdate_hashmap]
    exact inStep.bound key change final

theorem called (inStep : InStep opened process) {thread : Thread}
    (idle : ¬ (process.pending thread).isSome)
    {update : Option MapUpdate} {result : Option MapUpdate × Kvdb}
    (spec : result.1 = update ∧ Locked process.db update result.2)
    (alone : ∀ change, update = some change → process.Alone change) :
    InStep opened (process.locked thread result) := by
  obtain ⟨change, after⟩ := result
  obtain ⟨rfl, locked⟩ := spec
  have nothing : process.pending thread = none := Option.not_isSome_iff_eq_none.mp idle
  cases change with
  | none => exact inStep.refused nothing locked
  | some change => exact inStep.made nothing (alone change rfl) locked

theorem step (inStep : InStep opened process) (openLog : opened.walFile.isSome)
    {action : WriterStep Thread}
    (exclusive : process.Exclusive action) {next : WriterProcess Thread}
    (stepped : process.step action = some next) : InStep opened next := by
  rcases step_cases inStep.follows.valid stepped with
    ⟨thread, update, result, idle, rfl, spec, alone⟩ | ⟨thread, update, now, waits, rfl⟩
  · exact inStep.called idle spec (alone exclusive)
  · exact inStep.appended openLog waits now

end InStep

section Closed
variable {opened : Kvdb} {process : WriterProcess Thread}

/-- Every step of every thread keeps the table valid and only appends to the log. -/
theorem Follows.step [DecidableEq Thread] (follows : Follows opened process.db)
    {action : WriterStep Thread}
    {next : WriterProcess Thread} (stepped : process.step action = some next) :
      Follows opened next.db := by
  rcases step_cases follows.valid stepped with
    ⟨thread, update, result, _, rfl, spec, _⟩ | ⟨thread, update, now, _, rfl⟩
  · exact follows.locked spec.2
  · exact follows.logged now update

theorem Follows.ordered (follows : Follows opened process.db) (closed : ¬ opened.walFile.isSome) :
    Ordered opened process := by
  obtain ⟨entries, grown⟩ := follows.grown
  have nothing : opened.appended process.db = [] := by
    rw [Kvdb.appended, grown, Option.not_isSome_iff_eq_none.mp closed]
    rfl
  intro key
  rw [nothing]
  refine ⟨List.nil_prefix, ?_⟩
  intro _ last isLast
  cases isLast

end Closed

/-- While the updates of each key are made one after the other, and keys fit into log
entries, the log has the order of the updates, whatever the threads do. -/
theorem wal_ordered [DecidableEq Thread] {alloc : Nat → Bool} {now : Nat}
    {disk after : Disk} {mode : KvdbMode}
    {db : Kvdb} (opened : kvdbOpen alloc now disk ⟨mode, true⟩ = (some db, after))
    {process : WriterProcess Thread}
    (reached : Machine.Arrives WriterProcess.step WriterProcess.Exclusive (.started db) process) :
    Ordered db process := by
  have valid := kvdbOpen_valid opened
  by_cases openLog : db.walFile.isSome
  · have inStep : InStep db process := by
      apply reached.keeps (.started db valid)
      intro state action next kept exclusive stepped
      exact kept.step openLog exclusive stepped
    exact inStep.ordered
  · have follows : Follows db process.db := by
      induction reached with
      | start => exact .self valid
      | next _ action _ stepped ih => exact ih.step stepped
    exact follows.ordered openLog

section Runs

def keyB : CString := .ofBuffer (text "b")

def setKey (thread : Nat) (key : CString) (value : Bytes) : WriterStep Nat :=
  .set thread (fun _ => true) (some key) (some value)

/-- Two threads: their updates of different keys overtake each other on the way to the log,
and those of one key do not. -/
theorem wal_ordered_two_threads :
    ∃ process : WriterProcess Nat,
      process.applied = [.bind keyA (text "1"), .bind keyB (text "5"), .bind keyA (text "2")] ∧
        createdDb.appended process.db = [(MapUpdate.bind keyB (text "5")).record,
          (MapUpdate.bind keyA (text "1")).record, (MapUpdate.bind keyA (text "2")).record] ∧
        Ordered createdDb process := by
  have first : (WriterProcess.started createdDb).Exclusive (setKey 0 keyA (text "1")) := by
    intro update made
    cases made
    refine ⟨by decide, ?_⟩
    intro thread other waits
    cases waits
  have begun : Machine.Arrives WriterProcess.step WriterProcess.Exclusive (.started createdDb) _ :=
    .next .start (setKey 0 keyA (text "1")) first rfl
  have ran : ∃ process : WriterProcess Nat,
      Machine.Arrives WriterProcess.step WriterProcess.Exclusive (.started createdDb) process ∧
      process.applied = [.bind keyA (text "1"), .bind keyB (text "5"), .bind keyA (text "2")] ∧
        createdDb.appended process.db = [(MapUpdate.bind keyB (text "5")).record,
          (MapUpdate.bind keyA (text "1")).record, (MapUpdate.bind keyA (text "2")).record] := by
    refine ⟨_, .next (.next (.next (.next (.next begun (setKey 1 keyB (text "5")) ?_ rfl)
      (.append 1 1) trivial rfl) (.append 0 2) trivial rfl) (setKey 1 keyA (text "2")) ?_ rfl)
      (.append 1 3) trivial rfl, rfl, rfl⟩
    · intro update made
      cases made
      refine ⟨by decide, ?_⟩
      intro thread other waits
      rcases pending_cases waits with ⟨_, ⟨⟩⟩ | ⟨_, before⟩
      · decide
      · cases before
    · intro update made
      cases made
      refine ⟨by decide, ?_⟩
      intro thread other waits
      rcases pending_cases waits with ⟨_, ⟨⟩⟩ | ⟨notZero, waits⟩
      rcases pending_cases waits with ⟨_, ⟨⟩⟩ | ⟨notOne, waits⟩
      rcases pending_cases waits with ⟨one, _⟩ | ⟨_, waits⟩
      · exact absurd one notOne
      · rcases pending_cases waits with ⟨zero, _⟩ | ⟨_, ⟨⟩⟩
        exact absurd zero notZero
  obtain ⟨process, reached, applied, log⟩ := ran
  exact ⟨process, applied, log, wal_ordered createdDb_opened reached⟩

/-- Two threads set a key and log it in the other order. -/
theorem wal_disordered :
    ∃ process : WriterProcess Nat,
      Machine.Arrives WriterProcess.step (fun _ _ => True) (.started createdDb) process ∧
        process.db.hashmap.lookup keyA = some (text "2") ∧
        (entriesFor keyA (createdDb.appended process.db)).getLast? =
          some (MapUpdate.bind keyA (text "1")).record ∧
        ¬ Ordered createdDb process := by
  have ran : Machine.follow WriterProcess.step (.started createdDb)
      [setKey 0 keyA (text "1"), setKey 1 keyA (text "2"), .append 1 1, .append 0 2] = some _ := rfl
  refine ⟨_, Machine.Arrives.start.follow (fun _ _ _ => trivial)
    ran, by decide +kernel, by decide +kernel, ?_⟩
  intro ordered
  exact absurd (ordered keyA).1 (by decide +kernel)

end Runs

end LinuxCLearning.KvDatabase
