import LinuxCLearning.KvDatabase.Refinement

/-! The write-ahead log against the table. An update of the table and the log entry for it
are compared by what each does to the bindings. -/

namespace LinuxCLearning.KvDatabase

/-- What the keys are bound to. -/
abbrev Bindings := CString → Option Bytes

/-- A change of the table. -/
inductive MapUpdate where
  | bind (key : CString) (value : Bytes)
  | unbind (key : CString)
  deriving DecidableEq

namespace MapUpdate

def key : MapUpdate → CString
  | bind key _ => key
  | unbind key => key

/-- The value that the update leaves its key with. -/
def value : MapUpdate → Option Bytes
  | bind _ value => some value
  | unbind _ => none

def on (update : MapUpdate) (bindings : Bindings) : Bindings :=
  Function.update bindings update.key update.value

/-- The log entry for the update. -/
def record : MapUpdate → WalRecord
  | bind key value => ⟨.set, 0, key.bytes.take (maxKeySize - 1), value.length, value⟩
  | unbind key => ⟨.delete, 0, key.bytes.take (maxKeySize - 1), 0, []⟩

end MapUpdate

/-- What a log entry says about the bindings. -/
def WalRecord.on (bindings : Bindings) (record : WalRecord) : Bindings :=
  match record.op with
  | .set =>
    Function.update bindings (CString.ofBuffer record.key)
      (some (record.value.take record.valueSize))
  | .delete => Function.update bindings (CString.ofBuffer record.key) none
  | .commit | .rollback => bindings

/-- The entries of a log, in the order of the file. -/
def replay (bindings : Bindings) (log : List WalRecord) : Bindings :=
  log.foldl WalRecord.on bindings

/-- A call that changes the database; a key or a value may be a null pointer. -/
inductive MutatingCall where
  | set (alloc : Nat → Bool) (now : Nat) (key : Option CString) (value : Option Bytes)
  | delete (now : Nat) (key : Option CString)
  | clear (now : Nat)

def Kvdb.mutate (db : Kvdb) : MutatingCall → Kvdb
  | .set alloc now key value => (kvdbSet alloc now db key value).2
  | .delete now key => (kvdbDelete now db key).2
  | .clear now => (kvdbClear now db).2

/-- The entries that have been appended since the database was opened. -/
def Kvdb.appended (opened db : Kvdb) : List WalRecord :=
  (db.walFile.getD []).drop (opened.walFile.getD []).length

/-- `hashmap_insert` gets the memory that it asks for. -/
def Hashmap.Allocates (map : Hashmap) (alloc : Nat → Bool) (key : CString) : Prop :=
  alloc 0 = true ∧ ((map.lookup key).isSome ∨ alloc 1 = true ∧ alloc 2 = true)

instance (map : Hashmap) (alloc : Nat → Bool) (key : CString) :
    Decidable (map.Allocates alloc key) :=
  inferInstanceAs (Decidable (_ ∧ _))

/-- The change that `kvdb_set` makes, if it makes one. -/
def Kvdb.setUpdate (db : Kvdb) (alloc : Nat → Bool) (key : Option CString) (value : Option Bytes) :
    Option MapUpdate :=
  match key, value with
  | some key, some value =>
    if key.length ≤ maxKeySize ∧ value.length ≤ maxValueSize ∧ db.config.mode ≠ .readonly ∧
        db.hashmap.Allocates alloc key then
      some (.bind key value)
    else none
  | _, _ => none

/-- The change that `kvdb_delete` makes, if it makes one. -/
def Kvdb.deleteUpdate (db : Kvdb) (key : Option CString) : Option MapUpdate :=
  match key with
  | some key =>
    if key.length ≤ maxKeySize ∧ db.config.mode ≠ .readonly ∧ (db.hashmap.lookup key).isSome then
      some (.unbind key)
    else none
  | none => none

/-- The key that the log entry for a key has. -/
def recordedKey (key : CString) : CString := CString.ofBuffer (key.bytes.take (maxKeySize - 1))

/-- The log entry for an update tells the update. Without a log the update must change
nothing; a key without its last byte is another one, so that both must have the value
before. -/
def MapUpdate.Logged (db : Kvdb) (update : MapUpdate) : Prop :=
  if db.walFile.isSome then
    update.key.length < maxKeySize ∨
      db.hashmap.lookup update.key = update.value ∧
        db.hashmap.lookup (recordedKey update.key) = update.value
  else db.hashmap.lookup update.key = update.value

/-- What a call does is in the log: its update is, and it does not clear any binding. -/
def MutatingCall.Recorded (db : Kvdb) : MutatingCall → Prop
  | .set alloc _ key value =>
    ∀ update, db.setUpdate alloc key value = some update → update.Logged db
  | .delete _ key => ∀ update, db.deleteUpdate key = some update → update.Logged db
  | .clear _ => db.config.mode = .readonly ∨ ∀ key, db.hashmap.lookup key = none

/-- So it is for every call of a run. -/
def RecordedRun : Kvdb → List MutatingCall → Prop
  | _, [] => True
  | db, call :: calls => call.Recorded db ∧ RecordedRun (db.mutate call) calls

/-- The appended entries turn the bindings loaded into the present ones. -/
def Kvdb.Replays (opened db : Kvdb) : Prop :=
  replay opened.hashmap.lookup (opened.appended db) = db.hashmap.lookup

/-- `kvdb_set` up to the end of its lock: the update made, if any, and the database. -/
def Kvdb.lockedSet (db : Kvdb) (alloc : Nat → Bool) (key : Option CString) (value : Option Bytes) :
    Option MapUpdate × Kvdb :=
  match key, value with
  | some key, some value =>
    if key.length > maxKeySize then (none, db)
    else if value.length > maxValueSize then (none, db)
    else if db.config.mode = .readonly then (none, db)
    else
      let (result, hashmap) := hashmapInsert alloc db.hashmap key value
      if result ≠ 0 then (none, { db with hashmap })
      else (some (.bind key value), { db with hashmap })
  | _, _ => (none, db)

/-- `kvdb_delete` up to the end of its lock. -/
def Kvdb.lockedDelete (db : Kvdb) (key : Option CString) : Option MapUpdate × Kvdb :=
  match key with
  | some key =>
    if key.length > maxKeySize then (none, db)
    else if db.config.mode = .readonly then (none, db)
    else
      let (result, hashmap) := hashmapRemove db.hashmap key
      if result ≠ 0 then (none, { db with hashmap }) else (some (.unbind key), { db with hashmap })
  | none => (none, db)

/-- What follows the lock: the log entry and the counters. -/
def Kvdb.logUpdate (db : Kvdb) (now : Nat) (update : MapUpdate) : Kvdb :=
  let db :=
    match update with
    | .bind key value => db.appendWal .set key value
    | .unbind key => db.appendWal .delete key []
  { db with lastModified := now, writeOps := db.writeOps + 1 }

/-- The part under the lock has made a change, if any. -/
structure Locked (before : Kvdb) (update : Option MapUpdate) (after : Kvdb) : Prop where
  valid : after.hashmap.Valid
  bindings : after.hashmap.lookup = update.elim before.hashmap.lookup (·.on before.hashmap.lookup)
  log : after.walFile = before.walFile

/-- A call has made a change, if any, and appended the entry for it to an open log. -/
structure Updated (before : Kvdb) (update : Option MapUpdate) (after : Kvdb) : Prop where
  valid : after.hashmap.Valid
  bindings : after.hashmap.lookup = update.elim before.hashmap.lookup (·.on before.hashmap.lookup)
  log : after.walFile = before.walFile.map (· ++ (update.map MapUpdate.record).toList)

section Calls

theorem hashmapInsert_allocates {map : Hashmap} {alloc : Nat → Bool} {key : CString} (value : Bytes)
    (allocates : map.Allocates alloc key) :
    hashmapInsert alloc map key value = hashmapInsert (fun _ => true) map key value := by
  obtain ⟨first, others⟩ := allocates
  unfold hashmapInsert
  unfold Hashmap.lookup at others
  cases found : hashmapFind map key with
  | some node => simp [first]
  | none =>
    rw [found] at others
    simp only [Option.map_none, Option.isSome_none, Bool.false_eq_true, false_or] at others
    simp [first, others]

theorem hashmapInsert_fails {map : Hashmap} {alloc : Nat → Bool} {key : CString} (value : Bytes)
    (fails : ¬ map.Allocates alloc key) : hashmapInsert alloc map key value = (-1, map) := by
  unfold Hashmap.Allocates Hashmap.lookup at fails
  unfold hashmapInsert
  cases found : hashmapFind map key with
  | some node =>
    rw [found] at fails
    have first : alloc 0 = false := by simpa using fails
    simp [first]
  | none =>
    rw [found] at fails
    dsimp only
    rw [if_neg]
    intro all
    simp only [Bool.and_eq_true] at all
    exact fails ⟨all.1.1, Or.inr ⟨all.1.2, all.2⟩⟩

theorem hashmapRemove_unbound {map : Hashmap} {key : CString}
    (unbound : ¬ (map.lookup key).isSome) :
    hashmapRemove map key = (-1, map) := by
  unfold hashmapRemove
  split
  · rename_i node found
    rw [Hashmap.lookup, found] at unbound
    exact absurd rfl unbound
  · rfl

theorem append_no_entries (log : Option (List WalRecord)) : log = log.map (· ++ []) := by
  cases log with
  | none => rfl
  | some log => exact congrArg some (List.append_nil log).symm

theorem Locked.none {db : Kvdb} (valid : db.hashmap.Valid) : Locked db none db := ⟨valid, rfl, rfl⟩

theorem lockedSet_spec {db : Kvdb} (valid : db.hashmap.Valid) (alloc : Nat → Bool)
    (key : Option CString) (value : Option Bytes) :
    (db.lockedSet alloc key value).1 = db.setUpdate alloc key value ∧
      Locked db (db.setUpdate alloc key value) (db.lockedSet alloc key value).2 := by
  cases key with
  | none => exact ⟨rfl, .none valid⟩
  | some key =>
    cases value with
    | none => exact ⟨rfl, .none valid⟩
    | some value =>
      simp only [Kvdb.lockedSet]
      by_cases short : key.length ≤ maxKeySize
      · by_cases small : value.length ≤ maxValueSize
        · by_cases readonly : db.config.mode = .readonly
          · rw [if_neg (not_lt.mpr short), if_neg (not_lt.mpr small),
              if_pos readonly, Kvdb.setUpdate,
              if_neg (fun all => all.2.2.1 readonly)]
            exact ⟨rfl, .none valid⟩
          · rw [if_neg (not_lt.mpr short), if_neg (not_lt.mpr small),
              if_neg readonly, Kvdb.setUpdate]
            by_cases allocates : db.hashmap.Allocates alloc key
            · rw [hashmapInsert_allocates value allocates,
                if_neg (not_not.mpr (insert_status db.hashmap key value)),
                if_pos ⟨short, small, readonly, allocates⟩]
              refine ⟨rfl, valid.insert _ key value, ?_, rfl⟩
              funext other
              exact (lookup_insert db.hashmap key other value).trans
                (Function.update_apply _ _ _ _).symm
            · rw [hashmapInsert_fails value allocates, if_pos (show (-1 : Int) ≠ 0 by decide),
                if_neg (fun all => allocates all.2.2.2)]
              exact ⟨rfl, .none valid⟩
        · rw [if_neg (not_lt.mpr short), if_pos (not_le.mp small), Kvdb.setUpdate,
            if_neg (fun all => small all.2.1)]
          exact ⟨rfl, .none valid⟩
      · rw [if_pos (not_le.mp short), Kvdb.setUpdate, if_neg (fun all => short all.1)]
        exact ⟨rfl, .none valid⟩

theorem lockedDelete_spec {db : Kvdb} (valid : db.hashmap.Valid) (key : Option CString) :
    (db.lockedDelete key).1 = db.deleteUpdate key ∧
      Locked db (db.deleteUpdate key) (db.lockedDelete key).2 := by
  cases key with
  | none => exact ⟨rfl, .none valid⟩
  | some key =>
    simp only [Kvdb.lockedDelete]
    by_cases short : key.length ≤ maxKeySize
    · by_cases readonly : db.config.mode = .readonly
      · rw [if_neg (not_lt.mpr short), if_pos readonly, Kvdb.deleteUpdate,
          if_neg (fun all => all.2.1 readonly)]
        exact ⟨rfl, .none valid⟩
      · rw [if_neg (not_lt.mpr short), if_neg readonly, Kvdb.deleteUpdate]
        by_cases bound : (db.hashmap.lookup key).isSome
        · rw [remove_status, if_pos bound, if_neg (by decide), if_pos ⟨short, readonly, bound⟩]
          refine ⟨rfl, valid.remove key, ?_, rfl⟩
          funext other
          exact (lookup_remove valid key other).trans (Function.update_apply _ _ _ _).symm
        · rw [hashmapRemove_unbound bound, if_pos (show (-1 : Int) ≠ 0 by decide),
            if_neg (fun all => bound all.2.2)]
          exact ⟨rfl, .none valid⟩
    · rw [if_pos (not_le.mp short), Kvdb.deleteUpdate, if_neg (fun all => short all.1)]
      exact ⟨rfl, .none valid⟩

/-- `kvdb_set` is its part under the lock and then the log entry. -/
theorem kvdbSet_locked (alloc : Nat → Bool) (now : Nat) (db : Kvdb) (key : Option CString)
    (value : Option Bytes) :
    (kvdbSet alloc now db key value).2 =
      (db.lockedSet alloc key value).1.elim (db.lockedSet alloc key value).2
        ((db.lockedSet alloc key value).2.logUpdate now) := by
  cases key with
  | none => rfl
  | some key =>
    cases value with
    | none => rfl
    | some value =>
      simp only [kvdbSet, Kvdb.lockedSet]
      split_ifs <;> rfl

theorem kvdbDelete_locked (now : Nat) (db : Kvdb) (key : Option CString) :
    (kvdbDelete now db key).2 =
      (db.lockedDelete key).1.elim (db.lockedDelete key).2
        ((db.lockedDelete key).2.logUpdate now) := by
  cases key with
  | none => rfl
  | some key =>
    simp only [kvdbDelete, Kvdb.lockedDelete]
    split_ifs <;> rfl

theorem logUpdate_log (db : Kvdb) (now : Nat) (update : MapUpdate) :
    (db.logUpdate now update).walFile = db.walFile.map (· ++ [update.record]) := by
  cases update with
  | bind key value => rfl
  | unbind key => rfl

theorem logUpdate_hashmap (db : Kvdb) (now : Nat) (update : MapUpdate) :
    (db.logUpdate now update).hashmap = db.hashmap := by
  cases update with
  | bind key value => rfl
  | unbind key => rfl

theorem Locked.updated {db after : Kvdb} {update : Option MapUpdate}
    (locked : Locked db update after) (now : Nat) :
    Updated db update (update.elim after (after.logUpdate now)) := by
  cases update with
  | none =>
    exact ⟨locked.valid, locked.bindings, locked.log.trans (append_no_entries db.walFile)⟩
  | some update =>
    rw [Option.elim_some]
    refine ⟨?_, ?_, ?_⟩
    · rw [logUpdate_hashmap]
      exact locked.valid
    · rw [logUpdate_hashmap]
      exact locked.bindings
    · rw [logUpdate_log, locked.log]
      rfl

theorem kvdbSet_updated {db : Kvdb} (valid : db.hashmap.Valid) (alloc : Nat → Bool) (now : Nat)
    (key : Option CString) (value : Option Bytes) :
    Updated db (db.setUpdate alloc key value) (kvdbSet alloc now db key value).2 := by
  obtain ⟨made, locked⟩ := lockedSet_spec valid alloc key value
  rw [kvdbSet_locked, made]
  exact locked.updated now

theorem kvdbDelete_updated {db : Kvdb} (valid : db.hashmap.Valid) (now : Nat)
    (key : Option CString) :
    Updated db (db.deleteUpdate key) (kvdbDelete now db key).2 := by
  obtain ⟨made, locked⟩ := lockedDelete_spec valid key
  rw [kvdbDelete_locked, made]
  exact locked.updated now

theorem kvdbClear_lookup {db : Kvdb} (writable : db.config.mode ≠ .readonly) (now : Nat) :
    (kvdbClear now db).2.hashmap.Valid ∧ (kvdbClear now db).2.walFile = db.walFile ∧
      (kvdbClear now db).2.hashmap.lookup = fun _ => none := by
  rw [kvdbClear, if_neg writable]
  exact ⟨Hashmap.Valid.create db.hashmap.capacity db.hashmap.positive, rfl, rfl⟩

end Calls

section Replay

theorem record_on (update : MapUpdate) (bindings : Bindings) :
    WalRecord.on bindings update.record = Function.update bindings
      (recordedKey update.key) update.value := by
  cases update with
  | bind key value =>
    change Function.update bindings (recordedKey key) (some (value.take value.length)) = _
    rw [List.take_length]
    rfl
  | unbind key => rfl

theorem recordedKey_eq {key : CString} : recordedKey key = key ↔ key.length < maxKeySize := by
  have positive : 0 < maxKeySize := by decide
  constructor
  · intro same
    have lengths := congrArg CString.length same
    have shorter : (recordedKey key).length ≤ maxKeySize - 1 :=
      ((List.takeWhile_prefix _).length_le).trans (List.length_take_le _ _)
    omega
  · intro short
    rw [recordedKey, List.take_of_length_le (Nat.le_sub_one_of_lt short), CString.ofBuffer_bytes]

/-- The same value for two keys is the same change if the keys are equal or have it. -/
theorem update_eq_update_iff {bindings : Bindings} {first second : CString} {value : Option Bytes} :
    Function.update bindings first value = Function.update bindings second value ↔
      first = second ∨ bindings second = value ∧ bindings first = value := by
  constructor
  · intro same
    by_cases keys : first = second
    · exact Or.inl keys
    · have atFirst := congrFun same first
      have atSecond := congrFun same second
      rw [Function.update_self, Function.update_of_ne keys] at atFirst
      rw [Function.update_self, Function.update_of_ne (Ne.symm keys)] at atSecond
      exact Or.inr ⟨atSecond, atFirst.symm⟩
  · intro either
    rcases either with keys | ⟨second_bound, first_bound⟩
    · rw [keys]
    · rw [Function.update_eq_self_iff.mpr first_bound.symm,
        Function.update_eq_self_iff.mpr second_bound.symm]

/-- What a run keeps: the table is valid, and the log has only grown. -/
structure Follows (opened db : Kvdb) : Prop where
  valid : db.hashmap.Valid
  grown : ∃ entries, db.walFile = opened.walFile.map (· ++ entries)

variable {opened db after : Kvdb}

theorem Follows.appended (follows : Follows opened db) {entries : List WalRecord}
    (log : after.walFile = db.walFile.map (· ++ entries)) :
    opened.appended after = opened.appended db ++ if db.walFile.isSome then entries else [] := by
  obtain ⟨earlier, grown⟩ := follows.grown
  unfold Kvdb.appended
  rw [log, grown]
  cases opened.walFile with
  | none => rfl
  | some start => simp

/-- One change: the log tells the new bindings exactly if its entry tells the change. -/
theorem Kvdb.Replays.updated (replays : opened.Replays db) (follows : Follows opened db)
    {update : Option MapUpdate} (updated : Updated db update after) :
    opened.Replays after ↔ ∀ change, update = some change → change.Logged db := by
  unfold Kvdb.Replays
  rw [follows.appended updated.log, updated.bindings, replay, List.foldl_append]
  change List.foldl WalRecord.on (replay opened.hashmap.lookup (opened.appended db)) _ = _ ↔ _
  rw [replays]
  cases update with
  | none => simp
  | some change =>
    simp only [Option.some.injEq, forall_eq', MapUpdate.Logged, Option.elim_some, Option.map_some,
      Option.toList_some]
    cases db.walFile with
    | none =>
      simp only [Option.isSome_none, Bool.false_eq_true, if_false, List.foldl_nil, MapUpdate.on]
      rw [eq_comm, Function.update_eq_self_iff, eq_comm]
    | some log =>
      simp only [Option.isSome_some, if_true, List.foldl_cons, List.foldl_nil,
        record_on, MapUpdate.on]
      rw [update_eq_update_iff, recordedKey_eq]

theorem Follows.self {db : Kvdb} (valid : db.hashmap.Valid) : Follows db db :=
  ⟨valid, [], append_no_entries db.walFile⟩

theorem Follows.locked (follows : Follows opened db) {update : Option MapUpdate}
    (locked : Locked db update after) : Follows opened after :=
  ⟨locked.valid, follows.grown.imp fun _ grown => locked.log.trans grown⟩

theorem Follows.grow (follows : Follows opened db) (valid : after.hashmap.Valid)
    {entries : List WalRecord}
    (log : after.walFile = db.walFile.map (· ++ entries)) : Follows opened after := by
  obtain ⟨earlier, grown⟩ := follows.grown
  refine ⟨valid, earlier ++ entries, ?_⟩
  rw [log, grown, Option.map_map]
  congr 1
  funext start
  exact List.append_assoc _ _ _

theorem Follows.logged (follows : Follows opened db) (now : Nat) (update : MapUpdate) :
    Follows opened (db.logUpdate now update) := by
  refine follows.grow ?_ (logUpdate_log db now update)
  rw [logUpdate_hashmap]
  exact follows.valid

theorem Follows.updated (follows : Follows opened db) {update : Option MapUpdate}
    (updated : Updated db update after) : Follows opened after :=
  follows.grow updated.valid updated.log

theorem Kvdb.Replays.mutate (replays : opened.Replays db) (follows : Follows opened db)
    (call : MutatingCall) :
    Follows opened (db.mutate call) ∧ (opened.Replays (db.mutate call) ↔ call.Recorded db) := by
  cases call with
  | set alloc now key value =>
    have updated := kvdbSet_updated follows.valid alloc now key value
    exact ⟨follows.updated updated, replays.updated follows updated⟩
  | delete now key =>
    have updated := kvdbDelete_updated follows.valid now key
    exact ⟨follows.updated updated, replays.updated follows updated⟩
  | clear now =>
    by_cases readonly : db.config.mode = .readonly
    · have unchanged : db.mutate (.clear now) = db := by
        rw [Kvdb.mutate, kvdbClear, if_pos readonly]
      rw [unchanged]
      exact ⟨follows, iff_of_true replays (Or.inl readonly)⟩
    · obtain ⟨valid, log, bindings⟩ := kvdbClear_lookup readonly now
      refine ⟨⟨valid, follows.grown.imp fun _ grown => log.trans grown⟩, ?_⟩
      rw [Kvdb.Replays, Kvdb.mutate, bindings, Kvdb.appended, log]
      change replay opened.hashmap.lookup (opened.appended db) = _ ↔ _
      rw [replays, funext_iff, MutatingCall.Recorded, or_iff_right readonly]

theorem Kvdb.Replays.run (replays : opened.Replays db) (follows : Follows opened db)
    (calls : List MutatingCall) :
    (∀ count, opened.Replays ((calls.take count).foldl Kvdb.mutate db)) ↔ RecordedRun db calls := by
  induction calls generalizing db with
  | nil => simpa [RecordedRun] using replays
  | cons call calls ih =>
    obtain ⟨further, recorded⟩ := replays.mutate follows call
    rw [RecordedRun, ← recorded]
    constructor
    · intro always
      have next : opened.Replays (db.mutate call) := always 1
      exact ⟨next, (ih next further).mp fun count => always (count + 1)⟩
    · intro ⟨next, rest⟩ count
      cases count with
      | zero => exact replays
      | succ count => exact (ih next further).mpr rest count

end Replay

theorem loadLoop_valid (alloc : Nat → Bool) (round : Nat) {map : Hashmap}
    (valid : map.Valid) (input : Bytes) :
    (loadLoop alloc round map input).Valid := by
  fun_induction loadLoop alloc round map input with
  | case1 => exact valid
  | case2 round map input node rest read memory ih => exact ih (valid.insert _ node.key node.value)
  | case3 => exact valid

theorem kvdbOpen_valid {alloc : Nat → Bool} {now : Nat} {disk after : Disk}
    {config : KvdbConfig} {db : Kvdb}
    (opened : kvdbOpen alloc now disk config = (some db, after)) : db.hashmap.Valid := by
  have empty := Hashmap.Valid.create defaultCapacity (by decide)
  simp only [kvdbOpen] at opened
  split at opened
  · split at opened
    · cases opened
    · cases opened
      dsimp only
      split
      · exact empty
      · exact loadLoop_valid _ 0 empty _
  · cases opened

/-- In every state of a run the appended log entries turn the bindings loaded into the
present ones exactly if what each call does is in the log. -/
theorem wal_replays_iff {alloc : Nat → Bool} {now : Nat} {disk after : Disk}
    {mode : KvdbMode} {db : Kvdb}
    (opened : kvdbOpen alloc now disk ⟨mode, true⟩ = (some db, after)) (calls : List MutatingCall) :
    (∀ count, db.Replays ((calls.take count).foldl Kvdb.mutate db)) ↔ RecordedRun db calls := by
  have nothing : db.appended db = [] := List.drop_length
  have replays : db.Replays db := by
    rw [Kvdb.Replays, nothing]
    rfl
  exact replays.run (.self (kvdbOpen_valid opened)) calls

section Runs

theorem defaultCapacity_positive : 0 < defaultCapacity := by decide

/-- A database that has just been created with an empty log. -/
def createdDb : Kvdb :=
  ⟨⟨.create, true⟩, hashmapCreate defaultCapacity defaultCapacity_positive,
    some [], 0, 0, 0, 0, 0, 0⟩

theorem createdDb_opened :
    kvdbOpen (fun _ => true) 0 ⟨none, [], true, true, true⟩ ⟨.create, true⟩ =
      (some createdDb, ⟨some [], [], true, true, true⟩) := rfl

def keyA : CString := ⟨text "a", by decide⟩

def setA : MutatingCall := .set (fun _ => true) 1 (some keyA) (some (text "1"))

/-- A run with one key. -/
theorem wal_replays_iff_set : createdDb.Replays (createdDb.mutate setA) := by
  apply (wal_replays_iff createdDb_opened [setA]).mpr ?_ 1
  refine ⟨?_, trivial⟩
  intro update isUpdate
  cases isUpdate
  exact Or.inl (by decide)

/-- A key set before `kvdb_clear` is bound again by the log. -/
theorem cleared_key_replayed :
    ¬ createdDb.Replays ([setA, .clear 2].foldl Kvdb.mutate createdDb) := by
  intro replays
  have replayed := congrFun replays keyA
  have bound : replay createdDb.hashmap.lookup
      (createdDb.appended ([setA, .clear 2].foldl Kvdb.mutate createdDb)) keyA =
        some (text "1") := by
    decide +kernel
  rw [bound] at replayed
  cases replayed

end Runs

end LinuxCLearning.KvDatabase
