import LinuxCLearning.KvDatabase.Persistence
import LinuxCLearning.KvDatabase.WalReplay

/-! What a call that fails leaves behind, and what happens to the file of a database that
is opened for reading only. -/

namespace LinuxCLearning.KvDatabase

/-- What a mutating call returns. -/
def Kvdb.status (db : Kvdb) : MutatingCall → KvdbErr
  | .set alloc now key value => (kvdbSet alloc now db key value).1
  | .delete now key => (kvdbDelete now db key).1
  | .clear now => (kvdbClear now db).1

/-- A call that may change the handle; `kvdb_get` counts hits and misses. -/
inductive Use where
  | mutate (call : MutatingCall)
  | get (key : Option CString) (value : Option Bytes)

def Kvdb.use (db : Kvdb) : Use → Kvdb
  | .mutate call => db.mutate call
  | .get key value => (kvdbGet db key value).2

/-- The databases that any calls lead to. -/
def Used (opened db : Kvdb) : Prop := Machine.Reachable Kvdb.use (fun _ _ => True) opened db

/-- The mapping, the count, the log and the time of the last change are as before. -/
structure Unchanged (before after : Kvdb) : Prop where
  bindings : after.hashmap.lookup = before.hashmap.lookup
  count : kvdbCount after = kvdbCount before
  log : after.walFile = before.walFile
  lastModified : after.lastModified = before.lastModified

section Calls
variable {db : Kvdb}

theorem refused_status : (-1 : Int) ≠ 0 := by decide

theorem kvdbSet_failed {alloc : Nat → Bool} {now : Nat} {key : Option CString}
    {value : Option Bytes} (failed : (kvdbSet alloc now db key value).1 ≠ .ok) :
      (kvdbSet alloc now db key value).2 = db := by
  cases key with
  | none => rfl
  | some key =>
    cases value with
    | none => rfl
    | some value =>
      by_cases allocates : db.hashmap.Allocates alloc key
      · simp only [kvdbSet, hashmapInsert_allocates value allocates, insert_status,
          ne_eq, not_true_eq_false,
          if_false] at failed ⊢
        split_ifs at failed ⊢
        · rfl
        · rfl
        · rfl
        · exact absurd rfl failed
      · simp only [kvdbSet, hashmapInsert_fails value allocates, if_pos refused_status]
        split_ifs <;> rfl

theorem kvdbDelete_failed {now : Nat} {key : Option CString}
    (failed : (kvdbDelete now db key).1 ≠ .ok) :
    (kvdbDelete now db key).2 = db := by
  cases key with
  | none => rfl
  | some key =>
    by_cases bound : (db.hashmap.lookup key).isSome
    · simp only [kvdbDelete, remove_status, if_pos bound, ne_eq, not_true_eq_false,
        if_false] at failed ⊢
      split_ifs at failed ⊢
      · rfl
      · rfl
      · exact absurd rfl failed
    · simp only [kvdbDelete, hashmapRemove_unbound bound, if_pos refused_status]
      split_ifs <;> rfl

theorem kvdbClear_failed {now : Nat} (failed : (kvdbClear now db).1 ≠ .ok) :
    (kvdbClear now db).2 = db := by
  unfold kvdbClear at failed ⊢
  split_ifs at failed ⊢
  · rfl
  · exact absurd rfl failed

theorem mutate_failed {call : MutatingCall} (failed : db.status call ≠ .ok) :
    db.mutate call = db := by
  cases call with
  | set alloc now key value => exact kvdbSet_failed failed
  | delete now key => exact kvdbDelete_failed failed
  | clear now => exact kvdbClear_failed failed

theorem Unchanged.refl (db : Kvdb) : Unchanged db db := ⟨rfl, rfl, rfl, rfl⟩

/-- No call succeeds on a database that is opened for reading only. -/
theorem readonly_fails (readonly : db.config.mode = .readonly) (call : MutatingCall) :
    db.status call ≠ .ok := by
  cases call with
  | set alloc now key value =>
    cases key with
    | none => exact KvdbErr.noConfusion
    | some key =>
      cases value with
      | none => exact KvdbErr.noConfusion
      | some value =>
        simp only [Kvdb.status, kvdbSet, if_pos readonly]
        split_ifs <;> exact KvdbErr.noConfusion
  | delete now key =>
    cases key with
    | none => exact KvdbErr.noConfusion
    | some key =>
      simp only [Kvdb.status, kvdbDelete, if_pos readonly]
      split_ifs <;> exact KvdbErr.noConfusion
  | clear now =>
    rw [Kvdb.status, kvdbClear, if_pos readonly]
    exact KvdbErr.noConfusion

theorem kvdbGet_config (key : Option CString) (value : Option Bytes) :
    (kvdbGet db key value).2.config = db.config := by
  cases key with
  | none => rfl
  | some key =>
    cases value with
    | none => rfl
    | some value =>
      simp only [kvdbGet]
      split
      · rfl
      · split <;> rfl

/-- Every call keeps a database that is opened for reading only as it is, its counters apart. -/
theorem Used.readonly {opened : Kvdb} (used : Used opened db)
    (readonly : opened.config.mode = .readonly) :
    db.config.mode = .readonly := by
  unfold Used at used
  apply used.keeps readonly
  intro db use readonly _
  cases use with
  | mutate call =>
    rw [Kvdb.use, mutate_failed (readonly_fails readonly call)]
    exact readonly
  | get key value => exact (congrArg KvdbConfig.mode (kvdbGet_config key value)).trans readonly

end Calls

section File
variable {alloc : Nat → Bool} {now : Nat} {disk after : Disk} {mode : KvdbMode}
  {enableWal : Bool} {db : Kvdb}

theorem kvdbOpen_mode (opened : kvdbOpen alloc now disk ⟨mode, enableWal⟩ = (some db, after)) :
    db.config.mode = mode := by
  unfold kvdbOpen at opened
  split at opened
  · cases mode with
    | readwrite | readonly | create =>
      dsimp only at opened
      split at opened
      · cases opened
      · cases opened
        rfl
  · cases opened

/-- A file that cannot be opened for reading cannot be truncated by the second call either. -/
theorem kvdbOpen_readonly_data
    (opened : kvdbOpen alloc now disk ⟨.readonly, enableWal⟩ = (some db, after)) {content : Bytes}
    (existing : disk.data = some content) : after.data = some content := by
  unfold kvdbOpen at opened
  split at opened
  · cases readable : disk.readable with
    | true =>
      simp only [fopen, existing, readable, Option.isSome_some, Bool.and_self, if_true,
        Option.some_or] at opened
      cases opened
      exact existing
    | false =>
      simp [fopen, existing, readable] at opened
  · cases opened

theorem kvdbClose_readonly {final : Kvdb} (readonly : final.config.mode = .readonly) (disk : Disk) :
    (kvdbClose final disk).data = disk.data := by
  simp [kvdbClose, readonly]

end File

end LinuxCLearning.KvDatabase
