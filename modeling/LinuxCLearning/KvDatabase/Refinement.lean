import LinuxCLearning.Base.Machine
import LinuxCLearning.KvDatabase.Database
import LinuxCLearning.KvDatabase.HashmapInvariant

/-! What the database is for: a finite map from bounded keys to bounded values.
The hash table answers every sequence of calls as this map does. -/

namespace LinuxCLearning.KvDatabase

abbrev Key := { key : CString // key.length ≤ maxKeySize }
abbrev Value := { value : Bytes // value.length ≤ maxValueSize }
abbrev KeyValueMap := Finmap (fun _ : Key => Value)

/-- One call of the API with its arguments. `now` is the clock the call reads. -/
inductive Call where
  | set (now : Nat) (key : CString) (value : Bytes)
  | get (key : CString) (buffer : Bytes)
  | delete (now : Nat) (key : CString)
  | contains (key : CString)
  | clear (now : Nat)
  | count
  deriving DecidableEq

inductive Reply where
  | status (err : KvdbErr)
  | fetched (result : GetResult)
  | present (answer : Bool)
  | size (count : Nat)
  deriving DecidableEq

/-- The database's answer, with every allocation succeeding. -/
def Kvdb.call (db : Kvdb) : Call → Reply × Kvdb
  | .set now key value =>
    let (err, db) := kvdbSet (fun _ => true) now db (some key) (some value)
    (.status err, db)
  | .get key buffer =>
    let (result, db) := kvdbGet db (some key) (some buffer)
    (.fetched result, db)
  | .delete now key =>
    let (err, db) := kvdbDelete now db (some key)
    (.status err, db)
  | .contains key => (.present (kvdbExists db (some key)), db)
  | .clear now =>
    let (err, db) := kvdbClear now db
    (.status err, db)
  | .count => (.size (kvdbCount db), db)

/-- The value bound to a key of any length; longer keys are never bound. -/
def boundValue (map : KeyValueMap) (key : CString) : Option Value :=
  if short : key.length ≤ maxKeySize then map.lookup ⟨key, short⟩ else none

/-- The status of a call that needs a binding and finds none. -/
def missingStatus (key : CString) : KvdbErr :=
  if key.length ≤ maxKeySize then .notFound else .keyTooLong

/-- The abstract map's answer to the same call. -/
def answer (map : KeyValueMap) : Call → Reply × KeyValueMap
  | .set _ key value =>
    if short : key.length ≤ maxKeySize then
      if small : value.length ≤ maxValueSize then
        (.status .ok, map.insert ⟨key, short⟩ ⟨value, small⟩)
      else (.status .valueTooLong, map)
    else (.status .keyTooLong, map)
  | .get key buffer =>
    match boundValue map key with
    | some value =>
      let delivered := min buffer.length value.1.length
      (.fetched ⟨.ok, value.1.take delivered ++ buffer.drop delivered, some value.1.length⟩, map)
    | none => (.fetched ⟨missingStatus key, buffer, none⟩, map)
  | .delete _ key =>
    if short : key.length ≤ maxKeySize then
      if (map.lookup ⟨key, short⟩).isSome then (.status .ok, map.erase ⟨key, short⟩)
      else (.status .notFound, map)
    else (.status .keyTooLong, map)
  | .contains key => (.present (boundValue map key).isSome, map)
  | .clear _ => (.status .ok, ∅)
  | .count => (.size map.keys.card, map)

/-- The database represents the map: same bindings, same count. -/
structure Represents (db : Kvdb) (map : KeyValueMap) : Prop where
  writable : db.config.mode ≠ .readonly
  valid : db.hashmap.Valid
  bindings : ∀ key, db.hashmap.lookup key = (boundValue map key).map Subtype.val
  counted : db.hashmap.size = map.keys.card

section Finmap
variable {map : KeyValueMap} {key : Key} {value : Value}

theorem boundValue_key (map : KeyValueMap) (key : Key) : boundValue map key.1 = map.lookup key := by
  simp [boundValue, key.2]

theorem boundValue_insert (other : CString) :
    boundValue (map.insert key value) other =
      if other = key.1 then some value else boundValue map other := by
  unfold boundValue
  by_cases same : other = key.1
  · subst other
    simp [key.2, Finmap.lookup_insert]
  · rw [if_neg same]
    split
    · rename_i short
      have different : (⟨other, short⟩ : Key) ≠ key :=
        fun equal => same (congrArg Subtype.val equal)
      simp [Finmap.lookup_insert_of_ne map different]
    · simp

theorem boundValue_erase (other : CString) :
    boundValue (map.erase key) other = if other = key.1 then none else boundValue map other := by
  unfold boundValue
  by_cases same : other = key.1
  · subst other
    simp [key.2, Finmap.lookup_erase]
  · rw [if_neg same]
    split
    · rename_i short
      have different : (⟨other, short⟩ : Key) ≠ key :=
        fun equal => same (congrArg Subtype.val equal)
      simp [Finmap.lookup_erase_ne different]
    · simp

theorem card_keys_insert :
    (map.insert key value).keys.card =
      if (map.lookup key).isSome then map.keys.card else map.keys.card + 1 := by
  have keys : (map.insert key value).keys = Insert.insert key map.keys := by
    ext other
    simp [Finmap.mem_keys, Finmap.mem_insert]
  rw [keys]
  split
  · rename_i bound
    have member : key ∈ map.keys := Finmap.mem_keys.mpr (Finmap.lookup_isSome.mp bound)
    rw [Finset.insert_eq_of_mem member]
  · rename_i unbound
    have missing : key ∉ map.keys := fun member =>
      unbound (Finmap.lookup_isSome.mpr (Finmap.mem_keys.mp member))
    rw [Finset.card_insert_of_notMem missing]

theorem card_keys_erase (bound : (map.lookup key).isSome) :
    (map.erase key).keys.card = map.keys.card - 1 := by
  have member : key ∈ map.keys := Finmap.mem_keys.mpr (Finmap.lookup_isSome.mp bound)
  rw [Finmap.keys_erase, Finset.card_erase_of_mem member]

end Finmap

namespace Represents
variable {db : Kvdb} {map : KeyValueMap}

theorem found (represents : Represents db map) (key : Key) :
    db.hashmap.lookup key.1 = (map.lookup key).map Subtype.val := by
  rw [represents.bindings, boundValue_key]

theorem set (represents : Represents db map) (now : Nat) (key : CString) (value : Bytes) :
    (db.call (.set now key value)).1 = (answer map (.set now key value)).1 ∧
      Represents (db.call (.set now key value)).2 (answer map (.set now key value)).2 := by
  by_cases short : key.length ≤ maxKeySize
  · by_cases small : value.length ≤ maxValueSize
    · have status := insert_status db.hashmap key value
      have unreadonly := represents.writable
      simp only [Kvdb.call, kvdbSet, answer, Nat.not_lt.mpr short, Nat.not_lt.mpr small, unreadonly,
        short, small, status, ne_eq, not_true_eq_false, ↓reduceIte, ↓reduceDIte, true_and]
      refine ⟨represents.writable, represents.valid.insert _ key value, ?_, ?_⟩
      · intro other
        have after := lookup_insert db.hashmap key other value
        simp only [Kvdb.appendWal]
        rw [after, boundValue_insert, represents.bindings]
        split <;> rfl
      · have after := insert_size db.hashmap key value
        simp only [Kvdb.appendWal]
        rw [after, card_keys_insert, represents.found ⟨key, short⟩, represents.counted]
        simp
    · simp only [Kvdb.call, kvdbSet, answer, Nat.not_lt.mpr short,
        Nat.not_le.mp small, short, small,
        ↓reduceIte, ↓reduceDIte]
      exact ⟨trivial, represents⟩
  · simp only [Kvdb.call, kvdbSet, answer, Nat.not_le.mp short, short, ↓reduceIte, ↓reduceDIte]
    exact ⟨trivial, represents⟩

theorem get (represents : Represents db map) (key : CString) (buffer : Bytes) :
    (db.call (.get key buffer)).1 = (answer map (.get key buffer)).1 ∧
      Represents (db.call (.get key buffer)).2 (answer map (.get key buffer)).2 := by
  have bound := represents.bindings key
  by_cases short : key.length ≤ maxKeySize
  · simp only [Kvdb.call, kvdbGet, answer, Nat.not_lt.mpr short, ↓reduceIte]
    cases located : hashmapFind db.hashmap key with
    | none =>
      have unbound : boundValue map key = none := by
        simpa [Hashmap.lookup, located] using bound.symm
      simp only [unbound, missingStatus, short, ↓reduceIte]
      exact ⟨trivial, represents.writable, represents.valid,
        represents.bindings, represents.counted⟩
    | some node =>
      have same : (boundValue map key).map Subtype.val = some node.value := by
        simpa [Hashmap.lookup, located] using bound.symm
      obtain ⟨value, present, equal⟩ := Option.map_eq_some_iff.mp same
      have delivered : (if node.value.length < buffer.length then node.value.length
          else buffer.length) = min buffer.length node.value.length := by
        split <;> omega
      simp only [present, ← equal] at delivered ⊢
      rw [delivered]
      exact ⟨rfl, represents.writable, represents.valid, represents.bindings, represents.counted⟩
  · have unbound : boundValue map key = none := by simp [boundValue, short]
    simp only [Kvdb.call, kvdbGet, answer, Nat.not_le.mp short, unbound, missingStatus, short,
      ↓reduceIte]
    exact ⟨trivial, represents⟩

theorem delete (represents : Represents db map) (now : Nat) (key : CString) :
    (db.call (.delete now key)).1 = (answer map (.delete now key)).1 ∧
      Represents (db.call (.delete now key)).2 (answer map (.delete now key)).2 := by
  by_cases short : key.length ≤ maxKeySize
  · have status := remove_status db.hashmap key
    have size := remove_size db.hashmap key
    have found := represents.found ⟨key, short⟩
    have unreadonly := represents.writable
    have same : (db.hashmap.lookup key).isSome = (map.lookup ⟨key, short⟩).isSome := by
      rw [found, Option.isSome_map]
    by_cases bound : (map.lookup ⟨key, short⟩).isSome
    · simp only [same, bound, ↓reduceIte] at status size
      simp only [Kvdb.call, kvdbDelete, answer, Nat.not_lt.mpr short, unreadonly,
        short, bound, status,
        ne_eq, not_true_eq_false, ↓reduceIte, ↓reduceDIte, true_and]
      refine ⟨represents.writable, represents.valid.remove key, ?_, ?_⟩
      · intro other
        have after := lookup_remove represents.valid key other
        simp only [Kvdb.appendWal]
        rw [after, boundValue_erase, represents.bindings]
        split <;> rfl
      · simp only [Kvdb.appendWal]
        rw [size, card_keys_erase bound, represents.counted]
    · simp only [same, bound, Bool.false_eq_true, ↓reduceIte] at status size
      have untouched : (hashmapRemove db.hashmap key).2 = db.hashmap := by
        unfold hashmapRemove
        split
        · rename_i node located
          simp [← same, Hashmap.lookup, located] at bound
        · rfl
      simp only [Kvdb.call, kvdbDelete, answer, Nat.not_lt.mpr short, unreadonly,
        short, bound, status,
        ne_eq, untouched, Int.reduceNeg, Int.reduceEq, not_false_eq_true, Bool.false_eq_true,
        ↓reduceIte, ↓reduceDIte, true_and]
      exact represents
  · simp only [Kvdb.call, kvdbDelete, answer, Nat.not_le.mp short, short, ↓reduceIte, ↓reduceDIte]
    exact ⟨trivial, represents⟩

theorem clear (represents : Represents db map) (now : Nat) :
    (db.call (.clear now)).1 = (answer map (.clear now)).1 ∧
      Represents (db.call (.clear now)).2 (answer map (.clear now)).2 := by
  have unreadonly := represents.writable
  have emptied := Hashmap.Valid.create db.hashmap.capacity db.hashmap.positive
  simp only [Kvdb.call, kvdbClear, answer, unreadonly, ↓reduceIte, true_and]
  refine ⟨represents.writable, emptied, ?_, by simp⟩
  intro key
  simp [Hashmap.lookup, hashmapFind, Chain.find, boundValue]

/-- One call: the same answer, and the table still represents the map. -/
theorem call (db : Kvdb) (map : KeyValueMap) (request : Call) (represents : Represents db map) :
    (db.call request).1 = (answer map request).1 ∧
      Represents (db.call request).2 (answer map request).2 := by
  cases request with
  | set now key value => exact represents.set now key value
  | get key buffer => exact represents.get key buffer
  | delete now key => exact represents.delete now key
  | contains key =>
    refine ⟨?_, represents⟩
    have bound := represents.bindings key
    simp only [Kvdb.call, kvdbExists, answer, Reply.present.injEq]
    rw [← Option.isSome_map (f := Subtype.val), ← bound, Hashmap.lookup, Option.isSome_map]
  | clear now => exact represents.clear now
  | count =>
    refine ⟨?_, represents⟩
    simp only [Kvdb.call, kvdbCount, answer, represents.counted]

theorem opened {now : Nat} {disk after : Disk} {enableWal : Bool} {db : Kvdb}
    (opened : kvdbOpen (fun _ => true) now disk ⟨.create, enableWal⟩ = (some db, after)) :
    Represents db ∅ := by
  simp only [kvdbOpen, Bool.and_self, ↓reduceIte] at opened
  split at opened
  · cases opened
  · cases opened
    refine ⟨by simp, Hashmap.Valid.create _ _, ?_, by simp [hashmapCreate]⟩
    intro key
    simp [Hashmap.lookup, hashmapFind, hashmapCreate, Chain.find, boundValue]

end Represents

/-- Every sequence of calls on a freshly created database is answered as the
finite map answers it. In the state reached, each node lies in the bucket of its
hash, no key occurs in two nodes, `size` counts the nodes, and the nodes are the
map's bindings. -/
theorem kvdb_refines_finite_map {now : Nat} {disk after : Disk} {enableWal : Bool} {db : Kvdb}
    (opened : kvdbOpen (fun _ => true) now disk ⟨.create, enableWal⟩ = (some db, after))
    (calls : List Call) :
    (Machine.run Kvdb.call db calls).1 = (Machine.run answer ∅ calls).1 ∧
      let map := (Machine.run Kvdb.call db calls).2.hashmap
      (∀ index, ∀ node ∈ map.buckets index,
        (hashString node.key).toNat % map.capacity = index.val) ∧
      (map.nodes.map KvNode.key).Nodup ∧ map.size = map.nodes.length ∧
      ∀ key value, ⟨key, value⟩ ∈ map.nodes ↔
        ∃ bound, boundValue (Machine.run answer ∅ calls).2 key = some bound ∧ bound.1 = value := by
  obtain ⟨sameReplies, final⟩ :=
    Machine.run_simulates Represents.call calls (Represents.opened opened)
  refine ⟨sameReplies, ?_, final.valid.keys_nodup, final.valid.counted, ?_⟩
  · intro index node member
    exact congrArg Fin.val (final.valid.placed index node member)
  · intro key value
    rw [← final.valid.lookup_eq_some, final.bindings, Option.map_eq_some_iff]

/-- A run that binds a key, reads a cut copy back, deletes the key and counts. -/
theorem kvdb_refines_finite_map_small :
    ∃ db after, kvdbOpen (fun _ => true) 0 ⟨none, [], true, true, true⟩ ⟨.create, true⟩ =
        (some db, after) ∧
      (Machine.run Kvdb.call db [.set 1 ⟨[97], by decide⟩ [1, 2, 3], .get ⟨[97], by decide⟩ [0, 0],
        .delete 2 ⟨[97], by decide⟩, .count]).1 =
      [.status .ok, .fetched ⟨.ok, [1, 2], some 3⟩, .status .ok, .size 0] := by
  cases opened : kvdbOpen (fun _ => true) 0 ⟨none, [], true, true, true⟩ ⟨.create, true⟩ with
  | mk handle after =>
    cases handle with
    | none => simp [kvdbOpen, fopen] at opened
    | some db => exact ⟨db, after, rfl, (kvdb_refines_finite_map opened _).1.trans (by decide)⟩

end LinuxCLearning.KvDatabase
