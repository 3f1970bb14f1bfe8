import LinuxCLearning.KvDatabase.Refinement

/-! Saving and loading. A file written by `kvdb_close` and cut at any byte is
loaded as the records that survive the cut whole. -/

namespace LinuxCLearning.KvDatabase

/-- A record that its length fields can describe and the loader admits. -/
def Savable (node : KvNode) : Prop :=
  node.key.length ≤ maxKeySize ∧ node.value.length ≤ maxValueSize

theorem loadRecord_saveRecord {node : KvNode} (savable : Savable node) (rest : Bytes) :
    loadRecord (saveRecord node ++ rest) = some (node, rest) := by
  obtain ⟨short, small⟩ := savable
  have keyLen : leNat (leBytes 4 node.key.length) = node.key.length :=
    leNat_leBytes (Nat.lt_of_le_of_lt short (by decide))
  have valueLen : leNat (leBytes 4 node.value.length) = node.value.length :=
    leNat_leBytes (Nat.lt_of_le_of_lt small (by decide))
  apply loadRecord_eq_some.mpr
  refine ⟨leBytes 4 node.key.length, node.key.bytes, leBytes 4 node.value.length, leBytes_length ..,
    keyLen.symm, by rw [keyLen]; exact short, leBytes_length .., valueLen.symm,
    by rw [valueLen]; exact small, (CString.ofBuffer_bytes node.key).symm, ?_⟩
  simp [saveRecord, List.append_assoc]

theorem loadRecord_append {input rest : Bytes} {node : KvNode}
    (success : loadRecord input = some (node, rest)) (more : Bytes) :
    loadRecord (input ++ more) = some (node, rest ++ more) := by
  obtain ⟨keyLen, key, valueLen, four, keySize, short, four', valueSize, small, name, rfl⟩ :=
    loadRecord_eq_some.mp success
  apply loadRecord_eq_some.mpr
  exact ⟨keyLen, key, valueLen, four, keySize, short, four', valueSize, small, name, by simp⟩

/-- No proper prefix of a record passes the five checks of the load loop,
whichever field the cut falls into. -/
theorem loadRecord_cut {node : KvNode} (savable : Savable node) {count : Nat}
    (cut : count < (saveRecord node).length) :
      loadRecord ((saveRecord node).take count) = none := by
  cases outcome : loadRecord ((saveRecord node).take count) with
  | none => rfl
  | some loaded =>
    obtain ⟨other, rest⟩ := loaded
    have extended := loadRecord_append outcome ((saveRecord node).drop count)
    have whole := loadRecord_saveRecord savable []
    rw [List.take_append_drop] at extended
    rw [List.append_nil, extended, Option.some.injEq, Prod.mk.injEq,
      List.append_eq_nil_iff] at whole
    have nothing := congrArg List.length whole.2.2
    simp only [List.length_drop, List.length_nil] at nothing
    omega

/-- The records that lie entirely inside the first `count` bytes. -/
def wholeRecords : List KvNode → Nat → List KvNode
  | [], _ => []
  | node :: rest, count =>
    if (saveRecord node).length ≤ count then
      node :: wholeRecords rest (count - (saveRecord node).length)
    else []

/-- Where the record with this number ends in the file. -/
def recordEnd (nodes : List KvNode) (number : Nat) : Nat :=
  ((nodes.take (number + 1)).flatMap saveRecord).length

theorem recordEnd_succ (node : KvNode) (rest : List KvNode) (number : Nat) :
    recordEnd (node :: rest) (number + 1) = (saveRecord node).length + recordEnd rest number := by
  simp [recordEnd]

theorem mem_wholeRecords {nodes : List KvNode} {count : Nat} {node : KvNode} :
    node ∈ wholeRecords nodes count ↔
      ∃ number, nodes[number]? = some node ∧ recordEnd nodes number ≤ count := by
  induction nodes generalizing count with
  | nil => simp [wholeRecords]
  | cons head rest ih =>
    have first : recordEnd (head :: rest) 0 = (saveRecord head).length := by simp [recordEnd]
    simp only [wholeRecords]
    split
    · rename_i fits
      rw [List.mem_cons, ih]
      constructor
      · intro member
        rcases member with same | ⟨number, found, inside⟩
        · exact ⟨0, by simp [same], by omega⟩
        · exact ⟨number + 1, by simpa using found, by rw [recordEnd_succ]; omega⟩
      · intro record
        obtain ⟨number, found, inside⟩ := record
        cases number with
        | zero => exact .inl (by simpa using found.symm)
        | succ number =>
          rw [recordEnd_succ] at inside
          exact .inr ⟨number, by simpa using found, by omega⟩
    · rename_i cut
      simp only [List.not_mem_nil, false_iff, not_exists, not_and]
      intro number found
      cases number with
      | zero => omega
      | succ number => rw [recordEnd_succ]; omega

theorem wholeRecords_sublist (nodes : List KvNode) (count : Nat) :
    (wholeRecords nodes count).Sublist nodes := by
  induction nodes generalizing count with
  | nil => simp [wholeRecords]
  | cons node rest ih =>
    simp only [wholeRecords]
    split
    · exact (ih _).cons_cons node
    · exact List.nil_sublist _

theorem wholeRecords_all (nodes : List KvNode) :
    wholeRecords nodes (nodes.flatMap saveRecord).length = nodes := by
  induction nodes with
  | nil => rfl
  | cons node rest ih =>
    simp only [wholeRecords, List.flatMap_cons, List.length_append, Nat.le_add_right, ↓reduceIte,
      Nat.add_sub_cancel_left, ih]

/-- Insert nodes one after the other, as the load loop does. -/
def insertAll (map : Hashmap) (nodes : List KvNode) : Hashmap :=
  nodes.foldl (fun map node => (hashmapInsert (fun _ => true) map node.key node.value).2) map

theorem loadLoop_stop {input : Bytes} (stop : loadRecord input = none) (alloc : Nat → Bool)
    (round : Nat) (map : Hashmap) : loadLoop alloc round map input = map := by
  rw [loadLoop]
  split
  · rfl
  · rename_i read
    rw [stop] at read
    cases read

theorem loadLoop_round {input rest : Bytes} {node : KvNode}
    (success : loadRecord input = some (node, rest)) (round : Nat) (map : Hashmap) :
    loadLoop (fun _ => true) round map input =
      loadLoop (fun _ => true) (round + 1)
        (hashmapInsert (fun _ => true) map node.key node.value).2 rest := by
  rw [loadLoop]
  split
  · rename_i stop
    rw [success] at stop
    cases stop
  · rename_i other remaining read
    rw [success] at read
    cases read
    simp

/-- The load loop on a cut file inserts exactly the whole records, in file order. -/
theorem loadLoop_cut (nodes : List KvNode) (savable : ∀ node ∈ nodes, Savable node) (count : Nat)
    (round : Nat) (map : Hashmap) :
    loadLoop (fun _ => true) round map ((nodes.flatMap saveRecord).take count) =
      insertAll map (wholeRecords nodes count) := by
  induction nodes generalizing count round map with
  | nil =>
    have nothing : loadRecord [] = none := by simp [loadRecord, fread]
    simpa [wholeRecords, insertAll] using loadLoop_stop nothing _ round map
  | cons node rest ih =>
    have first := savable node (by simp)
    have others : ∀ other ∈ rest, Savable other :=
      fun other member => savable other (by simp [member])
    rw [List.flatMap_cons, List.take_append, wholeRecords]
    split
    · rename_i fits
      rw [List.take_of_length_le fits, loadLoop_round (loadRecord_saveRecord first _), ih others]
      simp [insertAll]
    · rename_i cut
      have past : count - (saveRecord node).length = 0 := by omega
      rw [past, List.take_zero, List.append_nil,
        loadLoop_stop (loadRecord_cut first (Nat.not_le.mp cut))]
      rfl

section InsertAll
variable {nodes : List KvNode}

theorem insertAll_cons (map : Hashmap) (node : KvNode) (nodes : List KvNode) :
    insertAll map (node :: nodes) =
      insertAll (hashmapInsert (fun _ => true) map node.key node.value).2 nodes := rfl

/-- With distinct keys, the loaded bindings are the inserted nodes over the old ones. -/
theorem lookup_insertAll (map : Hashmap) (distinct : (nodes.map KvNode.key).Nodup) {key : CString}
    {value : Bytes} :
    (insertAll map nodes).lookup key = some value ↔
      ⟨key, value⟩ ∈ nodes ∨ key ∉ nodes.map KvNode.key ∧ map.lookup key = some value := by
  induction nodes generalizing map with
  | nil => simp [insertAll]
  | cons node rest ih =>
    rw [List.map_cons, List.nodup_cons] at distinct
    rw [insertAll_cons, ih _ distinct.2, lookup_insert, List.mem_cons, List.map_cons, List.mem_cons]
    obtain ⟨name, stored⟩ := node
    by_cases same : key = name
    · subst key
      have missing : ⟨name, value⟩ ∉ rest := fun member =>
        distinct.1 (List.mem_map.mpr ⟨_, member, rfl⟩)
      simp [missing, distinct.1, eq_comm]
    · simp [same]

theorem size_insertAll (map : Hashmap) (distinct : (nodes.map KvNode.key).Nodup)
    (fresh : ∀ node ∈ nodes, map.lookup node.key = none) :
    (insertAll map nodes).size = map.size + nodes.length := by
  induction nodes generalizing map with
  | nil => simp [insertAll]
  | cons node rest ih =>
    rw [List.map_cons, List.nodup_cons] at distinct
    have unbound := fresh node (by simp)
    have later : ∀ other ∈ rest,
        (hashmapInsert (fun _ => true) map node.key node.value).2.lookup other.key = none := by
      intro other member
      have different : other.key ≠ node.key := fun same =>
        distinct.1 (List.mem_map.mpr ⟨other, member, same⟩)
      rw [lookup_insert, if_neg different]
      exact fresh other (by simp [member])
    rw [insertAll_cons, ih _ distinct.2 later, insert_size, unbound]
    simp only [Option.isSome_none, Bool.false_eq_true, ↓reduceIte, List.length_cons]
    omega

end InsertAll

theorem lookup_create (capacity : Nat) (positive : 0 < capacity) (key : CString) :
    (hashmapCreate capacity positive).lookup key = none := rfl

/-- Reopening a file that can be read loads its bytes into an empty table. -/
theorem kvdbOpen_existing {now : Nat} {disk : Disk} {mode : KvdbMode} {enableWal : Bool}
    {content : Bytes} (existing : disk.data = some content) (loads : mode ≠ .create)
    (readable : disk.readable = true) (writable : mode = .readwrite → disk.writable = true) :
    ∃ db, kvdbOpen (fun _ => true) now disk ⟨mode, enableWal⟩ = (some db, disk) ∧
      db.hashmap = loadLoop (fun _ => true) 0
        (hashmapCreate defaultCapacity (by decide)) content := by
  cases mode with
  | readwrite => simp [kvdbOpen, fopen, existing, readable, writable rfl]
  | readonly => simp [kvdbOpen, fopen, existing, readable]
  | create => exact absurd rfl loads

/-- The key of a call, where it has one, has at most `limit` bytes. -/
def Call.KeyWithin (limit : Nat) : Call → Prop
  | .set _ key _ | .get key _ | .delete _ key | .contains key => key.length ≤ limit
  | .clear _ | .count => True

/-- The abstract map binds no key longer than the keys it was given. -/
def BoundWithin (limit : Nat) (map : KeyValueMap) : Prop :=
  ∀ key value, boundValue map key = some value → key.length ≤ limit

theorem BoundWithin.answer {limit : Nat} (map : KeyValueMap) (call : Call)
    (within : call.KeyWithin limit) (bounded : BoundWithin limit map) :
    BoundWithin limit (answer map call).2 := by
  cases call with
  | set now key value =>
    simp only [KvDatabase.answer]
    split
    · split
      · intro other stored bound
        rw [boundValue_insert] at bound
        split at bound
        · rename_i same
          rw [same]
          exact within
        · exact bounded other stored bound
      · exact bounded
    · exact bounded
  | get key buffer =>
    simp only [KvDatabase.answer]
    split <;> exact bounded
  | delete now key =>
    simp only [KvDatabase.answer]
    split
    · split
      · intro other stored bound
        rw [boundValue_erase] at bound
        split at bound
        · cases bound
        · exact bounded other stored bound
      · exact bounded
    · exact bounded
  | contains key => exact bounded
  | clear now =>
    intro key value bound
    simp [KvDatabase.answer, boundValue] at bound
  | count => exact bounded

theorem Represents.node_bound {db : Kvdb} {map : KeyValueMap} (represents : Represents db map)
    {node : KvNode} (member : node ∈ db.hashmap.nodes) :
    ∃ value, boundValue map node.key = some value ∧ value.1 = node.value := by
  have found := represents.valid.lookup_eq_some.mpr member
  rw [represents.bindings, Option.map_eq_some_iff] at found
  exact found

theorem Represents.savable {db : Kvdb} {map : KeyValueMap} (represents : Represents db map)
    {node : KvNode} (member : node ∈ db.hashmap.nodes) : Savable node := by
  obtain ⟨value, bound, same⟩ := represents.node_bound member
  refine ⟨?_, same ▸ value.2⟩
  unfold boundValue at bound
  split at bound
  · assumption
  · cases bound

theorem kvdbOpen_create {now : Nat} {disk after : Disk} {enableWal : Bool} {db : Kvdb}
    (opened : kvdbOpen (fun _ => true) now disk ⟨.create, enableWal⟩ = (some db, after)) :
    after.writable = true := by
  simp only [kvdbOpen, fopen, Bool.and_self, ↓reduceIte] at opened
  split at opened
  · cases opened
  · rename_i created
    cases opened
    split at created
    · rename_i permitted
      cases created
      exact (Bool.and_eq_true_iff.mp permitted).1
    · cases created

theorem kvdbClose_data {db : Kvdb} {disk : Disk} (saves : db.config.mode ≠ .readonly)
    (writable : disk.writable = true) : (kvdbClose db disk).data = some (saveMap db.hashmap) := by
  simp [kvdbClose, fopen, saves, writable]

/-- Loading the first `count` bytes of a saved table gives its whole records. -/
theorem loadLoop_saveMap {db : Kvdb} {map : KeyValueMap} (represents : Represents db map)
    (count : Nat) (capacity : Nat) (positive : 0 < capacity) :
    let loaded := loadLoop (fun _ => true) 0 (hashmapCreate capacity positive)
      ((saveMap db.hashmap).take count)
    (∀ key value, loaded.lookup key = some value ↔
      ⟨key, value⟩ ∈ wholeRecords db.hashmap.nodes count) ∧
    loaded.size = (wholeRecords db.hashmap.nodes count).length := by
  have kept := (wholeRecords_sublist db.hashmap.nodes count).map KvNode.key
  have distinct := represents.valid.keys_nodup.sublist kept
  simp only [saveMap, loadLoop_cut _ (fun _ member => represents.savable member)]
  constructor
  · intro key value
    rw [lookup_insertAll _ distinct, lookup_create]
    simp
  · rw [size_insertAll _ distinct (fun _ _ => lookup_create ..)]
    simp [hashmapCreate]

/-- Every table reached by calls with keys of at most 255 bytes is saved as the
concatenation of its records. Reopening the first `count` bytes of that file
binds exactly the records that end inside them: nothing is invented, and the
whole file restores mapping and count. -/
theorem kvdb_reopens_cut_file {now : Nat} {disk after : Disk} {enableWal : Bool} {db : Kvdb}
    (opened : kvdbOpen (fun _ => true) now disk ⟨.create, enableWal⟩ = (some db, after))
    (calls : List Call) (short : ∀ call ∈ calls, call.KeyWithin (maxKeySize - 1)) :
    let saved := (Machine.run Kvdb.call db calls).2
    ∃ file, (kvdbClose saved after).data = some file ∧
      file = saved.hashmap.nodes.flatMap saveRecord ∧
      (∀ node ∈ saved.hashmap.nodes, node.key.length < maxKeySize) ∧
      ∀ count ≤ file.length, ∀ (mode : KvdbMode) (cut : Disk) (later : Nat) (log : Bool),
        cut.data = some (file.take count) → mode ≠ .create → cut.readable = true →
        (mode = .readwrite → cut.writable = true) →
        ∃ reopened, kvdbOpen (fun _ => true) later cut ⟨mode, log⟩ = (some reopened, cut) ∧
          (∀ key value, reopened.hashmap.lookup key = some value ↔
            ∃ number, saved.hashmap.nodes[number]? = some ⟨key, value⟩ ∧
              recordEnd saved.hashmap.nodes number ≤ count) ∧
          (∀ key value, reopened.hashmap.lookup key = some value →
            saved.hashmap.lookup key = some value) ∧
          (count = file.length →
            (∀ key, reopened.hashmap.lookup key = saved.hashmap.lookup key) ∧
              kvdbCount reopened = kvdbCount saved) := by
  intro saved
  have represents : Represents saved (Machine.run answer ∅ calls).2 :=
    (Machine.run_simulates Represents.call calls (Represents.opened opened)).2
  have bounded : BoundWithin (maxKeySize - 1) (Machine.run answer ∅ calls).2 :=
    Machine.run_keeps (fun map call => BoundWithin.answer map call) calls short
      (fun key value bound => by simp [boundValue] at bound)
  refine ⟨saveMap saved.hashmap, kvdbClose_data represents.writable (kvdbOpen_create opened), rfl,
    ?_, ?_⟩
  · intro node member
    obtain ⟨value, bound, _⟩ := represents.node_bound member
    exact Nat.lt_of_le_of_lt (bounded _ _ bound) (by decide)
  · intro count _ mode cut later log content loads readable writable
    obtain ⟨reopened, success, table⟩ := kvdbOpen_existing content loads readable writable
    obtain ⟨bindings, size⟩ := loadLoop_saveMap represents count defaultCapacity (by decide)
    rw [← table] at bindings size
    refine ⟨reopened, success, ?_, ?_, ?_⟩
    · intro key value
      rw [bindings, mem_wholeRecords]
    · intro key value bound
      apply represents.valid.lookup_eq_some.mpr
      exact (wholeRecords_sublist _ _).subset ((bindings key value).mp bound)
    · intro whole
      have all : wholeRecords saved.hashmap.nodes count = saved.hashmap.nodes := by
        rw [whole]
        exact wholeRecords_all _
      rw [all] at bindings size
      refine ⟨?_, by rw [kvdbCount, kvdbCount, size, represents.valid.counted]⟩
      intro key
      apply Option.ext
      intro value
      rw [bindings, represents.valid.lookup_eq_some]

/-- Two bindings, one with an empty key and one with an empty value. -/
theorem kvdb_reopens_cut_file_small :
    ∃ db after, kvdbOpen (fun _ => true) 0 ⟨none, [], true, true, true⟩ ⟨.create, false⟩ =
        (some db, after) ∧
      let calls : List Call := [.set 1 ⟨[], by decide⟩ [7], .set 2 ⟨[97], by decide⟩ []]
      (∀ call ∈ calls, call.KeyWithin (maxKeySize - 1)) ∧
      ∃ file, (kvdbClose (Machine.run Kvdb.call db calls).2 after).data = some file ∧
        ∃ reopened, kvdbOpen (fun _ => true) 3
            ⟨some (file.take file.length), [], true, false, false⟩
            ⟨.readonly, false⟩ =
            (some reopened, ⟨some (file.take file.length), [], true, false, false⟩) ∧
          kvdbCount reopened = kvdbCount (Machine.run Kvdb.call db calls).2 := by
  cases opened : kvdbOpen (fun _ => true) 0 ⟨none, [], true, true, true⟩ ⟨.create, false⟩ with
  | mk handle after =>
    cases handle with
    | none => simp [kvdbOpen, fopen] at opened
    | some db =>
      have short : ∀ call ∈ ([.set 1 ⟨[], by decide⟩ [7], .set 2 ⟨[97], by decide⟩ []] : List Call),
          call.KeyWithin (maxKeySize - 1) := by
        simp [Call.KeyWithin, CString.length, maxKeySize]
      obtain ⟨file, written, _, _, reopens⟩ := kvdb_reopens_cut_file opened _ short
      obtain ⟨reopened, success, _, _, whole⟩ := reopens file.length (Nat.le_refl _) .readonly
        ⟨some (file.take file.length), [], true, false, false⟩ 3 false rfl (by decide) rfl (by simp)
      exact ⟨db, after, rfl, short, file, written, reopened, success, (whole rfl).2⟩

end LinuxCLearning.KvDatabase
