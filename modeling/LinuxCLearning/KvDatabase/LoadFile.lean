import LinuxCLearning.Base.Framing
import LinuxCLearning.KvDatabase.Persistence
import LinuxCLearning.KvDatabase.WalReplay

/-! What the load loop of `kvdb_open` makes of any data file, and where it writes in its
key buffer. -/

namespace LinuxCLearning.KvDatabase

/-- A complete record that the loop admits, with the key as it stands in the file. -/
structure FileRecord where
  key : Bytes
  value : Bytes
  keyFits : key.length ≤ maxKeySize
  valueFits : value.length ≤ maxValueSize

namespace FileRecord

def bytes (record : FileRecord) : Bytes :=
  leBytes 4 record.key.length ++ (record.key ++ (leBytes 4 record.value.length ++ record.value))

/-- The binding that a record stands for: its key ends at the first NUL. -/
def node (record : FileRecord) : KvNode := ⟨CString.ofBuffer record.key, record.value⟩

end FileRecord

/-- The bindings of the records in the order of the file. -/
def lastWins (records : List FileRecord) : Bindings :=
  records.foldl (fun bindings record => Function.update bindings record.node.key
    (some record.node.value))
    fun _ => none

/-- Where one round of the load loop writes in `key`: what `fread` delivers and, if that is
all, the terminator. -/
def keyWrites (input : Bytes) : List Nat :=
  match fread 4 input with
  | none => []
  | some (keyLen, input) =>
    if leNat keyLen > maxKeySize then []
    else match fread (leNat keyLen) input with
      | none => List.range input.length
      | some _ => List.range (leNat keyLen) ++ [leNat keyLen]

/-- Where the load loop writes in `key`. -/
def loadWrites (alloc : Nat → Bool) (round : Nat) (input : Bytes) : List Nat :=
  keyWrites input ++
    match read : loadRecord input with
    | none => []
    | some (_, rest) => if alloc (4 * round) then loadWrites alloc (round + 1) rest else []
termination_by input.length
decreasing_by exact loadRecord_shrinks read

/-- Behind complete records stands a key of `KVDB_MAX_KEY_SIZE` bytes. -/
def LongKeyReached (content : Bytes) : Prop :=
  ∃ records : List FileRecord, ∃ key rest, key.length = maxKeySize ∧
    content = records.flatMap FileRecord.bytes ++ (leBytes 4 maxKeySize ++ (key ++ rest))

section Records
variable {input rest : Bytes} {node : KvNode}

theorem loadRecord_record (record : FileRecord) (rest : Bytes) :
    loadRecord (record.bytes ++ rest) = some (record.node, rest) := by
  have keyLen : leNat (leBytes 4 record.key.length) = record.key.length :=
    leNat_leBytes (record.keyFits.trans_lt (by decide))
  have valueLen : leNat (leBytes 4 record.value.length) = record.value.length :=
    leNat_leBytes (record.valueFits.trans_lt (by decide))
  apply loadRecord_eq_some.mpr
  refine ⟨leBytes 4 record.key.length, record.key, leBytes 4 record.value.length,
    leBytes_length .., keyLen.symm,
    keyLen.le.trans record.keyFits, leBytes_length .., valueLen.symm,
    valueLen.le.trans record.valueFits, rfl, ?_⟩
  simp only [FileRecord.bytes, FileRecord.node, List.append_assoc]

theorem record_of_load (success : loadRecord input = some (node, rest)) :
    ∃ record : FileRecord, record.node = node ∧ input = record.bytes ++ rest := by
  obtain ⟨keyLen, key, valueLen, four, keySize, short, four', valueSize, small, name, rfl⟩ :=
    loadRecord_eq_some.mp success
  refine ⟨⟨key, node.value, keySize.trans_le short, valueSize.trans_le small⟩, ?_, ?_⟩
  · rw [FileRecord.node, ← name]
  · have keyBytes := leBytes_leNat keyLen
    have valueBytes := leBytes_leNat valueLen
    rw [four, ← keySize] at keyBytes
    rw [four', ← valueSize] at valueBytes
    simp only [FileRecord.bytes, keyBytes, valueBytes, List.append_assoc]

theorem loadRecord_none (stop : ∀ record : FileRecord, ¬ record.bytes <+: input) :
    loadRecord input = none := by
  cases outcome : loadRecord input with
  | none => rfl
  | some loaded =>
    obtain ⟨record, _, same⟩ := record_of_load outcome
    exact absurd ⟨_, same.symm⟩ (stop record)

theorem fileRecord_delimiting : SelfDelimiting FileRecord.bytes := by
  constructor
  · intro record empty
    have length := congrArg List.length empty
    simp [FileRecord.bytes] at length
  · intro first second rest more same
    have lengths {one other : Nat} (fits : one < 256 ^ 4) (fits' : other < 256 ^ 4)
        (equal : leBytes 4 one = leBytes 4 other) : one = other := by
      rw [← leNat_leBytes fits, equal, leNat_leBytes fits']
    have bound : maxKeySize < 256 ^ 4 ∧ maxValueSize < 256 ^ 4 := by decide
    simp only [FileRecord.bytes, List.append_assoc] at same
    obtain ⟨keyLen, behindKeyLen⟩ := List.append_inj same (by rw [leBytes_length, leBytes_length])
    have keySize := lengths (first.keyFits.trans_lt bound.1)
      (second.keyFits.trans_lt bound.1) keyLen
    obtain ⟨key, behindKey⟩ := List.append_inj behindKeyLen keySize
    obtain ⟨valueLen, behindValueLen⟩ :=
      List.append_inj behindKey (by rw [leBytes_length, leBytes_length])
    have valueSize := lengths (first.valueFits.trans_lt bound.2)
      (second.valueFits.trans_lt bound.2) valueLen
    obtain ⟨value, behind⟩ := List.append_inj behindValueLen valueSize
    refine ⟨?_, behind⟩
    cases first
    cases second
    cases key
    cases value
    rfl

/-- The loop inserts the records before the first one that is incomplete or not admitted. -/
theorem loadLoop_framed {content : Bytes} {records : List FileRecord}
    (framed : Framed FileRecord.bytes content records rest) (round : Nat) (map : Hashmap) :
    loadLoop (fun _ => true) round map content = insertAll map (records.map FileRecord.node) := by
  induction records generalizing content round map with
  | nil => exact loadLoop_stop (loadRecord_none (framed.split ▸ framed.longest)) _ round map
  | cons record records ih =>
    obtain ⟨behind, rfl, later⟩ := framed.tail
    rw [loadLoop_round (loadRecord_record record behind), ih later, List.map_cons, insertAll_cons]

theorem lookup_insertAll_fold (map : Hashmap) (nodes : List KvNode) :
    (insertAll map nodes).lookup =
      nodes.foldl (fun (bindings : Bindings) node =>
        Function.update bindings node.key (some node.value))
        map.lookup := by
  induction nodes generalizing map with
  | nil => rfl
  | cons node nodes ih =>
    have inserted : (hashmapInsert (fun _ => true) map node.key node.value).2.lookup =
        Function.update map.lookup node.key (some node.value) := by
      funext other
      exact (lookup_insert map node.key other node.value).trans (Function.update_apply _ _ _ _).symm
    rw [insertAll_cons, ih, inserted, List.foldl_cons]

end Records

/-- The load loop ends on every data file, and then the keys are bound as in the last of
the complete admissible records that the file starts with; whatever follows is ignored. -/
theorem load_loop_last_wins (content : Bytes) :
    ∃ records rest, Framed FileRecord.bytes content records rest ∧
      (∀ others more, Framed FileRecord.bytes content others more →
        others = records ∧ more = rest) ∧
      (loadLoop (fun _ => true) 0 (hashmapCreate defaultCapacity defaultCapacity_positive)
        content).lookup =
        lastWins records ∧
      ∀ (now : Nat) (disk : Disk) (mode : KvdbMode) (enableWal : Bool), disk.data = some content →
        mode ≠ .create → disk.readable = true → (mode = .readwrite → disk.writable = true) →
        ∃ db, kvdbOpen (fun _ => true) now disk ⟨mode, enableWal⟩ = (some db, disk) ∧
          db.hashmap.lookup = lastWins records := by
  obtain ⟨records, rest, framed⟩ := Framed.exist fileRecord_delimiting content
  have loaded : (loadLoop (fun _ => true) 0 (hashmapCreate defaultCapacity defaultCapacity_positive)
      content).lookup =
      lastWins records := by
    rw [loadLoop_framed framed, lookup_insertAll_fold, List.foldl_map]
    rfl
  refine ⟨records, rest, framed, fun others more other => framed.unique fileRecord_delimiting other,
    loaded, ?_⟩
  intro now disk mode enableWal existing loads readable writable
  obtain ⟨db, opened, table⟩ := kvdbOpen_existing existing loads readable writable
  exact ⟨db, opened, by rw [table]; exact loaded⟩

section KeyBuffer
variable {alloc : Nat → Bool} {round : Nat} {input content : Bytes} {records : List FileRecord}

/-- One round writes behind the buffer only for a key of its whole size. -/
theorem keyWrites_inside {index : Nat} (written : index ∈ keyWrites input) :
    index < maxKeySize ∨ ∃ key rest, key.length = maxKeySize ∧
      input = leBytes 4 maxKeySize ++ (key ++ rest) := by
  unfold keyWrites at written
  split at written
  · cases written
  · rename_i keyLen behind length
    obtain ⟨four, rfl⟩ := fread_eq_some.mp length
    split at written
    · cases written
    · rename_i short
      split at written
      · rename_i incomplete
        have fewer : behind.length < leNat keyLen := by
          by_contra enough
          rw [fread, if_pos (not_lt.mp enough)] at incomplete
          cases incomplete
        have index_lt := List.mem_range.mp written
        exact Or.inl (by omega)
      · rename_i delivered complete
        obtain ⟨key, rest⟩ := delivered
        obtain ⟨size, rfl⟩ := fread_eq_some.mp complete
        have index_le : index ≤ leNat keyLen := by
          rcases List.mem_append.mp written with delivered | terminator
          · exact (List.mem_range.mp delivered).le
          · exact (List.mem_singleton.mp terminator).le
        by_cases whole : leNat keyLen = maxKeySize
        · right
          refine ⟨key, rest, size.trans whole, ?_⟩
          rw [← whole, ← four, leBytes_leNat]
        · exact Or.inl (by omega)

theorem long_key_written (key rest : Bytes) (long : key.length = maxKeySize) :
    maxKeySize ∈ keyWrites (leBytes 4 maxKeySize ++ (key ++ rest)) := by
  have length : fread 4 (leBytes 4 maxKeySize ++ (key ++ rest)) =
      some (leBytes 4 maxKeySize, key ++ rest) :=
    fread_eq_some.mpr ⟨leBytes_length .., rfl⟩
  have value : leNat (leBytes 4 maxKeySize) = maxKeySize := leNat_leBytes (by decide)
  have complete : fread maxKeySize (key ++ rest) = some (key, rest) := fread_eq_some.mpr ⟨long, rfl⟩
  simp only [keyWrites, length, value, complete, gt_iff_lt, lt_irrefl, if_false]
  exact List.mem_append_right _ (List.mem_singleton_self _)

theorem loadWrites_record (record : FileRecord) (round : Nat) (rest : Bytes) :
    loadWrites (fun _ => true) (round + 1) rest ⊆ loadWrites (fun _ => true) round
      (record.bytes ++ rest) := by
  intro index written
  rw [loadWrites]
  apply List.mem_append_right
  split
  · rename_i stop
    rw [loadRecord_record] at stop
    cases stop
  · rename_i node behind read
    rw [loadRecord_record] at read
    cases read
    exact written

theorem loadWrites_records (records : List FileRecord) (round : Nat) (rest : Bytes) :
    ∃ later, loadWrites (fun _ => true) later rest ⊆
      loadWrites (fun _ => true) round (records.flatMap FileRecord.bytes ++ rest) := by
  induction records generalizing round with
  | nil => exact ⟨round, List.Subset.refl _⟩
  | cons record records ih =>
    obtain ⟨later, kept⟩ := ih (round + 1)
    refine ⟨later, List.Subset.trans kept ?_⟩
    rw [List.flatMap_cons, List.append_assoc]
    exact loadWrites_record record round _

/-- A whole run of the loop writes behind the buffer only for such a key. -/
theorem loadWrites_inside {index : Nat} (written : index ∈ loadWrites alloc round content) :
    index < maxKeySize ∨ LongKeyReached content := by
  induction size : content.length using Nat.strong_induction_on generalizing content round with
  | _ size ih =>
    rw [loadWrites] at written
    rcases List.mem_append.mp written with here | later
    · rcases keyWrites_inside here with inside | ⟨key, rest, long, same⟩
      · exact Or.inl inside
      · exact Or.inr ⟨[], key, rest, long, same⟩
    · split at later
      · cases later
      · rename_i node rest read
        split at later
        · rcases ih rest.length (size ▸ loadRecord_shrinks read) later rfl with inside | ⟨records,
            key, more, long, same⟩
          · exact Or.inl inside
          · obtain ⟨record, _, whole⟩ := record_of_load read
            refine Or.inr ⟨record :: records, key, more, long, ?_⟩
            rw [whole, same, List.flatMap_cons, List.append_assoc]
        · cases later

theorem long_key_reached_written (reached : LongKeyReached content) :
    maxKeySize ∈ loadWrites (fun _ => true) 0 content := by
  obtain ⟨records, key, rest, long, rfl⟩ := reached
  obtain ⟨later, kept⟩ := loadWrites_records records 0 (leBytes 4 maxKeySize ++ (key ++ rest))
  apply kept
  rw [loadWrites]
  exact List.mem_append_left _ (long_key_written key rest long)

end KeyBuffer

/-- The load loop stays inside its key buffer, whichever allocations fail, exactly on the
files in which no key of `KVDB_MAX_KEY_SIZE` bytes follows complete records. -/
theorem load_writes_inside_iff (content : Bytes) :
    (∀ alloc, ∀ index ∈ loadWrites alloc 0 content, index < maxKeySize) ↔
      ¬ LongKeyReached content := by
  constructor
  · intro inside reached
    exact lt_irrefl _ (inside _ _ (long_key_reached_written reached))
  · intro short alloc index written
    exact (loadWrites_inside written).resolve_right short

theorem savable_records (nodes : List KvNode) (savable : ∀ node ∈ nodes, Savable node) :
    ∃ records : List FileRecord, records.flatMap FileRecord.bytes = nodes.flatMap saveRecord := by
  induction nodes with
  | nil => exact ⟨[], rfl⟩
  | cons first nodes ih =>
    obtain ⟨records, same⟩ := ih fun other member => savable other (List.mem_cons_of_mem _ member)
    obtain ⟨short, small⟩ := savable first List.mem_cons_self
    refine ⟨⟨first.key.bytes, first.value, short, small⟩ :: records, ?_⟩
    rw [List.flatMap_cons, List.flatMap_cons, same]
    rfl

/-- A table with a key of that length is saved to such a file. -/
theorem saved_long_key {map : Hashmap} (savable : ∀ node ∈ map.nodes, Savable node) {node : KvNode}
    (member : node ∈ map.nodes) (long : node.key.length = maxKeySize) :
      LongKeyReached (saveMap map) := by
  obtain ⟨front, back, same⟩ := List.append_of_mem member
  obtain ⟨before, written⟩ :=
    savable_records front fun other member => savable other (by simp [same, member])
  refine ⟨before, node.key.bytes,
    leBytes 4 node.value.length ++ (node.value ++ back.flatMap saveRecord), long, ?_⟩
  rw [saveMap, same, List.flatMap_append, List.flatMap_cons, written, saveRecord, long]
  simp only [List.append_assoc]

/-- What `kvdb_close` writes after `kvdb_set` of a key of that length. -/
theorem set_saves_long_key {db : Kvdb} {after : Disk} {map : KeyValueMap}
    (represents : Represents db map)
    (writable : after.writable = true) {key : CString} (long : key.length = maxKeySize) :
    (kvdbSet (fun _ => true) 1 db (some key) (some [])).1 = .ok ∧
      ∃ content,
        (kvdbClose (kvdbSet (fun _ => true) 1 db (some key) (some [])).2 after).data = some content ∧
        LongKeyReached content := by
  obtain ⟨answered, bound⟩ := represents.set 1 key []
  have small : ([] : Bytes).length ≤ maxValueSize := Nat.zero_le _
  simp only [Kvdb.call, answer, dif_pos long.le, dif_pos small,
    Reply.status.injEq] at answered bound
  refine ⟨answered, _, kvdbClose_data bound.writable writable, ?_⟩
  have found := bound.bindings key
  rw [boundValue_insert, if_pos rfl] at found
  exact saved_long_key (fun _ => bound.savable) (bound.valid.lookup_eq_some.mp found) long

theorem longKey_nulFree : (0 : UInt8) ∉ List.replicate maxKeySize 97 :=
  replicate_nulFree (by decide) maxKeySize

/-- A key of `KVDB_MAX_KEY_SIZE` letters. -/
def longKey : CString := ⟨List.replicate maxKeySize 97, longKey_nulFree⟩

theorem longKey_length : longKey.length = maxKeySize := List.length_replicate

/-- `kvdb_set` accepts the key, `kvdb_close` saves it, and the load loop writes behind its
buffer. -/
theorem saved_key_overflows : ∃ db after content,
    kvdbOpen (fun _ => true) 0 ⟨none, [], true, true, true⟩ ⟨.create, false⟩ = (some db, after) ∧
      (kvdbSet (fun _ => true) 1 db (some longKey) (some [])).1 = .ok ∧
      (kvdbClose (kvdbSet (fun _ => true) 1 db (some longKey) (some [])).2 after).data =
        some content ∧
      ¬ ∀ alloc, ∀ index ∈ loadWrites alloc 0 content, index < maxKeySize := by
  cases opened : kvdbOpen (fun _ => true) 0 ⟨none, [], true, true, true⟩ ⟨.create, false⟩ with
  | mk handle after =>
    cases handle with
    | none => simp [kvdbOpen, fopen] at opened
    | some db =>
      obtain ⟨status, content, saved, reached⟩ :=
        set_saves_long_key (Represents.opened opened) (kvdbOpen_create opened) longKey_length
      refine ⟨db, after, content, rfl, status, saved, ?_⟩
      intro inside
      exact lt_irrefl _ (inside _ _ (long_key_reached_written reached))

end LinuxCLearning.KvDatabase
