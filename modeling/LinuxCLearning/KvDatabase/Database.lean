import LinuxCLearning.KvDatabase.Hashmap

/-! The database API of `kvdb.c`: opening and loading the data file, saving it
on close, and the locked operations on the hash table. -/

namespace LinuxCLearning.KvDatabase

def maxKeySize : Nat := 256
def maxValueSize : Nat := 65536
def defaultCapacity : Nat := 1024

/-- `kvdb_err_t`. -/
inductive KvdbErr where
  | ok | notFound | keyTooLong | valueTooLong | diskFull | corrupted | lock | readonly | outOfMemory
  deriving DecidableEq, Repr

/-- `kvdb_mode_t`. -/
inductive KvdbMode where
  | readwrite | readonly | create
  deriving DecidableEq, Repr

/-- The fields of `kvdb_config_t` that the implementation reads. The path is
the file held by `Disk`. -/
structure KvdbConfig where
  mode : KvdbMode
  enableWal : Bool
  deriving DecidableEq

/-- `wal_op_t`; only the first two are ever written. -/
inductive WalOp where
  | set | delete | commit | rollback
  deriving DecidableEq, Repr

/-- One `wal_entry_t` as appended to the log, followed by its value bytes. -/
structure WalRecord where
  op : WalOp
  txnId : Int
  key : Bytes
  valueSize : Nat
  value : Bytes
  deriving DecidableEq

/-- The data file and the log file at the configured path. -/
structure Disk where
  data : Option Bytes
  wal : List WalRecord
  readable : Bool
  writable : Bool
  walWritable : Bool
  deriving DecidableEq

/-- `struct kvdb`. The log holds its whole contents while the file is open. -/
structure Kvdb where
  config : KvdbConfig
  hashmap : Hashmap
  walFile : Option (List WalRecord)
  cacheHits : Nat
  cacheMisses : Nat
  readOps : Nat
  writeOps : Nat
  createdAt : Nat
  lastModified : Nat

/-- The `fopen` modes the database uses on its data file. -/
inductive OpenMode where
  | rb | rbPlus | wb | wbPlus
  deriving DecidableEq

/-- `fopen` on the data file: `none` is a null stream, and the write modes truncate or
create the file. An existing file needs every permission that its mode asks for. -/
def fopen (mode : OpenMode) (disk : Disk) : Option Disk :=
  match mode with
  | .rb => if disk.data.isSome && disk.readable then some disk else none
  | .rbPlus => if disk.data.isSome && disk.readable && disk.writable then some disk else none
  | .wb => if disk.writable then some { disk with data := some [] } else none
  | .wbPlus =>
    if disk.writable && (disk.data.isNone || disk.readable) then some { disk with data := some [] }
    else none

/-- `fread` of exactly `count` bytes. -/
def fread (count : Nat) (input : Bytes) : Option (Bytes × Bytes) :=
  if count ≤ input.length then some (input.take count, input.drop count) else none

/-- The reads and checks of one round of the load loop; `none` is a `break`.
The key buffer is used as a C string, so it is cut at its first NUL. -/
def loadRecord (input : Bytes) : Option (KvNode × Bytes) := do
  let (keyLen, input) ← fread 4 input
  guard (leNat keyLen ≤ maxKeySize)
  let (key, input) ← fread (leNat keyLen) input
  let (valueLen, input) ← fread 4 input
  guard (leNat valueLen ≤ maxValueSize)
  let (value, input) ← fread (leNat valueLen) input
  return (⟨CString.ofBuffer key, value⟩, input)

theorem fread_eq_some {count : Nat} {input taken rest : Bytes} :
    fread count input = some (taken, rest) ↔ taken.length = count ∧ input = taken ++ rest := by
  unfold fread
  constructor
  · intro success
    split at success
    · rename_i enough
      cases success
      exact ⟨by simpa using enough, (List.take_append_drop count input).symm⟩
    · cases success
  · intro split
    obtain ⟨rfl, rfl⟩ := split
    simp

theorem loadRecord_eq_some {input rest : Bytes} {node : KvNode} :
    loadRecord input = some (node, rest) ↔
      ∃ keyLen key valueLen, keyLen.length = 4 ∧ key.length = leNat keyLen ∧
        leNat keyLen ≤ maxKeySize ∧ valueLen.length = 4 ∧ node.value.length = leNat valueLen ∧
        leNat valueLen ≤ maxValueSize ∧ node.key = CString.ofBuffer key ∧
        input = keyLen ++ (key ++ (valueLen ++ (node.value ++ rest))) := by
  obtain ⟨name, value⟩ := node
  simp only [loadRecord, Option.bind_eq_bind, Option.bind_eq_some_iff, Prod.exists, fread_eq_some,
    Option.guard_eq_some', Option.pure_def, Option.some.injEq, Prod.mk.injEq, KvNode.mk.injEq]
  constructor
  · intro success
    obtain ⟨keyLen, _, ⟨four, rfl⟩, _, short, key, _, ⟨keySize, rfl⟩, valueLen, _, ⟨four', rfl⟩, _,
      small, _, _, ⟨valueSize, rfl⟩, ⟨rfl, rfl⟩, rfl⟩ := success
    exact ⟨keyLen, key, valueLen, four, keySize, short, four', valueSize, small, rfl, rfl⟩
  · intro fields
    obtain ⟨keyLen, key, valueLen, four, keySize, short, four', valueSize, small, rfl, rfl⟩ :=
      fields
    exact ⟨keyLen, _, ⟨four, rfl⟩, (), short, key, _, ⟨keySize, rfl⟩, valueLen, _, ⟨four', rfl⟩, (),
      small, value, rest, ⟨valueSize, rfl⟩, ⟨rfl, rfl⟩, rfl⟩

theorem loadRecord_shrinks {input rest : Bytes} {node : KvNode}
    (success : loadRecord input = some (node, rest)) : rest.length < input.length := by
  obtain ⟨keyLen, key, valueLen, four, -, -, -, -, -, -, rfl⟩ := loadRecord_eq_some.mp success
  simp only [List.length_append]
  omega

/-- The load loop of `kvdb_open`. Round `n` makes at most four allocations: the
value buffer and those of `hashmap_insert`. -/
def loadLoop (alloc : Nat → Bool) (round : Nat) (map : Hashmap) (input : Bytes) : Hashmap :=
  match read : loadRecord input with
  | none => map
  | some (node, rest) =>
    if alloc (4 * round) then
      loadLoop alloc (round + 1)
        (hashmapInsert (fun n => alloc (4 * round + 1 + n)) map node.key node.value).2 rest
    else map
termination_by input.length
decreasing_by exact loadRecord_shrinks read

/-- `kvdb_open`: `none` is a null handle. The first three allocations are the
handle, the table and its buckets; an unusable log file leaves the log off. -/
def kvdbOpen (alloc : Nat → Bool) (now : Nat) (disk : Disk) (config : KvdbConfig) :
    Option Kvdb × Disk :=
  if alloc 0 && alloc 1 && alloc 2 then
    let dataFile := match config.mode with
      | .create => fopen .wbPlus disk
      | .readonly => (fopen .rb disk).or (fopen .wbPlus disk)
      | .readwrite => (fopen .rbPlus disk).or (fopen .wbPlus disk)
    match dataFile with
    | none => (none, disk)
    | some disk =>
      let empty := hashmapCreate defaultCapacity (by decide)
      let hashmap := match config.mode with
        | .create => empty
        | _ => loadLoop (fun n => alloc (n + 3)) 0 empty (disk.data.getD [])
      let walFile := if config.enableWal && disk.walWritable then some disk.wal else none
      (some ⟨config, hashmap, walFile, 0, 0, 0, 0, now, now⟩, disk)
  else (none, disk)

/-- One record as `kvdb_close` writes it. -/
def saveRecord (node : KvNode) : Bytes :=
  leBytes 4 node.key.length ++ (node.key.bytes ++ (leBytes 4 node.value.length ++ node.value))

/-- The bytes `kvdb_close` writes: bucket by bucket, each chain from its head. -/
def saveMap (map : Hashmap) : Bytes := map.nodes.flatMap saveRecord

def kvdbClose (db : Kvdb) (disk : Disk) : Disk :=
  let disk := { disk with wal := db.walFile.getD disk.wal }
  if db.config.mode ≠ .readonly then
    match fopen .wb disk with
    | none => disk
    | some disk => { disk with data := some (saveMap db.hashmap) }
  else disk

/-- What `kvdb_get` returns: the status, the caller's buffer after the call and
the size stored through `actual_size` if it was stored. -/
structure GetResult where
  status : KvdbErr
  buffer : Bytes
  actualSize : Option Nat
  deriving DecidableEq

/-- `kvdb_get`; `none` stands for a null pointer. -/
def kvdbGet (db : Kvdb) (key : Option CString) (value : Option Bytes) : GetResult × Kvdb :=
  match key, value with
  | some key, some buffer =>
    if key.length > maxKeySize then (⟨.keyTooLong, buffer, none⟩, db)
    else match hashmapFind db.hashmap key with
      | none => (⟨.notFound, buffer, none⟩, { db with cacheMisses := db.cacheMisses + 1 })
      | some node =>
        let copySize := if node.value.length < buffer.length then
          node.value.length else buffer.length
        (⟨.ok, node.value.take copySize ++ buffer.drop copySize, some node.value.length⟩,
          { db with cacheHits := db.cacheHits + 1, readOps := db.readOps + 1 })
  | _, buffer => (⟨.corrupted, buffer.getD [], none⟩, db)

/-- Append one log entry when the log is open. The key field keeps the first
`KVDB_MAX_KEY_SIZE - 1` bytes. -/
def Kvdb.appendWal (db : Kvdb) (op : WalOp) (key : CString) (value : Bytes) : Kvdb :=
  { db with walFile := db.walFile.map fun log =>
      log ++ [⟨op, 0, key.bytes.take (maxKeySize - 1), value.length, value⟩] }

def kvdbSet (alloc : Nat → Bool) (now : Nat) (db : Kvdb) (key : Option CString)
    (value : Option Bytes) : KvdbErr × Kvdb :=
  match key, value with
  | some key, some value =>
    if key.length > maxKeySize then (.keyTooLong, db)
    else if value.length > maxValueSize then (.valueTooLong, db)
    else if db.config.mode = .readonly then (.readonly, db)
    else
      let (result, hashmap) := hashmapInsert alloc db.hashmap key value
      if result ≠ 0 then (.outOfMemory, { db with hashmap })
      else
        let db := { db with hashmap }.appendWal .set key value
        (.ok, { db with lastModified := now, writeOps := db.writeOps + 1 })
  | _, _ => (.corrupted, db)

def kvdbDelete (now : Nat) (db : Kvdb) (key : Option CString) : KvdbErr × Kvdb :=
  match key with
  | some key =>
    if key.length > maxKeySize then (.keyTooLong, db)
    else if db.config.mode = .readonly then (.readonly, db)
    else
      let (result, hashmap) := hashmapRemove db.hashmap key
      if result ≠ 0 then (.notFound, { db with hashmap })
      else
        let db := { db with hashmap }.appendWal .delete key []
        (.ok, { db with lastModified := now, writeOps := db.writeOps + 1 })
  | none => (.corrupted, db)

/-- `kvdb_exists`, which checks no length. -/
def kvdbExists (db : Kvdb) (key : Option CString) : Bool :=
  match key with
  | some key => (hashmapFind db.hashmap key).isSome
  | none => false

def kvdbCount (db : Kvdb) : Nat := db.hashmap.size

/-- `kvdb_clear`, which appends nothing to the log. -/
def kvdbClear (now : Nat) (db : Kvdb) : KvdbErr × Kvdb :=
  if db.config.mode = .readonly then (.readonly, db)
  else (.ok, { db with
    hashmap := { db.hashmap with buckets := fun _ => [], size := 0 }, lastModified := now })

end LinuxCLearning.KvDatabase
