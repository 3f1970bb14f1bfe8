import LinuxCLearning.KvDatabase.Persistence

/-! A database over many sessions, each of which is closed or killed. What a session finds is
what the sessions before it have left in the file. -/

namespace LinuxCLearning.KvDatabase

/-- How a session ends: with `kvdb_close`, with the death of the process before that, or with
its death inside `kvdb_close`, when the file has got this many bytes. -/
inductive SessionEnd where
  | closed | killed | killedSaving (written : Nat)
  deriving DecidableEq

/-- A session opens the database, makes its calls and ends. -/
structure Session where
  config : KvdbConfig
  now : Nat
  calls : List Call
  ending : SessionEnd
  deriving DecidableEq

/-- `kvdb_close` of a process that dies when the file has got `written` bytes. -/
def kvdbCloseCut (written : Nat) (db : Kvdb) (disk : Disk) : Disk :=
  let disk := { disk with wal := db.walFile.getD disk.wal }
  if db.config.mode ≠ .readonly then
    match fopen .wb disk with
    | none => disk
    | some disk => { disk with data := some ((saveMap db.hashmap).take written) }
  else disk

def Kvdb.finish (db : Kvdb) (disk : Disk) : SessionEnd → Disk
  | .closed => kvdbClose db disk
  | .killed => { disk with wal := db.walFile.getD disk.wal }
  | .killedSaving written => kvdbCloseCut written db disk

/-- The replies of a session and what it leaves; no replies where `kvdb_open` fails. -/
def runSession (disk : Disk) (session : Session) : List Reply × Disk :=
  match kvdbOpen (fun _ => true) session.now disk session.config with
  | (none, disk) => ([], disk)
  | (some db, disk) =>
    let (replies, db) := Machine.run Kvdb.call db session.calls
    (replies, db.finish disk session.ending)

def runSessions : Disk → List Session → List (List Reply) × Disk
  | disk, [] => ([], disk)
  | disk, session :: sessions =>
    let (replies, disk) := runSession disk session
    let (others, disk) := runSessions disk sessions
    (replies :: others, disk)

/-- What a session starts from. -/
def Session.startMap (session : Session) (map : KeyValueMap) : KeyValueMap :=
  if session.config.mode = .create then ∅ else map

/-- What the next session finds: all that the session has done, nothing of it, or, when it
was killed while it saved, bindings of its last state only. -/
def Survives (start final next : KeyValueMap) : SessionEnd → Prop
  | .closed => next = final
  | .killed => next = start
  | .killedSaving _ =>
    ∀ key value, boundValue next key = some value → boundValue final key = some value

/-- Sessions on a map that is handed on from each to the next. -/
inductive HandedOn : KeyValueMap → List Session → List (List Reply) → KeyValueMap → Prop where
  | nil (map : KeyValueMap) : HandedOn map [] [] map
  | session {map next last : KeyValueMap} {session : Session} {sessions : List Session}
      {replies : List (List Reply)}
      (survives : Survives (session.startMap map)
        (Machine.run answer (session.startMap map) session.calls).2 next session.ending)
      (rest : HandedOn next sessions replies last) :
      HandedOn map (session :: sessions)
        ((Machine.run answer (session.startMap map) session.calls).1 :: replies) last

/-- A session of the supported kind: it may write, and its keys leave room for the terminator. -/
structure Session.Usual (session : Session) : Prop where
  writes : session.config.mode ≠ .readonly
  short : ∀ call ∈ session.calls, call.KeyWithin (maxKeySize - 1)

/-- The file is one from which the database is loaded with this map. -/
structure Holds (disk : Disk) (map : KeyValueMap) : Prop where
  readable : disk.readable = true
  writable : disk.writable = true
  bounded : BoundWithin (maxKeySize - 1) map
  loads : ∀ db : Kvdb, db.config.mode ≠ .readonly →
    db.hashmap = loadLoop (fun _ => true) 0 (hashmapCreate defaultCapacity (by decide))
      (disk.data.getD []) →
    Represents db map

section Loading
variable {db : Kvdb} {map : KeyValueMap} {nodes : List KvNode}

/-- Only the table and the mode decide what a database represents. -/
theorem Represents.of_table (represents : Represents db map) {other : Kvdb}
    (writable : other.config.mode ≠ .readonly) (same : other.hashmap = db.hashmap) :
      Represents other map := by
  refine ⟨writable, ?_, ?_, ?_⟩
  · rw [same]
    exact represents.valid
  · rw [same]
    exact represents.bindings
  · rw [same]
    exact represents.counted

theorem Represents.insertAll (represents : Represents db map)
    (savable : ∀ node ∈ nodes, Savable node) :
    ∃ next, Represents { db with hashmap := KvDatabase.insertAll db.hashmap nodes } next := by
  induction nodes generalizing db map with
  | nil => exact ⟨map, represents⟩
  | cons node nodes ih =>
    obtain ⟨short, small⟩ := savable node List.mem_cons_self
    have stored := (represents.set 0 node.key node.value).2
    have table : (db.call (.set 0 node.key node.value)).2.hashmap =
        (hashmapInsert (fun _ => true) db.hashmap node.key node.value).2 := by
      simp only [Kvdb.call, kvdbSet, Nat.not_lt.mpr short, Nat.not_lt.mpr small,
        represents.writable, insert_status,
        Kvdb.appendWal, ne_eq, not_true_eq_false, ↓reduceIte]
    have first : Represents
        { db with hashmap := (hashmapInsert (fun _ => true) db.hashmap node.key node.value).2 } _ :=
      stored.of_table represents.writable table.symm
    rw [insertAll_cons]
    exact ih first fun other member => savable other (List.mem_cons_of_mem _ member)

theorem represents_created (writable : db.config.mode ≠ .readonly)
    (table : db.hashmap = hashmapCreate defaultCapacity (by decide)) : Represents db ∅ := by
  refine ⟨writable, ?_, ?_, ?_⟩
  · rw [table]
    exact Hashmap.Valid.create _ _
  · intro key
    rw [table, lookup_create]
    simp [boundValue]
  · rw [table]
    simp [hashmapCreate]

/-- What the first `count` bytes of a saved table are loaded as. -/
theorem Represents.reloaded (represents : Represents db map) (count : Nat) {other : Kvdb}
    (writable : other.config.mode ≠ .readonly)
    (table : other.hashmap = loadLoop (fun _ => true) 0 (hashmapCreate defaultCapacity (by decide))
      ((saveMap db.hashmap).take count)) :
    ∃ next, Represents other next ∧ ∀ key value, boundValue next key = some value ↔
      ⟨key, value.1⟩ ∈ wholeRecords db.hashmap.nodes count := by
  have savable : ∀ node ∈ wholeRecords db.hashmap.nodes count, Savable node := fun node member =>
    represents.savable ((wholeRecords_sublist _ _).subset member)
  have created : Represents { other with hashmap := hashmapCreate defaultCapacity (by decide) } ∅ :=
    represents_created writable rfl
  obtain ⟨next, loaded⟩ := created.insertAll savable
  have same : other.hashmap =
      KvDatabase.insertAll (hashmapCreate defaultCapacity (by decide))
          (wholeRecords db.hashmap.nodes count) := by
    rw [table, saveMap, loadLoop_cut _ fun node member => represents.savable member]
  have represented := loaded.of_table writable same
  refine ⟨next, represented, ?_⟩
  intro key value
  have bindings := (loadLoop_saveMap represents count defaultCapacity (by decide)).1 key value.1
  rw [← table, represented.bindings, Option.map_eq_some_iff] at bindings
  rw [← bindings]
  constructor
  · intro bound
    exact ⟨value, bound, rfl⟩
  · rintro ⟨other, bound, equal⟩
    rw [bound, Subtype.ext equal]

theorem Represents.bound_iff (represents : Represents db map) (key : CString) (value : Value) :
    boundValue map key = some value ↔ ⟨key, value.1⟩ ∈ db.hashmap.nodes := by
  rw [← represents.valid.lookup_eq_some, represents.bindings, Option.map_eq_some_iff]
  constructor
  · intro bound
    exact ⟨value, bound, rfl⟩
  · rintro ⟨other, bound, equal⟩
    rw [bound, Subtype.ext equal]

theorem boundValue_injective {first second : KeyValueMap}
    (same : ∀ key value, boundValue first key = some value ↔ boundValue second key = some value) :
      first = second := by
  apply Finmap.ext_lookup
  intro key
  apply Option.ext
  intro value
  rw [← boundValue_key, ← boundValue_key]
  exact same key.1 value

end Loading

section Ends
variable {db : Kvdb} {map : KeyValueMap} {disk : Disk}

theorem Holds.cut (represents : Represents db map) (bounded : BoundWithin (maxKeySize - 1) map)
    (readable : disk.readable = true) (writable : disk.writable = true) {count : Nat}
    (content : disk.data = some ((saveMap db.hashmap).take count)) :
    ∃ next, Holds disk next ∧ ∀ key value, boundValue next key = some value ↔
      ⟨key, value.1⟩ ∈ wholeRecords db.hashmap.nodes count := by
  let table := loadLoop (fun _ => true) 0 (hashmapCreate defaultCapacity (by decide))
    ((saveMap db.hashmap).take count)
  have writes : ({ db with hashmap := table } : Kvdb).config.mode ≠ .readonly := represents.writable
  obtain ⟨next, represented, records⟩ := represents.reloaded count writes rfl
  refine ⟨next, ⟨readable, writable, ?_, ?_⟩, records⟩
  · intro key value bound
    have kept := (wholeRecords_sublist _ _).subset ((records key value).mp bound)
    exact bounded key value ((represents.bound_iff key value).mpr kept)
  · intro other mode table
    rw [content] at table
    exact represented.of_table mode table

theorem Holds.saved (represents : Represents db map) (bounded : BoundWithin (maxKeySize - 1) map)
    (readable : disk.readable = true) (writable : disk.writable = true)
    (content : disk.data = some (saveMap db.hashmap)) : Holds disk map := by
  have whole : disk.data = some ((saveMap db.hashmap).take (saveMap db.hashmap).length) := by
    rw [content, List.take_length]
  obtain ⟨next, holds, records⟩ := Holds.cut represents bounded readable writable whole
  have same : next = map := by
    apply boundValue_injective
    intro key value
    rw [records, represents.bound_iff, saveMap, wholeRecords_all]
  exact same ▸ holds

theorem Holds.empty (readable : disk.readable = true) (writable : disk.writable = true)
    (content : disk.data.getD [] = []) : Holds disk ∅ := by
  refine ⟨readable, writable, ?_, ?_⟩
  · intro key value bound
    simp [boundValue] at bound
  · intro db mode table
    have nothing : loadRecord [] = none := by simp [loadRecord, fread]
    rw [content, loadLoop_stop nothing] at table
    exact represents_created mode table

end Ends

section Sessions
variable {disk : Disk} {map : KeyValueMap} {session : Session}

theorem Holds.opens (holds : Holds disk map) (now : Nat) {config : KvdbConfig}
    (writes : config.mode ≠ .readonly) :
    ∃ db, kvdbOpen (fun _ => true) now disk config =
        (some db,
          { disk with data := some (if config.mode = .create then [] else disk.data.getD []) }) ∧
      Represents db (if config.mode = .create then ∅ else map) := by
  obtain ⟨mode, log⟩ := config
  cases mode with
  | readonly => exact absurd rfl writes
  | create =>
    refine ⟨_, by simp [kvdbOpen, fopen, holds.writable, holds.readable]; rfl, ?_⟩
    exact represents_created KvdbMode.noConfusion rfl
  | readwrite =>
    obtain ⟨data, wal, _, _, walWritable⟩ := disk
    obtain rfl := holds.readable
    obtain rfl := holds.writable
    cases data with
    | none =>
      refine ⟨_, by simp [kvdbOpen, fopen]; rfl, ?_⟩
      exact holds.loads _ KvdbMode.noConfusion rfl
    | some content =>
      refine ⟨_, by simp [kvdbOpen, fopen]; rfl, ?_⟩
      exact holds.loads _ KvdbMode.noConfusion rfl

theorem Holds.of_content (holds : Holds disk map) {other : Disk} (readable : other.readable = true)
    (writable : other.writable = true) (same : other.data.getD [] = disk.data.getD []) :
      Holds other map := by
  refine ⟨readable, writable, holds.bounded, ?_⟩
  intro db mode table
  rw [same] at table
  exact holds.loads db mode table

theorem kvdbClose_writable (db : Kvdb) (disk : Disk) (writable : disk.writable = true) :
    (kvdbClose db disk).readable = disk.readable ∧ (kvdbClose db disk).writable = true := by
  simp only [kvdbClose, fopen, writable, ↓reduceIte]
  split <;> exact ⟨rfl, rfl⟩

theorem kvdbCloseCut_saves {db : Kvdb} {disk : Disk} (saves : db.config.mode ≠ .readonly)
    (writable : disk.writable = true) (written : Nat) :
    kvdbCloseCut written db disk =
      { disk with wal := db.walFile.getD disk.wal, data := some ((saveMap db.hashmap).take written) } := by
  simp [kvdbCloseCut, fopen, saves, writable]

/-- One session: it is answered as by the map that it starts from, and the next session
finds what survives. -/
theorem Holds.runSession (holds : Holds disk map) (usual : session.Usual) :
    (KvDatabase.runSession disk session).1 =
      (Machine.run answer (session.startMap map) session.calls).1 ∧
      ∃ next, Survives (session.startMap map)
          (Machine.run answer (session.startMap map) session.calls).2 next
          session.ending ∧ Holds (KvDatabase.runSession disk session).2 next := by
  obtain ⟨db, opened, represents⟩ := holds.opens session.now usual.writes
  have bounded : BoundWithin (maxKeySize - 1) (session.startMap map) := by
    unfold Session.startMap
    split
    · intro key value bound
      simp [boundValue] at bound
    · exact holds.bounded
  have start : Holds
      { disk with data := some (if session.config.mode = .create then [] else disk.data.getD []) }
      (session.startMap map) := by
    unfold Session.startMap
    split
    · exact Holds.empty holds.readable holds.writable rfl
    · exact holds.of_content holds.readable holds.writable rfl
  obtain ⟨replies, represents⟩ := Machine.run_simulates Represents.call session.calls represents
  have bounded : BoundWithin (maxKeySize - 1)
      (Machine.run answer (session.startMap map) session.calls).2 :=
    Machine.run_keeps (fun map call => BoundWithin.answer map call)
      session.calls usual.short bounded
  rw [KvDatabase.runSession, opened]
  refine ⟨replies, ?_⟩
  cases session.ending with
  | closed =>
    obtain ⟨readable, writable⟩ :=
      kvdbClose_writable (Machine.run Kvdb.call db session.calls).2 _ start.writable
    have saved := kvdbClose_data represents.writable start.writable
    exact ⟨_, rfl, Holds.saved represents bounded (readable.trans start.readable) writable saved⟩
  | killed => exact ⟨_, rfl, start.of_content start.readable start.writable rfl⟩
  | killedSaving written =>
    have cut := kvdbCloseCut_saves represents.writable start.writable written
    obtain ⟨next, left, records⟩ := Holds.cut represents bounded (by rw [cut]; exact start.readable)
      (by rw [cut]; exact start.writable) (congrArg Disk.data cut)
    refine ⟨next, ?_, left⟩
    intro key value bound
    have kept := (wholeRecords_sublist _ _).subset ((records key value).mp bound)
    exact (represents.bound_iff key value).mpr kept

theorem Holds.runSessions (holds : Holds disk map) (sessions : List Session)
    (usual : ∀ session ∈ sessions, session.Usual) :
    ∃ last, HandedOn map sessions (KvDatabase.runSessions disk sessions).1 last ∧
      Holds (KvDatabase.runSessions disk sessions).2 last := by
  induction sessions generalizing disk map with
  | nil => exact ⟨map, .nil map, holds⟩
  | cons session sessions ih =>
    obtain ⟨replies, next, survives, left⟩ := holds.runSession (usual session List.mem_cons_self)
    obtain ⟨last, rest, final⟩ :=
      ih left fun other member => usual other (List.mem_cons_of_mem _ member)
    refine ⟨last, ?_, final⟩
    simp only [KvDatabase.runSessions, replies]
    exact .session survives rest

end Sessions

/-- Over any number of sessions, each closed or killed at any point, the file hands a map on:
every session is answered as by the map that it found, and finds what the ones before it
have left. A kill before `kvdb_close` loses the session whole; a kill inside loses bindings,
but binds no key to what the session had not bound it to. -/
theorem sessions_hand_on {disk : Disk} (readable : disk.readable = true)
    (writable : disk.writable = true) (empty : disk.data.getD [] = []) (sessions : List Session)
    (usual : ∀ session ∈ sessions, session.Usual) :
    ∃ map, HandedOn ∅ sessions (runSessions disk sessions).1 map ∧
      ∀ now log, ∃ db after, kvdbOpen (fun _ => true) now
        (runSessions disk sessions).2 ⟨.readwrite, log⟩ =
        (some db, after) ∧ Represents db map := by
  obtain ⟨map, handed, holds⟩ := (Holds.empty readable writable empty).runSessions sessions usual
  refine ⟨map, handed, ?_⟩
  intro now log
  have writes : (⟨.readwrite, log⟩ : KvdbConfig).mode ≠ .readonly := KvdbMode.noConfusion
  obtain ⟨db, opened, represents⟩ := holds.opens now writes
  exact ⟨db, _, opened, represents⟩

theorem key_nulFree : (0 : UInt8) ∉ [97] := by decide

/-- A key is set and saved, set again in a session that is killed, and read. -/
def threeSessions : List Session :=
  [⟨⟨.readwrite, false⟩, 0, [.set 1 ⟨[97], key_nulFree⟩ [7]], .closed⟩,
    ⟨⟨.readwrite, true⟩, 2, [.set 3 ⟨[97], key_nulFree⟩ [8]], .killed⟩,
    ⟨⟨.readwrite, false⟩, 4, [.get ⟨[97], key_nulFree⟩ [0]], .killedSaving 5⟩]

theorem threeSessions_usual : ∀ session ∈ threeSessions, session.Usual := by
  intro session member
  fin_cases member
  all_goals exact ⟨KvdbMode.noConfusion, by simp [Call.KeyWithin, CString.length, maxKeySize]⟩

/-- The last session reads what the first one has saved. -/
theorem sessions_hand_on_three : (runSessions ⟨none, [], true, true, true⟩ threeSessions).1 =
    [[.status .ok], [.status .ok], [.fetched ⟨.ok, [7], some 1⟩]] := by
  have empty : (⟨none, [], true, true, true⟩ : Disk).data.getD [] = [] := rfl
  obtain ⟨map, handed, _⟩ := sessions_hand_on rfl rfl empty threeSessions threeSessions_usual
  generalize (runSessions ⟨none, [], true, true, true⟩ threeSessions).1 = replies at handed
  cases handed with
  | session first handed =>
    obtain rfl := first
    cases handed with
    | session second handed =>
      obtain rfl := second
      cases handed with
      | session third handed =>
        cases handed
        decide

end LinuxCLearning.KvDatabase
