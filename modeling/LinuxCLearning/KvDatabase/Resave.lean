import LinuxCLearning.KvDatabase.Atomicity
import LinuxCLearning.KvDatabase.Sessions

/-! Saving what has been loaded. The loader inserts each record in front of its chain, so it
turns the chains of the saved table round. -/

namespace LinuxCLearning.KvDatabase

/-- The chain of a bucket, by its number. -/
def Hashmap.chain (map : Hashmap) (number : Nat) : List KvNode :=
  if inside : number < map.capacity then map.buckets ⟨number, inside⟩ else []

section Chains
variable {map : Hashmap}

theorem chain_bucket (map : Hashmap) (index : Fin map.capacity) :
    map.chain index = map.buckets index := by
  rw [Hashmap.chain, dif_pos index.2]

theorem nodes_chain (map : Hashmap) : map.nodes = (List.range map.capacity).flatMap map.chain := by
  rw [Hashmap.nodes, ← List.map_coe_finRange_eq_range, List.flatMap_map]
  simp only [chain_bucket]

theorem insert_capacity (alloc : Nat → Bool) (map : Hashmap) (key : CString) (value : Bytes) :
    (hashmapInsert alloc map key value).2.capacity = map.capacity := by
  unfold hashmapInsert
  split <;> split <;> rfl

theorem remove_capacity (map : Hashmap) (key : CString) :
    (hashmapRemove map key).2.capacity = map.capacity := by
  unfold hashmapRemove
  split <;> rfl

theorem setBucket_chain (map : Hashmap) (index : Fin map.capacity)
    (chain : List KvNode) (number : Nat) :
    (map.setBucket index chain).chain number = if index.val = number then chain
      else map.chain number := by
  by_cases inside : number < map.capacity
  · have after : (map.setBucket index chain).chain number =
        (map.setBucket index chain).buckets ⟨number, inside⟩ :=
      dif_pos inside
    have before : map.chain number = map.buckets ⟨number, inside⟩ := dif_pos inside
    rw [after, before]
    by_cases same : index.val = number
    · subst number
      rw [if_pos rfl]
      exact setBucket_same map index chain
    · rw [if_neg same]
      exact setBucket_other map chain fun equal => same (congrArg Fin.val equal).symm
  · have after : (map.setBucket index chain).chain number = [] := dif_neg inside
    have before : map.chain number = [] := dif_neg inside
    have other : index.val ≠ number := fun same => inside (same ▸ index.2)
    rw [after, before, if_neg other]

theorem insert_chain {key : CString} (fresh : map.lookup key = none)
    (value : Bytes) (number : Nat) :
    (hashmapInsert (fun _ => true) map key value).2.chain number =
      if (map.index key).val = number then ⟨key, value⟩ :: map.chain number
      else map.chain number := by
  have absent : hashmapFind map key = none := by simpa [Hashmap.lookup] using fresh
  simp only [hashmapInsert, absent, Bool.and_self, ↓reduceIte]
  change (map.setBucket (map.index key) _).chain number = _
  rw [setBucket_chain]
  split
  · rename_i same
    rw [← same, chain_bucket]
  · rfl

theorem insertAll_capacity (map : Hashmap) (nodes : List KvNode) :
    (insertAll map nodes).capacity = map.capacity := by
  induction nodes generalizing map with
  | nil => rfl
  | cons node nodes ih => rw [insertAll_cons, ih, insert_capacity]

theorem insertAll_chain {nodes : List KvNode} (distinct : (nodes.map KvNode.key).Nodup)
    (fresh : ∀ node ∈ nodes, map.lookup node.key = none) (number : Nat) :
    (insertAll map nodes).chain number =
      (nodes.filter fun node => (hashString node.key).toNat % map.capacity == number).reverse ++
        map.chain number := by
  induction nodes generalizing map with
  | nil => rfl
  | cons node nodes ih =>
    rw [List.map_cons, List.nodup_cons] at distinct
    have unbound := fresh node List.mem_cons_self
    have later : ∀ other ∈ nodes,
        (hashmapInsert (fun _ => true) map node.key node.value).2.lookup other.key = none := by
      intro other member
      have different : other.key ≠ node.key := fun same =>
        distinct.1 (List.mem_map.mpr ⟨other, member, same⟩)
      rw [lookup_insert, if_neg different]
      exact fresh other (List.mem_cons_of_mem _ member)
    rw [insertAll_cons, ih distinct.2 later, insert_capacity,
      insert_chain unbound, List.filter_cons]
    by_cases same : (hashString node.key).toNat % map.capacity = number
    · have here : (map.index node.key).val = number := same
      simp [same, here]
    · have elsewhere : ¬ (map.index node.key).val = number := same
      simp [same, elsewhere]

theorem chain_outside {number : Nat} (outside : ¬ number < map.capacity) :
    map.chain number = [] := dif_neg outside

theorem placed_chain (valid : map.Valid) {number : Nat} {node : KvNode}
    (member : node ∈ map.chain number) :
    (hashString node.key).toNat % map.capacity = number := by
  unfold Hashmap.chain at member
  split at member
  · rename_i inside
    exact congrArg Fin.val (valid.placed ⟨number, inside⟩ node member)
  · cases member

theorem range_flatMap_single (count number : Nat) (chain : Nat → List KvNode) :
    (List.range count).flatMap (fun index => if index = number then chain index else []) =
      if number < count then chain number else [] := by
  induction count with
  | zero => rfl
  | succ count ih =>
    rw [List.range_succ, List.flatMap_append, ih, List.flatMap_singleton]
    by_cases last : count = number
    · subst number
      simp
    · have other : number < count + 1 ↔ number < count := by omega
      simp [last, other]

theorem filter_nodes (valid : map.Valid) (number : Nat) :
    map.nodes.filter (fun node => (hashString node.key).toNat % map.capacity == number) =
      map.chain number := by
  have each : ∀ index, (map.chain index).filter (fun node => (hashString node.key).toNat %
      map.capacity == number) =
      if index = number then map.chain index else [] := by
    intro index
    split
    · rename_i same
      rw [List.filter_eq_self]
      intro node member
      simp [placed_chain valid member, same]
    · rename_i other
      rw [List.filter_eq_nil_iff]
      intro node member
      simp [placed_chain valid member, other]
  rw [nodes_chain, List.filter_flatMap]
  simp only [each]
  rw [range_flatMap_single]
  split
  · rfl
  · rename_i outside
    exact (chain_outside outside).symm

/-- Inserting the nodes of a table into an empty one turns the chains round. -/
theorem insertAll_turned (valid : map.Valid) (number : Nat) :
    (insertAll (hashmapCreate map.capacity map.positive) map.nodes).chain number =
      (map.chain number).reverse := by
  have empty : (hashmapCreate map.capacity map.positive).chain number = [] := by
    unfold Hashmap.chain
    split <;> rfl
  have capacity : (hashmapCreate map.capacity map.positive).capacity = map.capacity := rfl
  rw [insertAll_chain valid.keys_nodup fun _ _ => lookup_create _ _ _, empty,
    List.append_nil, capacity,
    filter_nodes valid]

end Chains

section Cycles
variable {db : Kvdb} {map : KeyValueMap}

/-- A table whose chains are those of another one, turned round. -/
structure Turned (table other : Hashmap) : Prop where
  capacity : other.capacity = table.capacity
  chains : ∀ number, other.chain number = (table.chain number).reverse

theorem Turned.twice {first second third : Hashmap} (once : Turned first second)
    (again : Turned second third) :
    third.nodes = first.nodes := by
  rw [nodes_chain, nodes_chain, again.capacity, once.capacity]
  congr 1
  funext number
  rw [again.chains, once.chains, List.reverse_reverse]

theorem Turned.perm {first second : Hashmap} (turned : Turned first second) :
    second.nodes.Perm first.nodes := by
  rw [nodes_chain, nodes_chain, turned.capacity]
  apply List.Perm.flatMap_left
  intro number _
  rw [turned.chains]
  exact List.reverse_perm _

theorem Represents.turned (represents : Represents db map)
    (capacity : db.hashmap.capacity = defaultCapacity) :
    Turned db.hashmap
      (loadLoop (fun _ => true) 0 (hashmapCreate defaultCapacity (by decide))
        (saveMap db.hashmap)) := by
  have whole := loadLoop_cut db.hashmap.nodes (fun _ member => represents.savable member)
    (saveMap db.hashmap).length 0 (hashmapCreate db.hashmap.capacity db.hashmap.positive)
  rw [← saveMap, List.take_length] at whole
  simp only [← capacity]
  rw [whole, saveMap, wholeRecords_all]
  exact ⟨insertAll_capacity _ _, insertAll_turned represents.valid⟩

end Cycles

section Capacity
variable {db : Kvdb}

theorem loadLoop_capacity (alloc : Nat → Bool) (round : Nat) (map : Hashmap) (input : Bytes) :
    (loadLoop alloc round map input).capacity = map.capacity := by
  induction round, map, input using loadLoop.induct alloc with
  | case1 round map input stop => rw [loadLoop_stop stop]
  | case2 round map input node rest read allocated ih =>
    rw [loadLoop]
    split
    · rfl
    · rename_i other remaining again
      obtain ⟨rfl, rfl⟩ : node = other ∧ rest = remaining := by simpa using read.symm.trans again
      rw [if_pos allocated, ih, insert_capacity]
  | case3 round map input node rest read failed =>
    rw [loadLoop]
    split
    · rfl
    · rw [if_neg failed]

theorem kvdbOpen_capacity {alloc : Nat → Bool} {now : Nat} {disk after : Disk} {config : KvdbConfig}
    (opened : kvdbOpen alloc now disk config = (some db, after)) :
      db.hashmap.capacity = defaultCapacity := by
  obtain ⟨mode, log⟩ := config
  unfold kvdbOpen at opened
  split at opened
  · cases mode with
    | create =>
      dsimp only at opened
      split at opened
      · cases opened
      · cases opened
        rfl
    | readonly | readwrite =>
      dsimp only at opened
      split at opened
      · cases opened
      · cases opened
        exact loadLoop_capacity _ _ _ _
  · cases opened

theorem call_capacity (db : Kvdb) (call : Call) :
    (db.call call).2.hashmap.capacity = db.hashmap.capacity := by
  cases call with
  | set now key value =>
    simp only [Kvdb.call, kvdbSet]
    split_ifs
    · rfl
    · rfl
    · rfl
    · exact insert_capacity _ _ _ _
    · exact insert_capacity _ _ _ _
  | get key buffer =>
    simp only [Kvdb.call, kvdbGet]
    split_ifs
    · rfl
    · split <;> rfl
  | delete now key =>
    simp only [Kvdb.call, kvdbDelete]
    split_ifs
    · rfl
    · rfl
    · exact remove_capacity _ _
    · exact remove_capacity _ _
  | contains key => rfl
  | clear now =>
    simp only [Kvdb.call, kvdbClear]
    split_ifs <;> rfl
  | count => rfl

theorem run_capacity (db : Kvdb) (calls : List Call) :
    (Machine.run Kvdb.call db calls).2.hashmap.capacity = db.hashmap.capacity := by
  have keeps : ∀ (other : Kvdb) (call : Call), True → other.hashmap.capacity = db.hashmap.capacity →
      (other.call call).2.hashmap.capacity = db.hashmap.capacity :=
    fun other call _ same => (call_capacity other call).trans same
  exact Machine.run_keeps keeps calls (fun _ _ => trivial) rfl

end Capacity

/-- Open the database for reading and writing, and close it. -/
def reopen (now : Nat) (log : Bool) (disk : Disk) : Disk :=
  (runSession disk ⟨⟨.readwrite, log⟩, now, [], .closed⟩).2

/-- The file is one that `kvdb_close` has written for this database. -/
structure Saved (disk : Disk) (db : Kvdb) (map : KeyValueMap) : Prop where
  represents : Represents db map
  capacity : db.hashmap.capacity = defaultCapacity
  readable : disk.readable = true
  writable : disk.writable = true
  content : disk.data = some (saveMap db.hashmap)

section Reopening
variable {disk : Disk} {db : Kvdb} {map : KeyValueMap}

theorem Saved.close (represents : Represents db map)
    (capacity : db.hashmap.capacity = defaultCapacity)
    (readable : disk.readable = true) (writable : disk.writable = true) :
      Saved (kvdbClose db disk) db map := by
  obtain ⟨unchanged, still⟩ := kvdbClose_writable db disk writable
  exact ⟨represents, capacity, unchanged.trans readable, still,
    kvdbClose_data represents.writable writable⟩

theorem Saved.reopen (saved : Saved disk db map) (now : Nat) (log : Bool) :
    ∃ next map, Saved (KvDatabase.reopen now log disk) next map ∧
      Turned db.hashmap next.hashmap := by
  have opens : ∃ next, kvdbOpen (fun _ => true) now disk ⟨.readwrite, log⟩ = (some next, disk) ∧
      next.hashmap = loadLoop (fun _ => true) 0 (hashmapCreate defaultCapacity (by decide))
          (saveMap db.hashmap) :=
    kvdbOpen_existing saved.content KvdbMode.noConfusion saved.readable fun _ => saved.writable
  obtain ⟨next, opened, table⟩ := opens
  have writes : next.config.mode ≠ .readonly := (kvdbOpen_mode opened).symm ▸ KvdbMode.noConfusion
  have length : (saveMap db.hashmap).take (saveMap db.hashmap).length = saveMap db.hashmap :=
    List.take_length
  have whole := table
  rw [← length] at whole
  obtain ⟨map, represents, _⟩ := saved.represents.reloaded _ writes whole
  refine ⟨next, map, ?_, table ▸ saved.represents.turned saved.capacity⟩
  rw [KvDatabase.reopen, runSession, opened]
  exact .close represents (kvdbOpen_capacity opened) saved.readable saved.writable

theorem Holds.leaves (holds : Holds disk map) {session : Session} (usual : session.Usual)
    (closed : session.ending = .closed) :
      ∃ db map, Saved (KvDatabase.runSession disk session).2 db map := by
  obtain ⟨db, opened, represents⟩ := holds.opens session.now usual.writes
  have final := (Machine.run_simulates Represents.call session.calls represents).2
  rw [KvDatabase.runSession, opened, closed]
  exact ⟨_, _, .close final ((run_capacity db session.calls).trans (kvdbOpen_capacity opened))
    holds.readable
    holds.writable⟩

end Reopening

/-- Opening and closing the database without a call writes the same records in another order,
and twice that gives back the file byte for byte. -/
theorem reopened_twice_same {disk : Disk} (readable : disk.readable = true)
    (writable : disk.writable = true) (empty : disk.data.getD [] = []) (sessions : List Session)
    (usual : ∀ session ∈ sessions, session.Usual)
    {last : Session} (lastUsual : last.Usual) (closed : last.ending = .closed)
    (now later : Nat) (log again : Bool) :
    let file := (runSession (runSessions disk sessions).2 last).2
    (reopen later again (reopen now log file)).data = file.data ∧
      ∃ nodes others : List KvNode, file.data = some (nodes.flatMap saveRecord) ∧
        (reopen now log file).data = some (others.flatMap saveRecord) ∧ others.Perm nodes := by
  intro file
  obtain ⟨map, _, holds⟩ := (Holds.empty readable writable empty).runSessions sessions usual
  obtain ⟨db, map, saved⟩ := holds.leaves lastUsual closed
  obtain ⟨next, map, once, turned⟩ := saved.reopen now log
  obtain ⟨final, map, twice, back⟩ := once.reopen later again
  refine ⟨?_, db.hashmap.nodes, next.hashmap.nodes, saved.content, once.content, turned.perm⟩
  rw [twice.content, saved.content, saveMap, saveMap, turned.twice back]

/-- The file of a session with two keys, behind the three sessions of the example. -/
theorem reopened_twice_same_two :
    let last : Session :=
      ⟨⟨.create, false⟩, 5, [.set 6 ⟨[97], by decide⟩ [1], .set 6 ⟨[98], by decide⟩ [2]], .closed⟩
    let file := (runSession (runSessions ⟨none, [], true, true, true⟩ threeSessions).2 last).2
    (reopen 8 true (reopen 7 false file)).data = file.data := by
  intro last file
  have empty : (⟨none, [], true, true, true⟩ : Disk).data.getD [] = [] := rfl
  have lastUsual : last.Usual := by
    refine ⟨KvdbMode.noConfusion, ?_⟩
    simp [last, Call.KeyWithin, CString.length, maxKeySize]
  exact (reopened_twice_same rfl rfl empty threeSessions threeSessions_usual lastUsual
    rfl 7 8 false true).1

end LinuxCLearning.KvDatabase
