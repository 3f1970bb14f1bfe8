import LinuxCLearning.KvDatabase.Hashmap

namespace LinuxCLearning.KvDatabase

/-- The representation invariant of the table: nodes lie in the bucket of their
key, a chain repeats no key, and `size` counts the nodes. -/
structure Hashmap.Valid (map : Hashmap) : Prop where
  placed : ∀ index, ∀ node ∈ map.buckets index, map.index node.key = index
  distinct : ∀ index, ((map.buckets index).map KvNode.key).Nodup
  counted : map.size = map.nodes.length

/-- The value a key is bound to. -/
def Hashmap.lookup (map : Hashmap) (key : CString) : Option Bytes :=
  (hashmapFind map key).map KvNode.value

theorem nodes_length (map : Hashmap) :
    map.nodes.length = ∑ index, (map.buckets index).length := by
  rw [Hashmap.nodes, List.length_flatMap, Fin.sum_univ_def]

@[simp] theorem index_setBucket (map : Hashmap) (index : Fin map.capacity) (chain : List KvNode)
    (key : CString) : (map.setBucket index chain).index key = map.index key := rfl

@[simp] theorem setBucket_size (map : Hashmap) (index : Fin map.capacity) (chain : List KvNode) :
    (map.setBucket index chain).size = map.size := rfl

theorem setBucket_same (map : Hashmap) (index : Fin map.capacity) (chain : List KvNode) :
    (map.setBucket index chain).buckets index = chain := Function.update_self ..

theorem setBucket_other (map : Hashmap) {index other : Fin map.capacity} (chain : List KvNode)
    (different : other ≠ index) : (map.setBucket index chain).buckets other = map.buckets other :=
  Function.update_of_ne different ..

/-- Replacing one chain changes the number of nodes by the change of its length. -/
theorem nodes_length_setBucket (map : Hashmap) (index : Fin map.capacity) (chain : List KvNode) :
    (map.setBucket index chain).nodes.length + (map.buckets index).length =
      map.nodes.length + chain.length := by
  rw [nodes_length, nodes_length]
  exact Chain.sum_length_update map.buckets index chain

theorem mem_nodes {map : Hashmap} {node : KvNode} :
    node ∈ map.nodes ↔ ∃ index, node ∈ map.buckets index := by
  simp [Hashmap.nodes, List.mem_flatMap]

namespace Hashmap.Valid

theorem bucket {map : Hashmap} {node : KvNode} (valid : map.Valid) (member : node ∈ map.nodes) :
    node ∈ map.buckets (map.index node.key) := by
  obtain ⟨index, present⟩ := mem_nodes.mp member
  rw [valid.placed index node present]
  exact present

theorem keys_nodup {map : Hashmap} (valid : map.Valid) : (map.nodes.map KvNode.key).Nodup := by
  rw [Hashmap.nodes, List.map_flatMap, List.nodup_flatMap]
  refine ⟨fun index _ => valid.distinct index, ?_⟩
  apply (List.nodup_finRange map.capacity).imp
  intro first second different key left right
  obtain ⟨node, present, same⟩ := List.mem_map.mp left
  obtain ⟨other, present', same'⟩ := List.mem_map.mp right
  apply different
  rw [← valid.placed first node present, ← valid.placed second other present', same, same']

/-- A lookup finds exactly the nodes of the table. -/
theorem lookup_eq_some {map : Hashmap} {key : CString} {value : Bytes} (valid : map.Valid) :
    map.lookup key = some value ↔ ⟨key, value⟩ ∈ map.nodes := by
  simp only [Hashmap.lookup, hashmapFind, Option.map_eq_some_iff]
  constructor
  · intro looked
    obtain ⟨node, found, rfl⟩ := looked
    obtain ⟨member, rfl⟩ := Chain.find_some found
    exact mem_nodes.mpr ⟨_, member⟩
  · intro member
    have present := valid.bucket member
    exact ⟨_, Chain.find_of_mem (valid.distinct _) present, rfl⟩

theorem create (capacity : Nat) (positive : 0 < capacity) :
    (hashmapCreate capacity positive).Valid := by
  refine ⟨?_, ?_, ?_⟩
  · intro index node member
    simp [hashmapCreate] at member
  · intro index
    simp [hashmapCreate]
  · simp [hashmapCreate, nodes_length]

/-- Replacing the chain of a key by one over the same kind of keys keeps placement. -/
private theorem setBucket_placed {map : Hashmap} {key : CString} {chain : List KvNode}
    (valid : map.Valid) (kept : ∀ node ∈ chain, map.index node.key = map.index key) :
    ∀ index, ∀ node ∈ (map.setBucket (map.index key) chain).buckets index,
      map.index node.key = index := by
  intro index node member
  by_cases same : index = map.index key
  · subst index
    rw [setBucket_same] at member
    exact kept node member
  · rw [setBucket_other map chain same] at member
    exact valid.placed index node member

private theorem setBucket_distinct {map : Hashmap} {key : CString} {chain : List KvNode}
    (valid : map.Valid) (fresh : (chain.map KvNode.key).Nodup) :
    ∀ index, (((map.setBucket (map.index key) chain).buckets index).map KvNode.key).Nodup := by
  intro index
  by_cases same : index = map.index key
  · subst index
    rw [setBucket_same]
    exact fresh
  · rw [setBucket_other map chain same]
    exact valid.distinct index

theorem insert {map : Hashmap} (valid : map.Valid) (alloc : Nat → Bool) (key : CString)
    (value : Bytes) : (hashmapInsert alloc map key value).2.Valid := by
  unfold hashmapInsert
  have chain := valid.distinct (map.index key)
  split
  · split
    · have keys : (Chain.update KvNode.key key (KvNode.setValue value)
          (map.buckets (map.index key))).map KvNode.key =
              (map.buckets (map.index key)).map KvNode.key :=
        Chain.keys_update (KvNode.setValue_key value) _
      refine ⟨valid.setBucket_placed ?_, valid.setBucket_distinct (by rw [keys]; exact chain), ?_⟩
      · intro node member
        have present : node.key ∈ (map.buckets (map.index key)).map KvNode.key := by
          rw [← keys]
          exact List.mem_map.mpr ⟨node, member, rfl⟩
        obtain ⟨old, oldMember, same⟩ := List.mem_map.mp present
        rw [← same]
        exact valid.placed _ old oldMember
      · have lengths := nodes_length_setBucket map (map.index key)
          (Chain.update KvNode.key key (KvNode.setValue value) (map.buckets (map.index key)))
        rw [Chain.length_update] at lengths
        have counted := valid.counted
        simp only [setBucket_size]
        omega
    · exact valid
  · rename_i absent
    split
    · have missing : key ∉ (map.buckets (map.index key)).map KvNode.key :=
        Chain.find_eq_none.mp absent
      refine ⟨valid.setBucket_placed ?_, valid.setBucket_distinct ?_, ?_⟩
      · intro node member
        rcases List.mem_cons.mp member with same | old
        · rw [same]
        · exact valid.placed _ node old
      · exact List.nodup_cons.mpr ⟨missing, chain⟩
      · have lengths := nodes_length_setBucket map (map.index key)
          (⟨key, value⟩ :: map.buckets (map.index key))
        have counted := valid.counted
        simp only [List.length_cons] at lengths
        change map.size + 1 = (map.setBucket (map.index key) _).nodes.length
        omega
    · exact valid

theorem remove {map : Hashmap} (valid : map.Valid) (key : CString) :
    (hashmapRemove map key).2.Valid := by
  unfold hashmapRemove
  split
  · rename_i node found
    have chain := valid.distinct (map.index key)
    refine ⟨valid.setBucket_placed ?_, valid.setBucket_distinct ?_, ?_⟩
    · intro node member
      exact valid.placed _ node (List.mem_of_mem_eraseP member)
    · exact chain.sublist Chain.keys_unlink_sublist
    · have lengths := nodes_length_setBucket map (map.index key)
        (Chain.unlink KvNode.key key (map.buckets (map.index key)))
      have shorter := Chain.length_unlink found
      have counted := valid.counted
      change map.size - 1 = (map.setBucket (map.index key) _).nodes.length
      omega
  · exact valid

end Hashmap.Valid

theorem setBucket_find_other (map : Hashmap) {key other : CString} (chain : List KvNode)
    (different : map.index other ≠ map.index key) :
    hashmapFind (map.setBucket (map.index key) chain) other = hashmapFind map other := by
  unfold hashmapFind
  rw [index_setBucket, setBucket_other map chain different]

theorem setBucket_find_same (map : Hashmap) {key other : CString} (chain : List KvNode)
    (colliding : map.index other = map.index key) :
    hashmapFind (map.setBucket (map.index key) chain) other =
      Chain.find KvNode.key other chain := by
  unfold hashmapFind
  rw [index_setBucket, colliding, setBucket_same]

/-- A successful insertion binds its key and leaves every other key alone,
whether or not the keys collide. -/
theorem lookup_insert (map : Hashmap) (key other : CString) (value : Bytes) :
    (hashmapInsert (fun _ => true) map key value).2.lookup other =
      if other = key then some value else map.lookup other := by
  unfold hashmapInsert
  split
  · rename_i node found
    simp only [↓reduceIte, Hashmap.lookup]
    by_cases colliding : map.index other = map.index key
    · rw [setBucket_find_same map _ colliding]
      by_cases same : other = key
      · subst other
        rw [Chain.find_update_same (KvNode.setValue_key value)]
        have chainFound : Chain.find KvNode.key key (map.buckets (map.index key)) = some node :=
          found
        simp [chainFound, KvNode.setValue]
      · rw [Chain.find_update_other (KvNode.setValue_key value) same, ← colliding]
        simp [same, hashmapFind]
    · have different : other ≠ key := fun same => colliding (by rw [same])
      rw [setBucket_find_other map _ colliding]
      simp [different]
  · rename_i absent
    simp only [Bool.and_self, ↓reduceIte, Hashmap.lookup]
    change (hashmapFind (map.setBucket (map.index key) _) other).map KvNode.value = _
    by_cases colliding : map.index other = map.index key
    · rw [setBucket_find_same map _ colliding]
      by_cases same : other = key
      · subst other
        simp [Chain.find_cons_same]
      · rw [Chain.find_cons_other _ (Ne.symm same), ← colliding]
        simp [same, hashmapFind]
    · have different : other ≠ key := fun same => colliding (by rw [same])
      rw [setBucket_find_other map _ colliding]
      simp [different]

theorem lookup_remove {map : Hashmap} (valid : map.Valid) (key other : CString) :
    (hashmapRemove map key).2.lookup other = if other = key then none else map.lookup other := by
  unfold hashmapRemove
  split
  · simp only [Hashmap.lookup]
    change (hashmapFind (map.setBucket (map.index key) _) other).map KvNode.value = _
    by_cases colliding : map.index other = map.index key
    · rw [setBucket_find_same map _ colliding]
      by_cases same : other = key
      · subst other
        rw [Chain.find_unlink_same (valid.distinct _)]
        simp
      · rw [Chain.find_unlink_other same, ← colliding]
        simp [same, hashmapFind]
    · have different : other ≠ key := fun same => colliding (by rw [same])
      rw [setBucket_find_other map _ colliding]
      simp [different]
  · rename_i absent
    by_cases same : other = key
    · subst other
      simp [Hashmap.lookup, absent]
    · simp [same]

theorem insert_status (map : Hashmap) (key : CString) (value : Bytes) :
    (hashmapInsert (fun _ => true) map key value).1 = 0 := by
  unfold hashmapInsert
  split <;> rfl

theorem insert_size (map : Hashmap) (key : CString) (value : Bytes) :
    (hashmapInsert (fun _ => true) map key value).2.size =
      if (map.lookup key).isSome then map.size else map.size + 1 := by
  unfold hashmapInsert Hashmap.lookup
  split
  · rename_i found
    simp [found]
  · rename_i absent
    simp [absent]

/-- Removal answers zero exactly when the key is bound. -/
theorem remove_status (map : Hashmap) (key : CString) :
    (hashmapRemove map key).1 = if (map.lookup key).isSome then 0 else -1 := by
  unfold hashmapRemove Hashmap.lookup
  split
  · rename_i found
    simp [found]
  · rename_i absent
    simp [absent]

theorem remove_size (map : Hashmap) (key : CString) :
    (hashmapRemove map key).2.size =
      if (map.lookup key).isSome then map.size - 1 else map.size := by
  unfold hashmapRemove Hashmap.lookup
  split
  · rename_i found
    simp [found]
  · rename_i absent
    simp [absent]

end LinuxCLearning.KvDatabase
