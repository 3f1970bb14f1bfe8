import LinuxCLearning.MemoryPool.PoolInvariant

/-! What each operation of the pool does to the two lists, given the pool
invariant. Pointers handed to users are the data addresses of used blocks. -/

namespace LinuxCLearning.MemoryPool

open LinkedList

theorem blockHeaderSize_eq : blockHeaderSize = 32 := by decide

@[simp] theorem getBlockHeader_getBlockData (block : Nat) :
    getBlockHeader (getBlockData block) = block := by
  simp [getBlockHeader, getBlockData]

theorem stride_pos (pool : Mempool) : 0 < pool.stride := by
  rw [Mempool.stride, blockHeaderSize_eq]
  omega

theorem blockAt_injective (pool : Mempool) {first second : Nat}
    (same : pool.blockAt first = pool.blockAt second) : first = second := by
  unfold Mempool.blockAt at same
  exact Nat.eq_of_mul_eq_mul_right (stride_pos pool) (by omega)

theorem headers_nodup (pool : Mempool) : pool.headers.Nodup :=
  List.Nodup.map (fun _ _ same => blockAt_injective pool same) List.nodup_range

section Init
variable (heap : Heap) (pool : Mempool)

/-- The loop of `init_blocks` after its first `rounds` rounds. -/
private def initRounds (rounds : Nat) : Heap :=
  (List.range rounds).foldl
    (fun heap index => heap.edit (pool.blockAt index) (fun _ => pool.initialBlock index)) heap

private theorem initRounds_block {rounds index : Nat} (inside : index < rounds) :
    (initRounds heap pool rounds).block (pool.blockAt index) = pool.initialBlock index := by
  induction rounds with
  | zero => omega
  | succ rounds ih =>
    have step : initRounds heap pool (rounds + 1) = (initRounds heap pool rounds).edit
        (pool.blockAt rounds) (fun _ => pool.initialBlock rounds) := by
      simp [initRounds, List.range_succ]
    rw [step, edit_block]
    by_cases last : index = rounds
    · subst index
      simp
    · have different : pool.blockAt index ≠ pool.blockAt rounds :=
        fun same => last (blockAt_injective pool same)
      rw [if_neg different]
      exact ih (by omega)

theorem initBlocks_block {index : Nat} (inside : index < pool.blockCount) :
    (initBlocks heap pool).1.block (pool.blockAt index) = pool.initialBlock index :=
  initRounds_block heap pool inside

/-- The headers from block `start` on form the tail of one doubly linked list. -/
private theorem initBlocks_segment (count start : Nat) (total : start + count = pool.blockCount) :
    Segment (initBlocks heap pool).1.next (initBlocks heap pool).1.prev
      (if start > 0 then some (pool.blockAt (start - 1)) else none)
      ((List.range' start count).map pool.blockAt) none := by
  induction count generalizing start with
  | zero => trivial
  | succ count ih =>
    have written := initBlocks_block heap pool (show start < pool.blockCount by omega)
    rw [List.range'_succ, List.map_cons]
    refine ⟨?_, ?_, ?_⟩
    · simp [Heap.prev, written, Mempool.initialBlock]
    · simp only [Heap.next, written, Mempool.initialBlock, Option.or_none]
      cases count with
      | zero =>
        have last : ¬ start < pool.blockCount - 1 := by omega
        simp [last]
      | succ count =>
        have more : start < pool.blockCount - 1 := by omega
        simp [more, List.range'_succ]
    · simpa using ih (start + 1) (by omega)

theorem initBlocks_linked (nonempty : 0 < pool.blockCount) :
    Linked (initBlocks heap pool).1.next (initBlocks heap pool).1.prev
      (initBlocks heap pool).2.freeList pool.headers := by
  have segment := initBlocks_segment heap pool pool.blockCount 0 (by omega)
  rw [Mempool.headers, List.range_eq_range']
  refine ⟨?_, by simpa using segment⟩
  obtain ⟨count, same⟩ := Nat.exists_eq_succ_of_ne_zero (Nat.ne_of_gt nonempty)
  simp [initBlocks, same, List.range'_succ, Mempool.blockAt]

theorem mem_headers {pool : Mempool} {block : Nat} :
    block ∈ pool.headers ↔ ∃ index, index < pool.blockCount ∧ pool.blockAt index = block := by
  simp [Mempool.headers]

end Init

theorem ListsHold.init (heap : Heap) (pool : Mempool) (nonempty : 0 < pool.blockCount) :
    ListsHold (initBlocks heap pool).1 (initBlocks heap pool).2 pool.headers [] := by
  have written : ∀ block ∈ pool.headers, ∃ index,
      (initBlocks heap pool).1.block block = pool.initialBlock index := by
    intro block member
    obtain ⟨index, inside, same⟩ := mem_headers.mp member
    exact ⟨index, same ▸ initBlocks_block heap pool inside⟩
  have everywhere : ∀ block ∈ pool.headers ++ [], ∃ index,
      (initBlocks heap pool).1.block block = pool.initialBlock index := by
    simpa using written
  exact {
    freeLinked := initBlocks_linked heap pool nonempty
    usedLinked := ⟨rfl, trivial⟩
    distinct := by simpa using headers_nodup pool
    everyBlock := by rw [List.append_nil]; exact List.Perm.refl _
    freeFlag := fun block member => by
      obtain ⟨index, same⟩ := written block member
      simp [same, Mempool.initialBlock]
    usedFlag := by simp
    magic := fun block member => by
      obtain ⟨index, same⟩ := everywhere block member
      simp [same, Mempool.initialBlock]
    blockSize := fun block member => by
      obtain ⟨index, same⟩ := everywhere block member
      rw [same]
      rfl }

theorem Counted.init {pool : Mempool} (layout : pool.totalSize = pool.stride * pool.blockCount)
    (fits : pool.totalSize < 2 ^ 64) (usedSize : pool.stats.usedSize = 0)
    (freeSize : pool.stats.freeSize = pool.totalSize) (usedBlocks : pool.stats.usedBlocks = 0)
    (freeBlocks : pool.stats.freeBlocks = pool.blockCount)
    (totalSize : pool.stats.totalSize = pool.totalSize) :
    Counted pool pool.headers.length ([] : List Nat).length where
  freeBlocks := by simp [freeBlocks, Mempool.headers]
  usedBlocks := by simp [usedBlocks]
  usedSize := by simp [usedSize, usedBlocks]
  sizes := by simp [usedSize, freeSize, totalSize]
  maxUsed := by simp [usedSize]
  totalSize := totalSize
  layout := layout
  blocks := by simp [Mempool.headers]
  fits := fits

/-- None of the size computations of `mempool_create` wraps. -/
def SizesFit (blockSize blockCount : Nat) : Prop :=
  blockSize + alignment ≤ 2 ^ 64 ∧
    (roundedBlockSize blockSize + blockHeaderSize) * blockCount < 2 ^ 64

section Create
variable {structOk threadSafe : Bool} {memory : Option Nat} {before heap : Heap}
  {blockSize blockCount : Nat}
  {pool : Mempool}

/-- The blocks of a new pool, whatever its sizes are. -/
theorem mempoolCreate_lists
    (created : mempoolCreate structOk memory before blockSize blockCount threadSafe =
      some (heap, pool)) :
    ListsHold heap pool pool.headers [] ∧ 0 < pool.blockCount := by
  unfold mempoolCreate at created
  split at created
  · cases created
  · rename_i counted
    split at created
    · cases created
    · split at created
      · cases created
      · cases created
        have positive := Nat.pos_of_ne_zero counted
        exact ⟨ListsHold.init _ _ positive, positive⟩

theorem mempoolCreate_counted
    (created : mempoolCreate structOk memory before blockSize blockCount threadSafe =
      some (heap, pool))
    (fit : SizesFit blockSize blockCount) :
      Counted pool pool.headers.length ([] : List Nat).length := by
  unfold mempoolCreate at created
  split at created
  · cases created
  · rename_i counted
    split at created
    · cases created
    · split at created
      · cases created
      · cases created
        have positive := Nat.pos_of_ne_zero counted
        have single : roundedBlockSize blockSize + blockHeaderSize < 2 ^ 64 :=
          Nat.lt_of_le_of_lt (Nat.le_mul_of_pos_right _ positive) fit.2
        refine Counted.init ?_ (Nat.mod_lt _ (by decide)) rfl rfl rfl rfl rfl
        change ((roundedBlockSize blockSize + blockHeaderSize) % 2 ^ 64 * blockCount) % 2 ^ 64 =
          (roundedBlockSize blockSize + blockHeaderSize) * blockCount
        rw [Nat.mod_eq_of_lt single, Nat.mod_eq_of_lt fit.2]

end Create

section Operations
variable {heap : Heap} {pool : Mempool} {free used : List Nat}

theorem ListsHold.checkMagic {block : Nat} (lists : ListsHold heap pool free used)
    (member : block ∈ free ++ used) : checkMagic heap block = true := by
  simp [MemoryPool.checkMagic, lists.magic block member]

/-- `mempool_alloc` either fails and only counts, or hands out the first free
block. -/
theorem mempoolAlloc_cases (lists : ListsHold heap pool free used) (size : Nat) :
    (∃ count, mempoolAlloc heap pool size =
      (none, heap, { pool with stats.failCount := count })) ∨
    ∃ block rest, free = block :: rest ∧ mempoolAlloc heap pool size =
      (some (getBlockData block), allocMove heap pool block) := by
  unfold mempoolAlloc
  split
  · exact .inl ⟨_, rfl⟩
  · split
    · exact .inl ⟨_, rfl⟩
    · rename_i block listed
      have first := lists.freeLinked.1
      rw [listed] at first
      cases free with
      | nil => cases first
      | cons head rest =>
        cases first
        have sound := lists.checkMagic (List.mem_cons_self : block ∈ block :: (rest ++ used))
        exact .inr ⟨block, rest, rfl, by simp [sound]⟩

theorem mempoolFree_used (lists : ListsHold heap pool free used) {block : Nat}
    (member : block ∈ used) :
    mempoolFree heap pool (some (getBlockData block)) = (.ok, freeMove heap pool block) ∧
      ListsHold (freeMove heap pool block).1 (freeMove heap pool block).2 (block :: free)
        (used.erase block) := by
  have sound := lists.checkMagic (List.mem_append_right free member)
  have flag := lists.usedFlag block member
  refine ⟨by simp [mempoolFree, freeCheck, sound, flag], ?_⟩
  obtain ⟨front, back, same⟩ := List.append_of_mem member
  have distinct := (List.nodup_append.mp lists.distinct).2.1
  subst used
  have notFront : block ∉ front := fun earlier =>
    (List.nodup_append.mp distinct).2.2 block earlier block (by simp) rfl
  rw [List.erase_append_right _ notFront, List.erase_cons_head]
  exact lists.freeMove

theorem mempoolFree_free (lists : ListsHold heap pool free used) {block : Nat}
    (member : block ∈ free) :
    mempoolFree heap pool (some (getBlockData block)) = (.doubleFree, heap, pool) := by
  have sound := lists.checkMagic (List.mem_append_left used member)
  have flag := lists.freeFlag block member
  simp [mempoolFree, freeCheck, sound, flag]

theorem mempoolReset_lists (heap : Heap) (pool : Mempool) (nonempty : 0 < pool.blockCount) :
    ListsHold (mempoolReset heap pool).1 (mempoolReset heap pool).2 pool.headers [] :=
  { ListsHold.init heap pool nonempty with }

theorem mempoolReset_counted {free used : Nat} (counted : Counted pool free used) (heap : Heap) :
    Counted (mempoolReset heap pool).2 pool.headers.length ([] : List Nat).length :=
  Counted.init counted.layout counted.fits rfl rfl rfl rfl counted.totalSize

/-- A walk over one list of the pool counts it, given enough fuel. -/
theorem checkList_linked {flag : Bool} {before : Option Nat} (nodes : List Nat)
    (segment : Segment heap.next heap.prev before nodes none)
    (sound : ∀ block ∈ nodes, checkMagic heap block = true ∧ (heap.block block).isFree = flag)
    {fuel : Nat} (enough : nodes.length ≤ fuel) (count : Nat) :
    checkList heap flag fuel nodes.head? count = some (.ok (count + nodes.length)) := by
  induction nodes generalizing before fuel count with
  | nil => cases fuel <;> rfl
  | cons block rest ih =>
    obtain ⟨_, onward, tail⟩ := segment
    obtain ⟨magic, same⟩ := sound block (by simp)
    cases fuel with
    | zero => simp at enough
    | succ fuel =>
      have onward' : (heap.block block).next = rest.head? := by
        simpa [Heap.next] using onward
      have later := ih tail (fun other member => sound other (by simp [member]))
        (Nat.le_of_succ_le_succ enough) (count + 1)
      simp only [List.head?_cons, checkList, magic, same, onward',
        Bool.not_true, Bool.false_eq_true,
        ne_eq, not_true_eq_false, ↓reduceIte, later, List.length_cons]
      congr 2
      omega

theorem mempoolCheck_ok (invariant : PoolInvariant heap pool free used) {fuel : Nat}
    (enough : pool.blockCount ≤ fuel) : mempoolCheck fuel heap pool = some .ok := by
  have count := invariant.blocks
  have freeWalk := checkList_linked free invariant.freeLinked.2
    (fun block member => ⟨invariant.checkMagic (List.mem_append_left used member),
      invariant.freeFlag block member⟩) (show free.length ≤ fuel by omega) 0
  have usedWalk := checkList_linked used invariant.usedLinked.2
    (fun block member => ⟨invariant.checkMagic (List.mem_append_right free member),
      invariant.usedFlag block member⟩) (show used.length ≤ fuel by omega) 0
  rw [← invariant.freeLinked.1] at freeWalk
  rw [← invariant.usedLinked.1] at usedWalk
  simp [mempoolCheck, freeWalk, usedWalk, invariant.freeBlocks, invariant.usedBlocks]

end Operations

end LinuxCLearning.MemoryPool
