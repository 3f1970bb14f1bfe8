import LinuxCLearning.Base.LinkedList
import LinuxCLearning.MemoryPool.Pool

namespace LinuxCLearning.MemoryPool

open LinkedList

def Heap.next (heap : Heap) (block : Nat) : Option Nat := (heap.block block).next
def Heap.prev (heap : Heap) (block : Nat) : Option Nat := (heap.block block).prev

/-- Addresses of all headers of the pool. -/
def Mempool.headers (pool : Mempool) : List Nat := (List.range pool.blockCount).map pool.blockAt

/-- The pool's two intrusive lists hold these blocks. -/
structure ListsHold (heap : Heap) (pool : Mempool) (free used : List Nat) : Prop where
  freeLinked : Linked heap.next heap.prev pool.freeList free
  usedLinked : Linked heap.next heap.prev pool.usedList used
  distinct : (free ++ used).Nodup
  everyBlock : (free ++ used).Perm pool.headers
  freeFlag : ∀ block ∈ free, (heap.block block).isFree = true
  usedFlag : ∀ block ∈ used, (heap.block block).isFree = false
  magic : ∀ block ∈ free ++ used, (heap.block block).magic = magicNumber
  blockSize : ∀ block ∈ free ++ used, (heap.block block).size = pool.blockSize

/-- The counters of a pool with so many free and used blocks, whose size does not wrap. -/
structure Counted (pool : Mempool) (free used : Nat) : Prop where
  freeBlocks : pool.stats.freeBlocks = free
  usedBlocks : pool.stats.usedBlocks = used
  usedSize : pool.stats.usedSize = pool.stats.usedBlocks * pool.blockSize
  sizes : pool.stats.usedSize + pool.stats.freeSize = pool.stats.totalSize
  maxUsed : pool.stats.usedSize ≤ pool.stats.maxUsed
  totalSize : pool.stats.totalSize = pool.totalSize
  layout : pool.totalSize = pool.stride * pool.blockCount
  blocks : free + used = pool.blockCount
  fits : pool.totalSize < 2 ^ 64

/-- The pool's two intrusive lists hold these blocks and its counters describe
them. -/
structure PoolInvariant (heap : Heap) (pool : Mempool) (free used : List Nat) : Prop
    extends ListsHold heap pool free used, Counted pool free.length used.length

@[simp] theorem edit_block (heap : Heap) (block other : Nat) (change : Block → Block) :
    (heap.edit block change).block other =
      if other = block then change (heap.block other) else heap.block other := by
  unfold Heap.edit
  by_cases same : other = block
  · subst other
    simp
  · simp [same]

@[simp] theorem editIf_block (heap : Heap) (target : Option Nat) (other : Nat)
    (change : Block → Block) :
    (heap.editIf target change).block other =
      if target = some other then change (heap.block other) else heap.block other := by
  cases target with
  | none => simp [Heap.editIf]
  | some block => simp [Heap.editIf, eq_comm]

section Moves
variable (heap : Heap) (pool : Mempool) (block other : Nat)

theorem allocMove_next : (allocMove heap pool block).1.next other =
    if other = block then pool.usedList else heap.next other := by
  simp only [allocMove, Heap.next, editIf_block, edit_block]
  split_ifs <;> simp_all

theorem allocMove_prev : (allocMove heap pool block).1.prev other =
    if pool.usedList = some other then some block
    else if other = block then none
    else if heap.next block = some other then none
    else heap.prev other := by
  simp only [allocMove, Heap.next, Heap.prev, editIf_block, edit_block]
  split_ifs <;> simp_all

theorem allocMove_header :
    ((allocMove heap pool block).1.block other).isFree =
        (if other = block then false else (heap.block other).isFree) ∧
      ((allocMove heap pool block).1.block other).magic = (heap.block other).magic ∧
      ((allocMove heap pool block).1.block other).size = (heap.block other).size := by
  simp only [allocMove, editIf_block, edit_block]
  split_ifs <;> exact ⟨rfl, rfl, rfl⟩

theorem freeMove_header :
    ((freeMove heap pool block).1.block other).isFree =
        (if other = block then true else (heap.block other).isFree) ∧
      ((freeMove heap pool block).1.block other).magic = (heap.block other).magic ∧
      ((freeMove heap pool block).1.block other).size = (heap.block other).size := by
  simp only [freeMove, editIf_block, edit_block]
  split_ifs <;> exact ⟨rfl, rfl, rfl⟩

variable {block}

theorem freeMove_next (apart : heap.prev block ≠ some block) :
    (freeMove heap pool block).1.next other =
      if other = block then pool.freeList
      else if heap.prev block = some other then heap.next block
      else heap.next other := by
  simp only [Heap.prev] at apart
  simp only [freeMove, Heap.next, Heap.prev, editIf_block, edit_block, apart, ↓reduceIte]
  split_ifs <;> simp_all

theorem freeMove_prev (apart : heap.prev block ≠ some block) :
    (freeMove heap pool block).1.prev other =
      if pool.freeList = some other then some block
      else if other = block then none
      else if heap.next block = some other then heap.prev block
      else heap.prev other := by
  simp only [Heap.prev] at apart
  simp only [freeMove, Heap.next, Heap.prev, editIf_block, edit_block, apart, ↓reduceIte]
  split_ifs <;> simp_all

end Moves

section Links
variable {heap : Heap} {pool : Mempool} {free used rest front back : List Nat} {block : Nat}

theorem allocMove_pops (freeLinked : Linked heap.next heap.prev pool.freeList (block :: rest))
    (usedLinked : Linked heap.next heap.prev pool.usedList used)
    (distinct : (block :: rest ++ used).Nodup) :
    Linked (allocMove heap pool block).1.next (allocMove heap pool block).1.prev (heap.next block)
      rest := by
  obtain ⟨fresh, restNodup⟩ := List.nodup_cons.mp distinct
  obtain ⟨restDistinct, _, apart⟩ := List.nodup_append.mp restNodup
  have notRest : block ∉ rest := fun member => fresh (by simp [member])
  have onward : heap.next block = rest.head? := by simpa [Segment] using freeLinked.2.2.1
  have notUsedHead : ∀ other ∈ rest, pool.usedList ≠ some other := fun other member same =>
    apart other member other (List.mem_of_mem_head? (usedLinked.1.symm.trans same)) rfl
  refine freeLinked.pop ?_ ?_ ?_
  · intro other member
    rw [allocMove_next, if_neg (ne_of_mem_of_not_mem member notRest)]
  · intro other first
    have member := List.mem_of_mem_head? first
    rw [allocMove_prev, if_neg (notUsedHead other member),
      if_neg (ne_of_mem_of_not_mem member notRest),
      if_pos (onward.trans first)]
  · intro other later
    have member := List.mem_of_mem_tail later
    have notFirst : heap.next block ≠ some other := by
      rw [onward]
      exact head?_ne_of_mem_tail restDistinct later
    rw [allocMove_prev, if_neg (notUsedHead other member),
      if_neg (ne_of_mem_of_not_mem member notRest),
      if_neg notFirst]

theorem allocMove_pushes (freeLinked : Linked heap.next heap.prev pool.freeList (block :: rest))
    (usedLinked : Linked heap.next heap.prev pool.usedList used)
    (distinct : (block :: rest ++ used).Nodup) :
    Linked (allocMove heap pool block).1.next (allocMove heap pool block).1.prev (some block)
      (block :: used) := by
  obtain ⟨fresh, restNodup⟩ := List.nodup_cons.mp distinct
  obtain ⟨_, usedDistinct, apart⟩ := List.nodup_append.mp restNodup
  have notUsed : block ∉ used := fun member => fresh (by simp [member])
  have onward : heap.next block = rest.head? := by simpa [Segment] using freeLinked.2.2.1
  have usedHead := usedLinked.1
  refine usedLinked.push ?_ ?_ ?_ ?_ ?_
  · rw [allocMove_next, if_pos rfl]
  · have notHead : pool.usedList ≠ some block := fun same =>
      notUsed (List.mem_of_mem_head? (usedHead.symm.trans same))
    rw [allocMove_prev, if_neg notHead, if_pos rfl]
  · intro other member
    rw [allocMove_next, if_neg (ne_of_mem_of_not_mem member notUsed)]
  · intro other first
    rw [allocMove_prev, if_pos (usedHead.trans first)]
  · intro other later
    have member := List.mem_of_mem_tail later
    have notFirst : pool.usedList ≠ some other := by
      rw [usedHead]
      exact head?_ne_of_mem_tail usedDistinct later
    have notNext : heap.next block ≠ some other := fun same =>
      apart other (List.mem_of_mem_head? (onward.symm.trans same)) other member rfl
    rw [allocMove_prev, if_neg notFirst, if_neg (ne_of_mem_of_not_mem member notUsed),
      if_neg notNext]

theorem used_loose (usedLinked : Linked heap.next heap.prev pool.usedList (front ++ block :: back))
    (distinct : (block :: free ++ (front ++ back)).Nodup) : heap.prev block ≠ some block := by
  obtain ⟨_, backward, _, _⟩ := segment_split.mp usedLinked.2
  intro same
  have member : block ∈ front := List.mem_of_getLast? (backward.symm.trans same)
  exact (List.nodup_cons.mp distinct).1 (by simp [member])

theorem freeMove_pushes (freeLinked : Linked heap.next heap.prev pool.freeList free)
    (usedLinked : Linked heap.next heap.prev pool.usedList (front ++ block :: back))
    (distinct : (block :: free ++ (front ++ back)).Nodup) :
    Linked (freeMove heap pool block).1.next (freeMove heap pool block).1.prev (some block)
      (block :: free) := by
  obtain ⟨fresh, restNodup⟩ := List.nodup_cons.mp distinct
  obtain ⟨freeDistinct, _, apart⟩ := List.nodup_append.mp restNodup
  have notFree : block ∉ free := fun member => fresh (by simp [member])
  obtain ⟨_, backward, onward, _⟩ := segment_split.mp usedLinked.2
  have loose := used_loose usedLinked distinct
  have freeHead := freeLinked.1
  refine freeLinked.push ?_ ?_ ?_ ?_ ?_
  · rw [freeMove_next _ _ _ loose, if_pos rfl]
  · have notHead : pool.freeList ≠ some block := fun same =>
      notFree (List.mem_of_mem_head? (freeHead.symm.trans same))
    rw [freeMove_prev _ _ _ loose, if_neg notHead, if_pos rfl]
  · intro other member
    have notPrev : heap.prev block ≠ some other := fun same =>
      apart other member other
        (List.mem_append_left _ (List.mem_of_getLast? (backward.symm.trans same))) rfl
    rw [freeMove_next _ _ _ loose, if_neg (ne_of_mem_of_not_mem member notFree), if_neg notPrev]
  · intro other first
    rw [freeMove_prev _ _ _ loose, if_pos (freeHead.trans first)]
  · intro other later
    have member := List.mem_of_mem_tail later
    have notFirst : pool.freeList ≠ some other := by
      rw [freeHead]
      exact head?_ne_of_mem_tail freeDistinct later
    have notNext : heap.next block ≠ some other := fun same =>
      apart other member other
        (List.mem_append_right _ (List.mem_of_mem_head? (onward.symm.trans same))) rfl
    rw [freeMove_prev _ _ _ loose, if_neg notFirst, if_neg (ne_of_mem_of_not_mem member notFree),
      if_neg notNext]

theorem freeMove_unlinks (freeLinked : Linked heap.next heap.prev pool.freeList free)
    (usedLinked : Linked heap.next heap.prev pool.usedList (front ++ block :: back))
    (distinct : (block :: free ++ (front ++ back)).Nodup) :
    Linked (freeMove heap pool block).1.next (freeMove heap pool block).1.prev
      (freeMove heap pool block).2.usedList (front ++ back) := by
  obtain ⟨fresh, restNodup⟩ := List.nodup_cons.mp distinct
  obtain ⟨_, usedDistinct, apart⟩ := List.nodup_append.mp restNodup
  obtain ⟨frontDistinct, backDistinct, sides⟩ := List.nodup_append.mp usedDistinct
  have notFront : block ∉ front := fun member => fresh (by simp [member])
  have notBack : block ∉ back := fun member => fresh (by simp [member])
  obtain ⟨_, backward, onward, _⟩ := segment_split.mp usedLinked.2
  have loose := used_loose usedLinked distinct
  have notFreeHead : ∀ other ∈ front ++ back, pool.freeList ≠ some other := fun other member same =>
    apart other (List.mem_of_mem_head? (freeLinked.1.symm.trans same)) other member rfl
  refine usedLinked.unlink ?_ ?_ ?_ ?_ ?_ ?_ ?_
  · have usedHead := usedLinked.1
    have backward' : (heap.block block).prev = front.getLast? := backward
    have onward' : (heap.block block).next = back.head? := onward
    simp only [MemoryPool.freeMove, backward', onward', usedHead]
    cases front with
    | nil => simp
    | cons first rest => simp [List.getLast?_cons]
  · intro other member
    have notNext : heap.next block ≠ some other := fun same =>
      sides other member other (List.mem_of_mem_head? (onward.symm.trans same)) rfl
    rw [freeMove_prev _ _ _ loose, if_neg (notFreeHead other (by simp [member])),
      if_neg (ne_of_mem_of_not_mem member notFront), if_neg notNext]
  · intro other last
    have member := List.mem_of_getLast? last
    rw [freeMove_next _ _ _ loose, if_neg (ne_of_mem_of_not_mem member notFront),
      if_pos (backward.trans last), onward]
  · intro other earlier
    have member := List.mem_of_mem_dropLast earlier
    have notLast : heap.prev block ≠ some other := by
      rw [backward]
      exact getLast?_ne_of_mem_dropLast frontDistinct earlier
    rw [freeMove_next _ _ _ loose, if_neg (ne_of_mem_of_not_mem member notFront), if_neg notLast]
  · intro other member
    have notPrev : heap.prev block ≠ some other := fun same =>
      sides other (List.mem_of_getLast? (backward.symm.trans same)) other member rfl
    rw [freeMove_next _ _ _ loose, if_neg (ne_of_mem_of_not_mem member notBack), if_neg notPrev]
  · intro other first
    have member := List.mem_of_mem_head? first
    rw [freeMove_prev _ _ _ loose, if_neg (notFreeHead other (by simp [member])),
      if_neg (ne_of_mem_of_not_mem member notBack), if_pos (onward.trans first), backward]
  · intro other later
    have member := List.mem_of_mem_tail later
    have notFirst : heap.next block ≠ some other := by
      rw [onward]
      exact head?_ne_of_mem_tail backDistinct later
    rw [freeMove_prev _ _ _ loose, if_neg (notFreeHead other (by simp [member])),
      if_neg (ne_of_mem_of_not_mem member notBack), if_neg notFirst]

end Links

namespace ListsHold
variable {heap : Heap} {pool : Mempool} {free used : List Nat}

theorem sameBlocks (lists : ListsHold heap pool free used) (other : Heap)
    (same : other.block = heap.block) :
    ListsHold other pool free used := by
  have next : other.next = heap.next := by
    funext block
    simp [Heap.next, same]
  have prev : other.prev = heap.prev := by
    funext block
    simp [Heap.prev, same]
  have freeLinked := lists.freeLinked
  have usedLinked := lists.usedLinked
  rw [← next, ← prev] at freeLinked usedLinked
  exact { lists with
    freeLinked := freeLinked
    usedLinked := usedLinked
    freeFlag := by simpa [same] using lists.freeFlag
    usedFlag := by simpa [same] using lists.usedFlag
    magic := by simpa [same] using lists.magic
    blockSize := by simpa [same] using lists.blockSize }

/-- A failed request only counts. -/
theorem failed (lists : ListsHold heap pool free used) (count : Nat) :
    ListsHold heap { pool with stats.failCount := count } free used :=
  { lists with }

theorem allocMove {block : Nat} {rest : List Nat}
    (lists : ListsHold heap pool (block :: rest) used) :
    ListsHold (allocMove heap pool block).1 (allocMove heap pool block).2 rest (block :: used) := by
  have distinct := lists.distinct
  have fresh := (List.nodup_cons.mp distinct).1
  have notRest : block ∉ rest := fun member => fresh (by simp [member])
  have notUsed : block ∉ used := fun member => fresh (by simp [member])
  have permuted : (rest ++ block :: used).Perm (block :: rest ++ used) := List.perm_middle
  have header (other : Nat) := allocMove_header heap pool block other
  refine {
    freeLinked := allocMove_pops lists.freeLinked lists.usedLinked distinct
    usedLinked := allocMove_pushes lists.freeLinked lists.usedLinked distinct
    distinct := permuted.nodup_iff.mpr distinct
    everyBlock := permuted.trans lists.everyBlock
    freeFlag := ?_
    usedFlag := ?_
    magic := ?_
    blockSize := ?_ }
  · intro other member
    rw [(header other).1, if_neg (ne_of_mem_of_not_mem member notRest)]
    exact lists.freeFlag other (by simp [member])
  · intro other member
    rw [(header other).1]
    rcases List.mem_cons.mp member with same | old
    · rw [if_pos same]
    · rw [if_neg (ne_of_mem_of_not_mem old notUsed)]
      exact lists.usedFlag other old
  · intro other member
    rw [(header other).2.1]
    exact lists.magic other (permuted.subset member)
  · intro other member
    rw [(header other).2.2]
    exact lists.blockSize other (permuted.subset member)

/-- A used block moves to the front of the free list, wherever it stood. -/
theorem freeMove {block : Nat} {front back : List Nat}
    (lists : ListsHold heap pool free (front ++ block :: back)) :
    ListsHold (freeMove heap pool block).1 (freeMove heap pool block).2 (block :: free)
      (front ++ back) := by
  have permuted : (block :: free ++ (front ++ back)).Perm (free ++ (front ++ block :: back)) := by
    rw [← List.append_assoc free front, List.cons_append, ← List.append_assoc]
    exact List.perm_middle.symm
  have distinct := permuted.nodup_iff.mpr lists.distinct
  have fresh := (List.nodup_cons.mp distinct).1
  have notFree : block ∉ free := fun member => fresh (by simp [member])
  have header (other : Nat) := freeMove_header heap pool block other
  refine {
    freeLinked := freeMove_pushes lists.freeLinked lists.usedLinked distinct
    usedLinked := freeMove_unlinks lists.freeLinked lists.usedLinked distinct
    distinct := distinct
    everyBlock := permuted.trans lists.everyBlock
    freeFlag := ?_
    usedFlag := ?_
    magic := ?_
    blockSize := ?_ }
  · intro other member
    rw [(header other).1]
    rcases List.mem_cons.mp member with same | old
    · rw [if_pos same]
    · rw [if_neg (ne_of_mem_of_not_mem old notFree)]
      exact lists.freeFlag other old
  · intro other member
    have different : other ≠ block := by
      intro same
      subst other
      exact fresh (by simp [List.mem_append.mp member])
    rw [(header other).1, if_neg different]
    apply lists.usedFlag other
    rcases List.mem_append.mp member with left | right
    · simp [left]
    · simp [right]
  · intro other member
    rw [(header other).2.1]
    exact lists.magic other (permuted.subset member)
  · intro other member
    rw [(header other).2.2]
    exact lists.blockSize other (permuted.subset member)

end ListsHold

section Sizes

theorem sizeAdd_eq {left right : Nat} (fits : left + right < 2 ^ 64) :
    sizeAdd left right = left + right :=
  Nat.mod_eq_of_lt fits

theorem sizeSub_eq {left right : Nat} (enough : right ≤ left) (fits : left < 2 ^ 64) :
    sizeSub left right = left - right := by
  unfold sizeSub
  omega

end Sizes

namespace Counted
variable {pool : Mempool} {free used : Nat}

theorem failed (counted : Counted pool free used) (count : Nat) :
    Counted { pool with stats.failCount := count } free used :=
  { counted with }

/-- So many blocks of the pool, and their bytes, are within its size. -/
theorem within (counted : Counted pool free used) {count : Nat} (some : count ≤ pool.blockCount) :
    count ≤ pool.totalSize ∧ count * pool.blockSize ≤ pool.totalSize := by
  rw [counted.layout, Nat.mul_comm pool.stride]
  constructor
  · exact some.trans
      (Nat.le_mul_of_pos_right
        _ (by simp [Mempool.stride, blockHeaderSize, alignUp, blockStructSize,
      alignment]))
  · exact Nat.mul_le_mul some (by simp [Mempool.stride])

/-- The bytes that are not used are those of the free blocks and of all headers. -/
theorem bytes (counted : Counted pool free used) :
    pool.stats.usedSize = used * pool.blockSize ∧
      used * pool.blockSize + pool.stats.freeSize = pool.totalSize := by
  have usedSize := counted.usedSize
  rw [counted.usedBlocks] at usedSize
  exact ⟨usedSize, by rw [← usedSize, counted.sizes, counted.totalSize]⟩

theorem allocMove (counted : Counted pool (free + 1) used) (heap : Heap) (block : Nat) :
    Counted (MemoryPool.allocMove heap pool block).2 free (used + 1) := by
  obtain ⟨usedSize, sum⟩ := counted.bytes
  have blocks := counted.blocks
  have fits := counted.fits
  obtain ⟨_, more⟩ := counted.within (show used + 1 ≤ pool.blockCount by omega)
  obtain ⟨all, _⟩ := counted.within (Nat.le_refl pool.blockCount)
  rw [Nat.add_mul, Nat.one_mul] at more
  have grown : sizeAdd pool.stats.usedSize pool.blockSize = pool.stats.usedSize + pool.blockSize :=
    sizeAdd_eq (by omega)
  have shrunk : sizeSub pool.stats.freeSize pool.blockSize = pool.stats.freeSize - pool.blockSize :=
    sizeSub_eq (by omega) (by omega)
  refine {
    freeBlocks := ?_
    usedBlocks := ?_
    usedSize := ?_
    sizes := ?_
    maxUsed := ?_
    totalSize := counted.totalSize
    layout := counted.layout
    blocks := by simp only [MemoryPool.allocMove]; omega
    fits := fits }
  · simp only [MemoryPool.allocMove, counted.freeBlocks]
    exact sizeSub_eq (by omega) (by omega)
  · simp only [MemoryPool.allocMove, counted.usedBlocks]
    exact sizeAdd_eq (by omega)
  · have one : sizeAdd used 1 = used + 1 := sizeAdd_eq (by omega)
    rw [usedSize] at grown
    simp only [MemoryPool.allocMove, counted.usedBlocks, one, usedSize, grown,
      Nat.add_mul, Nat.one_mul]
  · have sizes := counted.sizes
    simp only [MemoryPool.allocMove, grown, shrunk]
    omega
  · simp only [MemoryPool.allocMove, grown]
    split <;> omega

theorem freeMove (counted : Counted pool free (used + 1)) (heap : Heap) (block : Nat) :
    Counted (MemoryPool.freeMove heap pool block).2 (free + 1) used := by
  obtain ⟨usedSize, sum⟩ := counted.bytes
  have blocks := counted.blocks
  have fits := counted.fits
  obtain ⟨all, _⟩ := counted.within (Nat.le_refl pool.blockCount)
  rw [Nat.add_mul, Nat.one_mul] at usedSize sum
  have shrunk : sizeSub pool.stats.usedSize pool.blockSize = pool.stats.usedSize - pool.blockSize :=
    sizeSub_eq (by omega) (by omega)
  have grown : sizeAdd pool.stats.freeSize pool.blockSize = pool.stats.freeSize + pool.blockSize :=
    sizeAdd_eq (by omega)
  refine {
    freeBlocks := ?_
    usedBlocks := ?_
    usedSize := ?_
    sizes := ?_
    maxUsed := ?_
    totalSize := counted.totalSize
    layout := counted.layout
    blocks := by simp only [MemoryPool.freeMove]; omega
    fits := fits }
  · simp only [MemoryPool.freeMove, counted.freeBlocks]
    exact sizeAdd_eq (by omega)
  · simp only [MemoryPool.freeMove, counted.usedBlocks]
    exact sizeSub_eq (by omega) (by omega)
  · have one : sizeSub (used + 1) 1 = used := sizeSub_eq (by omega) (by omega)
    rw [usedSize] at shrunk
    simp only [MemoryPool.freeMove, counted.usedBlocks, one, usedSize, shrunk]
    omega
  · have sizes := counted.sizes
    simp only [MemoryPool.freeMove, grown, shrunk]
    omega
  · have bound := counted.maxUsed
    simp only [MemoryPool.freeMove, shrunk]
    omega

end Counted

end LinuxCLearning.MemoryPool
