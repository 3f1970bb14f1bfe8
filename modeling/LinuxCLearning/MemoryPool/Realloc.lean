import LinuxCLearning.Base.Memory
import LinuxCLearning.MemoryPool.Session

/-! What `mempool_realloc` of a live pointer does: to the two lists, to the copied bytes and
to the contents of all other live blocks. -/

namespace LinuxCLearning.MemoryPool

/-- The first bytes of the data area of a block. -/
def Heap.contents (heap : Heap) (block count : Nat) : Bytes :=
  Memory.load heap.byte (getBlockData block) count

/-- The ways in which `mempool_realloc` of the data of `block` may end, where the lists of
the pool are `free` and `used` before. -/
inductive ReallocOutcome (heap : Heap) (pool : Mempool) (free used : List Nat) (block size : Nat) :
    Option Nat × Heap × Mempool → Prop where
  | refused {next : Mempool} (positive : 0 < size) (free_same : next.freeList = pool.freeList)
      (used_same : next.usedList = pool.usedList) (lists : ListsHold heap next free used) :
      ReallocOutcome heap pool free used block size (none, heap, next)
  | freed {after : Heap} {next : Mempool} (zero : size = 0) (bytes : after.byte = heap.byte)
      (lists : ListsHold after next (block :: free) (used.erase block)) :
      ReallocOutcome heap pool free used block size (none, after, next)
  | moved {after : Heap} {next : Mempool} {fresh : Nat} {rest : List Nat} (positive : 0 < size)
      (taken : free = fresh :: rest)
        (lists : ListsHold after next (block :: rest) (fresh :: used.erase block))
      (copied : after.contents fresh size = heap.contents block size)
      (kept : ∀ other ∈ used, other ≠ block →
        after.contents other pool.blockSize = heap.contents other pool.blockSize) :
      ReallocOutcome heap pool free used block size (some (getBlockData fresh), after, next)

section Bytes
variable (heap : Heap) (pool : Mempool) (block : Nat)

@[simp] theorem edit_byte (change : Block → Block) : (heap.edit block change).byte = heap.byte :=
  rfl

@[simp] theorem editIf_byte (target : Option Nat) (change : Block → Block) :
    (heap.editIf target change).byte = heap.byte := by
  cases target with
  | none => rfl
  | some target => rfl

theorem allocMove_byte : (allocMove heap pool block).1.byte = heap.byte := by
  simp only [allocMove, editIf_byte, edit_byte]

theorem freeMove_byte : (freeMove heap pool block).1.byte = heap.byte := by
  simp only [freeMove, editIf_byte, edit_byte]

end Bytes

section Copy
variable {heap : Heap} {pool : Mempool} {free used : List Nat} {block fresh size : Nat}

theorem data_apart {other : Nat} (owner : block ∈ pool.headers) (owned : other ∈ pool.headers)
    (different : other ≠ block) :
    getBlockData block + pool.blockSize ≤ getBlockData other ∨
      getBlockData other + pool.blockSize ≤ getBlockData block := by
  have forward := data_apart_from_headers owner owned
  have backward := data_apart_from_headers owned owner
  simp only [getBlockData] at forward backward ⊢
  omega

theorem copy_contents (heap : Heap) (fresh block size : Nat) :
    (heap.copy (getBlockData fresh) (getBlockData block) size).contents fresh size =
      heap.contents block size := by
  apply Memory.load_congr
  intro offset within
  have inside : getBlockData fresh ≤ getBlockData fresh + offset ∧
      getBlockData fresh + offset < getBlockData fresh + size := by
    omega
  simp only [Heap.copy, if_pos inside, Nat.add_sub_cancel_left]

theorem copy_contents_apart {other : Nat} (fits : size ≤ pool.blockSize)
    (owner : fresh ∈ pool.headers) (owned : other ∈ pool.headers) (different : other ≠ fresh) :
    (heap.copy (getBlockData fresh) (getBlockData block) size).contents other pool.blockSize =
      heap.contents other pool.blockSize := by
  have apart := data_apart owner owned different
  apply Memory.load_congr
  intro offset within
  have outside : ¬ (getBlockData fresh ≤ getBlockData other + offset ∧
      getBlockData other + offset < getBlockData fresh + size) := by
    omega
  simp only [Heap.copy, if_neg outside]

end Copy

section Realloc
variable {heap : Heap} {pool : Mempool} {free used : List Nat} {block : Nat}

/-- `mempool_realloc` of a used block of an intact pool. -/
theorem mempoolRealloc_outcome (lists : ListsHold heap pool free used)
    (busy : block ∈ used) (size : Nat) :
    ReallocOutcome heap pool free used block size
      (mempoolRealloc heap pool (some (getBlockData block)) size) := by
  by_cases zero : size = 0
  · obtain ⟨freed, moved⟩ := mempoolFree_used lists busy
    simp only [mempoolRealloc, if_pos zero, freed]
    exact .freed zero (freeMove_byte heap pool block) moved
  · have positive := Nat.pos_of_ne_zero zero
    by_cases large : size > pool.blockSize
    · simp only [mempoolRealloc, if_neg zero, if_pos large]
      exact .refused positive rfl rfl lists
    · rcases mempoolAlloc_cases lists size with ⟨count, result⟩ | ⟨fresh, rest, listed, result⟩
      · simp only [mempoolRealloc, if_neg zero, if_neg large, result]
        exact .refused positive rfl rfl (lists.failed count)
      · subst free
        have different : block ≠ fresh := by
          rintro rfl
          exact (List.nodup_cons.mp lists.distinct).1 (List.mem_append_right rest busy)
        have header (other : Nat) (member : other ∈ fresh :: rest ++ used) : other ∈ pool.headers :=
          lists.everyBlock.subset member
        have oldSize : ((allocMove heap pool fresh).1.block block).size = pool.blockSize := by
          rw [(allocMove_header heap pool fresh block).2.2]
          exact lists.blockSize block (List.mem_append_right _ busy)
        have copySize : (if size < pool.blockSize then size else pool.blockSize) = size := by
          split <;> omega
        have copied := lists.allocMove.sameBlocks
          ((allocMove heap pool fresh).1.copy (getBlockData fresh) (getBlockData block) size) rfl
        obtain ⟨freed, moved⟩ := mempoolFree_used copied (List.mem_cons_of_mem fresh busy)
        rw [List.erase_cons_tail (by simpa using different.symm)] at moved
        simp only [mempoolRealloc, if_neg zero, if_neg large, result,
          getBlockHeader_getBlockData, oldSize,
          copySize, freed]
        have start : (allocMove heap pool fresh).1.byte = heap.byte :=
          allocMove_byte heap pool fresh
        refine .moved positive rfl moved ?_ ?_
        · rw [Heap.contents, freeMove_byte]
          refine (copy_contents (allocMove heap pool fresh).1 fresh block size).trans ?_
          rw [Heap.contents, start, Heap.contents]
        · intro other member apart
          have unlike : other ≠ fresh := by
            rintro rfl
            exact (List.nodup_cons.mp lists.distinct).1 (List.mem_append_right rest member)
          rw [Heap.contents, freeMove_byte]
          refine (copy_contents_apart (Nat.le_of_not_lt large) (header fresh (by simp))
            (header other (List.mem_append_right _ member)) unlike).trans ?_
          rw [Heap.contents, start, Heap.contents]

end Realloc

/-- In every state that a caller who keeps to its own blocks can reach, `mempool_realloc` of
a live pointer returns `NULL` and changes neither the lists nor any byte, or it frees the
block for the size 0, or it returns the data of a block that was free: with the first bytes of the
old
block, which is free now, while the other live blocks keep their contents. -/
theorem mempool_realloc_live {structOk threadSafe : Bool} {memory : Option Nat} {before heap : Heap}
    {blockSize blockCount : Nat} {pool : Mempool}
    (created : mempoolCreate structOk memory before blockSize blockCount threadSafe =
      some (heap, pool))
    {ops : List Op} {final : Session}
    (ran : Machine.follow Session.step ⟨heap, pool, [], []⟩ ops = some final) :
    ∃ free used, ListsHold final.heap final.pool free used ∧ final.live = used.map getBlockData ∧
      ∀ ptr ∈ final.live, ∀ size, ReallocOutcome final.heap final.pool free used
        (getBlockHeader ptr) size
        (mempoolRealloc final.heap final.pool (some ptr) size) := by
  obtain ⟨free, used, owned⟩ := session_owned created ran
  refine ⟨free, used, owned.lists, owned.live, ?_⟩
  intro ptr alive size
  rw [owned.live] at alive
  obtain ⟨block, busy, rfl⟩ := List.mem_map.mp alive
  rw [getBlockHeader_getBlockData]
  exact mempoolRealloc_outcome owned.lists busy size

/-- A pool of two blocks, one of which is reallocated. -/
theorem mempool_realloc_live_two_blocks :
    let zero : Heap := ⟨fun _ => ⟨0, false, 0, none, none⟩, fun _ => 0⟩
    ∃ heap pool final, mempoolCreate true (some 4096) zero 16 2 false = some (heap, pool) ∧
      Machine.follow Session.step ⟨heap, pool, [], []⟩ [.alloc 8, .write 4128 0 7] = some final ∧
      4128 ∈ final.live ∧ ∃ free used, ReallocOutcome final.heap final.pool free used
        (getBlockHeader 4128) 4
        (mempoolRealloc final.heap final.pool (some 4128) 4) := by
  intro zero
  have enabled : ((mempoolCreate true (some 4096) zero 16 2 false).bind fun created =>
      (Machine.follow Session.step ⟨created.1, created.2, [], []⟩
        [.alloc 8, .write 4128 0 7]).bind fun final =>
          if 4128 ∈ final.live then some () else none).isSome = true := by
    decide +kernel
  obtain ⟨_, all⟩ := Option.isSome_iff_exists.mp enabled
  obtain ⟨⟨heap, pool⟩, created, all⟩ := Option.bind_eq_some_iff.mp all
  obtain ⟨final, ran, all⟩ := Option.bind_eq_some_iff.mp all
  split at all
  · rename_i live
    obtain ⟨free, used, _, _, outcome⟩ := mempool_realloc_live created ran
    exact ⟨heap, pool, final, created, ran, live, free, used, outcome 4128 live 4⟩
  · cases all

end LinuxCLearning.MemoryPool
