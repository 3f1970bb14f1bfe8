import LinuxCLearning.Base.Machine
import LinuxCLearning.Base.Memory

/-! The block pool of the file server. The links of its free list lie in the first
bytes of the free blocks, where callers keep their own bytes while a block is
theirs. Addresses are numbers and zero is the null pointer. -/

namespace LinuxCLearning.FileServer

/-- `sizeof(mempool_block_t)`, which holds one pointer. -/
def linkSize : Nat := 8

/-- `mempool_t`, without its mutex. -/
structure Mempool where
  blockSize : UInt64
  totalBlocks : UInt64
  freeCount : UInt64
  freeList : Nat
  poolBase : Nat
  deriving DecidableEq

/-- The block size that `mempool_create` goes on with. -/
def raisedBlockSize (blockSize : UInt64) : UInt64 :=
  if blockSize < UInt64.ofNat linkSize then UInt64.ofNat linkSize else blockSize

/-- The memory and the head of the free list after some rounds of the loop of
`mempool_create`. -/
def buildFreeList (base : Nat) (blockSize : UInt64) (memory : Memory) : Nat → Memory × Nat
  | 0 => (memory, 0)
  | i + 1 =>
    let (memory, freeList) := buildFreeList base blockSize memory i
    let block := base + (UInt64.ofNat i * blockSize).toNat
    (memory.storeNat block linkSize freeList, block)

def mempoolCreate (structOk : Bool) (malloc : UInt64 → Nat) (memory : Memory)
    (blockSize count : UInt64) :
    Option (Memory × Mempool) :=
  let blockSize := raisedBlockSize blockSize
  if !structOk then none
  else
    let poolBase := malloc (blockSize * count)
    if poolBase = 0 then none
    else
      let (memory, freeList) := buildFreeList poolBase blockSize memory count.toNat
      some (memory, ⟨blockSize, count, count, freeList, poolBase⟩)

/-- `mempool_alloc`: the block, null when there is none. -/
def mempoolAlloc (memory : Memory) (pool : Mempool) : Nat × Mempool :=
  if pool.freeList = 0 then (0, pool)
  else
    (pool.freeList,
      { pool with freeList := memory.loadNat pool.freeList linkSize, freeCount := pool.freeCount - 1 })

def mempoolFree (memory : Memory) (pool : Mempool) (ptr : Nat) : Memory × Mempool :=
  if ptr = 0 then (memory, pool)
  else
    (memory.storeNat ptr linkSize pool.freeList,
      { pool with freeList := ptr, freeCount := pool.freeCount + 1 })

/-- A pool in use: the memory it shares with its callers, and the blocks that
are theirs. -/
structure BlockRun where
  memory : Memory
  pool : Mempool
  live : List Nat

inductive BlockAction where
  | alloc
  | free (ptr : Nat)
  | write (ptr offset : Nat) (byte : UInt8)

/-- Callers free and write live blocks only, but write any byte of them. -/
def BlockRun.step (run : BlockRun) : BlockAction → Option BlockRun
  | .alloc =>
    let (ptr, pool) := mempoolAlloc run.memory run.pool
    some { run with pool, live := if ptr = 0 then run.live else ptr :: run.live }
  | .free ptr =>
    if ptr ∈ run.live then
      let (memory, pool) := mempoolFree run.memory run.pool ptr
      some ⟨memory, pool, run.live.erase ptr⟩
    else none
  | .write ptr offset byte =>
    if ptr ∈ run.live ∧ offset < run.pool.blockSize.toNat then
      some { run with memory := run.memory.store (ptr + offset) [byte] }
    else none

/-- What `malloc` promises: the bytes it hands out lie inside the address space. -/
def AllocatesInside (malloc : UInt64 → Nat) : Prop := ∀ size, malloc size + size.toNat ≤ 2 ^ 64

/-- Blocks of this size share no byte. -/
def BlocksApart (blockSize first second : Nat) : Prop :=
  first + blockSize ≤ second ∨ second + blockSize ≤ first

/-- The addresses of `count` blocks that follow each other. -/
def blockAddresses (base blockSize count : Nat) : List Nat :=
  (List.range count).map fun i => base + i * blockSize

/-- A place for blocks that hold a link each. -/
structure Placed (base blockSize count : Nat) : Prop where
  notNull : base ≠ 0
  holdsLink : linkSize ≤ blockSize
  inside : base + count * blockSize ≤ 2 ^ 64

section Blocks
variable {base blockSize count block first second : Nat}

theorem mem_blockAddresses : block ∈ blockAddresses base blockSize count ↔
    ∃ i < count, base + i * blockSize = block := by
  rw [blockAddresses, List.mem_map]
  simp only [List.mem_range]

theorem blockAddresses_succ (base blockSize count : Nat) :
    blockAddresses base blockSize (count + 1) =
      blockAddresses base blockSize count ++ [base + count * blockSize] := by
  rw [blockAddresses, List.range_succ, List.map_append]
  rfl

theorem blockAddresses_before (member : block ∈ blockAddresses base blockSize count) :
    base ≤ block ∧ block + blockSize ≤ base + count * blockSize := by
  obtain ⟨i, before, rfl⟩ := mem_blockAddresses.mp member
  have next : (i + 1) * blockSize ≤ count * blockSize := Nat.mul_le_mul_right _ before
  rw [Nat.succ_mul] at next
  omega

theorem blockAddresses_apart (one : first ∈ blockAddresses base blockSize count)
    (two : second ∈ blockAddresses base blockSize count) (different : first ≠ second) :
    BlocksApart blockSize first second := by
  induction count with
  | zero => cases one
  | succ count ih =>
    rw [blockAddresses_succ, List.mem_append, List.mem_singleton] at one two
    rcases one with one | rfl
    · rcases two with two | rfl
      · exact ih one two
      · exact Or.inl (blockAddresses_before one).2
    · rcases two with two | rfl
      · exact Or.inr (blockAddresses_before two).2
      · exact absurd rfl different

theorem blockAddresses_nodup (base count : Nat) (positive : 0 < blockSize) :
    (blockAddresses base blockSize count).Nodup := by
  induction count with
  | zero => exact List.nodup_nil
  | succ count ih =>
    rw [blockAddresses_succ, List.nodup_append]
    refine ⟨ih, List.nodup_singleton _, ?_⟩
    intro block member last same
    have before := (blockAddresses_before member).2
    rw [List.mem_singleton.mp same]
    omega

@[simp] theorem blockAddresses_length (base blockSize count : Nat) :
    (blockAddresses base blockSize count).length = count := by
  rw [blockAddresses, List.length_map, List.length_range]

end Blocks

namespace Placed
variable {base blockSize count block head : Nat} {memory : Memory} {nodes : List Nat}

theorem notNull_of_mem (placed : Placed base blockSize count)
    (member : block ∈ blockAddresses base blockSize count) : block ≠ 0 := by
  have behind := (blockAddresses_before member).1
  have notNull := placed.notNull
  omega

theorem address_fits (placed : Placed base blockSize count)
    (member : block ∈ blockAddresses base blockSize count) : block < 256 ^ linkSize := by
  have before := (blockAddresses_before member).2
  have holdsLink := placed.holdsLink
  have inside := placed.inside
  unfold linkSize at holdsLink ⊢
  omega

theorem head_fits (placed : Placed base blockSize count)
    (threaded : Memory.Threaded linkSize memory head nodes)
    (blocks : nodes ⊆ blockAddresses base blockSize count) : head < 256 ^ linkSize := by
  cases nodes with
  | nil =>
    rw [threaded.null_iff.mpr rfl]
    exact Nat.pow_pos (Nat.succ_pos _)
  | cons node rest =>
    rw [threaded.1]
    exact placed.address_fits (blocks (by simp))

theorem link_apart (placed : Placed base blockSize count)
    (blocks : nodes ⊆ blockAddresses base blockSize count)
    (member : block ∈ blockAddresses base blockSize count) (fresh : block ∉ nodes)
    {offset length : Nat} (within : offset + length ≤ blockSize) :
    ∀ other ∈ nodes, block + offset + length ≤ other ∨ other + linkSize ≤ block + offset := by
  intro other listed
  have different : block ≠ other := fun same => fresh (same ▸ listed)
  have holdsLink := placed.holdsLink
  rcases blockAddresses_apart member (blocks listed) different with before | behind
  · exact Or.inl (by omega)
  · exact Or.inr (by omega)

theorem push (placed : Placed base blockSize count)
    (threaded : Memory.Threaded linkSize memory head nodes)
    (blocks : nodes ⊆ blockAddresses base blockSize count)
    (member : block ∈ blockAddresses base blockSize count) (fresh : block ∉ nodes) :
    Memory.Threaded linkSize (memory.storeNat block linkSize head) block (block :: nodes) := by
  refine threaded.push (placed.head_fits threaded blocks) (placed.notNull_of_mem member) ?_
  have whole : 0 + linkSize ≤ blockSize := (Nat.zero_add _).trans_le placed.holdsLink
  exact placed.link_apart blocks member fresh whole

/-- A store inside one block leaves a free list of other blocks as it is. -/
theorem write (placed : Placed base blockSize count)
    (threaded : Memory.Threaded linkSize memory head nodes)
    (blocks : nodes ⊆ blockAddresses base blockSize count)
    (member : block ∈ blockAddresses base blockSize count) (apart : block ∉ nodes) {offset : Nat}
    (within : offset < blockSize) (byte : UInt8) :
    Memory.Threaded linkSize (memory.store (block + offset) [byte]) head nodes := by
  apply threaded.store
  exact placed.link_apart blocks member apart within

/-- The loop of `mempool_create` threads the blocks, the last one first. -/
theorem build {size : UInt64} (placed : Placed base size.toNat count)
    (memory : Memory) {rounds : Nat} (within : rounds ≤ count) :
    Memory.Threaded linkSize (buildFreeList base size memory rounds).1
      (buildFreeList base size memory rounds).2
      (blockAddresses base size.toNat rounds).reverse := by
  induction rounds with
  | zero => exact rfl
  | succ rounds ih =>
    have member : base + rounds * size.toNat ∈ blockAddresses base size.toNat count :=
      mem_blockAddresses.mpr ⟨rounds, within, rfl⟩
    have blocks : (blockAddresses base size.toNat rounds).reverse ⊆
        blockAddresses base size.toNat count := by
      intro block listed
      obtain ⟨i, before, same⟩ := mem_blockAddresses.mp (List.mem_reverse.mp listed)
      exact mem_blockAddresses.mpr ⟨i, by omega, same⟩
    have product : rounds * size.toNat < 2 ^ 64 := by
      have before := (blockAddresses_before member).2
      have holdsLink : 8 ≤ size.toNat := placed.holdsLink
      have inside := placed.inside
      omega
    have offset : (UInt64.ofNat rounds * size).toNat = rounds * size.toNat := by
      rw [UInt64.toNat_mul, UInt64.toNat_ofNat', Nat.mod_mul_mod, Nat.mod_eq_of_lt product]
    have fresh : base + rounds * size.toNat ∉ (blockAddresses base size.toNat rounds).reverse := by
      intro listed
      have before := (blockAddresses_before (List.mem_reverse.mp listed)).2
      have holdsLink : 8 ≤ size.toNat := placed.holdsLink
      omega
    rw [blockAddresses_succ, List.reverse_append, List.reverse_singleton, List.singleton_append]
    simp only [buildFreeList, offset]
    exact placed.push (ih (Nat.le_of_succ_le within)) blocks member fresh

end Placed

/-- The free list is threaded through blocks of its own, and these and the live
blocks together are every block of the pool. -/
structure BlockRun.Sound (run : BlockRun) (base blockSize count : Nat) (free : List Nat) :
    Prop where
  size : run.pool.blockSize.toNat = blockSize
  threaded : Memory.Threaded linkSize run.memory run.pool.freeList free
  everyBlock : (free ++ run.live).Perm (blockAddresses base blockSize count)
  counted : run.pool.freeCount.toNat = free.length

namespace BlockRun.Sound
variable {run next : BlockRun} {base blockSize count ptr : Nat} {free : List Nat}

theorem free_blocks (sound : run.Sound base blockSize count free) :
    free ⊆ blockAddresses base blockSize count :=
  fun _ member => sound.everyBlock.subset (List.mem_append_left _ member)

theorem live_blocks (sound : run.Sound base blockSize count free) :
    run.live ⊆ blockAddresses base blockSize count :=
  fun _ member => sound.everyBlock.subset (List.mem_append_right _ member)

theorem nodup (sound : run.Sound base blockSize count free) (placed : Placed base blockSize count) :
    (free ++ run.live).Nodup :=
  sound.everyBlock.nodup_iff.mpr
    (blockAddresses_nodup base count (Nat.lt_of_lt_of_le (Nat.succ_pos 7) placed.holdsLink))

theorem live_not_free (sound : run.Sound base blockSize count free)
    (placed : Placed base blockSize count) (alive : ptr ∈ run.live) : ptr ∉ free :=
  fun listed => (List.nodup_append.mp (sound.nodup placed)).2.2 ptr listed ptr alive rfl

/-- What `mempool_alloc` does: the list is empty, or its first block becomes live. -/
theorem alloc_cases (sound : run.Sound base blockSize count free) :
    (free = [] ∧ mempoolAlloc run.memory run.pool = (0, run.pool)) ∨
      ∃ block rest, free = block :: rest ∧ block ≠ 0 ∧ mempoolAlloc run.memory run.pool =
        (block, { run.pool with
          freeList := run.memory.loadNat block linkSize
          freeCount := run.pool.freeCount - 1 }) := by
  have threaded := sound.threaded
  cases free with
  | nil => exact Or.inl ⟨rfl, if_pos (threaded.null_iff.mpr rfl)⟩
  | cons block rest =>
    obtain ⟨first, notNull, _⟩ := threaded
    refine Or.inr ⟨block, rest, rfl, notNull, ?_⟩
    rw [mempoolAlloc, first, if_neg notNull]

theorem keeps_alloc (sound : run.Sound base blockSize count free)
    (stepped : run.step .alloc = some next) :
    ∃ free, next.Sound base blockSize count free := by
  rcases sound.alloc_cases with ⟨_, result⟩ | ⟨block, rest, rfl, notNull, result⟩
  · simp only [BlockRun.step, result, if_pos] at stepped
    cases stepped
    exact ⟨free, sound⟩
  · simp only [BlockRun.step, result, if_neg notNull] at stepped
    cases stepped
    obtain ⟨_, _, behind⟩ := sound.threaded
    have counted := sound.counted
    rw [List.length_cons] at counted
    refine ⟨rest, sound.size, behind, ?_, ?_⟩
    · exact List.perm_middle.trans sound.everyBlock
    · have some_free : (1 : UInt64) ≤ run.pool.freeCount := by
        rw [UInt64.le_iff_toNat_le, counted]
        exact Nat.le_add_left 1 _
      rw [UInt64.toNat_sub_of_le _ _ some_free, counted]
      rfl

theorem keeps_free (sound : run.Sound base blockSize count free)
    (placed : Placed base blockSize count)
    (alive : ptr ∈ run.live) (stepped : run.step (.free ptr) = some next) :
    ∃ free, next.Sound base blockSize count free := by
  have member := sound.live_blocks alive
  simp only [BlockRun.step, if_pos alive, mempoolFree,
    if_neg (placed.notNull_of_mem member)] at stepped
  cases stepped
  refine ⟨ptr :: free, sound.size, ?_, ?_, ?_⟩
  · exact placed.push sound.threaded sound.free_blocks member (sound.live_not_free placed alive)
  · have returned : (ptr :: (free ++ run.live.erase ptr)).Perm (free ++ run.live) :=
      List.perm_middle.symm.trans ((List.perm_cons_erase alive).symm.append_left free)
    exact returned.trans sound.everyBlock
  · have total := sound.everyBlock.length_eq
    have positive := List.length_pos_of_mem alive
    have inside := placed.inside
    have holdsLink : 8 ≤ blockSize := placed.holdsLink
    have counted := sound.counted
    rw [List.length_append, blockAddresses_length] at total
    have bound : count * 8 ≤ count * blockSize := Nat.mul_le_mul_left _ holdsLink
    rw [List.length_cons, UInt64.toNat_add, counted, UInt64.toNat_one, Nat.mod_eq_of_lt (by omega)]

theorem keeps_write (sound : run.Sound base blockSize count free)
    (placed : Placed base blockSize count) {offset : Nat} {byte : UInt8} (alive : ptr ∈ run.live)
    (within : offset < run.pool.blockSize.toNat)
    (stepped : run.step (.write ptr offset byte) = some next) :
      ∃ free, next.Sound base blockSize count free := by
  simp only [BlockRun.step, if_pos (And.intro alive within)] at stepped
  cases stepped
  refine ⟨free, sound.size, ?_, sound.everyBlock, sound.counted⟩
  exact placed.write sound.threaded sound.free_blocks (sound.live_blocks alive)
    (sound.live_not_free placed alive)
    (sound.size ▸ within) byte

theorem step (placed : Placed base blockSize count) (action : BlockAction)
    (sound : ∃ free, run.Sound base blockSize count free) (stepped : run.step action = some next) :
    ∃ free, next.Sound base blockSize count free := by
  obtain ⟨free, sound⟩ := sound
  cases action with
  | alloc => exact sound.keeps_alloc stepped
  | free ptr =>
    by_cases alive : ptr ∈ run.live
    · exact sound.keeps_free placed alive stepped
    · rw [BlockRun.step, if_neg alive] at stepped
      cases stepped
  | write ptr offset byte =>
    by_cases admitted : ptr ∈ run.live ∧ offset < run.pool.blockSize.toNat
    · exact sound.keeps_write placed admitted.1 admitted.2 stepped
    · rw [BlockRun.step, if_neg admitted] at stepped
      cases stepped

/-- `mempool_alloc` finds no block exactly when every block is live. -/
theorem alloc_null_iff (sound : run.Sound base blockSize count free)
    (placed : Placed base blockSize count) :
    (mempoolAlloc run.memory run.pool).1 = 0 ↔ ∀ block ∈ blockAddresses base blockSize count,
      block ∈ run.live := by
  rcases sound.alloc_cases with ⟨rfl, result⟩ | ⟨block, rest, rfl, notNull, result⟩
  · rw [result]
    exact iff_of_true rfl fun block member => sound.everyBlock.mem_iff.mpr member
  · rw [result]
    refine iff_of_false notNull fun all => ?_
    exact sound.live_not_free placed (all block (sound.free_blocks (by simp))) (by simp)

theorem alloc_not_live (sound : run.Sound base blockSize count free)
    (placed : Placed base blockSize count) :
    (mempoolAlloc run.memory run.pool).1 ∉ run.live := by
  intro alive
  rcases sound.alloc_cases with ⟨_, result⟩ | ⟨block, rest, rfl, _, result⟩
  · rw [result] at alive
    exact placed.notNull_of_mem (sound.live_blocks alive) rfl
  · rw [result] at alive
    exact sound.live_not_free placed alive (by simp)

theorem live_apart (sound : run.Sound base blockSize count free)
    (placed : Placed base blockSize count) :
    run.live.Pairwise (BlocksApart blockSize) := by
  have distinct : run.live.Nodup := (List.nodup_append.mp (sound.nodup placed)).2.1
  apply distinct.imp_of_mem
  intro first second one two different
  exact blockAddresses_apart (sound.live_blocks one) (sound.live_blocks two) different

end BlockRun.Sound

section Create
variable {structOk : Bool} {malloc : UInt64 → Nat} {memory after : Memory}
  {blockSize count : UInt64} {pool : Mempool}

theorem raisedBlockSize_holdsLink (blockSize : UInt64) :
    linkSize ≤ (raisedBlockSize blockSize).toNat := by
  unfold raisedBlockSize
  split
  · exact Nat.le_refl 8
  · rename_i large
    exact UInt64.le_iff_toNat_le.mp (UInt64.not_lt.mp large)

theorem mempoolCreate_some (created : mempoolCreate structOk malloc memory blockSize count =
    some (after, pool)) :
    pool.poolBase = malloc (raisedBlockSize blockSize * count) ∧ pool.poolBase ≠ 0 ∧
      after = (buildFreeList pool.poolBase (raisedBlockSize blockSize) memory count.toNat).1 ∧
      pool = ⟨raisedBlockSize blockSize, count, count,
        (buildFreeList pool.poolBase (raisedBlockSize blockSize) memory count.toNat).2,
        pool.poolBase⟩ := by
  simp only [mempoolCreate] at created
  split at created
  · cases created
  · split at created
    · cases created
    · rename_i notNull
      cases created
      exact ⟨rfl, notNull, rfl, rfl⟩

theorem mempoolCreate_placed
    (created : mempoolCreate structOk malloc memory blockSize count = some (after, pool))
    (inside : AllocatesInside malloc)
    (fits : (raisedBlockSize blockSize).toNat * count.toNat < 2 ^ 64) :
    Placed pool.poolBase (raisedBlockSize blockSize).toNat count.toNat := by
  obtain ⟨base, notNull, _⟩ := mempoolCreate_some created
  refine ⟨notNull, raisedBlockSize_holdsLink blockSize, ?_⟩
  have object := inside (raisedBlockSize blockSize * count)
  rw [← base, UInt64.toNat_mul, Nat.mod_eq_of_lt fits] at object
  rwa [Nat.mul_comm]

theorem mempoolCreate_sound
    (created : mempoolCreate structOk malloc memory blockSize count = some (after, pool))
    (placed : Placed pool.poolBase (raisedBlockSize blockSize).toNat count.toNat) :
    ∃ free, (⟨after, pool, []⟩ : BlockRun).Sound pool.poolBase
      (raisedBlockSize blockSize).toNat count.toNat free := by
  obtain ⟨_, _, built, whole⟩ := mempoolCreate_some created
  refine ⟨(blockAddresses pool.poolBase (raisedBlockSize blockSize).toNat count.toNat).reverse, ?_,
    ?_, ?_, ?_⟩
  · rw [whole]
  · rw [whole, built]
    exact placed.build memory (Nat.le_refl _)
  · rw [List.append_nil]
    exact List.reverse_perm _
  · rw [whole, List.length_reverse, blockAddresses_length]

end Create

/-- Whatever the callers allocate, free and write, one list of free blocks ends in
null behind every block once, beside the live ones, and `mempool_alloc` takes
its first block or finds that every block is live. -/
theorem block_pool_exact {structOk : Bool} {malloc : UInt64 → Nat} {memory after : Memory}
    {blockSize count : UInt64} {pool : Mempool} {actions : List BlockAction} {run : BlockRun}
    (inside : AllocatesInside malloc)
    (fits : (raisedBlockSize blockSize).toNat * count.toNat < 2 ^ 64)
    (created : mempoolCreate structOk malloc memory blockSize count = some (after, pool))
    (ran : Machine.follow BlockRun.step ⟨after, pool, []⟩ actions = some run) :
    (∃ free, Memory.Threaded linkSize run.memory run.pool.freeList free ∧
        (∀ others, Memory.Threaded linkSize run.memory run.pool.freeList others → others = free) ∧
        free.Nodup ∧ free.Disjoint run.live ∧
        (free ++ run.live).Perm (blockAddresses pool.poolBase
          (raisedBlockSize blockSize).toNat count.toNat) ∧
        run.pool.freeCount.toNat = free.length) ∧
      ((mempoolAlloc run.memory run.pool).1 = 0 ↔
        ∀ block ∈ blockAddresses pool.poolBase (raisedBlockSize blockSize).toNat count.toNat,
          block ∈ run.live) ∧
      (mempoolAlloc run.memory run.pool).1 ∉ run.live ∧
      run.live.Pairwise (BlocksApart (raisedBlockSize blockSize).toNat) := by
  have placed := mempoolCreate_placed created inside fits
  have each : ∀ (run : BlockRun) action next,
      (∃ free, run.Sound pool.poolBase (raisedBlockSize blockSize).toNat count.toNat free) →
      run.step action = some next →
      ∃ free, next.Sound pool.poolBase (raisedBlockSize blockSize).toNat count.toNat free :=
    fun _ action _ => BlockRun.Sound.step placed action
  obtain ⟨free, sound⟩ := Machine.follow_keeps each (mempoolCreate_sound created placed) ran
  obtain ⟨freeNodup, _, apart⟩ := List.nodup_append.mp (sound.nodup placed)
  have disjoint : free.Disjoint run.live := fun ptr listed alive => apart ptr listed ptr alive rfl
  have only : ∀ others, Memory.Threaded linkSize run.memory run.pool.freeList others →
      others = free :=
    fun others threaded => threaded.unique sound.threaded
  exact ⟨⟨free, sound.threaded, only, freeNodup, disjoint, sound.everyBlock, sound.counted⟩,
    sound.alloc_null_iff placed, sound.alloc_not_live placed, sound.live_apart placed⟩

/-- Two blocks of twelve bytes; one is allocated, and written over its link. -/
theorem block_pool_exact_two_blocks :
    ∃ run, Machine.follow BlockRun.step
        ⟨(buildFreeList 4096 12 (fun _ => 0) 2).1, ⟨12, 2, 2, 4108, 4096⟩, []⟩
        [.alloc, .write 4108 0 255] = some run ∧ run.live = [4108] ∧
      run.live.Pairwise (BlocksApart (raisedBlockSize 12).toNat) ∧
      ∃ free, Memory.Threaded linkSize run.memory run.pool.freeList free ∧
      free.Disjoint run.live := by
  have inside : AllocatesInside (fun size => if size ≤ 65536 then 4096 else 0) := by
    intro size
    have bound := size.toNat_lt
    dsimp only
    split
    · rename_i small
      have few : size.toNat ≤ 65536 := UInt64.le_iff_toNat_le.mp small
      omega
    · omega
  have fits : (raisedBlockSize 12).toNat * (2 : UInt64).toNat < 2 ^ 64 := by decide
  have created : mempoolCreate true (fun size => if size ≤ 65536 then 4096 else 0)
      (fun _ => 0) 12 2 =
      some ((buildFreeList 4096 12 (fun _ => 0) 2).1, ⟨12, 2, 2, 4108, 4096⟩) := rfl
  have ran : ∃ run, Machine.follow BlockRun.step
      ⟨(buildFreeList 4096 12 (fun _ => 0) 2).1, ⟨12, 2, 2, 4108, 4096⟩, []⟩
      [.alloc, .write 4108 0 255] = some run ∧ run.live = [4108] := ⟨_, rfl, rfl⟩
  obtain ⟨run, ran, alive⟩ := ran
  obtain ⟨⟨free, threaded, _, _, disjoint, _⟩, _, _, apart⟩ :=
    block_pool_exact inside fits created ran
  exact ⟨run, ran, alive, apart, free, threaded, disjoint⟩

end LinuxCLearning.FileServer
