import LinuxCLearning.Base.Bytes

/-! The fixed-size block pool of `mempool.c`. Block headers live at addresses of
the heap, so the intrusive lists are links between addresses and several pools
can share one heap. `none` is the null pointer; sizes and counters are `size_t`
and wrap at `2 ^ 64`. -/

namespace LinuxCLearning.MemoryPool

def alignment : Nat := 8
def magicNumber : UInt32 := 0xDEADBEEF

/-- `left + right` on `size_t`. -/
def sizeAdd (left right : Nat) : Nat := (left + right) % 2 ^ 64

/-- `left - right` on `size_t`. -/
def sizeSub (left right : Nat) : Nat := (left + (2 ^ 64 - right % 2 ^ 64)) % 2 ^ 64

/-- `ALIGN_UP` on `size_t` for a power of two. -/
def alignUp (size alignment : Nat) : Nat :=
  let raised := (size + alignment - 1) % 2 ^ 64
  raised - raised % alignment

/-- `sizeof(mempool_block_t)`. -/
def blockStructSize : Nat := 32

def blockHeaderSize : Nat := alignUp blockStructSize alignment

/-- `mempool_err_t`. -/
inductive MempoolErr where
  | ok | nullPtr | invalidSize | noMemory | doubleFree | corrupted | notOwner
  deriving DecidableEq, Repr

/-- `mempool_block_t`. -/
structure Block where
  magic : UInt32
  isFree : Bool
  size : Nat
  next : Option Nat
  prev : Option Nat
  deriving DecidableEq

/-- Block headers by the address they start at, and the bytes users see. -/
structure Heap where
  block : Nat → Block
  byte : Nat → UInt8

/-- `mempool_stats_t`. -/
structure MempoolStats where
  totalSize : Nat
  usedSize : Nat
  freeSize : Nat
  blockSize : Nat
  totalBlocks : Nat
  usedBlocks : Nat
  freeBlocks : Nat
  maxUsed : Nat
  allocCount : Nat
  freeCount : Nat
  failCount : Nat
  deriving DecidableEq

/-- `mempool_t`, without its mutex. -/
structure Mempool where
  memory : Nat
  totalSize : Nat
  blockSize : Nat
  blockCount : Nat
  freeList : Option Nat
  usedList : Option Nat
  stats : MempoolStats
  isThreadSafe : Bool
  deriving DecidableEq

def getBlockHeader (ptr : Nat) : Nat := ptr - blockHeaderSize

def getBlockData (block : Nat) : Nat := block + blockHeaderSize

def checkMagic (heap : Heap) (block : Nat) : Bool := (heap.block block).magic == magicNumber

/-- Store through a pointer to a block header. -/
def Heap.edit (heap : Heap) (block : Nat) (change : Block → Block) : Heap :=
  { heap with block := Function.update heap.block block (change (heap.block block)) }

/-- Store through a pointer that may be null, as the code guards it with `if`. -/
def Heap.editIf (heap : Heap) (block : Option Nat) (change : Block → Block) : Heap :=
  match block with
  | some block => heap.edit block change
  | none => heap

/-- `block_size + BLOCK_HEADER_SIZE`. -/
def Mempool.stride (pool : Mempool) : Nat := pool.blockSize + blockHeaderSize

/-- The header address of block `index`. -/
def Mempool.blockAt (pool : Mempool) (index : Nat) : Nat := pool.memory + index * pool.stride

/-- The header `init_blocks` writes for block `index`. -/
def Mempool.initialBlock (pool : Mempool) (index : Nat) : Block where
  magic := magicNumber
  isFree := true
  size := pool.blockSize
  next := if index < pool.blockCount - 1 then some (pool.blockAt (index + 1)) else none
  prev := if index > 0 then some (pool.blockAt (index - 1)) else none

def initBlocks (heap : Heap) (pool : Mempool) : Heap × Mempool :=
  ((List.range pool.blockCount).foldl
      (fun heap index => heap.edit (pool.blockAt index) (fun _ => pool.initialBlock index)) heap,
    { pool with freeList := some pool.memory, usedList := none })

/-- The block size `mempool_create` settles on: at least 8 and aligned. -/
def roundedBlockSize (blockSize : Nat) : Nat :=
  alignUp (if blockSize < 8 then 8 else blockSize) alignment

/-- `mempool_create`. `structOk` tells whether `malloc` of the pool succeeds and
`memory` is what `aligned_alloc` returns. -/
def mempoolCreate (structOk : Bool) (memory : Option Nat) (heap : Heap)
    (blockSize blockCount : Nat) (threadSafe : Bool) : Option (Heap × Mempool) :=
  if blockCount = 0 then none
  else
    let blockSize := roundedBlockSize blockSize
    if !structOk then none
    else
      let totalBlockSize := (blockSize + blockHeaderSize) % 2 ^ 64
      let totalSize := (totalBlockSize * blockCount) % 2 ^ 64
      match memory with
      | none => none
      | some memory =>
        let zeroed : Heap := { heap with
          byte := fun addr => if memory ≤ addr ∧ addr < memory + totalSize then
            0 else heap.byte addr }
        let stats : MempoolStats := ⟨totalSize, 0, totalSize, blockSize, blockCount, 0, blockCount,
          0, 0, 0, 0⟩
        some (initBlocks zeroed
          ⟨memory, totalSize, blockSize, blockCount, none, none, stats, threadSafe⟩)

/-- The tail of `mempool_alloc`: move the first free block to the front of the
used list. -/
def allocMove (heap : Heap) (pool : Mempool) (block : Nat) : Heap × Mempool :=
  let freeList := (heap.block block).next
  let heap := heap.editIf freeList ({ · with prev := none })
  let heap := heap.edit block ({ · with isFree := false, next := pool.usedList, prev := none })
  let heap := heap.editIf pool.usedList ({ · with prev := some block })
  let usedSize := sizeAdd pool.stats.usedSize pool.blockSize
  let stats := { pool.stats with
    usedSize := usedSize
    freeSize := sizeSub pool.stats.freeSize pool.blockSize
    usedBlocks := sizeAdd pool.stats.usedBlocks 1
    freeBlocks := sizeSub pool.stats.freeBlocks 1
    allocCount := sizeAdd pool.stats.allocCount 1
    maxUsed := if usedSize > pool.stats.maxUsed then usedSize else pool.stats.maxUsed }
  (heap, { pool with freeList, usedList := some block, stats })

def mempoolAlloc (heap : Heap) (pool : Mempool) (size : Nat) : Option Nat × Heap × Mempool :=
  let failed := { pool with stats.failCount := sizeAdd pool.stats.failCount 1 }
  if size = 0 ∨ size > pool.blockSize then (none, heap, failed)
  else match pool.freeList with
    | none => (none, heap, failed)
    | some block =>
      if !checkMagic heap block then (none, heap, pool)
      else
        let (heap, pool) := allocMove heap pool block
        (some (getBlockData block), heap, pool)

/-- `memset(ptr, 0, size)`. -/
def Heap.clear (heap : Heap) (ptr size : Nat) : Heap :=
  { heap with byte := fun addr => if ptr ≤ addr ∧ addr < ptr + size then 0 else heap.byte addr }

/-- `memcpy(dst, src, size)`. -/
def Heap.copy (heap : Heap) (dst src size : Nat) : Heap :=
  { heap with byte := fun addr =>
      if dst ≤ addr ∧ addr < dst + size then heap.byte (src + (addr - dst)) else heap.byte addr }

def mempoolCalloc (heap : Heap) (pool : Mempool) (size : Nat) : Option Nat × Heap × Mempool :=
  match mempoolAlloc heap pool size with
  | (some ptr, heap, pool) => (some ptr, heap.clear ptr size, pool)
  | (none, heap, pool) => (none, heap, pool)

/-- The header checks `mempool_free` makes before it takes the lock. -/
def freeCheck (heap : Heap) (block : Nat) : Option MempoolErr :=
  if !checkMagic heap block then some .corrupted
  else if (heap.block block).isFree then some .doubleFree
  else none

/-- The locked part of `mempool_free`: move the block from the used list to the
free list. -/
def freeMove (heap : Heap) (pool : Mempool) (block : Nat) : Heap × Mempool :=
  let back := (heap.block block).prev
  let usedList := if back.isSome then pool.usedList else (heap.block block).next
  let heap := heap.editIf back ({ · with next := (heap.block block).next })
  let heap := heap.editIf (heap.block block).next ({ · with prev := (heap.block block).prev })
  let heap := heap.edit block ({ · with isFree := true, next := pool.freeList, prev := none })
  let heap := heap.editIf pool.freeList ({ · with prev := some block })
  let stats := { pool.stats with
    usedSize := sizeSub pool.stats.usedSize pool.blockSize
    freeSize := sizeAdd pool.stats.freeSize pool.blockSize
    usedBlocks := sizeSub pool.stats.usedBlocks 1
    freeBlocks := sizeAdd pool.stats.freeBlocks 1
    freeCount := sizeAdd pool.stats.freeCount 1 }
  (heap, { pool with freeList := some block, usedList, stats })

def mempoolFree (heap : Heap) (pool : Mempool) (ptr : Option Nat) : MempoolErr × Heap × Mempool :=
  match ptr with
  | none => (.ok, heap, pool)
  | some ptr =>
    let block := getBlockHeader ptr
    match freeCheck heap block with
    | some err => (err, heap, pool)
    | none =>
      let (heap, pool) := freeMove heap pool block
      (.ok, heap, pool)

def mempoolRealloc (heap : Heap) (pool : Mempool) (ptr : Option Nat) (size : Nat) :
    Option Nat × Heap × Mempool :=
  match ptr with
  | none => mempoolAlloc heap pool size
  | some ptr =>
    if size = 0 then
      let (_, heap, pool) := mempoolFree heap pool (some ptr)
      (none, heap, pool)
    else if size > pool.blockSize then (none, heap, pool)
    else match mempoolAlloc heap pool size with
      | (none, heap, pool) => (none, heap, pool)
      | (some newPtr, heap, pool) =>
        let oldSize := (heap.block (getBlockHeader ptr)).size
        let copySize := if size < oldSize then size else oldSize
        let heap := heap.copy newPtr ptr copySize
        let (_, heap, pool) := mempoolFree heap pool (some ptr)
        (some newPtr, heap, pool)

/-- One of the two loops of `mempool_check`: count the blocks of a list whose
`is_free` flag must be `flag`. The outer `none` is a walk longer than `fuel`. -/
def checkList (heap : Heap) (flag : Bool) : Nat → Option Nat → Nat → Option (Except MempoolErr Nat)
  | _, none, count => some (.ok count)
  | 0, some _, _ => none
  | fuel + 1, some block, count =>
    if !checkMagic heap block then some (.error .corrupted)
    else if (heap.block block).isFree ≠ flag then some (.error .corrupted)
    else checkList heap flag fuel (heap.block block).next (count + 1)

def mempoolCheck (fuel : Nat) (heap : Heap) (pool : Mempool) : Option MempoolErr := do
  match ← checkList heap true fuel pool.freeList 0 with
  | .error err => return err
  | .ok freeCount =>
    match ← checkList heap false fuel pool.usedList 0 with
    | .error err => return err
    | .ok usedCount =>
      if freeCount ≠ pool.stats.freeBlocks ∨ usedCount ≠ pool.stats.usedBlocks then
        return .corrupted
      else return .ok

def mempoolReset (heap : Heap) (pool : Mempool) : Heap × Mempool :=
  let (heap, pool) := initBlocks heap pool
  (heap, { pool with stats := { pool.stats with
    usedSize := 0
    freeSize := pool.totalSize
    usedBlocks := 0
    freeBlocks := pool.blockCount } })

end LinuxCLearning.MemoryPool
