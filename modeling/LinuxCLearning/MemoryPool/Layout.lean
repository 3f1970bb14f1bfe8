import LinuxCLearning.MemoryPool.Operations

/-! The sizes that `mempool_create` computes and the places of the blocks that follow from
them. Everything is `size_t`, so that every step may wrap around. -/

namespace LinuxCLearning.MemoryPool

/-- The least multiple of 8 that holds a block of at least 8 bytes, as an integer. -/
def wholeBlockSize (blockSize : Nat) : Nat := 8 * ((max blockSize 8 + 7) / 8)

/-- `i * total_block_size`, the distance of a header from `base` in `init_blocks`. -/
def Mempool.headerOffset (pool : Mempool) (index : Nat) : Nat :=
  index * ((pool.blockSize + blockHeaderSize) % 2 ^ 64) % 2 ^ 64

/-- The distance of the data area of a block. -/
def Mempool.dataOffset (pool : Mempool) (index : Nat) : Nat :=
  pool.headerOffset index + blockHeaderSize

/-- The pool has room for blocks of the size asked for: its block size, its total size, and
where headers and data areas lie. -/
structure LaidOut (pool : Mempool) (blockSize : Nat) : Prop where
  enough : blockSize ≤ pool.blockSize
  least : 8 ≤ pool.blockSize
  multiple : 8 ∣ pool.blockSize
  total : pool.totalSize = (pool.blockSize + blockHeaderSize) * pool.blockCount
  inside : ∀ index < pool.blockCount, pool.headerOffset index + blockHeaderSize ≤ pool.totalSize
  apart : ∀ first second, first < second → second < pool.blockCount →
    pool.dataOffset first + pool.blockSize ≤ pool.dataOffset second
  aligned : ∀ index < pool.blockCount, 8 ∣ pool.memory + pool.dataOffset index

section Rounding

theorem wholeBlockSize_enough (blockSize : Nat) :
    blockSize ≤ wholeBlockSize blockSize ∧ 8 ≤ wholeBlockSize blockSize := by
  unfold wholeBlockSize
  omega

theorem wholeBlockSize_least {blockSize other : Nat}
    (enough : blockSize ≤ other) (least : 8 ≤ other)
    (multiple : 8 ∣ other) : wholeBlockSize blockSize ≤ other := by
  obtain ⟨count, rfl⟩ := multiple
  unfold wholeBlockSize
  omega

theorem roundedBlockSize_eq {blockSize : Nat} (fits : wholeBlockSize blockSize < 2 ^ 64) :
    roundedBlockSize blockSize = wholeBlockSize blockSize := by
  have chosen : (if blockSize < 8 then 8 else blockSize) = max blockSize 8 := by
    split <;> omega
  have raised : max blockSize 8 + 8 - 1 < 2 ^ 64 := by
    unfold wholeBlockSize at fits
    omega
  rw [roundedBlockSize, alignUp, chosen, alignment, Nat.mod_eq_of_lt raised, wholeBlockSize]
  omega

end Rounding

section Create
variable {memory blockSize blockCount : Nat} {heap after : Heap}
  {threadSafe : Bool} {pool : Mempool}

theorem mempoolCreate_fields
    (created : mempoolCreate true (some memory) heap blockSize blockCount threadSafe =
      some (after, pool)) :
    0 < blockCount ∧ pool.memory = memory ∧ pool.blockSize = roundedBlockSize blockSize ∧
      pool.blockCount = blockCount ∧
      pool.totalSize = (roundedBlockSize blockSize + blockHeaderSize) % 2 ^ 64 *
        blockCount % 2 ^ 64 := by
  unfold mempoolCreate at created
  split at created
  · cases created
  · rename_i counted
    cases created
    exact ⟨Nat.pos_of_ne_zero counted, rfl, rfl, rfl, rfl⟩

theorem mempoolCreate_succeeds (memory : Nat) (heap : Heap) (blockSize : Nat)
    (positive : 0 < blockCount) (threadSafe : Bool) :
    ∃ after pool, mempoolCreate true (some memory) heap blockSize blockCount threadSafe =
      some (after, pool) := by
  rw [mempoolCreate, if_neg (Nat.ne_of_gt positive)]
  exact ⟨_, _, rfl⟩

/-- Blocks of a size that does not wrap around lie one behind the other. -/
theorem headerOffset_eq {index : Nat}
    (fits : (pool.blockSize + blockHeaderSize) * pool.blockCount < 2 ^ 64)
    (within : index < pool.blockCount) :
    pool.headerOffset index = index * (pool.blockSize + blockHeaderSize) := by
  have smaller : index * (pool.blockSize + blockHeaderSize) ≤ (pool.blockSize + blockHeaderSize) *
      pool.blockCount := by
    rw [Nat.mul_comm]
    exact Nat.mul_le_mul_left _ within.le
  have single : pool.blockSize + blockHeaderSize ≤
      (pool.blockSize + blockHeaderSize) * pool.blockCount :=
    Nat.le_mul_of_pos_right _ (Nat.zero_lt_of_lt within)
  rw [Mempool.headerOffset, Nat.mod_eq_of_lt (single.trans_lt fits),
    Nat.mod_eq_of_lt (smaller.trans_lt fits)]

/-- The end of a block comes before the next block and before the end of the memory. -/
theorem next_block_le (stride : Nat) {index limit : Nat} (before : index < limit) :
    index * stride + stride ≤ limit * stride := by
  rw [← Nat.succ_mul]
  exact Nat.mul_le_mul_right _ before

theorem laidOut_of_fits (created : mempoolCreate true (some memory) heap blockSize
      blockCount threadSafe =
      some (after, pool)) (placed : memory % alignment = 0)
    (fits : (wholeBlockSize blockSize + blockHeaderSize) * blockCount < 2 ^ 64) :
      LaidOut pool blockSize := by
  obtain ⟨positive, base, size, count, total⟩ := mempoolCreate_fields created
  have single : wholeBlockSize blockSize + blockHeaderSize < 2 ^ 64 :=
    (Nat.le_mul_of_pos_right _ positive).trans_lt fits
  have rounded := roundedBlockSize_eq ((Nat.le_add_right _ blockHeaderSize).trans_lt single)
  have enough := wholeBlockSize_enough blockSize
  have multiple : 8 ∣ wholeBlockSize blockSize := Nat.dvd_mul_right 8 _
  rw [rounded] at size total
  rw [Nat.mod_eq_of_lt single, Nat.mod_eq_of_lt fits, ← size, ← count] at total
  rw [← size, ← count] at fits
  have offset {index : Nat} (within : index < pool.blockCount) := headerOffset_eq fits within
  refine ⟨size ▸ enough.1, size ▸ enough.2, size ▸ multiple, total, ?_, ?_, ?_⟩
  · intro index within
    have behind := next_block_le (pool.blockSize + blockHeaderSize) within
    rw [offset within, total, Nat.mul_comm (pool.blockSize + blockHeaderSize)]
    omega
  · intro first second before within
    have behind := next_block_le (pool.blockSize + blockHeaderSize) before
    rw [Mempool.dataOffset, Mempool.dataOffset, offset (before.trans within), offset within]
    omega
  · intro index within
    have stride : 8 ∣ pool.blockSize + blockHeaderSize := Nat.dvd_add (size ▸ multiple) (by decide)
    have start : 8 ∣ memory := Nat.dvd_of_mod_eq_zero placed
    rw [Mempool.dataOffset, offset within, base]
    exact Nat.dvd_add start (Nat.dvd_add (Nat.dvd_mul_left_of_dvd stride index) (by decide))

theorem fits_of_laidOut (created : mempoolCreate true (some memory) heap blockSize
      blockCount threadSafe =
      some (after, pool)) (laidOut : LaidOut pool blockSize) :
    (wholeBlockSize blockSize + blockHeaderSize) * blockCount < 2 ^ 64 := by
  obtain ⟨_, _, _, count, total⟩ := mempoolCreate_fields created
  have bound : pool.totalSize < 2 ^ 64 := by
    rw [total]
    exact Nat.mod_lt _ (by decide)
  rw [laidOut.total, count] at bound
  have smaller := wholeBlockSize_least laidOut.enough laidOut.least laidOut.multiple
  exact (Nat.mul_le_mul_right _ (Nat.add_le_add_right smaller _)).trans_lt bound

end Create

/-- A pool on memory that `aligned_alloc` has returned is laid out as it should be exactly
if the memory for its blocks is less than 2^64 bytes. -/
theorem pool_laid_out_iff {memory : Nat} {heap after : Heap}
    {blockSize blockCount : UInt64} {threadSafe : Bool}
    {pool : Mempool} (placed : memory % alignment = 0)
    (created : mempoolCreate true (some memory) heap blockSize.toNat blockCount.toNat threadSafe =
      some (after, pool)) :
    LaidOut pool blockSize.toNat ↔
      (8 * ((max blockSize.toNat 8 + 7) / 8) + 32) * blockCount.toNat < 2 ^ 64 :=
  ⟨fits_of_laidOut created, laidOut_of_fits created placed⟩

/-- Two blocks of 9 bytes. -/
theorem pool_laid_out_iff_two_blocks : ∃ after pool,
    mempoolCreate true (some 4096) ⟨fun _ => ⟨0, false, 0, none, none⟩, fun _ => 0⟩
        (9 : UInt64).toNat
        (2 : UInt64).toNat false = some (after, pool) ∧ LaidOut pool (9 : UInt64).toNat := by
  obtain ⟨after, pool, created⟩ :=
    mempoolCreate_succeeds 4096 ⟨fun _ => ⟨0, false, 0, none, none⟩, fun _ => 0⟩
    (9 : UInt64).toNat (show 0 < (2 : UInt64).toNat by decide) false
  exact ⟨after, pool, created, (pool_laid_out_iff (by decide) created).mpr (by decide)⟩

/-- Eight blocks for which no memory at all is asked. -/
theorem eight_blocks_wrap : ∃ after pool,
    mempoolCreate true (some 4096) ⟨fun _ => ⟨0, false, 0, none, none⟩, fun _ => 0⟩
        (2305843009213693920 : UInt64).toNat (8 : UInt64).toNat false = some (after, pool) ∧
      pool.totalSize = 0 ∧ ¬ LaidOut pool (2305843009213693920 : UInt64).toNat := by
  obtain ⟨after, pool, created⟩ :=
    mempoolCreate_succeeds 4096 ⟨fun _ => ⟨0, false, 0, none, none⟩, fun _ => 0⟩
    (2305843009213693920 : UInt64).toNat (show 0 < (8 : UInt64).toNat by decide) false
  obtain ⟨_, _, _, _, total⟩ := mempoolCreate_fields created
  have nothing : pool.totalSize = 0 := total.trans (by decide)
  refine ⟨after, pool, created, nothing, ?_⟩
  intro laidOut
  exact absurd (fits_of_laidOut created laidOut) (by decide)

end LinuxCLearning.MemoryPool
