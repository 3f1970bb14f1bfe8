import LinuxCLearning.MemoryPool.Session

/-! Several pools over one heap. Headers do not name their pool, so what
`mempool_free` reads of a block does not tell which pool handed it out. -/

namespace LinuxCLearning.MemoryPool

open Machine

/-- The pools in use by the address of their `mempool_t`, and the pointers that some
pool has handed out and that nobody has freed since. -/
structure Library where
  heap : Heap
  pools : Nat → Option Mempool
  live : List Nat

/-- A call of the library: the two that make and end a pool, and those on a pool. -/
inductive LibraryCall where
  | create (handle : Nat) (memory : Option Nat) (blockSize blockCount : Nat) (threadSafe : Bool)
  | destroy (handle : Nat)
  | on (handle : Nat) (op : Op)

/-- Pointers whose header is not the one of `ptr`. -/
def released (ptr : Nat) (live : List Nat) : List Nat :=
  live.filter (fun other => decide (getBlockHeader other ≠ getBlockHeader ptr))

/-- Pointers that are not blocks of the pool. -/
def outside (pool : Mempool) (live : List Nat) : List Nat :=
  live.filter (fun ptr => decide (getBlockHeader ptr ∉ pool.headers))

/-- An operation on one pool by any caller, with any pointer. Only a user's store keeps
to a live block. -/
def Library.perform (library : Library) (pool : Mempool) :
    Op → Option (Heap × Mempool × List Nat)
  | .alloc size =>
    let (ptr, heap, pool) := mempoolAlloc library.heap pool size
    some (heap, pool, ptr.toList ++ library.live)
  | .calloc size =>
    let (ptr, heap, pool) := mempoolCalloc library.heap pool size
    some (heap, pool, ptr.toList ++ library.live)
  | .free none => some (library.heap, pool, library.live)
  | .free (some ptr) =>
    let (err, heap, pool) := mempoolFree library.heap pool (some ptr)
    some (heap, pool, if err = .ok then released ptr library.live else library.live)
  | .realloc none size =>
    let (ptr, heap, pool) := mempoolRealloc library.heap pool none size
    some (heap, pool, ptr.toList ++ library.live)
  | .realloc (some ptr) size =>
    match mempoolRealloc library.heap pool (some ptr) size with
    | (some newPtr, heap, pool) => some (heap, pool, released ptr (newPtr :: library.live))
    | (none, heap, pool) =>
      some (heap, pool, if size = 0 then released ptr library.live else library.live)
  | .reset =>
    let (heap, pool) := mempoolReset library.heap pool
    some (heap, pool, outside pool library.live)
  | .write ptr offset byte =>
    if ptr ∈ library.live ∧ offset < pool.blockSize then
      some ({ library.heap with byte := Function.update library.heap.byte (ptr + offset) byte },
        pool,
        library.live)
    else none

/-- One call. A new pool gets whatever memory `aligned_alloc` returns; blocks that
`init_blocks` writes over are not live any more, and neither are those of a pool that ends. -/
def Library.call (library : Library) : LibraryCall → Option Library
  | .create handle memory blockSize blockCount threadSafe =>
    if (library.pools handle).isSome then none
    else match mempoolCreate true memory library.heap blockSize blockCount threadSafe with
      | none => some library
      | some (heap, pool) =>
        some ⟨heap, Function.update library.pools handle (some pool), outside pool library.live⟩
  | .destroy handle =>
    (library.pools handle).map fun pool =>
      { library with
        pools := Function.update library.pools handle none
        live := outside pool library.live }
  | .on handle op =>
    (library.pools handle).bind fun pool =>
      (library.perform pool op).map fun (heap, pool, live) =>
        ⟨heap, Function.update library.pools handle (some pool), live⟩

/-- A heap with no pool. -/
def Library.empty (heap : Heap) : Library := ⟨heap, fun _ => none, []⟩

/-- A live block of the pool at `handle`. -/
def Library.LiveBlock (library : Library) (handle ptr : Nat) : Prop :=
  ptr ∈ library.live ∧ ∃ pool, library.pools handle = some pool ∧ getBlockHeader ptr ∈ pool.headers

/-- `mempool_free` of `ptr` on the first pool fails and changes neither pool. -/
structure Refused (heap : Heap) (first second : Mempool) (ptr : Nat) : Prop where
  error : (mempoolFree heap first (some ptr)).1 ≠ .ok
  pool : (mempoolFree heap first (some ptr)).2.2 = first
  headers : ∀ block ∈ first.headers ++ second.headers,
    (mempoolFree heap first (some ptr)).2.1.block block = heap.block block

section Header
variable {heap other : Heap} {block : Nat}

theorem freeCheck_eq_none : freeCheck heap block = none ↔
    (heap.block block).magic = magicNumber ∧ (heap.block block).isFree = false := by
  by_cases right : (heap.block block).magic = magicNumber
  · simp [freeCheck, checkMagic, right]
  · simp [freeCheck, checkMagic, right]

theorem freeCheck_same (same : other.block block = heap.block block) :
    freeCheck other block = freeCheck heap block := by
  rw [freeCheck, freeCheck, checkMagic, checkMagic, same]

theorem allocMove_check (pool : Mempool) (moved : Nat) (magic : checkMagic heap moved = true)
    (checked : freeCheck heap block = none ∨ block = moved) :
    freeCheck (allocMove heap pool moved).1 block = none := by
  obtain ⟨flag, kept, _⟩ := allocMove_header heap pool moved block
  rw [freeCheck_eq_none, flag, kept]
  rcases checked with passed | rfl
  · obtain ⟨right, used⟩ := freeCheck_eq_none.mp passed
    refine ⟨right, ?_⟩
    split
    · rfl
    · exact used
  · exact ⟨by simpa [checkMagic] using magic, if_pos rfl⟩

theorem freeMove_check (pool : Mempool) {moved : Nat} (different : block ≠ moved)
    (checked : freeCheck heap block = none) :
      freeCheck (freeMove heap pool moved).1 block = none := by
  obtain ⟨flag, kept, _⟩ := freeMove_header heap pool moved block
  rw [freeCheck_eq_none, flag, kept, if_neg different]
  exact freeCheck_eq_none.mp checked

theorem initBlocks_outside (pool : Mempool) (apart : block ∉ pool.headers) :
    (initBlocks heap pool).1.block block = heap.block block := by
  have rounds : ∀ indices : List Nat, (∀ index ∈ indices, pool.blockAt index ≠ block) →
      (indices.foldl (fun heap index => heap.edit (pool.blockAt index)
        (fun _ => pool.initialBlock index)) heap).block block = heap.block block := by
    intro indices
    induction indices generalizing heap with
    | nil =>
      intro _
      rfl
    | cons index rest ih =>
      intro missed
      have first := missed index (by simp)
      rw [List.foldl_cons, ih fun later member => missed later (by simp [member]), edit_block,
        if_neg first.symm]
  apply rounds
  intro index inside same
  exact apart (mem_headers.mpr ⟨index, List.mem_range.mp inside, same⟩)

end Header

section Calls
variable {heap : Heap} {pool : Mempool} {block : Nat}

/-- After `mempool_alloc` the blocks in use and the new one pass the check. -/
theorem mempoolAlloc_check (size : Nat)
    (checked : freeCheck heap block = none ∨
      some block = (mempoolAlloc heap pool size).1.map getBlockHeader) :
    freeCheck (mempoolAlloc heap pool size).2.1 block = none := by
  unfold mempoolAlloc at checked ⊢
  split
  · rename_i refused
    simpa [refused] using checked
  · rename_i accepted
    rw [if_neg accepted] at checked
    split
    · rename_i exhausted
      simpa [exhausted] using checked
    · rename_i first listed
      simp only [listed] at checked
      split
      · rename_i wrong
        simpa [wrong] using checked
      · rename_i right
        rw [if_neg right] at checked
        refine allocMove_check pool first (by simpa using right) ?_
        simpa using checked

theorem mempoolFree_check {ptr : Nat} (different : block ≠ getBlockHeader ptr)
    (checked : freeCheck heap block = none) :
    freeCheck (mempoolFree heap pool (some ptr)).2.1 block = none := by
  simp only [mempoolFree]
  split
  · exact checked
  · exact freeMove_check pool different checked

end Calls

/-- The header of every live pointer passes the check of `mempool_free`. -/
def Marked (heap : Heap) (live : List Nat) : Prop :=
  ∀ ptr ∈ live, freeCheck heap (getBlockHeader ptr) = none

namespace Marked
variable {heap : Heap} {live : List Nat}

theorem sameBlocks (marked : Marked heap live) {other : Heap} (same : other.block = heap.block) :
    Marked other live := by
  intro ptr member
  rw [freeCheck_same (congrFun same _)]
  exact marked ptr member

theorem sublist (marked : Marked heap live) {rest : List Nat} (kept : rest ⊆ live) :
    Marked heap rest :=
  fun ptr member => marked ptr (kept member)

theorem alloc (marked : Marked heap live) (pool : Mempool) (size : Nat) :
    Marked (mempoolAlloc heap pool size).2.1 ((mempoolAlloc heap pool size).1.toList ++ live) := by
  intro ptr member
  apply mempoolAlloc_check
  rcases List.mem_append.mp member with new | old
  · right
    rw [Option.mem_toList.mp new]
    rfl
  · exact Or.inl (marked ptr old)

theorem free (marked : Marked heap live) (pool : Mempool) (ptr : Nat) :
    Marked (mempoolFree heap pool (some ptr)).2.1 (released ptr live) := by
  intro other member
  obtain ⟨old, different⟩ := List.mem_filter.mp member
  exact mempoolFree_check (by simpa using different) (marked other old)

theorem free_refused (marked : Marked heap live) (pool : Mempool) (ptr : Nat)
    (refused : (mempoolFree heap pool (some ptr)).1 ≠ .ok) :
    Marked (mempoolFree heap pool (some ptr)).2.1 live := by
  simp only [mempoolFree] at refused ⊢
  split
  · exact marked
  · rename_i passed
    simp [passed] at refused

theorem init (marked : Marked heap live) (pool : Mempool) :
    Marked (initBlocks heap pool).1 (outside pool live) := by
  intro ptr member
  obtain ⟨old, apart⟩ := List.mem_filter.mp member
  rw [freeCheck_same (initBlocks_outside pool (by simpa using apart))]
  exact marked ptr old

theorem realloc (marked : Marked heap live) (pool : Mempool) (ptr size : Nat) :
    Marked (mempoolRealloc heap pool (some ptr) size).2.1
      (match (mempoolRealloc heap pool (some ptr) size).1 with
        | some newPtr => released ptr (newPtr :: live)
        | none => if size = 0 then released ptr live else live) := by
  by_cases zero : size = 0
  · simp only [mempoolRealloc, if_pos zero]
    exact marked.free pool ptr
  · by_cases large : size > pool.blockSize
    · simp only [mempoolRealloc, if_neg zero, if_pos large]
      exact marked
    · have allocated := marked.alloc pool size
      rcases result : mempoolAlloc heap pool size with ⟨fresh, after, changed⟩
      rw [result] at allocated
      cases fresh with
      | none =>
        simp only [mempoolRealloc, if_neg zero, if_neg large, result]
        exact allocated
      | some newPtr =>
        simp only [mempoolRealloc, if_neg zero, if_neg large, result]
        refine Marked.free ?_ changed ptr
        exact allocated.sameBlocks rfl

end Marked

/-- One operation, whatever its pointers are. -/
theorem Library.perform_marked {library : Library} (marked : Marked library.heap library.live)
    {pool changed : Mempool} {op : Op} {heap : Heap} {live : List Nat}
    (performed : library.perform pool op = some (heap, changed, live)) : Marked heap live := by
  cases op with
  | alloc size =>
    cases performed
    exact marked.alloc pool size
  | calloc size =>
    have allocated := marked.alloc pool size
    rcases result : mempoolAlloc library.heap pool size with ⟨fresh, after, rest⟩
    rw [result] at allocated
    cases fresh with
    | none =>
      simp only [Library.perform, mempoolCalloc, result] at performed
      cases performed
      exact allocated
    | some ptr =>
      simp only [Library.perform, mempoolCalloc, result] at performed
      cases performed
      exact allocated.sameBlocks rfl
  | free ptr =>
    cases ptr with
    | none =>
      cases performed
      exact marked
    | some ptr =>
      have freed := marked.free pool ptr
      have kept := marked.free_refused pool ptr
      rcases result : mempoolFree library.heap pool (some ptr) with ⟨err, after, rest⟩
      rw [result] at freed kept
      simp only [Library.perform, result] at performed
      cases performed
      split
      · exact freed
      · rename_i refused
        exact kept refused
  | realloc ptr size =>
    cases ptr with
    | none =>
      cases performed
      exact marked.alloc pool size
    | some ptr =>
      have kept := marked.realloc pool ptr size
      simp only [Library.perform] at performed
      split at performed
      · rename_i newPtr after rest result
        cases performed
        rw [result] at kept
        exact kept
      · rename_i after rest result
        cases performed
        rw [result] at kept
        exact kept
  | reset =>
    cases performed
    exact marked.init pool
  | write ptr offset byte =>
    simp only [Library.perform] at performed
    split at performed
    · cases performed
      exact marked.sameBlocks rfl
    · cases performed

/-- One call, on whatever pool. -/
theorem Library.call_marked {library next : Library} (marked : Marked library.heap library.live)
    {call : LibraryCall} (called : library.call call = some next) : Marked next.heap next.live := by
  cases call with
  | create handle memory blockSize blockCount threadSafe =>
    simp only [Library.call] at called
    split at called
    · cases called
    · split at called
      · cases called
        exact marked
      · rename_i heap pool created
        cases called
        simp only [mempoolCreate] at created
        split at created
        · cases created
        · simp only [Bool.not_true, Bool.false_eq_true, if_false] at created
          split at created
          · cases created
          · cases created
            refine Marked.init ?_ _
            exact marked.sameBlocks rfl
  | destroy handle =>
    obtain ⟨pool, _, rfl⟩ := Option.map_eq_some_iff.mp called
    exact marked.sublist (List.filter_subset_self _)
  | on handle op =>
    obtain ⟨pool, _, rest⟩ := Option.bind_eq_some_iff.mp called
    obtain ⟨⟨heap, changed, live⟩, performed, rfl⟩ := Option.map_eq_some_iff.mp rest
    exact library.perform_marked marked performed

theorem Library.run_marked {heap : Heap} {calls : List LibraryCall} {library : Library}
    (ran : follow Library.call (Library.empty heap) calls = some library) :
    Marked library.heap library.live := by
  have keeps : ∀ (library : Library) (call : LibraryCall) (next : Library),
      Marked library.heap library.live → library.call call = some next →
        Marked next.heap next.live := by
    intro library call next marked called
    exact Library.call_marked marked called
  have start : Marked (Library.empty heap).heap (Library.empty heap).live := by
    intro ptr member
    cases member
  exact follow_keeps keeps start ran

/-- The calls keep the headers of live blocks unfreed, so in every library that they lead to
`mempool_free` on one pool takes a live block of another one: it returns `MEMPOOL_OK`, puts
the block in front of the first pool's free list and moves it there from the used to the
free blocks of the statistics, and the owner's header says that the block is free. -/
theorem foreign_free_accepted {heap : Heap} {calls : List LibraryCall} {library : Library}
    (ran : follow Library.call (Library.empty heap) calls = some library) {first second : Nat}
    (different : first ≠ second) {pool owner : Mempool}
    (firstLive : library.pools first = some pool)
    (secondLive : library.pools second = some owner) {ptr : Nat}
    (live : library.LiveBlock second ptr) :
    ¬ Refused library.heap pool owner ptr ∧
    (mempoolFree library.heap pool (some ptr)).1 = .ok ∧
    ∃ after, library.call (.on first (.free (some ptr))) = some after ∧
      (∃ changed, after.pools first = some changed ∧ changed.freeList = some (getBlockHeader ptr) ∧
        changed.stats = { pool.stats with
          usedSize := sizeSub pool.stats.usedSize pool.blockSize
          freeSize := sizeAdd pool.stats.freeSize pool.blockSize
          usedBlocks := sizeSub pool.stats.usedBlocks 1
          freeBlocks := sizeAdd pool.stats.freeBlocks 1
          freeCount := sizeAdd pool.stats.freeCount 1 }) ∧
      after.pools second = some owner ∧
      ∃ header ∈ owner.headers, (library.heap.block header).isFree = false ∧
        (after.heap.block header).isFree = true := by
  have marked := Library.run_marked ran
  obtain ⟨alive, found, same, owned⟩ := live
  rw [secondLive] at same
  cases same
  have passed := marked ptr alive
  have accepted : mempoolFree library.heap pool (some ptr) =
      (.ok, freeMove library.heap pool (getBlockHeader ptr)) := by
    simp only [mempoolFree, passed]
  refine ⟨?_, ?_, ?_⟩
  · intro refused
    apply refused.error
    rw [accepted]
  · rw [accepted]
  · have called : library.call (.on first (.free (some ptr))) = some
        ⟨(freeMove library.heap pool (getBlockHeader ptr)).1,
          Function.update library.pools first
            (some (freeMove library.heap pool (getBlockHeader ptr)).2),
                released ptr library.live⟩ := by
      simp only [Library.call, firstLive, Option.bind_some, Library.perform, accepted, if_true,
        Option.map_some]
    refine ⟨_, called, ⟨_, Function.update_self .., rfl, rfl⟩, ?_,
      getBlockHeader ptr, owned, ?_, ?_⟩
    · exact (Function.update_of_ne different.symm ..).trans secondLive
    · exact (freeCheck_eq_none.mp passed).2
    · rw [(freeMove_header ..).1, if_pos rfl]

/-- Two pools of two blocks; the second one's first block is freed on the first pool. -/
def twoPools : List LibraryCall :=
  [.create 1 (some 4096) 16 2 false, .create 2 (some 8192) 16 2 false, .on 2 (.alloc 8)]

def zeroHeap : Heap := ⟨fun _ => ⟨0, false, 0, none, none⟩, fun _ => 0⟩

private theorem twoPools_library : ∃ library pool owner,
    follow Library.call (Library.empty zeroHeap) twoPools = some library ∧
    library.pools 1 = some pool ∧ library.pools 2 = some owner ∧ library.LiveBlock 2 8224 ∧
    (mempoolFree library.heap pool (some 8224)).1 = .ok ∧ pool.stats.usedBlocks = 0 := by
  have enabled : (follow Library.call (Library.empty zeroHeap) twoPools).any (fun library =>
      decide (8224 ∈ library.live) &&
        (library.pools 1).any (fun pool =>
          (mempoolFree library.heap pool (some 8224)).1 = .ok ∧ pool.stats.usedBlocks = 0) &&
        (library.pools 2).any (fun owner => getBlockHeader 8224 ∈ owner.headers)) = true := by
    decide +kernel
  obtain ⟨library, ran, checked⟩ := (Option.any_eq_true _ _).mp enabled
  simp only [Bool.and_eq_true, decide_eq_true_eq, Option.any_eq_true] at checked
  obtain ⟨⟨alive, pool, firstLive, reply, unused⟩, owner, secondLive, owned⟩ := checked
  exact ⟨library, pool, owner, ran, firstLive, secondLive, ⟨alive, owner, secondLive, owned⟩, reply,
    unused⟩

/-- The first pool has no block in use, so that its count of used blocks wraps. -/
theorem foreign_free_accepted_two_pools : ∃ library pool owner after changed,
    follow Library.call (Library.empty zeroHeap) twoPools = some library ∧
    library.pools 1 = some pool ∧ library.pools 2 = some owner ∧ library.LiveBlock 2 8224 ∧
    ¬ Refused library.heap pool owner 8224 ∧ library.call (.on 1 (.free (some 8224))) = some after ∧
    after.pools 1 = some changed ∧ changed.stats.usedBlocks = 2 ^ 64 - 1 := by
  obtain ⟨library, pool, owner, ran, firstLive, secondLive, live, _, unused⟩ := twoPools_library
  obtain ⟨accepted, _, after, called, ⟨changed, left, _, stats⟩, _⟩ :=
    foreign_free_accepted ran (by decide) firstLive secondLive live
  refine ⟨library, pool, owner, after, changed, ran, firstLive, secondLive, live,
    accepted, called, left, ?_⟩
  rw [stats]
  dsimp only
  rw [unused]
  decide

/-- Not every `mempool_free` of another pool's block is refused. -/
theorem second_pools_block_freed :
    ¬ ∀ (heap : Heap) (calls : List LibraryCall) (library : Library) (first second ptr : Nat)
      (pool owner : Mempool), follow Library.call (Library.empty heap) calls = some library →
      first ≠ second → library.pools first = some pool → library.pools second = some owner →
      library.LiveBlock second ptr → Refused library.heap pool owner ptr := by
  intro refuses
  obtain ⟨library, pool, owner, ran, firstLive, secondLive, live, reply, _⟩ := twoPools_library
  exact (refuses zeroHeap twoPools library 1 2 8224 pool owner ran (by decide) firstLive secondLive
    live).error reply

end LinuxCLearning.MemoryPool
