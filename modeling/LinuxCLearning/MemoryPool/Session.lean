import LinuxCLearning.Base.Machine
import LinuxCLearning.MemoryPool.Operations

/-! Sequences of pool operations by a caller that keeps to its own blocks. The
session remembers which pointers the pool has handed out and which of them are
live; neither is part of the code's state. -/

namespace LinuxCLearning.MemoryPool

structure Session where
  heap : Heap
  pool : Mempool
  live : List Nat
  handed : List Nat

/-- The operations on a pool, and a user's store of one byte into a block. -/
inductive Op where
  | alloc (size : Nat)
  | calloc (size : Nat)
  | free (ptr : Option Nat)
  | realloc (ptr : Option Nat) (size : Nat)
  | reset
  | write (ptr offset : Nat) (byte : UInt8)
  deriving DecidableEq

/-- Pointers passed in are null or were handed out by this pool: live or freed
for `free`, live for `realloc` and for the user's own stores. -/
def Session.admits (session : Session) : Op → Bool
  | .free (some ptr) => session.handed.contains ptr
  | .realloc (some ptr) _ => session.live.contains ptr
  | .write ptr offset _ => session.live.contains ptr && decide (offset < session.pool.blockSize)
  | _ => true

/-- A pointer that may be null joins the live pointers. -/
def Session.hand (session : Session) : Option Nat × Heap × Mempool → Session
  | (ptr, heap, pool) => ⟨heap, pool, ptr.toList ++ session.live, ptr.toList ++ session.handed⟩

def Session.perform (session : Session) : Op → Session
  | .alloc size => session.hand (mempoolAlloc session.heap session.pool size)
  | .calloc size => session.hand (mempoolCalloc session.heap session.pool size)
  | .free none => session
  | .free (some ptr) =>
    let (err, heap, pool) := mempoolFree session.heap session.pool (some ptr)
    { session with heap, pool, live := if err = .ok then session.live.erase ptr else session.live }
  | .realloc none size => session.hand (mempoolRealloc session.heap session.pool none size)
  | .realloc (some ptr) size =>
    match mempoolRealloc session.heap session.pool (some ptr) size with
    | (some newPtr, heap, pool) =>
      ⟨heap, pool, newPtr :: session.live.erase ptr, newPtr :: session.handed⟩
    | (none, heap, pool) =>
      { session with heap, pool, live := if size = 0 then session.live.erase ptr else session.live }
  | .reset =>
    let (heap, pool) := mempoolReset session.heap session.pool
    { session with heap, pool, live := [] }
  | .write ptr offset byte =>
    { session with heap.byte := Function.update session.heap.byte (ptr + offset) byte }

def Session.step (session : Session) (op : Op) : Option Session :=
  if session.admits op then some (session.perform op) else none

/-- The lists are intact, the live pointers are the data of the used blocks, and
every pointer ever handed out is the data of some block. -/
structure Session.Owned (session : Session) (free used : List Nat) : Prop where
  lists : ListsHold session.heap session.pool free used
  live : session.live = used.map getBlockData
  handed : ∀ ptr ∈ session.handed, ∃ block ∈ session.pool.headers, ptr = getBlockData block
  nonempty : 0 < session.pool.blockCount

/-- The next session owns its blocks as well, and right counters stay right. -/
def Session.Keeps (session next : Session) (free used : List Nat) : Prop :=
  ∃ nextFree nextUsed, next.Owned nextFree nextUsed ∧
    (Counted session.pool free.length used.length →
      Counted next.pool nextFree.length nextUsed.length)

theorem getBlockData_injective : Function.Injective getBlockData := by
  intro first second same
  have headers := congrArg getBlockHeader same
  simpa using headers

namespace Session.Owned
variable {session : Session} {free used : List Nat}

theorem live_nodup (owned : session.Owned free used) : session.live.Nodup := by
  rw [owned.live]
  exact (List.nodup_append.mp owned.lists.distinct).2.1.map getBlockData_injective

theorem live_erase (block : Nat) :
    (used.map getBlockData).erase (getBlockData block) = (used.erase block).map getBlockData :=
  (List.map_erase getBlockData_injective used).symm

theorem length_erase {block : Nat} (busy : block ∈ used) :
    (used.erase block).length + 1 = used.length := by
  have positive := List.length_pos_of_mem busy
  rw [List.length_erase_of_mem busy]
  omega

theorem keeps_hand (owned : session.Owned free used) (size : Nat) (heap : Heap)
    (same : heap.block = (mempoolAlloc session.heap session.pool size).2.1.block) :
    session.Keeps (session.hand ((mempoolAlloc session.heap session.pool size).1, heap,
      (mempoolAlloc session.heap session.pool size).2.2)) free used := by
  rcases mempoolAlloc_cases owned.lists size with ⟨count, result⟩ | ⟨block, rest, listed, result⟩
  · rw [result] at same ⊢
    exact ⟨free, used, ⟨(owned.lists.failed count).sameBlocks heap same, owned.live, owned.handed,
      owned.nonempty⟩, fun counted => counted.failed count⟩
  · rw [result] at same ⊢
    subst free
    have member : block ∈ session.pool.headers := owned.lists.everyBlock.subset (by simp)
    refine ⟨rest, block :: used,
      ⟨owned.lists.allocMove.sameBlocks heap same, ?_, ?_, owned.nonempty⟩,
      fun counted => counted.allocMove session.heap block⟩
    · simp [Session.hand, owned.live]
    · intro ptr given
      rcases List.mem_cons.mp given with own | old
      · exact ⟨block, member, own⟩
      · exact owned.handed ptr old

/-- Freeing a used block, for `mempool_free` and for a reallocation to size 0. -/
theorem keeps_freeMove (owned : session.Owned free used) {block : Nat} (busy : block ∈ used) :
    session.Keeps { session with
      heap := (freeMove session.heap session.pool block).1
      pool := (freeMove session.heap session.pool block).2
      live := session.live.erase (getBlockData block) } free used := by
  obtain ⟨_, moved⟩ := mempoolFree_used owned.lists busy
  refine ⟨block :: free, used.erase block,
    ⟨moved, by rw [owned.live, live_erase], owned.handed, owned.nonempty⟩, ?_⟩
  intro counted
  rw [← length_erase busy] at counted
  exact counted.freeMove session.heap block

theorem keeps_free (owned : session.Owned free used) (ptr : Nat) (given : ptr ∈ session.handed) :
    session.Keeps (session.perform (.free (some ptr))) free used := by
  obtain ⟨block, header, rfl⟩ := owned.handed ptr given
  rcases List.mem_append.mp (owned.lists.everyBlock.mem_iff.mpr header) with idle | busy
  · have refused := mempoolFree_free owned.lists idle
    refine ⟨free, used, ?_⟩
    simp only [Session.perform, refused, reduceCtorEq, ↓reduceIte]
    exact ⟨owned, id⟩
  · obtain ⟨result, _⟩ := mempoolFree_used owned.lists busy
    simp only [Session.perform, result, ↓reduceIte]
    exact owned.keeps_freeMove busy

theorem keeps_realloc (owned : session.Owned free used) (ptr size : Nat)
    (alive : ptr ∈ session.live) :
    session.Keeps (session.perform (.realloc (some ptr) size)) free used := by
  rw [owned.live] at alive
  obtain ⟨block, busy, rfl⟩ := List.mem_map.mp alive
  by_cases zero : size = 0
  · obtain ⟨result, _⟩ := mempoolFree_used owned.lists busy
    simp only [Session.perform, mempoolRealloc, zero, result, ↓reduceIte]
    exact owned.keeps_freeMove busy
  · by_cases large : size > session.pool.blockSize
    · refine ⟨free, used, ?_⟩
      simp only [Session.perform, mempoolRealloc, zero, large, ↓reduceIte]
      exact ⟨owned, id⟩
    · rcases mempoolAlloc_cases owned.lists size with ⟨count, result⟩ | ⟨fresh,
        rest, listed, result⟩
      · refine ⟨free, used, ?_⟩
        simp only [Session.perform, mempoolRealloc, zero, large, result, ↓reduceIte]
        exact ⟨⟨owned.lists.failed count, owned.live, owned.handed, owned.nonempty⟩,
          fun counted => counted.failed count⟩
      · subst free
        have header : fresh ∈ session.pool.headers := owned.lists.everyBlock.subset (by simp)
        have different : block ≠ fresh := by
          intro same
          subst fresh
          exact (List.nodup_cons.mp owned.lists.distinct).1 (by simp [busy])
        have copied := owned.lists.allocMove.sameBlocks ((allocMove session.heap session.pool
          fresh).1.copy (getBlockData fresh) (getBlockData block)
          (if size < ((allocMove session.heap session.pool fresh).1.block block).size then size
            else ((allocMove session.heap session.pool fresh).1.block block).size)) rfl
        obtain ⟨freed, moved⟩ := mempoolFree_used copied (List.mem_cons_of_mem fresh busy)
        rw [List.erase_cons_tail (by simpa using different.symm)] at moved
        refine ⟨block :: rest, fresh :: used.erase block, ?_⟩
        simp only [Session.perform, mempoolRealloc, zero, large, result,
          getBlockHeader_getBlockData,
          freed, ↓reduceIte]
        refine ⟨⟨moved, ?_, ?_, owned.nonempty⟩, ?_⟩
        · rw [owned.live, live_erase, List.map_cons]
        · intro ptr given
          rcases List.mem_cons.mp given with own | old
          · exact ⟨fresh, header, own⟩
          · exact owned.handed ptr old
        · intro counted
          have taken := counted.allocMove session.heap fresh
          rw [← length_erase busy] at taken
          exact taken.freeMove _ block

theorem keeps_step (owned : session.Owned free used) {op : Op} {next : Session}
    (stepped : session.step op = some next) : session.Keeps next free used := by
  unfold Session.step at stepped
  split at stepped
  · rename_i admitted
    cases stepped
    cases op with
    | alloc size => exact owned.keeps_hand size _ rfl
    | calloc size =>
      simp only [Session.perform, mempoolCalloc]
      split
      · rename_i ptr heap pool result
        have kept := owned.keeps_hand size (heap.clear ptr size) (by rw [result]; rfl)
        rwa [result] at kept
      · rename_i heap pool result
        have kept := owned.keeps_hand size heap (by rw [result])
        rwa [result] at kept
    | free ptr =>
      cases ptr with
      | none => exact ⟨free, used, owned, id⟩
      | some ptr => exact owned.keeps_free ptr (by simpa [Session.admits] using admitted)
    | realloc ptr size =>
      cases ptr with
      | none => exact owned.keeps_hand size _ rfl
      | some ptr => exact owned.keeps_realloc ptr size (by simpa [Session.admits] using admitted)
    | reset =>
      exact ⟨_, [], ⟨mempoolReset_lists _ _ owned.nonempty, rfl, owned.handed, owned.nonempty⟩,
        fun counted => mempoolReset_counted counted session.heap⟩
    | write ptr offset byte =>
      exact ⟨free, used, ⟨owned.lists.sameBlocks _ rfl, owned.live, owned.handed, owned.nonempty⟩,
        id⟩
  · cases stepped

end Session.Owned

section Create
variable {structOk threadSafe : Bool} {memory : Option Nat} {before heap : Heap}
  {blockSize blockCount : Nat}
  {pool : Mempool} {ops : List Op} {final : Session}

theorem mempoolCreate_owned
    (created : mempoolCreate structOk memory before blockSize blockCount threadSafe =
      some (heap, pool)) :
    Session.Owned ⟨heap, pool, [], []⟩ pool.headers [] := by
  obtain ⟨lists, positive⟩ := mempoolCreate_lists created
  exact ⟨lists, rfl, by simp, positive⟩

/-- The states that a caller's operations lead to from a new pool of any sizes. -/
theorem session_owned
    (created : mempoolCreate structOk memory before blockSize blockCount threadSafe =
      some (heap, pool))
    (ran : Machine.follow Session.step ⟨heap, pool, [], []⟩ ops = some final) :
      ∃ free used, final.Owned free used := by
  have keeps : ∀ (session : Session) (op : Op) (next : Session),
      (∃ free used, session.Owned free used) →
      session.step op = some next → ∃ free used, next.Owned free used := by
    rintro session op next ⟨_, _, owned⟩ stepped
    obtain ⟨free, used, kept, _⟩ := owned.keeps_step stepped
    exact ⟨free, used, kept⟩
  exact Machine.follow_keeps keeps ⟨_, _, mempoolCreate_owned created⟩ ran

/-- In a pool whose sizes do not wrap the counters are right as well. -/
theorem session_counted
    (created : mempoolCreate structOk memory before blockSize blockCount threadSafe =
      some (heap, pool))
    (fit : SizesFit blockSize blockCount)
    (ran : Machine.follow Session.step ⟨heap, pool, [], []⟩ ops = some final) :
    ∃ free used, final.Owned free used ∧ Counted final.pool free.length used.length := by
  have keeps : ∀ (session : Session) (op : Op) (next : Session),
      (∃ free used, session.Owned free used ∧ Counted session.pool free.length used.length) →
      session.step op = some next →
        ∃ free used, next.Owned free used ∧ Counted next.pool free.length used.length := by
    rintro session op next ⟨_, _, owned, counted⟩ stepped
    obtain ⟨free, used, kept, counts⟩ := owned.keeps_step stepped
    exact ⟨free, used, kept, counts counted⟩
  exact Machine.follow_keeps keeps ⟨_, _, mempoolCreate_owned created,
    mempoolCreate_counted created fit⟩ ran

end Create

theorem data_apart_from_headers {pool : Mempool} {block header : Nat}
    (owner : block ∈ pool.headers) (other : header ∈ pool.headers) :
    getBlockData block + pool.blockSize ≤ header ∨
      header + blockHeaderSize ≤ getBlockData block := by
  obtain ⟨first, _, rfl⟩ := mem_headers.mp owner
  obtain ⟨second, _, rfl⟩ := mem_headers.mp other
  rcases Nat.lt_or_ge first second with later | earlier
  · left
    have bound := Nat.mul_le_mul_right pool.stride later
    have expand : first.succ * pool.stride = first * pool.stride + pool.stride := Nat.succ_mul ..
    simp only [getBlockData, Mempool.blockAt, Mempool.stride] at *
    omega
  · right
    have bound := Nat.mul_le_mul_right pool.stride earlier
    simp only [getBlockData, Mempool.blockAt]
    omega

/-- Every session on a freshly created pool. In the state it reaches, the free
and the used list are doubly linked, acyclic and share out all headers of the
pool, the flags and counters describe them, the live pointers are distinct used
blocks that overlap no header, a block that is already free is refused without
any change, and the pool passes its own check. -/
theorem mempool_session_sound {structOk threadSafe : Bool} {memory : Option Nat}
    {before heap : Heap} {blockSize blockCount : Nat} {pool : Mempool}
    (created : mempoolCreate structOk memory before blockSize blockCount threadSafe =
      some (heap, pool))
    (fit : SizesFit blockSize blockCount) (ops : List Op) {final : Session}
    (ran : Machine.follow Session.step ⟨heap, pool, [], []⟩ ops = some final) :
    ∃ free used, PoolInvariant final.heap final.pool free used ∧
      (∀ block ∈ final.pool.headers, (final.heap.block block).isFree = true ↔ block ∈ free) ∧
      final.live.Nodup ∧
      (∀ ptr ∈ final.live, getBlockHeader ptr ∈ used ∧ ptr = getBlockData (getBlockHeader ptr) ∧
        ∀ header ∈ final.pool.headers,
          ptr + final.pool.blockSize ≤ header ∨ header + blockHeaderSize ≤ ptr) ∧
      (∀ ptr ∈ final.handed, ptr ∉ final.live →
        mempoolFree final.heap final.pool (some ptr) = (.doubleFree, final.heap, final.pool)) ∧
      ∀ fuel, final.pool.blockCount ≤ fuel →
        mempoolCheck fuel final.heap final.pool = some .ok := by
  obtain ⟨free, used, owned, counted⟩ := session_counted created fit ran
  have lists := owned.lists
  refine ⟨free, used, { lists, counted with }, ?_, owned.live_nodup, ?_, ?_, ?_⟩
  · intro block header
    constructor
    · intro flag
      rcases List.mem_append.mp (lists.everyBlock.mem_iff.mpr header) with idle | busy
      · exact idle
      · rw [lists.usedFlag block busy] at flag
        cases flag
    · exact lists.freeFlag block
  · intro ptr alive
    rw [owned.live] at alive
    obtain ⟨block, busy, rfl⟩ := List.mem_map.mp alive
    have owner := lists.everyBlock.subset (List.mem_append_right free busy)
    refine ⟨by simpa using busy, by simp, ?_⟩
    intro header member
    exact data_apart_from_headers owner member
  · intro ptr given dead
    obtain ⟨block, header, rfl⟩ := owned.handed ptr given
    rcases List.mem_append.mp (lists.everyBlock.mem_iff.mpr header) with idle | busy
    · exact mempoolFree_free lists idle
    · rw [owned.live] at dead
      exact absurd (List.mem_map.mpr ⟨block, busy, rfl⟩) dead
  · intro fuel enough
    exact mempoolCheck_ok { lists, counted with } enough

/-- A pool of two blocks: both are taken, the first is freed twice, the second
one is reallocated and the pool is reset. -/
theorem mempool_session_sound_two_blocks :
    let zero : Heap := ⟨fun _ => ⟨0, false, 0, none, none⟩, fun _ => 0⟩
    ∃ heap pool final, mempoolCreate true (some 4096) zero 16 2 false = some (heap, pool) ∧
      SizesFit 16 2 ∧
      Machine.follow Session.step ⟨heap, pool, [], []⟩
        [.alloc 8, .calloc 16, .free (some 4128), .free (some 4128), .realloc (some 4176) 4, .reset,
          .alloc 1] = some final ∧
      final.live.Nodup ∧ mempoolCheck final.pool.blockCount final.heap final.pool = some .ok := by
  intro zero
  have fit : SizesFit 16 2 := by
    unfold SizesFit
    decide
  have enabled : ((mempoolCreate true (some 4096) zero 16 2 false).bind fun result =>
      Machine.follow Session.step ⟨result.1, result.2, [], []⟩
        [.alloc 8, .calloc 16, .free (some 4128), .free (some 4128), .realloc (some 4176) 4, .reset,
          .alloc 1]).isSome = true := by
    decide +kernel
  obtain ⟨final, both⟩ := Option.isSome_iff_exists.mp enabled
  obtain ⟨⟨heap, pool⟩, created, ran⟩ := Option.bind_eq_some_iff.mp both
  obtain ⟨free, used, _, _, distinct, _, _, checked⟩ := mempool_session_sound created fit _ ran
  exact ⟨heap, pool, final, created, fit, ran, distinct, checked _ (Nat.le_refl _)⟩

end LinuxCLearning.MemoryPool
