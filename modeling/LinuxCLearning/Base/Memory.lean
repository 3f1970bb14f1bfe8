import LinuxCLearning.Base.Bytes

/-! Bytes by their address, and the numbers of several bytes that are stored in them. -/

namespace LinuxCLearning

abbrev Memory := Nat → UInt8

namespace Memory

/-- The memory with `bytes` at an address. -/
def store (memory : Memory) (address : Nat) (bytes : Bytes) : Memory := fun other =>
  if address ≤ other then (bytes[other - address]?).getD (memory other) else memory other

/-- The `count` bytes from an address on. -/
def load (memory : Memory) (address count : Nat) : Bytes :=
  (List.range count).map fun offset => memory (address + offset)

/-- A little-endian number of `width` bytes. -/
def storeNat (memory : Memory) (address width value : Nat) : Memory :=
  memory.store address (leBytes width value)

def loadNat (memory : Memory) (address width : Nat) : Nat := leNat (memory.load address width)

section Access
variable {memory other : Memory} {address position count : Nat} {bytes : Bytes}

@[simp] theorem load_length (memory : Memory) (address count : Nat) :
    (memory.load address count).length = count := by
  rw [load, List.length_map, List.length_range]

theorem load_append (memory : Memory) (address count more : Nat) :
    memory.load address (count + more) = memory.load address count ++ memory.load
      (address + count) more := by
  induction more with
  | zero => simp [load]
  | succ more ih =>
    rw [← Nat.add_assoc, load, List.range_succ, List.map_append, ← load, ih,
      load.eq_1 memory _ (more + 1),
      List.range_succ, List.map_append, ← load, List.append_assoc,
      List.map_singleton, List.map_singleton,
      Nat.add_assoc]

theorem load_congr (same : ∀ offset < count, memory (address + offset) =
    other (position + offset)) :
    memory.load address count = other.load position count := by
  apply List.map_congr_left
  intro offset member
  exact same offset (List.mem_range.mp member)

theorem store_inside {offset : Nat} (inside : offset < bytes.length) :
    memory.store address bytes (address + offset) = bytes[offset] := by
  rw [store, if_pos (Nat.le_add_right _ _), Nat.add_sub_cancel_left,
    List.getElem?_eq_getElem inside,
    Option.getD_some]

theorem store_outside (apart : position < address ∨ address + bytes.length ≤ position) :
    memory.store address bytes position = memory position := by
  unfold store
  split
  · rename_i behind
    have missing : bytes[position - address]? = none := List.getElem?_eq_none (by omega)
    rw [missing, Option.getD_none]
  · rfl

theorem load_store (memory : Memory) (address : Nat) (within : count ≤ bytes.length) :
    (memory.store address bytes).load address count = bytes.take count := by
  apply List.ext_getElem
  · rw [load_length, List.length_take, min_eq_left within]
  · intro index first second
    rw [load_length] at first
    simp only [load, List.getElem_map, List.getElem_range, List.getElem_take]
    exact store_inside (first.trans_le within)

theorem load_store_apart (memory : Memory)
    (apart : address + bytes.length ≤ position ∨ position + count ≤ address) :
    (memory.store address bytes).load position count = memory.load position count := by
  apply load_congr
  intro offset within
  apply store_outside
  omega

end Access

section Numbers
variable {memory : Memory} {address position width value : Nat}

theorem loadNat_storeNat (memory : Memory) (address : Nat) (fits : value < 256 ^ width) :
    (memory.storeNat address width value).loadNat address width = value := by
  rw [loadNat, storeNat, load_store _ _ (leBytes_length width value).ge,
    List.take_of_length_le (leBytes_length width value).le, leNat_leBytes fits]

theorem loadNat_store_apart {bytes : Bytes} (memory : Memory)
    (apart : address + bytes.length ≤ position ∨ position + width ≤ address) :
    (memory.store address bytes).loadNat position width = memory.loadNat position width := by
  rw [loadNat, load_store_apart memory apart, loadNat]

end Numbers

/-- A list that is threaded through its nodes: the first `width` bytes of a node
are the address of the next one, and zero ends the list. -/
def Threaded (width : Nat) (memory : Memory) : Nat → List Nat → Prop
  | head, [] => head = 0
  | head, node :: rest =>
    head = node ∧ node ≠ 0 ∧ Threaded width memory (memory.loadNat node width) rest

section Threaded
variable {width : Nat} {memory other : Memory} {head node : Nat} {nodes : List Nat}

/-- Only the links matter to a threaded list. -/
theorem Threaded.congr (threaded : Threaded width memory head nodes)
    (same : ∀ node ∈ nodes, other.loadNat node width = memory.loadNat node width) :
    Threaded width other head nodes := by
  induction nodes generalizing head with
  | nil => exact threaded
  | cons node rest ih =>
    obtain ⟨first, notNull, behind⟩ := threaded
    refine ⟨first, notNull, ?_⟩
    rw [same node (by simp)]
    exact ih behind fun later member => same later (by simp [member])

/-- A list is empty exactly when its head is null. -/
theorem Threaded.null_iff (threaded : Threaded width memory head nodes) :
    head = 0 ↔ nodes = [] := by
  cases nodes with
  | nil => exact iff_of_true threaded rfl
  | cons node rest =>
    obtain ⟨rfl, notNull, _⟩ := threaded
    exact iff_of_false notNull (List.cons_ne_nil _ _)

theorem Threaded.unique {others : List Nat} (threaded : Threaded width memory head nodes)
    (again : Threaded width memory head others) : nodes = others := by
  induction nodes generalizing head others with
  | nil => exact (again.null_iff.mp threaded).symm
  | cons node rest ih =>
    cases others with
    | nil => exact absurd (threaded.null_iff.mp again) (List.cons_ne_nil _ _)
    | cons second others =>
      obtain ⟨rfl, _, behind⟩ := threaded
      obtain ⟨rfl, _, behindAgain⟩ := again
      rw [ih behind behindAgain]

theorem Threaded.store {address : Nat} {bytes : Bytes} (threaded : Threaded width memory head nodes)
    (apart : ∀ node ∈ nodes, address + bytes.length ≤ node ∨ node + width ≤ address) :
    Threaded width (memory.store address bytes) head nodes :=
  threaded.congr fun node member => loadNat_store_apart memory (apart node member)

/-- A node that is apart from the others goes in front when its link is the old head. -/
theorem Threaded.push (threaded : Threaded width memory head nodes) (fits : head < 256 ^ width)
    (notNull : node ≠ 0) (apart : ∀ other ∈ nodes, node + width ≤ other ∨ other + width ≤ node) :
    Threaded width (memory.storeNat node width head) node (node :: nodes) := by
  refine ⟨rfl, notNull, ?_⟩
  rw [loadNat_storeNat memory node fits]
  apply threaded.store
  simpa only [leBytes_length] using apart

end Threaded

end Memory

end LinuxCLearning
