import Mathlib

/-! Chains of keyed nodes, as the buckets of a chained hash table hold them:
walk to the first node with a key, rewrite it in place, or unlink it. -/

namespace LinuxCLearning.Chain

universe u v
variable {Node : Type u} {Key : Type v} [DecidableEq Key] (keyOf : Node → Key)

/-- Walk the chain to the first node that holds `key`. -/
def find (key : Key) (chain : List Node) : Option Node :=
  chain.find? (fun node => decide (keyOf node = key))

/-- Rewrite the first node that holds `key`, leaving the links alone. -/
def update (key : Key) (rewrite : Node → Node) : List Node → List Node
  | [] => []
  | node :: rest =>
    if keyOf node = key then rewrite node :: rest else node :: update key rewrite rest

/-- Unlink the first node that holds `key`, at the head or further down. -/
def unlink (key : Key) (chain : List Node) : List Node :=
  chain.eraseP (fun node => decide (keyOf node = key))

variable {keyOf}

theorem find_eq_none {key : Key} {chain : List Node} :
    find keyOf key chain = none ↔ key ∉ chain.map keyOf := by
  simp [find, List.find?_eq_none]

theorem find_some {key : Key} {chain : List Node} {node : Node}
    (found : find keyOf key chain = some node) : node ∈ chain ∧ keyOf node = key := by
  refine ⟨List.mem_of_find?_eq_some found, ?_⟩
  simpa using List.find?_some found

/-- With distinct keys, every node of the chain is the one its key finds. -/
theorem find_of_mem {chain : List Node} {node : Node} (distinct : (chain.map keyOf).Nodup)
    (member : node ∈ chain) : find keyOf (keyOf node) chain = some node := by
  induction chain with
  | nil => simp at member
  | cons head rest ih =>
    simp only [List.map_cons, List.nodup_cons, List.mem_map, not_exists, not_and] at distinct
    rcases List.mem_cons.mp member with same | later
    · subst head
      simp [find]
    · have different : keyOf head ≠ keyOf node := fun same => distinct.1 node later same.symm
      simpa [find, different] using ih distinct.2 later

theorem find_cons_same (key : Key) (chain : List Node) {node : Node} (same : keyOf node = key) :
    find keyOf key (node :: chain) = some node := by
  simp [find, same]

theorem find_cons_other {key : Key} (chain : List Node) {node : Node} (other : keyOf node ≠ key) :
    find keyOf key (node :: chain) = find keyOf key chain := by
  simp [find, other]

section Update
variable {key : Key} {rewrite : Node → Node}

theorem keys_update (keeps : ∀ node, keyOf (rewrite node) = keyOf node) (chain : List Node) :
    (update keyOf key rewrite chain).map keyOf = chain.map keyOf := by
  induction chain with
  | nil => rfl
  | cons node rest ih =>
    simp only [update]
    split
    · simp [keeps]
    · simp [ih]

theorem length_update (chain : List Node) :
    (update keyOf key rewrite chain).length = chain.length := by
  induction chain with
  | nil => rfl
  | cons node rest ih =>
    simp only [update]
    split
    · rfl
    · simp [ih]

theorem find_update_same (keeps : ∀ node, keyOf (rewrite node) = keyOf node) (chain : List Node) :
    find keyOf key (update keyOf key rewrite chain) = (find keyOf key chain).map rewrite := by
  induction chain with
  | nil => rfl
  | cons node rest ih =>
    by_cases same : keyOf node = key
    · simp [update, same, find, keeps]
    · simpa [update, same, find] using ih

theorem find_update_other (keeps : ∀ node, keyOf (rewrite node) = keyOf node) {other : Key}
    (different : other ≠ key) (chain : List Node) :
    find keyOf other (update keyOf key rewrite chain) = find keyOf other chain := by
  induction chain with
  | nil => rfl
  | cons node rest ih =>
    by_cases same : keyOf node = key
    · have differs : keyOf node ≠ other := fun equal => different (equal.symm.trans same)
      simp [update, same, find, keeps, Ne.symm different]
    · simp only [update, same, ↓reduceIte]
      by_cases matching : keyOf node = other
      · simp [find, matching]
      · simpa [find, matching] using ih

end Update

section Unlink
variable {key : Key} {chain : List Node}

theorem keys_unlink_sublist : ((unlink keyOf key chain).map keyOf).Sublist (chain.map keyOf) :=
  (List.eraseP_sublist ..).map keyOf

theorem unlink_cons_same {node : Node} (same : keyOf node = key) :
    unlink keyOf key (node :: chain) = chain := by
  simp [unlink, same]

theorem unlink_cons_other {node : Node} (other : keyOf node ≠ key) :
    unlink keyOf key (node :: chain) = node :: unlink keyOf key chain := by
  simp [unlink, other]

/-- With distinct keys no second node can reappear after the first is gone. -/
theorem find_unlink_same (distinct : (chain.map keyOf).Nodup) :
    find keyOf key (unlink keyOf key chain) = none := by
  induction chain with
  | nil => rfl
  | cons node rest ih =>
    simp only [List.map_cons, List.nodup_cons] at distinct
    by_cases same : keyOf node = key
    · rw [unlink_cons_same same]
      exact find_eq_none.mpr (same ▸ distinct.1)
    · rw [unlink_cons_other same, find_cons_other _ same]
      exact ih distinct.2

theorem find_unlink_other {other : Key} (different : other ≠ key) :
    find keyOf other (unlink keyOf key chain) = find keyOf other chain := by
  induction chain with
  | nil => rfl
  | cons node rest ih =>
    by_cases same : keyOf node = key
    · have differs : keyOf node ≠ other := fun equal => different (equal.symm.trans same)
      rw [unlink_cons_same same, find_cons_other _ differs]
    · rw [unlink_cons_other same]
      by_cases matching : keyOf node = other
      · rw [find_cons_same _ _ matching, find_cons_same _ _ matching]
      · rw [find_cons_other _ matching, find_cons_other _ matching, ih]

theorem length_unlink {node : Node} (found : find keyOf key chain = some node) :
    (unlink keyOf key chain).length + 1 = chain.length := by
  obtain ⟨member, same⟩ := find_some found
  have shorter : (unlink keyOf key chain).length = chain.length - 1 :=
    List.length_eraseP_of_mem member (by simpa using same)
  have nonempty := List.length_pos_of_mem member
  omega

end Unlink

/-- Replacing one bucket changes the total number of nodes by the change of its
length. -/
theorem sum_length_update {capacity : Nat} (buckets : Fin capacity → List Node)
    (index : Fin capacity) (chain : List Node) :
    (∑ other, (Function.update buckets index chain other).length) + (buckets index).length =
      (∑ other, (buckets other).length) + chain.length := by
  have pointwise : (fun other => (Function.update buckets index chain other).length) =
      Function.update (fun other => (buckets other).length) index chain.length := by
    funext other
    by_cases same : other = index
    · subst other
      simp
    · simp [same]
  have before := Finset.add_sum_erase Finset.univ
    (fun other => (buckets other).length) (Finset.mem_univ index)
  rw [pointwise, Finset.sum_update_of_mem (Finset.mem_univ index), ← before,
    Finset.sdiff_singleton_eq_erase]
  omega

section Fold
variable {State : Type u} {Value : Type v} {key : Key}

theorem once_of_distinct {chain : List Node} (distinct : (chain.map keyOf).Nodup) (key : Key) :
    (chain.filter fun node => decide (keyOf node = key)).length ≤ 1 := by
  induction chain with
  | nil => exact Nat.zero_le 1
  | cons head rest ih =>
    obtain ⟨fresh, distinct⟩ := List.nodup_cons.mp distinct
    by_cases same : keyOf head = key
    · have others : rest.filter (fun node => decide (keyOf node = key)) = [] := by
        apply List.filter_eq_nil_iff.mpr
        intro node member
        have different : keyOf node ≠ key := by
          intro equal
          exact fresh (List.mem_map.mpr ⟨node, member, equal.trans same.symm⟩)
        simpa using different
      rw [List.filter_cons_of_pos (by simpa using same), others]
      exact le_refl 1
    · rw [List.filter_cons_of_neg (by simpa using same)]
      exact ih distinct

/-- What a fold over the nodes makes of one field, when the nodes with the key change it in one
way, the others leave it alone, and there is at most one of the former. -/
theorem foldl_set (get : State → Value) (step : State → Node → State) (set : Node → Value → Value)
    (steps : ∀ state node, get (step state node) = if keyOf node = key then
      set node (get state) else get state)
    (chain : List Node) (once : (chain.filter fun node => decide (keyOf node = key)).length ≤ 1)
    (state : State) :
    get (chain.foldl step state) = (find keyOf key chain).elim (get state) fun node =>
      set node (get state) := by
  induction chain generalizing state with
  | nil => rfl
  | cons head rest ih =>
    by_cases same : keyOf head = key
    · rw [List.filter_cons_of_pos (by simpa using same), List.length_cons] at once
      have none_left : rest.filter (fun node => decide (keyOf node = key)) = [] :=
        List.eq_nil_of_length_eq_zero (by omega)
      have absent : find keyOf key rest = none :=
        List.find?_eq_none.mpr fun node member => List.filter_eq_nil_iff.mp none_left node member
      rw [List.foldl_cons, ih (by rw [none_left]; exact Nat.zero_le 1), absent, steps, if_pos same,
        find_cons_same key rest same]
      rfl
    · rw [List.filter_cons_of_neg (by simpa using same)] at once
      rw [List.foldl_cons, ih once, steps, if_neg same, find_cons_other rest same]

end Fold

end LinuxCLearning.Chain
