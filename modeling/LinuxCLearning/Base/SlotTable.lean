import Mathlib

/-! Tables of a fixed number of slots: searches from either end, counts, and the
highest value in use; and a place of an array that is written over. -/

namespace LinuxCLearning.SlotTable

variable {size : Nat} {Entry : Type} {table : Fin size → Entry} {wanted : Entry → Bool}
  {slot : Fin size}

/-- The first slot whose entry is wanted. -/
def first (table : Fin size → Entry) (wanted : Entry → Bool) : Option (Fin size) :=
  (List.finRange size).find? fun slot => wanted (table slot)

/-- The last slot whose entry is wanted. -/
def last (table : Fin size → Entry) (wanted : Entry → Bool) : Option (Fin size) :=
  (List.finRange size).reverse.find? fun slot => wanted (table slot)

/-- How many entries are wanted. -/
def tally (table : Fin size → Entry) (wanted : Entry → Bool) : Nat :=
  (List.finRange size).countP fun slot => wanted (table slot)

/-- The highest value of an entry, and at least zero. -/
def highest (table : Fin size → Entry) (value : Entry → Int) : Int :=
  (List.finRange size).foldl
    (fun high slot => if value (table slot) > high then value (table slot) else high) 0

theorem get_set {entries : List Entry} {index : Nat}
    (inside : index < entries.length) (entry : Entry) (other : Nat) :
    (entries.set index entry)[other]? = if other = index then some entry else entries[other]? := by
  rw [List.getElem?_set]
  by_cases same : other = index
  · subst same
    simp [inside]
  · simp [same, Ne.symm same]

theorem first_wanted (found : first table wanted = some slot) : wanted (table slot) = true := by
  unfold first at found
  simpa using List.find?_some found

theorem first_eq_none : first table wanted = none ↔ ∀ slot, wanted (table slot) = false := by
  simp [first]

/-- A search finds the only slot that is wanted. -/
theorem first_unique (here : wanted (table slot) = true)
    (only : ∀ other, wanted (table other) = true → other = slot) :
    first table wanted = some slot := by
  cases found : first table wanted with
  | none =>
    have missing := first_eq_none.mp found slot
    exact absurd (here.symm.trans missing) (by simp)
  | some other => rw [only other (first_wanted found)]

theorem tally_eq_zero : tally table wanted = 0 ↔ ∀ slot, wanted (table slot) = false := by
  simp [tally]

theorem countP_update {slots : List (Fin size)} (distinct : slots.Nodup) (member : slot ∈ slots)
    (entry : Entry) :
    slots.countP (fun other => wanted (Function.update table slot entry other)) +
        (wanted (table slot)).toNat =
      slots.countP (fun other => wanted (table other)) + (wanted entry).toNat := by
  induction slots with
  | nil => simp at member
  | cons head rest ih =>
    obtain ⟨fresh, distinctRest⟩ := List.nodup_cons.mp distinct
    by_cases same : slot = head
    · subst same
      have untouched : rest.countP (fun other => wanted (Function.update table slot entry other)) =
          rest.countP (fun other => wanted (table other)) := by
        apply List.countP_congr
        intro other inside
        have different : other ≠ slot := fun equal => fresh (equal ▸ inside)
        rw [Function.update_of_ne different]
      rw [List.countP_cons, List.countP_cons, untouched, Function.update_self]
      cases wanted (table slot) <;> cases wanted entry <;> simp
    · have inside : slot ∈ rest := by simpa [same] using member
      have counted := ih distinctRest inside
      rw [List.countP_cons, List.countP_cons, Function.update_of_ne (Ne.symm same)]
      omega

theorem tally_update (table : Fin size → Entry) (wanted : Entry → Bool) (slot : Fin size)
    (entry : Entry) :
    tally (Function.update table slot entry) wanted + (wanted (table slot)).toNat =
      tally table wanted + (wanted entry).toNat :=
  countP_update (List.nodup_finRange size) (List.mem_finRange slot) entry

theorem foldl_highest (value : Entry → Int) (slots : List (Fin size)) (start : Int) :
    let high := slots.foldl
      (fun high slot => if value (table slot) > high then value (table slot) else high) start
    start ≤ high ∧ (∀ slot ∈ slots, value (table slot) ≤ high) ∧
      (high = start ∨ ∃ slot ∈ slots, value (table slot) = high) := by
  induction slots generalizing start with
  | nil => simp
  | cons head rest ih =>
    rw [List.foldl_cons]
    by_cases larger : value (table head) > start
    · rw [if_pos larger]
      obtain ⟨above, bounds, attained⟩ := ih (value (table head))
      refine ⟨larger.le.trans above, ?_, .inr ?_⟩
      · simpa using ⟨above, bounds⟩
      · rcases attained with same | ⟨slot, inside, same⟩
        · exact ⟨head, by simp, same.symm⟩
        · exact ⟨slot, by simp [inside], same⟩
    · rw [if_neg larger]
      obtain ⟨above, bounds, attained⟩ := ih start
      refine ⟨above, ?_, attained.imp_right ?_⟩
      · simpa using ⟨(not_lt.mp larger).trans above, bounds⟩
      · intro reached
        obtain ⟨slot, inside, same⟩ := reached
        exact ⟨slot, by simp [inside], same⟩

theorem highest_nonneg (table : Fin size → Entry) (value : Entry → Int) :
    0 ≤ highest table value :=
  (foldl_highest value (List.finRange size) 0).1

theorem le_highest (table : Fin size → Entry) (value : Entry → Int) (slot : Fin size) :
    value (table slot) ≤ highest table value :=
  (foldl_highest value (List.finRange size) 0).2.1 slot (List.mem_finRange slot)

theorem highest_le {value : Entry → Int} {bound : Int} (nonneg : 0 ≤ bound)
    (bounds : ∀ slot, value (table slot) ≤ bound) : highest table value ≤ bound := by
  rcases (foldl_highest value (List.finRange size) 0).2.2 with zero | ⟨slot, _, same⟩
  · exact zero.le.trans nonneg
  · exact same.symm.le.trans (bounds slot)

end LinuxCLearning.SlotTable
