import Mathlib

/-! Circular buffers with a head, a tail and a count over a fixed array, and the
queue they stand for. -/

namespace LinuxCLearning

/-- An array of `capacity` slots used as a ring. -/
structure Ring (Item : Type) where
  capacity : Nat
  slots : Nat → Item
  head : Nat
  tail : Nat
  count : Nat

namespace Ring
variable {Item : Type} {ring : Ring Item}

def empty (capacity : Nat) (blank : Item) : Ring Item := ⟨capacity, fun _ => blank, 0, 0, 0⟩

/-- Store an item behind the last one. -/
def push (ring : Ring Item) (item : Item) : Ring Item :=
  { ring with
    slots := Function.update ring.slots ring.tail item
    tail := (ring.tail + 1) % ring.capacity
    count := ring.count + 1 }

def front (ring : Ring Item) : Item := ring.slots ring.head

/-- Give up the first item. -/
def pop (ring : Ring Item) : Ring Item :=
  { ring with
    head := (ring.head + 1) % ring.capacity
    count := ring.count - 1 }

/-- The items in the order in which they leave. -/
def contents (ring : Ring Item) : List Item :=
  (List.range ring.count).map fun offset => ring.slots ((ring.head + offset) % ring.capacity)

/-- What the indices of a ring keep. -/
structure Sound (ring : Ring Item) : Prop where
  positive : 0 < ring.capacity
  headInside : ring.head < ring.capacity
  bounded : ring.count ≤ ring.capacity
  tailEq : ring.tail = (ring.head + ring.count) % ring.capacity

theorem Sound.empty {capacity : Nat} (positive : 0 < capacity) (blank : Item) :
    Sound (Ring.empty capacity blank) :=
  ⟨positive, positive, Nat.zero_le _, (Nat.zero_mod _).symm⟩

@[simp] theorem contents_length (ring : Ring Item) : ring.contents.length = ring.count := by
  simp [contents]

theorem offset_ne (head : Nat) {capacity first second : Nat} (before : first < second)
    (within : second < capacity) : (head + first) % capacity ≠ (head + second) % capacity := by
  intro same
  have equal : first % capacity = second % capacity := Nat.ModEq.add_left_cancel' head same
  rw [Nat.mod_eq_of_lt (before.trans within), Nat.mod_eq_of_lt within] at equal
  exact before.ne equal

namespace Sound

theorem push (sound : ring.Sound) (room : ring.count < ring.capacity) (item : Item) :
    (ring.push item).Sound := by
  refine ⟨sound.positive, sound.headInside, room, ?_⟩
  simp only [Ring.push, sound.tailEq, Nat.mod_add_mod, Nat.add_assoc]

theorem pop (sound : ring.Sound) (some_item : 0 < ring.count) : ring.pop.Sound := by
  refine ⟨sound.positive, Nat.mod_lt _ sound.positive, ?_, ?_⟩
  · exact (Nat.sub_le _ _).trans sound.bounded
  · have moved : ring.head + 1 + (ring.count - 1) = ring.head + ring.count := by omega
    simp only [Ring.pop, Nat.mod_add_mod, moved, sound.tailEq]

theorem push_contents (sound : ring.Sound) (room : ring.count < ring.capacity) (item : Item) :
    (ring.push item).contents = ring.contents ++ [item] := by
  simp only [contents, Ring.push, List.range_succ, List.map_append, List.map_cons, List.map_nil,
    ← sound.tailEq, Function.update_self]
  congr 1
  apply List.map_congr_left
  intro offset inside
  have earlier : offset < ring.count := List.mem_range.mp inside
  have different := offset_ne ring.head earlier room
  rw [← sound.tailEq] at different
  exact Function.update_of_ne different _ _

/-- The first item is the one that `pop` gives up. -/
theorem contents_pop (sound : ring.Sound) (some_item : 0 < ring.count) :
    ring.contents = ring.front :: ring.pop.contents := by
  obtain ⟨count, counted⟩ := Nat.exists_eq_succ_of_ne_zero some_item.ne'
  simp only [contents, Ring.pop, front, counted, Nat.succ_eq_add_one, List.range_succ_eq_map,
    List.map_cons, List.map_map, Nat.add_zero, Nat.mod_eq_of_lt sound.headInside,
    Nat.add_sub_cancel]
  congr 1
  apply List.map_congr_left
  intro offset _
  simp only [Function.comp_apply, Nat.mod_add_mod, Nat.add_assoc, Nat.add_comm 1]

end Sound

end Ring

end LinuxCLearning
