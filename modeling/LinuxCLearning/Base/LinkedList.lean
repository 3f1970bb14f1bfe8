import Mathlib

/-! Linked lists threaded through a heap. `next` and `prev` read the links of a
node and `none` is the null pointer. For lists linked both ways, a segment is a
list of nodes together with what its two ends point to, so that an edit at a
seam only has to look at the nodes next to it. -/

namespace LinuxCLearning.LinkedList

universe u
variable {Addr : Type u}

/-- The nodes are linked both ways in this order; the first one points back to
`before` and the last one points on to `after`. -/
def Segment (next prev : Addr → Option Addr) (before : Option Addr) :
    List Addr → (after : Option Addr) → Prop
  | [], _ => True
  | node :: rest, after =>
    prev node = before ∧ next node = rest.head?.or after ∧ Segment next prev (some node) rest after

/-- A whole list: `head` points to its first node and both ends are null. -/
def Linked (next prev : Addr → Option Addr) (head : Option Addr) (nodes : List Addr) : Prop :=
  head = nodes.head? ∧ Segment next prev none nodes none

variable {next prev next' prev' : Addr → Option Addr} {before after before' after' : Option Addr}

theorem segment_cons {node : Addr} {rest : List Addr} :
    Segment next prev before (node :: rest) after ↔
      prev node = before ∧ next node = rest.head?.or after ∧
        Segment next prev (some node) rest after := Iff.rfl

/-- A segment of a concatenation is both segments and the seam between them. -/
theorem segment_append {first second : List Addr} :
    Segment next prev before (first ++ second) after ↔
      Segment next prev before first (second.head?.or after) ∧
        Segment next prev (first.getLast?.or before) second after := by
  induction first generalizing before with
  | nil => simp [Segment]
  | cons node rest ih =>
    have seam : ((node :: rest).getLast?).or before = rest.getLast?.or (some node) := by
      cases rest with
      | nil => simp
      | cons other rest => simp [List.getLast?_cons]
    simp only [List.cons_append, segment_cons, ih, seam, List.head?_append, Option.or_assoc]
    exact ⟨fun ⟨back, on, left, right⟩ => ⟨⟨back, on, left⟩, right⟩,
      fun ⟨⟨back, on, left⟩, right⟩ => ⟨back, on, left, right⟩⟩

theorem Segment.congr {nodes : List Addr} (segment : Segment next prev before nodes after)
    (sameNext : ∀ node ∈ nodes, next' node = next node)
    (samePrev : ∀ node ∈ nodes, prev' node = prev node) :
    Segment next' prev' before nodes after := by
  induction nodes generalizing before with
  | nil => trivial
  | cons node rest ih =>
    obtain ⟨back, on, tail⟩ := segment
    refine ⟨(samePrev node (by simp)).trans back, (sameNext node (by simp)).trans on, ?_⟩
    exact ih tail (fun other member => sameNext other (by simp [member]))
      (fun other member => samePrev other (by simp [member]))

theorem Segment.relinkBefore {nodes : List Addr} (segment : Segment next prev before nodes after)
    (sameNext : ∀ node ∈ nodes, next' node = next node)
    (first : ∀ node, nodes.head? = some node → prev' node = before')
    (others : ∀ node ∈ nodes.tail, prev' node = prev node) :
    Segment next' prev' before' nodes after := by
  cases nodes with
  | nil => trivial
  | cons node rest =>
    obtain ⟨_, on, tail⟩ := segment
    refine ⟨first node rfl, (sameNext node (by simp)).trans on, ?_⟩
    exact tail.congr (fun other member => sameNext other (by simp [member])) others

theorem Segment.relinkAfter {nodes : List Addr} (segment : Segment next prev before nodes after)
    (samePrev : ∀ node ∈ nodes, prev' node = prev node)
    (last : ∀ node, nodes.getLast? = some node → next' node = after')
    (others : ∀ node ∈ nodes.dropLast, next' node = next node) :
    Segment next' prev' before nodes after' := by
  induction nodes generalizing before with
  | nil => trivial
  | cons node rest ih =>
    obtain ⟨back, on, tail⟩ := segment
    have later : ∀ other ∈ rest, prev' other = prev other :=
      fun other member => samePrev other (by simp [member])
    cases rest with
    | nil => exact ⟨(samePrev node (by simp)).trans back, last node rfl, trivial⟩
    | cons second rest =>
      refine ⟨(samePrev node (by simp)).trans back, (others node (by simp)).trans on, ?_⟩
      refine ih tail later ?_ ?_
      · intro other found
        exact last other (by simpa [List.getLast?_cons_cons] using found)
      · intro other member
        exact others other (by simp [member])

/-- What the links of a node in the middle say, and the two parts around it. -/
theorem segment_split {front back : List Addr} {node : Addr} :
    Segment next prev none (front ++ node :: back) none ↔
      Segment next prev none front (some node) ∧ prev node = front.getLast? ∧
        next node = back.head? ∧ Segment next prev (some node) back none := by
  rw [segment_append, segment_cons]
  simp

theorem head?_ne_of_mem_tail {nodes : List Addr} {node : Addr} (distinct : nodes.Nodup)
    (member : node ∈ nodes.tail) : nodes.head? ≠ some node := by
  cases nodes with
  | nil => simp at member
  | cons first rest =>
    intro same
    cases same
    exact (List.nodup_cons.mp distinct).1 member

theorem getLast?_ne_of_mem_dropLast {nodes : List Addr} {node : Addr} (distinct : nodes.Nodup)
    (member : node ∈ nodes.dropLast) : nodes.getLast? ≠ some node := by
  intro same
  have decomposed := List.dropLast_append_getLast? node same
  rw [← decomposed, List.nodup_append] at distinct
  exact distinct.2.2 node member node (by simp) rfl

/-- Put a node in front: it points on to the old first node, which points back. -/
theorem Linked.push {head : Option Addr} {nodes : List Addr} {node : Addr}
    (linked : Linked next prev head nodes) (own : next' node = head) (ownPrev : prev' node = none)
    (sameNext : ∀ other ∈ nodes, next' other = next other)
    (first : ∀ other, nodes.head? = some other → prev' other = some node)
    (others : ∀ other ∈ nodes.tail, prev' other = prev other) :
    Linked next' prev' (some node) (node :: nodes) := by
  obtain ⟨same, segment⟩ := linked
  refine ⟨rfl, ownPrev, ?_, segment.relinkBefore sameNext first others⟩
  rw [own, same, Option.or_none]

/-- Take the first node off: the next one becomes the head and points nowhere back. -/
theorem Linked.pop {head : Option Addr} {nodes : List Addr} {node : Addr}
    (linked : Linked next prev head (node :: nodes))
    (sameNext : ∀ other ∈ nodes, next' other = next other)
    (first : ∀ other, nodes.head? = some other → prev' other = none)
    (others : ∀ other ∈ nodes.tail, prev' other = prev other) :
    Linked next' prev' (next node) nodes := by
  obtain ⟨_, _, on, segment⟩ := linked
  exact ⟨by simpa using on, segment.relinkBefore sameNext first others⟩

/-- Cut a node out wherever it stands: its neighbours now point at each other. -/
theorem Linked.unlink {head head' : Option Addr} {front back : List Addr} {node : Addr}
    (linked : Linked next prev head (front ++ node :: back))
    (newHead : head' = (front ++ back).head?)
    (frontPrev : ∀ other ∈ front, prev' other = prev other)
    (frontLast : ∀ other, front.getLast? = some other → next' other = back.head?)
    (frontOthers : ∀ other ∈ front.dropLast, next' other = next other)
    (backNext : ∀ other ∈ back, next' other = next other)
    (backFirst : ∀ other, back.head? = some other → prev' other = front.getLast?)
    (backOthers : ∀ other ∈ back.tail, prev' other = prev other) :
    Linked next' prev' head' (front ++ back) := by
  obtain ⟨_, segment⟩ := linked
  obtain ⟨left, _, _, right⟩ := segment_split.mp segment
  refine ⟨newHead, segment_append.mpr ⟨?_, ?_⟩⟩
  · rw [Option.or_none]
    exact left.relinkAfter frontPrev frontLast frontOthers
  · rw [Option.or_none]
    exact right.relinkBefore backNext backFirst backOthers

/-! Singly linked queues: a head pointer, a tail pointer and forward links. -/

/-- Following `next` from the first node visits these nodes and ends in null. -/
def Path (next : Addr → Option Addr) : List Addr → Prop
  | [] => True
  | node :: rest => next node = rest.head? ∧ Path next rest

theorem Path.snoc {nodes : List Addr} {node : Addr} (path : Path next nodes)
    (own : next' node = none)
    (last : ∀ other, nodes.getLast? = some other → next' other = some node)
    (others : ∀ other ∈ nodes.dropLast, next' other = next other) :
    Path next' (nodes ++ [node]) := by
  induction nodes with
  | nil => exact ⟨own, trivial⟩
  | cons first rest ih =>
    obtain ⟨on, tail⟩ := path
    cases rest with
    | nil => exact ⟨last first rfl, own, trivial⟩
    | cons second rest =>
      refine ⟨(others first (by simp)).trans on, ih tail ?_ ?_⟩
      · intro other found
        exact last other (by simpa [List.getLast?_cons_cons] using found)
      · intro other member
        exact others other (by simp [member])

/-- A queue between two pointers: `tail` is its last node, both are null when it is empty. -/
structure Queue (next : Addr → Option Addr) (head tail : Option Addr) (nodes : List Addr) :
    Prop where
  head : head = nodes.head?
  tail : tail = nodes.getLast?
  path : Path next nodes

namespace Queue
variable {head tail : Option Addr} {nodes : List Addr} {node : Addr}

/-- Append a node: the old last node points to it, or the head when there was none. -/
theorem enqueue (queue : Queue next head tail nodes) (own : next' node = none)
    (last : ∀ other, tail = some other → next' other = some node)
    (others : ∀ other ∈ nodes.dropLast, next' other = next other) :
    Queue next' (head.or (some node)) (some node) (nodes ++ [node]) := by
  refine ⟨?_, by simp, queue.path.snoc own ?_ others⟩
  · rw [queue.head, List.head?_append, List.head?_cons]
  · intro other found
    exact last other (queue.tail.trans found)

/-- Remove the first node: the tail becomes null with the last one. -/
theorem dequeue (queue : Queue next head tail (node :: nodes)) :
    Queue next (next node) (if next node = none then none else tail) nodes := by
  obtain ⟨on, path⟩ := queue.path
  refine ⟨on, ?_, path⟩
  rw [on, queue.tail]
  cases nodes with
  | nil => simp
  | cons second rest => simp [List.getLast?_cons_cons]

end Queue

end LinuxCLearning.LinkedList
