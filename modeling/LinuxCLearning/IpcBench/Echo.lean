import LinuxCLearning.Base.Bounded
import LinuxCLearning.Base.Bytes

/-! The benchmarks whose child sends every message back: over two pipes, two FIFOs, a stream
socket, two message queues or datagram sockets. A channel has room for so many bytes or messages,
and a call that finds none waits. -/

namespace LinuxCLearning.IpcBench

open Proc Machine

/-- The buffer of a process and the number of latencies in its collector. -/
structure Peer where
  buf : Bytes
  samples : Nat

abbrev StreamPeer := Proc UInt8 Peer Bool

/-- `memcpy` to a place in the buffer. -/
def Peer.store (peer : Peer) (offset : Nat) (data : Bytes) : Peer :=
  { peer with buf := peer.buf.take offset ++ data ++ peer.buf.drop (offset + data.length) }

/-- The loops over `write`: `tcp_write_all`, `do_write_all` and those of the pipe and the FIFO. -/
def writeAll (size written : Nat) : StreamPeer :=
  act id fun peer =>
    if written < size then
      send ((peer.buf.drop written).take (size - written)) false fun
        | some (count + 1) => writeAll size (written + (count + 1))
        | _ => pure false
    else pure true
termination_by size - written

/-- The loops over `read`. -/
def readAll (size total : Nat) : StreamPeer :=
  if total < size then
    recv (size - total) fun
      | some (first :: rest) =>
        act (Peer.store · total (first :: rest)) fun _ =>
          readAll size (total + (first :: rest).length)
      | _ => pure false
  else pure true
termination_by size - total

/-- `collector_record`. -/
def collectorRecord (capacity : Nat) (peer : Peer) : Peer :=
  if peer.samples < capacity then { peer with samples := peer.samples + 1 } else peer

/-- A round of the parent: write, read back, record. -/
def parentRound (size capacity : Nat) : StreamPeer :=
  guarded (writeAll size 0)
    (guarded (readAll size 0) (act (collectorRecord capacity) fun _ => pure true))

/-- A round of the child. -/
def childRound (size : Nat) : StreamPeer := guarded (readAll size 0) (writeAll size 0)

section Loops
variable {peer : Peer} {size : Nat}

theorem store_nil (peer : Peer) (offset : Nat) : peer.store offset [] = peer := by
  simp [Peer.store]

theorem store_length {offset : Nat} {data : Bytes}
    (inside : offset + data.length ≤ peer.buf.length) :
    (peer.store offset data).buf.length = peer.buf.length := by
  simp only [Peer.store, List.length_append, List.length_take, List.length_drop]
  omega

theorem store_store {offset : Nat} {data rest : Bytes} (inside : offset ≤ peer.buf.length) :
    (peer.store offset data).store (offset + data.length) rest =
      peer.store offset (data ++ rest) := by
  have front : (peer.buf.take offset).length = offset := by
    rw [List.length_take, min_eq_left inside]
  simp only [Peer.store]
  congr 1
  have taken : (peer.buf.take offset ++ data).length = offset + data.length := by
    rw [List.length_append, front]
  rw [List.take_append_of_le_length taken.ge, List.take_of_length_le taken.le, ← List.append_assoc]
  congr 1
  rw [List.drop_append, taken, List.drop_eq_nil_of_le (by omega), List.nil_append,
    List.drop_drop, List.length_append]
  congr 1
  omega

theorem writeAll_succeeds (length : peer.buf.length = size) (written : Nat) :
    (writeAll size written).Succeeds (fun after => after = peer) peer
      ((peer.buf.drop written).map .sent) := by
  induction left : size - written using Nat.strong_induction_on generalizing written with
  | _ left ih =>
    rw [writeAll]
    refine .act trivial ?_
    dsimp only [id]
    split
    · rename_i more
      have whole : (peer.buf.drop written).take (size - written) = peer.buf.drop written := by
        rw [List.take_of_length_le (by rw [List.length_drop, length])]
      rw [whole, ← List.append_nil ((peer.buf.drop written).map Mark.sent)]
      refine .send trivial ?_ ?_ ⟨trivial, rfl⟩
      · rw [← List.length_pos_iff, List.length_drop, length]
        omega
      · intro count positive within _
        obtain ⟨count, rfl⟩ := Nat.exists_eq_succ_of_ne_zero positive.ne'
        rw [List.append_nil, List.drop_drop]
        exact ih (size - (written + (count + 1))) (by omega) (written + (count + 1)) rfl
    · rename_i full
      rw [List.drop_eq_nil_of_le (by omega)]
      exact Succeeds.pure rfl

theorem readAll_succeeds {data : Bytes} (length : peer.buf.length = size) (total : Nat)
    (all : total + data.length = size) :
    (readAll size total).Succeeds (fun after => after = peer.store total data) peer
      (data.map .got) := by
  induction left : size - total using Nat.strong_induction_on generalizing total peer data with
  | _ left ih =>
    rw [readAll]
    split
    · rename_i more
      rw [← List.append_nil (data.map Mark.got)]
      refine .recv trivial (by omega) (by omega) ?_ ⟨trivial, rfl⟩
      intro count positive within
      have taken : (data.take count).length = count := by
        rw [List.length_take, min_eq_left (by omega)]
      obtain ⟨first, rest, piece⟩ := List.exists_cons_of_length_pos (taken.symm ▸ positive)
      rw [List.append_nil, piece]
      dsimp only
      rw [← piece, taken]
      refine .act trivial ?_
      have inside : total + (data.take count).length ≤ peer.buf.length := by omega
      have rest_length : total + count + (data.drop count).length = size := by
        rw [List.length_drop]
        omega
      have onwards := ih (size - (total + count)) (by omega) (by rw [store_length inside, length])
        (total + count)
        rest_length rfl
      have together : (peer.store total (data.take count)).store (total + count) (data.drop count) =
          peer.store total data := by
        have before : total ≤ peer.buf.length := by omega
        have pieces : (peer.store total (data.take count)).store (total + (data.take count).length)
          (data.drop count) =
          peer.store total (data.take count ++ data.drop count) := store_store before
        rwa [taken, List.take_append_drop] at pieces
      rwa [together] at onwards
    · rename_i full
      obtain rfl : data = [] := List.eq_nil_of_length_eq_zero (by omega)
      exact .pure (store_nil peer total).symm

theorem writeAll_piecewise (size written : Nat) : (writeAll size written).Piecewise := by
  induction left : size - written using Nat.strong_induction_on generalizing written with
  | _ left ih =>
    rw [writeAll]
    refine .act fun peer => ?_
    split
    · refine .send nofun fun result => ?_
      match result with
      | none => exact .done false
      | some 0 => exact .done false
      | some (count + 1) => exact ih (size - (written + (count + 1))) (by omega) _ rfl
    · exact .done true

theorem readAll_piecewise (size total : Nat) : (readAll size total).Piecewise := by
  induction left : size - total using Nat.strong_induction_on generalizing total with
  | _ left ih =>
    rw [readAll]
    split
    · refine .recv fun result => ?_
      match result with
      | none => exact .done false
      | some [] => exact .done false
      | some (first :: rest) =>
        refine .act fun peer => ih (size - (total + (first :: rest).length)) ?_ _ rfl
        rw [List.length_cons]
        omega
    · exact .done true

theorem store_all {data : Bytes} (same : peer.buf.length = data.length) :
    peer.store 0 data = { peer with buf := data } := by
  simp [Peer.store, same]

end Loops

/-- The parent after so many rounds. -/
def ParentAt (data : Bytes) (capacity round : Nat) (peer : Peer) : Prop :=
  peer = ⟨data, min round capacity⟩

/-- The child after so many rounds; its buffer begins with anything. -/
def ChildAt (data : Bytes) (round : Nat) (peer : Peer) : Prop :=
  peer.buf.length = data.length ∧ (0 < round → peer.buf = data)

section Rounds
variable {data : Bytes} {capacity round : Nat} {peer : Peer}

theorem collectorRecord_min (data : Bytes) (capacity round : Nat) :
    collectorRecord capacity ⟨data, min round capacity⟩ = ⟨data, min (round + 1) capacity⟩ := by
  unfold collectorRecord
  split
  · rename_i space
    have more : min round capacity + 1 = min (round + 1) capacity := by
      dsimp only at space
      omega
    rw [← more]
  · rename_i full
    have same : min round capacity = min (round + 1) capacity := by
      dsimp only at full
      omega
    rw [← same]

theorem parentRound_succeeds (before : ParentAt data capacity round peer) :
    (parentRound data.length capacity).Succeeds (ParentAt data capacity (round + 1)) peer
      (data.map .sent ++ data.map .got) := by
  subst before
  have written : (writeAll data.length 0).Succeeds (fun after => after = ⟨data, min round capacity⟩)
      ⟨data, min round capacity⟩ (data.map .sent) := writeAll_succeeds rfl 0
  refine written.guarded ?_
  rintro _ rfl
  have same : (⟨data, min round capacity⟩ : Peer).buf.length = data.length := rfl
  rw [← List.append_nil (data.map Mark.got)]
  refine (readAll_succeeds same 0 (Nat.zero_add _)).guarded ?_
  rintro _ rfl
  refine .act trivial (Succeeds.pure ?_)
  rw [store_all same]
  exact collectorRecord_min data capacity round

theorem childRound_succeeds (before : ChildAt data round peer) :
    (childRound data.length).Succeeds (ChildAt data (round + 1)) peer
      ((data.map Mark.sent ++ data.map Mark.got).map Mark.dual) := by
  have dual : (data.map Mark.sent ++ data.map Mark.got).map Mark.dual =
      data.map Mark.got ++ data.map Mark.sent := by
    simp
  rw [dual]
  refine (readAll_succeeds before.1 0 (Nat.zero_add _)).guarded ?_
  rintro _ rfl
  rw [store_all before.1]
  have written : (writeAll data.length 0).Succeeds (fun after => after = { peer with buf := data })
      { peer with buf := data } (data.map .sent) := writeAll_succeeds rfl 0
  refine Follows.weaken written ?_ fun _ _ => id
  rintro success after ⟨succeeded, rfl⟩
  exact ⟨succeeded, rfl, fun _ => rfl⟩

end Rounds

/-- Over a channel with room for at least one byte each way, and however the bytes are cut into
pieces, both processes do all their rounds: the parent has its data back and a sample for each
round, as far as the collector goes, and nothing is left in the channel. -/
theorem stream_echo (room capacity iterations : Nat) (data garbage : Bytes) (one : 1 ≤ room)
    (same : garbage.length = data.length) :
    Inevitable (Link.boundedAdvance room)
      (fun link => link.left.program = .done true ∧
        link.left.state = ⟨data, min iterations capacity⟩ ∧
        link.right.program = .done true ∧ ChildAt data iterations link.right.state ∧
        link.left.inbox = [] ∧ link.right.inbox = [])
      ⟨⟨(parentRound data.length capacity).rounds iterations, ⟨data, 0⟩, []⟩,
        ⟨(childRound data.length).rounds iterations, ⟨garbage, 0⟩, []⟩, true⟩ := by
  have parent_start : ParentAt data capacity 0 ⟨data, 0⟩ := by
    rw [ParentAt, Nat.zero_min]
  have child_start : ChildAt data 0 ⟨garbage, 0⟩ := ⟨same, nofun⟩
  have parent := Succeeds.rounds (fun _ _ => parentRound_succeeds) iterations 0 parent_start
  have child := Succeeds.rounds (fun _ _ => childRound_succeeds) iterations 0 child_start
  rw [Nat.zero_add] at parent child
  have dual : (List.replicate iterations
      ((data.map Mark.sent ++ data.map Mark.got).map Mark.dual)).flatten =
      ((List.replicate iterations (data.map Mark.sent ++ data.map Mark.got)).flatten).map
          Mark.dual := by
    rw [List.map_flatten, List.map_replicate]
  rw [dual] at child
  have parent_pieces : (parentRound data.length capacity).Piecewise :=
    (writeAll_piecewise _ 0).guarded ((readAll_piecewise _ 0).guarded (.act fun _ => .done true))
  have child_pieces : (childRound data.length).Piecewise :=
    (readAll_piecewise _ 0).guarded (writeAll_piecewise _ 0)
  exact Link.bounded_rounds parent child (parent_pieces.rounds iterations)
    (child_pieces.rounds iterations) one

/-- Three rounds of the first bytes of the test data through a pipe of one byte. -/
theorem stream_echo_three :
    Inevitable (Link.boundedAdvance 1)
      (fun link => link.left.program = .done true ∧ link.left.state = ⟨[0, 1, 2], 2⟩ ∧
        link.right.program = .done true ∧ ChildAt [0, 1, 2] 3 link.right.state ∧
        link.left.inbox = [] ∧ link.right.inbox = [])
      ⟨⟨(parentRound 3 2).rounds 3, ⟨[0, 1, 2], 0⟩, []⟩,
        ⟨(childRound 3).rounds 3, ⟨[9, 9, 9], 0⟩, []⟩, true⟩ :=
  stream_echo 1 2 3 [0, 1, 2] [9, 9, 9] (le_refl 1) rfl

abbrev MessagePeer := Proc Bytes Peer Bool

/-- `mq_send`: the message goes as one. -/
def mqSend (size : Nat) : MessagePeer :=
  act id fun peer => send [peer.buf.take size] true fun result => pure result.isSome

/-- `mq_receive`, with what is done with the length that it returns. -/
def mqReceive (rest : Nat → MessagePeer) : MessagePeer :=
  recv 1 fun
    | some (message :: _) => act (Peer.store · 0 message) fun _ => rest message.length
    | _ => pure false

/-- A round of the parent of `bench_mqueue`. -/
def mqParentRound (size capacity : Nat) : MessagePeer :=
  guarded (mqSend size) (mqReceive fun _ => act (collectorRecord capacity) fun _ => pure true)

/-- A round of the child. -/
def mqChildRound : MessagePeer := mqReceive mqSend

section Messages
variable {data : Bytes} {capacity round : Nat} {peer : Peer}

theorem mqSend_succeeds (holds : peer.buf = data) :
    (mqSend data.length).Succeeds (fun after => after = peer) peer [.sent data] := by
  refine .act trivial ?_
  have message : [(peer.buf.take data.length)].map Mark.sent ++ [] = [Mark.sent data] := by
    simp [holds]
  dsimp only [id]
  rw [← message]
  refine .send trivial (by simp) ?_ ⟨trivial, rfl⟩
  intro count _ _ whole
  rw [whole rfl, List.drop_length]
  exact Succeeds.pure rfl

theorem mqReceive_succeeds {post : Peer → Prop} {rest : Nat → MessagePeer}
    {later : List (Mark Bytes)}
    (onwards : (rest data.length).Succeeds post (peer.store 0 data) later) :
    (mqReceive rest).Succeeds post peer (.got data :: later) := by
  have letter : (Mark.got data :: later) = [data].map Mark.got ++ later := rfl
  rw [letter]
  refine .recv trivial one_pos (le_refl 1) ?_ ⟨trivial, rfl⟩
  intro count positive within
  obtain rfl : count = 1 := by omega
  exact .act trivial onwards

theorem mqParentRound_succeeds (before : ParentAt data capacity round peer) :
    (mqParentRound data.length capacity).Succeeds (ParentAt data capacity (round + 1)) peer
      [.sent data, .got data] := by
  subst before
  have sent : (mqSend data.length).Succeeds (fun after => after = ⟨data, min round capacity⟩)
      ⟨data, min round capacity⟩ [.sent data] := mqSend_succeeds rfl
  refine sent.guarded ?_
  rintro _ rfl
  refine mqReceive_succeeds (.act trivial (Succeeds.pure ?_))
  have same : (⟨data, min round capacity⟩ : Peer).buf.length = data.length := rfl
  rw [store_all same]
  exact collectorRecord_min data capacity round

theorem mqChildRound_succeeds (before : ChildAt data round peer) :
    mqChildRound.Succeeds (ChildAt data (round + 1)) peer [.got data, .sent data] := by
  refine mqReceive_succeeds ?_
  rw [store_all before.1]
  have sent : (mqSend data.length).Succeeds (fun after => after = { peer with buf := data })
      { peer with buf := data } [.sent data] := mqSend_succeeds rfl
  refine Follows.weaken sent ?_ fun _ _ => id
  rintro success after ⟨succeeded, rfl⟩
  exact ⟨succeeded, rfl, fun _ => rfl⟩

theorem mqSend_piecewise (size : Nat) : (mqSend size).Piecewise :=
  .act fun _ => .send (fun _ => le_refl 1) fun _ => .done _

theorem mqReceive_piecewise {rest : Nat → MessagePeer}
    (onwards : ∀ length, (rest length).Piecewise) :
    (mqReceive rest).Piecewise := by
  refine .recv fun result => ?_
  match result with
  | none => exact .done false
  | some [] => exact .done false
  | some (message :: _) => exact .act fun _ => onwards message.length

end Messages

/-- The same with message queues, which have room for so many messages. -/
theorem message_echo (room capacity iterations : Nat) (data garbage : Bytes) (one : 1 ≤ room)
    (same : garbage.length = data.length) :
    Inevitable (Link.boundedAdvance room)
      (fun link => link.left.program = .done true ∧
        link.left.state = ⟨data, min iterations capacity⟩ ∧
        link.right.program = .done true ∧ ChildAt data iterations link.right.state ∧
        link.left.inbox = [] ∧ link.right.inbox = [])
      ⟨⟨(mqParentRound data.length capacity).rounds iterations, ⟨data, 0⟩, []⟩,
        ⟨mqChildRound.rounds iterations, ⟨garbage, 0⟩, []⟩, true⟩ := by
  have parent_start : ParentAt data capacity 0 ⟨data, 0⟩ := by
    rw [ParentAt, Nat.zero_min]
  have child_start : ChildAt data 0 ⟨garbage, 0⟩ := ⟨same, nofun⟩
  have parent := Succeeds.rounds (fun _ _ => mqParentRound_succeeds) iterations 0 parent_start
  have child := Succeeds.rounds (fun _ _ => mqChildRound_succeeds) iterations 0 child_start
  rw [Nat.zero_add] at parent child
  have dual : (List.replicate iterations [Mark.got data, .sent data]).flatten =
      ((List.replicate iterations [Mark.sent data, .got data]).flatten).map Mark.dual := by
    rw [List.map_flatten, List.map_replicate]
    rfl
  rw [dual] at child
  have parent_pieces : (mqParentRound data.length capacity).Piecewise :=
    (mqSend_piecewise _).guarded (mqReceive_piecewise fun _ => .act fun _ => .done true)
  have child_pieces : mqChildRound.Piecewise := mqReceive_piecewise mqSend_piecewise
  exact Link.bounded_rounds parent child (parent_pieces.rounds iterations)
    (child_pieces.rounds iterations) one

/-- Three rounds with a queue for two messages and a collector for two latencies. -/
theorem message_echo_three :
    Inevitable (Link.boundedAdvance 2)
      (fun link => link.left.program = .done true ∧ link.left.state = ⟨[0, 1], 2⟩ ∧
        link.right.program = .done true ∧ ChildAt [0, 1] 3 link.right.state ∧
        link.left.inbox = [] ∧ link.right.inbox = [])
      ⟨⟨(mqParentRound 2 2).rounds 3, ⟨[0, 1], 0⟩, []⟩,
        ⟨mqChildRound.rounds 3, ⟨[9, 9], 0⟩, []⟩, true⟩ :=
  message_echo 2 2 3 [0, 1] [9, 9] (by decide) rfl

end LinuxCLearning.IpcBench
