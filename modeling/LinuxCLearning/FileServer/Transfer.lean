import LinuxCLearning.FileServer.Client

/-! The dialogues of the loops that move bytes, whatever the sizes of the pieces. -/

namespace LinuxCLearning.FileServer
open Proc

/-- A program that changes nothing has returned this value. -/
def Returns {α σ : Type} (value : α) (state : σ) (result : α) (after : σ) : Prop :=
  result = value ∧ after = state

/-- A sequence whose first part changes nothing goes on from the values it returns. -/
theorem returned_andThen {σ α β : Type} {always : σ → Prop} {state : σ} {value lost : α}
    {first : Proc UInt8 σ α} {after : α → Proc UInt8 σ β} {rest : Proc UInt8 σ β → σ → Prop}
    {final : β → σ → Prop} {dialogue later : List (Mark UInt8)}
    (follows : Follows always (Ends (Returns value state)) (Returns lost state)
      first state dialogue)
    (onwards : Follows always rest final (after value) state later)
    (broken : (after lost).Dies always final state) :
    Follows always rest final (first >>= after) state (dialogue ++ later) := by
  refine follows.andThen ?_ ?_
  · intro result same returned
    obtain ⟨rfl, rfl⟩ := returned
    exact onwards
  · intro result same returned
    obtain ⟨rfl, rfl⟩ := returned
    exact broken

theorem take_piece {data : Bytes} {count : Nat} (positive : 0 < count)
    (inside : count ≤ data.length) :
    data.take count ≠ [] ∧ (data.take count).length = count := by
  have taken : (data.take count).length = count := by
    rw [List.length_take, min_eq_left inside]
  refine ⟨?_, taken⟩
  rw [← List.length_pos_iff, taken]
  exact positive

section Quiet
variable {σ : Type} {always : σ → Prop} {state : σ}

theorem sendOnce_follows (holds : always state) {bytes : Bytes} (nonempty : bytes ≠ []) :
    Follows always (Ends (Returns (some bytes.length) state)) (Returns none state)
      (sendOnce bytes) state (bytes.map .sent) := by
  have whole : Follows always (Ends (Returns (some bytes.length) state)) (Returns none state)
      (sendOnce bytes) state (bytes.map .sent ++ []) := by
    refine .send holds nonempty ?_ ⟨holds, rfl, rfl⟩
    intro count _ _ uncut
    rw [uncut rfl, List.drop_length]
    exact .ends holds ⟨rfl, rfl⟩
  rwa [List.append_nil] at whole

/-- `send_all` sends exactly the buffer. -/
theorem sendAll_follows (holds : always state) (buffer : Bytes) :
    Follows always (Ends (Returns true state)) (Returns false state)
      (sendAll buffer) state (buffer.map .sent) := by
  induction same : buffer.length using Nat.strong_induction_on generalizing buffer with
  | _ size ih =>
    rw [sendAll]
    split_ifs with empty
    · rw [empty]
      exact .ends holds ⟨rfl, rfl⟩
    · rw [← List.append_nil (buffer.map Mark.sent)]
      refine .send holds empty ?_ ⟨holds, rfl, rfl⟩
      intro count positive within _
      rw [List.append_nil]
      simp only [if_neg positive.ne']
      refine ih _ ?_ (buffer.drop count) rfl
      rw [List.length_drop, same]
      exact Nat.sub_lt (same ▸ List.length_pos_iff.mpr empty) positive

/-- The file loop sends exactly the content. -/
theorem sendFileContent_follows (holds : always state) (content : Bytes) :
    Follows always (Ends (Returns true state)) (Returns false state)
      (sendFileContent content) state (content.map .sent) := by
  induction same : content.length using Nat.strong_induction_on generalizing content with
  | _ size ih =>
    rw [sendFileContent]
    split_ifs with empty
    · rw [empty]
      exact .ends holds ⟨rfl, rfl⟩
    · have split : content.map Mark.sent = (content.take defaultBufferSize).map Mark.sent ++
          (content.drop defaultBufferSize).map Mark.sent := by
        rw [← List.map_append, List.take_append_drop]
      rw [split]
      refine returned_andThen (sendAll_follows holds _) ?_ ⟨holds, rfl, rfl⟩
      refine ih _ ?_ (content.drop defaultBufferSize) rfl
      rw [List.length_drop, same]
      exact Nat.sub_lt (same ▸ List.length_pos_iff.mpr empty) (by decide)

theorem sendAll_dies (holds : always state) (buffer : Bytes) :
    (sendAll buffer).Dies always (fun _ after => after = state) state := by
  induction same : buffer.length using Nat.strong_induction_on generalizing buffer with
  | _ size ih =>
    rw [sendAll]
    split_ifs with empty
    · exact ⟨holds, rfl⟩
    · refine ⟨holds, ?_⟩
      intro result
      cases result with
      | none => exact ⟨holds, rfl⟩
      | some count =>
        dsimp only
        split_ifs with nothing
        · exact ⟨holds, rfl⟩
        · refine ih _ ?_ (buffer.drop count) rfl
          rw [List.length_drop, same]
          exact Nat.sub_lt (same ▸ List.length_pos_iff.mpr empty) (Nat.pos_of_ne_zero nothing)

theorem sendFileContent_dies (holds : always state) (content : Bytes) :
    (sendFileContent content).Dies always (fun _ after => after = state) state := by
  induction same : content.length using Nat.strong_induction_on generalizing content with
  | _ size ih =>
    rw [sendFileContent]
    split_ifs with empty
    · exact ⟨holds, rfl⟩
    · apply (sendAll_dies holds _).andThen
      intro result after unchanged
      subst after
      cases result with
      | false => exact ⟨holds, rfl⟩
      | true =>
        refine ih _ ?_ (content.drop defaultBufferSize) rfl
        rw [List.length_drop, same]
        exact Nat.sub_lt (same ▸ List.length_pos_iff.mpr empty) (by decide)

/-- `recv_all` stores exactly the next bytes. -/
theorem recvAll_follows (holds : always state) (data received : Bytes) :
    Follows always (Ends (Returns (some (received ++ data)) state)) (Returns none state)
      (recvAll data.length received) state (data.map .got) := by
  induction same : data.length using Nat.strong_induction_on generalizing data received with
  | _ size ih =>
    rw [recvAll]
    split_ifs with finished
    · obtain rfl := List.length_eq_zero_iff.mp (same.trans finished)
      rw [List.append_nil]
      exact .ends holds ⟨rfl, rfl⟩
    · rw [← List.append_nil (data.map Mark.got)]
      refine .recv holds (Nat.pos_of_ne_zero finished) same.ge ?_ ⟨holds, rfl, rfl⟩
      intro count positive within
      obtain ⟨some_bytes, taken⟩ := take_piece positive (within.trans same.ge)
      have rest := ih (size - count) (Nat.sub_lt (Nat.pos_of_ne_zero finished) positive)
        (data.drop count) (received ++ data.take count) (by rw [List.length_drop, same])
      rw [List.append_assoc, List.take_append_drop] at rest
      simpa only [if_neg some_bytes, taken, List.append_nil] using rest

/-- The probe of a resumed upload drops exactly the payload. -/
theorem skipContent_follows {always : FileSystem → Prop} {state : FileSystem} (holds : always state)
    (data : Bytes) :
    Follows always (Ends (Returns () state)) (Returns () state)
      (skipContent data.length) state (data.map .got) := by
  induction same : data.length using Nat.strong_induction_on generalizing data with
  | _ size ih =>
    rw [skipContent]
    split_ifs with finished
    · obtain rfl := List.length_eq_zero_iff.mp (same.trans finished)
      exact .ends holds ⟨rfl, rfl⟩
    · rw [← List.append_nil (data.map Mark.got)]
      have buffer : 0 < min size defaultBufferSize :=
        lt_min (Nat.pos_of_ne_zero finished) (by decide)
      refine .recv holds buffer ((min_le_left _ _).trans same.ge) ?_ ⟨holds, rfl, rfl⟩
      intro count positive within
      have inside : count ≤ size := within.trans (min_le_left _ _)
      obtain ⟨some_bytes, taken⟩ := take_piece positive (inside.trans same.ge)
      have rest := ih (size - count) (Nat.sub_lt (Nat.pos_of_ne_zero finished) positive)
        (data.drop count) (by rw [List.length_drop, same])
      simpa only [if_neg some_bytes, taken, List.append_nil] using rest

end Quiet

/-- The file loop receives exactly the payload. `writing` relates the position and
the payload still to come to the file system; every write must succeed and keep it. -/
theorem receiveContent_follows {always : FileSystem → Prop} {path : Bytes}
    (writing : Nat → Bytes → FileSystem → Prop)
    (writes : ∀ position chunk rest state, chunk ≠ [] → writing position (chunk ++ rest) state →
      (FileSystem.writeFile path position chunk state).1 = true ∧
        writing (position + chunk.length) rest (FileSystem.writeFile path position chunk state).2)
    (keeps : ∀ position rest state, writing position rest state → always state)
    (position : Nat) (data : Bytes) {state : FileSystem} (start : writing position data state) :
    Follows always
      (Ends fun result after => result = .complete ∧ writing (position + data.length) [] after)
      (fun result after => result = .recvFailed ∧ ∃ position rest, writing position rest after)
      (receiveContent path position data.length) state (data.map .got) := by
  have holds := keeps position data state start
  induction same : data.length using Nat.strong_induction_on generalizing data position state with
  | _ size ih =>
    rw [receiveContent]
    split_ifs with finished
    · obtain rfl := List.length_eq_zero_iff.mp (same.trans finished)
      subst finished
      exact .ends holds ⟨rfl, start⟩
    · rw [← List.append_nil (data.map Mark.got)]
      have buffer : 0 < min size defaultBufferSize :=
        lt_min (Nat.pos_of_ne_zero finished) (by decide)
      refine .recv holds buffer ((min_le_left _ _).trans same.ge) ?_
        ⟨holds, rfl, position, data, start⟩
      intro count positive within
      have inside : count ≤ size := within.trans (min_le_left _ _)
      obtain ⟨some_bytes, taken⟩ := take_piece positive (inside.trans same.ge)
      obtain ⟨written, next⟩ := writes position (data.take count) (data.drop count) state some_bytes
        (by rwa [List.take_append_drop])
      rw [taken] at next
      have rest := ih (size - count) (Nat.sub_lt (Nat.pos_of_ne_zero finished) positive)
        (position + count) (data.drop count) next (keeps _ _ _ next)
        (by rw [List.length_drop, same])
      rw [Nat.add_assoc, Nat.add_sub_cancel' inside] at rest
      simp only [if_neg some_bytes, List.append_nil]
      refine .perform holds ?_
      simpa only [written, if_true, taken] using rest

end LinuxCLearning.FileServer
