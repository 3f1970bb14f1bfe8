import LinuxCLearning.Base.Memory

/-! Strings that a program prints into memory one behind the other with `snprintf`. -/

namespace LinuxCLearning

/-- What `snprintf` stores of its output in `room` bytes. -/
def printed (room : Nat) (output : Bytes) : Bytes :=
  if room = 0 then [] else output.take (room - 1) ++ [0]

theorem printed_length (room : Nat) (output : Bytes) : (printed room output).length ≤ room := by
  unfold printed
  split
  · exact Nat.zero_le _
  · rw [List.length_append, List.length_take, List.length_singleton]
    omega

theorem printed_ne_nil {room : Nat} (some_room : 0 < room) (output : Bytes) :
    printed room output ≠ [] := by
  rw [printed, if_neg some_room.ne']
  exact List.concat_ne_nil _ _

namespace Memory

/-- The memory begins with a string. -/
def Holds (memory : Memory) (string : Bytes) : Prop :=
  memory.load 0 (string.length + 1) = string ++ [0]

section Holds
variable {memory : Memory} {string output : Bytes} {size : Nat}

theorem Holds.before (holds : memory.Holds string) : memory.load 0 string.length = string := by
  have whole := holds
  rw [Holds, load_append] at whole
  exact (List.append_inj whole (load_length _ _ _)).1

/-- A string that is printed at the end of another one in the rest of a buffer. -/
theorem Holds.print (holds : memory.load 0 string.length = string) (inside : string.length < size) :
    (memory.store string.length (printed (size - string.length) output)).Holds (string ++
      output.take (size - 1 - string.length)) := by
  have some_room : size - string.length ≠ 0 := by omega
  have stored : printed (size - string.length) output =
      output.take (size - 1 - string.length) ++ [0] := by
    rw [printed, if_neg some_room, Nat.sub_right_comm]
  have length : (string ++ output.take (size - 1 - string.length)).length + 1 =
      string.length + (output.take (size - 1 - string.length) ++ [(0 : UInt8)]).length := by
    rw [List.length_append, List.length_append, List.length_singleton, Nat.add_assoc]
  rw [Holds, stored, length, load_append, load_store_apart _ (Or.inr (Nat.zero_add _).le), holds,
    Nat.zero_add,
    load_store _ _ (le_refl _), List.take_length, List.append_assoc]

theorem Holds.read (holds : memory.Holds string) (nulFree : 0 ∉ string)
    (inside : string.length < size) :
    (CString.ofBuffer (memory.load 0 size)).bytes = string := by
  obtain ⟨rest, rfl⟩ := Nat.exists_eq_add_of_lt inside
  have split : memory.load 0 (string.length + rest + 1) = string ++ 0 :: memory.load
      (string.length + 1) rest := by
    rw [Nat.add_right_comm, load_append, holds, Nat.zero_add, List.append_assoc,
      List.singleton_append]
  rw [split]
  exact takeWhile_nulFree nulFree _

end Holds

end Memory

end LinuxCLearning
