import LinuxCLearning.Base.Bytes

/-! Lines of a file as `fgets` delivers them, and bytes cut off in one. -/

namespace LinuxCLearning

/-- What `fgets` stores of the first line of a nonempty input. -/
def fgetsLine : (room : Nat) → Bytes → Bytes
  | room + 1, byte :: rest => byte :: if byte = 10 then [] else fgetsLine room rest
  | _, _ => []

theorem fgetsLine_pos {room : Nat} {input : Bytes} (nonempty : input ≠ []) :
    0 < (fgetsLine (room + 1) input).length := by
  cases input with
  | nil => exact absurd rfl nonempty
  | cons byte rest => simp [fgetsLine]

theorem drop_line_lt {room : Nat} {input : Bytes} (nonempty : ¬input = []) :
    (input.drop (fgetsLine (room + 1) input).length).length < input.length := by
  rw [List.length_drop]
  exact Nat.sub_lt (List.length_pos_iff.mpr nonempty) (fgetsLine_pos nonempty)

section Lines

theorem fgetsLine_line {line : Bytes} (one : 10 ∉ line) (room : Nat) (rest : Bytes) :
    fgetsLine room (line ++ 10 :: rest) = (line ++ [10]).take room := by
  induction line generalizing room with
  | nil =>
    cases room with
    | zero => rfl
    | succ room => simp [fgetsLine]
  | cons byte line ih =>
    cases room with
    | zero => rfl
    | succ room =>
      have other : byte ≠ 10 := fun same => one (same ▸ List.mem_cons_self)
      rw [List.cons_append, fgetsLine, if_neg other,
        ih (fun member => one (List.mem_cons_of_mem _ member))]
      rfl

theorem fgetsLine_last {line : Bytes} (one : 10 ∉ line) (room : Nat) :
    fgetsLine room line = line.take room := by
  induction line generalizing room with
  | nil => cases room <;> rfl
  | cons byte line ih =>
    cases room with
    | zero => rfl
    | succ room =>
      have other : byte ≠ 10 := fun same => one (same ▸ List.mem_cons_self)
      rw [fgetsLine, if_neg other, ih (fun member => one (List.mem_cons_of_mem _ member))]
      rfl

theorem takeWhile_other {letter byte : UInt8} (other : byte ≠ letter) (rest : Bytes) :
    (byte :: rest).takeWhile (· != letter) = byte :: rest.takeWhile (· != letter) := by
  apply List.takeWhile_cons_of_pos
  exact bne_iff_ne.mpr other

theorem takeWhile_first {keep : UInt8 → Bool} {byte : UInt8} (stops : keep byte = false)
    (front rest : Bytes) :
    (front ++ byte :: rest).takeWhile keep = front.takeWhile keep := by
  rw [List.takeWhile_append]
  split
  · rename_i all
    have stop : (byte :: rest).takeWhile keep = [] :=
      List.takeWhile_cons_of_neg (by rw [stops]; decide)
    rw [stop, List.append_nil, (List.takeWhile_prefix _).eq_of_length all]
  · rfl

theorem rdropWhile_kept {drop : UInt8 → Bool} {back : Bytes}
    (kept : back.rdropWhile drop ≠ []) (front : Bytes) :
    (front ++ back).rdropWhile drop = front ++ back.rdropWhile drop := by
  have some_left : (back.reverse.dropWhile drop).isEmpty = false := by
    simpa [List.rdropWhile] using kept
  rw [List.rdropWhile, List.reverse_append, List.dropWhile_append, some_left]
  simp [List.rdropWhile]

theorem rdropWhile_visible {drop : UInt8 → Bool} (front : Bytes) {byte : UInt8}
    (visible : drop byte = false) (back : Bytes) :
    (front ++ byte :: back).rdropWhile drop = front ++ byte :: back.rdropWhile drop := by
  induction back using List.reverseRecOn with
  | nil => exact List.rdropWhile_concat_neg _ _ _ (by rw [visible]; decide)
  | append_singleton back last ih =>
    have regroup : front ++ byte :: (back ++ [last]) = (front ++ byte :: back) ++ [last] := by simp
    rw [regroup, List.rdropWhile_concat, List.rdropWhile_concat, ih]
    split
    · rfl
    · simp

theorem rdropWhile_all {drop : UInt8 → Bool} (front : Bytes) {back : Bytes}
    (all : ∀ byte ∈ back, drop byte = true) :
    (front ++ back).rdropWhile drop = front.rdropWhile drop := by
  induction back using List.reverseRecOn with
  | nil => rw [List.append_nil]
  | append_singleton back last ih =>
    rw [← List.append_assoc, List.rdropWhile_concat_pos _ _ _ (all last (by simp))]
    exact ih fun byte member => all byte (List.mem_append_left _ member)

end Lines

end LinuxCLearning
