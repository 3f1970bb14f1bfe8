import LinuxCLearning.Base.Bytes

/-! Which byte strings are UTF-8. -/

namespace LinuxCLearning

/-- The ranges of the bytes that go on with a character, by its first byte. -/
def utf8Lead (byte : UInt8) : Option (List (UInt8 × UInt8)) :=
  if byte < 0x80 then some []
  else if 0xC2 ≤ byte ∧ byte ≤ 0xDF then some [(0x80, 0xBF)]
  else if byte = 0xE0 then some [(0xA0, 0xBF), (0x80, 0xBF)]
  else if byte = 0xED then some [(0x80, 0x9F), (0x80, 0xBF)]
  else if 0xE1 ≤ byte ∧ byte ≤ 0xEF then some [(0x80, 0xBF), (0x80, 0xBF)]
  else if byte = 0xF0 then some [(0x90, 0xBF), (0x80, 0xBF), (0x80, 0xBF)]
  else if 0xF1 ≤ byte ∧ byte ≤ 0xF3 then some [(0x80, 0xBF), (0x80, 0xBF), (0x80, 0xBF)]
  else if byte = 0xF4 then some [(0x80, 0x8F), (0x80, 0xBF), (0x80, 0xBF)]
  else none

/-- Whether bytes of these ranges and then whole characters follow. -/
def utf8From : List (UInt8 × UInt8) → Bytes → Bool
  | [], [] => true
  | _ :: _, [] => false
  | [], byte :: rest =>
    match utf8Lead byte with
    | none => false
    | some pending => utf8From pending rest
  | (low, high) :: pending, byte :: rest =>
    decide (low ≤ byte ∧ byte ≤ high) && utf8From pending rest

/-- A sequence of whole characters. -/
def Utf8 (bytes : Bytes) : Prop := utf8From [] bytes = true

instance (bytes : Bytes) : Decidable (Utf8 bytes) :=
  inferInstanceAs (Decidable (utf8From [] bytes = true))

theorem utf8Lead_ranges {byte : UInt8} {pending : List (UInt8 × UInt8)}
    (lead : utf8Lead byte = some pending) :
    ∀ range ∈ pending, 0x80 ≤ range.1 := by
  unfold utf8Lead at lead
  split_ifs at lead
  all_goals
    cases lead
    simp

theorem utf8From_append {pending : List (UInt8 × UInt8)}
    (ranges : ∀ range ∈ pending, 0x80 ≤ range.1) (front : Bytes)
    {byte : UInt8} (ascii : byte < 0x80) (rest : Bytes) :
    utf8From pending (front ++ byte :: rest) =
      (utf8From pending front && utf8From [] (byte :: rest)) := by
  induction front generalizing pending with
  | nil =>
    cases pending with
    | nil => rw [List.nil_append, utf8From, Bool.true_and]
    | cons range pending =>
      have below : ¬ range.1 ≤ byte :=
        UInt8.not_le.mpr (UInt8.lt_of_lt_of_le ascii (ranges range List.mem_cons_self))
      change (decide (range.1 ≤ byte ∧ byte ≤ range.2) && utf8From pending rest) = (false && _)
      rw [decide_eq_false fun inside => below inside.1, Bool.false_and, Bool.false_and]
  | cons first front ih =>
    cases pending with
    | nil =>
      rw [List.cons_append, utf8From, utf8From]
      cases lead : utf8Lead first with
      | none => rw [Bool.false_and]
      | some pending => exact ih (utf8Lead_ranges lead)
    | cons range pending =>
      change (decide _ && utf8From pending (front ++ byte :: rest)) =
        ((decide _ && utf8From pending front) && utf8From [] (byte :: rest))
      rw [ih fun other member => ranges other (List.mem_cons_of_mem _ member), Bool.and_assoc]

theorem utf8_append_iff (front : Bytes) {byte : UInt8} (ascii : byte < 0x80) (rest : Bytes) :
    Utf8 (front ++ byte :: rest) ↔ Utf8 front ∧ Utf8 rest := by
  have lead : utf8Lead byte = some [] := if_pos ascii
  rw [Utf8, utf8From_append (by simp) front ascii rest, Bool.and_eq_true, utf8From, lead]
  rfl

theorem utf8_cons_iff {byte : UInt8} (ascii : byte < 0x80) (rest : Bytes) :
    Utf8 (byte :: rest) ↔ Utf8 rest := by
  have whole := utf8_append_iff [] ascii rest
  rw [List.nil_append] at whole
  exact whole.trans (and_iff_right rfl)

theorem utf8_ascii_append_iff {front : Bytes} (ascii : ∀ byte ∈ front, byte < 0x80) (rest : Bytes) :
    Utf8 (front ++ rest) ↔ Utf8 rest := by
  induction front with
  | nil => rfl
  | cons byte front ih =>
    rw [List.cons_append, utf8_cons_iff (ascii byte List.mem_cons_self)]
    exact ih fun other member => ascii other (List.mem_cons_of_mem _ member)

end LinuxCLearning
