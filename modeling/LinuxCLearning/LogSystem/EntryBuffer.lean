import LinuxCLearning.LogSystem.Format

/-! The buffer of a log entry: where each `snprintf` starts, and what the string in the
buffer ends with. -/

namespace LinuxCLearning.LogSystem

/-- `snprintf` calls that all start inside the buffer, and whose string is one line. -/
structure WritesLine (size : Nat) (pieces : List Bytes) : Prop where
  positions : ∀ front piece rest, pieces = front ++ piece :: rest → front.flatten.length ≤ size
  line : ∃ string, fillBuffer size pieces = some string ∧ string.length < size ∧
    string.getLast? = some 10

/-- The fields in front of the message. -/
def entryFields (localtime : Nat → Tm) (format : UInt32) (entry : LogEntry) : Bytes :=
  (formatPieces localtime format entry).dropLast.flatten

/-- The whole text of an entry. -/
def entryText (localtime : Nat → Tm) (format : UInt32) (entry : LogEntry) : Bytes :=
  entryFields localtime format entry ++ (entry.message.bytes ++ text "\n")

section Buffer
variable {size : Nat}

/-- The calls so far have started inside, and the string is what fits of their texts. -/
theorem fold_snprintfAt (size : Nat) (pieces : List Bytes) :
    pieces.foldlM (snprintfAt size) (0, []) =
      if pieces.dropLast.flatten.length ≤ size then
        some (pieces.flatten.length, pieces.flatten.take (size - 1))
      else none := by
  induction pieces using List.reverseRecOn with
  | nil => simp
  | append_singleton pieces last ih =>
    rw [List.foldlM_append, ih, List.dropLast_concat]
    by_cases inside : pieces.flatten.length ≤ size
    · have earlier : pieces.dropLast.flatten.length ≤ size :=
        ((List.dropLast_sublist pieces).flatten).length_le.trans inside
      have rest : size - pieces.flatten.length - 1 = size - 1 - pieces.flatten.length :=
        Nat.sub_right_comm _ _ _
      rw [if_pos earlier, if_pos inside]
      change (snprintfAt size _ last).bind pure = _
      rw [snprintfAt, if_neg (not_lt.mpr inside), rest, List.flatten_concat,
        List.length_append, List.take_append]
      rfl
    · rw [if_neg inside]
      split
      · change (snprintfAt size _ last).bind pure = _
        rw [snprintfAt, if_pos (not_le.mp inside)]
        rfl
      · rfl

theorem fillBuffer_concat (size : Nat) (front : List Bytes) (last : Bytes) :
    fillBuffer size (front ++ [last]) =
      if front.flatten.length ≤ size then some ((front.flatten ++ last).take (size - 1))
      else none := by
  rw [fillBuffer, fold_snprintfAt, List.dropLast_concat, List.flatten_concat]
  split <;> rfl

/-- The last byte of a text that is cut behind its first `count + 1` bytes. -/
theorem getLast_take {bytes : Bytes} {count : Nat} (long : count < bytes.length) :
    (bytes.take (count + 1)).getLast? = bytes[count]? := by
  rw [List.getLast?_eq_getElem?, List.length_take, Nat.min_eq_left long]
  exact List.getElem?_take_of_lt (Nat.lt_succ_self count)

/-- The calls write one line exactly if the last one starts inside the buffer, and the line
fits with its terminator or is cut behind a newline. -/
theorem writesLine_iff {front : List Bytes} {message : Bytes} (some_room : 2 ≤ size) :
    WritesLine size (front ++ [message ++ [10]]) ↔
      front.flatten.length ≤ size ∧ ((front.flatten ++ (message ++ [10])).length < size ∨
        (front.flatten ++ (message ++ [10]))[size - 2]? = some 10) := by
  have last : (front.flatten ++ (message ++ [10])).getLast? = some 10 := by
    rw [← List.append_assoc, List.getLast?_concat]
  have cut : ((front.flatten ++ (message ++ [10])).take (size - 1)).getLast? = some 10 ↔
      (front.flatten ++ (message ++ [10])).length < size ∨
        (front.flatten ++ (message ++ [10]))[size - 2]? = some 10 := by
    by_cases short : (front.flatten ++ (message ++ [10])).length < size
    · rw [List.take_of_length_le (Nat.le_sub_one_of_lt short), last]
      exact iff_of_true rfl (Or.inl short)
    · have count : size - 1 = size - 2 + 1 := by omega
      rw [count, getLast_take (by omega)]
      exact (or_iff_right short).symm
  constructor
  · intro writes
    obtain ⟨string, filled, -, newline⟩ := writes.line
    have inside := writes.positions front _ [] rfl
    rw [fillBuffer_concat, if_pos inside] at filled
    cases filled
    exact ⟨inside, cut.mp newline⟩
  · rintro ⟨inside, newline⟩
    constructor
    · intro earlier piece rest same
      refine le_trans ?_ inside
      have start : earlier <+: front ++ [message ++ [10]] := same ▸ List.prefix_append _ _
      rcases List.prefix_concat_iff.mp start with whole | within
      · rw [whole] at same
        simp at same
      · exact within.sublist.flatten.length_le
    · refine ⟨_, by rw [fillBuffer_concat, if_pos inside], ?_, cut.mpr newline⟩
      exact (List.length_take_le _ _).trans_lt (by omega)

end Buffer

section Entries
variable (localtime : Nat → Tm) (format : UInt32) (entry : LogEntry)

theorem formatPieces_concat : formatPieces localtime format entry =
    (formatPieces localtime format entry).dropLast ++ [entry.message.bytes ++ [10]] := by
  rw [formatPieces, List.dropLast_concat]
  rfl

/-- `format_entry` with a buffer of 4096 bytes keeps its positions inside and leaves one line
exactly if the fields in front of the message take at most 4096 bytes, and either the whole
text fits or its last byte that fits is a newline. -/
theorem entry_line_iff :
    ((∀ front piece rest, formatPieces localtime format entry = front ++ piece :: rest →
      front.flatten.length ≤ 4096) ∧
      ∃ string, formatEntry localtime format 4096 entry = some string ∧ string.length < 4096 ∧
        string.getLast? = some 10) ↔
      (entryFields localtime format entry).length ≤ 4096 ∧
        ((entryText localtime format entry).length < 4096 ∨
        (entryText localtime format entry)[4094]? = some 10) := by
  have some_room : 2 ≤ 4096 := by decide
  have line := @writesLine_iff 4096
    (formatPieces localtime format entry).dropLast entry.message.bytes some_room
  rw [← formatPieces_concat] at line
  refine Iff.trans ?_ line
  constructor
  · rintro ⟨positions, written⟩
    exact ⟨positions, written⟩
  · rintro ⟨positions, written⟩
    exact ⟨positions, written⟩

end Entries

theorem letter_visible : (97 : UInt8) ≠ 0 := by decide

/-- An entry whose message takes all of its array. -/
def fullEntry : LogEntry where
  level := .info
  file := .ofBuffer (text "main.c")
  line := 1
  func := .ofBuffer (text "main")
  timestamp := 0
  tid := 1
  message := ⟨List.replicate 4095 97, replicate_nulFree letter_visible 4095⟩

/-- The same entry from a file whose name is longer than the buffer. -/
def longNameEntry : LogEntry :=
  { fullEntry with file := ⟨List.replicate 4096 97, replicate_nulFree letter_visible 4096⟩ }

/-- The newline of the longest message is cut, so that the next entry goes on in the same
line, and behind a long file name the next call starts outside of the buffer. -/
theorem longest_message_loses_newline :
    fullEntry.message.length = 4095 ∧
      formatEntry (fun _ => ⟨126, 0, 1, 0, 0, 0⟩) 0 4096 fullEntry = some (List.replicate 4095 97) ∧
      (List.replicate 4095 (97 : UInt8)).getLast? ≠ some 10 ∧
      formatEntry (fun _ => ⟨126, 0, 1, 0, 0, 0⟩) formatFile 4096 longNameEntry = none := by
  have pieces : formatPieces (fun _ => ⟨126, 0, 1, 0, 0, 0⟩) 0 fullEntry =
    [] ++ [List.replicate 4095 97 ++ [10]] := rfl
  have longPieces : formatPieces (fun _ => ⟨126, 0, 1, 0, 0, 0⟩) formatFile longNameEntry =
      [text "[" ++ List.replicate 4096 97, text "] "] ++ [List.replicate 4095 97 ++ [10]] := rfl
  refine ⟨List.length_replicate, ?_, ?_, ?_⟩
  · rw [formatEntry, pieces, fillBuffer_concat, if_pos (by decide),
      List.flatten_nil, List.nil_append]
    exact congrArg some (List.take_left' List.length_replicate)
  · intro newline
    exact absurd (List.eq_of_mem_replicate (List.mem_of_getLast? newline)) (by decide)
  · rw [formatEntry, longPieces, fillBuffer_concat, if_neg]
    rw [List.flatten_cons, List.length_append, List.length_append, List.length_replicate]
    exact not_le.mpr (Nat.lt_add_right _ (Nat.lt_add_of_pos_left (by decide)))

end LinuxCLearning.LogSystem
