import LinuxCLearning.Base.Hex
import LinuxCLearning.LogSystem.EntryBuffer
import LinuxCLearning.LogSystem.Locking

/-! What `log_hexdump` logs: every line fits into its buffer, and the lines read back as the
bytes of the dump. -/

namespace LinuxCLearning.LogSystem

/-- The values of `i` in the loop of `log_hexdump`, a `size_t`; `none` when it goes on. -/
def rowOffsets (len : UInt64) : Nat → UInt64 → Option (List UInt64)
  | 0, _ => none
  | fuel + 1, i => if i < len then (rowOffsets len fuel (i + 16)).map (i :: ·) else some []

/-- What is behind the colon and the blank of a line. -/
def behindColon (line : Bytes) : Bytes := (line.dropWhile (· ≠ 58)).drop 2

/-- The number in front of the colon. -/
def offsetColumn (line : Bytes) : Option Nat := hexNumber ((line.takeWhile (· ≠ 58)).drop 2)

/-- The bytes that the sixteen columns of a line show, without the blank ones. -/
def hexColumns (line : Bytes) : Bytes :=
  (List.range 16).filterMap fun column =>
    (hexNumber (((behindColon line).drop (3 * column)).take 2)).map UInt8.ofNat

/-- The characters between the bars. -/
def asciiColumn (line : Bytes) : Bytes := ((behindColon line).drop 50).dropLast

/-- A byte as the dump prints it. -/
def shownByte (byte : UInt8) : UInt8 := if 32 ≤ byte ∧ byte < 127 then byte else 46

/-- A line of the dump of some data, by its number. -/
structure RowShows (data : Bytes) (index : Nat) (line : Bytes) : Prop where
  start : text "  " ++ paddedHex 4 (16 * index) ++ text ": " <+: line
  offset : offsetColumn line = some (16 * index)
  columns : hexColumns line = (data.drop (16 * index)).take 16
  ascii : asciiColumn line = ((data.drop (16 * index)).take 16).map shownByte

section Digits

theorem hexDigit_reads : ∀ digit < 16, hexDigitValue (hexDigit digit) = some digit := by decide

theorem hexDigit_visible : ∀ digit < 16, hexDigit digit ≠ 58 ∧ hexDigit digit ≠ 0 := by decide

theorem paddedHex_value (width number : Nat) :
    hexNumber (paddedHex width number) = some number := by
  rw [paddedHex, hexNumber_zeros, hexNumber_digits hexDigit_reads]

theorem paddedHex_visible (width number : Nat) :
    ∀ byte ∈ paddedHex width number, byte ≠ 58 ∧ byte ≠ 0 := by
  intro byte member
  rcases List.mem_append.mp member with zero | written
  · rw [List.eq_of_mem_replicate zero]
    decide
  · obtain ⟨digit, place, rfl⟩ := List.mem_map.mp written
    exact hexDigit_visible digit (Nat.digits_lt_base (by decide) (List.mem_reverse.mp place))

theorem paddedHex_length {width bound number : Nat} (narrow : width ≤ bound)
    (small : number < 16 ^ bound) :
    width ≤ (paddedHex width number).length ∧ (paddedHex width number).length ≤ bound := by
  have digits := (Nat.digits_length_le_iff (by decide : 1 < 16) number).mpr small
  rw [paddedHex, List.length_append, List.length_replicate, List.length_map, List.length_reverse]
  omega

theorem paddedHex_byte (byte : UInt8) : (paddedHex 2 byte.toNat).length = 2 := by
  obtain ⟨low, high⟩ := paddedHex_length (le_refl 2) byte.toNat_lt
  exact le_antisymm high low

end Digits

section Columns

theorem drop_columns {width : Nat} {column : Nat → Bytes}
    (wide : ∀ index, (column index).length = width)
    {count index : Nat} (inside : index < count) (rest : Bytes) :
    ∃ behind, ((List.range count).flatMap column ++ rest).drop (width * index) =
      column index ++ behind := by
  obtain ⟨more, rfl⟩ := Nat.exists_eq_add_of_lt inside
  have front : ((List.range index).flatMap column).length = width * index := by
    rw [List.length_flatMap, List.map_congr_left fun place _ => wide place]
    simp [mul_comm]
  rw [add_assoc, List.range_add, List.flatMap_append, List.append_assoc, List.drop_left' front,
    List.range_succ_eq_map]
  exact ⟨_, by rw [List.map_cons, List.flatMap_cons, List.append_assoc]; rfl⟩

theorem filterMap_range {row : Bytes} (count : Nat) :
    (List.range count).filterMap (fun column => row[column]?) = row.take count := by
  induction count with
  | zero => rfl
  | succ count ih =>
    rw [List.range_succ, List.filterMap_append, ih, List.take_add_one]
    cases found : row[count]? <;> simp [found]

theorem flatMap_chunks (data : Bytes) (width count : Nat) :
    (List.range count).flatMap (fun index => (data.drop (width * index)).take width) =
      data.take (width * count) := by
  induction count with
  | zero => rfl
  | succ count ih =>
    rw [List.range_succ, List.flatMap_append, ih, Nat.mul_succ, List.take_add]
    simp

/-- A column for a byte of the row, or blanks behind its end. -/
def hexColumn (row : Bytes) (column : Nat) : Bytes :=
  match row[column]? with
  | some byte => paddedHex 2 byte.toNat ++ text " "
  | none => text "   "

theorem hexColumn_length (row : Bytes) (column : Nat) : (hexColumn row column).length = 3 := by
  unfold hexColumn
  cases row[column]? with
  | none => rfl
  | some byte =>
    change (paddedHex 2 byte.toNat ++ text " ").length = 3
    rw [List.length_append, paddedHex_byte]
    rfl

theorem hexColumn_value (row : Bytes) (column : Nat) :
    (hexNumber ((hexColumn row column).take 2)).map UInt8.ofNat = row[column]? := by
  unfold hexColumn
  cases row[column]? with
  | none => rfl
  | some byte =>
    change (hexNumber ((paddedHex 2 byte.toNat ++ text " ").take 2)).map UInt8.ofNat = some byte
    rw [List.take_left' (paddedHex_byte byte), paddedHex_value, Option.map_some, UInt8.ofNat_toNat]

end Columns

section Rows

/-- The text of a line in front of the last bar. -/
def rowText (offset : Nat) (row : Bytes) : Bytes :=
  (text "  " ++ paddedHex 4 offset ++ text ": ") ++
    ((List.range 16).flatMap (hexColumn row) ++ (text " |" ++ row.map shownByte))

/-- The line of a dump with a number. -/
def rowLine (data : Bytes) (index : Nat) : Bytes :=
  rowText (16 * index) ((data.drop (16 * index)).take 16) ++ text "|"

theorem columns_length (row : Bytes) : ((List.range 16).flatMap (hexColumn row)).length = 48 := by
  rw [List.length_flatMap, List.map_congr_left fun column _ => hexColumn_length row column]
  rfl

theorem rowText_length {offset : Nat} (small : offset < 16 ^ 16) {row : Bytes}
    (short : row.length ≤ 16) :
    (rowText offset row).length ≤ 86 := by
  have digits := (paddedHex_length (by decide : 4 ≤ 16) small).2
  have blanks : (text "  ").length = 2 ∧ (text ": ").length = 2 ∧ (text " |").length = 2 :=
    ⟨rfl, rfl, rfl⟩
  simp only [rowText, List.length_append, columns_length, List.length_map]
  omega

/-- A line of the dump is never cut. -/
theorem hexdumpLine_eq (data : Bytes) {index : Nat} (small : 16 * index < 16 ^ 16) :
    hexdumpLine data (16 * index) = some (rowLine data index) := by
  rw [rowLine]
  generalize 16 * index = offset at small ⊢
  have short : ((data.drop offset).take 16).length ≤ 16 := List.length_take_le _ _
  have inside := rowText_length small short
  generalize row_def : (data.drop offset).take 16 = row at short inside ⊢
  have pieces : hexdumpLine data offset = fillBuffer 128
      (([text "  " ++ paddedHex 4 offset ++ text ": "] ++ (List.range 16).map (hexColumn row) ++
        [text " |"] ++
        row.map fun byte => [shownByte byte]) ++ [text "|"]) := by
    rw [← row_def]
    rfl
  have front : ([text "  " ++ paddedHex 4 offset ++ text ": "] ++
      (List.range 16).map (hexColumn row) ++ [text " |"] ++
      row.map fun byte => [shownByte byte]).flatten = rowText offset row := by
    have shown : (row.map fun byte => [shownByte byte]).flatten = row.map shownByte := by
      rw [← List.flatMap_def, ← List.map_eq_flatMap]
    simp [rowText, List.flatMap_def, shown]
  rw [pieces, fillBuffer_concat, front, if_pos (inside.trans (by decide)), List.take_of_length_le]
  rw [List.length_append]
  exact Nat.add_le_add_right inside 1 |>.trans (by decide)

theorem offset_visible (offset : Nat) :
    ∀ byte ∈ text "  " ++ paddedHex 4 offset, byte ≠ 58 ∧ byte ≠ 0 := by
  intro byte member
  rcases List.mem_append.mp member with blank | digit
  · have same : byte = 32 := by simpa [text] using blank
    rw [same]
    decide
  · exact paddedHex_visible 4 offset byte digit

theorem rowText_colon (offset : Nat) (row : Bytes) :
    (rowText offset row ++ text "|").takeWhile (· ≠ 58) = text "  " ++ paddedHex 4 offset ∧
      behindColon (rowText offset row ++ text "|") =
        (List.range 16).flatMap (hexColumn row) ++
          (text " |" ++ (row.map shownByte ++ text "|")) := by
  have cut : rowText offset row ++ text "|" = (text "  " ++ paddedHex 4 offset) ++ (58 :: 32 ::
      ((List.range 16).flatMap (hexColumn row) ++
          (text " |" ++ (row.map shownByte ++ text "|")))) := by
    simp [rowText, text]
  have front : ∀ byte ∈ text "  " ++ paddedHex 4 offset, decide (byte ≠ 58) = true :=
    fun byte member => decide_eq_true (offset_visible offset byte member).1
  have stops (rest : Bytes) : ∀ byte, (58 :: rest : Bytes).head? = some byte →
      decide (byte ≠ 58) = false := by
    rintro _ ⟨⟩
    rfl
  constructor
  · rw [cut, takeWhile_stops front (stops _)]
  · rw [behindColon, cut, dropWhile_stops front (stops _)]
    rfl

theorem rowText_columns (offset : Nat) {row : Bytes} (short : row.length ≤ 16) :
    hexColumns (rowText offset row ++ text "|") = row := by
  have columns : hexColumns (rowText offset row ++ text "|") =
      (List.range 16).filterMap (fun column => row[column]?) := by
    apply List.filterMap_congr
    intro column inside
    obtain ⟨behind, found⟩ := drop_columns (hexColumn_length row) (List.mem_range.mp inside)
      (text " |" ++ (row.map shownByte ++ text "|"))
    rw [(rowText_colon offset row).2, found, List.take_append_of_le_length
      (by rw [hexColumn_length]; decide),
      hexColumn_value]
  rw [columns, filterMap_range, List.take_of_length_le short]

theorem rowText_ascii (offset : Nat) (row : Bytes) :
    asciiColumn (rowText offset row ++ text "|") = row.map shownByte := by
  have front : ((List.range 16).flatMap (hexColumn row) ++ text " |").length = 50 := by
    rw [List.length_append, columns_length]
    rfl
  rw [asciiColumn, (rowText_colon offset row).2, ← List.append_assoc, List.drop_left' front]
  exact List.dropLast_concat

theorem rowLine_shows (data : Bytes) (index : Nat) : RowShows data index (rowLine data index) where
  start := (List.prefix_append _ _).trans (List.prefix_append _ _)
  offset := by
    have margin : (text "  ").length = 2 := rfl
    rw [offsetColumn, rowLine, (rowText_colon _ _).1, List.drop_left' margin, paddedHex_value]
  columns := rowText_columns _ (List.length_take_le _ _)
  ascii := rowText_ascii _ _

theorem shownByte_ne (byte : UInt8) : shownByte byte ≠ 0 := by
  unfold shownByte
  split
  · rename_i printable
    rintro rfl
    exact absurd printable.1 (by decide)
  · decide

theorem rowText_nulFree (offset : Nat) (row : Bytes) : 0 ∉ rowText offset row ++ text "|" := by
  have columns : 0 ∉ (List.range 16).flatMap (hexColumn row) := by
    intro member
    obtain ⟨column, -, found⟩ := List.mem_flatMap.mp member
    unfold hexColumn at found
    cases shape : row[column]? with
    | none =>
      rw [shape] at found
      revert found
      decide
    | some byte =>
      rw [shape] at found
      rcases List.mem_append.mp found with digit | blank
      · exact (paddedHex_visible 2 byte.toNat 0 digit).2 rfl
      · revert blank
        decide
  have front : 0 ∉ text "  " ++ paddedHex 4 offset :=
    fun member => (offset_visible offset 0 member).2 rfl
  have shown : 0 ∉ row.map shownByte := by
    intro member
    obtain ⟨byte, -, same⟩ := List.mem_map.mp member
    exact shownByte_ne byte same
  have marks : 0 ∉ text ": " ∧ 0 ∉ text " |" ∧ 0 ∉ text "|" := by decide
  simp only [rowText, List.mem_append, not_or] at front ⊢
  exact ⟨⟨⟨front, marks.1⟩, columns, marks.2.1, shown⟩, marks.2.2⟩

end Rows

section Entries

theorem mapM_defined {step : Nat → Option Bytes} {value : Nat → Bytes} {places : List Nat}
    (defined : ∀ place ∈ places, step place = some (value place)) :
    places.mapM step = some (places.map value) := by
  induction places with
  | nil => rfl
  | cons place places ih =>
    rw [List.mapM_cons, defined place List.mem_cons_self, ih fun other member => defined other
      (List.mem_cons_of_mem _ member)]
    rfl

/-- The loop over the rows visits every sixteenth offset and ends, unless the last step of `i`
leaves the range of a `size_t`. -/
theorem rowOffsets_from {length : Nat} (object : length ≤ 2 ^ 64 - 16) {rows start : Nat}
    (behind : start + rows = (length + 15) / 16) :
    rowOffsets (.ofNat length) (rows + 1) (.ofNat (16 * start)) =
      some ((List.range rows).map fun row => .ofNat (16 * (start + row))) := by
  have compared {offset : Nat} (inside : offset < 2 ^ 64) : UInt64.ofNat offset <
      UInt64.ofNat length ↔ offset < length := by
    have fits : length < 2 ^ 64 := by omega
    rw [UInt64.lt_iff_toNat_lt, UInt64.toNat_ofNat_of_lt' inside, UInt64.toNat_ofNat_of_lt' fits]
  induction rows generalizing start with
  | zero =>
    have done : ¬ 16 * start < length := by omega
    rw [rowOffsets, if_neg ((compared (by omega)).not.mpr done)]
    rfl
  | succ rows ih =>
    have more : 16 * start < length := by omega
    have next : UInt64.ofNat (16 * start) + 16 = UInt64.ofNat (16 * (start + 1)) := by
      rw [mul_add, UInt64.ofNat_add]
      rfl
    rw [rowOffsets, if_pos ((compared (by omega)).mpr more), next, ih (by omega),
      List.range_succ_eq_map]
    simp [Nat.add_assoc, Nat.add_comm 1]

theorem rowOffsets_eq {length : Nat} (object : length ≤ 2 ^ 64 - 16) :
    rowOffsets (.ofNat length) ((length + 15) / 16 + 1) 0 =
      some ((List.range ((length + 15) / 16)).map fun row => .ofNat (16 * row)) := by
  have visited := rowOffsets_from object (Nat.zero_add ((length + 15) / 16))
  simpa using visited

/-- The header of a dump. -/
def headerLine (label : CString) (length : Nat) : Bytes :=
  (label.bytes ++ text " [" ++ decimal length ++ text " bytes]:\n").take 127

theorem hexdumpLines_eq (label : CString) {data : Bytes} (object : data.length ≤ 2 ^ 64 - 16) :
    hexdumpLines label data =
      some (headerLine label data.length ::
        (List.range ((data.length + 15) / 16)).map (rowLine data)) := by
  have header : hexdumpHeader label data = some (headerLine label data.length) := by
    rw [hexdumpHeader, ← List.nil_append [_], fillBuffer_concat]
    rfl
  have rows : (List.range ((data.length + 15) / 16)).mapM (fun row => hexdumpLine data (16 * row)) =
      some ((List.range ((data.length + 15) / 16)).map (rowLine data)) := by
    apply mapM_defined
    intro row inside
    have before := List.mem_range.mp inside
    exact hexdumpLine_eq data (by omega)
  rw [hexdumpLines, header, rows]
  rfl

/-- A line without NUL bytes that fits into a message is the message. -/
theorem message_line {line : Bytes} (nulFree : 0 ∉ line) (short : line.length < 128) :
    (messageOf (.ofBuffer line)).bytes = line := by
  have whole : (CString.ofBuffer line).bytes = line := takeWhile_whole nulFree
  rw [messageOf, whole, List.take_of_length_le (by omega)]
  exact whole

theorem headerLine_nulFree (label : CString) (length : Nat) : 0 ∉ headerLine label length := by
  have digits : 0 ∉ decimal length :=
    fun member => (digit_visible ((decimal_value length).1 0 member)).2.2 rfl
  have marks : 0 ∉ text " [" ∧ 0 ∉ text " bytes]:\n" := by decide
  intro member
  have within := List.mem_of_mem_take member
  simp only [List.mem_append, or_assoc] at within
  rcases within with name | bracket | digit | unit
  · exact label.nulFree name
  · exact marks.1 bracket
  · exact digits digit
  · exact marks.2 unit

theorem lines_fit (label : CString) {data : Bytes} (object : data.length ≤ 2 ^ 64 - 16) :
    ∀ line ∈ headerLine label data.length ::
      (List.range ((data.length + 15) / 16)).map (rowLine data),
      0 ∉ line ∧ line.length < 128 := by
  intro line member
  rcases List.mem_cons.mp member with rfl | row
  · exact ⟨headerLine_nulFree label data.length, Nat.lt_succ_of_le (List.length_take_le _ _)⟩
  · obtain ⟨index, place, rfl⟩ := List.mem_map.mp row
    have inside := List.mem_range.mp place
    have front := @rowText_length (16 * index)
      (by omega) _ (List.length_take_le 16 (data.drop (16 * index)))
    refine ⟨rowText_nulFree _ _, ?_⟩
    rw [rowLine, List.length_append]
    exact Nat.add_lt_add_of_le_of_lt front (by decide : (text "|").length < 42)

theorem rowLines_columns (data : Bytes) :
    ((List.range ((data.length + 15) / 16)).map (rowLine data)).flatMap hexColumns = data := by
  have chunks := flatMap_chunks data 16 ((data.length + 15) / 16)
  rw [List.take_of_length_le (by omega)] at chunks
  rw [List.flatMap_map]
  exact (List.flatMap_congr fun index _ => (rowLine_shows data index).columns).trans chunks

/-- The calls of `log_write` are for the level of the dump, and their messages are its lines. -/
theorem hexdumpCalls_messages {label : CString} {data : Bytes} {lines : List Bytes}
    (found : hexdumpLines label data = some lines)
    (fits : ∀ line ∈ lines, 0 ∉ line ∧ line.length < 128)
    (level : LogLevel) (clock : Nat → UInt64) (tid : UInt32) :
    ∃ calls, hexdumpCalls level data label clock tid = some calls ∧
      calls.map (·.entry.message.bytes) = lines ∧ ∀ call ∈ calls, call.level = level := by
  rw [hexdumpCalls, found]
  refine ⟨_, rfl, ?_, ?_⟩
  · rw [List.map_map]
    refine Eq.trans (List.map_congr_left ?_) (List.zipIdx_map_fst 0 lines)
    intro numbered member
    obtain ⟨nulFree, short⟩ := fits numbered.1 (List.fst_mem_of_mem_zipIdx member)
    exact message_line nulFree short
  · intro call member
    obtain ⟨numbered, -, rfl⟩ := List.mem_map.mp member
    rfl

/-- `log_hexdump` of an enabled level logs a header and one line for every sixteen bytes. No line
leaves the 128 bytes of its buffer, the columns of the lines are the bytes of the dump, and every
line shows its offset and its characters. -/
theorem hexdump_entries (log : GLog) {level : LogLevel}
    (enabled : ¬ level.code < log.config.level.code)
    {data : Bytes} (object : data.length ≤ 2 ^ 64 - 16) (label : CString)
    (clock : Nat → UInt64) (tid : UInt32) :
    ∃ header rows calls, log.start (.hexdump level data label clock tid) = some ⟨.idle, calls⟩ ∧
      calls.map (·.entry.message.bytes) = header :: rows ∧
      (∀ call ∈ calls, log.writePlace call = if log.config.asyncMode then .pushing call.entry
        else .entering call.entry) ∧
      header = headerLine label data.length ∧ rows.length = (data.length + 15) / 16 ∧
      rowOffsets (.ofNat data.length) (rows.length + 1) 0 =
        some ((List.range rows.length).map fun index => .ofNat (16 * index)) ∧
      (∀ line ∈ header :: rows, line.length < 128) ∧
      rows.flatMap hexColumns = data ∧
      ∀ index line, rows[index]? = some line → RowShows data index line := by
  have fits := lines_fit label object
  obtain ⟨calls, made, messages, levels⟩ :=
    hexdumpCalls_messages (hexdumpLines_eq label object) fits level clock tid
  have count : ((List.range ((data.length + 15) / 16)).map (rowLine data)).length =
      (data.length + 15) / 16 := by
    rw [List.length_map, List.length_range]
  refine ⟨_, _, calls, ?_, messages, ?_, rfl, count, ?_, fun line member => (fits line member).2,
    rowLines_columns data, ?_⟩
  · rw [GLog.start, if_neg enabled, made]
    rfl
  · intro call member
    rw [GLog.writePlace, levels call member, if_neg enabled]
  · rw [count]
    exact rowOffsets_eq object
  · intro index line found
    rw [List.getElem?_map] at found
    obtain ⟨place, numbered, rfl⟩ := Option.map_eq_some_iff.mp found
    obtain ⟨-, rfl⟩ := List.getElem?_eq_some_iff.mp numbered
    rw [List.getElem_range]
    exact rowLine_shows data index

end Entries

/-- `LOG_DEFAULT_CONFIG`. -/
def defaultConfig : LogConfig where
  level := .info
  targets := targetConsole
  format := formatTime ||| formatLevel
  logDir := .ofBuffer (text "./log")
  logPrefix := .ofBuffer (text "app")
  maxFileSize := 10 * 1024 * 1024
  maxFileCount := 10
  rotatePolicy := .size
  asyncMode := false
  ringBufferSize := 65536

def defaultLog : GLog := ⟨defaultConfig, none, 0, 0, 0, 0, fun _ => none⟩

/-- Seventeen bytes take a header and two lines. -/
theorem hexdump_entries_seventeen :
    ∃ calls, defaultLog.start
      (.hexdump .info ((List.range 17).map UInt8.ofNat) (.ofBuffer (text "Test Data"))
      (fun _ => 0) 1) = some ⟨.idle, calls⟩ ∧ calls.length = 3 := by
  obtain ⟨header, rows, calls, started, messages, -, -, count, -⟩ :=
    hexdump_entries defaultLog (by decide : ¬ LogLevel.info.code < defaultLog.config.level.code)
      (by decide : ((List.range 17).map UInt8.ofNat).length ≤ 2 ^ 64 - 16)
        (.ofBuffer (text "Test Data")) (fun _ => 0) 1
  refine ⟨calls, started, ?_⟩
  have lengths := congrArg List.length messages
  rw [List.length_map, List.length_cons, count] at lengths
  exact lengths

end LinuxCLearning.LogSystem
