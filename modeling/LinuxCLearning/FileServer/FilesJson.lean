import LinuxCLearning.Base.Json
import LinuxCLearning.FileServer.FileListing

/-! The body of `GET /api/files`: the buffer in which `build_files_json` puts it together, and
what it says as a JSON text. -/

namespace LinuxCLearning.FileServer

/-- `sizeof(json)` in the route of `/api/files`. -/
def jsonSize : Nat := 8192

/-- The regular files of a directory that are not hidden, with their sizes. -/
def regularFiles (sharedDir : CString) (system : FileSystem) : List (Bytes × Nat) :=
  (system.readdir sharedDir.bytes).filterMap fun name =>
    if name.head? = some 46 then none
    else (system.files ((sharedDir.bytes ++ text "/" ++ name).take 511)).map fun content =>
      (name, content.length)

/-- The variable `offset` of `build_files_json`, and the memory from `buf` on. -/
structure JsonBuffer where
  offset : Nat
  memory : Memory

/-- `n = snprintf(buf + offset, buf_size - offset, ...)`, and `offset += n` unless the output has
been cut; whether it has not. -/
def JsonBuffer.print (size : Nat) (buffer : JsonBuffer) (output : Bytes) : JsonBuffer × Bool :=
  let memory := buffer.memory.store buffer.offset (printed (size - buffer.offset) output)
  if output.length ≥ size - buffer.offset then (⟨buffer.offset, memory⟩, false)
  else (⟨buffer.offset + output.length, memory⟩, true)

/-- The object of a file. -/
def fileEntry (file : Bytes × Nat) : Bytes :=
  text "\x7b\"name\":\"" ++ file.1 ++ text "\",\"size\":" ++ decimal file.2 ++ text "\x7d"

/-- The loop of `build_files_json` over the files. -/
def printFiles (size : Nat) : (first : Bool) → List (Bytes × Nat) → JsonBuffer → JsonBuffer
  | _, [], buffer => buffer
  | first, file :: files, buffer =>
    let (buffer, separated) := if first then (buffer, true) else buffer.print size (text ",")
    if separated then
      let (buffer, stored) := buffer.print size (fileEntry file)
      if stored then printFiles size false files buffer else buffer
    else buffer

/-- `build_files_json`: the result, `none` for -1, and the memory from `buf` on. The directory is
`none` if it cannot be opened. -/
def buildFilesJson (size : Nat) (directory : Option (List (Bytes × Nat))) (memory : Memory) :
    Option Nat × Memory :=
  let (buffer, opened) := JsonBuffer.print size ⟨0, memory⟩ (text "\x7b\"files\":[")
  if opened then
    match directory with
    | none => (some (buffer.offset + 2), (buffer.print size (text "]\x7d")).1.memory)
    | some files =>
      let (buffer, closed) := (printFiles size true files buffer).print size (text "]\x7d")
      (if closed then some buffer.offset else none, buffer.memory)
  else (none, buffer.memory)

/-- What `handle_http_connection` sends as the body for `GET /api/files`: the string in `json`,
which held anything before, whatever the result of `build_files_json` is. -/
def apiFilesBody (sharedDir : CString) (system : FileSystem) (memory : Memory) : CString :=
  let directory := (system.directories sharedDir.bytes).map fun _ => regularFiles sharedDir system
  .ofBuffer ((buildFilesJson jsonSize directory memory).2.load 0 jsonSize)

/-- What a file is in JSON. -/
def fileObject (file : Bytes × Nat) : Json :=
  .object [(text "name", .string file.1), (text "size", .number file.2)]

def filesObject (files : List (Bytes × Nat)) : Json :=
  .object [(text "files", .array (files.map fileObject))]

/-- The text is an object with the first ones of these files. -/
def ListsFiles (body : Bytes) (files : List (Bytes × Nat)) : Prop :=
  ∃ listed, listed <+: files ∧ Json.Denotes body (filesObject listed)

/-- A name that stands for itself in a JSON text. -/
def JsonName (name : Bytes) : Prop := Utf8 name ∧ PlainString name

/-- The objects of files with commas between them, the first one after a comma as well unless it
is the first of all. -/
def joinedFiles : (first : Bool) → List (Bytes × Nat) → Bytes
  | _, [] => []
  | first, file :: files =>
    (if first then [] else [44]) ++ fileEntry file ++ joinedFiles false files

/-- The text up to the closing bracket. -/
def filesText (files : List (Bytes × Nat)) : Bytes :=
  text "\x7b\"files\":[" ++ joinedFiles true files

section Buffer
variable {size : Nat} {buffer : JsonBuffer} {string output : Bytes}

/-- The string before `offset`. -/
structure JsonBuffer.Writes (size : Nat) (buffer : JsonBuffer) (string : Bytes) : Prop where
  offset : buffer.offset = string.length
  inside : string.length < size
  before : buffer.memory.load 0 string.length = string

/-- After every call the buffer holds the string with what there was room for of the output. -/
theorem print_string (writes : buffer.Writes size string) (output : Bytes) :
    (buffer.print size output).1.memory.Holds (string ++
      output.take (size - 1 - string.length)) := by
  have holds := @Memory.Holds.print buffer.memory string output size writes.before writes.inside
  rw [JsonBuffer.print, writes.offset]
  split
  · exact holds
  · exact holds

theorem print_fits (writes : buffer.Writes size string)
    (fits : string.length + output.length < size) :
    (buffer.print size output).2 = true ∧ (buffer.print size output).1.Writes size
      (string ++ output) := by
  have holds := print_string writes output
  have whole : output.take (size - 1 - string.length) = output := List.take_of_length_le (by omega)
  have room : ¬ output.length ≥ size - string.length := by omega
  rw [whole] at holds
  refine ⟨?_, ?_, ?_, holds.before⟩
  · simp only [JsonBuffer.print, writes.offset, if_neg room]
  · simp only [JsonBuffer.print, writes.offset, if_neg room, List.length_append]
  · rw [List.length_append]
    exact fits

theorem print_cut (writes : buffer.Writes size string)
    (cut : size ≤ string.length + output.length) :
    (buffer.print size output).2 = false ∧ (buffer.print size output).1.Writes size string := by
  have holds := print_string writes output
  have full : output.length ≥ size - string.length := by omega
  refine ⟨?_, ?_, writes.inside, ?_⟩
  · simp only [JsonBuffer.print, writes.offset, if_pos full]
  · simp only [JsonBuffer.print, writes.offset, if_pos full]
  · have before := holds.before
    rw [List.length_append, Memory.load_append] at before
    exact (List.append_inj before (Memory.load_length _ _ _)).1

end Buffer

section Loop
variable {size : Nat}

/-- How the loop ends: all objects are there, or one of them, or the comma before it, has no room.
-/
inductive PrintEnds (size : Nat) (first : Bool) (files : List (Bytes × Nat)) (string : Bytes) :
    Bytes → Prop where
  | complete : PrintEnds size first files string (string ++ joinedFiles first files)
  | noComma {done rest : List (Bytes × Nat)} {file : Bytes × Nat}
      (split : files = done ++ file :: rest)
    (full : (string ++ joinedFiles first done).length + 1 = size) :
    PrintEnds size first files string (string ++ joinedFiles first done)
  | afterComma {done rest : List (Bytes × Nat)} {file : Bytes × Nat}
      (split : files = done ++ file :: rest)
    (full : size ≤ (string ++ joinedFiles first done).length + 1 + (fileEntry file).length) :
    PrintEnds size first files string (string ++ joinedFiles first done ++ [44])
  | noFirst {file : Bytes × Nat} {rest : List (Bytes × Nat)} (start : first = true)
      (split : files = file :: rest)
    (full : size ≤ string.length + (fileEntry file).length) :
      PrintEnds size first files string string

theorem PrintEnds.cons {first : Bool} {file : Bytes × Nat} {files : List (Bytes × Nat)}
    {string separator written : Bytes} (comma : separator = if first then [] else [44])
    (ends : PrintEnds size false files (string ++ separator ++ fileEntry file) written) :
    PrintEnds size first (file :: files) string written := by
  have joined (done : List (Bytes × Nat)) : string ++ separator ++ fileEntry file ++
      joinedFiles false done =
      string ++ joinedFiles first (file :: done) := by
    rw [joinedFiles, ← comma, List.append_assoc, List.append_assoc, List.append_assoc]
  cases ends with
  | complete =>
    rw [joined]
    exact .complete
  | noComma split full =>
    rw [joined] at full ⊢
    exact .noComma (congrArg (file :: ·) split) full
  | afterComma split full =>
    rw [joined] at full ⊢
    exact .afterComma (congrArg (file :: ·) split) full
  | noFirst start => cases start

theorem printFiles_spec {files : List (Bytes × Nat)} (first : Bool)
    {buffer : JsonBuffer} {string : Bytes} (writes : buffer.Writes size string) :
    ∃ written, (printFiles size first files buffer).Writes size written ∧
      PrintEnds size first files string written := by
  induction files generalizing first buffer string with
  | nil =>
    refine ⟨string, writes, ?_⟩
    have nothing : string ++ joinedFiles first [] = string := List.append_nil string
    conv => arg 5; rw [← nothing]
    exact .complete
  | cons file files ih =>
    have step {separator : Bytes} (comma : separator = if first then []
        else [44]) {next : JsonBuffer}
        (separated : next.Writes size (string ++ separator))
        (noRoom : size ≤ (string ++ separator).length + (fileEntry file).length →
          PrintEnds size first (file :: files) string (string ++ separator)) :
        ∃ written, (let (buffer, stored) := next.print size (fileEntry file)
            if stored then printFiles size false files buffer else buffer).Writes size written ∧
          PrintEnds size first (file :: files) string written := by
      by_cases fits : (string ++ separator).length + (fileEntry file).length < size
      · obtain ⟨stored, after⟩ := print_fits separated fits
        obtain ⟨written, behind, ends⟩ := ih false after
        refine ⟨written, ?_, ends.cons comma⟩
        simp only [stored, if_true]
        exact behind
      · obtain ⟨refused, kept⟩ := print_cut separated (not_lt.mp fits)
        refine ⟨string ++ separator, ?_, noRoom (not_lt.mp fits)⟩
        simp only [refused, Bool.false_eq_true, if_false]
        exact kept
    cases first with
    | true =>
      have same : string ++ [] = string := List.append_nil string
      have next : buffer.Writes size (string ++ []) := same.symm ▸ writes
      refine @step [] rfl buffer next ?_
      rw [same]
      intro full
      exact .noFirst rfl rfl full
    | false =>
      have nothing : string ++ joinedFiles false [] = string := List.append_nil string
      by_cases fits : string.length + 1 < size
      · obtain ⟨stored, after⟩ := @print_fits size buffer string (text ",") writes fits
        have noRoom (full : size ≤ (string ++ [44]).length + (fileEntry file).length) :
            PrintEnds size false (file :: files) string (string ++ [44]) := by
          have ends : PrintEnds size false ([] ++ file :: files) string
              (string ++ joinedFiles false [] ++ [44]) := by
            refine .afterComma rfl ?_
            rw [List.length_append, List.length_singleton] at full
            rwa [nothing]
          rwa [nothing] at ends
        obtain ⟨written, behind, ends⟩ := @step [44] rfl _ after noRoom
        refine ⟨written, ?_, ends⟩
        simp only [printFiles, Bool.false_eq_true, if_false, stored, if_true]
        exact behind
      · obtain ⟨refused, kept⟩ := @print_cut size buffer string (text ",") writes (not_lt.mp fits)
        refine ⟨string, ?_, ?_⟩
        · simp only [printFiles, Bool.false_eq_true, if_false, refused]
          exact kept
        · have inside := writes.inside
          have ends : PrintEnds size false ([] ++ file :: files) string
              (string ++ joinedFiles false []) := by
            refine .noComma rfl ?_
            rw [nothing]
            omega
          rwa [nothing] at ends

end Loop

section Objects
variable {file : Bytes × Nat} {more rest : Bytes}

theorem fileEntry_tokens (file : Bytes × Nat) (more : Bytes) : fileEntry file ++ more =
    123 :: 34 :: (text "name" ++ 34 :: 58 :: 34 ::
      (file.1 ++ 34 :: 44 :: 34 :: (text "size" ++ 34 :: 58 ::
      (decimal file.2 ++ 125 :: more)))) := by
  simp only [fileEntry, List.append_assoc]
  rfl

theorem skipBlanks_digits (number : Nat) (more : Bytes) :
    skipBlanks (decimal number ++ more) = decimal number ++ more := by
  obtain ⟨digits, _⟩ := decimal_value number
  cases shape : decimal number with
  | nil => exact absurd shape (decimal_ne_nil number)
  | cons first others =>
    rw [shape] at digits
    have visible := (digit_plain (digits first List.mem_cons_self)).1
    rw [List.cons_append, skipBlanks, List.dropWhile_cons_of_neg]
    intro blank
    simp only [Bool.or_eq_true, beq_iff_eq] at blank
    rcases blank with ((rfl | rfl) | rfl) | rfl
    all_goals cases visible

theorem plain_word : PlainString (text "name") ∧ PlainString (text "size") ∧
    PlainString (text "files") := by
  decide +kernel

theorem number_read (number : Nat) (more : Bytes) :
    scanNumber (decimal number ++ 125 :: more) = some ((number : ℚ), 125 :: more) :=
  scanNumber_decimal number rfl (by decide) (by decide) more

theorem number_end {item : Json} {number : Nat}
    (value : Json.Value item (skipBlanks (decimal number ++ 125 :: more)) rest) :
    rest = 125 :: more := by
  rw [skipBlanks_digits] at value
  have scanned := number_read number more
  obtain ⟨digits, _⟩ := decimal_value number
  cases shape : decimal number with
  | nil => exact absurd shape (decimal_ne_nil number)
  | cons first others =>
    rw [shape] at digits value scanned
    obtain ⟨_, _, again⟩ := value.number_inv (decide_eq_true (digits first List.mem_cons_self))
    exact (Prod.mk.inj (Option.some.inj (scanned.symm.trans again))).2.symm

/-- The object of a file with a plain name is read as such. -/
theorem fileEntry_value (plain : PlainString file.1) (more : Bytes) :
    Json.Value (fileObject file) (fileEntry file ++ more) more := by
  have size : Json.Value (.number file.2) (skipBlanks (decimal file.2 ++ 125 :: more))
      (125 :: more) := by
    rw [skipBlanks_digits]
    exact .number (number_read file.2 more)
  rw [fileEntry_tokens]
  exact .object rfl (.more rfl (scanString_plain plain_word.1 _) rfl
    (.string rfl (scanString_plain plain _)) rfl
    (.last rfl (scanString_plain plain_word.2.1 _) rfl size rfl))

/-- If the object of a file is read, then the name of the file is plain, and nothing else has been
read. -/
theorem fileEntry_inv (read : Json.Value (fileObject file) (fileEntry file ++ more) rest) :
    PlainString file.1 ∧ rest = more := by
  rw [fileEntry_tokens] at read
  rcases read.object_inv with ⟨empty, _⟩ | ⟨entries, same, members⟩
  · cases empty
  · obtain rfl := Json.object.inj same
    cases members with
    | more opened scanned colon value comma others =>
      obtain rfl := (List.cons.inj opened).2
      rw [scanString_plain plain_word.1] at scanned
      obtain ⟨_, rfl⟩ := Prod.mk.inj (Option.some.inj scanned)
      obtain rfl := (List.cons.inj colon).2
      obtain ⟨bytes, string, name⟩ := value.string_inv
      obtain rfl := Json.string.inj string
      have plain : PlainString file.1 := scanString_name_iff.mp ⟨_, name⟩
      rw [scanString_plain plain] at name
      obtain ⟨_, rfl⟩ := Prod.mk.inj (Option.some.inj name)
      obtain rfl := (List.cons.inj comma).2
      refine ⟨plain, ?_⟩
      cases others with
      | more _ _ _ _ _ none_left => cases none_left
      | last opened scanned colon value closed =>
        obtain rfl := (List.cons.inj opened).2
        rw [scanString_plain plain_word.2.1] at scanned
        obtain ⟨_, rfl⟩ := Prod.mk.inj (Option.some.inj scanned)
        obtain rfl := (List.cons.inj colon).2
        rw [number_end value] at closed
        exact (List.cons.inj closed).2.symm

theorem fileEntry_skip (file : Bytes × Nat) (more : Bytes) :
    skipBlanks (fileEntry file ++ more) = fileEntry file ++ more := by
  rw [fileEntry_tokens]
  rfl

theorem joinedFiles_cons (file : Bytes × Nat) (files : List (Bytes × Nat)) (more : Bytes) :
    joinedFiles true (file :: files) ++ more =
      fileEntry file ++ (joinedFiles false files ++ more) := by
  rw [joinedFiles, if_pos rfl, List.nil_append, List.append_assoc]

theorem joinedFiles_comma (file : Bytes × Nat) (files : List (Bytes × Nat)) (more : Bytes) :
    joinedFiles false (file :: files) ++ more =
      44 :: (joinedFiles true (file :: files) ++ more) := by
  rw [joinedFiles_cons, joinedFiles, if_neg (by decide), List.append_assoc, List.append_assoc,
    List.singleton_append]

theorem joinedFiles_elements {files : List (Bytes × Nat)}
    (plain : ∀ file ∈ files, PlainString file.1) (some_file : files ≠ [])
    (rest : Bytes) : Json.Elements (files.map fileObject)
      (joinedFiles true files ++ 93 :: rest) rest := by
  induction files with
  | nil => exact absurd rfl some_file
  | cons file files ih =>
    have value (more : Bytes) : Json.Value (fileObject file)
        (skipBlanks (fileEntry file ++ more)) more := by
      rw [fileEntry_skip]
      exact fileEntry_value (plain file List.mem_cons_self) more
    rw [joinedFiles_cons]
    cases files with
    | nil => exact .last (value _) rfl
    | cons next files =>
      have comma : skipBlanks (joinedFiles false (next :: files) ++ 93 :: rest) =
          44 :: (joinedFiles true (next :: files) ++ 93 :: rest) := by
        rw [joinedFiles_comma]
        rfl
      exact .more (value _) comma
        (ih (fun other member => plain other (List.mem_cons_of_mem _ member))
          (List.cons_ne_nil _ _))

/-- If the first items are files of these, then their names are plain, and the text goes on as it
does behind them. -/
theorem joinedFiles_inv {done listed : List (Bytes × Nat)} {items : List Json} {more rest : Bytes}
    {left : List (Bytes × Nat)} (some_file : done ≠ []) (same : items = listed.map fileObject)
    (prefixes : listed <+: done ++ left)
    (read : Json.Elements items (joinedFiles true done ++ more) rest) :
    (∀ file ∈ done, PlainString file.1) ∧
      (skipBlanks more = 93 :: rest ∨ ∃ next items, skipBlanks more = 44 :: next ∧
        Json.Elements items next rest) := by
  induction done generalizing listed items with
  | nil => exact absurd rfl some_file
  | cons file done ih =>
    rw [joinedFiles_cons] at read
    have first {item : Json} {items : List Json} (same : item :: items = listed.map fileObject) :
        ∃ tail, item = fileObject file ∧ items = tail.map fileObject ∧ tail <+: done ++ left := by
      cases listed with
      | nil => cases same
      | cons head tail =>
        obtain ⟨rfl, tails⟩ := List.cons_prefix_cons.mp prefixes
        exact ⟨tail, (List.cons.inj same).1, (List.cons.inj same).2, tails⟩
    cases read with
    | last value closed =>
      obtain ⟨tail, rfl, _, _⟩ := first same
      rw [fileEntry_skip] at value
      obtain ⟨plain, rfl⟩ := fileEntry_inv value
      cases done with
      | nil => exact ⟨by simpa using plain, Or.inl closed⟩
      | cons next done =>
        rw [joinedFiles_comma] at closed
        exact absurd (List.cons.inj closed).1 (by decide)
    | more value comma elements =>
      obtain ⟨tail, rfl, tailItems, tails⟩ := first same
      rw [fileEntry_skip] at value
      obtain ⟨plain, rfl⟩ := fileEntry_inv value
      cases done with
      | nil => exact ⟨by simpa using plain, Or.inr ⟨_, _, comma, elements⟩⟩
      | cons next done =>
        rw [joinedFiles_comma] at comma
        obtain rfl := (List.cons.inj comma).2
        obtain ⟨plains, behind⟩ := ih (List.cons_ne_nil _ _) tailItems tails elements
        refine ⟨?_, behind⟩
        intro other member
        rcases List.mem_cons.mp member with rfl | later
        · exact plain
        · exact plains other later

theorem filesText_tokens (files : List (Bytes × Nat)) (more : Bytes) : filesText files ++ more =
    123 :: 34 :: (text "files" ++ 34 :: 58 :: 91 :: (joinedFiles true files ++ more)) := by
  simp only [filesText, List.append_assoc]
  rfl

theorem filesText_value {files : List (Bytes × Nat)} (plain : ∀ file ∈ files, PlainString file.1) :
    Json.Value (filesObject files) (filesText files ++ [93, 125]) [] := by
  have array : Json.Value (.array (files.map fileObject))
      (91 :: (joinedFiles true files ++ [93, 125])) [125] := by
    by_cases empty : files = []
    · subst empty
      exact .emptyArray rfl rfl
    · exact .array rfl (joinedFiles_elements plain empty [125])
  rw [filesText_tokens]
  exact .object rfl (.last rfl (scanString_plain plain_word.2.2 _) rfl array rfl)

/-- What is read of a text that begins with files: their names are plain, and behind them the
array ends or goes on. -/
theorem filesText_inv {done left listed : List (Bytes × Nat)} (some_file : done ≠ [])
    (prefixes : listed <+: done ++ left)
    (read : Json.Value (filesObject listed) (filesText done ++ more) rest) :
    ∃ behind, skipBlanks behind = 125 :: rest ∧ (∀ file ∈ done, PlainString file.1) ∧
      (skipBlanks more = 93 :: behind ∨ ∃ next items, skipBlanks more = 44 :: next ∧
        Json.Elements items next behind) := by
  rw [filesText_tokens] at read
  rcases read.object_inv with ⟨empty, _⟩ | ⟨entries, same, members⟩
  · cases empty
  · obtain rfl := Json.object.inj same
    cases members with
    | more _ _ _ _ _ none_left => cases none_left
    | last opened scanned colon value closed =>
      obtain rfl := (List.cons.inj opened).2
      rw [scanString_plain plain_word.2.2] at scanned
      obtain ⟨_, rfl⟩ := Prod.mk.inj (Option.some.inj scanned)
      obtain rfl := (List.cons.inj colon).2
      rcases Json.Value.array_inv value with ⟨_, empty⟩ | ⟨items, array, elements⟩
      · cases done with
        | nil => exact absurd rfl some_file
        | cons file done =>
          rw [joinedFiles_cons, fileEntry_tokens] at empty
          exact absurd (List.cons.inj empty).1 (by decide)
      · obtain rfl := Json.array.inj array
        exact ⟨_, closed, joinedFiles_inv some_file rfl prefixes elements⟩

end Objects

section Encoding

theorem text_ascii {byte : UInt8} {number : Nat} (member : byte ∈ decimal number) :
    byte < 0x80 := by
  have digit := UInt8.le_iff_toNat_le.mp ((decimal_value number).1 byte member).2
  rw [UInt8.lt_iff_toNat_lt]
  exact lt_of_le_of_lt digit (by decide)

theorem fileEntry_utf8 (file : Bytes × Nat) (more : Bytes) :
    Utf8 (fileEntry file ++ more) ↔ Utf8 file.1 ∧ Utf8 more := by
  have opened : ∀ byte ∈ text "\x7b\"name\":\"", byte < 0x80 := by decide +kernel
  have colon : ∀ byte ∈ text "\"size\":", byte < 0x80 := by decide +kernel
  have tokens : fileEntry file ++ more =
      text "\x7b\"name\":\"" ++ (file.1 ++ 34 :: (44 :: (text "\"size\":" ++
      (decimal file.2 ++ 125 :: more)))) := by
    simp only [fileEntry, List.append_assoc]
    rfl
  rw [tokens, utf8_ascii_append_iff opened, utf8_append_iff _ (by decide),
    utf8_cons_iff (by decide),
    utf8_ascii_append_iff colon, utf8_ascii_append_iff (fun _ member => text_ascii member),
    utf8_cons_iff (by decide)]

theorem joinedFiles_utf8 (first : Bool) (files : List (Bytes × Nat)) (more : Bytes) :
    Utf8 (joinedFiles first files ++ more) ↔ (∀ file ∈ files, Utf8 file.1) ∧ Utf8 more := by
  induction files generalizing first with
  | nil =>
    rw [joinedFiles, List.nil_append]
    simp
  | cons file files ih =>
    have begun : Utf8 (joinedFiles first (file :: files) ++ more) ↔
        Utf8 (joinedFiles true (file :: files) ++ more) := by
      cases first with
      | true => exact Iff.rfl
      | false => rw [joinedFiles_comma, utf8_cons_iff (by decide)]
    rw [begun, joinedFiles_cons, fileEntry_utf8, ih, List.forall_mem_cons, and_assoc]

theorem filesText_utf8 (files : List (Bytes × Nat)) (more : Bytes) :
    Utf8 (filesText files ++ more) ↔ (∀ file ∈ files, Utf8 file.1) ∧ Utf8 more := by
  have opened : ∀ byte ∈ text "\x7b\"files\":[", byte < 0x80 := by decide +kernel
  rw [filesText, List.append_assoc, utf8_ascii_append_iff opened, joinedFiles_utf8]

end Encoding

section Body
variable {sharedDir : CString} {system : FileSystem}

theorem regularFiles_legal (legal : LegalDirectory system sharedDir.bytes) {file : Bytes × Nat}
    (member : file ∈ regularFiles sharedDir system) : LegalName file.1 ∧ file.2 < 2 ^ 63 := by
  obtain ⟨name, listed, found⟩ := List.mem_filterMap.mp member
  split at found
  · cases found
  · obtain ⟨content, present, rfl⟩ := Option.map_eq_some_iff.mp found
    exact ⟨legal.names name listed, legal.sizes _ content present⟩

theorem fileEntry_length {file : Bytes × Nat} (legal : LegalName file.1 ∧ file.2 < 2 ^ 63) :
    (fileEntry file).length < 300 := by
  have digits := @decimal_length file.2 18 (legal.2.trans (by decide))
  have named := legal.1.2.1
  have opened : (text "\x7b\"name\":\"").length = 9 := rfl
  have size : (text "\",\"size\":").length = 9 := rfl
  have closed : (text "\x7d").length = 1 := rfl
  simp only [fileEntry, List.length_append]
  omega

theorem fileEntry_nulFree {file : Bytes × Nat} (legal : LegalName file.1 ∧ file.2 < 2 ^ 63) :
    0 ∉ fileEntry file := by
  have digits : 0 ∉ decimal file.2 := by
    intro member
    exact (digit_visible ((decimal_value file.2).1 0 member)).2.2 rfl
  simp only [fileEntry, List.mem_append, not_or]
  exact ⟨⟨⟨⟨by decide, legal.1.2.2.1⟩, by decide⟩, digits⟩, by decide⟩

theorem joinedFiles_nulFree (first : Bool) {files : List (Bytes × Nat)}
    (legal : ∀ file ∈ files, LegalName file.1 ∧ file.2 < 2 ^ 63) : 0 ∉ joinedFiles first files := by
  induction files generalizing first with
  | nil => exact List.not_mem_nil
  | cons file files ih =>
    have separator : (0 : UInt8) ∉ (if first then [] else [44]) := by cases first <;> decide
    rw [joinedFiles, List.mem_append, List.mem_append, not_or, not_or]
    exact ⟨⟨separator, fileEntry_nulFree (legal file List.mem_cons_self)⟩,
      ih false fun other member => legal other (List.mem_cons_of_mem _ member)⟩

theorem header_string : text "\x7b\"files\":[" = filesText [] := by
  rw [filesText, joinedFiles, List.append_nil]

theorem header_files (files : List (Bytes × Nat)) :
    filesText [] ++ joinedFiles true files = filesText files := by
  rw [← header_string, filesText]

theorem filesText_length_nil : (filesText []).length = 10 := rfl

theorem filesText_nulFree {files : List (Bytes × Nat)}
    (legal : ∀ file ∈ files, LegalName file.1 ∧ file.2 < 2 ^ 63) :
    0 ∉ filesText files := by
  rw [filesText, List.mem_append, not_or]
  exact ⟨by decide +kernel, joinedFiles_nulFree true legal⟩

theorem joinedFiles_append (first : Bool) (done more : List (Bytes × Nat)) :
    joinedFiles first (done ++ more) = joinedFiles first done ++ joinedFiles
      (first && done.isEmpty) more := by
  induction done generalizing first with
  | nil => rw [List.nil_append, joinedFiles, List.nil_append, List.isEmpty_nil, Bool.and_true]
  | cons file done ih =>
    rw [List.cons_append, joinedFiles, joinedFiles, ih, Bool.false_and,
      List.isEmpty_cons, Bool.and_false,
      List.append_assoc, List.append_assoc, List.append_assoc]

theorem header_writes (memory : Memory) :
    (JsonBuffer.print jsonSize ⟨0, memory⟩ (text "\x7b\"files\":[")).2 = true ∧
      (JsonBuffer.print jsonSize ⟨0, memory⟩ (text "\x7b\"files\":[")).1.Writes jsonSize
        (filesText []) := by
  have start : JsonBuffer.Writes jsonSize ⟨0, memory⟩ [] := ⟨rfl, by decide, rfl⟩
  have printed := @print_fits jsonSize ⟨0, memory⟩ [] (text "\x7b\"files\":[") start (by decide)
  rwa [List.nil_append, header_string] at printed

theorem apiFilesBody_closed (closed : system.directories sharedDir.bytes = none) (memory : Memory) :
    (apiFilesBody sharedDir system memory).bytes = filesText [] ++ [93, 125] := by
  obtain ⟨opened, writes⟩ := header_writes memory
  have holds := print_string writes [93, 125]
  have whole : ([93, 125] : Bytes).take (jsonSize - 1 - (filesText []).length) = [93, 125] := by
    rw [filesText_length_nil]
    rfl
  rw [whole] at holds
  have memory_eq : (buildFilesJson jsonSize none memory).2 =
      ((JsonBuffer.print jsonSize ⟨0, memory⟩ (text "\x7b\"files\":[")).1.print jsonSize
          [93, 125]).1.memory := by
    simp only [buildFilesJson, opened, if_true]
    rfl
  rw [apiFilesBody, closed, Option.map_none, memory_eq]
  exact holds.read (by decide +kernel) (by decide +kernel)

theorem PrintEnds.nulFree {files : List (Bytes × Nat)}
    (legal : ∀ file ∈ files, LegalName file.1 ∧ file.2 < 2 ^ 63)
    {written : Bytes} (ends : PrintEnds jsonSize true files (filesText []) written) :
      0 ∉ written := by
  have header : 0 ∉ filesText [] := filesText_nulFree (by simp)
  have both {done more : List (Bytes × Nat)} (split : files = done ++ more) : 0 ∉ filesText [] ++
      joinedFiles true done := by
    rw [List.mem_append, not_or]
    refine ⟨header, joinedFiles_nulFree true ?_⟩
    intro file member
    exact legal file (split ▸ List.mem_append_left _ member)
  cases ends with
  | complete => exact both (List.append_nil files).symm
  | noComma split => exact both split
  | afterComma split =>
    rw [List.mem_append, not_or]
    exact ⟨both split, by decide⟩
  | noFirst => exact header

/-- What is sent for a directory: the string that the loop leaves, and what there is room for of
the closing brackets. -/
theorem apiFilesBody_opened (legal : LegalDirectory system sharedDir.bytes)
    (opened : system.directories sharedDir.bytes ≠ none) (memory : Memory) :
    ∃ written, PrintEnds jsonSize true (regularFiles sharedDir system) (filesText []) written ∧
      written.length < jsonSize ∧
      (apiFilesBody sharedDir system memory).bytes =
        written ++ ([93, 125] : Bytes).take (jsonSize - 1 - written.length) := by
  obtain ⟨size, directory⟩ := Option.ne_none_iff_exists'.mp opened
  obtain ⟨started, writes⟩ := header_writes memory
  obtain ⟨written, behind, ends⟩ :=
    @printFiles_spec jsonSize (regularFiles sharedDir system) true _ _ writes
  have holds := print_string behind [93, 125]
  refine ⟨written, ends, behind.inside, ?_⟩
  have memory_eq : (buildFilesJson jsonSize (some (regularFiles sharedDir system)) memory).2 =
      ((printFiles jsonSize true (regularFiles sharedDir system)
        (JsonBuffer.print jsonSize ⟨0, memory⟩ (text "\x7b\"files\":[")).1).print jsonSize
            [93, 125]).1.memory := by
    simp only [buildFilesJson, started, if_true]
    rfl
  rw [apiFilesBody, directory, Option.map_some, memory_eq]
  apply holds.read
  · rw [List.mem_append, not_or]
    refine ⟨ends.nulFree fun file member => regularFiles_legal legal member, ?_⟩
    intro member
    exact absurd (List.mem_of_mem_take member) (by decide)
  · have inside := behind.inside
    rw [List.length_append, List.length_take]
    omega

end Body

section Exact
variable {sharedDir : CString} {system : FileSystem}

/-- Behind a comma there is no item if only closing brackets follow. -/
theorem no_elements {items : List Json} {count : Nat} {rest : Bytes} :
    ¬ Json.Elements items (([93, 125] : Bytes).take count) rest := by
  have no_value {item : Json} {behind : Bytes} : ¬ Json.Value item
      (skipBlanks (([93, 125] : Bytes).take count)) behind := by
    cases count with
    | zero => exact Json.Value.not_nil
    | succ count => exact Json.Value.not_closing
  intro elements
  cases elements with
  | last value => exact no_value value
  | more value => exact no_value value

theorem cut_text {done left listed : List (Bytes × Nat)} {rest : Bytes} {count : Nat}
    (some_file : done ≠ []) (prefixes : listed <+: done ++ left) (cut : count < 2) :
    ¬ Json.Value (filesObject listed) (filesText done ++ ([93, 125] : Bytes).take count) rest := by
  intro read
  obtain ⟨behind, closed, _, array | ⟨next, items, comma, _⟩⟩ :=
    filesText_inv some_file prefixes read
  · interval_cases count
    · cases array
    · obtain rfl := (List.cons.inj array).2
      cases closed
  · interval_cases count
    · cases comma
    · exact absurd (List.cons.inj comma).1 (by decide)

/-- A text that ends with a comma and closing brackets lists no files. -/
theorem comma_text {done left listed : List (Bytes × Nat)} {rest : Bytes} {count : Nat}
    (some_file : done ≠ []) (prefixes : listed <+: done ++ left) :
    ¬ Json.Value (filesObject listed)
      (filesText done ++ 44 :: ([93, 125] : Bytes).take count) rest := by
  intro read
  obtain ⟨behind, _, _, array | ⟨next, items, comma, elements⟩⟩ :=
    filesText_inv some_file prefixes read
  · exact absurd (List.cons.inj array).1 (by decide)
  · obtain rfl := (List.cons.inj comma).2
    exact no_elements elements

/-- A text that is complete lists its files exactly if their names are plain. -/
theorem whole_text_iff {files : List (Bytes × Nat)} :
    ListsFiles (filesText files ++ [93, 125]) files ↔ ∀ file ∈ files, JsonName file.1 := by
  constructor
  · intro ⟨listed, prefixes, encoded, rest, read, _⟩ file member
    refine ⟨((filesText_utf8 files [93, 125]).mp encoded).1 file member, ?_⟩
    have start : skipBlanks (filesText files ++ [93, 125]) = filesText files ++ [93, 125] := by
      rw [filesText_tokens]
      rfl
    rw [start] at read
    have whole : listed <+: files ++ [] := by rwa [List.append_nil]
    obtain ⟨_, _, plain, _⟩ := filesText_inv (List.ne_nil_of_mem member) whole read
    exact plain file member
  · intro plain
    refine ⟨files, List.prefix_refl files,
      (filesText_utf8 files [93, 125]).mpr ⟨fun file member => (plain file member).1, by decide⟩,
      [],
      ?_, rfl⟩
    have read := filesText_value fun file member => (plain file member).2
    rw [filesText_tokens] at read ⊢
    exact read

theorem ListsFiles.value {done left files : List (Bytes × Nat)} {more : Bytes}
    (split : files = done ++ left) (lists : ListsFiles (filesText done ++ more) files) :
    ∃ listed rest, listed <+: done ++ left ∧ Json.Value (filesObject listed)
      (filesText done ++ more) rest := by
  obtain ⟨listed, prefixes, _, rest, read, _⟩ := lists
  have start : skipBlanks (filesText done ++ more) = filesText done ++ more := by
    rw [filesText_tokens]
    rfl
  rw [start] at read
  exact ⟨listed, rest, split ▸ prefixes, read⟩

theorem filesText_length {done rest : List (Bytes × Nat)} {file : Bytes × Nat}
    (some_file : done ≠ []) :
    (filesText done).length + 1 + (fileEntry file).length ≤
      (filesText (done ++ file :: rest)).length := by
  have later : (true && done.isEmpty) = false := by
    cases done with
    | nil => exact absurd rfl some_file
    | cons => rfl
  rw [filesText, filesText, joinedFiles_append, later, joinedFiles]
  simp only [List.length_append, Bool.false_eq_true, if_false, List.length_singleton]
  omega

/-- The directory can be opened: its files are listed exactly if their names are plain and the
whole text fits into the buffer. -/
theorem opened_lists_iff (legal : LegalDirectory system sharedDir.bytes)
    (opened : system.directories sharedDir.bytes ≠ none) (memory : Memory) :
    ListsFiles (apiFilesBody sharedDir system memory).bytes (regularFiles sharedDir system) ↔
      (∀ file ∈ regularFiles sharedDir system, JsonName file.1) ∧
        (filesText (regularFiles sharedDir system)).length + 2 < jsonSize := by
  obtain ⟨written, ends, inside, body⟩ := apiFilesBody_opened legal opened memory
  have named := fun file member =>
    fileEntry_length (@regularFiles_legal sharedDir system legal file member)
  have size : jsonSize = 8192 := rfl
  have header := filesText_length_nil
  rw [body]
  generalize regularFiles sharedDir system = files at ends named ⊢
  cases ends with
  | complete =>
    rw [header_files] at inside ⊢
    by_cases fits : (filesText files).length + 2 < jsonSize
    · have closed : ([93, 125] : Bytes).take (jsonSize - 1 - (filesText files).length) =
          [93, 125] :=
        List.take_of_length_le (by rw [List.length_cons, List.length_singleton]; omega)
      rw [closed, whole_text_iff]
      exact (and_iff_left fits).symm
    · refine iff_of_false ?_ fun both => fits both.2
      intro lists
      have some_file : files ≠ [] := by
        rintro rfl
        omega
      obtain ⟨listed, rest, prefixes, read⟩ := lists.value (List.append_nil files).symm
      exact cut_text some_file prefixes (by omega) read
  | @noComma done later file split full =>
    rw [header_files] at full ⊢
    have some_file : done ≠ [] := by
      rintro rfl
      omega
    have longer := @filesText_length done later file some_file
    refine iff_of_false ?_ ?_
    · intro lists
      obtain ⟨listed, rest, prefixes, read⟩ := lists.value split
      exact cut_text some_file prefixes (by omega) read
    · rintro ⟨_, fits⟩
      rw [split] at fits
      omega
  | @afterComma done later file split full =>
    rw [header_files] at full ⊢
    have entry := named file (by rw [split]; simp)
    have some_file : done ≠ [] := by
      rintro rfl
      omega
    have longer := @filesText_length done later file some_file
    refine iff_of_false ?_ ?_
    · intro lists
      rw [List.append_assoc, List.singleton_append] at lists
      obtain ⟨listed, rest, prefixes, read⟩ := lists.value split
      exact comma_text some_file prefixes read
    · rintro ⟨_, fits⟩
      rw [split] at fits
      omega
  | @noFirst file later _ split full =>
    have entry := named file (by rw [split]; exact List.mem_cons_self)
    omega

/-- The body of `GET /api/files` is a JSON object with the first files of the directory exactly if
the directory cannot be opened, or all names stand for themselves in JSON and the whole text fits
into the buffer. -/
theorem files_json_iff (legal : LegalDirectory system sharedDir.bytes) (memory : Memory) :
    ListsFiles (apiFilesBody sharedDir system memory).bytes (regularFiles sharedDir system) ↔
      system.directories sharedDir.bytes = none ∨
        (∀ file ∈ regularFiles sharedDir system, JsonName file.1) ∧
          (filesText (regularFiles sharedDir system)).length + 2 < jsonSize := by
  by_cases closed : system.directories sharedDir.bytes = none
  · refine iff_of_true ?_ (Or.inl closed)
    rw [apiFilesBody_closed closed]
    obtain ⟨_, _, denotes⟩ := (@whole_text_iff []).mpr (by simp)
    rename_i listed prefixes
    obtain rfl := List.prefix_nil.mp prefixes
    exact ⟨[], List.nil_prefix, denotes⟩
  · rw [opened_lists_iff legal closed memory]
    exact (or_iff_right closed).symm

/-- Two files with plain names. -/
theorem files_json_iff_two : ListsFiles
      (apiFilesBody sharedContext.sharedDir (sharedFiles [text "a", text "b"]) fun _ => 255).bytes
      (regularFiles sharedContext.sharedDir (sharedFiles [text "a", text "b"])) ↔
    (sharedFiles [text "a", text "b"]).directories (text "shared") = none ∨
      (∀ file ∈ regularFiles sharedContext.sharedDir (sharedFiles [text "a", text "b"]),
        JsonName file.1) ∧
        (filesText (regularFiles sharedContext.sharedDir
          (sharedFiles [text "a", text "b"]))).length + 2 < jsonSize := by
  apply files_json_iff
  apply sharedFiles_legal
  decide +kernel

/-- A quote in a name goes into the text as it is. -/
theorem quoted_name_sent : LegalName (text "a\"b") ∧
    ¬ ListsFiles
      (apiFilesBody sharedContext.sharedDir (sharedFiles [text "a\"b"]) fun _ => 255).bytes
      (regularFiles sharedContext.sharedDir (sharedFiles [text "a\"b"])) := by
  have named : ∀ name ∈ [text "a\"b"], LegalName name := by decide +kernel
  have legal : LegalDirectory (sharedFiles [text "a\"b"]) (text "shared") := sharedFiles_legal named
  refine ⟨named _ List.mem_cons_self, ?_⟩
  rw [@opened_lists_iff sharedContext.sharedDir _ legal (by decide +kernel)]
  intro ⟨plain, _⟩
  have quoted := (plain (text "a\"b", 0) (by decide +kernel)).2
  exact absurd quoted (by decide +kernel)

end Exact

end LinuxCLearning.FileServer
