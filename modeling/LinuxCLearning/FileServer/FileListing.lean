import LinuxCLearning.Base.Printing
import LinuxCLearning.FileServer.Server

/-! The buffer in which `server_list_files` puts the lines of its files together, and what the
calls of `snprintf` store in memory. -/

namespace LinuxCLearning.FileServer

/-- `sizeof(file_list)`. -/
def fileListSize : UInt64 := 4096

/-- The lines of the regular files of the shared directory. -/
def listLines (context : ServerContext) (system : FileSystem) : List Bytes :=
  (system.readdir context.sharedDir.bytes).filterMap fun name =>
    if name.head? = some 46 then none
    else (system.files ((context.sharedDir.bytes ++ text "/" ++ name).take 511)).map fun content =>
      listLine name content.length

/-- The variable `offset` of `server_list_files`, and what has been stored at which distance
from the start of `file_list`. -/
structure ListBuffer where
  offset : Nat
  stores : List (Nat × Bytes)

namespace ListBuffer

/-- `offset += snprintf(file_list + offset, sizeof(file_list) - offset, ...)`; the difference is
a `size_t`. -/
def print (buffer : ListBuffer) (line : Bytes) : ListBuffer where
  offset := buffer.offset + line.length
  stores := buffer.stores ++
    [(buffer.offset, printed (fileListSize - UInt64.ofNat buffer.offset).toNat line)]

/-- All stores are inside of `file_list`. -/
def Inside (buffer : ListBuffer) : Prop :=
  ∀ stored ∈ buffer.stores, stored.1 + stored.2.length ≤ fileListSize.toNat

/-- The memory from `file_list` on after the stores. -/
def contents (buffer : ListBuffer) (memory : Memory) : Memory :=
  buffer.stores.foldl (fun memory stored => memory.store stored.1 stored.2) memory

end ListBuffer

/-- The calls of `snprintf` in `server_list_files`. -/
def listBuffer (lines : List Bytes) : ListBuffer :=
  let buffer := lines.foldl ListBuffer.print ⟨0, []⟩
  if buffer.offset = 0 then
    { buffer with stores := buffer.stores ++ [(0, printed fileListSize.toNat (text "(empty directory)\n"))] }
  else buffer

/-- `char file_list[4096] = {0}` with other memory behind it. -/
def zeroedList (beyond : Memory) : Memory := fun address =>
  if address < fileListSize.toNat then 0 else beyond address

/-- No store is outside of `file_list`, and what is sent is a string that ends in there, with its
length in the header of the response. -/
def ListingSafe (lines : List Bytes) : Prop :=
  (listBuffer lines).Inside ∧ ∀ beyond, ∃ sent : CString, sent.length < fileListSize.toNat ∧
    ((listBuffer lines).contents (zeroedList beyond)).Holds sent.bytes ∧
    (UInt32.ofNat sent.length).toNat = sent.length

/-- A name in a directory. -/
def LegalName (name : Bytes) : Prop := name ≠ [] ∧ name.length ≤ 255 ∧ 0 ∉ name ∧ 47 ∉ name

instance (name : Bytes) : Decidable (LegalName name) :=
  inferInstanceAs (Decidable (name ≠ [] ∧ name.length ≤ 255 ∧ 0 ∉ name ∧ 47 ∉ name))

/-- What a directory of the system can contain. -/
structure LegalDirectory (system : FileSystem) (directory : Bytes) : Prop where
  names : ∀ name ∈ system.readdir directory, LegalName name
  sizes : ∀ path content, system.files path = some content → content.length < 2 ^ 63

section Prints
variable {buffer : ListBuffer} {lines : List Bytes}

theorem room_inside {offset : Nat} (before : offset ≤ 4096) :
    (fileListSize - UInt64.ofNat offset).toNat = 4096 - offset := by
  have small : (UInt64.ofNat offset).toNat = offset :=
    UInt64.toNat_ofNat_of_lt' (by rw [UInt64.size]; omega)
  have size : fileListSize.toNat = 4096 := rfl
  rw [UInt64.toNat_sub, small, size]
  omega

/-- Behind the end of `file_list` the room wraps around. -/
theorem room_outside {offset : Nat} (behind : 4096 < offset) (small : offset < 2 ^ 32) :
    0 < (fileListSize - UInt64.ofNat offset).toNat := by
  have small : (UInt64.ofNat offset).toNat = offset :=
    UInt64.toNat_ofNat_of_lt' (by rw [UInt64.size]; omega)
  have size : fileListSize.toNat = 4096 := rfl
  rw [UInt64.toNat_sub, small, size]
  omega

/-- A line that starts in `file_list` stays in there, and any other one does not. -/
theorem print_inside_iff (line : Bytes) (small : buffer.offset < 2 ^ 32) :
    (buffer.print line).Inside ↔ buffer.Inside ∧ buffer.offset ≤ 4096 := by
  have size : fileListSize.toNat = 4096 := rfl
  constructor
  · intro inside
    refine ⟨fun stored member => inside stored (List.mem_append_left _ member), ?_⟩
    by_contra behind
    have last := inside _ (List.mem_append_right _ List.mem_cons_self)
    have some_stored := List.length_pos_iff.mpr
      (printed_ne_nil (room_outside (not_le.mp behind) small) line)
    dsimp only at last
    omega
  · intro ⟨inside, before⟩ stored member
    rcases List.mem_append.mp member with earlier | last
    · exact inside stored earlier
    · rw [List.mem_singleton.mp last]
      have length := printed_length (fileListSize - UInt64.ofNat buffer.offset).toNat line
      rw [room_inside before] at length
      rw [size, room_inside before]
      dsimp only
      omega

theorem prints_keep (inside : (lines.foldl ListBuffer.print buffer).Inside) : buffer.Inside := by
  induction lines generalizing buffer with
  | nil => exact inside
  | cons line lines ih =>
    have printed := ih inside
    exact fun stored member => printed stored (List.mem_append_left _ member)

/-- A chain of lines stays inside exactly if its last line starts in `file_list`. -/
theorem prints_inside_iff (short : ∀ line ∈ lines, line.length < 2 ^ 16)
    (small : buffer.offset < 2 ^ 32) :
    (lines.foldl ListBuffer.print buffer).Inside ↔
      buffer.Inside ∧ (lines ≠ [] → buffer.offset + lines.dropLast.flatten.length ≤ 4096) := by
  induction lines generalizing buffer with
  | nil => simp
  | cons line lines ih =>
    have length := short line List.mem_cons_self
    have others := fun other member => short other (List.mem_cons_of_mem line member)
    rw [List.foldl_cons]
    by_cases before : buffer.offset ≤ 4096
    · have next : (buffer.print line).offset = buffer.offset + line.length := rfl
      rw [ih others (by omega), print_inside_iff line small, next]
      cases lines with
      | nil => simp [before]
      | cons other lines =>
        rw [List.dropLast_cons_cons, List.flatten_cons, List.length_append, ← Nat.add_assoc]
        simp only [before, and_true, ne_eq, List.cons_ne_nil, not_false_eq_true, forall_const]
    · constructor
      · intro inside
        exact absurd ((print_inside_iff line small).mp (prints_keep inside)).2 before
      · intro ⟨_, starts⟩
        have start := starts (List.cons_ne_nil _ _)
        omega

theorem contents_print (line : Bytes) (memory : Memory) :
    (buffer.print line).contents memory = (buffer.contents memory).store buffer.offset
      (printed (fileListSize - UInt64.ofNat buffer.offset).toNat line) := by
  simp only [ListBuffer.contents, ListBuffer.print, List.foldl_append,
    List.foldl_cons, List.foldl_nil]

theorem store_nil (memory : Memory) (address : Nat) : memory.store address [] = memory := by
  funext other
  simp [Memory.store]

/-- What is in `file_list` goes on with a line, as far as there is room for it. -/
theorem print_holds {memory : Memory} {written line : Bytes} (same : buffer.offset = written.length)
    (before : buffer.offset ≤ 4096) (holds : (buffer.contents memory).Holds (written.take 4095)) :
    ((buffer.print line).contents memory).Holds ((written ++ line).take 4095) := by
  rw [contents_print, room_inside before]
  by_cases full : buffer.offset = 4096
  · have kept : (written ++ line).take 4095 = written.take 4095 :=
      List.take_append_of_le_length (by omega)
    rw [full, Nat.sub_self, printed, if_pos rfl, store_nil, kept]
    exact holds
  · have whole : written.take 4095 = written := List.take_of_length_le (by omega)
    rw [whole] at holds
    have longer : (written ++ line).take 4095 = written ++ line.take
        (4096 - 1 - written.length) := by
      rw [List.take_append, whole]
    rw [same, longer]
    exact Memory.Holds.print holds.before (by omega)

theorem prints_hold {memory : Memory} {written : Bytes} (same : buffer.offset = written.length)
    (starts : lines ≠ [] → buffer.offset + lines.dropLast.flatten.length ≤ 4096)
    (holds : (buffer.contents memory).Holds (written.take 4095)) :
    ((lines.foldl ListBuffer.print buffer).contents memory).Holds
      ((written ++ lines.flatten).take 4095) := by
  induction lines generalizing buffer written with
  | nil =>
    rw [List.flatten_nil, List.append_nil]
    exact holds
  | cons line lines ih =>
    have start := starts (List.cons_ne_nil _ _)
    have next : (buffer.print line).offset = (written ++ line).length := by
      rw [List.length_append, ← same]
      rfl
    rw [List.flatten_cons, ← List.append_assoc]
    refine ih next ?_ (print_holds same (by omega) holds)
    intro more
    cases lines with
    | nil => exact absurd rfl more
    | cons other lines =>
      rw [List.dropLast_cons_cons, List.flatten_cons, List.length_append] at start
      rw [next, List.length_append, ← same]
      omega

theorem prints_offset : (lines.foldl ListBuffer.print buffer).offset =
    buffer.offset + lines.flatten.length := by
  induction lines generalizing buffer with
  | nil => rfl
  | cons line lines ih =>
    rw [List.foldl_cons, ih, List.flatten_cons, List.length_append, ← Nat.add_assoc]
    rfl

end Prints

section Listing
variable {lines : List Bytes} {context : ServerContext} {system : FileSystem}

theorem listBuffer_empty (empty : lines.flatten = []) : listBuffer lines =
    { lines.foldl ListBuffer.print ⟨0, []⟩ with
      stores := (lines.foldl ListBuffer.print ⟨0, []⟩).stores ++
        [(0, printed fileListSize.toNat (text "(empty directory)\n"))] } := by
  have offset := @prints_offset ⟨0, []⟩ lines
  rw [empty] at offset
  simp only [listBuffer, offset, List.length_nil, Nat.add_zero, if_true]

theorem listBuffer_lines (some_line : lines.flatten ≠ []) :
    listBuffer lines = lines.foldl ListBuffer.print ⟨0, []⟩ := by
  have offset := @prints_offset ⟨0, []⟩ lines
  have positive := List.length_pos_iff.mpr some_line
  rw [listBuffer, if_neg]
  rw [offset]
  omega

theorem dropLast_flatten_length (lines : List Bytes) :
    lines.dropLast.flatten.length ≤ lines.flatten.length := by
  rcases List.eq_nil_or_concat lines with rfl | ⟨front, last, rfl⟩
  · exact le_refl _
  · rw [List.concat_eq_append, List.dropLast_concat, List.flatten_append, List.length_append]
    exact Nat.le_add_right _ _

theorem listBuffer_inside_iff (short : ∀ line ∈ lines, line.length < 2 ^ 16) :
    (listBuffer lines).Inside ↔ lines.dropLast.flatten.length ≤ 4096 := by
  have start : (⟨0, []⟩ : ListBuffer).Inside := by
    intro stored member
    cases member
  have chain := @prints_inside_iff ⟨0, []⟩ lines short (by decide)
  have bound : (lines ≠ [] → 0 + lines.dropLast.flatten.length ≤ 4096) ↔
      lines.dropLast.flatten.length ≤ 4096 := by
    cases lines with
    | nil => simp
    | cons line lines => simp
  rw [bound] at chain
  by_cases empty : lines.flatten = []
  · have few : lines.dropLast.flatten.length ≤ 4096 := by
      have less := dropLast_flatten_length lines
      rw [empty] at less
      exact less.trans (Nat.zero_le _)
    refine iff_of_true ?_ few
    rw [listBuffer_empty empty]
    intro stored member
    rcases List.mem_append.mp member with earlier | last
    · exact chain.mpr ⟨start, few⟩ stored earlier
    · rw [List.mem_singleton.mp last, Nat.zero_add]
      exact printed_length fileListSize.toNat (text "(empty directory)\n")
  · rw [listBuffer_lines empty, chain]
    exact and_iff_right start

/-- What stands in `file_list` if all stores are inside. -/
theorem listBuffer_holds (few : lines.dropLast.flatten.length ≤ 4096) (beyond : Memory) :
    ((listBuffer lines).contents (zeroedList beyond)).Holds
      (if lines.flatten = [] then text "(empty directory)\n" else lines.flatten.take 4095) := by
  split
  · rename_i empty
    rw [listBuffer_empty empty, ListBuffer.contents]
    simp only [List.foldl_append, List.foldl_cons, List.foldl_nil]
    have printed := @Memory.Holds.print
      ((lines.foldl ListBuffer.print ⟨0, []⟩).contents (zeroedList beyond)) []
      (text "(empty directory)\n") fileListSize.toNat rfl (by decide)
    have whole : (text "(empty directory)\n").take (fileListSize.toNat - 1 - 0) =
        text "(empty directory)\n" :=
      List.take_of_length_le (by decide)
    rw [List.nil_append, List.length_nil, whole] at printed
    exact printed
  · rename_i some_line
    rw [listBuffer_lines some_line]
    refine @prints_hold ⟨0, []⟩ lines (zeroedList beyond) [] rfl ?_ ?_
    · intro _
      rw [Nat.zero_add]
      exact few
    · rfl

theorem fileList_lines (context : ServerContext) (system : FileSystem) : fileList context system =
    if (listLines context system).flatten = [] then text "(empty directory)\n"
    else (listLines context system).flatten.take 4095 := rfl

theorem listLine_length {name : Bytes} {size : Nat} (named : name.length ≤ 255)
    (sized : size < 2 ^ 63) :
    (listLine name size).length < 2 ^ 16 := by
  have digits := @decimal_length size 18 (sized.trans (by decide))
  have blank : (text " ").length = 1 := rfl
  have bytes : (text " bytes\n").length = 7 := rfl
  simp only [listLine, List.length_append, List.length_replicate]
  omega

theorem listLine_nulFree {name : Bytes} (nulFree : 0 ∉ name) (size : Nat) :
    0 ∉ listLine name size := by
  have digits : 0 ∉ decimal size := by
    intro member
    exact (digit_visible ((decimal_value size).1 0 member)).2.2 rfl
  have blanks (count : Nat) : (0 : UInt8) ∉ List.replicate count 32 :=
    replicate_nulFree (by decide) count
  simp only [listLine, List.mem_append, not_or]
  exact ⟨⟨⟨⟨⟨nulFree, blanks _⟩, by decide⟩, blanks _⟩, digits⟩, by decide⟩

theorem mem_listLines {line : Bytes} (member : line ∈ listLines context system) :
    ∃ name ∈ system.readdir context.sharedDir.bytes, ∃ path content,
      system.files path = some content ∧ line = listLine name content.length := by
  obtain ⟨name, listed, found⟩ := List.mem_filterMap.mp member
  split at found
  · cases found
  · obtain ⟨content, file, rfl⟩ := Option.map_eq_some_iff.mp found
    exact ⟨name, listed, _, content, file, rfl⟩

theorem listLines_short (legal : LegalDirectory system context.sharedDir.bytes) :
    ∀ line ∈ listLines context system, line.length < 2 ^ 16 := by
  intro line member
  obtain ⟨name, listed, path, content, file, rfl⟩ := mem_listLines member
  exact listLine_length (legal.names name listed).2.1 (legal.sizes path content file)

theorem fileList_nulFree (legal : LegalDirectory system context.sharedDir.bytes) :
    0 ∉ fileList context system := by
  rw [fileList_lines]
  split
  · decide +kernel
  · intro member
    obtain ⟨line, listed, inside⟩ := List.mem_flatten.mp (List.mem_of_mem_take member)
    obtain ⟨name, named, path, content, _, rfl⟩ := mem_listLines listed
    exact listLine_nulFree (legal.names name named).2.2.1 content.length inside

theorem fileList_length (context : ServerContext) (system : FileSystem) :
    (fileList context system).length < 4096 := by
  rw [fileList_lines]
  split
  · decide
  · exact Nat.lt_of_le_pred (by decide) (List.length_take_le _ _)

/-- `server_list_files` stays inside its buffer and sends a terminated text exactly if the lines
before the last one have no more than 4096 bytes. -/
theorem listing_safe_iff (legal : LegalDirectory system context.sharedDir.bytes) :
    ListingSafe (listLines context system) ↔
      (listLines context system).dropLast.flatten.length ≤ 4096 := by
  constructor
  · intro ⟨inside, _⟩
    exact (listBuffer_inside_iff (listLines_short legal)).mp inside
  · intro few
    refine ⟨(listBuffer_inside_iff (listLines_short legal)).mpr few, ?_⟩
    intro beyond
    have length := fileList_length context system
    refine ⟨⟨fileList context system, fileList_nulFree legal⟩, length,
      listBuffer_holds few beyond, ?_⟩
    apply UInt32.toNat_ofNat_of_lt'
    rw [UInt32.size]
    exact length.trans (by decide)

theorem shared_nulFree : 0 ∉ text "shared" := by decide

theorem shared_fits : (⟨text "shared", shared_nulFree⟩ : CString).length ≤ 255 := by decide

/-- A server with an empty shared directory in its file system. -/
def sharedContext : ServerContext := ⟨⟨text "shared", shared_nulFree⟩, shared_fits, fun _ => [], []⟩

/-- Empty files with these names in the shared directory. -/
def sharedFiles (names : List Bytes) : FileSystem where
  files := fun path => if (names.map (text "shared/" ++ ·)).contains path then some [] else none
  directories := fun path => if path = text "shared" then some 4096 else none
  listed := names.map (text "shared/" ++ ·)
  openOutcomes := []
  writeOutcomes := []

theorem slash_infix {name : Bytes} (noSlash : 47 ∉ name) : ¬ text "/" <:+: name := by
  intro inside
  exact noSlash (inside.subset List.mem_cons_self)

theorem sharedFiles_read {names : List Bytes} (legal : ∀ name ∈ names, LegalName name) :
    (sharedFiles names).readdir (text "shared") = names := by
  rw [FileSystem.readdir, sharedFiles, List.filterMap_map]
  have kept : ∀ name ∈ names, ((fun path : Bytes =>
      let name := path.drop ((text "shared").length + 1)
      if path = text "shared" ++ text "/" ++ name ∧ ¬ text "/" <:+: name then some name else none) ∘
        (text "shared/" ++ ·)) name = some name := by
    intro name member
    have behind : (text "shared/" ++ name).drop ((text "shared").length + 1) = name := rfl
    simp only [Function.comp_apply, behind]
    exact if_pos ⟨rfl, slash_infix (legal name member).2.2.2⟩
  rw [List.filterMap_congr kept, List.filterMap_some]

theorem sharedFiles_legal {names : List Bytes} (legal : ∀ name ∈ names, LegalName name) :
    LegalDirectory (sharedFiles names) (text "shared") where
  names := by
    rw [sharedFiles_read legal]
    exact legal
  sizes := by
    intro path content file
    simp only [sharedFiles] at file
    split at file
    · cases file
      decide
    · cases file

theorem sharedFiles_lines {names : List Bytes} (legal : ∀ name ∈ names, LegalName name)
    (visible : ∀ name ∈ names, name.head? ≠ some 46) :
    listLines sharedContext (sharedFiles names) = names.map (listLine · 0) := by
  have line : ∀ name ∈ names, (if name.head? = some 46 then none
      else ((sharedFiles names).files ((text "shared" ++ text "/" ++ name).take 511)).map
          fun content =>
        listLine name content.length) = some (listLine name 0) := by
    intro name member
    have short : (text "shared" ++ text "/" ++ name).length ≤ 511 := by
      have bound := (legal name member).2.1
      have front : (text "shared" ++ text "/").length = 7 := rfl
      rw [List.length_append, front]
      omega
    have stored : (names.map (text "shared/" ++ ·)).contains (text "shared" ++ text "/" ++ name) =
        true :=
      List.contains_iff_mem.mpr (List.mem_map_of_mem member)
    have file : (sharedFiles names).files (text "shared" ++ text "/" ++ name) = some [] :=
      if_pos stored
    rw [if_neg (visible name member), List.take_of_length_le short, file]
    rfl
  have read : (sharedFiles names).readdir sharedContext.sharedDir.bytes = names :=
    sharedFiles_read legal
  rw [listLines, read]
  exact (List.filterMap_congr line).trans (congrFun List.filterMap_eq_map' names)

/-- Two files. -/
theorem listing_safe_iff_two :
    ListingSafe (listLines sharedContext (sharedFiles [text "a", text "b"])) ↔
      (listLines sharedContext (sharedFiles [text "a", text "b"])).dropLast.flatten.length ≤
        4096 := by
  apply listing_safe_iff
  apply sharedFiles_legal
  decide +kernel

/-- Seventeen names of 255 bytes. -/
def longNames : List Bytes :=
  (List.range 17).map fun number => List.replicate 254 97 ++ [UInt8.ofNat (97 + number)]

/-- The line of the last one of seventeen files is stored behind the end of the buffer. -/
theorem listing_overflow :
    (∀ name ∈ (sharedFiles longNames).readdir (text "shared"), LegalName name) ∧
      ¬ ListingSafe (listLines sharedContext (sharedFiles longNames)) := by
  have legal : ∀ name ∈ longNames, LegalName name := by decide +kernel
  rw [sharedFiles_read legal]
  refine ⟨legal, ?_⟩
  intro ⟨inside, _⟩
  have few :=
    (listBuffer_inside_iff (@listLines_short sharedContext _ (sharedFiles_legal legal))).mp inside
  rw [sharedFiles_lines legal (by decide +kernel)] at few
  exact absurd few (by decide +kernel)

end Listing

end LinuxCLearning.FileServer
