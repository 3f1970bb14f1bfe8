import LinuxCLearning.SysMonitor.Process

/-! What `process_read` makes of a well-formed line of `/proc/[pid]/stat`, against the numbering
of its fields, in which the process is the first one and the name in parentheses the second. -/

namespace LinuxCLearning.SysMonitor

/-- A well-formed line: a number, a name in parentheses, and the fields from the third on, all
separated by single blanks. -/
structure StatLine where
  pid : Bytes
  comm : Bytes
  fields : List Bytes
  number : pid ≠ [] ∧ ∀ byte ∈ pid, 48 ≤ byte ∧ byte ≤ 57
  oneLine : 0 ∉ comm ∧ 10 ∉ comm
  complete : 22 ≤ fields.length
  plain : ∀ field ∈ fields, field ≠ [] ∧ 0 ∉ field ∧ 10 ∉ field ∧ 32 ∉ field ∧ 41 ∉ field

namespace StatLine

/-- The fields as they stand behind the name. -/
def tail (fields : List Bytes) : Bytes := fields.flatMap (fun field => 32 :: field) ++ [10]

def bytes (line : StatLine) : Bytes := line.pid ++ text " (" ++ line.comm ++ 41 :: tail line.fields

/-- A field by its number, from 3 on; one that the line does not have is empty. -/
def field (line : StatLine) (number : Nat) : Bytes := line.fields[number - 3]?.getD []

end StatLine

/-- The words of a line behind its name: the last one ends with the line. -/
def lineWords : List Bytes → List Bytes
  | [] => []
  | [last] => [last ++ [10]]
  | field :: next :: fields => field :: lineWords (next :: fields)

section Fields

theorem words_tail {fields : List Bytes} (some_fields : fields ≠ [])
    (plain : ∀ field ∈ fields, field ≠ [] ∧ 32 ∉ field) :
    words 32 ((StatLine.tail fields).drop 1) = lineWords fields := by
  induction fields with
  | nil => exact absurd rfl some_fields
  | cons field fields ih =>
    rw [List.forall_mem_cons] at plain
    obtain ⟨⟨some_word, solid⟩, plain⟩ := plain
    cases fields with
    | nil =>
      have last : (StatLine.tail [field]).drop 1 = field ++ [10] := by simp [StatLine.tail]
      rw [last, lineWords]
      exact words_single (by simp [solid]) (by simp)
    | cons next fields =>
      have split : (StatLine.tail (field :: next :: fields)).drop 1 =
          field ++ 32 :: (StatLine.tail (next :: fields)).drop 1 := by
        simp [StatLine.tail]
      rw [split, words_cons solid some_word, ih (List.cons_ne_nil _ _) plain, lineWords]

/-- A conversion that stops at the end of the line gives the same for the words as for the
fields. -/
theorem lineWords_map {α : Type} {convert : Bytes → α}
    (stops : ∀ field, field ≠ [] → convert (field ++ [10]) = convert field)
    {fields : List Bytes} (filled : ∀ field ∈ fields, field ≠ []) :
      (lineWords fields).map convert = fields.map convert := by
  fun_induction lineWords fields with
  | case1 => rfl
  | case2 last =>
    rw [List.map_singleton, List.map_singleton, stops last (filled last List.mem_cons_self)]
  | case3 field next fields ih =>
    rw [List.map_cons, List.map_cons, ih fun other member => filled other
      (List.mem_cons_of_mem _ member)]

/-- What one field of the `switch` sets stays as it is when the loop is past it, and is set by
the token of its number before. -/
theorem statFields_column {α : Type} (get : StatFields → α) (convert : Bytes → α) {column : Nat}
    (inside : column < 39)
    (sets : ∀ info field token, get (statField info field token) = if field = column + 1 then
      convert token else get info)
    (tokens : List Bytes) (field : Nat) (info : StatFields) :
    get (statFields field tokens info) =
      if field ≤ column then (tokens[column - field]?.map convert).getD (get info)
      else get info := by
  induction tokens generalizing field info with
  | nil => rw [statFields]; simp
  | cons token tokens ih =>
    rw [statFields]
    rcases Nat.lt_trichotomy field column with before | same | behind
    · have shifted : column - field = column - (field + 1) + 1 := by omega
      rw [if_pos (before.trans inside), ih, if_pos (Nat.succ_le_of_lt before), if_pos before.le,
        sets, if_neg (by omega), shifted,
        List.getElem?_cons_succ]
    · rw [same, if_pos inside, ih, if_neg (by omega), sets, if_pos rfl, if_pos le_rfl, Nat.sub_self]
      rfl
    · rw [if_neg (not_le.mpr behind)]
      split
      · rw [ih, if_neg (by omega), sets, if_neg (by omega)]
      · rfl

theorem statField_eq (info : StatFields) (field : Nat) (token : Bytes) :
    statField info field token =
      { state := if field = 1 then token.headD 0 else info.state
        ppid := if field = 2 then atoi token else info.ppid
        utime := if field = 14 then strtoul token else info.utime
        stime := if field = 15 then strtoul token else info.stime
        niceVal := if field = 18 then atoi token else info.niceVal
        vsize := if field = 23 then strtoul token else info.vsize
        rss := if field = 24 then strtol token else info.rss } := by
  unfold statField
  split
  case h_8 one two fourteen fifteen eighteen twentyThree twentyFour =>
    rw [if_neg one, if_neg two, if_neg fourteen, if_neg fifteen, if_neg eighteen,
      if_neg twentyThree, if_neg twentyFour]
  all_goals rfl

/-- What a field of the `switch` holds behind the loop over a line: the one whose number is by
three larger than that of its column, counted from zero behind the name. -/
theorem StatLine.column {α : Type} (line : StatLine) (get : StatFields → α)
    (convert : Bytes → α) {column : Nat} (inside : column < 39)
    (sets : ∀ info field token, get (statField info field token) = if field = column + 1 then
      convert token else get info)
    (stops : ∀ field, field ≠ [] → convert (field ++ [10]) = convert field)
    (empty : get ⟨0, 0, 0, 0, 0, 0, 0⟩ = convert []) :
    get (statFields 0 (lineWords line.fields) ⟨0, 0, 0, 0, 0, 0, 0⟩) =
      convert (line.field (column + 3)) := by
  have filled : ∀ field ∈ line.fields, field ≠ [] := fun field member => (line.plain field member).1
  rw [statFields_column get convert inside sets, if_pos (Nat.zero_le _),
    Nat.sub_zero, ← List.getElem?_map,
    lineWords_map stops filled, List.getElem?_map, StatLine.field, Nat.add_sub_cancel, empty]
  cases line.fields[column]? <;> rfl

end Fields

section Name

theorem rtakeWhile_behind (front : Bytes) {behind : Bytes} (plain : 41 ∉ behind) :
    (front ++ 41 :: behind).rtakeWhile (· != 41) = behind := by
  have kept : ∀ byte ∈ behind.reverse, (byte != 41) = true := by
    intro byte member
    apply bne_iff_ne.mpr
    rintro rfl
    exact plain (List.mem_reverse.mp member)
  have taken : (behind.reverse ++ 41 :: front.reverse).takeWhile (· != 41) = behind.reverse := by
    apply takeWhile_stops kept
    rintro _ ⟨⟩
    decide
  have turned : (front ++ 41 :: behind).reverse = behind.reverse ++ 41 :: front.reverse := by simp
  rw [List.rtakeWhile, turned, taken, List.reverse_reverse]

theorem scanInt_digits {digits : Bytes}
    (number : digits ≠ [] ∧ ∀ byte ∈ digits, 48 ≤ byte ∧ byte ≤ 57) {rest : Bytes}
    (stops : ∀ byte, rest.head? = some byte → ¬(48 ≤ byte ∧ byte ≤ 57)) :
    scanInt (digits ++ rest) = some (atoi (digits ++ rest), rest) := by
  obtain ⟨some_digits, all⟩ := number
  have taken : (digits ++ rest).takeWhile (fun byte => decide (48 ≤ byte ∧ byte ≤ 57)) = digits :=
    takeWhile_stops (fun byte member => decide_eq_true (all byte member)) fun byte head =>
      decide_eq_false (stops byte head)
  cases digits with
  | nil => exact absurd rfl some_digits
  | cons first digits =>
    obtain ⟨solid, minus, plus⟩ := digit_plain (all first List.mem_cons_self)
    have trimmed : (first :: digits ++ rest).dropWhile isspace = first :: digits ++ rest :=
      List.dropWhile_cons_of_neg (by rw [solid]; decide)
    have unsigned : ¬((first :: digits ++ rest).head? = some 45 ∨
        (first :: digits ++ rest).head? = some 43) := by
      rintro (sign | sign)
      · exact minus (Option.some.inj sign)
      · exact plus (Option.some.inj sign)
    rw [scanInt, trimmed, if_neg unsigned, taken, if_neg (List.cons_ne_nil _ _), List.drop_left]

/-- What `sscanf` reads of a line: the number, and the name up to its first parenthesis. -/
theorem scanStat_line (line : StatLine) :
    (scanStat line.bytes).2 =
      if (line.comm.takeWhile (· != 41)).take 255 = [] then none
      else some ((line.comm.takeWhile (· != 41)).take 255) := by
  have layout : line.bytes =
      line.pid ++ 32 :: 40 :: (line.comm ++ 41 :: StatLine.tail line.fields) := by
    rw [StatLine.bytes, List.append_assoc, List.append_assoc]
    rfl
  have number := @scanInt_digits line.pid line.number
    (32 :: 40 :: (line.comm ++ 41 :: StatLine.tail line.fields))
    (by rintro _ ⟨⟩; decide)
  have skipped : (32 :: 40 :: (line.comm ++ 41 :: StatLine.tail line.fields)).dropWhile isspace =
      40 :: (line.comm ++ 41 :: StatLine.tail line.fields) := by
    rw [List.dropWhile_cons_of_pos (by decide), List.dropWhile_cons_of_neg (by decide)]
  have read : (scanStat line.bytes).2 =
      (scanSet 255 (· != 41) (line.comm ++ 41 :: StatLine.tail line.fields)).map (·.1) := by
    rw [layout, scanStat, number]
    simp only [skipped]
  rw [read, scanSet, takeWhile_first (by decide)]
  split
  · rfl
  · rfl

/-- The name that is set: of what has been read, or else of what is in memory. -/
theorem commName_scanned (comm : CharArray 256) {scanned : Bytes} (nulFree : 0 ∉ scanned) :
    commName comm (some scanned) = scanned.take 63 := by
  rw [commName]
  rcases le_or_gt 63 scanned.length with long | short
  · rw [List.take_append_of_le_length long]
    exact (CString.ofBuffer_whole _).mpr fun member => nulFree (List.mem_of_mem_take member)
  · rw [List.take_of_length_le short.le, List.take_append, List.take_of_length_le short.le]
    obtain ⟨left, room⟩ := Nat.exists_eq_add_of_lt short
    have one : 63 - scanned.length = left + 1 := by omega
    rw [one, List.take_succ_cons]
    exact takeWhile_nulFree nulFree _

/-- When the name of a line is kept: there is no parenthesis in what the field has room for; and
where nothing is read of it, it is in memory by chance. -/
def StatLine.NameKept (line : StatLine) (comm : CharArray 256) : Prop :=
  if line.comm.takeWhile (· != 41) = [] then (CString.ofBuffer (comm.bytes.take 63)).bytes =
    line.comm.take 63
  else 41 ∉ line.comm.take 63

theorem take_takeWhile_eq_iff (string : Bytes) (count : Nat) :
    (string.takeWhile (· != 41)).take count = string.take count ↔ 41 ∉ string.take count := by
  induction string generalizing count with
  | nil => simp
  | cons byte string ih =>
    cases count with
    | zero => simp
    | succ count =>
      by_cases paren : byte = 41
      · rw [paren]
        simp
      · rw [takeWhile_other paren, List.take_succ_cons, List.take_succ_cons,
          List.cons.injEq, List.mem_cons, ih]
        simp [Ne.symm paren]

theorem commName_iff (line : StatLine) (comm : CharArray 256) :
    commName comm (scanStat line.bytes).2 = line.comm.take 63 ↔ line.NameKept comm := by
  have nulFree : 0 ∉ (line.comm.takeWhile (· != 41)).take 255 := fun member =>
    line.oneLine.1 ((List.takeWhile_prefix _).subset (List.mem_of_mem_take member))
  rw [scanStat_line, StatLine.NameKept]
  by_cases empty : line.comm.takeWhile (· != 41) = []
  · rw [if_pos empty, empty, if_pos List.take_nil]
    rfl
  · have filled : (line.comm.takeWhile (· != 41)).take 255 ≠ [] := by
      intro nothing
      rcases List.take_eq_nil_iff.mp nothing with zero | nil
      · cases zero
      · exact empty nil
    rw [if_neg empty, if_neg filled, commName_scanned comm nulFree, List.take_take]
    exact take_takeWhile_eq_iff line.comm 63

end Name

section Reading
variable {system : SystemView} {line : StatLine} {name : Bytes}

theorem StatLine.bytes_eq (line : StatLine) :
    line.bytes = (line.pid ++ text " (" ++ line.comm ++ 41 :: line.fields.flatMap fun field =>
      32 :: field) ++ [10] := by
  rw [StatLine.bytes, StatLine.tail]
  simp

theorem StatLine.front_plain (line : StatLine) {letter : UInt8}
    (outside : letter = 0 ∨ letter = 10) :
    letter ∉ line.pid ++ text " (" ++ line.comm ++ 41 :: line.fields.flatMap fun field =>
      32 :: field := by
  have number : letter ∉ line.pid := by
    intro member
    obtain ⟨-, newline, nul⟩ := digit_visible (line.number.2 letter member)
    rcases outside with rfl | rfl
    · exact nul rfl
    · exact newline rfl
  have name : letter ∉ line.comm := by
    rcases outside with rfl | rfl
    · exact line.oneLine.1
    · exact line.oneLine.2
  have blank : letter ∉ text " (" := by
    rcases outside with rfl | rfl <;> decide +kernel
  have fields : letter ∉ line.fields.flatMap fun field => 32 :: field := by
    intro member
    obtain ⟨field, present, within⟩ := List.mem_flatMap.mp member
    obtain ⟨-, nul, newline, -⟩ := line.plain field present
    rcases outside with rfl | rfl
    · simp [nul] at within
    · simp [newline] at within
  have paren : letter ≠ 41 := by
    rcases outside with rfl | rfl <;> decide
  simp only [List.mem_append, List.mem_cons, number, blank, name, paren, fields,
    or_self, not_false_eq_true]

theorem StatLine.nulFree (line : StatLine) : 0 ∉ line.bytes := by
  rw [line.bytes_eq, List.mem_append, not_or]
  exact ⟨line.front_plain (.inl rfl), by decide⟩

theorem StatLine.read (line : StatLine) (short : line.bytes.length < 1024) :
    (CString.ofBuffer (fgetsLine 1023 line.bytes)).bytes = line.bytes := by
  have stored : fgetsLine 1023 line.bytes = line.bytes := by
    have size := short
    rw [line.bytes_eq] at size ⊢
    rw [fgetsLine_line (line.front_plain (.inr rfl)),
      List.take_of_length_le (Nat.le_of_lt_succ size)]
  rw [stored]
  exact (CString.ofBuffer_whole _).mpr line.nulFree

theorem StatLine.some_fields (line : StatLine) : line.fields ≠ [] := by
  intro empty
  have complete := line.complete
  rw [empty] at complete
  cases complete

/-- What `strtok` is given, and the words that it finds. -/
theorem behindComm_line (line : StatLine) (behind : Bytes) :
    words 32 (behindComm line.bytes behind) = lineWords line.fields := by
  have no_paren : 41 ∉ StatLine.tail line.fields := by
    rw [StatLine.tail, List.mem_append, not_or]
    refine ⟨?_, by decide⟩
    intro member
    obtain ⟨field, present, within⟩ := List.mem_flatMap.mp member
    obtain ⟨-, -, -, -, paren⟩ := line.plain field present
    simp [paren] at within
  have nulFree : 0 ∉ (StatLine.tail line.fields).drop 1 := by
    intro member
    apply line.nulFree
    rw [StatLine.bytes]
    exact List.mem_append_right _ (List.mem_cons_of_mem _ (List.mem_of_mem_drop member))
  have longer : 1 ≤ (StatLine.tail line.fields).length := by
    rw [StatLine.tail, List.length_append]
    exact Nat.le_add_left _ _
  have string : behindComm line.bytes behind = (StatLine.tail line.fields).drop 1 := by
    rw [behindComm, StatLine.bytes, rtakeWhile_behind _ no_paren,
      List.drop_append_of_le_length longer]
    exact takeWhile_nulFree nulFree behind
  rw [string]
  apply words_tail line.some_fields
  intro field member
  obtain ⟨some_word, -, -, blank, -⟩ := line.plain field member
  exact ⟨some_word, blank⟩

/-- The kilobytes of some pages. -/
def residentKb (pageSize rss : Int) : Nat := (rss * pageSize % 2 ^ 64).toNat / 1024

/-- What the documented numbering says of an entry. -/
structure StatLine.Documented (line : StatLine) (pageSize : Int) (proc : ProcInfo) : Prop where
  state : proc.state = (line.field 3).headD 0
  ppid : proc.ppid = atoi (line.field 4)
  cpuTicks : proc.cpuTicks = (strtoul (line.field 14) + strtoul (line.field 15)) % 2 ^ 64
  nice : proc.nice = atoi (line.field 19)
  vmSize : proc.vmSize = strtoul (line.field 23) / 1024
  vmRss : proc.vmRss = residentKb pageSize (strtol (line.field 24))
  name : proc.name = line.comm.take 63

/-- The columns that are read hold the same numbers as those that should be. -/
structure StatLine.SameColumns (line : StatLine) (pageSize : Int) : Prop where
  cpuTicks : (strtoul (line.field 16) + strtoul (line.field 17)) % 2 ^ 64 =
    (strtoul (line.field 14) + strtoul (line.field 15)) % 2 ^ 64
  nice : atoi (line.field 20) = atoi (line.field 19)
  vmSize : strtoul (line.field 25) / 1024 = strtoul (line.field 23) / 1024
  vmRss : residentKb pageSize (strtol (line.field 26)) = residentKb pageSize
    (strtol (line.field 24))

theorem headD_newline (field : Bytes) (filled : field ≠ []) :
    (field ++ [10]).headD 0 = field.headD 0 := by
  cases field with
  | nil => exact absurd rfl filled
  | cons byte field => rfl

/-- The entry for a process, by the fields of its line that are read. -/
theorem readProcess_line (positive : 0 < atoi name)
    (stat : (system.files (atoi name)).stat = some line.bytes) (short : line.bytes.length < 1024) :
    ∃ proc, readProcess system name = some proc ∧
      proc.state = (line.field 3).headD 0 ∧ proc.ppid = atoi (line.field 4) ∧
      proc.cpuTicks = (strtoul (line.field 16) + strtoul (line.field 17)) % 2 ^ 64 ∧
      proc.nice = atoi (line.field 20) ∧ proc.vmSize = strtoul (line.field 25) / 1024 ∧
      proc.vmRss = residentKb system.pageSize (strtol (line.field 26)) ∧
      proc.name = commName (system.files (atoi name)).comm (scanStat line.bytes).2 := by
  have paren : 41 ∈ line.bytes := by
    rw [StatLine.bytes]
    simp
  have atoi_stops (field : Bytes) (_ : field ≠ []) : atoi (field ++ [10]) = atoi field :=
    atoi_newline field
  have strtoul_stops (field : Bytes) (_ : field ≠ []) : strtoul (field ++ [10]) = strtoul field :=
    strtoul_newline field
  have strtol_stops (field : Bytes) (_ : field ≠ []) : strtol (field ++ [10]) = strtol field :=
    strtol_newline field
  have state := @StatLine.column _ line (·.state) (·.headD 0) 0 (by decide)
    (by intros; rw [statField_eq]) headD_newline rfl
  have ppid := @StatLine.column _ line (·.ppid) atoi 1 (by decide)
    (by intros; rw [statField_eq]) atoi_stops rfl
  have utime := @StatLine.column _ line (·.utime) strtoul 13 (by decide)
    (by intros; rw [statField_eq]) strtoul_stops rfl
  have stime := @StatLine.column _ line (·.stime) strtoul 14 (by decide)
    (by intros; rw [statField_eq]) strtoul_stops rfl
  have nice := @StatLine.column _ line (·.niceVal) atoi 17 (by decide)
    (by intros; rw [statField_eq]) atoi_stops rfl
  have vsize := @StatLine.column _ line (·.vsize) strtoul 22 (by decide)
    (by intros; rw [statField_eq]) strtoul_stops rfl
  have rss := @StatLine.column _ line (·.rss) strtol 23 (by decide)
    (by intros; rw [statField_eq]) strtol_stops rfl
  have going : ¬(line.bytes = [] ∨ 41 ∉ line.bytes) := by
    rintro (empty | missing)
    · rw [empty] at paren
      cases paren
    · exact missing paren
  rw [readProcess]
  dsimp only
  rw [if_neg (not_le.mpr positive), stat]
  dsimp only
  rw [line.read short, if_neg going, behindComm_line]
  refine ⟨_, rfl, state, ppid, ?_, nice, ?_, ?_, rfl⟩
  · rw [utime, stime]
  · rw [vsize]
  · rw [rss]
    rfl

/-- The entries behind some names are the first 1024 of those that there are. -/
theorem readProcesses_eq (system : SystemView) (names : List Bytes) {processes : List ProcInfo}
    (few : processes.length ≤ 1024) :
    readProcesses system names processes =
      (processes ++ names.filterMap (readProcess system)).take 1024 := by
  induction names generalizing processes with
  | nil => rw [readProcesses, List.filterMap_nil, List.append_nil, List.take_of_length_le few]
  | cons name names ih =>
    rw [readProcesses]
    split
    · rename_i room
      cases read : readProcess system name with
      | none =>
        rw [Option.toList_none, List.append_nil, ih few, List.filterMap_cons_none read]
      | some proc =>
        have fits : (processes ++ [proc]).length ≤ 1024 := by
          rw [List.length_append]
          exact room
        rw [Option.toList_some, ih fits, List.filterMap_cons_some read, List.append_assoc]
        rfl
    · rename_i full
      have all : processes.length = 1024 := by omega
      rw [List.take_append_of_le_length all.ge, List.take_of_length_le few]

/-- An entry in front of which there are fewer than 1024 others is in the result. -/
theorem processRead_mem (sorts : ∀ processes, (system.sorted processes).Perm processes)
    {before after : List Bytes} {proc : ProcInfo}
    (few : (before.filterMap (readProcess system)).length < 1024)
    (read : readProcess system name = some proc) :
    ∃ processes, processRead system (some (before ++ name :: after)) = some processes ∧
      proc ∈ processes := by
  refine ⟨_, rfl, ?_⟩
  have entries : (before ++ name :: after).filterMap (readProcess system) =
      (before.filterMap (readProcess system) ++ [proc]) ++ after.filterMap
          (readProcess system) := by
    rw [List.filterMap_append, List.filterMap_cons_some read, List.append_assoc]
    rfl
  apply (sorts _).mem_iff.mpr
  rw [readProcesses_eq system _ (Nat.zero_le _), List.nil_append, entries, List.take_append,
    List.take_of_length_le]
  · simp
  · rw [List.length_append]
    exact few

/-- `process_read` has an entry for a process with a well-formed line, and it is the documented
one exactly if the columns that are read hold the same numbers as those of the documentation,
and the name is kept. -/
theorem processRead_stat_iff (sorts : ∀ processes, (system.sorted processes).Perm processes)
    {before after : List Bytes}
    (few : (before.filterMap (readProcess system)).length < 1024) (positive : 0 < atoi name)
    (stat : (system.files (atoi name)).stat = some line.bytes) (short : line.bytes.length < 1024) :
    ∃ proc, readProcess system name = some proc ∧
      (∃ processes, processRead system (some (before ++ name :: after)) =
        some processes ∧ proc ∈ processes) ∧
      (line.Documented system.pageSize proc ↔
        line.SameColumns system.pageSize ∧ line.NameKept (system.files (atoi name)).comm) := by
  obtain ⟨proc, read, state, ppid, cpuTicks, nice, vmSize, vmRss, named⟩ :=
    readProcess_line positive stat short
  refine ⟨proc, read, processRead_mem sorts few read, ?_⟩
  rw [← commName_iff, ← named]
  constructor
  · rintro ⟨-, -, ticks, niceness, size, resident, name⟩
    exact ⟨⟨cpuTicks.symm.trans ticks, nice.symm.trans niceness, vmSize.symm.trans size,
      vmRss.symm.trans resident⟩, name⟩
  · rintro ⟨⟨ticks, niceness, size, resident⟩, name⟩
    exact ⟨state, ppid, cpuTicks.trans ticks, nice.trans niceness, vmSize.trans size,
      vmRss.trans resident, name⟩

end Reading

/-- The fields of a process that has run for some ticks, and never slept, been nice or had any
memory. -/
def tickFields (ticks : UInt8) : List Bytes :=
  text "S" :: (List.replicate 10 [48] ++ [ticks] :: List.replicate 38 [48])

theorem tickFields_plain {ticks : UInt8} (digit : ticks = 48 ∨ ticks = 55) :
    ∀ field ∈ tickFields ticks, field ≠ [] ∧ 0 ∉ field ∧ 10 ∉ field ∧ 32 ∉ field ∧ 41 ∉ field := by
  rcases digit with rfl | rfl <;> decide +kernel

theorem tickFields_complete (ticks : UInt8) : 22 ≤ (tickFields ticks).length := by
  rw [tickFields, List.length_cons, List.length_append, List.length_cons, List.length_replicate,
    List.length_replicate]
  omega

theorem one_digits : text "1" ≠ [] ∧ ∀ byte ∈ text "1", 48 ≤ byte ∧ byte ≤ 57 := by decide +kernel

theorem init_oneLine : 0 ∉ text "init" ∧ 10 ∉ text "init" := by decide +kernel

/-- The line of the first process. -/
def tickLine {ticks : UInt8} (digit : ticks = 48 ∨ ticks = 55) : StatLine :=
  ⟨text "1", text "init", tickFields ticks, one_digits, init_oneLine, tickFields_complete ticks,
    tickFields_plain digit⟩

/-- A system with this process. -/
def tickSystem {ticks : UInt8} (digit : ticks = 48 ∨ ticks = 55) : SystemView :=
  ⟨4096, fun _ => none, fun _ => ⟨some (tickLine digit).bytes, none, none, .ofBytes 256 [], []⟩, id⟩

theorem tickLine_short {ticks : UInt8} (digit : ticks = 48 ∨ ticks = 55) :
    (tickLine digit).bytes.length < 1024 := by
  rcases digit with rfl | rfl <;> decide +kernel

theorem one_positive : 0 < atoi (text "1") := by decide +kernel

theorem processRead_stat_iff_idle :
    ∃ proc, readProcess (tickSystem (.inl rfl)) (text "1") = some proc ∧
      (tickLine (.inl rfl)).Documented 4096 proc := by
  obtain ⟨proc, read, -, documented⟩ :=
    @processRead_stat_iff (tickSystem (.inl rfl)) (tickLine (.inl rfl)) (text "1")
    (fun processes => .refl processes) [] [] (by decide) one_positive rfl (tickLine_short _)
  refine ⟨proc, read, documented.mpr ⟨⟨?_, ?_, ?_, ?_⟩, ?_⟩⟩
  · decide +kernel
  · decide +kernel
  · decide +kernel
  · decide +kernel
  · rw [StatLine.NameKept]
    decide +kernel

/-- For a process that has run for seven ticks the time is 0: the columns for the children of
the process are read. -/
theorem processRead_ticks :
    strtoul ((tickLine (.inr rfl)).field 14) = 7 ∧
      ∃ proc, readProcess (tickSystem (.inr rfl)) (text "1") = some proc ∧ proc.cpuTicks = 0 ∧
        ¬(tickLine (.inr rfl)).Documented 4096 proc := by
  obtain ⟨proc, read, -, -, ticks, -⟩ :=
    @readProcess_line (tickSystem (.inr rfl)) (tickLine (.inr rfl)) (text "1") one_positive
    rfl (tickLine_short _)
  have zero : proc.cpuTicks = 0 := ticks.trans (by decide +kernel)
  refine ⟨by decide +kernel, proc, read, zero, ?_⟩
  intro documented
  have seven := documented.cpuTicks
  rw [zero] at seven
  exact absurd seven (by decide +kernel)

end LinuxCLearning.SysMonitor
