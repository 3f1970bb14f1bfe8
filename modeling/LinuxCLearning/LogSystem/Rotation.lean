import LinuxCLearning.LogSystem.LockOwner

/-! Rotation by size in asynchronous mode, where the background thread alone writes
the log files, one entry after the other. The size that decides on a rotation is
counted from the moment a file is opened, and the file is opened for appending. -/

namespace LinuxCLearning.LogSystem

open Machine

namespace GLog

/-- `log_rotate`. -/
def logRotate (log : GLog) (date : Tm) (opens : Bool) : GLog :=
  if log.logFile = none then log else log.rotateLocked date opens

/-- `output_file`. -/
def outputFile (localtime : Nat → Tm) (date : Tm) (opens : Bool) (log : GLog) (entry : LogEntry) :
    Option GLog :=
  if log.logFile = none then some log
  else
    (formatEntry localtime log.config.format 4096 entry).bind fun line =>
      (if log.exceeds line then log.logRotate date opens else log).appendLine line

/-- The round of `async_thread_func` for one entry, as far as the files go. -/
def asyncOutput (localtime : Nat → Tm) (date : Tm) (log : GLog) (output : LogEntry × Bool) :
    Option GLog :=
  (if hasFlag log.config.targets targetFile then log.outputFile localtime date output.2 output.1
    else some log).map fun log => { log with totalEntries := log.totalEntries + 1 }

/-- The line of an entry is not longer than a whole file may be. -/
def EntryFits (localtime : Nat → Tm) (log : GLog) (entry : LogEntry) : Prop :=
  ∀ line, formatEntry localtime log.config.format 4096 entry = some line →
    line.length ≤ log.config.maxFileSize.toNat

/-- A rotation for this entry finds no file of its name in the directory, and the size
stays within a `size_t`. -/
def RotatesToNew (localtime : Nat → Tm) (date : Tm) (log : GLog) (entry : LogEntry) : Prop :=
  ∀ line, formatEntry localtime log.config.format 4096 entry = some line →
    log.currentFileSize.toNat + line.length < 2 ^ 64 ∧
    (log.exceeds line = true → log.files (log.config.logFilepath date log.nextFileIndex) = none)

/-- No file is longer than the maximal size and there are no more files than the maximal
count. -/
def WithinLimits (log : GLog) : Prop :=
  (∀ path content, log.files path = some content →
    content.length ≤ log.config.maxFileSize.toNat) ∧
  Set.encard {path | log.files path ≠ none} ≤ log.config.maxFileCount.toNat

/-- The open file is the one of the index and holds as many bytes as were counted, every
file is of one of the indices, and none is too long. -/
structure Accounted (log : GLog) (date : Tm) : Prop where
  bySize : log.config.rotatePolicy = .size
  index : (log.currentFileIndex : Int) < log.config.maxFileCount
  opened : log.logFile = some (log.config.logFilepath date log.currentFileIndex)
  counted : ∃ content, log.files (log.config.logFilepath date log.currentFileIndex) = some content ∧
    content.length = log.currentFileSize.toNat
  bounded : ∀ path content, log.files path = some content →
    content.length ≤ log.config.maxFileSize.toNat
  named : ∀ path, log.files path ≠ none →
    ∃ index < log.config.maxFileCount.toNat, path = log.config.logFilepath date index

variable {log : GLog} {date : Tm}

theorem Accounted.withinLimits (accounted : log.Accounted date) : log.WithinLimits := by
  refine ⟨accounted.bounded, ?_⟩
  have covered : {path | log.files path ≠ none} ⊆
      Set.image (log.config.logFilepath date) (Finset.range log.config.maxFileCount.toNat) := by
    intro path present
    obtain ⟨index, small, rfl⟩ := accounted.named path present
    exact ⟨index, by simpa using small, rfl⟩
  calc Set.encard {path | log.files path ≠ none}
      ≤ Set.encard (Set.image (log.config.logFilepath date)
          (Finset.range log.config.maxFileCount.toNat)) :=
        Set.encard_le_encard covered
    _ ≤ Set.encard (Finset.range log.config.maxFileCount.toNat : Set Nat) := Set.encard_image_le _ _
    _ = log.config.maxFileCount.toNat := by
        rw [Set.encard_coe_eq_coe_finsetCard, Finset.card_range]

theorem Accounted.append {line : Bytes} {next : GLog} (accounted : log.Accounted date)
    (fits : log.currentFileSize.toNat + line.length ≤ log.config.maxFileSize.toNat)
    (small : log.currentFileSize.toNat + line.length < 2 ^ 64)
    (appended : log.appendLine line = some next) : next.Accounted date := by
  obtain ⟨path, opened, rfl⟩ := appendLine_eq_some appended
  cases opened.symm.trans accounted.opened
  obtain ⟨content, present, counted⟩ := accounted.counted
  have size : (log.currentFileSize + UInt64.ofNat line.length).toNat =
      log.currentFileSize.toNat + line.length := by
    rw [UInt64.toNat_add, UInt64.toNat_ofNat',
      Nat.mod_eq_of_lt (show line.length < 2 ^ 64 by omega),
      Nat.mod_eq_of_lt small]
  constructor
  · exact accounted.bySize
  · exact accounted.index
  · exact accounted.opened
  · refine ⟨content ++ line, by simp [present], ?_⟩
    rw [size, List.length_append, counted]
  · intro path other stored
    by_cases same : path = log.config.logFilepath date log.currentFileIndex
    · subst same
      simp only [Function.update_self, present, Option.getD_some, Option.some.injEq] at stored
      subst stored
      rw [List.length_append, counted]
      exact fits
    · exact accounted.bounded path other (by simpa [same] using stored)
  · intro path stored
    by_cases same : path = log.config.logFilepath date log.currentFileIndex
    · refine ⟨log.currentFileIndex, ?_, same⟩
      have index := accounted.index
      simp only
      omega
    · exact accounted.named path (by simpa [same] using stored)

theorem nextFileIndex_lt (positive : 1 ≤ log.config.maxFileCount) :
    (log.nextFileIndex : Int) < log.config.maxFileCount := by
  unfold nextFileIndex
  split
  · simp only [Nat.cast_zero]
    omega
  · push_cast
    omega

theorem Accounted.rotate (accounted : log.Accounted date) (positive : 1 ≤ log.config.maxFileCount)
    (fresh : log.files (log.config.logFilepath date log.nextFileIndex) = none) :
    (log.rotateLocked date true).Accounted date ∧
      (log.rotateLocked date true).currentFileSize = 0 := by
  refine ⟨?_, rfl⟩
  have index := nextFileIndex_lt positive
  constructor
  · exact accounted.bySize
  · exact index
  · rfl
  · exact ⟨[], by simp [rotateLocked, openLogFile, closeForRotation, fresh], rfl⟩
  · intro path content stored
    by_cases same : path = log.config.logFilepath date log.nextFileIndex
    · subst same
      have empty : content = [] := by
        simpa [rotateLocked, openLogFile, closeForRotation, fresh] using stored.symm
      simp [empty]
    · exact accounted.bounded path content
        (by simpa [rotateLocked, openLogFile, closeForRotation, same] using stored)
  · intro path stored
    by_cases same : path = log.config.logFilepath date log.nextFileIndex
    · refine ⟨log.nextFileIndex, ?_, same⟩
      simp only [rotateLocked_config]
      omega
    · exact accounted.named path
        (by simpa [rotateLocked, openLogFile, closeForRotation, same] using stored)

theorem exceeds_false {line : Bytes} (accounted : log.Accounted date)
    (small : log.currentFileSize.toNat + line.length < 2 ^ 64) (fits : log.exceeds line = false) :
    log.currentFileSize.toNat + line.length ≤ log.config.maxFileSize.toNat := by
  have room : ¬ log.config.maxFileSize < log.currentFileSize + UInt64.ofNat line.length := by
    simpa [exceeds, LogConfig.rotatesBySize, accounted.bySize] using fits
  rw [UInt64.lt_iff_toNat_lt, UInt64.toNat_add, UInt64.toNat_ofNat',
    Nat.mod_eq_of_lt (show line.length < 2 ^ 64 by omega), Nat.mod_eq_of_lt small] at room
  omega

@[simp] theorem logRotate_config (log : GLog) (date : Tm) (opens : Bool) :
    (log.logRotate date opens).config = log.config := by
  unfold logRotate
  split <;> simp

theorem outputFile_config {localtime : Nat → Tm} {opens : Bool} {entry : LogEntry} {next : GLog}
    (output : log.outputFile localtime date opens entry = some next) :
      next.config = log.config := by
  unfold outputFile at output
  split at output
  · cases output
    rfl
  · obtain ⟨line, -, appended⟩ := Option.bind_eq_some_iff.mp output
    obtain ⟨path, -, rfl⟩ := appendLine_eq_some appended
    split <;> simp

theorem Accounted.outputFile {localtime : Nat → Tm} {opens : Bool} {entry : LogEntry} {next : GLog}
    (accounted : log.Accounted date) (positive : 1 ≤ log.config.maxFileCount)
    (fits : log.EntryFits localtime entry) (fresh : log.RotatesToNew localtime date entry)
    (output : log.outputFile localtime date opens entry = some next) : next.Accounted date := by
  unfold GLog.outputFile at output
  rw [if_neg (by simp [accounted.opened])] at output
  obtain ⟨line, formatted, appended⟩ := Option.bind_eq_some_iff.mp output
  obtain ⟨small, isNew⟩ := fresh line formatted
  cases exceeds : log.exceeds line with
  | false =>
    rw [exceeds] at appended
    exact accounted.append (exceeds_false accounted small exceeds) small appended
  | true =>
    rw [exceeds, if_pos rfl, logRotate, if_neg (by simp [accounted.opened])] at appended
    cases opens with
    | false =>
      obtain ⟨path, opened, -⟩ := appendLine_eq_some appended
      cases opened
    | true =>
      obtain ⟨rotated, empty⟩ := accounted.rotate positive (isNew exceeds)
      have short := fits line formatted
      refine rotated.append ?_ ?_ appended
      · simpa [empty] using short
      · rw [empty, UInt64.toNat_zero]
        omega

theorem asyncOutput_eq_some {localtime : Nat → Tm} {output : LogEntry × Bool} {next : GLog}
    (toFile : hasFlag log.config.targets targetFile = true)
    (round : log.asyncOutput localtime date output = some next) :
    ∃ written, log.outputFile localtime date output.2 output.1 = some written ∧
      next = { written with totalEntries := written.totalEntries + 1 } := by
  rw [asyncOutput, if_pos toFile] at round
  obtain ⟨written, done, rfl⟩ := Option.map_eq_some_iff.mp round
  exact ⟨written, done, rfl⟩

theorem outputFile_opened {localtime : Nat → Tm} {opens : Bool} {entry : LogEntry} {next : GLog}
    (opened : log.logFile ≠ none) (output : log.outputFile localtime date opens entry = some next) :
    next.logFile ≠ none := by
  rw [GLog.outputFile, if_neg opened] at output
  obtain ⟨line, -, appended⟩ := Option.bind_eq_some_iff.mp output
  obtain ⟨path, reopened, rfl⟩ := appendLine_eq_some appended
  simp [reopened]

theorem Accounted.counted_entry (accounted : log.Accounted date) :
    { log with totalEntries := log.totalEntries + 1 }.Accounted date :=
  ⟨accounted.bySize, accounted.index, accounted.opened, accounted.counted, accounted.bounded,
    accounted.named⟩

/-- A rotation onto a file without the room for the line writes past the maximal size. -/
theorem overflow_of_reopened {localtime : Nat → Tm} {entry : LogEntry}
    {line content : Bytes} {next : GLog}
    (toFile : hasFlag log.config.targets targetFile = true) (opened : log.logFile ≠ none)
    (formatted : formatEntry localtime log.config.format 4096 entry = some line)
    (exceeds : log.exceeds line = true)
    (old : log.files (log.config.logFilepath date log.nextFileIndex) = some content)
    (full : log.config.maxFileSize.toNat < content.length + line.length)
    (round : log.asyncOutput localtime date (entry, true) = some next) : ¬ next.WithinLimits := by
  obtain ⟨written, done, rfl⟩ := asyncOutput_eq_some toFile round
  rw [GLog.outputFile, if_neg opened, formatted, Option.bind_some, exceeds, if_pos rfl, logRotate,
    if_neg opened] at done
  obtain ⟨path, reopened, rfl⟩ := appendLine_eq_some done
  cases reopened
  intro within
  have long := within.1 (log.config.logFilepath date log.nextFileIndex) (content ++ line)
    (by simp [rotateLocked, openLogFile, closeForRotation, old])
  simp only [List.length_append, rotateLocked_config] at long
  omega

end GLog

/-- The settings under which the background thread rotates its files by size. -/
structure LogConfig.RotatesFiles (config : LogConfig) : Prop where
  asynchronous : config.asyncMode = true
  toFile : hasFlag config.targets targetFile = true
  bySize : config.rotatePolicy = .size
  counted : 1 ≤ config.maxFileCount

theorem logStart_accounted {config : LogConfig} (settings : config.RotatesFiles) (date : Tm)
    (totalBytes totalEntries : UInt64) :
    (logStart config date 0 totalBytes totalEntries fun _ => none).Accounted date := by
  rw [logStart, if_pos settings.toFile]
  have counted := settings.counted
  constructor
  · exact settings.bySize
  · simp only [GLog.openLogFile_config]
    exact counted
  · rfl
  · exact ⟨[], by simp [GLog.openLogFile], rfl⟩
  · intro path content stored
    by_cases same : path = config.logFilepath date 0
    · have empty : content = [] := by simpa [GLog.openLogFile, same] using stored.symm
      simp [empty]
    · simp [GLog.openLogFile, same] at stored
  · intro path stored
    by_cases same : path = config.logFilepath date 0
    · refine ⟨0, ?_, same⟩
      simp only [GLog.openLogFile_config]
      omega
    · simp [GLog.openLogFile, same] at stored

/-- What every round keeps: the settings and an open file. -/
structure GLog.Underway (config : LogConfig) (log : GLog) : Prop where
  config : log.config = config
  opened : log.logFile ≠ none

theorem logStart_underway {config : LogConfig} (settings : config.RotatesFiles) (date : Tm)
    (totalBytes totalEntries : UInt64) :
    (logStart config date 0 totalBytes totalEntries fun _ => none).Underway config := by
  rw [logStart, if_pos settings.toFile]
  exact ⟨GLog.openLogFile_config _ _ _, by simp [GLog.openLogFile]⟩

theorem GLog.Underway.round {config : LogConfig} {localtime : Nat → Tm}
    {date : Tm} {log next : GLog}
    {output : LogEntry × Bool} (settings : config.RotatesFiles) (underway : log.Underway config)
    (round : log.asyncOutput localtime date output = some next) : next.Underway config := by
  obtain ⟨written, done, rfl⟩ :=
    GLog.asyncOutput_eq_some (by rw [underway.config, settings.toFile]) round
  constructor
  · exact (GLog.outputFile_config done).trans underway.config
  · have opened := GLog.outputFile_opened underway.opened done
    exact opened

/-- What the rounds keep as long as none rotates back to an old file. -/
structure GLog.Orderly (config : LogConfig) (date : Tm) (log : GLog) : Prop where
  underway : log.Underway config
  accounted : log.Accounted date

/-- Along every sequence of entries that fit into a file and of which none rotates back to
a file that is still there, the files keep the limits; and a rotation back to a file
without the room for the line breaks them. -/
theorem rotation_keeps_limits (localtime : Nat → Tm) (date : Tm) (config : LogConfig)
    (settings : config.RotatesFiles) (totalBytes totalEntries : UInt64) :
    (∀ log, Arrives (GLog.asyncOutput localtime date)
      (fun log output => log.EntryFits localtime output.1 ∧
        log.RotatesToNew localtime date output.1)
      (logStart config date 0 totalBytes totalEntries fun _ => none) log → log.WithinLimits) ∧
    ∀ log entry line content next, Arrives (GLog.asyncOutput localtime date)
      (fun log output => log.EntryFits localtime output.1)
      (logStart config date 0 totalBytes totalEntries fun _ => none) log →
      formatEntry localtime log.config.format 4096 entry = some line →
      log.exceeds line = true →
      log.files (log.config.logFilepath date log.nextFileIndex) = some content →
      log.config.maxFileSize.toNat < content.length + line.length →
      log.asyncOutput localtime date (entry, true) = some next → ¬ next.WithinLimits := by
  constructor
  · intro log reached
    have orderly : log.Orderly config date := by
      refine reached.keeps ⟨logStart_underway settings date totalBytes totalEntries,
        logStart_accounted settings date totalBytes totalEntries⟩ ?_
      intro state output next holds admitted round
      refine ⟨holds.underway.round settings round, ?_⟩
      have same := holds.underway.config
      obtain ⟨written, done, rfl⟩ := GLog.asyncOutput_eq_some (by rw [same, settings.toFile]) round
      have positive : 1 ≤ state.config.maxFileCount := by
        rw [same]
        exact settings.counted
      exact (holds.accounted.outputFile positive admitted.1 admitted.2 done).counted_entry
    exact orderly.accounted.withinLimits
  · intro log entry line content next reached formatted exceeds old full round
    have underway : log.Underway config := by
      refine reached.keeps (logStart_underway settings date totalBytes totalEntries) ?_
      intro state output next holds _ round
      exact holds.round settings round
    exact GLog.overflow_of_reopened (by rw [underway.config, settings.toFile]) underway.opened
      formatted exceeds old full round

/-- The settings of a small asynchronous log with two files of ten bytes. -/
def smallAsyncConfig : LogConfig := { smallConfig with maxFileCount := 2, asyncMode := true }

theorem smallAsyncConfig_settings : smallAsyncConfig.RotatesFiles := ⟨rfl, rfl, rfl, by decide⟩

theorem helloCall_formatted :
    formatEntry (fun _ => someDate) smallAsyncConfig.format 4096 helloCall.entry =
      some (text "hello\n") := rfl

/-- Two entries of six bytes, the second one in a file of its own. -/
theorem rotation_keeps_limits_two_files :
    ∃ log, follow (GLog.asyncOutput (fun _ => someDate) someDate)
      (logStart smallAsyncConfig someDate 0 0 0 fun _ => none)
      [(helloCall.entry, true), (helloCall.entry, true)] = some log ∧ log.currentFileIndex = 1 ∧
      log.WithinLimits := by
  refine ⟨_, rfl, rfl, (rotation_keeps_limits (fun _ => someDate) someDate smallAsyncConfig
    smallAsyncConfig_settings 0 0).1
      _ ((Arrives.start.next (helloCall.entry, true) ⟨?_, ?_⟩ rfl).next
      (helloCall.entry, true) ⟨?_, ?_⟩ rfl)⟩
  all_goals
    intro line formatted
    cases helloCall_formatted.symm.trans formatted
  · decide
  · decide
  · decide
  · exact ⟨by decide, fun _ => rfl⟩

/-- The third entry of six bytes goes to the first file again, which then holds twelve. -/
theorem third_entry_breaks_limit :
    ¬ ∀ log, Arrives (GLog.asyncOutput (fun _ => someDate) someDate)
      (fun log output => log.EntryFits (fun _ => someDate) output.1)
      (logStart smallAsyncConfig someDate 0 0 0 fun _ => none) log → log.WithinLimits := by
  intro limits
  have fits : ∀ log : GLog, log.config = smallAsyncConfig →
      log.EntryFits (fun _ => someDate) helloCall.entry := by
    intro log same line formatted
    rw [same] at formatted ⊢
    cases helloCall_formatted.symm.trans formatted
    decide
  have within := limits _ (((Arrives.start.next (helloCall.entry, true) (fits _ rfl) rfl).next
    (helloCall.entry, true) (fits _ rfl) rfl).next (helloCall.entry, true) (fits _ rfl) rfl)
  have long := within.1 (smallAsyncConfig.logFilepath someDate 0) (text "hello\nhello\n") rfl
  revert long
  decide

end LinuxCLearning.LogSystem
