import LinuxCLearning.Base.Ctype
import LinuxCLearning.Base.Files

/-! The file server's logger. Every call runs under `log_mutex`, so that the calls of
all threads come one after the other: a line is written, and a file that has reached
the maximal size is rotated. -/

namespace LinuxCLearning.FileServer

/-- `log_level_t`. -/
inductive ServerLogLevel where
  | debug | info | warn | error | fatal
  deriving DecidableEq

def ServerLogLevel.code : ServerLogLevel → Nat
  | debug => 0
  | info => 1
  | warn => 2
  | error => 3
  | fatal => 4

/-- `level_strings`. -/
def levelString : ServerLogLevel → Bytes
  | .debug => text "DEBUG"
  | .info => text "INFO "
  | .warn => text "WARN "
  | .error => text "ERROR"
  | .fatal => text "FATAL"

/-- The variables of the logger and the files on disk. -/
structure ServerLog where
  currentLevel : ServerLogLevel
  logFp : Bool
  logFilepath : Bytes
  rotateMaxSize : Int
  rotateMaxFiles : Int
  files : Files Bytes Bytes

/-- A log call: its level, the text of the clock and the formatted message. -/
structure LogCall where
  level : ServerLogLevel
  timeStr : Bytes
  message : Bytes

/-- The line that a call writes. -/
def LogCall.line (call : LogCall) : Bytes :=
  text "[" ++ call.timeStr ++ text "] [" ++ levelString call.level ++ text "] " ++
    call.message ++ text "\n"

/-- The path that `log_init` prints into `log_filepath[512]`, blanks and colons replaced. -/
def initialPath (logDir timeStr : Bytes) : Bytes :=
  ((logDir ++ text "/server_" ++ timeStr ++ text ".log").take 511).map fun byte =>
    if byte = 32 ∨ byte = 58 then 45 else byte

/-- The path of a numbered file, as printed into `old_path[512]` and `new_path[512]`. -/
def numberedPath (logFilepath : Bytes) (number : Int) : Bytes :=
  (logFilepath ++ text "." ++ signedDecimal number).take 511

namespace ServerLog

/-- `fopen(log_filepath, "a")`. -/
def reopen (log : ServerLog) : ServerLog :=
  { log with
    logFp := true
    files := Function.update log.files log.logFilepath
      (some ((log.files log.logFilepath).getD [])) }

/-- The loop of `log_check_rotate` over the numbered files. -/
def renameNumbered (log : ServerLog) (files : Files Bytes Bytes) : Files Bytes Bytes :=
  Files.renameUp (fun number => numberedPath log.logFilepath number)
    (log.rotateMaxFiles - 1).toNat files

/-- `log_check_rotate`. -/
def logCheckRotate (log : ServerLog) : ServerLog :=
  if log.logFp = false ∨ log.rotateMaxSize ≤ 0 then log
  else
    match log.files log.logFilepath with
    | none => log
    | some content =>
      if (content.length : Int) ≥ log.rotateMaxSize then
        let removed := log.files.remove (numberedPath log.logFilepath log.rotateMaxFiles)
        let renamed := log.renameNumbered removed
        { log with
          files := renamed.rename log.logFilepath (numberedPath log.logFilepath 1) }.reopen
      else log

/-- The output of `log_write_impl` to the file. -/
def printLine (log : ServerLog) (line : Bytes) : ServerLog :=
  if log.logFp then
    { log with
      files := Function.update log.files log.logFilepath
        (some ((log.files log.logFilepath).getD [] ++ line)) }
  else log

/-- `log_write_impl`. -/
def logWriteImpl (log : ServerLog) (call : LogCall) : ServerLog :=
  if call.level.code < log.currentLevel.code then log
  else (log.printLine call.line).logCheckRotate

end ServerLog

/-- The logger of a server after `log_init` in an empty directory and `log_set_rotate`. -/
def startLog (logDir timeStr : Bytes) (level : ServerLogLevel) (maxSize maxFiles : Int) :
    ServerLog where
  currentLevel := level
  logFp := true
  logFilepath := initialPath logDir timeStr
  rotateMaxSize := maxSize
  rotateMaxFiles := maxFiles
  files := Function.update (fun _ => none) (initialPath logDir timeStr) (some [])

/-- What the files are to keep: those closed so far, oldest first, and the one in use,
which is closed as soon as it has reached the maximal size. -/
structure LogHistory where
  closed : List Bytes
  current : Bytes

def LogHistory.write (maxSize : Int) (history : LogHistory) (line : Bytes) : LogHistory :=
  if ((history.current ++ line).length : Int) ≥ maxSize then
    ⟨history.closed ++ [history.current ++ line], []⟩
  else ⟨history.closed, history.current ++ line⟩

theorem LogHistory.write_all (maxSize : Int) (history : LogHistory) (line : Bytes) :
    (history.write maxSize line).closed.flatten ++ (history.write maxSize line).current =
      history.closed.flatten ++ history.current ++ line := by
  unfold write
  split <;> simp

theorem LogHistory.foldl_all (maxSize : Int) (history : LogHistory) (lines : List Bytes) :
    (lines.foldl (LogHistory.write maxSize) history).closed.flatten ++
        (lines.foldl (LogHistory.write maxSize) history).current =
      history.closed.flatten ++ history.current ++ lines.flatten := by
  induction lines generalizing history with
  | nil => simp
  | cons line lines ih =>
    rw [List.foldl_cons, ih, LogHistory.write_all, List.flatten_cons, List.append_assoc]

/-- The lines of the calls that pass the level. -/
def loggedLines (level : ServerLogLevel) (calls : List LogCall) : List Bytes :=
  (calls.filter fun call => decide (level.code ≤ call.level.code)).map LogCall.line

/-- The numbered files from the highest number down, and then the current one. -/
def ServerLog.onDisk (log : ServerLog) (kept : Nat) : Bytes :=
  (List.range kept).flatMap (fun place =>
    (log.files (numberedPath log.logFilepath (kept - place : Nat))).getD []) ++
  (log.files log.logFilepath).getD []

section Names
variable {path : Bytes} {limit : Nat}

theorem numberedPath_whole (short : path.length ≤ 500) {number : Nat} (small : number < 2 ^ 31) :
    numberedPath path number = path ++ text "." ++ decimal number := by
  apply List.take_of_length_le
  have digits := @decimal_length number 9 (lt_trans small (by decide))
  rw [List.length_append, List.length_append]
  simp only [signedDecimal]
  have dot : (text ".").length = 1 := rfl
  omega

theorem numberedPath_distinct (short : path.length ≤ 500) (small : limit < 2 ^ 31) :
    Files.DistinctTo (fun number => numberedPath path number) limit := by
  intro first second _ firstSmall _ secondSmall same
  simp only at same
  rw [numberedPath_whole short (by omega), numberedPath_whole short (by omega)] at same
  exact decimal_injective (List.append_cancel_left same)

theorem numberedPath_apart (short : path.length ≤ 500) (small : limit < 2 ^ 31) (number : Nat)
    (_ : 1 ≤ number) (within : number ≤ limit) : path ≠ numberedPath path number := by
  rw [numberedPath_whole short (by omega), List.append_assoc]
  intro same
  have lengths := congrArg List.length same
  have dot : (text ".").length = 1 := rfl
  simp only [List.length_append] at lengths
  omega

theorem initialPath_length {logDir timeStr : Bytes} (shortDir : logDir.length < 256)
    (shortTime : timeStr.length < 64) : (initialPath logDir timeStr).length ≤ 500 := by
  have front : (text "/server_").length = 8 := rfl
  have back : (text ".log").length = 4 := rfl
  simp only [initialPath, List.length_map, List.length_take, List.length_append]
  omega

end Names

/-- The settings of a logger whose numbered files all have names of their own. -/
structure RotateSettings where
  path : Bytes
  level : ServerLogLevel
  maxSize : Int
  maxFiles : Nat
  short : path.length ≤ 500
  positive : 0 < maxSize
  someFiles : 1 ≤ maxFiles
  small : maxFiles < 2 ^ 31

/-- A logger with these settings whose files are those of a history. -/
structure ServerLog.Keeps (settings : RotateSettings) (history : LogHistory) (log : ServerLog) :
    Prop where
  opened : log.logFp = true
  path : log.logFilepath = settings.path
  level : log.currentLevel = settings.level
  maxSize : log.rotateMaxSize = settings.maxSize
  maxFiles : log.rotateMaxFiles = settings.maxFiles
  shelved : Files.Shelved (fun number => numberedPath settings.path number) settings.path
    settings.maxFiles history.closed (some history.current) log.files

section Step
variable {settings : RotateSettings} {history : LogHistory} {log : ServerLog}

theorem RotateSettings.apart (settings : RotateSettings) (number : Nat) (positive : 1 ≤ number)
    (within : number ≤ settings.maxFiles) : settings.path ≠ numberedPath settings.path number :=
  numberedPath_apart settings.short settings.small number positive within

namespace ServerLog

theorem Keeps.printLine (keeps : log.Keeps settings history) (line : Bytes) :
    (log.printLine line).Keeps settings ⟨history.closed, history.current ++ line⟩ := by
  obtain ⟨opened, path, level, maxSize, maxFiles, shelved⟩ := keeps
  rw [ServerLog.printLine, if_pos opened, path, shelved.inUse]
  exact ⟨opened, rfl, level, maxSize, maxFiles, shelved.write settings.apart _⟩

theorem Keeps.rotated (keeps : log.Keeps settings history) :
    (log.renameNumbered (log.files.remove (numberedPath log.logFilepath log.rotateMaxFiles))).rename
        log.logFilepath (numberedPath log.logFilepath 1) =
      Files.rotate (fun number => numberedPath settings.path number) settings.path settings.maxFiles
        log.files := by
  rw [renameNumbered, keeps.path, keeps.maxFiles]
  have counter : ((settings.maxFiles : Int) - 1).toNat = settings.maxFiles - 1 := by omega
  rw [counter]
  rfl

theorem Keeps.logCheckRotate (keeps : log.Keeps settings history) :
    log.logCheckRotate.Keeps settings
      (if (history.current.length : Int) ≥ settings.maxSize then
        ⟨history.closed ++ [history.current], []⟩ else history) := by
  have active : ¬ (log.logFp = false ∨ log.rotateMaxSize ≤ 0) := by
    have positive := settings.positive
    rw [keeps.opened, keeps.maxSize]
    simp only [Bool.true_eq_false, false_or]
    omega
  have present : log.files log.logFilepath = some history.current := by
    rw [keeps.path]
    exact keeps.shelved.inUse
  rw [ServerLog.logCheckRotate, if_neg active, present]
  simp only [keeps.maxSize]
  split
  · have rotated := keeps.shelved.rotate (numberedPath_distinct settings.short settings.small)
      settings.apart settings.someFiles
    rw [← keeps.rotated] at rotated
    refine ⟨rfl, keeps.path, keeps.level, rfl, keeps.maxFiles, ?_⟩
    simp only [reopen]
    rw [keeps.path] at rotated ⊢
    rw [rotated.inUse]
    exact rotated.write settings.apart []
  · exact keeps

theorem Keeps.logWriteImpl (keeps : log.Keeps settings history) (call : LogCall) :
    (log.logWriteImpl call).Keeps settings
      (if call.level.code < settings.level.code then history
        else history.write settings.maxSize call.line) := by
  rw [ServerLog.logWriteImpl, keeps.level]
  split
  · exact keeps
  · exact (keeps.printLine call.line).logCheckRotate

theorem Keeps.calls (keeps : log.Keeps settings history) (calls : List LogCall) :
    (calls.foldl ServerLog.logWriteImpl log).Keeps settings
      ((loggedLines settings.level calls).foldl (LogHistory.write settings.maxSize) history) := by
  induction calls generalizing log history with
  | nil => exact keeps
  | cons call calls ih =>
    have next := ih (keeps.logWriteImpl call)
    by_cases below : call.level.code < settings.level.code
    · simpa [loggedLines, below] using next
    · simpa [loggedLines, below, Nat.le_of_not_lt below] using next

theorem Keeps.numbered (keeps : log.Keeps settings history) {number : Nat} (positive : 1 ≤ number)
    (within : number ≤ min settings.maxFiles history.closed.length) :
    log.files (numberedPath log.logFilepath number) =
      history.closed[history.closed.length - number]? := by
  have shelved := keeps.shelved.numbered (number - 1) (by omega)
  rw [Nat.sub_add_cancel positive] at shelved
  rw [keeps.path, shelved, List.getElem?_reverse (by omega)]
  congr 1
  omega

theorem Keeps.present_iff (keeps : log.Keeps settings history) (path : Bytes) :
    log.files path ≠ none ↔ path = log.logFilepath ∨ ∃ number : Nat, 1 ≤ number ∧
      number ≤ min settings.maxFiles history.closed.length ∧
      path = numberedPath log.logFilepath number := by
  constructor
  · intro present
    by_contra absent
    push Not at absent
    obtain ⟨notCurrent, unnumbered⟩ := absent
    rw [keeps.path] at notCurrent unnumbered
    apply present
    apply keeps.shelved.others path notCurrent
    intro number positive within same
    have shelved := keeps.shelved.numbered (number - 1) (by omega)
    rw [Nat.sub_add_cancel positive, ← same] at shelved
    refine unnumbered number positive ?_ same
    by_contra beyond
    rw [List.getElem?_eq_none (by rw [List.length_reverse]; omega)] at shelved
    exact present shelved
  · intro found
    rcases found with rfl | ⟨number, positive, within, rfl⟩
    · rw [keeps.path, keeps.shelved.inUse]
      exact Option.some_ne_none _
    · rw [keeps.numbered positive within, List.getElem?_eq_getElem (by omega)]
      exact Option.some_ne_none _

theorem Keeps.onDisk (keeps : log.Keeps settings history) :
    log.onDisk (min settings.maxFiles history.closed.length) =
      (history.closed.drop (history.closed.length -
        min settings.maxFiles history.closed.length)).flatten ++
        history.current := by
  have current : (log.files log.logFilepath).getD [] = history.current := by
    rw [keeps.path, keeps.shelved.inUse]
    rfl
  rw [ServerLog.onDisk, current, List.flatMap_def]
  congr 2
  apply List.ext_getElem
  · simp only [List.length_map, List.length_range, List.length_drop]
    omega
  · intro place inside _
    simp only [List.length_map, List.length_range] at inside
    rw [List.getElem_map, List.getElem_range, keeps.numbered (by omega) (by omega),
      List.getElem?_eq_getElem (by omega), List.getElem_drop, Option.getD_some]
    congr 1
    omega

end ServerLog

end Step

theorem startLog_keeps (logDir timeStr : Bytes) (settings : RotateSettings)
    (path : settings.path = initialPath logDir timeStr) :
    (startLog logDir timeStr settings.level settings.maxSize settings.maxFiles).Keeps settings
      ⟨[], []⟩ := by
  refine ⟨rfl, path.symm, rfl, rfl, rfl, ?_⟩
  have empty : Files.Shelved (fun number => numberedPath settings.path number) settings.path
      settings.maxFiles ([] : List Bytes) none (fun _ => none) :=
    ⟨rfl, fun _ _ => rfl, fun _ _ _ => rfl⟩
  rw [startLog, ← path]
  exact empty.write settings.apart []

/-- After any calls of a server's logger, there are the current file and the numbers up to
some bound that is at most the maximal one; read from the highest number on they are
the end of everything written, and what is missing are the oldest of the closed files. -/
theorem log_rotation_keeps_end (logDir timeStr : Bytes) (level : ServerLogLevel)
    (maxSize maxFiles : Int)
    (shortDir : logDir.length < 256) (shortTime : timeStr.length < 64) (positive : 0 < maxSize)
    (someFiles : 1 ≤ maxFiles) (small : maxFiles < 2 ^ 31) (calls : List LogCall) :
    let log := calls.foldl ServerLog.logWriteImpl (startLog logDir timeStr level maxSize maxFiles)
    let lines := loggedLines level calls
    let closed := (lines.foldl (LogHistory.write maxSize) ⟨[], []⟩).closed
    ∃ kept : Nat, kept ≤ maxFiles ∧
      (∀ path, log.files path ≠ none ↔ path = log.logFilepath ∨ ∃ number : Nat, 1 ≤ number ∧
        number ≤ kept ∧ path = numberedPath log.logFilepath number) ∧
      (∀ number : Nat, 1 ≤ number → number ≤ kept →
        log.files (numberedPath log.logFilepath number) = closed[closed.length - number]?) ∧
      log.onDisk kept <:+ lines.flatten ∧
      lines.flatten = (closed.take (closed.length - kept)).flatten ++ log.onDisk kept := by
  intro log lines closed
  obtain ⟨limit, rfl⟩ := Int.eq_ofNat_of_zero_le (show 0 ≤ maxFiles by omega)
  let settings : RotateSettings := {
    path := initialPath logDir timeStr
    level, maxSize, positive
    maxFiles := limit
    short := initialPath_length shortDir shortTime
    someFiles := by omega
    small := by omega }
  have keeps := (startLog_keeps logDir timeStr settings rfl).calls calls
  have all := LogHistory.foldl_all maxSize ⟨[], []⟩ lines
  have whole : lines.flatten = (closed.take (closed.length - min limit closed.length)).flatten ++
      log.onDisk (min limit closed.length) := by
    have disk := keeps.onDisk
    rw [disk, ← List.append_assoc, ← List.flatten_append, List.take_append_drop]
    exact all.symm
  refine ⟨min limit closed.length, ?_, keeps.present_iff, ?_, ⟨_, whole.symm⟩, whole⟩
  · exact_mod_cast min_le_left limit closed.length
  · intro number one within
    exact keeps.numbered one within

/-- Three calls of a logger that closes a file after every line and keeps two of them. -/
theorem log_rotation_keeps_end_two_files :
    let calls := [text "a", text "b", text "c"].map fun message =>
      (⟨.info, text "t", message⟩ : LogCall)
    let log := calls.foldl ServerLog.logWriteImpl (startLog (text "./log") (text "t") .info 1 2)
    log.onDisk 2 = text "[t] [INFO ] b\n[t] [INFO ] c\n" ∧
    ∃ kept : Nat, kept ≤ (2 : Int) ∧ log.onDisk kept <:+ (loggedLines .info calls).flatten := by
  intro calls log
  obtain ⟨kept, few, -, -, suffix, -⟩ := log_rotation_keeps_end (text "./log") (text "t") .info 1 2
    (by decide) (by decide) (by decide) (by decide) (by decide) calls
  exact ⟨by decide +kernel, kept, few, suffix⟩

end LinuxCLearning.FileServer
