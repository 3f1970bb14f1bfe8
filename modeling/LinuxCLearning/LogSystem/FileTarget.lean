import LinuxCLearning.LogSystem.Format

/-! The file target of the log system: the part of `g_log` that belongs to it, the
files of the log directory, and the pieces of `output_file`, `open_log_file` and
`log_rotate` between which other threads may run. -/

namespace LinuxCLearning.LogSystem

/-- `log_rotate_policy_t`. -/
inductive RotatePolicy where
  | none | size | time | both
  deriving DecidableEq

/-- `log_target_t`. -/
def targetConsole : UInt32 := 0x01
def targetFile : UInt32 := 0x02
def targetSyslog : UInt32 := 0x04
def targetCallback : UInt32 := 0x08

/-- `log_config_t`, without the callback. -/
structure LogConfig where
  level : LogLevel
  targets : UInt32
  format : UInt32
  logDir : CString
  logPrefix : CString
  maxFileSize : UInt64
  maxFileCount : Int
  rotatePolicy : RotatePolicy
  asyncMode : Bool
  ringBufferSize : Nat

/-- `g_log` without the threads, and the files on disk. -/
structure GLog where
  config : LogConfig
  logFile : Option CString
  currentFileIndex : Nat
  currentFileSize : UInt64
  totalBytes : UInt64
  totalEntries : UInt64
  files : CString → Option Bytes

/-- The path that `open_log_file` prints into `log_filepath[512]`. -/
def LogConfig.logFilepath (config : LogConfig) (date : Tm) (index : Nat) : CString :=
  CString.ofBuffer ((config.logDir.bytes ++ text "/" ++ config.logPrefix.bytes ++ text "_" ++
    padded 4 (date.tmYear + 1900) ++ padded 2 (date.tmMon + 1) ++
      padded 2 date.tmMday ++ text "_" ++
    padded 6 index ++ text ".log").take 511)

/-- The policies that rotate by size. -/
def LogConfig.rotatesBySize (config : LogConfig) : Bool :=
  config.rotatePolicy = .size || config.rotatePolicy = .both

namespace GLog

/-- `open_log_file` on a date. `opens` is the outcome of `fopen`, which creates a
missing file and keeps what an old one holds. -/
def openLogFile (log : GLog) (date : Tm) (opens : Bool) : GLog :=
  let path := log.config.logFilepath date log.currentFileIndex
  if opens then
    { log with
      logFile := some path
      currentFileSize := 0
      files := Function.update log.files path (some ((log.files path).getD [])) }
  else { log with logFile := none }

/-- The index of `log_rotate`. -/
def nextFileIndex (log : GLog) : Nat :=
  if (log.currentFileIndex + 1 : Int) ≥ log.config.maxFileCount then 0 else log.currentFileIndex + 1

/-- `log_rotate` from its lock up to the `fopen`: the next index and the old file closed. -/
def closeForRotation (log : GLog) : GLog :=
  { log with currentFileIndex := log.nextFileIndex, logFile := none }

/-- `log_rotate` between its lock and its unlock. -/
def rotateLocked (log : GLog) (date : Tm) (opens : Bool) : GLog :=
  log.closeForRotation.openLogFile date opens

/-- The test of `output_file` in front of `log_rotate`. -/
def exceeds (log : GLog) (line : Bytes) : Bool :=
  log.config.rotatesBySize &&
    decide (log.currentFileSize + UInt64.ofNat line.length > log.config.maxFileSize)

/-- `output_file` from its `fwrite` on; a null `log_file` ends the process. -/
def appendLine (log : GLog) (line : Bytes) : Option GLog :=
  log.logFile.map fun path =>
    { log with
      files := Function.update log.files path (some ((log.files path).getD [] ++ line))
      currentFileSize := log.currentFileSize + UInt64.ofNat line.length
      totalBytes := log.totalBytes + UInt64.ofNat line.length }

@[simp] theorem openLogFile_config (log : GLog) (date : Tm) (opens : Bool) :
    (log.openLogFile date opens).config = log.config := by
  unfold openLogFile
  split <;> rfl

@[simp] theorem closeForRotation_config (log : GLog) : log.closeForRotation.config = log.config :=
  rfl

@[simp] theorem rotateLocked_config (log : GLog) (date : Tm) (opens : Bool) :
    (log.rotateLocked date opens).config = log.config := by
  simp [rotateLocked]

theorem appendLine_eq_some {log next : GLog} {line : Bytes}
    (appended : log.appendLine line = some next) :
    ∃ path, log.logFile = some path ∧ next = { log with
      files := Function.update log.files path (some ((log.files path).getD [] ++ line))
      currentFileSize := log.currentFileSize + UInt64.ofNat line.length
      totalBytes := log.totalBytes + UInt64.ofNat line.length } := by
  obtain ⟨path, opened, rfl⟩ := Option.map_eq_some_iff.mp appended
  exact ⟨path, opened, rfl⟩

end GLog

/-- `g_log` after a `log_init` that returned 0. -/
def logStart (config : LogConfig) (date : Tm) (index : Nat) (totalBytes totalEntries : UInt64)
    (files : CString → Option Bytes) : GLog :=
  let log : GLog := ⟨config, none, index, 0, totalBytes, totalEntries, files⟩
  if hasFlag config.targets targetFile then log.openLogFile date true else log

end LinuxCLearning.LogSystem
