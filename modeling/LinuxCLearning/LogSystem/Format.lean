import LinuxCLearning.Base.Ctype
import LinuxCLearning.LogSystem.AsyncLog

/-! The text of a log entry: the timestamp, the optional fields in front of the
message, and the lines of a hex dump. A buffer is filled by `snprintf` calls that each
start where the lengths returned so far add up to; a call that would start past the
end of its buffer writes into other memory, and there is no result. -/

namespace LinuxCLearning.LogSystem

/-- The fields of `struct tm` that the log system reads. -/
structure Tm where
  tmYear : Nat
  tmMon : Nat
  tmMday : Nat
  tmHour : Nat
  tmMin : Nat
  tmSec : Nat
  deriving DecidableEq

/-- `snprintf(buf + pos, size - pos, ...)`: the position it moves to and the string in
the buffer. -/
def snprintfAt (size : Nat) (buffer : Nat × Bytes) (piece : Bytes) : Option (Nat × Bytes) :=
  if size < buffer.1 then none
  else some (buffer.1 + piece.length, buffer.2 ++ piece.take (size - buffer.1 - 1))

/-- The string that a sequence of such calls leaves in a buffer. -/
def fillBuffer (size : Nat) (pieces : List Bytes) : Option Bytes :=
  (pieces.foldlM (snprintfAt size) (0, [])).map (·.2)

/-- `log_level_name`. -/
def logLevelName : LogLevel → Bytes
  | .trace => text "TRACE"
  | .debug => text "DEBUG"
  | .info => text "INFO"
  | .warn => text "WARN"
  | .error => text "ERROR"
  | .fatal => text "FATAL"
  | .off => text "OFF"

/-- `format_timestamp` into `timestamp[64]`. -/
def formatTimestamp (localtime : Nat → Tm) (timestamp : UInt64) : Bytes :=
  let sec := timestamp.toNat / 1000000
  let usec := timestamp.toNat % 1000000
  let tm := localtime sec
  (padded 4 (tm.tmYear + 1900) ++ text "-" ++ padded 2 (tm.tmMon + 1) ++ text "-" ++
    padded 2 tm.tmMday ++ text " " ++ padded 2 tm.tmHour ++ text ":" ++ padded 2 tm.tmMin ++
    text ":" ++ padded 2 tm.tmSec ++ text "." ++ padded 6 usec).take 63

/-- `log_format_t`. -/
def formatTime : UInt32 := 0x01
def formatLevel : UInt32 := 0x02
def formatTid : UInt32 := 0x04
def formatFile : UInt32 := 0x08
def formatLine : UInt32 := 0x10
def formatFunc : UInt32 := 0x20

/-- Whether a combination of options has one of them. -/
def hasFlag (options flag : UInt32) : Bool := options &&& flag != 0

/-- The texts that `format_entry` prints one after the other. -/
def formatPieces (localtime : Nat → Tm) (format : UInt32) (entry : LogEntry) : List Bytes :=
  (if hasFlag format formatTime then
    [text "[" ++ formatTimestamp localtime entry.timestamp ++ text "] "] else []) ++
  (if hasFlag format formatLevel then
    [text "[" ++ logLevelName entry.level ++
      List.replicate (5 - (logLevelName entry.level).length) 32 ++ text "] "] else []) ++
  (if hasFlag format formatTid then [text "[" ++ decimal entry.tid.toNat ++ text "] "] else []) ++
  (if hasFlag format formatFile then
    [text "[" ++ entry.file.bytes] ++
    (if hasFlag format formatLine then [text ":" ++ signedDecimal entry.line] else []) ++
    [text "] "]
  else if hasFlag format formatLine then [text "[:" ++ signedDecimal entry.line ++ text "] "]
  else []) ++
  (if hasFlag format formatFunc then [text "[" ++ entry.func.bytes ++ text "] "] else []) ++
  [entry.message.bytes ++ text "\n"]

/-- `format_entry`. -/
def formatEntry (localtime : Nat → Tm) (format : UInt32) (size : Nat) (entry : LogEntry) :
    Option Bytes := fillBuffer size (formatPieces localtime format entry)

/-- One hexadecimal digit as `%x` prints it. -/
def hexDigit (digit : Nat) : UInt8 := UInt8.ofNat (if digit < 10 then 48 + digit else 87 + digit)

/-- `%0*zx`. -/
def paddedHex (width : Nat) (number : Nat) : Bytes :=
  let digits := (Nat.digits 16 number).reverse.map hexDigit
  List.replicate (width - digits.length) 48 ++ digits

/-- The header that `log_hexdump` prints into `line[128]`. -/
def hexdumpHeader (label : CString) (data : Bytes) : Option Bytes :=
  fillBuffer 128 [label.bytes ++ text " [" ++ decimal data.length ++ text " bytes]:\n"]

/-- The line of `log_hexdump` for the sixteen bytes at an offset. -/
def hexdumpLine (data : Bytes) (offset : Nat) : Option Bytes :=
  let row := (data.drop offset).take 16
  fillBuffer 128 (
    [text "  " ++ paddedHex 4 offset ++ text ": "] ++
    (List.range 16).map (fun column =>
      match row[column]? with
      | some byte => paddedHex 2 byte.toNat ++ text " "
      | none => text "   ") ++
    [text " |"] ++
    row.map (fun byte => [if 32 ≤ byte ∧ byte < 127 then byte else 46]) ++
    [text "|"])

/-- The lines of `log_hexdump`, the header first. -/
def hexdumpLines (label : CString) (data : Bytes) : Option (List Bytes) := do
  let header ← hexdumpHeader label data
  let lines ← (List.range ((data.length + 15) / 16)).mapM fun row => hexdumpLine data (16 * row)
  return header :: lines

end LinuxCLearning.LogSystem
