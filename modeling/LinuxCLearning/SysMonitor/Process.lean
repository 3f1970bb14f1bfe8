import LinuxCLearning.Base.Lines
import LinuxCLearning.Base.Strtol

/-! The processes of the system monitor: `process_read` takes each of them from the files under
`/proc`. -/

namespace LinuxCLearning.SysMonitor

/-- `proc_info_t`. The time in clock ticks, as an `unsigned long`, stands for the percentage that
is computed from it. -/
structure ProcInfo where
  pid : Int
  ppid : Int
  user : Bytes
  state : UInt8
  vmRss : Nat
  vmSize : Nat
  cpuTicks : Nat
  command : Bytes
  name : Bytes
  nice : Int

/-- The files of a process, `none` where one cannot be opened, and what is in memory before:
in `comm`, and in `stat_line` behind the line. -/
structure ProcFiles where
  stat : Option Bytes
  status : Option Bytes
  cmdline : Option Bytes
  comm : CharArray 256
  behind : Bytes

/-- What `process_read` takes from the system: the size of a page, the names of the users, the
files of the processes, and the order that `qsort` gives. -/
structure SystemView where
  pageSize : Int
  passwd : Nat → Option Bytes
  files : Int → ProcFiles
  sorted : List ProcInfo → List ProcInfo

/-- What the fields of a stat line set. -/
structure StatFields where
  state : UInt8
  ppid : Int
  utime : Nat
  stime : Nat
  niceVal : Int
  vsize : Nat
  rss : Int

/-- The `switch` on the number of a field. -/
def statField (info : StatFields) (field : Nat) (token : Bytes) : StatFields :=
  match field with
  | 1 => { info with state := token.headD 0 }
  | 2 => { info with ppid := atoi token }
  | 14 => { info with utime := strtoul token }
  | 15 => { info with stime := strtoul token }
  | 18 => { info with niceVal := atoi token }
  | 23 => { info with vsize := strtoul token }
  | 24 => { info with rss := strtol token }
  | _ => info

/-- The loop over the tokens. -/
def statFields : (field : Nat) → List Bytes → StatFields → StatFields
  | _, [], info => info
  | field, token :: tokens, info =>
    if field < 39 then statFields (field + 1) tokens (statField info (field + 1) token) else info

/-- The conversion `%d`: the number, and what follows it. -/
def scanInt (input : Bytes) : Option (Int × Bytes) :=
  let trimmed := input.dropWhile isspace
  let unsigned := if trimmed.head? = some 45 ∨ trimmed.head? = some 43 then
    trimmed.tail else trimmed
  let digits := unsigned.takeWhile fun byte => decide (48 ≤ byte ∧ byte ≤ 57)
  if digits = [] then none else some (atoi trimmed, unsigned.drop digits.length)

/-- `sscanf(stat_line, "%d (%255[^)])", ...)`: the number and the name, where they are read. -/
def scanStat (statLine : Bytes) : Option Int × Option Bytes :=
  match scanInt statLine with
  | none => (none, none)
  | some (pid, rest) =>
    match rest.dropWhile isspace with
    | 40 :: rest => (some pid, (scanSet 255 (· != 41) rest).map (·.1))
    | _ => (some pid, none)

/-- The name: `comm`, cut to the size of the field. -/
def commName (comm : CharArray 256) (scanned : Option Bytes) : Bytes :=
  let written := match scanned with
    | some scanned => scanned ++ 0 :: comm.bytes.drop (scanned.length + 1)
    | none => comm.bytes
  (CString.ofBuffer (written.take 63)).bytes

/-- The number in a line of the status file that begins with `Uid:`. -/
def scanUid (line : Bytes) : Option Nat :=
  if text "Uid:" <+: line then
    match scanInt (line.drop 4) with
    | some _ => some (strtoul (line.drop 4) % 2 ^ 32)
    | none => none
  else none

/-- `get_username`, into a buffer of the given size. -/
def getUsername (system : SystemView) (uid buflen : Nat) : Bytes :=
  ((system.passwd uid).getD (decimal uid)).take (buflen - 1)

/-- The loop over the lines of the status file. -/
def readUser (system : SystemView) (input : Bytes) : Bytes :=
  if input = [] then []
  else
    let line := fgetsLine 255 input
    match scanUid (CString.ofBuffer line).bytes with
    | some uid => getUsername system uid 32
    | none => readUser system (input.drop line.length)
termination_by input.length
decreasing_by exact drop_line_lt ‹_›

/-- The command line, or the name in brackets. -/
def readCommand (cmdline : Option Bytes) (name : Bytes) : Bytes :=
  let command := (((cmdline.getD []).take 255).map fun byte => if byte = 0 then 32 else byte)
  if command = [] then (text "[" ++ name ++ text "]").take 63 else command

/-- What `strtok` begins with: two bytes behind the last parenthesis of a line. -/
def behindComm (statLine behind : Bytes) : Bytes :=
  (CString.ofBuffer ((statLine.rtakeWhile (· != 41) ++ 0 :: behind).drop 1)).bytes

/-- What the loop of `process_read` does for a process: the entry that it adds, if it does. -/
def readProcess (system : SystemView) (name : Bytes) : Option ProcInfo :=
  let pid := atoi name
  if pid ≤ 0 then none
  else
    let files := system.files pid
    match files.stat with
    | none => none
    | some stat =>
      let statLine := (CString.ofBuffer (fgetsLine 1023 stat)).bytes
      if stat = [] ∨ 41 ∉ statLine then none
      else
        let scanned := scanStat statLine
        let name := commName files.comm scanned.2
        let info := statFields 0 (words 32 (behindComm statLine files.behind)) ⟨0, 0, 0, 0, 0, 0, 0⟩
        some {
          pid := scanned.1.getD pid
          ppid := info.ppid
          user := (files.status.map (readUser system)).getD []
          state := info.state
          vmRss := (info.rss * system.pageSize % 2 ^ 64).toNat / 1024
          vmSize := info.vsize / 1024
          cpuTicks := (info.utime + info.stime) % 2 ^ 64
          command := readCommand files.cmdline name
          name
          nice := info.niceVal }

/-- The loop of `process_read` over the entries of `/proc`. -/
def readProcesses (system : SystemView) : List Bytes → List ProcInfo → List ProcInfo
  | [], processes => processes
  | name :: names, processes =>
    if processes.length < 1024 then readProcesses system names
      (processes ++ (readProcess system name).toList)
    else processes

/-- `process_read`: the processes, `none` when `/proc` cannot be opened. -/
def processRead (system : SystemView) (entries : Option (List Bytes)) : Option (List ProcInfo) :=
  entries.map fun names => system.sorted (readProcesses system names [])

end LinuxCLearning.SysMonitor
