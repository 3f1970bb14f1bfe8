import LinuxCLearning.Base.Hex

/-! Sending over the serial port. What each `write` to the port does is chosen outside; a
call that has seen all of them and is not done goes on waiting. -/

namespace LinuxCLearning.SerialTool

/-- The fields of `serial_port_t` that sending reads; it is logged when `log_fd` is not
negative. -/
structure SerialPort where
  isOpen : Bool
  logging : Bool

/-- What a `write` to the port does: it takes some bytes, at most those it is given, or fails
with `EINTR`, with `EAGAIN` or `EWOULDBLOCK`, or with another error. -/
inductive WriteResult where
  | wrote (count : Nat)
  | interrupted
  | again
  | failed
  deriving DecidableEq

/-- The bytes that a `write` adds to those that the port has taken. -/
def WriteResult.count : WriteResult → Nat
  | .wrote count => count
  | .interrupted | .again | .failed => 0

/-- What a call has done: the bytes on the port, the writes to the log, and the value that it
returns, `none` while it goes on. -/
structure Transmission where
  sent : Bytes
  logged : List Bytes
  result : Option Int
  deriving DecidableEq

/-- A call that returns at once. -/
def Transmission.returns (result : Int) : Transmission := ⟨[], [], some result⟩

/-- `serial_send` behind its loop. -/
def SerialPort.finishSend (port : SerialPort) (data : Bytes) (totalSent : Nat) (sent : Bytes) :
    Transmission where
  sent
  logged := if port.logging then [text ">> ", data, text "\n"] else []
  result := some (Int.bmod totalSent (2 ^ 32))

/-- The loop of `serial_send`. -/
def SerialPort.sendLoop (port : SerialPort) (data : Bytes) :
    Nat → Bytes → List WriteResult → Transmission
  | totalSent, sent, [] =>
    if totalSent < data.length then ⟨sent, [], none⟩ else port.finishSend data totalSent sent
  | totalSent, sent, result :: results =>
    if totalSent < data.length then
      match result with
      | .wrote count =>
        let n := min count (data.length - totalSent)
        port.sendLoop data (totalSent + n) (sent ++ (data.drop totalSent).take n) results
      | .interrupted => port.sendLoop data totalSent sent results
      | .again => port.sendLoop data totalSent sent results
      | .failed => ⟨sent, [], some (-1)⟩
    else port.finishSend data totalSent sent

/-- `serial_send`; a null argument is `none`. -/
def serialSend (port : Option SerialPort) (data : Option Bytes) (results : List WriteResult) :
    Transmission :=
  match port, data with
  | some port, some data => if port.isOpen then port.sendLoop data 0 [] results else .returns (-1)
  | _, _ => .returns (-1)

def isBlank (byte : UInt8) : Bool := byte = 32 || byte = 9

/-- The characters that go into `hex`, and the string behind them. -/
def takeHex (first : UInt8) (p : Bytes) : Bytes × Bytes :=
  match p with
  | second :: rest => if isBlank second then ([first], p) else ([first, second], rest)
  | [] => ([first], [])

/-- What the loop of `serial_send_hex` puts into `buf` when it has room for so many bytes,
`none` when it finds an invalid character. -/
def hexBuffer : (room : Nat) → (p : Bytes) → Option Bytes
  | 0, _ => some []
  | room + 1, p =>
    match p.dropWhile isBlank with
    | [] => some []
    | first :: rest =>
      (strtolHex (takeHex first rest).1).bind fun val =>
        (hexBuffer room (takeHex first rest).2).map (UInt8.ofInt val :: ·)

/-- `serial_send_hex`. -/
def serialSendHex (port : Option SerialPort) (hexStr : Option CString)
    (results : List WriteResult) : Transmission :=
  match port, hexStr with
  | some port, some hexStr =>
    match hexBuffer 4096 hexStr.bytes with
    | none => .returns (-1)
    | some [] => .returns 0
    | some buf => serialSend (some port) (some buf) results
  | _, _ => .returns (-1)

/-- The number of bytes that the port takes before a `write` fails, were there enough. -/
def accepted (results : List WriteResult) : Nat :=
  ((results.takeWhile (· ≠ .failed)).map (·.count)).sum

section Sending
variable {port : SerialPort} {data : Bytes}

theorem accepted_cons {result : WriteResult} (success : result ≠ .failed)
    (results : List WriteResult) :
    accepted (result :: results) = result.count + accepted results := by
  rw [accepted, List.takeWhile_cons_of_pos (by simpa using success), List.map_cons,
    List.sum_cons, accepted]

theorem accepted_failed (results : List WriteResult) : accepted (.failed :: results) = 0 := rfl

theorem sendLoop_done (results : List WriteResult) (sent : Bytes) :
    port.sendLoop data data.length sent results = port.finishSend data data.length sent := by
  cases results with
  | nil => exact if_neg (lt_irrefl _)
  | cons result results => exact if_neg (lt_irrefl _)

/-- A `write` moves the loop on by what it takes, unless it fails. -/
theorem sendLoop_step {totalSent : Nat} (more : totalSent < data.length) {result : WriteResult}
    (success : result ≠ .failed) (results : List WriteResult) :
    port.sendLoop data totalSent (data.take totalSent) (result :: results) =
      port.sendLoop data (totalSent + min result.count (data.length - totalSent))
        (data.take (totalSent + min result.count (data.length - totalSent))) results := by
  have nothing : min 0 (data.length - totalSent) = 0 := Nat.zero_min _
  cases result with
  | wrote count =>
    rw [List.take_add]
    exact if_pos more
  | interrupted =>
    rw [WriteResult.count, nothing, Nat.add_zero]
    exact if_pos more
  | again =>
    rw [WriteResult.count, nothing, Nat.add_zero]
    exact if_pos more
  | failed => exact absurd rfl success

/-- The loop behind some bytes: either the port takes all that are left, or a `write` fails
before, or the loop goes on. -/
theorem sendLoop_eq (results : List WriteResult) {totalSent : Nat}
    (inside : totalSent ≤ data.length) :
    port.sendLoop data totalSent (data.take totalSent) results =
      if data.length ≤ totalSent + accepted results then port.finishSend data data.length data
      else ⟨data.take (totalSent + accepted results), [], if .failed ∈ results then
        some (-1) else none⟩ := by
  rcases eq_or_lt_of_le inside with rfl | more
  · rw [if_pos (Nat.le_add_right _ _), List.take_length, sendLoop_done]
  induction results generalizing totalSent with
  | nil =>
    rw [accepted, List.takeWhile_nil, List.map_nil, List.sum_nil, Nat.add_zero,
      if_neg (not_le.mpr more),
      if_neg List.not_mem_nil]
    exact if_pos more
  | cons result results ih =>
    by_cases failure : result = .failed
    · rw [failure, accepted_failed, Nat.add_zero, if_neg (not_le.mpr more),
        if_pos List.mem_cons_self]
      exact if_pos more
    · have later : WriteResult.failed ∈ result :: results ↔ .failed ∈ results :=
        List.mem_cons.trans (or_iff_right fun same => failure same.symm)
      rw [sendLoop_step more failure, accepted_cons failure]
      by_cases filled : data.length - totalSent ≤ result.count
      · have whole : totalSent + (data.length - totalSent) = data.length := by omega
        rw [min_eq_right filled, whole, List.take_length, sendLoop_done, if_pos (by omega)]
      · rw [min_eq_left (by omega), ih (by omega) (by omega), Nat.add_assoc]
        simp only [later]

/-- `serial_send` to an open port returns the number of bytes when the port takes them all;
otherwise the port has taken those in front of the failure or of the last outcome. -/
theorem serialSend_eq (opened : port.isOpen = true) (data : Bytes) (results : List WriteResult) :
    serialSend (some port) (some data) results =
      if data.length ≤ accepted results then port.finishSend data data.length data
      else ⟨data.take (accepted results), [], if .failed ∈ results then some (-1) else none⟩ := by
  have loop := @sendLoop_eq port data results 0 (Nat.zero_le _)
  rw [Nat.zero_add, List.take_zero] at loop
  rw [← loop]
  exact if_pos opened

end Sending

end LinuxCLearning.SerialTool
