import LinuxCLearning.SerialTool.Serial

/-! Receiving over the serial port, and `script_send_recv`: the bytes that arrive are
collected until the expected text is among them, the buffer is full or the time is over. -/

namespace LinuxCLearning.SerialTool

/-- What a `read` delivers: the kernel transfers so many bytes at once and no more. -/
structure Chunk where
  bytes : Bytes
  counted : bytes.length ≤ 0x7ffff000
  deriving DecidableEq

/-- What `serial_recv` meets: bytes, the end of its time or an interruption, or an error. -/
inductive RecvResult where
  | data (chunk : Chunk)
  | idle
  | failed
  deriving DecidableEq

/-- `serial_recv`: the value that it returns, and the bytes that it stores at `buf`. -/
def serialRecv (port : SerialPort) (maxLen : Nat) (result : RecvResult) : Int × Bytes :=
  if port.isOpen then
    match result with
    | .data chunk => (Int.bmod (chunk.bytes.take maxLen).length (2 ^ 32), chunk.bytes.take maxLen)
    | .idle => (0, [])
    | .failed => (-1, [])
  else (-1, [])

/-- A store into a buffer, `none` when a byte would fall outside. -/
def storeInside (buffer : Bytes) (position : Nat) (bytes : Bytes) : Option Bytes :=
  if position + bytes.length ≤ buffer.length then
    some (buffer.take position ++ bytes ++ buffer.drop (position + bytes.length))
  else none

/-- How receiving ends: with a value and the contents of `recv_buf`, not before the next call
of `serial_recv` returns, with a byte written outside `recv_buf`, or with `elapsed` beyond an
`int`. -/
inductive RecvEnd where
  | returned (value : Int) (recvBuf : Bytes)
  | waiting
  | outside
  | overflow
  deriving DecidableEq

/-- Some text is expected. -/
def expects : Option CString → Bool
  | some expected => expected.bytes ≠ []
  | none => false

/-- `strstr` finds the expected text in `recv_buf`. -/
def found (expected : Option CString) (recvBuf : Bytes) : Bool :=
  match expected with
  | some expected => expected.bytes <:+: (CString.ofBuffer recvBuf).bytes
  | none => false

/-- One call of `serial_recv` in the loop: `total` and `recv_buf` behind it, and whether the
expected text is there; `none` when a byte is written outside. -/
def recvStep (port : SerialPort) (expected : Option CString) (total : Nat) (recvBuf : Bytes)
    (result : RecvResult) :
    Option (Nat × Bytes × Bool) :=
  let received := serialRecv port (recvBuf.length - 1 - total) result
  (storeInside recvBuf total received.2).bind fun recvBuf =>
    if 0 < received.1 then
      let total := total + received.1.toNat
      (storeInside recvBuf total [0]).map fun recvBuf =>
        (total, recvBuf, expects expected && found expected recvBuf)
    else some (total, recvBuf, false)

/-- `script_send_recv` behind its loop. -/
def finishRecv (expected : Option CString) (total : Nat) (recvBuf : Bytes) : RecvEnd :=
  match storeInside recvBuf total [0] with
  | none => .outside
  | some recvBuf =>
    if expects expected && !found expected recvBuf then .returned (-2) recvBuf
    else .returned (Int.bmod total (2 ^ 32)) recvBuf

/-- The loop of `script_send_recv`. -/
def recvLoop (port : SerialPort) (expected : Option CString) (timeoutMs : Int32) :
    Nat → Int → Bytes → List RecvResult → RecvEnd
  | total, elapsed, recvBuf, [] =>
    if elapsed < timeoutMs.toInt ∧ total < recvBuf.length - 1 then .waiting
    else finishRecv expected total recvBuf
  | total, elapsed, recvBuf, result :: results =>
    if elapsed < timeoutMs.toInt ∧ total < recvBuf.length - 1 then
      match recvStep port expected total recvBuf result with
      | none => .outside
      | some (total, recvBuf, true) => .returned (Int.bmod total (2 ^ 32)) recvBuf
      | some (total, recvBuf, false) =>
        if elapsed + 100 < 2 ^ 31 then recvLoop port expected timeoutMs total
          (elapsed + 100) recvBuf results
        else .overflow
    else finishRecv expected total recvBuf

/-- `serial_send_str`. -/
def serialSendStr (port : Option SerialPort) (str : Option CString) (writes : List WriteResult) :
    Transmission :=
  match str with
  | some str => serialSend port (some str.bytes) writes
  | none => .returns (-1)

/-- What `script_send_recv` has done: the bytes on the port, the writes to the log, and how it
ends. -/
structure Exchange where
  sent : Bytes
  logged : List Bytes
  ended : RecvEnd
  deriving DecidableEq

/-- `script_send_recv`; a null argument is `none`, and `recv_size` is the size of the buffer. -/
def scriptSendRecv (port : Option SerialPort) (send : Option CString) (recvBuf : Option Bytes)
    (expected : Option CString)
    (timeoutMs : Int32) (writes : List WriteResult) (results : List RecvResult) : Exchange :=
  match port with
  | none => ⟨[], [], .returned (-1) (recvBuf.getD [])⟩
  | some port =>
    let sending := match send with
      | some send =>
        if send.bytes ≠ [] then serialSendStr (some port) (some send) writes else .returns 0
      | none => .returns 0
    match sending.result with
    | none => ⟨sending.sent, sending.logged, .waiting⟩
    | some ret =>
      if ret < 0 then ⟨sending.sent, sending.logged, .returned (-1) (recvBuf.getD [])⟩
      else
        match recvBuf with
        | none => ⟨sending.sent, sending.logged, .returned 0 []⟩
        | some recvBuf =>
          if recvBuf.length = 0 then ⟨sending.sent, sending.logged, .returned 0 recvBuf⟩
          else ⟨sending.sent, sending.logged, recvLoop port expected timeoutMs 0 0 recvBuf results⟩

/-- The bytes that a call of `serial_recv` has for a buffer of any size. -/
def delivered (port : SerialPort) : RecvResult → Bytes
  | .data chunk => if port.isOpen then chunk.bytes else []
  | .idle | .failed => []

/-- What the first calls of `serial_recv` deliver behind some bytes, cut where the buffer is
full. -/
def collected (port : SerialPort) (limit : Nat) (start : Bytes) (results : List RecvResult)
    (calls : Nat) : Bytes :=
  (start ++ (results.take calls).flatMap (delivered port)).take limit

/-- The calls of `serial_recv` that there is time for. -/
def recvCalls (timeoutMs : Int) : Nat := ((timeoutMs + 99) / 100).toNat

section Receiving
variable {port : SerialPort} {pattern : CString} {received recvBuf : Bytes}

/-- Bytes stored behind the front of a buffer that has room for them. -/
theorem storeInside_behind {bytes : Bytes} (front : received <+: recvBuf)
    (inside : received.length + bytes.length ≤ recvBuf.length) :
    ∃ rest, storeInside recvBuf received.length bytes = some (received ++ bytes ++ rest) ∧
      (received ++ bytes ++ rest).length = recvBuf.length := by
  obtain ⟨behind, rfl⟩ := front
  refine ⟨behind.drop bytes.length, ?_, ?_⟩
  · rw [storeInside, if_pos inside, List.take_left, List.drop_append,
      List.drop_of_length_le (Nat.le_add_right _ _),
      Nat.add_sub_cancel_left, List.nil_append]
  · rw [List.length_append] at inside
    rw [List.length_append, List.length_append, List.length_drop, List.length_append]
    omega

/-- `serial_recv` stores what there is room for, and returns a positive number exactly if that
is something. -/
theorem serialRecv_spec (maxLen : Nat) (result : RecvResult) :
    (serialRecv port maxLen result).2 = (delivered port result).take maxLen ∧
      if (delivered port result).take maxLen = [] then (serialRecv port maxLen result).1 ≤ 0
      else (serialRecv port maxLen result).1 = ((delivered port result).take maxLen).length := by
  cases opened : port.isOpen with
  | false =>
    have nothing : delivered port result = [] := by cases result <;> simp [delivered, opened]
    rw [serialRecv.eq_def, opened, nothing, List.take_nil]
    exact ⟨rfl, by simp⟩
  | true =>
    rw [serialRecv.eq_def, if_pos opened]
    cases result with
    | idle => exact ⟨List.take_nil.symm, by simp [delivered]⟩
    | failed => exact ⟨List.take_nil.symm, by simp [delivered]⟩
    | data chunk =>
      have all : delivered port (.data chunk) = chunk.bytes := if_pos opened
      have short : (chunk.bytes.take maxLen).length ≤ 0x7ffff000 :=
        (List.length_take_le' _ _).trans chunk.counted
      have counted : Int.bmod (chunk.bytes.take maxLen).length (2 ^ 32) =
          (chunk.bytes.take maxLen).length := by
        apply Int.bmod_eq_of_le
        · omega
        · omega
      rw [all]
      refine ⟨rfl, ?_⟩
      split
      · rename_i empty
        simp [empty]
      · dsimp only
        rw [counted]

theorem found_front (nulFree : 0 ∉ received) (rest : Bytes) :
    found (some pattern) (received ++ [0] ++ rest) = decide (pattern.bytes <:+: received) := by
  have terminated : (CString.ofBuffer (received ++ [0] ++ rest)).bytes = received := by
    rw [List.append_assoc]
    exact takeWhile_nulFree nulFree rest
  rw [found, terminated]

/-- One call adds to the bytes at the front of `recv_buf` what it delivers, as far as there is
room, and finds the expected text exactly if it is among them now. -/
theorem recvStep_spec (front : received <+: recvBuf) (room : received.length < recvBuf.length - 1)
    (nulFree : 0 ∉ received) (some_pattern : pattern.bytes ≠ [])
    (absent : ¬pattern.bytes <:+: received)
    {result : RecvResult} (visible : 0 ∉ delivered port result) :
    ∃ next : Bytes, next.length = recvBuf.length ∧
      (received ++ delivered port result).take (recvBuf.length - 1) <+: next ∧
      recvStep port (some pattern) received.length recvBuf result =
        some (((received ++ delivered port result).take (recvBuf.length - 1)).length, next,
          decide (pattern.bytes <:+:
            (received ++ delivered port result).take (recvBuf.length - 1))) := by
  have expected : expects (some pattern) = true := decide_eq_true some_pattern
  have cut : (received ++ delivered port result).take (recvBuf.length - 1) =
      received ++ (delivered port result).take (recvBuf.length - 1 - received.length) := by
    rw [List.take_append, List.take_of_length_le room.le]
  obtain ⟨stored, value⟩ := @serialRecv_spec port (recvBuf.length - 1 - received.length) result
  have visible_part : 0 ∉ (delivered port result).take (recvBuf.length - 1 - received.length) :=
    fun member => visible (List.mem_of_mem_take member)
  have size : ((delivered port result).take (recvBuf.length - 1 - received.length)).length ≤
      recvBuf.length - 1 - received.length := List.length_take_le _ _
  rw [cut, recvStep, stored]
  generalize (delivered port result).take (recvBuf.length - 1 - received.length) = added at *
  obtain ⟨rest, first, length⟩ := @storeInside_behind received recvBuf added front (by omega)
  rw [first, Option.bind_some]
  by_cases empty : added = []
  · rw [if_pos empty] at value
    rw [if_neg (not_lt.mpr value)]
    refine ⟨_, length, List.prefix_append _ _, ?_⟩
    rw [empty, List.append_nil, decide_eq_false absent]
  · rw [if_neg empty] at value
    have positive : 0 < added.length := List.length_pos_iff.mpr empty
    obtain ⟨behind, second, length'⟩ :=
      @storeInside_behind _ _ [0] (List.prefix_append (received ++ added) rest)
      (by rw [length, List.length_append, List.length_singleton]; omega)
    refine ⟨_, length'.trans length, by rw [List.append_assoc]; exact List.prefix_append _ _, ?_⟩
    rw [value, if_pos (by omega), Int.toNat_natCast, ← List.length_append]
    dsimp only
    rw [second, Option.map_some, expected, found_front (by simp [nulFree, visible_part]),
      Bool.true_and]

/-- How receiving ends for a text that is not there at the beginning, by what the first calls
deliver: the text is among it for the first time behind some call; or it is not behind the
last one, and either there is nothing that has to be waited for longer than an `int` counts,
or the last call counts beyond it. -/
inductive Receives (pattern : Bytes) (limit : Nat) (timeout : Int) (collected : Nat → Bytes)
    (calls : Nat) : RecvEnd → Prop where
  | found {call : Nat} {recvBuf : Bytes} (within : call < calls)
      (before : ¬pattern <:+: collected call)
      (now : pattern <:+: collected (call + 1)) :
      Receives pattern limit timeout collected calls
        (.returned (Int.bmod (collected (call + 1)).length (2 ^ 32)) recvBuf)
  | mismatch {recvBuf : Bytes} (absent : ¬pattern <:+: collected calls)
      (counted : timeout ≤ 2147483600 ∨ limit ≤ (collected (calls - 1)).length) :
      Receives pattern limit timeout collected calls (.returned (-2) recvBuf)
  | overflow (absent : ¬pattern <:+: collected calls) (late : 2147483600 < timeout)
      (open_end : (collected (calls - 1)).length < limit) :
      Receives pattern limit timeout collected calls .overflow

theorem collected_zero (limit : Nat) (results : List RecvResult) :
    collected port limit received results 0 = received.take limit := by
  rw [collected, List.take_zero, List.flatMap_nil, List.append_nil]

theorem take_append_take {first second : Bytes} {limit : Nat} :
    (first.take limit ++ second).take limit = (first ++ second).take limit := by
  rcases le_total first.length limit with short | long
  · rw [List.take_of_length_le short]
  · rw [List.take_append_of_le_length (by rw [List.length_take]; omega),
      List.take_append_of_le_length long,
      List.take_take, min_self]

/-- The calls behind the first one go on from what that one leaves. -/
theorem collected_succ (limit : Nat) (result : RecvResult)
    (results : List RecvResult) (calls : Nat) :
    collected port limit received (result :: results) (calls + 1) =
      collected port limit ((received ++ delivered port result).take limit) results calls := by
  rw [collected, collected, take_append_take, List.take_succ_cons,
    List.flatMap_cons, List.append_assoc]

theorem collected_one (limit : Nat) (result : RecvResult) (results : List RecvResult) :
    collected port limit received (result :: results) 1 =
      (received ++ delivered port result).take limit := by
  rw [collected_succ, collected_zero, List.take_take, min_self]

theorem collected_full {limit : Nat} (full : received.length = limit)
    (results : List RecvResult) (calls : Nat) :
    collected port limit received results calls = received := by
  rw [collected, List.take_append_of_le_length full.ge, List.take_of_length_le full.le]

/-- Without the expected text in `recv_buf`, what follows the loop returns -2. -/
theorem finishRecv_absent (front : received <+: recvBuf) (room : received.length < recvBuf.length)
    (nulFree : 0 ∉ received)
    (some_pattern : pattern.bytes ≠ []) (absent : ¬pattern.bytes <:+: received) :
    ∃ final, finishRecv (some pattern) received.length recvBuf = .returned (-2) final := by
  have expected : expects (some pattern) = true := decide_eq_true some_pattern
  obtain ⟨rest, stored, -⟩ := @storeInside_behind received recvBuf [0] front room
  refine ⟨received ++ [0] ++ rest, ?_⟩
  rw [finishRecv, stored]
  dsimp only
  rw [found_front nulFree, decide_eq_false absent, expected]
  rfl

theorem recvCalls_pos {timeout : Int} (left : 0 < timeout) : 0 < recvCalls timeout := by
  rw [recvCalls]
  omega

theorem recvCalls_later {timeout : Int} {count : Nat} (left : 100 * (count : Int) < timeout) :
    recvCalls (timeout - 100 * count) = recvCalls (timeout - 100 * (count + 1 : Nat)) + 1 := by
  rw [recvCalls, recvCalls]
  omega

/-- No call is left only when the time is over. -/
theorem recvCalls_eq_zero {timeout : Int} (none_left : recvCalls timeout = 0) : timeout ≤ 0 := by
  by_contra left
  exact (recvCalls_pos (not_le.mp left)).ne' none_left

theorem recvCalls_zero {timeout : Int} (late : timeout ≤ 0) : recvCalls timeout = 0 := by
  rw [recvCalls]
  omega

theorem finishRecv_receives (timeoutMs : Int32) (results : List RecvResult) {count : Nat}
    (counted : 100 * count ≤ 2147483600)
    (front : received <+: recvBuf) (room : received.length < recvBuf.length)
    (nulFree : 0 ∉ received)
    (some_pattern : pattern.bytes ≠ []) (absent : ¬pattern.bytes <:+: received)
    (done : ¬(100 * (count : Int) < timeoutMs.toInt ∧ received.length < recvBuf.length - 1)) :
    Receives pattern.bytes (recvBuf.length - 1) timeoutMs.toInt
      (collected port (recvBuf.length - 1) received results)
      (recvCalls (timeoutMs.toInt - 100 * count))
        (finishRecv (some pattern) received.length recvBuf) := by
  have whole : received.take (recvBuf.length - 1) = received :=
    List.take_of_length_le (Nat.le_sub_one_of_lt room)
  obtain ⟨final, returned⟩ := finishRecv_absent front room nulFree some_pattern absent
  rw [returned]
  rcases not_and_or.mp done with late | full
  · have none_left : recvCalls (timeoutMs.toInt - 100 * count) = 0 := recvCalls_zero (by omega)
    rw [none_left]
    refine .mismatch ?_ (.inl (by omega))
    rw [collected_zero, whole]
    exact absent
  · have all : received.length = recvBuf.length - 1 := by omega
    refine .mismatch ?_ (.inr ?_)
    · rw [collected_full all]
      exact absent
    · rw [collected_full all]
      exact all.ge

theorem Receives.later {pattern : Bytes} {limit calls : Nat} {timeout : Int}
    {before behind : Nat → Bytes} {ended : RecvEnd}
    (ends : Receives pattern limit timeout behind calls ended)
    (shifted : ∀ calls, before (calls + 1) = behind calls)
    (in_time : calls = 0 → timeout ≤ 2147483600) :
      Receives pattern limit timeout before (calls + 1) ended := by
  cases ends with
  | found within absent now =>
    rw [← shifted] at absent now ⊢
    exact .found (Nat.succ_lt_succ within) absent now
  | mismatch absent counted =>
    refine .mismatch (by rw [shifted]; exact absent) ?_
    cases calls with
    | zero => exact .inl (in_time rfl)
    | succ calls =>
      rw [Nat.add_sub_cancel, shifted]
      exact counted
  | overflow absent late open_end =>
    refine .overflow (by rw [shifted]; exact absent) late ?_
    cases calls with
    | zero => exact absurd (in_time rfl) (not_le.mpr late)
    | succ calls =>
      rw [Nat.add_sub_cancel, shifted]
      exact open_end

section Calls
variable {sought : Bytes} {limit calls : Nat} {timeout : Int} {result : RecvResult}
  {results : List RecvResult}

theorem receives_found (some_left : 0 < calls) (inside : received.length ≤ limit)
    (absent : ¬sought <:+: received)
    (now : sought <:+: (received ++ delivered port result).take limit) (next : Bytes) :
    Receives sought limit timeout (collected port limit received (result :: results)) calls
      (.returned (Int.bmod ((received ++ delivered port result).take limit).length (2 ^ 32))
        next) := by
  have first := @collected_one port received limit result results
  have found : Receives sought limit timeout
      (collected port limit received (result :: results)) calls
      (.returned (Int.bmod (collected port limit received (result :: results) (0 + 1)).length
          (2 ^ 32)) next) := by
    apply Receives.found some_left
    · rw [collected_zero, List.take_of_length_le inside]
      exact absent
    · rw [first]
      exact now
  rw [first] at found
  exact found

/-- The last call counts the time beyond an `int`. -/
theorem receives_overflow (inside : received.length < limit)
    (absent : ¬sought <:+: (received ++ delivered port result).take limit)
    (late : 2147483600 < timeout) :
    Receives sought limit timeout
      (collected port limit received (result :: results)) 1 .overflow := by
  apply Receives.overflow _ late
  · rw [Nat.sub_self, collected_zero, List.take_of_length_le inside.le]
    exact inside
  · rw [collected_one]
    exact absent

theorem received_nulFree (nulFree : 0 ∉ received) (visible : 0 ∉ delivered port result) :
    0 ∉ (received ++ delivered port result).take limit := by
  intro member
  rcases List.mem_append.mp (List.mem_of_mem_take member) with old | new
  · exact nulFree old
  · exact visible new

end Calls

/-- The run of the loop behind some calls, by induction on the results of those that are left. -/
theorem recvLoop_receives (timeoutMs : Int32) (results : List RecvResult) {count : Nat}
    (counted : 100 * count ≤ 2147483600)
    (front : received <+: recvBuf) (room : received.length < recvBuf.length)
    (nulFree : 0 ∉ received) (some_pattern : pattern.bytes ≠ [])
    (absent : ¬pattern.bytes <:+: received)
    (visible : ∀ result ∈ results, 0 ∉ delivered port result)
    (enough : recvCalls (timeoutMs.toInt - 100 * count) ≤ results.length) :
    Receives pattern.bytes (recvBuf.length - 1) timeoutMs.toInt
      (collected port (recvBuf.length - 1) received results)
      (recvCalls (timeoutMs.toInt - 100 * count))
      (recvLoop port (some pattern) timeoutMs received.length (100 * count) recvBuf results) := by
  induction results generalizing count received recvBuf with
  | nil =>
    rw [recvLoop]
    split
    · rename_i going
      have some_left : 0 < recvCalls (timeoutMs.toInt - 100 * count) := recvCalls_pos (by omega)
      rw [List.length_nil] at enough
      omega
    · rename_i done
      exact finishRecv_receives timeoutMs [] counted front room nulFree some_pattern absent done
  | cons result results ih =>
    rw [recvLoop]
    split
    · rename_i going
      have shown := visible result List.mem_cons_self
      obtain ⟨next, size, front', step⟩ :=
        recvStep_spec front going.2 nulFree some_pattern absent shown
      have left := recvCalls_later going.1
      rw [step]
      by_cases now : pattern.bytes <:+:
        (received ++ delivered port result).take (recvBuf.length - 1)
      · rw [decide_eq_true now]
        exact receives_found (by omega) (Nat.le_sub_one_of_lt room) absent now next
      rw [decide_eq_false now, left]
      dsimp only
      have bound := timeoutMs.toInt_lt
      split
      · rename_i counted'
        have elapsed : (100 * (count : Int) + 100) = 100 * (count + 1 : Nat) := by
          push_cast
          ring
        rw [elapsed]
        refine Receives.later ?_ (fun calls => collected_succ _ result results calls) ?_
        · rw [← size] at front' now ⊢
          refine ih (by omega) front' ?_ (received_nulFree nulFree shown) now ?_ ?_
          · rw [List.length_take]
            omega
          · exact fun other member => visible other (List.mem_cons_of_mem _ member)
          · rw [List.length_cons] at enough
            omega
        · intro none_left
          have late := recvCalls_eq_zero none_left
          omega
      · have none_left : recvCalls (timeoutMs.toInt - 100 * (count + 1 : Nat)) = 0 :=
          recvCalls_zero (by omega)
        rw [none_left]
        exact receives_overflow going.2 now (by omega)
    · rename_i done
      exact finishRecv_receives timeoutMs (result :: results) counted front room nulFree
        some_pattern absent done

theorem collected_mono (limit : Nat) (results : List RecvResult) {first second : Nat}
    (earlier : first ≤ second) :
    collected port limit received results first <+:
      collected port limit received results second := by
  obtain ⟨later, front⟩ := List.take_prefix_take_left earlier (l := results)
  rw [collected, collected, ← front, List.flatMap_append, ← List.append_assoc]
  apply List.IsPrefix.take
  exact List.prefix_append _ _

/-- What lets `script_send_recv` answer: if the text is in what is delivered, the number of the
bytes that there are when it first is, as an `int`, is not negative; and if it is not, there
is a call for which `elapsed` does not go beyond an `int`. -/
def Answerable (pattern : Bytes) (limit : Nat) (timeout : Int) (collected : Nat → Bytes)
    (calls : Nat) : Prop :=
  (∃ call < calls, ¬pattern <:+: collected call ∧ pattern <:+: collected (call + 1) ∧
      (collected (call + 1)).length % 2 ^ 32 < 2 ^ 31) ∨
    (¬pattern <:+: collected calls ∧
      (timeout ≤ 2147483600 ∨ limit ≤ (collected (calls - 1)).length))

theorem bmod_nonneg (count : Nat) : 0 ≤ Int.bmod count (2 ^ 32) ↔ count % 2 ^ 32 < 2 ^ 31 := by
  rw [Int.bmod]
  split
  · omega
  · omega

theorem serialRecv_nonneg (opened : port.isOpen = true) (maxLen : Nat) {result : RecvResult}
    (success : result ≠ .failed) :
    0 ≤ (serialRecv port maxLen result).1 := by
  rw [serialRecv.eq_def, if_pos opened]
  cases result with
  | data chunk =>
    have short : (chunk.bytes.take maxLen).length ≤ 0x7ffff000 :=
      (List.length_take_le' _ _).trans chunk.counted
    dsimp only
    rw [bmod_nonneg]
    omega
  | idle => exact le_rfl
  | failed => exact absurd rfl success

/-- Receiving that ends so gives the right answer exactly if there is one. -/
theorem Receives.answers_iff {pattern : Bytes} {limit calls : Nat} {timeout : Int}
    {collected : Nat → Bytes} {ended : RecvEnd}
    (ends : Receives pattern limit timeout collected calls ended)
    (grows : ∀ {first second}, first ≤ second → collected first <+: collected second) :
    (∃ value recvBuf, ended = .returned value recvBuf ∧ (0 ≤ value ↔ pattern <:+: collected calls) ∧
        (¬pattern <:+: collected calls → value = -2)) ↔
      Answerable pattern limit timeout collected calls := by
  have stays {first second : Nat} (earlier : first ≤ second)
      (present : pattern <:+: collected first) :
      pattern <:+: collected second := present.trans (grows earlier).isInfix
  cases ends with
  | @found call recvBuf within before now =>
    have present := stays within now
    constructor
    · rintro ⟨value, final, returned, answer, -⟩
      rw [RecvEnd.returned.injEq] at returned
      rw [← returned.1] at answer
      exact .inl ⟨call, within, before, now, (bmod_nonneg _).mp (answer.mpr present)⟩
    · rintro (⟨other, -, before', now', small⟩ | ⟨absent, -⟩)
      · have same : other = call := by
          by_contra different
          rcases Nat.lt_or_gt_of_ne different with less | more
          · exact before (stays less now')
          · exact before' (stays more now)
        rw [same] at small
        exact ⟨_, recvBuf, rfl, iff_of_true ((bmod_nonneg _).mpr small) present,
          fun absent => absurd present absent⟩
      · exact absurd present absent
  | @mismatch recvBuf absent counted =>
    exact iff_of_true ⟨-2, recvBuf, rfl, iff_of_false (by decide) absent, fun _ => rfl⟩
      (.inr ⟨absent, counted⟩)
  | overflow absent late open_end =>
    constructor
    · rintro ⟨value, recvBuf, ⟨⟩, -⟩
    · rintro (⟨call, within, -, now, -⟩ | ⟨-, in_time | full⟩)
      · exact absurd (stays within now) absent
      · omega
      · omega

theorem sendRecv_silent {send : Option CString}
    (silent : ∀ string, send = some string → string.bytes = [])
    (some_room : recvBuf ≠ []) (expected : Option CString) (timeoutMs : Int32)
    (writes : List WriteResult) (results : List RecvResult) :
    scriptSendRecv (some port) send (some recvBuf) expected timeoutMs writes results =
      ⟨[], [], recvLoop port expected timeoutMs 0 0 recvBuf results⟩ := by
  have size : recvBuf.length ≠ 0 := fun empty => some_room (List.length_eq_zero_iff.mp empty)
  cases send with
  | none =>
    rw [scriptSendRecv]
    simp [Transmission.returns, size]
  | some string =>
    have empty := silent string rfl
    rw [scriptSendRecv]
    simp [Transmission.returns, size, empty]

/-- The run of `script_send_recv` for a text to expect and nothing to send. -/
theorem sendRecv_receives {send : Option CString}
    (silent : ∀ string, send = some string → string.bytes = [])
    (some_pattern : pattern.bytes ≠ []) (room : 2 ≤ recvBuf.length) (timeoutMs : Int32)
    (writes : List WriteResult)
    {results : List RecvResult} (visible : ∀ chunk, .data chunk ∈ results → 0 ∉ chunk.bytes)
    (enough : recvCalls timeoutMs.toInt ≤ results.length) :
    Receives pattern.bytes (recvBuf.length - 1) timeoutMs.toInt
      (collected port (recvBuf.length - 1) [] results)
      (recvCalls timeoutMs.toInt)
      (scriptSendRecv (some port) send (some recvBuf) (some pattern) timeoutMs
        writes results).ended := by
  have some_room : recvBuf ≠ [] := by
    rintro rfl
    cases room
  have from_start : timeoutMs.toInt - 100 * (0 : Nat) = timeoutMs.toInt := by simp
  have plain : ∀ result ∈ results, 0 ∉ delivered port result := by
    intro result member
    cases result with
    | data chunk =>
      rw [delivered]
      split
      · exact visible chunk member
      · exact List.not_mem_nil
    | idle => exact List.not_mem_nil
    | failed => exact List.not_mem_nil
  rw [sendRecv_silent silent some_room]
  have run := @recvLoop_receives port pattern [] recvBuf timeoutMs results 0
    (by decide) List.nil_prefix
    (by rw [List.length_nil]; omega) List.not_mem_nil some_pattern
      (fun inside => some_pattern (List.infix_nil.mp inside))
    plain (by rw [from_start]; exact enough)
  rw [from_start] at run
  exact run

/-- `script_send_recv` with nothing to send writes inside `recv_buf`, and returns a
non-negative number if the expected text is in what the calls that there is time for deliver,
cut to the size of the buffer, and -2 otherwise, exactly if it can answer. -/
theorem sendRecv_answers_iff {send : Option CString}
    (silent : ∀ string, send = some string → string.bytes = [])
    (some_pattern : pattern.bytes ≠ []) (room : 2 ≤ recvBuf.length) (timeoutMs : Int32)
    (writes : List WriteResult)
    {results : List RecvResult} (visible : ∀ chunk, .data chunk ∈ results → 0 ∉ chunk.bytes)
    (enough : recvCalls timeoutMs.toInt ≤ results.length) :
    (scriptSendRecv (some port) send (some recvBuf) (some pattern) timeoutMs writes results).ended ≠
      .outside ∧
      ((∃ value final,
          (scriptSendRecv (some port) send (some recvBuf) (some pattern) timeoutMs writes
            results).ended = .returned value final ∧
          (0 ≤ value ↔ pattern.bytes <:+: collected port (recvBuf.length - 1) [] results
            (recvCalls timeoutMs.toInt)) ∧
          (¬pattern.bytes <:+: collected port (recvBuf.length - 1) [] results
            (recvCalls timeoutMs.toInt) → value = -2)) ↔
        Answerable pattern.bytes (recvBuf.length - 1) timeoutMs.toInt
          (collected port (recvBuf.length - 1) [] results)
          (recvCalls timeoutMs.toInt)) := by
  have ends := @sendRecv_receives port _ _ _ silent some_pattern room timeoutMs
    writes _ visible enough
  refine ⟨?_, ends.answers_iff (collected_mono _ _)⟩
  generalize (scriptSendRecv _ _ _ _ _ _ _).ended = ended at ends
  rintro rfl
  cases ends

/-- A text that no call delivers is waited for beyond an `int`, when there is so much time. -/
theorem sendRecv_overflows (some_pattern : pattern.bytes ≠ [])
    (room : 2 ≤ recvBuf.length) {timeoutMs : Int32}
    (late : 2147483600 < timeoutMs.toInt) (writes : List WriteResult) {results : List RecvResult}
    (silent : ∀ result ∈ results, result = .idle)
    (enough : recvCalls timeoutMs.toInt ≤ results.length) :
    (scriptSendRecv (some port) none (some recvBuf) (some pattern) timeoutMs writes results).ended =
      .overflow ∧
      collected port (recvBuf.length - 1) [] results (recvCalls timeoutMs.toInt) = [] := by
  have nothing (calls : Nat) : collected port (recvBuf.length - 1) [] results calls = [] := by
    have empty : (results.take calls).flatMap (delivered port) = [] := by
      apply List.flatMap_eq_nil_iff.mpr
      intro result member
      rw [silent result (List.mem_of_mem_take member)]
      rfl
    rw [collected, empty, List.append_nil, List.take_nil]
  have absent (calls : Nat) : ¬pattern.bytes <:+: collected port (recvBuf.length - 1)
      [] results calls := by
    rw [nothing, List.infix_nil]
    exact some_pattern
  have no_data : ∀ chunk, .data chunk ∈ results → 0 ∉ chunk.bytes := by
    intro chunk member
    cases silent _ member
  have ends := @sendRecv_receives port _ _ none (by simp) some_pattern room timeoutMs
    writes _ no_data enough
  refine ⟨?_, nothing _⟩
  generalize (scriptSendRecv _ _ _ _ _ _ _).ended = ended at ends
  cases ends with
  | found within before now => exact absurd now (absent _)
  | mismatch missing counted =>
    rw [nothing, List.length_nil] at counted
    omega
  | overflow => rfl

end Receiving

theorem pattern_nulFree : 0 ∉ text "ok" := by decide +kernel

/-- A text that arrives in two parts. -/
theorem sendRecv_answers_iff_parts :
    ∃ value final,
      (scriptSendRecv (some ⟨true, false⟩) none (some [0, 0, 0, 0, 0])
        (some ⟨text "ok", pattern_nulFree⟩) 200 []
        [.data ⟨text "no", by decide +kernel⟩, .data ⟨text "k", by decide +kernel⟩]).ended =
          .returned value final := by
  obtain ⟨value, final, returned, -⟩ :=
    (@sendRecv_answers_iff ⟨true, false⟩ ⟨text "ok", pattern_nulFree⟩ [0, 0, 0, 0, 0] none
      (by simp) (by decide +kernel)
      (by decide) 200 [] [.data ⟨text "no", by decide +kernel⟩, .data ⟨text "k", by decide +kernel⟩]
      (by simp [text]) (by decide +kernel)).2.mpr
        (.inl ⟨1, by decide +kernel, by decide +kernel, by decide +kernel, by decide +kernel⟩)
  exact ⟨value, final, returned⟩

/-- Nothing arrives for the longest time that an `int` holds: the answer should be -2, and
`elapsed` overflows. -/
theorem sendRecv_longest :
    (scriptSendRecv (some ⟨true, false⟩) none (some [0, 0])
        (some ⟨text "ok", pattern_nulFree⟩) 2147483647 []
        (List.replicate 21474837 .idle)).ended = .overflow ∧
      recvCalls (Int32.toInt 2147483647) = (List.replicate 21474837 RecvResult.idle).length ∧
      ¬text "ok" <:+: collected ⟨true, false⟩ 1 [] (List.replicate 21474837 .idle)
        (recvCalls (Int32.toInt 2147483647)) := by
  have calls : recvCalls (Int32.toInt 2147483647) =
      (List.replicate 21474837 RecvResult.idle).length := by
    rw [List.length_replicate]
    decide +kernel
  obtain ⟨ended, nothing⟩ :=
    @sendRecv_overflows ⟨true, false⟩ ⟨text "ok", pattern_nulFree⟩ [0, 0] (by decide +kernel)
    (by decide) 2147483647 (by decide +kernel) []
      _ (fun result member => List.eq_of_mem_replicate member) calls.le
  refine ⟨ended, calls, ?_⟩
  have empty : collected ⟨true, false⟩ 1 [] (List.replicate 21474837 .idle)
    (recvCalls (Int32.toInt 2147483647)) = [] := nothing
  rw [empty]
  decide +kernel

end LinuxCLearning.SerialTool
