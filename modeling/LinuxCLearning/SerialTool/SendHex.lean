import LinuxCLearning.SerialTool.Serial

/-! `serial_send_hex` against its notation: the texts in which every byte is written as two
hexadecimal digits, and those that it should refuse. -/

namespace LinuxCLearning.SerialTool

/-- Two digits, in either letter case, that stand for a byte. -/
structure DigitPair (high low byte : UInt8) : Prop where
  high : hexDigitValue high = some (byte.toNat / 16)
  low : hexDigitValue low = some (byte.toNat % 16)

/-- The texts for some bytes: two digits for each of them, and any number of blanks or tabs
between the bytes and around them. -/
inductive HexText : Bytes → Bytes → Prop where
  | nil {blanks : Bytes} (blank : ∀ letter ∈ blanks, isBlank letter = true) : HexText [] blanks
  | cons {blanks bytes text : Bytes} {high low byte : UInt8}
      (blank : ∀ letter ∈ blanks, isBlank letter = true)
      (digits : DigitPair high low byte) (more : HexText bytes text) :
      HexText (byte :: bytes) (blanks ++ high :: low :: text)

section Notation

theorem isBlank_isspace {letter : UInt8} (blank : isBlank letter = true) :
    isspace letter = true := by
  rcases (Bool.or_eq_true _ _).mp blank with space | tab
  · rw [of_decide_eq_true space]
    decide
  · rw [of_decide_eq_true tab]
    decide

theorem digit_not_blank {letter : UInt8} {value : Nat} (read : hexDigitValue letter = some value) :
    isBlank letter = false := by
  obtain ⟨nonspace, -⟩ := hexDigitValue_plain letter (by rw [read]; rfl)
  rw [Bool.eq_false_iff]
  intro blank
  rw [isBlank_isspace blank] at nonspace
  cases nonspace

theorem DigitPair.value {high low byte : UInt8} (digits : DigitPair high low byte) :
    strtolHex [high, low] = some (byte.toNat : Int) := by
  have halves : byte.toNat / 16 * 16 + byte.toNat % 16 = byte.toNat := Nat.div_add_mod' _ _
  rw [strtolHex_pair digits.high digits.low, halves]

/-- The cast of a number below 256 to `unsigned char`. -/
theorem cast_toNat (byte : UInt8) : UInt8.ofInt byte.toNat = byte := by
  have kept : (byte.toNat : Int) % 2 ^ 8 = byte.toNat :=
    Int.emod_eq_of_lt (Int.natCast_nonneg _) (mod_cast byte.toNat_lt)
  rw [UInt8.ofInt, kept, Int.toNat_natCast, UInt8.ofNat_toNat]

/-- The buffer takes the bytes of a text, two digits at a time. -/
theorem HexText.buffer {bytes text : Bytes} (written : HexText bytes text) {room : Nat}
    (fits : bytes.length ≤ room) :
    hexBuffer room text = some bytes := by
  induction written generalizing room with
  | nil blank =>
    cases room with
    | zero => rfl
    | succ room => rw [hexBuffer, List.dropWhile_eq_nil_iff.mpr blank]
  | @cons blanks bytes text high low byte blank digits more ih =>
    cases room with
    | zero => cases fits
    | succ room =>
      have trimmed : (blanks ++ high :: low :: text).dropWhile isBlank = high :: low :: text := by
        apply dropWhile_stops blank
        rintro _ ⟨⟩
        exact digit_not_blank digits.high
      have taken : takeHex high (low :: text) = ([high, low], text) :=
        if_neg (by rw [digit_not_blank digits.low]; decide)
      rw [hexBuffer, trimmed]
      simp only [taken, digits.value, Option.bind_some, ih (Nat.le_of_succ_le_succ fits),
        Option.map_some, cast_toNat]

/-- `serial_send_hex` of a text for up to 4096 bytes sends these bytes: what the port has taken
is the front of them, and when it takes them all, their number is returned. -/
theorem sendHex_bytes {port : SerialPort} (opened : port.isOpen = true)
    {bytes : Bytes} {hexStr : CString}
    (written : HexText bytes hexStr.bytes) (fits : bytes.length ≤ 4096)
    (results : List WriteResult) :
    (serialSendHex (some port) (some hexStr) results).sent = bytes.take (accepted results) ∧
      (serialSendHex (some port) (some hexStr) results).result =
        if bytes.length ≤ accepted results then some (bytes.length : Int)
        else if .failed ∈ results then some (-1) else none := by
  have read := written.buffer fits
  cases bytes with
  | nil =>
    have returned : serialSendHex (some port) (some hexStr) results = .returns 0 := by
      rw [serialSendHex, read]
    rw [returned, List.take_nil]
    exact ⟨rfl, (if_pos (Nat.zero_le _)).symm⟩
  | cons byte bytes =>
    have passed : serialSendHex (some port) (some hexStr) results = serialSend (some port)
        (some (byte :: bytes)) results := by
      rw [serialSendHex, read]
    rw [passed, serialSend_eq opened]
    split
    · rename_i taken
      have size : Int.bmod (byte :: bytes).length (2 ^ 32) = (byte :: bytes).length := by
        apply Int.bmod_eq_of_le
        · omega
        · omega
      exact ⟨(List.take_of_length_le taken).symm, congrArg some size⟩
    · exact ⟨rfl, rfl⟩

end Notation

/-- Packed and spaced bytes in both letter cases: `fF01`, a tab, a blank, `A3`, a blank. -/
theorem mixed_text : HexText [255, 1, 163] (text "fF01\t A3 ") := by
  have blank : ∀ letter ∈ ([9, 32] : Bytes), isBlank letter = true := by simp [isBlank]
  have last : HexText [] [32] := .nil (by simp [isBlank])
  have third : HexText [163] ([9, 32] ++ 65 :: 51 :: [32]) := .cons blank ⟨rfl, rfl⟩ last
  have second : HexText [1, 163] ([] ++ 48 :: 49 :: ([9, 32] ++ 65 :: 51 :: [32])) :=
    .cons nofun ⟨rfl, rfl⟩ third
  exact @HexText.cons [] _ _ 102 70 255 nofun ⟨rfl, rfl⟩ second

theorem mixed_nulFree : 0 ∉ text "fF01\t A3 " := by decide +kernel

/-- The port takes the three bytes in two writes. -/
theorem sendHex_bytes_mixed :
    (serialSendHex (some ⟨true, false⟩) (some ⟨text "fF01\t A3 ", mixed_nulFree⟩)
      [.wrote 2, .interrupted, .wrote 1]).sent = [255, 1, 163] :=
  (@sendHex_bytes ⟨true, false⟩ rfl [255, 1, 163] ⟨text "fF01\t A3 ", mixed_nulFree⟩
    mixed_text (by decide) _).1

section Refusal

/-- The groups of one or two characters of a text, each of which stands for a byte. -/
def hexChunks : Bytes → List Bytes
  | [] => []
  | [first] => if isBlank first then [] else [[first]]
  | first :: second :: rest =>
    if isBlank first then hexChunks (second :: rest)
    else if isBlank second then [first] :: hexChunks rest
    else [first, second] :: hexChunks rest

/-- A text with a character that has no place in it, or one for more than 4096 bytes. -/
def Refusable (string : Bytes) : Prop :=
  (∃ byte ∈ string, hexDigitValue byte = none ∧ isBlank byte = false) ∨
    4096 < (hexChunks string).length

/-- A group that begins with neither a digit nor a sign or white space in front of one. -/
def Unreadable : Bytes → Prop
  | [first] => hexDigitValue first = none
  | [first, second] =>
    hexDigitValue first = none ∧
      (isspace first = true ∨ first = 45 ∨ first = 43 → hexDigitValue second = none)
  | _ => False

theorem hexBuffer_blank (room : Nat) {first : UInt8} (blank : isBlank first = true) (rest : Bytes) :
    hexBuffer room (first :: rest) = hexBuffer room rest := by
  cases room with
  | zero => rfl
  | succ room => rw [hexBuffer, hexBuffer, List.dropWhile_cons_of_pos blank]

theorem hexBuffer_chunk (room : Nat) {first : UInt8}
    (solid : isBlank first = false) (rest : Bytes) :
    hexBuffer (room + 1) (first :: rest) =
      (strtolHex (takeHex first rest).1).bind fun val =>
        (hexBuffer room (takeHex first rest).2).map (UInt8.ofInt val :: ·) := by
  rw [hexBuffer, List.dropWhile_cons_of_neg (by rw [solid]; decide)]

theorem mapM_chunk (chunk : Bytes) (chunks : List Bytes) :
    ((chunk :: chunks).mapM fun chunk => (strtolHex chunk).map UInt8.ofInt) =
      (strtolHex chunk).bind fun val =>
        (chunks.mapM fun chunk => (strtolHex chunk).map UInt8.ofInt).map
          (UInt8.ofInt val :: ·) := by
  rw [List.mapM_cons]
  cases strtolHex chunk with
  | none => rfl
  | some val => exact Option.map_eq_bind.symm

/-- The buffer takes the bytes of the groups that it has room for. -/
theorem hexBuffer_chunks (room : Nat) (p : Bytes) :
    hexBuffer room p = ((hexChunks p).take room).mapM fun chunk =>
      (strtolHex chunk).map UInt8.ofInt := by
  fun_induction hexChunks p generalizing room with
  | case1 => cases room <;> rfl
  | case2 first blank =>
    rw [hexBuffer_blank room blank]
    cases room <;> rfl
  | case3 first solid =>
    cases room with
    | zero => rfl
    | succ room =>
      have nothing : hexBuffer room [] = some [] := by cases room <;> rfl
      rw [hexBuffer_chunk room (Bool.eq_false_of_not_eq_true solid), List.take_succ_cons,
        List.take_nil, mapM_chunk,
        takeHex, nothing]
      rfl
  | case4 first second rest blank ih => rw [hexBuffer_blank room blank, ih]
  | case5 first second rest solid blank ih =>
    cases room with
    | zero => rfl
    | succ room =>
      have taken : takeHex first (second :: rest) = ([first], second :: rest) := if_pos blank
      rw [hexBuffer_chunk room (Bool.eq_false_of_not_eq_true solid), taken,
        hexBuffer_blank room blank, ih,
        List.take_succ_cons, mapM_chunk]
  | case6 first second rest solid blank ih =>
    cases room with
    | zero => rfl
    | succ room =>
      have taken : takeHex first (second :: rest) = ([first, second], rest) := if_neg blank
      rw [hexBuffer_chunk room (Bool.eq_false_of_not_eq_true solid), taken, ih,
        List.take_succ_cons, mapM_chunk]

theorem mapM_eq_none {chunks : List Bytes} {read : Bytes → Option UInt8} :
    chunks.mapM read = none ↔ ∃ chunk ∈ chunks, read chunk = none := by
  induction chunks with
  | nil => simp
  | cons chunk chunks ih =>
    rw [List.mapM_cons, List.exists_mem_cons_iff, ← ih]
    cases read chunk with
    | none => simp
    | some value => cases chunks.mapM read <;> simp

theorem space_no_digit {byte : UInt8} (space : isspace byte = true) :
    hexDigitValue byte = none := by
  by_contra read
  obtain ⟨nonspace, -⟩ := hexDigitValue_plain byte (Option.isSome_iff_ne_none.mpr read)
  rw [space] at nonspace
  cases nonspace

theorem sign_no_digit {byte : UInt8} (sign : byte = 45 ∨ byte = 43) :
    hexDigitValue byte = none := by
  rcases sign with rfl | rfl <;> rfl

theorem strtolHex_space {first : UInt8} (space : isspace first = true) (rest : Bytes) :
    strtolHex (first :: rest) = strtolHex rest := by
  rw [strtolHex, strtolHex, List.dropWhile_cons_of_pos space]

theorem strtolHex_sign {first : UInt8} (sign : first = 45 ∨ first = 43) (rest : Bytes) :
    strtolHex (first :: rest) = none ↔ ∀ byte, rest.head? = some byte →
      hexDigitValue byte = none := by
  have solid : ¬isspace first = true := by
    rcases sign with rfl | rfl <;> decide
  have unsigned : (first :: rest).dropWhile isspace = first :: rest :=
    List.dropWhile_cons_of_neg solid
  apply strtolHex_none_iff
  rw [unsigned]
  exact (if_pos (sign.imp (congrArg some) (congrArg some))).symm

theorem strtolHex_plain {first : UInt8} (solid : ¬isspace first = true)
    (unsigned : ¬(first = 45 ∨ first = 43)) (rest : Bytes) :
    strtolHex (first :: rest) = none ↔ hexDigitValue first = none := by
  have kept : (first :: rest).dropWhile isspace = first :: rest := List.dropWhile_cons_of_neg solid
  have read : strtolHex (first :: rest) = none ↔
      ∀ byte, (first :: rest).head? = some byte → hexDigitValue byte = none := by
    apply strtolHex_none_iff
    rw [kept, if_neg fun equal => unsigned (equal.imp Option.some.inj Option.some.inj)]
  rw [read, List.head?_cons]
  simp

theorem strtolHex_single (first : UInt8) :
    strtolHex [first] = none ↔ hexDigitValue first = none := by
  by_cases space : isspace first = true
  · rw [strtolHex_space space]
    exact iff_of_true rfl (space_no_digit space)
  by_cases sign : first = 45 ∨ first = 43
  · rw [strtolHex_sign sign]
    exact iff_of_true nofun (sign_no_digit sign)
  · exact strtolHex_plain space sign []

/-- `strtol` finds no number in a group exactly if it is unreadable. -/
theorem strtolHex_unreadable {first : UInt8} {rest : Bytes} (short : rest.length ≤ 1) :
    strtolHex (first :: rest) = none ↔ Unreadable (first :: rest) := by
  cases rest with
  | nil => exact strtolHex_single first
  | cons second rest =>
    obtain rfl := List.length_eq_zero_iff.mp (Nat.le_zero.mp (Nat.le_of_succ_le_succ short))
    rw [Unreadable]
    by_cases space : isspace first = true
    · rw [strtolHex_space space, strtolHex_single]
      simp [space, space_no_digit space]
    by_cases sign : first = 45 ∨ first = 43
    · rw [strtolHex_sign sign]
      simp [sign, sign_no_digit sign]
    · rw [strtolHex_plain space sign]
      simp [space, sign]

/-- A group has one or two characters and begins with a solid one. -/
theorem hexChunks_shape {p : Bytes} {chunk : Bytes} (member : chunk ∈ hexChunks p) :
    ∃ first rest, chunk = first :: rest ∧ rest.length ≤ 1 := by
  fun_induction hexChunks p with
  | case1 => cases member
  | case2 => cases member
  | case3 first solid => exact ⟨first, [], List.mem_singleton.mp member, Nat.zero_le _⟩
  | case4 first second rest blank ih => exact ih member
  | case5 first second rest solid blank ih =>
    rcases List.mem_cons.mp member with rfl | later
    · exact ⟨first, [], rfl, Nat.zero_le _⟩
    · exact ih later
  | case6 first second rest solid blank ih =>
    rcases List.mem_cons.mp member with rfl | later
    · exact ⟨first, [second], rfl, le_rfl⟩
    · exact ih later

/-- Only blanks give no groups. -/
theorem hexChunks_eq_nil {p : Bytes} (empty : hexChunks p = []) :
    ∀ byte ∈ p, isBlank byte = true := by
  fun_induction hexChunks p with
  | case1 => exact nofun
  | case2 first blank =>
    intro byte member
    rw [List.mem_singleton.mp member]
    exact blank
  | case3 first solid => cases empty
  | case4 first second rest blank ih => exact List.forall_mem_cons.mpr ⟨blank, ih empty⟩
  | case5 first second rest solid blank ih => cases empty
  | case6 first second rest solid blank ih => cases empty

/-- What refuses a text is a group that `strtol` cannot read among the first 4096 of them. -/
theorem hexBuffer_refuses {p : Bytes} {room : Nat} :
    hexBuffer room p = none ↔ ∃ chunk ∈ (hexChunks p).take room, Unreadable chunk := by
  rw [hexBuffer_chunks, mapM_eq_none]
  apply exists_congr
  intro chunk
  apply and_congr_right
  intro member
  obtain ⟨first, rest, rfl, short⟩ := hexChunks_shape (List.mem_of_mem_take member)
  rw [Option.map_eq_none_iff, strtolHex_unreadable short]

/-- A text with a character out of place or with too many bytes gives something to send,
unless it is refused. -/
theorem Refusable.buffer {p : Bytes} (refusable : Refusable p) : hexBuffer 4096 p ≠ some [] := by
  intro empty
  rw [hexBuffer_chunks] at empty
  have groups : (hexChunks p).take 4096 = [] := by
    cases chunks : (hexChunks p).take 4096 with
    | nil => rfl
    | cons chunk chunks =>
      rw [chunks, mapM_chunk] at empty
      obtain ⟨val, -, rest⟩ := Option.bind_eq_some_iff.mp empty
      obtain ⟨buf, -, filled⟩ := Option.map_eq_some_iff.mp rest
      cases filled
  have none_left : hexChunks p = [] := by
    rcases List.take_eq_nil_iff.mp groups with zero | nil
    · cases zero
    · exact nil
  rcases refusable with ⟨byte, member, -, solid⟩ | long
  · rw [hexChunks_eq_nil none_left byte member] at solid
    cases solid
  · rw [none_left] at long
    cases long

/-- `serial_send` sends nothing and fails when the port is closed, or a `write` fails before
the port has taken a byte. -/
theorem serialSend_refuses {port : SerialPort} {data : Bytes} (some_data : data ≠ [])
    (results : List WriteResult) :
    ((serialSend (some port) (some data) results).result = some (-1) ∧
        (serialSend (some port) (some data) results).sent = []) ↔
      port.isOpen = false ∨ .failed ∈ results ∧ accepted results = 0 := by
  have positive : 0 < data.length := List.length_pos_iff.mpr some_data
  cases opened : port.isOpen with
  | false =>
    have closed : serialSend (some port) (some data) results = .returns (-1) := by
      rw [serialSend, opened]
      rfl
    rw [closed]
    exact iff_of_true ⟨rfl, rfl⟩ (.inl rfl)
  | true =>
    rw [serialSend_eq opened]
    split
    · rename_i taken
      constructor
      · rintro ⟨-, nothing⟩
        exact absurd nothing some_data
      · rintro (closed | ⟨-, stopped⟩)
        · cases closed
        · omega
    · rename_i stuck
      constructor
      · rintro ⟨failed, nothing⟩
        refine .inr ⟨?_, ?_⟩
        · by_contra going
          rw [if_neg going] at failed
          cases failed
        · rcases List.take_eq_nil_iff.mp nothing with stopped | empty
          · exact stopped
          · exact absurd empty some_data
      · rintro (closed | ⟨failed, stopped⟩)
        · cases closed
        · exact ⟨if_pos failed, by rw [stopped, List.take_zero]⟩

/-- A text with a character out of place, or for more bytes than `buf` has, is refused with
nothing sent exactly if the port is closed, if one of the first 4096 groups is unreadable, or
if the port fails before it takes a byte. -/
theorem sendHex_refuses_iff {port : SerialPort} {hexStr : CString}
    (refusable : Refusable hexStr.bytes) (results : List WriteResult) :
    ((serialSendHex (some port) (some hexStr) results).result = some (-1) ∧
        (serialSendHex (some port) (some hexStr) results).sent = []) ↔
      port.isOpen = false ∨ (∃ chunk ∈ (hexChunks hexStr.bytes).take 4096, Unreadable chunk) ∨
        (.failed ∈ results ∧ accepted results = 0) := by
  cases read : hexBuffer 4096 hexStr.bytes with
  | none =>
    have refused : serialSendHex (some port) (some hexStr) results = .returns (-1) := by
      rw [serialSendHex, read]
    rw [refused]
    exact iff_of_true ⟨rfl, rfl⟩ (.inr (.inl (hexBuffer_refuses.mp read)))
  | some buf =>
    have readable : ¬∃ chunk ∈ (hexChunks hexStr.bytes).take 4096, Unreadable chunk := by
      rw [← hexBuffer_refuses, read]
      exact Option.some_ne_none _
    cases buf with
    | nil => exact absurd read refusable.buffer
    | cons byte buf =>
      have passed : serialSendHex (some port) (some hexStr) results = serialSend (some port)
          (some (byte :: buf)) results := by
        rw [serialSendHex, read]
      rw [passed, serialSend_refuses (List.cons_ne_nil _ _), or_iff_right readable]

end Refusal

theorem partial_nulFree : 0 ∉ text "1G" := by decide +kernel

theorem bad_nulFree : 0 ∉ text "1 G" := by decide +kernel

theorem bad_refusable : Refusable (text "1 G") := .inl ⟨71, by decide +kernel, rfl, rfl⟩

/-- The second group of the text is unreadable. -/
theorem sendHex_refuses_iff_bad :
    (serialSendHex (some ⟨true, false⟩) (some ⟨text "1 G", bad_nulFree⟩) [.wrote 1]).sent = [] :=
  ((@sendHex_refuses_iff ⟨true, false⟩ ⟨text "1 G", bad_nulFree⟩ bad_refusable [.wrote 1]).mpr
    (.inr (.inl ⟨[71], by decide +kernel, rfl⟩))).2

/-- `1G` has a `G` in it, and the byte 1 is sent for it: `strtol` stops at the `G`, which the
code does not look at. -/
theorem sendHex_partial :
    (71 ∈ text "1G" ∧ hexDigitValue 71 = none ∧ isBlank 71 = false) ∧
      serialSendHex (some ⟨true, false⟩) (some ⟨text "1G", partial_nulFree⟩)
        [.wrote 1] = ⟨[1], [], some 1⟩ := by
  decide +kernel

end LinuxCLearning.SerialTool
