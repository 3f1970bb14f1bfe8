import LinuxCLearning.Base.Hex
import LinuxCLearning.WebServer.Http

/-! The percent encoding of the web server: its encoder with a bounded buffer, its decoder,
and what they are to compute. -/

namespace LinuxCLearning.WebServer

/-- `isalnum(c) || c == '-' || c == '_' || c == '.' || c == '~'`. -/
def unreserved (byte : UInt8) : Bool :=
  decide (48 ≤ byte ∧ byte ≤ 57) || decide (65 ≤ byte ∧ byte ≤ 90) ||
    decide (97 ≤ byte ∧ byte ≤ 122) ||
    byte == 45 || byte == 95 || byte == 46 || byte == 126

/-- `hex_chars`. -/
def hexChar (digit : UInt8) : UInt8 := if digit < 10 then 48 + digit else 55 + digit

/-- The bytes that `http_url_encode` writes before the terminator, for `room + 1` bytes
of `dst`. A byte whose escape has no room is passed over. -/
def httpUrlEncode : (room : Nat) → (src : Bytes) → Bytes
  | 0, _ => []
  | _, [] => []
  | room + 1, byte :: rest =>
    if unreserved byte then byte :: httpUrlEncode room rest
    else if 3 ≤ room + 1 then
      37 :: hexChar (byte >>> 4) :: hexChar (byte &&& 15) :: httpUrlEncode (room + 1 - 3) rest
    else httpUrlEncode (room + 1) rest

/-- The code of one byte. -/
def encodeByte (byte : UInt8) : Bytes :=
  if unreserved byte then [byte] else [37, hexChar (byte >>> 4), hexChar (byte &&& 15)]

/-- The percent encoding of a text. -/
def encoding (bytes : Bytes) : Bytes := bytes.flatMap encodeByte

/-- Upper-case hexadecimal digits. -/
def upperHex (byte : UInt8) : Prop := 48 ≤ byte ∧ byte ≤ 57 ∨ 65 ≤ byte ∧ byte ≤ 70

instance (byte : UInt8) : Decidable (upperHex byte) := inferInstanceAs (Decidable (_ ∨ _))

/-- Letters, digits, `-`, `_`, `.`, `~` and escapes. -/
inductive Encoded : Bytes → Prop where
  | nil : Encoded []
  | plain {byte : UInt8} {rest : Bytes} (plain : unreserved byte = true) (tail : Encoded rest) :
      Encoded (byte :: rest)
  | escape {high low : UInt8} {rest : Bytes} (first : upperHex high) (second : upperHex low)
      (tail : Encoded rest) : Encoded (37 :: high :: low :: rest)

/-- Percent decoding that leaves malformed escapes as they are. -/
def decodeReference : Bytes → Bytes
  | [] => []
  | 37 :: first :: second :: rest =>
    match hexDigit first, hexDigit second with
    | some high, some low => UInt8.ofNat (16 * high + low) :: decodeReference rest
    | _, _ => 37 :: decodeReference (first :: second :: rest)
  | byte :: rest => (if byte = 43 then 32 else byte) :: decodeReference rest

/-- Outside escapes, no `%` with two bytes behind it is followed by anything but two
hexadecimal digits. -/
def WellEscaped : Bytes → Prop
  | [] => True
  | 37 :: first :: second :: rest =>
    (hexDigit first).isSome = true ∧ (hexDigit second).isSome = true ∧ WellEscaped rest
  | _ :: rest => WellEscaped rest

section Bytes

theorem encodeByte_plain {byte : UInt8} (plain : unreserved byte = true) :
    encodeByte byte = [byte] :=
  if_pos plain

theorem encodeByte_escape {byte : UInt8} (reserved : unreserved byte = false) :
    encodeByte byte = [37, hexChar (byte >>> 4), hexChar (byte &&& 15)] := by
  rw [encodeByte, reserved]
  rfl

@[simp] theorem encoding_cons (byte : UInt8) (rest : Bytes) :
    encoding (byte :: rest) = encodeByte byte ++ encoding rest := rfl

theorem encodeByte_length (byte : UInt8) : (encodeByte byte).length ≤ 3 := by
  unfold encodeByte
  split
  · exact Nat.le_add_left 1 2
  · exact le_refl 3

theorem encoding_length_le (bytes : Bytes) : (encoding bytes).length ≤ 3 * bytes.length := by
  induction bytes with
  | nil => exact le_refl 0
  | cons byte rest ih =>
    have single := encodeByte_length byte
    rw [encoding_cons, List.length_append, List.length_cons]
    omega

theorem hexPair_digits : ∀ byte :
    UInt8, hexPair (hexChar (byte >>> 4)) (hexChar (byte &&& 15)) = byte := by
  decide +kernel

theorem hexChar_upper : ∀ byte : UInt8,
    upperHex (hexChar (byte >>> 4)) ∧ upperHex (hexChar (byte &&& 15)) := by
  decide +kernel

/-- The bytes that stand for themselves are neither `%` nor `+`. -/
theorem unreserved_kept : ∀ byte : UInt8, unreserved byte = true → byte ≠ 37 ∧ byte ≠ 43 := by
  decide +kernel

end Bytes

section RoundTrip

theorem encoding_encoded (bytes : Bytes) : Encoded (encoding bytes) := by
  induction bytes with
  | nil => exact .nil
  | cons byte rest ih =>
    rw [encoding_cons]
    cases kind : unreserved byte with
    | true =>
      rw [encodeByte_plain kind]
      exact .plain kind ih
    | false =>
      rw [encodeByte_escape kind]
      obtain ⟨high, low⟩ := hexChar_upper byte
      exact .escape high low ih

theorem httpUrlEncode_fits {room : Nat} {src : Bytes} (fits : (encoding src).length ≤ room) :
    httpUrlEncode room src = encoding src := by
  induction src generalizing room with
  | nil => cases room <;> rfl
  | cons byte rest ih =>
    rw [encoding_cons, List.length_append] at fits
    rw [encoding_cons]
    cases kind : unreserved byte with
    | true =>
      rw [encodeByte_plain kind] at fits ⊢
      rw [List.length_singleton, Nat.add_comm] at fits
      obtain ⟨room, rfl⟩ := Nat.exists_eq_add_of_le' (Nat.le_of_add_left_le fits)
      rw [httpUrlEncode, if_pos kind, ih (Nat.le_of_add_le_add_right fits)]
      rfl
    | false =>
      rw [encodeByte_escape kind] at fits ⊢
      have three : 3 + (encoding rest).length ≤ room := fits
      obtain ⟨room, rfl⟩ := Nat.exists_eq_add_of_le' (show 1 ≤ room by omega)
      rw [httpUrlEncode, kind, if_neg Bool.false_ne_true, if_pos (by omega), ih (by omega)]
      rfl

theorem httpUrlDecode_plain {byte : UInt8} (plain : byte ≠ 37) (room : Nat) (rest : Bytes) :
    httpUrlDecode (room + 1) (byte :: rest) =
      (if byte = 43 then 32 else byte) :: httpUrlDecode room rest := by
  rw [httpUrlDecode]
  intro first second after same
  exact absurd same plain

theorem httpUrlDecode_encoding {room : Nat} {bytes : Bytes} (fits : bytes.length ≤ room) :
    httpUrlDecode room (encoding bytes) = bytes := by
  induction bytes generalizing room with
  | nil => cases room <;> rfl
  | cons byte rest ih =>
    obtain ⟨room, rfl⟩ := Nat.exists_eq_add_of_le' (Nat.one_le_of_lt fits)
    have tail := ih (Nat.le_of_succ_le_succ fits)
    rw [encoding_cons]
    cases kind : unreserved byte with
    | true =>
      obtain ⟨percent, plus⟩ := unreserved_kept byte kind
      rw [encodeByte_plain kind, List.singleton_append, httpUrlDecode_plain percent, if_neg plus,
        tail]
    | false =>
      rw [encodeByte_escape kind]
      change hexPair _ _ :: httpUrlDecode room (encoding rest) = _
      rw [hexPair_digits, tail]

end RoundTrip

/-- With buffers that are large enough, the decoder gives back what was encoded, and the
encoding has nothing but unreserved characters and escapes. -/
theorem url_round_trip (string : CString) {encodedSize decodedSize : Nat}
    (encodedFits : 3 * string.length + 1 ≤ encodedSize)
    (decodedFits : string.length + 1 ≤ decodedSize) :
    httpUrlDecode (decodedSize - 1) (httpUrlEncode (encodedSize - 1) string.bytes) = string.bytes ∧
      Encoded (httpUrlEncode (encodedSize - 1) string.bytes) := by
  have room : (encoding string.bytes).length ≤ encodedSize - 1 :=
    (encoding_length_le string.bytes).trans (Nat.le_sub_one_of_lt encodedFits)
  rw [httpUrlEncode_fits room]
  exact ⟨httpUrlDecode_encoding (Nat.le_sub_one_of_lt decodedFits), encoding_encoded string.bytes⟩

/-- A blank, a plus sign and a byte above 127. -/
theorem url_round_trip_three_bytes :
    3 * (⟨[32, 43, 255], by decide⟩ : CString).length + 1 ≤ 10 ∧
      httpUrlDecode 3 (httpUrlEncode 9 [32, 43, 255]) = [32, 43, 255] := by
  have fits : 3 * (⟨[32, 43, 255], by decide⟩ : CString).length + 1 ≤ 10 := by decide
  exact ⟨fits, (url_round_trip ⟨[32, 43, 255], by decide⟩ fits (le_refl 4)).1⟩

/-- At some byte there is room for a character but not for the escape that the byte
needs, and a byte behind it stands for itself. -/
def Skips (room : Nat) (src : Bytes) : Prop :=
  ∃ before byte after, src = before ++ byte :: after ∧ unreserved byte = false ∧
    (encoding before).length < room ∧ room < (encoding before).length + 3 ∧
    ∃ kept ∈ after, unreserved kept = true

section Truncation
variable {room : Nat} {byte : UInt8} {rest : Bytes}

theorem httpUrlEncode_length (room : Nat) (src : Bytes) :
    (httpUrlEncode room src).length ≤ room := by
  fun_induction httpUrlEncode room src with
  | case1 => exact le_refl 0
  | case2 => exact Nat.zero_le _
  | case3 room byte rest plain ih => exact Nat.succ_le_succ ih
  | case4 room byte rest reserved fits ih =>
    simp only [List.length_cons]
    omega
  | case5 room byte rest reserved full ih => exact ih

theorem not_skips_zero (src : Bytes) : ¬ Skips 0 src := by
  intro ⟨before, byte, after, _, _, below, _⟩
  exact Nat.not_lt_zero _ below

theorem not_skips_nil (room : Nat) : ¬ Skips room [] := by
  intro ⟨before, byte, after, split, _⟩
  exact absurd split (by simp)

/-- A byte whose code has been written moves the question on to the rest. -/
theorem skips_cons (room : Nat) :
    Skips ((encodeByte byte).length + room) (byte :: rest) ↔ Skips room rest := by
  constructor
  · intro ⟨before, lost, after, split, reserved, below, above, kept⟩
    cases before with
    | nil =>
      obtain ⟨rfl, rfl⟩ := List.cons.inj split
      rw [encodeByte_escape reserved] at above
      exact absurd above (not_lt.mpr (Nat.le_add_right 3 room))
    | cons head before =>
      obtain ⟨rfl, rfl⟩ := List.cons.inj split
      rw [encoding_cons, List.length_append] at below above
      exact ⟨before, lost, after, rfl, reserved, by omega, by omega, kept⟩
  · intro ⟨before, lost, after, split, reserved, below, above, kept⟩
    refine ⟨byte :: before, lost, after, by rw [split]; rfl, reserved, ?_, ?_, kept⟩
    · rw [encoding_cons, List.length_append]
      omega
    · rw [encoding_cons, List.length_append]
      omega

/-- With room for one or two characters, nothing is written of reserved bytes. -/
theorem httpUrlEncode_eq_nil {src : Bytes} (some_room : 0 < room) (small : room < 3) :
    httpUrlEncode room src = [] ↔ ∀ byte ∈ src, unreserved byte = false := by
  obtain ⟨room, rfl⟩ := Nat.exists_eq_add_of_le' some_room
  induction src with
  | nil => simp [httpUrlEncode]
  | cons byte rest ih =>
    cases kind : unreserved byte with
    | true => simp [httpUrlEncode, kind]
    | false =>
      rw [httpUrlEncode, kind, if_neg Bool.false_ne_true, if_neg (not_le.mpr small), ih]
      simp [kind]

/-- A byte that does not fit any more is skipped exactly if a later one is written. -/
theorem skips_reserved (some_room : 0 < room) (small : room < 3)
    (reserved : unreserved byte = false) :
    Skips room (byte :: rest) ↔ httpUrlEncode room rest ≠ [] := by
  rw [ne_eq, httpUrlEncode_eq_nil some_room small]
  constructor
  · intro ⟨before, lost, after, split, _, below, _, kept, member, plain⟩ every
    cases before with
    | nil =>
      obtain ⟨rfl, rfl⟩ := List.cons.inj split
      rw [every kept member] at plain
      cases plain
    | cons head before =>
      obtain ⟨rfl, rfl⟩ := List.cons.inj split
      rw [every kept (by simp [member])] at plain
      cases plain
  · intro some_plain
    push Not at some_plain
    obtain ⟨kept, member, plain⟩ := some_plain
    exact ⟨[], byte, rest, rfl, reserved, some_room, small, kept, member, by simpa using plain⟩

theorem written_cons {output : Bytes} :
    (∃ written, written <+: byte :: rest ∧ encodeByte byte ++ output = encoding written) ↔
      ∃ written, written <+: rest ∧ output = encoding written := by
  constructor
  · intro ⟨written, inside, same⟩
    cases written with
    | nil =>
      have nothing := (List.append_eq_nil_iff.mp same).1
      unfold encodeByte at nothing
      split at nothing <;> cases nothing
    | cons head written =>
      obtain ⟨rfl, tail⟩ := List.cons_prefix_cons.mp inside
      exact ⟨written, tail, List.append_cancel_left same⟩
  · intro ⟨written, inside, same⟩
    exact ⟨byte :: written, List.cons_prefix_cons.mpr ⟨rfl, inside⟩, by rw [same, encoding_cons]⟩

theorem written_iff (byte : UInt8)
    (tail : (∃ written, written <+: rest ∧ httpUrlEncode room rest = encoding written) ↔
      ¬ Skips room rest) :
    (∃ written, written <+: byte :: rest ∧
        encodeByte byte ++ httpUrlEncode room rest = encoding written) ↔
      ¬ Skips ((encodeByte byte).length + room) (byte :: rest) := by
  rw [written_cons, tail, skips_cons]

/-- The encoder writes the code of a prefix unless it skips a byte. -/
theorem httpUrlEncode_prefix_iff (room : Nat) (src : Bytes) :
    (∃ written, written <+: src ∧ httpUrlEncode room src = encoding written) ↔
      ¬ Skips room src := by
  fun_induction httpUrlEncode room src with
  | case1 src => exact ⟨fun _ => not_skips_zero src, fun _ => ⟨[], List.nil_prefix, rfl⟩⟩
  | case2 room => exact ⟨fun _ => not_skips_nil room, fun _ => ⟨[], List.nil_prefix, rfl⟩⟩
  | case3 room byte rest plain ih =>
    have step := written_iff byte ih
    rw [encodeByte_plain plain, List.length_singleton, Nat.add_comm] at step
    exact step
  | case4 room byte rest reserved fits ih =>
    have step := written_iff byte ih
    have whole : 3 + (room + 1 - 3) = room + 1 := Nat.add_sub_cancel' fits
    rw [encodeByte_escape (by simpa using reserved)] at step
    change _ ↔ ¬ Skips (3 + (room + 1 - 3)) (byte :: rest) at step
    rw [whole] at step
    exact step
  | case5 room byte rest reserved full ih =>
    have small : room + 1 < 3 := not_le.mp full
    rw [skips_reserved (Nat.succ_pos room) small (by simpa using reserved), not_not]
    constructor
    · intro ⟨written, inside, same⟩
      cases written with
      | nil => exact same
      | cons head written =>
        obtain ⟨rfl, -⟩ := List.cons_prefix_cons.mp inside
        have long := httpUrlEncode_length (room + 1) rest
        rw [same, encoding_cons, List.length_append,
          encodeByte_escape (by simpa using reserved)] at long
        simp only [List.length_cons, List.length_nil] at long
        omega
    · intro nothing
      exact ⟨[], List.nil_prefix, nothing⟩

end Truncation

/-- The encoder keeps to its buffer, and what it writes is the encoding of a prefix exactly
if it skips no byte. -/
theorem url_encode_cut_iff (src : CString) {dstSize : Nat} (positive : 1 ≤ dstSize) :
    ((httpUrlEncode (dstSize - 1) src.bytes).length + 1 ≤ dstSize ∧
      ∃ written, written <+: src.bytes ∧ httpUrlEncode (dstSize - 1) src.bytes = encoding written) ↔
    ¬ Skips (dstSize - 1) src.bytes := by
  have inside := httpUrlEncode_length (dstSize - 1) src.bytes
  rw [httpUrlEncode_prefix_iff]
  exact and_iff_right (by omega)

/-- Two bytes for a letter and a blank. -/
theorem url_encode_cut_iff_two_bytes :
    1 ≤ 2 ∧ ∃ written, written <+: [97, 32] ∧ httpUrlEncode 1 [97, 32] = encoding written := by
  have whole : ¬ Skips 1 [97, 32] := by
    intro ⟨before, byte, after, split, reserved, below, _⟩
    cases before with
    | nil =>
      obtain ⟨rfl, -⟩ := List.cons.inj split
      exact absurd reserved (by decide)
    | cons head before =>
      obtain ⟨rfl, -⟩ := List.cons.inj split
      rw [encoding_cons, encodeByte_plain (by decide), List.length_append] at below
      exact absurd below (not_lt.mpr (Nat.le_add_right 1 _))
  exact ⟨by decide, ((url_encode_cut_iff ⟨[97, 32], by decide⟩ (show 1 ≤ 2 by decide)).mpr whole).2⟩

/-- A blank has no room in two bytes, the letter behind it has. -/
theorem blank_dropped :
    ¬ ∀ (src : CString) (dstSize : Nat), 1 ≤ dstSize →
      (httpUrlEncode (dstSize - 1) src.bytes).length + 1 ≤ dstSize ∧
        ∃ written, written <+: src.bytes ∧
          httpUrlEncode (dstSize - 1) src.bytes = encoding written := by
  intro always
  obtain ⟨-, written⟩ := always ⟨[32, 97], by decide⟩ 2 (by decide)
  refine (httpUrlEncode_prefix_iff 1 [32, 97]).mp written ?_
  exact ⟨[], 32, [97], rfl, by decide, by decide, by decide, 97, by decide, by decide⟩

section Escapes
variable {first second : UInt8}

theorem hexDigit_lt {byte : UInt8} {digit : Nat} (read : hexDigit byte = some digit) : digit < 16 :=
  hexDigitValue_lt read

theorem hexDigit_plain (byte : UInt8) (digit : (hexDigit byte).isSome = true) :
    isspace byte = false ∧ byte ≠ 45 ∧ byte ≠ 43 := hexDigitValue_plain byte digit

theorem hexPair_number {high low : Nat} (readFirst : hexDigit first = some high)
    (readSecond : hexDigit second = some low) :
      hexPair first second = UInt8.ofNat (16 * high + low) := by
  obtain ⟨blank, minus, plus⟩ := hexDigit_plain first (by rw [readFirst]; rfl)
  simp [hexPair, blank, minus, plus, readFirst, readSecond, Nat.mul_comm]

theorem digits_lt {digits : Bytes} (short : digits.length ≤ 1) :
    digits.foldl (fun value digit => value * 16 + (hexDigit digit).getD 0) 0 < 16 := by
  match digits, short with
  | [], _ => decide
  | [digit], _ =>
    cases read : hexDigit digit with
    | none => simp [read]
    | some value => simpa [read] using hexDigit_lt read

theorem small_ne_percent : ∀ value :
    Nat, value < 16 → UInt8.ofNat value ≠ 37 ∧ -UInt8.ofNat value ≠ 37 := by
  decide +kernel

/-- Anything but two digits is read as a number that is not that of `%`. -/
theorem hexPair_malformed
    (malformed : ¬ ((hexDigit first).isSome = true ∧ (hexDigit second).isSome = true)) :
    hexPair first second ≠ 37 := by
  have short (unsigned : Bytes) (unread : unsigned.length ≤ 1 ∨ unsigned = [first, second]) :
      (unsigned.takeWhile fun byte => (hexDigit byte).isSome).length ≤ 1 := by
    rcases unread with single | rfl
    · exact (List.takeWhile_prefix _).length_le.trans single
    · cases readFirst : (hexDigit first).isSome with
      | false => simp [readFirst]
      | true =>
        have second_none : (hexDigit second).isSome = false := by simpa [readFirst] using malformed
        simp [readFirst, second_none]
  have trimmed : ([first, second].dropWhile isspace).length ≤ 1 ∨
      [first, second].dropWhile isspace = [first, second] := by
    cases blank : isspace first with
    | false => exact Or.inr (List.dropWhile_cons_of_neg (by simp [blank]))
    | true =>
      rw [List.dropWhile_cons_of_pos blank]
      exact Or.inl (List.dropWhile_suffix _).length_le
  unfold hexPair
  generalize [first, second].dropWhile isspace = rest at trimmed
  have tail : rest.tail.length ≤ 1 := by
    rcases trimmed with single | rfl
    · rw [List.length_tail]
      omega
    · exact le_refl 1
  have signed := small_ne_percent _ (digits_lt (short rest.tail (Or.inl tail)))
  have unsigned := small_ne_percent _ (digits_lt (short rest trimmed))
  dsimp only
  split_ifs
  · exact signed.2
  · exact unsigned.2
  · exact signed.1
  · exact unsigned.1

/-- The decoder and the reference agree until the first malformed escape, and there they
write different bytes. -/
theorem httpUrlDecode_reference_iff {room : Nat} {src : Bytes} (fits : src.length ≤ room) :
    httpUrlDecode room src = decodeReference src ↔ WellEscaped src := by
  fun_induction decodeReference src generalizing room with
  | case1 => cases room <;> exact ⟨fun _ => trivial, fun _ => rfl⟩
  | case2 first second rest high low readSecond readFirst ih =>
    obtain ⟨room, rfl⟩ := Nat.exists_eq_add_of_le' (Nat.one_le_of_lt fits)
    have below : rest.length ≤ room := by
      simp only [List.length_cons] at fits
      omega
    rw [httpUrlDecode, hexPair_number readFirst readSecond, List.cons.injEq,
      and_iff_right rfl, ih below]
    simp [WellEscaped, readFirst, readSecond]
  | case3 first second rest unread ih =>
    obtain ⟨room, rfl⟩ := Nat.exists_eq_add_of_le' (Nat.one_le_of_lt fits)
    have malformed : ¬ ((hexDigit first).isSome = true ∧ (hexDigit second).isSome = true) := by
      intro ⟨someFirst, someSecond⟩
      obtain ⟨high, readFirst⟩ := Option.isSome_iff_exists.mp someFirst
      obtain ⟨low, readSecond⟩ := Option.isSome_iff_exists.mp someSecond
      exact unread high low readFirst readSecond
    constructor
    · intro same
      exact absurd (List.cons.inj same).1 (hexPair_malformed malformed)
    · intro ⟨someFirst, someSecond, _⟩
      exact absurd ⟨someFirst, someSecond⟩ malformed
  | case4 byte rest other ih =>
    obtain ⟨room, rfl⟩ := Nat.exists_eq_add_of_le' (Nat.one_le_of_lt fits)
    rw [httpUrlDecode, WellEscaped, List.cons.injEq, and_iff_right rfl,
      ih (Nat.le_of_succ_le_succ fits)]
    · exact other
    · exact other

end Escapes

/-- The decoder computes the reference exactly for texts without malformed escapes. -/
theorem url_decode_reference_iff (src : CString) {dstSize : Nat} (fits : src.length < dstSize) :
    httpUrlDecode (dstSize - 1) src.bytes = decodeReference src.bytes ↔ WellEscaped src.bytes :=
  httpUrlDecode_reference_iff (Nat.le_sub_one_of_lt fits)

/-- `a%2` keeps its `%`. -/
theorem url_decode_reference_iff_tail :
    (⟨text "a%2", by decide⟩ : CString).length < 4 ∧
      httpUrlDecode 3 (text "a%2") = decodeReference (text "a%2") := by
  have fits : (⟨text "a%2", by decide⟩ : CString).length < 4 := by decide
  exact ⟨fits, (url_decode_reference_iff ⟨text "a%2", by decide⟩ fits).mpr trivial⟩

/-- `%zz` becomes a zero byte. -/
theorem malformed_escape_decoded :
    httpUrlDecode 3 (text "%zz") = [0] ∧ decodeReference (text "%zz") = text "%zz" ∧
      ¬ ∀ (src : CString) (dstSize : Nat), src.length < dstSize →
        httpUrlDecode (dstSize - 1) src.bytes = decodeReference src.bytes := by
  refine ⟨by decide, by decide, ?_⟩
  intro always
  exact absurd (always ⟨text "%zz", by decide⟩ 4 (by decide)) (by decide)

end LinuxCLearning.WebServer
