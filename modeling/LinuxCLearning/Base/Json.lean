import LinuxCLearning.Base.Hex
import LinuxCLearning.Base.Utf8

/-! JSON texts: the values, which text stands for which value, and how strings and numbers of
a text are read. -/

namespace LinuxCLearning

/-- A JSON value; a string by its bytes in UTF-8, an object by its members in their order. -/
inductive Json where
  | null
  | bool (value : Bool)
  | number (value : ℚ)
  | string (value : Bytes)
  | array (items : List Json)
  | object (members : List (Bytes × Json))

section Tokens

/-- Four hexadecimal digits, and what is behind them. -/
def scanHex4 : Bytes → Option (Nat × Bytes)
  | first :: second :: third :: fourth :: rest => do
    let first ← hexDigitValue first
    let second ← hexDigitValue second
    let third ← hexDigitValue third
    let fourth ← hexDigitValue fourth
    return (((first * 16 + second) * 16 + third) * 16 + fourth, rest)
  | _ => none

/-- The bytes of a code point. -/
def codePointBytes (point : Nat) : Bytes :=
  if point < 0x80 then [UInt8.ofNat point]
  else if point < 0x800 then [UInt8.ofNat (0xC0 + point / 64), UInt8.ofNat (0x80 + point % 64)]
  else if point < 0x10000 then
    [UInt8.ofNat (0xE0 + point / 4096), UInt8.ofNat (0x80 + point / 64 % 64),
      UInt8.ofNat (0x80 + point % 64)]
  else
    [UInt8.ofNat (0xF0 + point / 262144), UInt8.ofNat (0x80 + point / 4096 % 64),
      UInt8.ofNat (0x80 + point / 64 % 64),
      UInt8.ofNat (0x80 + point % 64)]

/-- The escapes of one letter. -/
def escapedByte (letter : UInt8) : Option UInt8 :=
  if letter = 34 ∨ letter = 92 ∨ letter = 47 then some letter
  else if letter = 98 then some 8
  else if letter = 102 then some 12
  else if letter = 110 then some 10
  else if letter = 114 then some 13
  else if letter = 116 then some 9
  else none

/-- The second half of a surrogate pair, if the first half is one and it follows. -/
def scanLowSurrogate (high : Nat) : Bytes → Option (Nat × Bytes)
  | 92 :: 117 :: digits =>
    if 0xD800 ≤ high ∧ high < 0xDC00 then
      (scanHex4 digits).filter fun low => decide (0xDC00 ≤ low.1 ∧ low.1 < 0xE000)
    else none
  | _ => none

/-- An escape behind its backslash: the bytes that it stands for, and what is behind it. -/
def scanEscape : Bytes → Option (Bytes × Bytes)
  | [] => none
  | letter :: rest =>
    if letter = 117 then
      match scanHex4 rest with
      | none => none
      | some (unit, behind) =>
        match scanLowSurrogate unit behind with
        | none => some (codePointBytes unit, behind)
        | some (low, behind) =>
          some (codePointBytes (0x10000 + (unit - 0xD800) * 0x400 + (low - 0xDC00)), behind)
    else (escapedByte letter).map fun byte => ([byte], rest)

theorem scanHex4_used {input rest : Bytes} {number : Nat}
    (scanned : scanHex4 input = some (number, rest)) :
    ∃ digits, input = digits ++ rest ∧ digits.length = 4 ∧ number < 0x10000 ∧ ∀ digit ∈ digits,
      hexDigitValue digit ≠ none := by
  unfold scanHex4 at scanned
  split at scanned
  · rename_i first second third fourth behind
    obtain ⟨firstValue, firstRead, scanned⟩ := Option.bind_eq_some_iff.mp scanned
    obtain ⟨secondValue, secondRead, scanned⟩ := Option.bind_eq_some_iff.mp scanned
    obtain ⟨thirdValue, thirdRead, scanned⟩ := Option.bind_eq_some_iff.mp scanned
    obtain ⟨fourthValue, fourthRead, scanned⟩ := Option.bind_eq_some_iff.mp scanned
    cases scanned
    have firstBound := hexDigitValue_lt firstRead
    have secondBound := hexDigitValue_lt secondRead
    have thirdBound := hexDigitValue_lt thirdRead
    have fourthBound := hexDigitValue_lt fourthRead
    refine ⟨[first, second, third, fourth], rfl, rfl, by omega, ?_⟩
    simp [firstRead, secondRead, thirdRead, fourthRead]
  · cases scanned

theorem codePointBytes_length (point : Nat) :
    (codePointBytes point).length ≤ 4 ∧ codePointBytes point ≠ [] := by
  unfold codePointBytes
  split_ifs
  all_goals simp

theorem codePointBytes_short {point : Nat} (small : point < 0x10000) :
    (codePointBytes point).length ≤ 3 := by
  unfold codePointBytes
  split_ifs
  all_goals simp

theorem scanEscape_used {input value rest : Bytes}
    (scanned : scanEscape input = some (value, rest)) :
    ∃ used, input = used ++ rest ∧ used ≠ [] ∧ value.length ≤ used.length := by
  unfold scanEscape at scanned
  split at scanned
  · cases scanned
  · rename_i letter behind
    split at scanned
    · split at scanned
      · cases scanned
      · rename_i unit afterUnit read
        obtain ⟨digits, rfl, four, small, _⟩ := scanHex4_used read
        split at scanned
        · cases scanned
          refine ⟨letter :: digits, rfl, List.cons_ne_nil _ _, ?_⟩
          have short := codePointBytes_short small
          rw [List.length_cons, four]
          omega
        · rename_i low afterLow paired
          obtain ⟨rfl, rfl⟩ := Prod.mk.inj (Option.some.inj scanned)
          unfold scanLowSurrogate at paired
          split at paired
          · rename_i more
            split at paired
            · obtain ⟨lowRead, _⟩ := Option.filter_eq_some_iff.mp paired
              obtain ⟨lowDigits, rfl, lowFour, _, _⟩ := scanHex4_used lowRead
              refine ⟨letter :: (digits ++ 92 :: 117 ::
                lowDigits), by simp, List.cons_ne_nil _ _, ?_⟩
              have short :=
                (codePointBytes_length (0x10000 + (unit - 0xD800) * 0x400 + (low - 0xDC00))).1
              rw [List.length_cons, List.length_append, four]
              omega
            · cases paired
          · cases paired
    · obtain ⟨byte, _, same⟩ := Option.map_eq_some_iff.mp scanned
      cases same
      exact ⟨[letter], rfl, List.cons_ne_nil _ _, le_refl _⟩

/-- A string literal behind its opening quote: the bytes that it stands for, and what is behind
the closing quote. -/
def scanString (input : Bytes) : Option (Bytes × Bytes) :=
  match input with
  | [] => none
  | byte :: rest =>
    if byte = 34 then some ([], rest)
    else if byte = 92 then
      match _escaped : scanEscape rest with
      | none => none
      | some (value, behind) =>
        (scanString behind).map fun (more, afterQuote) => (value ++ more, afterQuote)
    else if byte < 32 then none
    else (scanString rest).map fun (more, afterQuote) => (byte :: more, afterQuote)
termination_by input.length
decreasing_by
  · obtain ⟨used, rfl, _, _⟩ := scanEscape_used _escaped
    rw [List.length_cons, List.length_append]
    omega
  · exact Nat.lt_succ_self _

def isDigit (byte : UInt8) : Bool := decide (48 ≤ byte ∧ byte ≤ 57)

/-- The number that digits stand for. -/
def digitsValue (digits : Bytes) : ℤ :=
  digits.foldl (fun value digit => value * 10 + (digit.toNat - 48)) 0

/-- The digits of the integer part; a zero is followed by no other digit. -/
def scanInteger (input : Bytes) : Option (Bytes × Bytes) :=
  let digits := input.takeWhile isDigit
  if digits = [] then none
  else if digits.head? = some 48 then some ([48], input.tail)
  else some (digits, input.drop digits.length)

/-- The digits behind the point, none if there is no fraction. -/
def scanFraction (input : Bytes) : Bytes × Bytes :=
  let digits := input.tail.takeWhile isDigit
  if input.head? = some 46 ∧ digits ≠ [] then (digits, input.tail.drop digits.length)
  else ([], input)

/-- The exponent, zero if there is none. -/
def scanExponent (input : Bytes) : ℤ × Bytes :=
  let marked := input.head? = some 101 ∨ input.head? = some 69
  let signed := input.tail.head? = some 45 ∨ input.tail.head? = some 43
  let unsigned := if signed then input.tail.tail else input.tail
  let digits := unsigned.takeWhile isDigit
  if marked ∧ digits ≠ [] then
    (if input.tail.head? = some 45 then -digitsValue digits else digitsValue digits,
      unsigned.drop digits.length)
  else (0, input)

/-- A number, as long as it goes on. -/
def scanNumber (input : Bytes) : Option (ℚ × Bytes) := do
  let unsigned := if input.head? = some 45 then input.tail else input
  let (integer, behindInteger) ← scanInteger unsigned
  let (fraction, behindFraction) := scanFraction behindInteger
  let (exponent, rest) := scanExponent behindFraction
  let magnitude : ℚ := digitsValue (integer ++ fraction) * 10 ^ (exponent - fraction.length)
  return (if input.head? = some 45 then -magnitude else magnitude, rest)

end Tokens

section Grammar

/-- The text behind blanks. -/
def skipBlanks (input : Bytes) : Bytes :=
  input.dropWhile fun byte => byte == 32 || byte == 9 || byte == 10 || byte == 13

mutual

/-- A value at the start of a text, and what is behind it. -/
inductive Json.Value : Json → Bytes → Bytes → Prop where
  | null {input rest : Bytes} (word : input = text "null" ++ rest) : Value .null input rest
  | bool {input rest : Bytes} (value : Bool)
      (word : input = text (if value then "true" else "false") ++ rest) :
    Value (.bool value) input rest
  | number {input rest : Bytes} {value : ℚ} (scanned : scanNumber input = some (value, rest)) :
    Value (.number value) input rest
  | string {input literal value rest : Bytes} (opened : input = 34 :: literal)
    (scanned : scanString literal = some (value, rest)) : Value (.string value) input rest
  | emptyArray {input inner rest : Bytes} (opened : input = 91 :: inner)
      (closed : skipBlanks inner = 93 :: rest) :
    Value (.array []) input rest
  | array {input inner rest : Bytes} {items : List Json} (opened : input = 91 :: inner)
    (elements : Json.Elements items inner rest) : Value (.array items) input rest
  | emptyObject {input inner rest : Bytes} (opened : input = 123 :: inner)
      (closed : skipBlanks inner = 125 :: rest) :
    Value (.object []) input rest
  | object {input inner rest : Bytes} {entries : List (Bytes × Json)}
      (opened : input = 123 :: inner)
    (members : Json.Members entries inner rest) : Value (.object entries) input rest

/-- The items of an array up to its closing bracket. -/
inductive Json.Elements : List Json → Bytes → Bytes → Prop where
  | last {input behind rest : Bytes} {item : Json}
      (value : Json.Value item (skipBlanks input) behind)
    (closed : skipBlanks behind = 93 :: rest) : Elements [item] input rest
  | more {input behind next rest : Bytes} {item : Json} {items : List Json}
    (value : Json.Value item (skipBlanks input) behind) (comma : skipBlanks behind = 44 :: next)
    (others : Json.Elements items next rest) : Elements (item :: items) input rest

/-- The members of an object up to its closing brace. -/
inductive Json.Members : List (Bytes × Json) → Bytes → Bytes → Prop where
  | last {input literal name behindName inner behind rest : Bytes} {item : Json}
    (opened : skipBlanks input = 34 :: literal)
      (scanned : scanString literal = some (name, behindName))
    (colon : skipBlanks behindName = 58 :: inner)
      (value : Json.Value item (skipBlanks inner) behind)
    (closed : skipBlanks behind = 125 :: rest) : Members [(name, item)] input rest
  | more {input literal name behindName inner behind next rest : Bytes} {item : Json}
      {entries : List (Bytes × Json)}
    (opened : skipBlanks input = 34 :: literal)
      (scanned : scanString literal = some (name, behindName))
    (colon : skipBlanks behindName = 58 :: inner)
      (value : Json.Value item (skipBlanks inner) behind)
    (comma : skipBlanks behind = 44 :: next) (others : Json.Members entries next rest) :
    Members ((name, item) :: entries) input rest

end

/-- A text in UTF-8 that stands for a value. -/
def Json.Denotes (input : Bytes) (value : Json) : Prop :=
  Utf8 input ∧ ∃ rest, Json.Value value (skipBlanks input) rest ∧ skipBlanks rest = []

end Grammar

section Strings

/-- Bytes that stand for themselves in a string literal. -/
def PlainString (bytes : Bytes) : Prop := ∀ byte ∈ bytes, byte ≠ 34 ∧ byte ≠ 92 ∧ 32 ≤ byte

instance (bytes : Bytes) : Decidable (PlainString bytes) :=
  inferInstanceAs (Decidable (∀ byte ∈ bytes, byte ≠ 34 ∧ byte ≠ 92 ∧ 32 ≤ byte))

theorem scanString_quote (rest : Bytes) : scanString (34 :: rest) = some ([], rest) := by
  rw [scanString, if_pos rfl]

theorem scanString_byte {byte : UInt8} (noQuote : byte ≠ 34) (noEscape : byte ≠ 92) (rest : Bytes) :
    scanString (byte :: rest) =
      if byte < 32 then none else (scanString rest).map fun (more, afterQuote) =>
        (byte :: more, afterQuote) := by
  rw [scanString, if_neg noQuote, if_neg noEscape]

theorem scanString_escape (rest : Bytes) : scanString (92 :: rest) =
    (scanEscape rest).bind fun escape =>
      (scanString escape.2).map fun (more, afterQuote) => (escape.1 ++ more, afterQuote) := by
  rw [scanString, if_neg (by decide), if_pos rfl]
  split
  · rename_i refused
    rw [refused, Option.bind_none]
  · rename_i value behind escaped
    rw [escaped, Option.bind_some]

theorem scanString_plain {name : Bytes} (plain : PlainString name) (rest : Bytes) :
    scanString (name ++ 34 :: rest) = some (name, rest) := by
  induction name with
  | nil => exact scanString_quote rest
  | cons byte name ih =>
    obtain ⟨noQuote, noEscape, visible⟩ := plain byte List.mem_cons_self
    rw [List.cons_append, scanString_byte noQuote noEscape, if_neg (UInt8.not_lt.mpr visible),
      ih fun other member => plain other (List.mem_cons_of_mem _ member)]
    rfl

theorem hexDigitValue_quote : hexDigitValue 34 = none := by decide

theorem scanHex4_inside {front rest behind : Bytes} {number : Nat}
    (scanned : scanHex4 (front ++ 34 :: rest) = some (number, behind)) :
    ∃ digits left, front = digits ++ left ∧ behind = left ++ 34 :: rest ∧ digits.length = 4 ∧
      number < 0x10000 := by
  obtain ⟨digits, same, four, small, hexadecimal⟩ := scanHex4_used scanned
  rcases List.append_eq_append_iff.mp same with ⟨more, rfl, split⟩ | ⟨left, rfl, rfl⟩
  · cases more with
    | nil => exact ⟨front, [], by simp, by simpa using split.symm, by simpa using four, small⟩
    | cons first more =>
      obtain rfl : 34 = first := (List.cons.inj split).1
      exact absurd hexDigitValue_quote (hexadecimal 34 (by simp))
  · exact ⟨digits, left, rfl, rfl, four, small⟩

/-- An escape that begins before a quote that is not its letter ends before it, and is longer than
what it stands for. -/
theorem scanEscape_inside {front rest value behind : Bytes} (some_front : front ≠ [])
    (scanned : scanEscape (front ++ 34 :: rest) = some (value, behind)) :
    ∃ used left, front = used ++ left ∧ behind = left ++ 34 :: rest ∧
      value.length ≤ used.length := by
  cases front with
  | nil => exact absurd rfl some_front
  | cons letter front =>
    rw [List.cons_append, scanEscape] at scanned
    split at scanned
    · split at scanned
      · cases scanned
      · rename_i unit afterUnit read
        obtain ⟨digits, left, rfl, rfl, four, small⟩ := scanHex4_inside read
        split at scanned
        · obtain ⟨rfl, rfl⟩ := Prod.mk.inj (Option.some.inj scanned)
          refine ⟨letter :: digits, left, rfl, rfl, ?_⟩
          have short := codePointBytes_short small
          rw [List.length_cons, four]
          omega
        · rename_i low afterLow paired
          obtain ⟨rfl, rfl⟩ := Prod.mk.inj (Option.some.inj scanned)
          unfold scanLowSurrogate at paired
          split at paired
          · rename_i more shape
            split at paired
            · obtain ⟨lowRead, _⟩ := Option.filter_eq_some_iff.mp paired
              cases left with
              | nil => cases shape
              | cons first left =>
                cases left with
                | nil =>
                  obtain ⟨_, second⟩ := List.cons.inj shape
                  exact absurd (List.cons.inj second).1 (by decide)
                | cons second left =>
                  obtain ⟨rfl, afterBackslash⟩ := List.cons.inj shape
                  obtain ⟨rfl, rfl⟩ := List.cons.inj afterBackslash
                  obtain ⟨lowDigits, left, rfl, rfl, lowFour, _⟩ := scanHex4_inside lowRead
                  refine ⟨letter :: (digits ++ 92 :: 117 :: lowDigits), left, by simp, rfl, ?_⟩
                  have short :=
                    (codePointBytes_length (0x10000 + (unit - 0xD800) * 0x400 + (low - 0xDC00))).1
                  rw [List.length_cons, List.length_append, four]
                  omega
            · cases paired
          · cases paired
    · obtain ⟨byte, _, same⟩ := Option.map_eq_some_iff.mp scanned
      cases same
      exact ⟨[letter], front, rfl, rfl, le_refl _⟩

/-- What a literal is read as that was meant to end behind a name, where a comma and a quote
follow: the name, fewer bytes, or bytes that end with the comma instead of a backslash. -/
inductive NameRead (rest name value behind : Bytes) : Prop where
  | whole (plain : PlainString name) (same : value = name) (closed : behind = 44 :: 34 :: rest)
  | fewer (shorter : value.length < name.length)
  | comma (comma : value.getLast? = some 44) (backslash : name.getLast? = some 92)

theorem NameRead.byte {rest name value behind : Bytes} (read : NameRead rest name value behind)
    {byte : UInt8} (quote : byte ≠ 34) (escape : byte ≠ 92) (visible : 32 ≤ byte) :
    NameRead rest (byte :: name) (byte :: value) behind := by
  cases read with
  | whole plain same closed =>
    refine .whole ?_ (by rw [same]) closed
    intro other member
    rcases List.mem_cons.mp member with rfl | inside
    · exact ⟨quote, escape, visible⟩
    · exact plain other inside
  | fewer shorter => exact .fewer (Nat.succ_lt_succ shorter)
  | comma comma backslash =>
    have some_value : value ≠ [] := by
      rintro rfl
      cases comma
    have some_name : name ≠ [] := by
      rintro rfl
      cases backslash
    refine .comma ?_ ?_
    · rw [List.getLast?_cons_of_ne_nil some_value, comma]
    · rw [List.getLast?_cons_of_ne_nil some_name, backslash]

/-- An escape that uses more bytes than it stands for, in front of what is read. -/
theorem NameRead.escape {rest name value behind : Bytes} (read : NameRead rest name value behind)
    {used escaped : Bytes} (shorter : escaped.length ≤ used.length) :
    NameRead rest (92 :: (used ++ name)) (escaped ++ value) behind := by
  cases read with
  | whole plain same closed =>
    apply NameRead.fewer
    rw [List.length_cons, List.length_append, List.length_append, same]
    omega
  | fewer fewer =>
    apply NameRead.fewer
    rw [List.length_cons, List.length_append, List.length_append]
    omega
  | comma comma backslash =>
    have some_value : value ≠ [] := by
      rintro rfl
      cases comma
    have some_name : name ≠ [] := by
      rintro rfl
      cases backslash
    refine .comma ?_ ?_
    · rw [List.getLast?_append_of_ne_nil _ some_value, comma]
    · rw [← List.cons_append, List.getLast?_append_of_ne_nil _ some_name, backslash]

/-- A backslash in front of the quote that was meant to end the literal: the comma ends it. -/
theorem scanString_backslash {rest value behind : Bytes}
    (scanned : scanString (92 :: 34 :: 44 :: 34 :: rest) = some (value, behind)) :
      value = [34, 44] := by
  have quoted : scanEscape (34 :: 44 :: 34 :: rest) = some ([34], 44 :: 34 :: rest) := rfl
  rw [scanString_escape, quoted, Option.bind_some, scanString_byte (by decide) (by decide),
    if_neg (by decide),
    scanString_quote] at scanned
  cases scanned
  rfl

/-- By induction on the length of the name: an escape may use several bytes of it. -/
theorem scanString_name {name rest value behind : Bytes}
    (scanned : scanString (name ++ 34 :: 44 :: 34 :: rest) = some (value, behind)) :
    NameRead rest name value behind := by
  induction size : name.length using Nat.strong_induction_on generalizing name value with
  | _ size ih =>
    cases name with
    | nil =>
      rw [List.nil_append, scanString_quote] at scanned
      cases scanned
      exact .whole (by simp [PlainString]) rfl rfl
    | cons byte name =>
      rw [List.length_cons] at size
      rw [List.cons_append] at scanned
      by_cases quote : byte = 34
      · subst quote
        rw [scanString_quote] at scanned
        cases scanned
        exact .fewer (Nat.succ_pos _)
      by_cases escape : byte = 92
      · subst escape
        by_cases last : name = []
        · subst last
          cases scanString_backslash scanned
          exact .comma rfl rfl
        rw [scanString_escape] at scanned
        obtain ⟨⟨escaped, afterEscape⟩, read, scanned⟩ := Option.bind_eq_some_iff.mp scanned
        obtain ⟨⟨more, afterQuote⟩, following, same⟩ := Option.map_eq_some_iff.mp scanned
        obtain ⟨rfl, rfl⟩ := Prod.mk.inj same
        obtain ⟨used, left, rfl, rfl, shorter⟩ := scanEscape_inside last read
        rw [List.length_append] at size
        exact (ih left.length (by omega) following rfl).escape shorter
      · rw [scanString_byte quote escape] at scanned
        split at scanned
        · cases scanned
        · rename_i visible
          obtain ⟨⟨more, afterQuote⟩, following, same⟩ := Option.map_eq_some_iff.mp scanned
          obtain ⟨rfl, rfl⟩ := Prod.mk.inj same
          exact (ih name.length (by omega) following rfl).byte quote escape
            (UInt8.not_lt.mp visible)

/-- A literal is read as the name that was written into it exactly if the name is plain. -/
theorem scanString_name_iff {name rest : Bytes} :
    (∃ behind, scanString (name ++ 34 :: 44 :: 34 :: rest) = some (name, behind)) ↔
      PlainString name := by
  constructor
  · rintro ⟨behind, scanned⟩
    cases scanString_name scanned with
    | whole plain _ _ => exact plain
    | fewer shorter => exact absurd shorter (lt_irrefl _)
    | comma comma backslash =>
      rw [comma] at backslash
      cases backslash
  · intro plain
    exact ⟨_, scanString_plain plain _⟩

end Strings

section Numbers

theorem decimal_head {number : Nat} (positive : 0 < number) : (decimal number).head? ≠ some 48 := by
  induction number using Nat.strong_induction_on with
  | _ number ih =>
    by_cases small : number < 10
    · rw [decimal_small small, List.head?_cons]
      intro zero
      have digit := congrArg UInt8.toNat (Option.some.inj zero)
      rw [digit_toNat small] at digit
      simp only [UInt8.reduceToNat] at digit
      omega
    · rw [decimal_large (not_lt.mp small)]
      have front := ih (number / 10) (by omega) (by omega)
      cases shape : decimal (number / 10) with
      | nil => exact absurd shape (decimal_ne_nil _)
      | cons first rest =>
        rw [shape] at front
        exact front

theorem scanNumber_decimal (number : Nat) {byte : UInt8} (noDigit : isDigit byte = false)
    (noPoint : byte ≠ 46) (noExponent : byte ≠ 101 ∧ byte ≠ 69) (rest : Bytes) :
    scanNumber (decimal number ++ byte :: rest) = some ((number : ℚ), byte :: rest) := by
  obtain ⟨digits, value⟩ := decimal_value number
  have all : (decimal number ++ byte :: rest).takeWhile isDigit = decimal number := by
    apply takeWhile_stops
    · exact fun digit member => decide_eq_true (digits digit member)
    · rintro _ ⟨⟩
      exact noDigit
  have integer : scanInteger (decimal number ++ byte :: rest) =
      some (decimal number, byte :: rest) := by
    rw [scanInteger, all, if_neg (decimal_ne_nil number)]
    split
    · rename_i zero
      have absent : number = 0 := by
        by_contra positive
        exact decimal_head (Nat.pos_of_ne_zero positive) zero
      subst absent
      rfl
    · rw [List.drop_left]
  have fraction : scanFraction (byte :: rest) = ([], byte :: rest) := by
    rw [scanFraction, if_neg]
    intro ⟨point, _⟩
    exact noPoint (Option.some.inj point)
  have exponent : scanExponent (byte :: rest) = (0, byte :: rest) := by
    simp only [scanExponent]
    rw [if_neg]
    rintro ⟨small | large, _⟩
    · exact noExponent.1 (Option.some.inj small)
    · exact noExponent.2 (Option.some.inj large)
  have positive : (decimal number ++ byte :: rest).head? ≠ some 45 := by
    cases shape : decimal number with
    | nil => exact absurd shape (decimal_ne_nil number)
    | cons first more =>
      rw [shape] at digits
      intro minus
      exact (digit_plain (digits first List.mem_cons_self)).2.1 (Option.some.inj minus)
  have natural : digitsValue (decimal number) = number := value
  simp only [scanNumber, if_neg positive, integer, fraction, exponent,
    Option.bind_eq_bind, Option.bind_some,
    List.append_nil, natural]
  norm_num

theorem scanNumber_start {byte : UInt8} {input rest : Bytes} {value : ℚ}
    (scanned : scanNumber (byte :: input) = some (value, rest)) :
      byte = 45 ∨ isDigit byte = true := by
  by_contra other
  obtain ⟨noMinus, noDigit⟩ := not_or.mp other
  have positive : (byte :: input).head? ≠ some 45 := fun minus => noMinus (Option.some.inj minus)
  have nothing : scanInteger (byte :: input) = none := by
    rw [scanInteger, List.takeWhile_cons_of_neg noDigit, if_pos rfl]
  simp only [scanNumber, if_neg positive, nothing, Option.bind_eq_bind, Option.bind_none] at scanned
  cases scanned

end Numbers

section Values

/-- Whether a value can begin with a byte. -/
def Json.startsWith : Json → UInt8 → Bool
  | .null, byte => byte == 110
  | .bool value, byte => byte == if value then 116 else 102
  | .number _, byte => byte == 45 || isDigit byte
  | .string _, byte => byte == 34
  | .array _, byte => byte == 91
  | .object _, byte => byte == 123

variable {value : Json} {input inner rest : Bytes}

theorem Json.Value.starts (read : Json.Value value input rest) :
    ∃ byte inner, input = byte :: inner ∧ value.startsWith byte = true := by
  cases read with
  | null word => exact ⟨_, _, word, rfl⟩
  | bool value word =>
    cases value with
    | false => exact ⟨_, _, word, rfl⟩
    | true => exact ⟨_, _, word, rfl⟩
  | number scanned =>
    cases input with
    | nil => cases scanned
    | cons byte inner =>
      refine ⟨byte, inner, rfl, ?_⟩
      rcases scanNumber_start scanned with rfl | digit
      · rfl
      · rw [Json.startsWith, digit, Bool.or_true]
  | string opened => exact ⟨_, _, opened, rfl⟩
  | emptyArray opened => exact ⟨_, _, opened, rfl⟩
  | array opened => exact ⟨_, _, opened, rfl⟩
  | emptyObject opened => exact ⟨_, _, opened, rfl⟩
  | object opened => exact ⟨_, _, opened, rfl⟩

theorem Json.Value.starts_cons {byte : UInt8} (read : Json.Value value (byte :: inner) rest) :
    value.startsWith byte = true := by
  obtain ⟨_, _, same, starts⟩ := read.starts
  obtain ⟨rfl, rfl⟩ := List.cons.inj same
  exact starts

theorem Json.Value.not_nil : ¬ Json.Value value [] rest := by
  intro read
  obtain ⟨_, _, same, _⟩ := read.starts
  cases same

theorem Json.Value.not_closing : ¬ Json.Value value (93 :: inner) rest := by
  intro read
  have starts := read.starts_cons
  cases value with
  | bool value => cases value <;> cases starts
  | _ => cases starts

theorem Json.Value.object_inv (read : Json.Value value (123 :: inner) rest) :
    (value = .object [] ∧ skipBlanks inner = 125 :: rest) ∨
      ∃ entries, value = .object entries ∧ Json.Members entries inner rest := by
  have starts := read.starts_cons
  cases value with
  | object entries =>
    cases read with
    | emptyObject opened closed =>
      cases opened
      exact Or.inl ⟨rfl, closed⟩
    | object opened members =>
      cases opened
      exact Or.inr ⟨entries, rfl, members⟩
  | bool value => cases value <;> cases starts
  | _ => cases starts

theorem Json.Value.array_inv (read : Json.Value value (91 :: inner) rest) :
    (value = .array [] ∧ skipBlanks inner = 93 :: rest) ∨
      ∃ items, value = .array items ∧ Json.Elements items inner rest := by
  have starts := read.starts_cons
  cases value with
  | array items =>
    cases read with
    | emptyArray opened closed =>
      cases opened
      exact Or.inl ⟨rfl, closed⟩
    | array opened elements =>
      cases opened
      exact Or.inr ⟨items, rfl, elements⟩
  | bool value => cases value <;> cases starts
  | _ => cases starts

theorem Json.Value.string_inv (read : Json.Value value (34 :: inner) rest) :
    ∃ bytes, value = .string bytes ∧ scanString inner = some (bytes, rest) := by
  have starts := read.starts_cons
  cases value with
  | string bytes =>
    cases read with
    | string opened scanned =>
      cases opened
      exact ⟨bytes, rfl, scanned⟩
  | bool value => cases value <;> cases starts
  | _ => cases starts

theorem Json.Value.number_inv {digit : UInt8} (is_digit : isDigit digit = true)
    (read : Json.Value value (digit :: inner) rest) :
    ∃ number, value = .number number ∧ scanNumber (digit :: inner) = some (number, rest) := by
  have starts := read.starts_cons
  have other {letter : UInt8} (no_digit : isDigit letter = false) : (digit == letter) = false := by
    rw [beq_eq_false_iff_ne]
    rintro rfl
    rw [is_digit] at no_digit
    cases no_digit
  cases value with
  | number number =>
    cases read with
    | number scanned => exact ⟨number, rfl, scanned⟩
  | null =>
    rw [Json.startsWith, other rfl] at starts
    cases starts
  | bool value =>
    rw [Json.startsWith, other (by cases value <;> rfl)] at starts
    cases starts
  | string =>
    rw [Json.startsWith, other rfl] at starts
    cases starts
  | array =>
    rw [Json.startsWith, other rfl] at starts
    cases starts
  | object =>
    rw [Json.startsWith, other rfl] at starts
    cases starts

end Values

end LinuxCLearning
