import LinuxCLearning.Base.Json

/-! Objects that a program prints member by member: numbers in decimal, and strings as they are
between quotes. -/

namespace LinuxCLearning

/-- A member as it is printed. -/
inductive Field where
  | number (name : Bytes) (value : Int)
  | string (name value : Bytes)

namespace Field

def name : Field → Bytes
  | number name _ => name
  | string name _ => name

/-- The member that is meant. -/
def entry : Field → Bytes × Json
  | number name value => (name, .number value)
  | string name value => (name, .string value)

/-- The text of a member. -/
def print : Field → Bytes
  | number name value => 34 :: (name ++ 34 :: 58 :: signedDecimal value)
  | string name value => 34 :: (name ++ 34 :: 58 :: 34 :: (value ++ [34]))

/-- The string of the member, empty for a number. -/
def literal : Field → Bytes
  | number _ _ => []
  | string _ value => value

/-- The string can stand in a text as it is. -/
def Legible (field : Field) : Prop := Utf8 field.literal ∧ PlainString field.literal

@[simp] theorem number_legible (name : Bytes) (value : Int) : (number name value).Legible :=
  ⟨rfl, fun _ member => absurd member List.not_mem_nil⟩

@[simp] theorem string_legible (name value : Bytes) :
    (string name value).Legible ↔ Utf8 value ∧ PlainString value := Iff.rfl

end Field

/-- The members with commas between them; the last one is a number. -/
def printMembers : List Field → (name : Bytes) → (value : Int) → Bytes
  | [], name, value => (Field.number name value).print
  | field :: fields, name, value => field.print ++ 44 :: printMembers fields name value

def printObject (fields : List Field) (name : Bytes) (value : Int) : Bytes :=
  123 :: (printMembers fields name value ++ [125])

section Numbers

theorem scanNumber_minus {unsigned : Bytes} (plain : unsigned.head? ≠ some 45) :
    scanNumber (45 :: unsigned) = (scanNumber unsigned).map fun scanned =>
      (-scanned.1, scanned.2) := by
  simp only [scanNumber, List.head?_cons, if_true, List.tail_cons, if_neg plain]
  cases scanInteger unsigned <;> rfl

theorem decimal_unsigned (number : Nat) (rest : Bytes) :
    (decimal number ++ rest).head? ≠ some 45 := by
  obtain ⟨digits, _⟩ := decimal_value number
  cases shape : decimal number with
  | nil => exact absurd shape (decimal_ne_nil number)
  | cons first others =>
    rw [shape] at digits
    intro minus
    exact (digit_plain (digits first List.mem_cons_self)).2.1 (Option.some.inj minus)

/-- A number that `%d` has printed is read as itself. -/
theorem scanNumber_signed (number : Int) {byte : UInt8}
    (ends : byte = 44 ∨ byte = 125) (rest : Bytes) :
    scanNumber (signedDecimal number ++ byte :: rest) = some ((number : ℚ), byte :: rest) := by
  have noDigit : isDigit byte = false := by rcases ends with rfl | rfl <;> rfl
  have noPoint : byte ≠ 46 := by rcases ends with rfl | rfl <;> decide
  have noExponent : byte ≠ 101 ∧ byte ≠ 69 := by rcases ends with rfl | rfl <;> decide
  cases number with
  | ofNat number => exact scanNumber_decimal number noDigit noPoint noExponent rest
  | negSucc number =>
    have minus : signedDecimal (.negSucc number) ++ byte :: rest =
      45 :: (decimal (number + 1) ++ byte :: rest) := rfl
    rw [minus, scanNumber_minus (decimal_unsigned _ _),
      scanNumber_decimal _ noDigit noPoint noExponent, Option.map_some,
      Int.cast_negSucc]

theorem signedDecimal_injective : Function.Injective signedDecimal := by
  intro first second same
  have read := scanNumber_signed first (Or.inl rfl) []
  rw [same, scanNumber_signed second (Or.inl rfl) []] at read
  exact Int.cast_injective (Prod.mk.inj (Option.some.inj read)).1.symm

theorem signedDecimal_plain {number : Int} {byte : UInt8} (member : byte ∈ signedDecimal number) :
    isspace byte = false ∧ byte ≠ 0 := by
  cases number with
  | ofNat number =>
    have digit := (decimal_value number).1 byte member
    exact ⟨(digit_plain digit).1, (digit_visible digit).2.2⟩
  | negSucc number =>
    rcases List.mem_append.mp member with minus | digits
    · obtain rfl := List.mem_singleton.mp minus
      decide
    · have digit := (decimal_value _).1 byte digits
      exact ⟨(digit_plain digit).1, (digit_visible digit).2.2⟩

theorem signedDecimal_visible (number : Int) (rest : Bytes) :
    skipBlanks (signedDecimal number ++ rest) = signedDecimal number ++ rest := by
  cases number with
  | negSucc number => rfl
  | ofNat number =>
    obtain ⟨digits, _⟩ := decimal_value number
    cases shape : decimal number with
    | nil => exact absurd shape (decimal_ne_nil number)
    | cons first others =>
      rw [shape] at digits
      have visible := (digit_plain (digits first List.mem_cons_self)).1
      rw [signedDecimal, shape, List.cons_append, skipBlanks, List.dropWhile_cons_of_neg]
      intro blank
      simp only [Bool.or_eq_true, beq_iff_eq] at blank
      rcases blank with ((rfl | rfl) | rfl) | rfl
      all_goals cases visible

theorem number_value_iff {number other : ℚ} {input rest behind : Bytes}
    (visible : skipBlanks input = input) (scanned : scanNumber input = some (number, behind)) :
    Json.Value (.number other) (skipBlanks input) rest ↔ other = number ∧ rest = behind := by
  rw [visible]
  constructor
  · intro read
    cases read with
    | number again =>
      obtain ⟨rfl, rfl⟩ := Prod.mk.inj (Option.some.inj (again.symm.trans scanned))
      exact ⟨rfl, rfl⟩
  · rintro ⟨rfl, rfl⟩
    exact .number scanned

theorem signedDecimal_ascii {number : Int} {byte : UInt8} (member : byte ∈ signedDecimal number) :
    byte < 0x80 := by
  have digit (number : Nat) (member : byte ∈ decimal number) : byte < 0x80 := by
    have digit := UInt8.le_iff_toNat_le.mp ((decimal_value number).1 byte member).2
    rw [UInt8.lt_iff_toNat_lt]
    exact lt_of_le_of_lt digit (by decide)
  cases number with
  | ofNat number => exact digit number member
  | negSucc number =>
    rcases List.mem_append.mp member with minus | digits
    · obtain rfl := List.mem_singleton.mp minus
      decide
    · exact digit _ digits

end Numbers

section Members
variable {name more rest : Bytes} {value : Int}

theorem members_more_iff {field : Field} (plain : PlainString field.name)
    {entries : List (Bytes × Json)} (some_entry : entries ≠ []) :
    Json.Members (field.entry :: entries) (field.print ++ 44 :: 34 :: more) rest ↔
      PlainString field.literal ∧ Json.Members entries (34 :: more) rest := by
  cases field with
  | number name value =>
    have tokens : (Field.number name value).print ++ 44 :: 34 :: more =
        34 :: (name ++ 34 :: 58 :: (signedDecimal value ++ 44 :: 34 :: more)) := by
      simp [Field.print]
    have scanned := scanNumber_signed value (Or.inl rfl) (34 :: more)
    have visible := signedDecimal_visible value (44 :: 34 :: more)
    have nothing : PlainString [] := by simp [PlainString]
    change PlainString name at plain
    rw [tokens]
    constructor
    · intro read
      cases read with
      | last => exact absurd rfl some_entry
      | more opened name_read colon item comma others =>
        obtain rfl := (List.cons.inj opened).2
        rw [scanString_plain plain] at name_read
        obtain ⟨_, rfl⟩ := Prod.mk.inj (Option.some.inj name_read)
        obtain rfl := (List.cons.inj colon).2
        obtain ⟨_, rfl⟩ := (number_value_iff visible scanned).mp item
        obtain rfl := (List.cons.inj comma).2
        exact ⟨nothing, others⟩
    · rintro ⟨_, others⟩
      exact .more rfl (scanString_plain plain _) rfl
        ((number_value_iff visible scanned).mpr ⟨rfl, rfl⟩) rfl others
  | string name value =>
    have tokens : (Field.string name value).print ++ 44 :: 34 :: more =
        34 :: (name ++ 34 :: 58 :: 34 :: (value ++ 34 :: 44 :: 34 :: more)) := by
      simp [Field.print]
    change PlainString name at plain
    rw [tokens]
    constructor
    · intro read
      cases read with
      | last => exact absurd rfl some_entry
      | more opened name_read colon item comma others =>
        obtain rfl := (List.cons.inj opened).2
        rw [scanString_plain plain] at name_read
        obtain ⟨_, rfl⟩ := Prod.mk.inj (Option.some.inj name_read)
        obtain rfl := (List.cons.inj colon).2
        obtain ⟨bytes, same, string⟩ := item.string_inv
        obtain rfl := Json.string.inj same
        have legible : PlainString value := scanString_name_iff.mp ⟨_, string⟩
        rw [scanString_plain legible] at string
        obtain ⟨_, rfl⟩ := Prod.mk.inj (Option.some.inj string)
        obtain rfl := (List.cons.inj comma).2
        exact ⟨legible, others⟩
    · rintro ⟨legible, others⟩
      exact .more rfl (scanString_plain plain _) rfl
        (.string rfl (scanString_plain legible _)) rfl others

theorem members_last_iff (plain : PlainString name) :
    Json.Members [(name, .number value)] ((Field.number name value).print ++ 125 :: more) rest ↔
      rest = more := by
  have tokens : (Field.number name value).print ++ 125 :: more =
      34 :: (name ++ 34 :: 58 :: (signedDecimal value ++ 125 :: more)) := by
    simp [Field.print]
  have scanned := scanNumber_signed value (Or.inr rfl) more
  have visible := signedDecimal_visible value (125 :: more)
  rw [tokens]
  constructor
  · intro read
    cases read with
    | more _ _ _ _ _ none_left => cases none_left
    | last opened name_read colon item closed =>
      obtain rfl := (List.cons.inj opened).2
      rw [scanString_plain plain] at name_read
      obtain ⟨_, rfl⟩ := Prod.mk.inj (Option.some.inj name_read)
      obtain rfl := (List.cons.inj colon).2
      obtain ⟨_, rfl⟩ := (number_value_iff visible scanned).mp item
      exact (List.cons.inj closed).2.symm
  · rintro rfl
    exact .last rfl (scanString_plain plain _) rfl
      ((number_value_iff visible scanned).mpr ⟨rfl, rfl⟩) rfl

theorem printMembers_quote (fields : List Field) (name : Bytes) (value : Int) :
    ∃ more, printMembers fields name value = 34 :: more := by
  cases fields with
  | nil => exact ⟨_, rfl⟩
  | cons field fields => cases field <;> exact ⟨_, rfl⟩

/-- The members are read as they are meant exactly if every string among them is plain. -/
theorem printMembers_iff {fields : List Field} (names : ∀ field ∈ fields, PlainString field.name)
    (plain : PlainString name) :
    Json.Members (fields.map Field.entry ++ [(name, .number value)])
      (printMembers fields name value ++ 125 :: more) rest ↔
      (∀ field ∈ fields, PlainString field.literal) ∧ rest = more := by
  induction fields with
  | nil =>
    rw [printMembers, List.map_nil, List.nil_append, members_last_iff plain]
    simp
  | cons field fields ih =>
    rw [List.forall_mem_cons] at names
    obtain ⟨others, quoted⟩ := printMembers_quote fields name value
    rw [printMembers, List.map_cons, List.append_assoc, List.cons_append,
      List.forall_mem_cons, and_assoc,
      ← ih names.2, quoted]
    exact members_more_iff names.1 (List.append_ne_nil_of_right_ne_nil _ (List.cons_ne_nil _ _))

end Members

section Encoding
variable {name more : Bytes} {value : Int}

theorem field_utf8 {field : Field} (ascii : ∀ byte ∈ field.name, byte < 0x80) (more : Bytes) :
    Utf8 (field.print ++ more) ↔ Utf8 field.literal ∧ Utf8 more := by
  cases field with
  | number name value =>
    have tokens : (Field.number name value).print ++ more =
        34 :: (name ++ 34 :: 58 :: (signedDecimal value ++ more)) := by
      simp [Field.print]
    change ∀ byte ∈ name, byte < 0x80 at ascii
    rw [tokens, utf8_cons_iff (by decide), utf8_ascii_append_iff ascii, utf8_cons_iff (by decide),
      utf8_cons_iff (by decide),
      utf8_ascii_append_iff fun _ member => signedDecimal_ascii member]
    exact (and_iff_right rfl).symm
  | string name value =>
    have tokens : (Field.string name value).print ++ more =
        34 :: (name ++ 34 :: 58 :: 34 :: (value ++ 34 :: more)) := by
      simp [Field.print]
    change ∀ byte ∈ name, byte < 0x80 at ascii
    rw [tokens, utf8_cons_iff (by decide), utf8_ascii_append_iff ascii, utf8_cons_iff (by decide),
      utf8_cons_iff (by decide),
      utf8_cons_iff (by decide), utf8_append_iff _ (by decide)]
    exact Iff.rfl

theorem printMembers_utf8 {fields : List Field}
    (names : ∀ field ∈ fields, ∀ byte ∈ field.name, byte < 0x80)
    (ascii : ∀ byte ∈ name, byte < 0x80) :
    Utf8 (printMembers fields name value ++ more) ↔
      (∀ field ∈ fields, Utf8 field.literal) ∧ Utf8 more := by
  induction fields with
  | nil =>
    have last : ∀ byte ∈ (Field.number name value).name, byte < 0x80 := ascii
    rw [printMembers, field_utf8 last, and_congr_left_iff]
    intro _
    exact iff_of_true rfl nofun
  | cons field fields ih =>
    rw [List.forall_mem_cons] at names
    rw [printMembers, List.append_assoc, List.cons_append, field_utf8 names.1,
      utf8_cons_iff (by decide), ih names.2,
      List.forall_mem_cons, and_assoc]

/-- A printed object denotes what is meant exactly if every string in it is legible. -/
theorem printObject_denotes_iff {fields : List Field}
    (names : ∀ field ∈ fields, PlainString field.name ∧ ∀ byte ∈ field.name, byte < 0x80)
    (plain : PlainString name ∧ ∀ byte ∈ name, byte < 0x80) :
    Json.Denotes (printObject fields name value)
      (.object (fields.map Field.entry ++ [(name, .number value)])) ↔
      ∀ field ∈ fields, field.Legible := by
  have utf8 : Utf8 (printObject fields name value) ↔ ∀ field ∈ fields, Utf8 field.literal := by
    rw [printObject, utf8_cons_iff (by decide),
      printMembers_utf8 (fun field member => (names field member).2) plain.2]
    exact and_iff_left rfl
  have read (rest : Bytes) : Json.Value
      (.object (fields.map Field.entry ++ [(name, .number value)]))
      (skipBlanks (printObject fields name value)) rest ↔
        (∀ field ∈ fields, PlainString field.literal) ∧ rest = [] := by
    rw [← printMembers_iff (fun field member => (names field member).1) plain.1]
    change Json.Value _ (123 :: (printMembers fields name value ++ [125])) rest ↔ _
    constructor
    · intro object
      rcases object.object_inv with ⟨empty, _⟩ | ⟨entries, same, members⟩
      · exact absurd (Json.object.inj empty)
          (List.append_ne_nil_of_right_ne_nil _ (List.cons_ne_nil _ _))
      · rw [Json.object.inj same]
        exact members
    · exact fun members => .object rfl members
  simp only [Json.Denotes, utf8, read]
  constructor
  · rintro ⟨coded, _, ⟨strings, _⟩, _⟩ field member
    exact ⟨coded field member, strings field member⟩
  · intro all
    exact ⟨fun field member => (all field member).1, [],
      ⟨fun field member => (all field member).2, rfl⟩, rfl⟩

theorem printObject_nulFree {fields : List Field}
    (names : ∀ field ∈ fields, 0 ∉ field.name ∧ 0 ∉ field.literal)
    (plain : 0 ∉ name) : 0 ∉ printObject fields name value := by
  have digits (number : Int) : 0 ∉ signedDecimal number :=
    fun member => (signedDecimal_plain member).2 rfl
  have members : 0 ∉ printMembers fields name value := by
    induction fields with
    | nil => simp [printMembers, Field.print, plain, digits]
    | cons field fields ih =>
      rw [List.forall_mem_cons] at names
      have word : 0 ∉ field.print := by
        cases field with
        | number other number => simpa [Field.print, Field.name, digits] using names.1.1
        | string other literal => simpa [Field.print, Field.name, Field.literal] using names.1
      simp [printMembers, word, ih names.2]
  simp [printObject, members]

end Encoding

end LinuxCLearning
