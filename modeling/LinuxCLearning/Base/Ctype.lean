import LinuxCLearning.Base.Bytes

/-! Character classes, number parsing and the conversions of `scanf` from the C
library, in the C locale. -/

namespace LinuxCLearning

def isspace (byte : UInt8) : Bool := decide (9 ≤ byte ∧ byte ≤ 13) || byte == 32

def tolower (byte : UInt8) : UInt8 := if 65 ≤ byte ∧ byte ≤ 90 then byte + 32 else byte

/-- `strcasecmp(first, second) == 0`. -/
def sameIgnoringCase (first second : Bytes) : Bool := first.map tolower == second.map tolower

/-- `atoi`: the `long` that `strtol` reads, as an `int`. -/
def atoi (string : Bytes) : Int :=
  let trimmed := string.dropWhile isspace
  let unsigned :=
    if trimmed.head? = some 45 ∨ trimmed.head? = some 43 then trimmed.tail else trimmed
  let digits := unsigned.takeWhile fun byte => decide (48 ≤ byte ∧ byte ≤ 57)
  let magnitude : Int := digits.foldl (fun value digit => value * 10 + (digit.toNat - 48)) 0
  let long := if trimmed.head? = some 45 then max (-2 ^ 63) (-magnitude)
    else min (2 ^ 63 - 1) magnitude
  long.bmod (2 ^ 32)

/-- The number that `strtol` would read if a `long` had no bounds. -/
def decimalValue (string : Bytes) : Int :=
  let trimmed := string.dropWhile isspace
  let unsigned :=
    if trimmed.head? = some 45 ∨ trimmed.head? = some 43 then trimmed.tail else trimmed
  let digits := unsigned.takeWhile fun byte => decide (48 ≤ byte ∧ byte ≤ 57)
  let magnitude : Int := digits.foldl (fun value digit => value * 10 + (digit.toNat - 48)) 0
  if trimmed.head? = some 45 then -magnitude else magnitude

/-- The decimal digits of a number. -/
def decimal (number : Nat) : Bytes := text (toString number)

/-- A number with zeros in front up to a width, as `%0*d` prints it. -/
def padded (width : Nat) (number : Nat) : Bytes :=
  List.replicate (width - (decimal number).length) 48 ++ decimal number

/-- `%d`. -/
def signedDecimal : Int → Bytes
  | .ofNat number => decimal number
  | .negSucc number => text "-" ++ decimal (number + 1)

/-- The conversion `%<limit>s`: the word and what follows it. -/
def scanWord (limit : Nat) (input : Bytes) : Option (Bytes × Bytes) :=
  let trimmed := input.dropWhile isspace
  let word := (trimmed.takeWhile fun byte => !isspace byte).take limit
  if word = [] then none else some (word, trimmed.drop word.length)

/-- The conversion `%<limit>[...]` for a set of bytes. -/
def scanSet (limit : Nat) (inside : UInt8 → Bool) (input : Bytes) : Option (Bytes × Bytes) :=
  let word := (input.takeWhile inside).take limit
  if word = [] then none else some (word, input.drop word.length)

section Scanning

theorem takeWhile_stops {keep : UInt8 → Bool} {word : Bytes}
    (kept : ∀ byte ∈ word, keep byte = true)
    {rest : Bytes} (stops : ∀ byte, rest.head? = some byte → keep byte = false) :
    (word ++ rest).takeWhile keep = word := by
  rw [List.takeWhile_append_of_pos kept]
  cases rest with
  | nil => simp
  | cons byte rest => simp [List.takeWhile_cons_of_neg, stops byte rfl]

theorem dropWhile_stops {keep : UInt8 → Bool} {word : Bytes}
    (kept : ∀ byte ∈ word, keep byte = true)
    {rest : Bytes} (stops : ∀ byte, rest.head? = some byte → keep byte = false) :
    (word ++ rest).dropWhile keep = rest := by
  have split := List.takeWhile_append_dropWhile (p := keep) (l := word ++ rest)
  rw [takeWhile_stops kept stops] at split
  exact List.append_cancel_left split

theorem scanWord_word {limit : Nat} {word rest : Bytes} (some_word : word ≠ [])
    (fits : word.length ≤ limit) (plain : ∀ byte ∈ word, isspace byte = false)
    (stops : ∀ byte, rest.head? = some byte → isspace byte = true) :
    scanWord limit (word ++ rest) = some (word, rest) := by
  have trimmed : (word ++ rest).dropWhile isspace = word ++ rest := by
    cases word with
    | nil => exact absurd rfl some_word
    | cons byte word =>
      exact List.dropWhile_cons_of_neg (by rw [plain byte List.mem_cons_self]; decide)
  have taken : (word ++ rest).takeWhile (fun byte => !isspace byte) = word := by
    apply takeWhile_stops
    · intro byte member
      rw [plain byte member]
      rfl
    · intro byte first
      rw [stops byte first]
      rfl
  simp only [scanWord, trimmed, taken, List.take_of_length_le fits,
    if_neg some_word, List.drop_left]

theorem scanWord_subset {limit : Nat} {input word rest : Bytes}
    (scanned : scanWord limit input = some (word, rest)) :
    ∀ byte ∈ word, byte ∈ input := by
  simp only [scanWord] at scanned
  split at scanned
  · cases scanned
  · obtain ⟨rfl, -⟩ := Prod.mk.inj (Option.some.inj scanned)
    intro byte member
    exact (List.dropWhile_sublist _).mem
      ((List.takeWhile_sublist _).mem (List.mem_of_mem_take member))

theorem scanWord_rest {limit : Nat} {input word rest : Bytes}
    (scanned : scanWord limit input = some (word, rest)) :
    ∀ byte ∈ rest, byte ∈ input := by
  simp only [scanWord] at scanned
  split at scanned
  · cases scanned
  · obtain ⟨-, rfl⟩ := Prod.mk.inj (Option.some.inj scanned)
    intro byte member
    exact (List.dropWhile_sublist _).mem (List.mem_of_mem_drop member)

/-- There is no word exactly in blanks. -/
theorem scanWord_none_iff {limit : Nat} (positive : 0 < limit) (input : Bytes) :
    scanWord limit input = none ↔ ∀ byte ∈ input, isspace byte = true := by
  have first := List.head?_dropWhile_not isspace input
  rw [← List.dropWhile_eq_nil_iff, scanWord]
  cases found : input.dropWhile isspace with
  | nil => simp
  | cons byte rest =>
    have solid : isspace byte = false := by simpa [found] using first
    have positive := positive.ne'
    simp [solid, positive]

theorem scanWord_space (limit : Nat) (rest : Bytes) :
    scanWord limit (text " " ++ rest) = scanWord limit rest := by
  rfl

theorem scanSet_word {limit : Nat} {inside : UInt8 → Bool} {word rest : Bytes}
    (some_word : word ≠ []) (fits : word.length ≤ limit) (kept : ∀ byte ∈ word, inside byte = true)
    (stops : ∀ byte, rest.head? = some byte → inside byte = false) :
    scanSet limit inside (word ++ rest) = some (word, rest) := by
  simp only [scanSet, takeWhile_stops kept stops, List.take_of_length_le fits, if_neg some_word,
    List.drop_left]

end Scanning

section Decimal

theorem decimal_small {number : Nat} (small : number < 10) :
    decimal number = [UInt8.ofNat (48 + number)] := by
  have digits : (toString number).toList = [number.digitChar] := by
    rw [Nat.toString_eq_ofList_toDigits, String.toList_ofList, Nat.toDigits_of_lt_base small]
  rw [decimal, text, digits, List.map_singleton, Nat.toNat_digitChar_of_lt_ten small]

theorem decimal_large {number : Nat} (large : 10 ≤ number) :
    decimal number = decimal (number / 10) ++ [UInt8.ofNat (48 + number % 10)] := by
  have small : number % 10 < 10 := Nat.mod_lt number (by decide)
  have digits : (toString number).toList =
      (toString (number / 10)).toList ++ [(number % 10).digitChar] := by
    simp only [Nat.toString_eq_ofList_toDigits, String.toList_ofList]
    exact Nat.toDigits_of_base_le (by decide) large
  rw [decimal, text, digits, List.map_append, List.map_singleton,
    Nat.toNat_digitChar_of_lt_ten small,
    decimal, text]

theorem digit_toNat {digit : Nat} (small : digit < 10) :
    (UInt8.ofNat (48 + digit)).toNat = 48 + digit := by
  apply UInt8.toNat_ofNat_of_lt'
  rw [UInt8.size]
  omega

theorem digit_bounds {digit : Nat} (small : digit < 10) :
    48 ≤ UInt8.ofNat (48 + digit) ∧ UInt8.ofNat (48 + digit) ≤ 57 := by
  rw [UInt8.le_iff_toNat_le, UInt8.le_iff_toNat_le, digit_toNat small]
  constructor
  · exact Nat.le_add_right 48 digit
  · exact Nat.add_le_add_left (Nat.le_of_lt_succ small) 48

/-- A number is the value of its digits, and all of them are digits. -/
theorem decimal_value (number : Nat) :
    (∀ byte ∈ decimal number, 48 ≤ byte ∧ byte ≤ 57) ∧
      (decimal number).foldl (fun value digit => value * 10 + ((digit.toNat : Int) - 48)) 0 =
        number := by
  induction number using Nat.strong_induction_on with
  | _ number ih =>
    by_cases small : number < 10
    · rw [decimal_small small]
      refine ⟨?_, ?_⟩
      · intro byte member
        rw [List.mem_singleton.mp member]
        exact digit_bounds small
      · rw [List.foldl_cons, List.foldl_nil, digit_toNat small]
        omega
    · have last : number % 10 < 10 := Nat.mod_lt number (by decide)
      obtain ⟨digits, value⟩ := ih (number / 10) (by omega)
      rw [decimal_large (not_lt.mp small)]
      refine ⟨?_, ?_⟩
      · intro byte member
        rcases List.mem_append.mp member with earlier | final
        · exact digits byte earlier
        · rw [List.mem_singleton.mp final]
          exact digit_bounds last
      · rw [List.foldl_append, value, List.foldl_cons, List.foldl_nil, digit_toNat last]
        omega

theorem decimal_ne_nil (number : Nat) : decimal number ≠ [] := by
  by_cases small : number < 10
  · rw [decimal_small small]
    exact List.cons_ne_nil _ _
  · rw [decimal_large (not_lt.mp small)]
    exact List.concat_ne_nil _ _

theorem decimal_length {number width : Nat} (small : number < 10 ^ (width + 1)) :
    (decimal number).length ≤ width + 1 := by
  induction width generalizing number with
  | zero =>
    rw [decimal_small (by simpa using small)]
    exact le_refl 1
  | succ width ih =>
    by_cases digit : number < 10
    · rw [decimal_small digit]
      exact Nat.le_add_left 1 (width + 1)
    · rw [decimal_large (not_lt.mp digit), List.length_append, List.length_singleton]
      have shorter := @ih (number / 10)
        (by rw [Nat.div_lt_iff_lt_mul (by decide), ← pow_succ]; exact small)
      omega

theorem decimal_injective : Function.Injective decimal := by
  intro first second same
  have value := (decimal_value first).2
  rw [same, (decimal_value second).2] at value
  exact_mod_cast value.symm

theorem digit_visible {byte : UInt8} (digit : 48 ≤ byte ∧ byte ≤ 57) :
    byte ≠ 13 ∧ byte ≠ 10 ∧ byte ≠ 0 := by
  simp only [ne_eq, UInt8.le_iff_toNat_le, ← UInt8.toNat_inj, UInt8.reduceToNat] at digit ⊢
  omega

theorem digit_plain {byte : UInt8} (digit : 48 ≤ byte ∧ byte ≤ 57) :
    isspace byte = false ∧ byte ≠ 45 ∧ byte ≠ 43 := by
  simp only [isspace, Bool.or_eq_false_iff, decide_eq_false_iff_not, beq_eq_false_iff_ne, ne_eq,
    UInt8.le_iff_toNat_le, ← UInt8.toNat_inj, UInt8.reduceToNat] at digit ⊢
  omega

theorem magnitude_le (digits : Bytes) (all : ∀ digit ∈ digits, 48 ≤ digit ∧ digit ≤ 57)
    {start : Int} (positive : 0 ≤ start) :
    start ≤ digits.foldl (fun (value : Int) digit => value * 10 + (digit.toNat - 48)) start := by
  induction digits generalizing start with
  | nil => exact le_refl start
  | cons digit rest ih =>
    have low : 48 ≤ digit.toNat := UInt8.le_iff_toNat_le.mp (all digit List.mem_cons_self).1
    have grown : start ≤ start * 10 + (digit.toNat - 48) := by omega
    exact grown.trans (ih (fun other member => all other (List.mem_cons_of_mem _ member))
      (positive.trans grown))

theorem magnitude_take (unsigned : Bytes) (count : Nat) :
    0 ≤ ((unsigned.take count).takeWhile fun byte => decide (48 ≤ byte ∧ byte ≤ 57)).foldl
        (fun (value : Int) digit => value * 10 + (digit.toNat - 48)) 0 ∧
      ((unsigned.take count).takeWhile fun byte => decide (48 ≤ byte ∧ byte ≤ 57)).foldl
          (fun (value : Int) digit => value * 10 + (digit.toNat - 48)) 0 ≤
        (unsigned.takeWhile fun byte => decide (48 ≤ byte ∧ byte ≤ 57)).foldl
          (fun (value : Int) digit => value * 10 + (digit.toNat - 48)) 0 := by
  have digits : ∀ digit ∈ unsigned.takeWhile fun byte => decide (48 ≤ byte ∧ byte ≤ 57),
      48 ≤ digit ∧ digit ≤ 57 := by
    intro digit member
    simpa using List.mem_takeWhile_imp member
  rw [← List.take_takeWhile]
  have whole := List.take_append_drop count
    (unsigned.takeWhile fun byte => decide (48 ≤ byte ∧ byte ≤ 57))
  generalize unsigned.takeWhile (fun byte => decide (48 ≤ byte ∧ byte ≤ 57)) = all at digits whole ⊢
  have natural := magnitude_le (all.take count)
    (fun digit member => digits digit (List.mem_of_mem_take member)) (le_refl 0)
  refine ⟨natural, ?_⟩
  have grown := magnitude_le (all.drop count)
    (fun digit member => digits digit (List.mem_of_mem_drop member)) natural
  rw [← List.foldl_append, whole] at grown
  exact grown

/-- A number that goes on behind the cut keeps its sign and does not become smaller. -/
theorem decimalValue_take (string : Bytes) (count : Nat) :
    0 ≤ decimalValue (string.take count) ∧ decimalValue (string.take count) ≤ decimalValue string ∨
      decimalValue (string.take count) ≤ 0 ∧ decimalValue string ≤ decimalValue
        (string.take count) := by
  induction string generalizing count with
  | nil => simp [decimalValue]
  | cons byte rest ih =>
    cases count with
    | zero =>
      have nothing : decimalValue [] = 0 := rfl
      rw [List.take_zero, nothing]
      rcases le_total 0 (decimalValue (byte :: rest)) with natural | negative
      · exact Or.inl ⟨le_refl 0, natural⟩
      · exact Or.inr ⟨le_refl 0, negative⟩
    | succ count =>
      rw [List.take_succ_cons]
      by_cases blank : isspace byte = true
      · have skipped (bytes : Bytes) : decimalValue (byte :: bytes) = decimalValue bytes := by
          simp only [decimalValue, List.dropWhile_cons_of_pos blank]
        rw [skipped, skipped]
        exact ih count
      · simp only [decimalValue, List.dropWhile_cons_of_neg blank,
          List.head?_cons, Option.some.injEq,
          List.tail_cons]
        by_cases minus : byte = 45
        · have bound := magnitude_take rest count
          simp only [minus, true_or, if_true]
          omega
        · by_cases plus : byte = 43
          · have bound := magnitude_take rest count
            subst plus
            simp only [minus, or_true, if_true, if_false]
            omega
          · have bound := magnitude_take (byte :: rest) (count + 1)
            rw [List.take_succ_cons] at bound
            simp only [minus, plus, or_self, if_false]
            omega

/-- `atoi` reads the number with the bounds of a `long` and keeps what fits into an `int`. -/
theorem atoi_value (string : Bytes) :
    atoi string = Int.bmod (max (-2 ^ 63) (min (2 ^ 63 - 1) (decimalValue string))) (2 ^ 32) := by
  simp only [atoi, decimalValue]
  generalize string.dropWhile isspace = trimmed
  generalize unread : (if trimmed.head? = some 45 ∨ trimmed.head? = some 43 then trimmed.tail
    else trimmed) = unsigned
  have digits := magnitude_le (unsigned.takeWhile fun byte => decide (48 ≤ byte ∧ byte ≤ 57))
    (fun digit member => by simpa using List.mem_takeWhile_imp member) (le_refl 0)
  generalize (unsigned.takeWhile fun byte => decide (48 ≤ byte ∧ byte ≤ 57)).foldl
    (fun (value : Int) digit => value * 10 + (digit.toNat - 48)) 0 = magnitude at digits ⊢
  congr 1
  split
  · rw [min_eq_right (by omega)]
  · rw [max_eq_right]
    omega

/-- The number that digits behind white space stand for, when no further digit follows. -/
theorem decimalValue_padded {blanks digits : Bytes} (blank : ∀ byte ∈ blanks, isspace byte = true)
    (some_digits : digits ≠ []) (all : ∀ byte ∈ digits, 48 ≤ byte ∧ byte ≤ 57) {rest : Bytes}
    (stops : ∀ byte, rest.head? = some byte → ¬ (48 ≤ byte ∧ byte ≤ 57)) :
    decimalValue (blanks ++ (digits ++ rest)) =
      digits.foldl (fun (value : Int) digit => value * 10 + (digit.toNat - 48)) 0 := by
  have whole : (digits ++ rest).takeWhile (fun byte => decide (48 ≤ byte ∧ byte ≤ 57)) =
      digits := by
    apply takeWhile_stops
    · exact fun byte member => decide_eq_true (all byte member)
    · exact fun byte first => decide_eq_false (stops byte first)
  cases digits with
  | nil => exact absurd rfl some_digits
  | cons first more =>
    obtain ⟨nonspace, noMinus, noPlus⟩ := digit_plain (all first List.mem_cons_self)
    have trimmed : (blanks ++ (first :: more ++ rest)).dropWhile isspace =
        first :: more ++ rest := by
      apply dropWhile_stops blank
      rintro _ ⟨⟩
      exact nonspace
    rw [List.cons_append] at trimmed whole
    simp only [decimalValue, List.cons_append, trimmed, List.head?_cons,
      Option.some.injEq, noMinus, noPlus,
      or_self, if_false, whole]

/-- The number that a text of digits only stands for. -/
theorem decimalValue_digits {digits : Bytes} (all : ∀ byte ∈ digits, 48 ≤ byte ∧ byte ≤ 57) :
    decimalValue digits = digits.foldl (fun (value : Int) digit => value * 10 + (digit.toNat - 48))
      0 := by
  by_cases empty : digits = []
  · rw [empty]
    rfl
  · have padded := @decimalValue_padded [] digits
      (fun _ member => absurd member List.not_mem_nil) empty all []
      nofun
    rwa [List.append_nil, List.nil_append] at padded

theorem decimalValue_bounds {digits : Bytes} (all : ∀ byte ∈ digits, 48 ≤ byte ∧ byte ≤ 57) :
    0 ≤ decimalValue digits ∧ decimalValue digits < 10 ^ digits.length := by
  rw [decimalValue_digits all]
  induction digits using List.reverseRecOn with
  | nil => exact ⟨le_refl 0, Int.one_pos⟩
  | append_singleton digits last ih =>
    obtain ⟨natural, below⟩ := ih fun byte member => all byte (List.mem_append_left _ member)
    obtain ⟨low, high⟩ := all last (List.mem_append_right _ List.mem_cons_self)
    have low := UInt8.le_iff_toNat_le.mp low
    have high := UInt8.le_iff_toNat_le.mp high
    simp only [UInt8.reduceToNat] at low high
    rw [List.foldl_append, List.foldl_cons, List.foldl_nil, List.length_append,
      List.length_singleton, pow_succ]
    omega

theorem atoi_decimal (number : Nat) :
    atoi (decimal number) = Int.bmod (min (2 ^ 63 - 1) number) (2 ^ 32) := by
  obtain ⟨digits, value⟩ := decimal_value number
  have all : (decimal number).takeWhile (fun byte => decide (48 ≤ byte ∧ byte ≤ 57)) =
      decimal number :=
    List.takeWhile_eq_self_iff.mpr fun byte member => decide_eq_true (digits byte member)
  cases shape : decimal number with
  | nil =>
    rw [shape] at value
    obtain rfl : number = 0 := by simpa using value.symm
    rfl
  | cons first rest =>
    rw [shape] at digits value all
    obtain ⟨nonspace, noMinus, noPlus⟩ := digit_plain (digits first List.mem_cons_self)
    have trimmed : (first :: rest).dropWhile isspace = first :: rest :=
      List.dropWhile_cons_of_neg (by rw [nonspace]; decide)
    simp only [atoi, trimmed, List.head?_cons, Option.some.injEq, noMinus,
      noPlus, or_self, if_false,
      all, value]

theorem decimalValue_decimal (number : Nat) {byte : UInt8} (stops : ¬ (48 ≤ byte ∧ byte ≤ 57))
    (rest : Bytes) :
    decimalValue (decimal number ++ byte :: rest) = number := by
  obtain ⟨digits, value⟩ := decimal_value number
  rw [← value]
  apply @decimalValue_padded [] (decimal number) (fun _ member => absurd member List.not_mem_nil)
    (decimal_ne_nil number) digits
  rintro _ ⟨⟩
  exact stops

end Decimal

end LinuxCLearning
