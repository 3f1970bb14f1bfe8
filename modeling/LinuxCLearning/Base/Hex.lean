import LinuxCLearning.Base.Ctype

/-! Hexadecimal digits, and the numbers that `strtol` reads in base 16. -/

namespace LinuxCLearning

def hexDigitValue (byte : UInt8) : Option Nat :=
  if 48 ≤ byte ∧ byte ≤ 57 then some (byte.toNat - 48)
  else if 97 ≤ byte ∧ byte ≤ 102 then some (byte.toNat - 87)
  else if 65 ≤ byte ∧ byte ≤ 70 then some (byte.toNat - 55)
  else none

/-- The number that a text of hexadecimal digits stands for. -/
def hexNumber (digits : Bytes) : Option Nat :=
  digits.foldlM (fun value digit => (hexDigitValue digit).map (value * 16 + ·)) 0

/-- The digits of a number behind the prefix that base 16 allows: an `x` is part of the prefix
only when a digit follows it. -/
def hexDigits (unsigned : Bytes) : Bytes :=
  let behindPrefix :=
    match unsigned with
    | 48 :: letter :: digit :: rest =>
      if (letter = 120 ∨ letter = 88) ∧ (hexDigitValue digit).isSome then
        digit :: rest else unsigned
    | _ => unsigned
  behindPrefix.takeWhile fun byte => (hexDigitValue byte).isSome

/-- `strtol(string, &end, 16)`, `none` when it leaves `end` at the start of the string. -/
def strtolHex (string : Bytes) : Option Int :=
  let trimmed := string.dropWhile isspace
  let unsigned :=
    if trimmed.head? = some 45 ∨ trimmed.head? = some 43 then trimmed.tail else trimmed
  let digits := hexDigits unsigned
  if digits = [] then none
  else (hexNumber digits).map fun (magnitude : Nat) =>
    if trimmed.head? = some 45 then max (-2 ^ 63) (-(magnitude : Int))
    else min (2 ^ 63 - 1) (magnitude : Int)

section Digits

theorem hexDigitValue_lt {byte : UInt8} {value : Nat} (read : hexDigitValue byte = some value) :
    value < 16 := by
  have size := byte.toNat_lt
  unfold hexDigitValue at read
  split_ifs at read with first second third
  · cases read
    have high := UInt8.le_iff_toNat_le.mp first.2
    simp only [UInt8.reduceToNat] at high
    omega
  · cases read
    have high := UInt8.le_iff_toNat_le.mp second.2
    simp only [UInt8.reduceToNat] at high
    omega
  · cases read
    have high := UInt8.le_iff_toNat_le.mp third.2
    simp only [UInt8.reduceToNat] at high
    omega

theorem digits_injective {write : Nat → UInt8}
    (reads : ∀ digit < 16, hexDigitValue (write digit) = some digit)
    {first second : Nat} (small : first < 16) (other : second < 16)
    (same : write first = write second) :
    first = second := by
  have read := reads first small
  rw [same, reads second other] at read
  exact (Option.some.inj read).symm

/-- Digits that stand for themselves, the last first, go on from a number in front of them. -/
theorem hexNumber_fold {write : Nat → UInt8}
    (reads : ∀ digit < 16, hexDigitValue (write digit) = some digit)
    {digits : List Nat} (small : ∀ digit ∈ digits, digit < 16) (start : Nat) :
    (digits.reverse.map write).foldlM (fun value digit =>
      (hexDigitValue digit).map (value * 16 + ·)) start =
      some (start * 16 ^ digits.length + Nat.ofDigits 16 digits) := by
  induction digits with
  | nil => simp
  | cons digit digits ih =>
    have last : hexDigitValue (write digit) = some digit :=
      reads digit (small digit List.mem_cons_self)
    have value : (start * 16 ^ digits.length + Nat.ofDigits 16 digits) * 16 + digit =
        start * 16 ^ (digits.length + 1) + (digit + 16 * Nat.ofDigits 16 digits) := by ring
    rw [List.reverse_cons, List.map_append, List.foldlM_append,
      ih fun other member => small other (List.mem_cons_of_mem _ member),
      Nat.ofDigits_cons, List.length_cons,
      ← value]
    simp [last]

theorem hexNumber_digits {write : Nat → UInt8}
    (reads : ∀ digit < 16, hexDigitValue (write digit) = some digit)
    (number : Nat) : hexNumber ((Nat.digits 16 number).reverse.map write) = some number := by
  rw [hexNumber, hexNumber_fold reads (fun digit member => Nat.digits_lt_base (by decide) member),
    Nat.ofDigits_digits, Nat.zero_mul, Nat.zero_add]

theorem hexNumber_zeros (count : Nat) (digits : Bytes) :
    hexNumber (List.replicate count 48 ++ digits) = hexNumber digits := by
  have zero : hexDigitValue 48 = some 0 := by decide
  induction count with
  | zero => rfl
  | succ count ih =>
    rw [← ih, List.replicate_succ, List.cons_append]
    simp [hexNumber, zero]

theorem hexDigitValue_plain : ∀ byte : UInt8, (hexDigitValue byte).isSome = true →
    isspace byte = false ∧ byte ≠ 45 ∧ byte ≠ 43 := by
  decide +kernel

theorem strtolHex_pair {first second : UInt8} {high low : Nat}
    (readFirst : hexDigitValue first = some high) (readSecond : hexDigitValue second = some low) :
      strtolHex [first, second] = some ((high * 16 + low : Nat) : Int) := by
  obtain ⟨nonspace, minus, plus⟩ := hexDigitValue_plain first (by rw [readFirst]; rfl)
  have small := hexDigitValue_lt readFirst
  have rest := hexDigitValue_lt readSecond
  have trimmed : [first, second].dropWhile isspace = [first, second] :=
    List.dropWhile_cons_of_neg (by rw [nonspace]; decide)
  have digits : hexDigits [first, second] = [first, second] := by
    simp [hexDigits, readFirst, readSecond]
  have number : hexNumber [first, second] = some (high * 16 + low) := by
    simp [hexNumber, readFirst, readSecond]
  simp only [strtolHex, trimmed, List.head?_cons, Option.some.injEq, minus, plus,
    or_self, if_false, digits,
    List.cons_ne_nil, number, Option.map_some]
  rw [min_eq_right (by omega)]

theorem hexDigits_digits (unsigned : Bytes) :
    ∀ byte ∈ hexDigits unsigned, (hexDigitValue byte).isSome = true := by
  intro byte member
  exact List.mem_takeWhile_imp (p := fun byte => (hexDigitValue byte).isSome) member

/-- There are digits exactly where the first character is one. -/
theorem hexDigits_eq_nil {unsigned : Bytes} :
    hexDigits unsigned = [] ↔ ∀ byte, unsigned.head? = some byte → hexDigitValue byte = none := by
  have start (bytes : Bytes) : (bytes.takeWhile fun byte => (hexDigitValue byte).isSome) = [] ↔
      ∀ byte, bytes.head? = some byte → hexDigitValue byte = none := by
    cases bytes with
    | nil => simp
    | cons byte rest => cases read : hexDigitValue byte <;> simp [read]
  unfold hexDigits
  dsimp only
  split
  · rename_i letter digit rest
    split
    · rename_i withPrefix
      refine iff_of_false ?_ ?_
      · intro nothing
        have none := (start (digit :: rest)).mp nothing digit rfl
        rw [none] at withPrefix
        cases withPrefix.2
      · intro none
        cases none 48 rfl
    · exact start _
  · exact start _

theorem hexNumber_isSome {digits : Bytes}
    (all : ∀ byte ∈ digits, (hexDigitValue byte).isSome = true) :
    (hexNumber digits).isSome = true := by
  have from_start (start : Nat) :
      (digits.foldlM (fun value digit => (hexDigitValue digit).map (value * 16 + ·)) start).isSome =
          true := by
    induction digits generalizing start with
    | nil => rfl
    | cons digit digits ih =>
      obtain ⟨value, read⟩ := Option.isSome_iff_exists.mp (all digit List.mem_cons_self)
      rw [List.foldlM_cons, read]
      exact ih (fun other member => all other (List.mem_cons_of_mem _ member)) _
  exact from_start 0

/-- `strtol` finds no number exactly when no digit follows the white space and the sign. -/
theorem strtolHex_none_iff {string unsigned : Bytes}
    (behind : unsigned = if (string.dropWhile isspace).head? = some 45 ∨
      (string.dropWhile isspace).head? = some 43 then
      (string.dropWhile isspace).tail else string.dropWhile isspace) :
    strtolHex string = none ↔ ∀ byte, unsigned.head? = some byte → hexDigitValue byte = none := by
  rw [← hexDigits_eq_nil, strtolHex, ← behind]
  split
  · rename_i nothing
    exact iff_of_true rfl nothing
  · rename_i digits
    obtain ⟨magnitude, number⟩ :=
      Option.isSome_iff_exists.mp (hexNumber_isSome (hexDigits_digits unsigned))
    rw [number]
    exact iff_of_false (Option.some_ne_none _) digits

end Digits

end LinuxCLearning
