import LinuxCLearning.Base.Ctype

/-! `strtol` and `strtoul` in base 10, and words between the letters of a delimiter. -/

namespace LinuxCLearning

/-- The parts of a number: whether there is a minus sign, and the digits. -/
def signedDigits (string : Bytes) : Bool × Bytes :=
  let trimmed := string.dropWhile isspace
  let unsigned := if trimmed.head? = some 45 ∨ trimmed.head? = some 43 then
    trimmed.tail else trimmed
  (trimmed.head? = some 45, unsigned.takeWhile fun byte => decide (48 ≤ byte ∧ byte ≤ 57))

/-- The number that some digits stand for. -/
def digitsNumber (digits : Bytes) : Int :=
  digits.foldl (fun value digit => value * 10 + (digit.toNat - 48)) 0

/-- `strtol`. -/
def strtol (string : Bytes) : Int :=
  let parts := signedDigits string
  if parts.1 then max (-2 ^ 63) (-digitsNumber parts.2) else min (2 ^ 63 - 1) (digitsNumber parts.2)

/-- `strtoul`: a minus sign negates the number as an `unsigned long`. -/
def strtoul (string : Bytes) : Nat :=
  let parts := signedDigits string
  if 2 ^ 64 ≤ digitsNumber parts.2 then 2 ^ 64 - 1
  else ((if parts.1 then -digitsNumber parts.2 else digitsNumber parts.2) % 2 ^ 64).toNat

/-- The words that `strtok` finds between single or repeated delimiters. -/
def words (delimiter : UInt8) (string : Bytes) : List Bytes :=
  (string.splitOn delimiter).filter (· ≠ [])

section Numbers

theorem atoi_strtol (string : Bytes) : atoi string = (strtol string).bmod (2 ^ 32) := by
  simp [atoi, strtol, signedDigits, digitsNumber]

theorem signedDigits_newline (string : Bytes) :
    signedDigits (string ++ [10]) = signedDigits string := by
  have newline : [(10 : UInt8)].dropWhile isspace = [] := List.dropWhile_cons_of_pos rfl
  have blank : [(10 : UInt8)].takeWhile (fun byte => decide (48 ≤ byte ∧ byte ≤ 57)) = [] :=
    List.takeWhile_cons_of_neg (by decide)
  have digits (front : Bytes) :
      (front ++ [10]).takeWhile (fun byte => decide (48 ≤ byte ∧ byte ≤ 57)) =
      front.takeWhile fun byte => decide (48 ≤ byte ∧ byte ≤ 57) := by
    rw [List.takeWhile_append]
    split
    · rename_i all
      rw [blank, List.append_nil, (List.takeWhile_prefix _).eq_of_length all]
    · rfl
  rw [signedDigits, signedDigits, List.dropWhile_append]
  cases trimmed : string.dropWhile isspace with
  | nil => rw [newline]; rfl
  | cons first rest =>
    have kept : (if (first :: rest).isEmpty = true then [10].dropWhile isspace
        else first :: rest ++ [10]) =
        first :: (rest ++ [10]) := rfl
    rw [kept]
    by_cases sign : first = 45 ∨ first = 43
    · simpa [sign] using digits rest
    · simpa [sign] using digits (first :: rest)

theorem strtol_newline (string : Bytes) : strtol (string ++ [10]) = strtol string := by
  rw [strtol, strtol, signedDigits_newline]

theorem strtoul_newline (string : Bytes) : strtoul (string ++ [10]) = strtoul string := by
  rw [strtoul, strtoul, signedDigits_newline]

theorem atoi_newline (string : Bytes) : atoi (string ++ [10]) = atoi string := by
  rw [atoi_strtol, atoi_strtol, strtol_newline]

end Numbers

section Words
variable {delimiter : UInt8}

theorem words_single {word : Bytes} (plain : delimiter ∉ word) (some_word : word ≠ []) :
    words delimiter word = [word] := by
  rw [words, List.splitOn_eq_singleton plain, List.filter_cons_of_pos (by simpa using some_word),
    List.filter_nil]

theorem words_append (front behind : Bytes) :
    words delimiter (front ++ delimiter :: behind) =
      words delimiter front ++ words delimiter behind := by
  rw [words, List.splitOn_append_cons_self, List.filter_append]
  rfl

theorem words_cons {word : Bytes} (plain : delimiter ∉ word)
    (some_word : word ≠ []) (rest : Bytes) :
    words delimiter (word ++ delimiter :: rest) = word :: words delimiter rest := by
  rw [words_append, words_single plain some_word, List.singleton_append]

end Words

end LinuxCLearning
