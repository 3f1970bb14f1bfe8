import LinuxCLearning.Base.Ctype
import LinuxCLearning.MiniShell.Tokens

/-! Variables in a token: what `expand_variables` makes of them beside a reference that
replaces `$NAME` and `${NAME}` and keeps every other byte. -/

namespace LinuxCLearning.MiniShell
variable {env : Environment}

section Reference

/-- The name that is referred to behind a `$`, and what follows the reference. -/
def referenceAt : Bytes → Option (Bytes × Bytes)
  | 123 :: inner =>
    let name := inner.takeWhile isNameByte
    if name ≠ [] ∧ name.length < 256 ∧ (inner.dropWhile isNameByte).head? = some 125 then
      some (name, (inner.dropWhile isNameByte).tail)
    else none
  | rest =>
    let name := rest.takeWhile isNameByte
    if name ≠ [] ∧ name.length < 256 then some (name, rest.dropWhile isNameByte) else none

/-- A reference consists of a name, in braces or up to the first byte that is none of a name. -/
structure Refers (rest name behind : Bytes) : Prop where
  named : name ≠ [] ∧ name.length < 256 ∧ ∀ byte ∈ name, isNameByte byte = true
  form : rest = 123 :: (name ++ 125 :: behind) ∨
    rest.head? ≠ some 123 ∧ rest = name ++ behind ∧ ∀ byte, behind.head? = some byte →
      isNameByte byte = false

theorem referenceAt_spec {rest name behind : Bytes}
    (found : referenceAt rest = some (name, behind)) :
    Refers rest name behind := by
  have members {bytes : Bytes} : ∀ byte ∈ bytes.takeWhile isNameByte, isNameByte byte = true :=
    fun byte member => List.mem_takeWhile_imp member
  unfold referenceAt at found
  split at found
  · rename_i inner
    dsimp only at found
    split at found
    · rename_i fits
      obtain ⟨rfl, rfl⟩ := Prod.mk.inj (Option.some.inj found)
      refine ⟨⟨fits.1, fits.2.1, members⟩, Or.inl ?_⟩
      have closing : (inner.dropWhile isNameByte) = 125 :: (inner.dropWhile isNameByte).tail :=
        (List.cons_head?_tail fits.2.2).symm
      rw [← closing, List.takeWhile_append_dropWhile]
    · cases found
  · rename_i other
    dsimp only at found
    split at found
    · rename_i fits
      obtain ⟨rfl, rfl⟩ := Prod.mk.inj (Option.some.inj found)
      refine ⟨⟨fits.1, fits.2, members⟩, Or.inr ⟨?_, List.takeWhile_append_dropWhile.symm, ?_⟩⟩
      · intro brace
        exact other rest.tail (List.cons_head?_tail brace).symm
      · intro byte first
        have stops := List.head?_dropWhile_not isNameByte rest
        rw [first] at stops
        simpa using stops
    · cases found

theorem Refers.shorter {rest name behind : Bytes} (refers : Refers rest name behind) :
    behind.length < rest.length := by
  have named := List.length_pos_iff.mpr refers.named.1
  rcases refers.form with braced | ⟨-, plain, -⟩
  · rw [braced, List.length_cons, List.length_append, List.length_cons]
    omega
  · rw [plain, List.length_append]
    omega

/-- The reference expansion of a token. -/
def expansion (env : Environment) : Bytes → Bytes
  | [] => []
  | byte :: rest =>
    if byte = 36 then
      match _ : referenceAt rest with
      | some (name, behind) => (env.getenv name).getD [] ++ expansion env behind
      | none => byte :: expansion env rest
    else byte :: expansion env rest
termination_by token => token.length
decreasing_by
  · exact (referenceAt_spec ‹_›).shorter.trans (Nat.lt_succ_self _)
  · exact Nat.lt_succ_self _
  · exact Nat.lt_succ_self _

/-- Every `$` with something behind it begins a reference, and a reference in braces ends
the token. -/
def Expandable (token : Bytes) : Prop :=
  ∀ front rest, token = front ++ 36 :: rest → rest ≠ [] →
    ∃ name behind, referenceAt rest = some (name, behind) ∧ (rest.head? = some 123 → behind = [])

theorem expansion_literal {byte : UInt8} (other : byte ≠ 36) (rest : Bytes) :
    expansion env (byte :: rest) = byte :: expansion env rest := by
  rw [expansion, if_neg other]

theorem expansion_reference {rest name behind : Bytes}
    (found : referenceAt rest = some (name, behind)) :
    expansion env (36 :: rest) = (env.getenv name).getD [] ++ expansion env behind := by
  rw [expansion, if_pos rfl]
  split
  · rename_i other
    obtain ⟨rfl, rfl⟩ := Prod.mk.inj (Option.some.inj (found.symm.trans other))
    rfl
  · rename_i missing
    rw [found] at missing
    cases missing

theorem expansion_dollar {rest : Bytes} (missing : referenceAt rest = none) :
    expansion env (36 :: rest) = 36 :: expansion env rest := by
  rw [expansion, if_pos rfl]
  split
  · rename_i found
    rw [missing] at found
    cases found
  · rfl

theorem expansion_last : expansion env [36] = [36] := by
  rw [expansion_dollar rfl, expansion]

end Reference

section Steps

theorem expandFrom_byte {result rest : Bytes} {byte : UInt8} (room : result.length < maxLine - 1)
    (copied : byte ≠ 36 ∨ rest = []) :
    expandFrom env result (byte :: rest) = expandFrom env (result ++ [byte]) rest := by
  rw [expandFrom, if_neg (not_le.mpr room), if_neg]
  rintro ⟨dollar, more⟩
  exact copied.elim (· dollar) more

/-- What the loop goes on with behind a reference: without the byte behind the braces. -/
theorem expandFrom_reference {result rest name behind : Bytes} (room : result.length < maxLine - 1)
    (found : referenceAt rest = some (name, behind)) :
    expandFrom env result (36 :: rest) =
      expandFrom env (appendValue env result name)
        (if rest.head? = some 123 then behind.drop 1 else behind) := by
  obtain ⟨⟨nonempty, short, named⟩, form⟩ := referenceAt_spec found
  have fits : name.length ≤ 255 := Nat.le_of_lt_succ short
  rcases form with braced | ⟨unbraced, plain, stops⟩
  · have taken : (name ++ 125 :: behind).takeWhile (· != 125) = name := by
      apply takeWhile_stops
      · intro byte member
        have other : byte ≠ 125 := by
          rintro rfl
          exact absurd (named 125 member) (by decide)
        simpa using other
      · rintro _ ⟨⟩
        rfl
    rw [expandFrom, if_neg (not_le.mpr room), if_pos ⟨rfl, by simp [braced]⟩,
      if_pos (by simp [braced]), braced]
    simp only [List.drop_succ_cons, List.drop_zero, taken, List.take_of_length_le fits,
      List.drop_left, List.head?_cons,
      if_true]
  · have taken : (name ++ behind).takeWhile isNameByte = name := takeWhile_stops named stops
    have some_name : name ++ behind ≠ [] :=
      fun empty => nonempty (List.append_eq_nil_iff.mp empty).1
    rw [expandFrom, if_neg (not_le.mpr room), if_pos ⟨rfl, by rw [plain]; exact some_name⟩,
      if_neg unbraced,
      if_neg unbraced, plain]
    simp only [taken, List.take_of_length_le fits, List.drop_left]

theorem appendValue_fits {result name : Bytes}
    (fits : (result ++ (env.getenv name).getD []).length < maxLine - 1) :
    appendValue env result name = result ++ (env.getenv name).getD [] := by
  unfold appendValue
  cases found : env.getenv name with
  | none => simp
  | some value =>
    rw [found, List.length_append] at fits
    exact if_pos fits

end Steps

theorem Expandable.behind {token : Bytes} (expandable : Expandable token) {front rest : Bytes}
    (split : token = front ++ rest) : Expandable rest := by
  intro inner after same
  apply expandable (front ++ inner)
  rw [split, same, List.append_assoc]

/-- An expandable token whose expansion leaves room is expanded as the reference says. -/
theorem expandFrom_expansion {token : Bytes} (expandable : Expandable token) {result : Bytes}
    (short : (result ++ expansion env token).length < maxLine - 1) :
    expandFrom env result token = result ++ expansion env token := by
  induction size : token.length using Nat.strong_induction_on generalizing token result with
  | _ length ih =>
    cases token with
    | nil => rw [expandFrom, expansion, List.append_nil]
    | cons byte rest =>
      have room : result.length < maxLine - 1 := by
        rw [List.length_append] at short
        exact (Nat.le_add_right _ _).trans_lt short
      rw [List.length_cons] at size
      by_cases dollar : byte = 36 ∧ rest ≠ []
      · obtain ⟨rfl, more⟩ := dollar
        obtain ⟨name, behind, found, closing⟩ := expandable [] rest rfl more
        have shorter := (referenceAt_spec found).shorter
        rw [expansion_reference found, ← List.append_assoc] at short ⊢
        have value : (result ++ (env.getenv name).getD []).length < maxLine - 1 := by
          rw [List.length_append] at short
          exact (Nat.le_add_right _ _).trans_lt short
        have behindExpandable : Expandable behind := by
          rcases (referenceAt_spec found).form with braced | ⟨-, plain, -⟩
          · exact @Expandable.behind _ expandable
              (36 :: 123 :: (name ++ [125])) _ (by simp [braced])
          · exact @Expandable.behind _ expandable (36 :: name) _ (by simp [plain])
        have goes_on : (if rest.head? = some 123 then behind.drop 1 else behind) = behind := by
          split
          · rename_i brace
            rw [closing brace, List.drop_nil]
          · rfl
        rw [expandFrom_reference room found, appendValue_fits value, goes_on]
        exact ih behind.length (by omega) behindExpandable short rfl
      · have copied : byte ≠ 36 ∨ rest = [] := by
          by_contra neither
          rw [not_or, not_not] at neither
          exact dollar neither
        have reference : expansion env (byte :: rest) = byte :: expansion env rest := by
          rcases copied with other | last
          · exact expansion_literal other rest
          · subst last
            by_cases same : byte = 36
            · rw [same, expansion_last, expansion]
            · exact expansion_literal same []
        rw [reference, List.append_cons] at short ⊢
        rw [expandFrom_byte room copied]
        exact ih rest.length (by omega) (@Expandable.behind _ expandable [byte] _ rfl) short rfl

/-- Every variable is set to the same value. -/
def Environment.constant (value : Bytes) : Environment :=
  ⟨fun name => if name = [] then Option.none else some value, rfl⟩

theorem getenv_constant {name : Bytes} (nonempty : name ≠ []) (value : Bytes) :
    (Environment.constant value).getenv name = some value := if_neg nonempty

section Dollars

/-- A `$` that is no part of some bytes stands behind them. -/
theorem split_dollar {front rest literal behind : Bytes}
    (same : front ++ 36 :: rest = literal ++ behind)
    (plain : 36 ∉ literal) : ∃ inner, front = literal ++ inner ∧ behind = inner ++ 36 :: rest := by
  rcases List.append_eq_append_iff.mp same with ⟨inner, literalSplit, behindSplit⟩ | ⟨inner,
    frontSplit, behindSplit⟩
  · cases inner with
    | nil => exact ⟨[], by simpa using literalSplit.symm, by simpa using behindSplit.symm⟩
    | cons byte inner =>
      obtain ⟨rfl, -⟩ := List.cons.inj behindSplit
      exact absurd (literalSplit ▸ List.mem_append_right front List.mem_cons_self) plain
  · exact ⟨inner, frontSplit, behindSplit⟩

theorem Refers.dollarless {rest name behind : Bytes} (refers : Refers rest name behind) :
    36 ∉ name := by
  intro member
  exact absurd (refers.named.2.2 36 member) (by decide)

theorem Refers.split {front rest name behind : Bytes}
    (refers : Refers (front ++ 36 :: rest) name behind) :
    ∃ inner, inner.length ≤ front.length ∧ behind = inner ++ 36 :: rest := by
  have shorten {literal inner : Bytes} (same : front = literal ++ inner) :
      inner.length ≤ front.length := by
    rw [same, List.length_append]
    exact Nat.le_add_left _ _
  rcases refers.form with braced | ⟨-, plain, -⟩
  · have same : front ++ 36 :: rest = (123 :: (name ++ [125])) ++ behind := by simp [braced]
    obtain ⟨inner, start, rfl⟩ := split_dollar same (by simp [refers.dollarless])
    exact ⟨inner, shorten start, rfl⟩
  · obtain ⟨inner, start, rfl⟩ := split_dollar plain refers.dollarless
    exact ⟨inner, shorten start, rfl⟩

theorem expansion_at_dollar (env : Environment) (front rest : Bytes) :
    ∃ before, expansion env (front ++ 36 :: rest) = before ++ expansion env (36 :: rest) := by
  induction size : front.length using Nat.strong_induction_on generalizing front with
  | _ length ih =>
    cases front with
    | nil => exact ⟨[], rfl⟩
    | cons byte front =>
      rw [List.length_cons] at size
      obtain ⟨later, reached⟩ := ih front.length (by omega) front rfl
      by_cases dollar : byte = 36
      · subst dollar
        rw [List.cons_append]
        cases found : referenceAt (front ++ 36 :: rest) with
        | none => exact ⟨36 :: later, by rw [expansion_dollar found, reached]; rfl⟩
        | some reference =>
          obtain ⟨name, behind⟩ := reference
          obtain ⟨inner, shorter, rfl⟩ := (referenceAt_spec found).split
          obtain ⟨before, kept⟩ := ih inner.length (by omega) inner rfl
          exact ⟨(env.getenv name).getD [] ++
            before, by rw [expansion_reference found, kept, List.append_assoc]⟩
      · exact ⟨byte :: later, by rw [List.cons_append, expansion_literal dollar, reached]; rfl⟩

/-- How many `$` end a token. -/
def endingDollars (token : Bytes) : Nat := if token.getLast? = some 36 then 1 else 0

theorem endingDollars_suffix {part token : Bytes} (suffix : part <:+ token) :
    endingDollars part ≤ endingDollars token := by
  obtain ⟨front, rfl⟩ := suffix
  by_cases empty : part = []
  · simp [empty, endingDollars]
  · rw [endingDollars, endingDollars, List.getLast?_append_of_ne_nil _ empty]

/-- The reference expansion keeps a `$` that begins no reference, and one that ends the token. -/
theorem expansion_dollars (env : Environment) {front rest : Bytes}
    (missing : referenceAt rest = none) (more : rest ≠ []) :
    endingDollars (front ++ 36 :: rest) < (expansion env (front ++ 36 :: rest)).count 36 := by
  obtain ⟨before, reached⟩ := expansion_at_dollar env front rest
  have ending : endingDollars (front ++ 36 :: rest) ≤ (expansion env rest).count 36 := by
    rw [endingDollars, List.getLast?_append_of_ne_nil _ (List.cons_ne_nil 36 rest)]
    split
    · rename_i last
      obtain ⟨start, rfl⟩ : ∃ start, rest = start ++ [36] := by
        rw [List.getLast?_cons, Option.some.injEq] at last
        refine ⟨rest.dropLast, ?_⟩
        have split := List.dropLast_append_getLast more
        rw [List.getLast?_eq_some_getLast more, Option.getD_some] at last
        rw [← last]
        exact split.symm
      obtain ⟨earlier, kept⟩ := expansion_at_dollar env start []
      rw [kept, expansion_last, List.count_append, List.count_singleton_self]
      exact Nat.le_add_left _ _
    · exact Nat.zero_le _
  rw [reached, expansion_dollar missing, List.count_append, List.count_cons_self]
  omega

theorem appendValue_empty (result name : Bytes) :
    appendValue (.constant []) result name = result := by
  unfold appendValue
  by_cases empty : name = []
  · rw [empty, (Environment.constant []).unnamed]
  · simp [getenv_constant empty]

/-- The code keeps no `$` but the one that ends the token. -/
theorem expandFrom_dollars (result token : Bytes) :
    (expandFrom (.constant []) result token).count 36 ≤ result.count 36 + endingDollars token := by
  fun_induction expandFrom (Environment.constant []) result token with
  | case1 result => exact Nat.le_add_right _ _
  | case2 result byte rest full => exact Nat.le_add_right _ _
  | case3 result byte rest room starts brace inner name behind closed ih =>
    rw [appendValue_empty] at ih ⊢
    have suffix : closed.drop 1 <:+ byte :: rest := by
      have closedSuffix : closed <:+ behind := by
        dsimp only [closed]
        split
        · exact List.drop_suffix _ _
        · exact List.suffix_refl _
      exact (List.drop_suffix _ _).trans (closedSuffix.trans ((List.drop_suffix _ _).trans
        ((List.drop_suffix 1 rest).trans (List.suffix_cons byte rest))))
    exact ih.trans (Nat.add_le_add_left (endingDollars_suffix suffix) _)
  | case4 result byte rest room starts brace name ih =>
    rw [appendValue_empty] at ih ⊢
    have suffix : rest.drop name.length <:+ byte :: rest :=
      (List.drop_suffix _ _).trans (List.suffix_cons byte rest)
    exact ih.trans (Nat.add_le_add_left (endingDollars_suffix suffix) _)
  | case5 result byte rest room plain ih =>
    refine ih.trans ?_
    rw [List.count_append, Nat.add_assoc]
    refine Nat.add_le_add_left ?_ _
    by_cases last : rest = []
    · subst last
      by_cases dollar : byte = 36 <;> simp [endingDollars, dollar]
    · have other : byte ≠ 36 := fun dollar => plain ⟨dollar, last⟩
      rw [List.count_singleton, if_neg (by simpa using other), Nat.zero_add]
      exact endingDollars_suffix (List.suffix_cons byte rest)

end Dollars

section Sizes
variable {value : Bytes}

/-- What `appendValue` adds when every variable has one value. -/
theorem appendValue_constant {result name : Bytes}
    (room : result.length + value.length < maxLine - 1) :
    appendValue (.constant value) result name = result ++ if name = [] then [] else value := by
  unfold appendValue
  by_cases empty : name = []
  · rw [empty, (Environment.constant value).unnamed, if_pos rfl, List.append_nil]
  · rw [getenv_constant empty, if_neg empty]
    exact if_pos room

/-- With values of one byte at most the result never fills up, and what is in it already
makes no difference. -/
theorem expandFrom_result (small : value.length ≤ 1) {token result : Bytes}
    (room : result.length + token.length < maxLine) :
    expandFrom (.constant value) result token = result ++ expandFrom (.constant value)
      [] token := by
  induction size : token.length using Nat.strong_induction_on generalizing token result with
  | _ length ih =>
    have added {name : Bytes} : (if name = [] then [] else value).length ≤ 1 := by
      split
      · exact Nat.zero_le 1
      · exact small
    cases token with
    | nil => rw [expandFrom, expandFrom, List.append_nil]
    | cons byte rest =>
      rw [List.length_cons] at size room
      have limit : maxLine = 4096 := rfl
      conv_lhs => rw [expandFrom, if_neg (show ¬ result.length ≥ maxLine - 1 by omega)]
      conv_rhs => rw [expandFrom, if_neg (show ¬ ([] : Bytes).length ≥ maxLine - 1 by decide)]
      have behind (name : Bytes) (more : rest ≠ []) {later : Bytes}
          (shorter : later.length ≤ rest.length) :
          expandFrom (.constant value) (appendValue (.constant value) result name) later =
            result ++ expandFrom (.constant value)
                (appendValue (.constant value) [] name) later := by
        have nonempty := List.length_pos_iff.mpr more
        have added := @added name
        have whole : (result ++ if name = [] then [] else value).length +
            later.length < maxLine := by
          rw [List.length_append]
          omega
        have part : (if name = [] then [] else value).length + later.length < maxLine := by omega
        have start : ([] : Bytes).length + value.length < maxLine - 1 := by
          rw [List.length_nil]
          omega
        rw [appendValue_constant (show result.length + value.length < maxLine - 1 by omega),
          appendValue_constant start,
          List.nil_append, ih later.length (by omega) whole rfl,
          ih later.length (by omega) part rfl, List.append_assoc]
      split_ifs with starts brace
      · apply behind _ starts.2
        split <;> simp only [List.length_drop] <;> omega
      · apply behind _ starts.2
        simp only [List.length_drop]
        omega
      · have whole : (result ++ [byte]).length + rest.length < maxLine := by
          rw [List.length_append, List.length_singleton]
          omega
        have part : [byte].length + rest.length < maxLine := by
          rw [List.length_singleton]
          omega
        rw [ih rest.length (by omega) whole rfl, List.nil_append,
          ih rest.length (by omega) part rfl, List.append_assoc]

/-- The length of what the code makes of a token. -/
def codeLength (value token : Bytes) : Nat := (expandFrom (.constant value) [] token).length

/-- The length of the reference expansion. -/
def referenceLength (value token : Bytes) : Nat := (expansion (.constant value) token).length

theorem codeLength_byte (small : value.length ≤ 1) {byte : UInt8} {rest : Bytes}
    (buffered : (byte :: rest).length < maxLine) (copied : byte ≠ 36 ∨ rest = []) :
    codeLength value (byte :: rest) = 1 + codeLength value rest := by
  have part : [byte].length + rest.length < maxLine := by
    rw [List.length_cons] at buffered
    rw [List.length_singleton]
    omega
  rw [codeLength, expandFrom_byte (by decide) copied, List.nil_append,
    expandFrom_result small part, List.length_append]
  rfl

theorem codeLength_literal (small : value.length ≤ 1) {literal rest : Bytes}
    (buffered : (literal ++ rest).length < maxLine) (plain : 36 ∉ literal) :
    codeLength value (literal ++ rest) = literal.length + codeLength value rest := by
  induction literal with
  | nil => simp
  | cons byte literal ih =>
    rw [List.mem_cons, not_or] at plain
    rw [List.cons_append] at buffered ⊢
    rw [codeLength_byte small buffered (Or.inl fun same => plain.1 same.symm),
      ih ((Nat.lt_succ_self _).trans buffered) plain.2, List.length_cons]
    omega

theorem codeLength_reference (small : value.length ≤ 1) {rest name behind : Bytes}
    (buffered : (36 :: rest).length < maxLine) (found : referenceAt rest = some (name, behind)) :
    codeLength value (36 :: rest) =
      value.length + codeLength value
        (if rest.head? = some 123 then behind.drop 1 else behind) := by
  have refers := referenceAt_spec found
  have shorter := refers.shorter
  have limit : maxLine = 4096 := rfl
  rw [List.length_cons] at buffered
  have start : ([] : Bytes).length + value.length < maxLine - 1 := by
    rw [List.length_nil]
    omega
  have later : (if rest.head? = some 123 then behind.drop 1 else behind).length ≤
      behind.length := by
    split
    · rw [List.length_drop]
      exact Nat.sub_le _ _
    · exact le_refl _
  rw [codeLength, expandFrom_reference (by decide) found, appendValue_constant start,
    if_neg refers.named.1,
    List.nil_append, expandFrom_result small (by omega), List.length_append]
  rfl

theorem referenceLength_reference {rest name behind : Bytes}
    (found : referenceAt rest = some (name, behind)) :
    referenceLength value (36 :: rest) = value.length + referenceLength value behind := by
  rw [referenceLength, expansion_reference found, getenv_constant (referenceAt_spec found).named.1,
    List.length_append]
  rfl

theorem referenceLength_byte {byte : UInt8} {rest : Bytes} (copied : byte ≠ 36 ∨ rest = []) :
    referenceLength value (byte :: rest) = 1 + referenceLength value rest := by
  have kept : expansion (.constant value) (byte :: rest) =
      byte :: expansion (.constant value) rest := by
    by_cases dollar : byte = 36
    · obtain rfl := copied.resolve_left (· dollar)
      rw [dollar, expansion_last, expansion]
    · exact expansion_literal dollar rest
  rw [referenceLength, kept, List.length_cons, Nat.add_comm]
  rfl

end Sizes

section Comparison

theorem Expandable.byte {byte : UInt8} {rest : Bytes} (expandable : Expandable rest)
    (copied : byte ≠ 36 ∨ rest = []) :
    Expandable (byte :: rest) := by
  intro front after same more
  cases front with
  | nil =>
    obtain ⟨dollar, rfl⟩ := List.cons.inj same
    exact absurd (copied.resolve_left (· dollar)) more
  | cons _ front => exact expandable front after (List.cons.inj same).2 more

theorem Expandable.reference {rest name behind : Bytes} (expandable : Expandable behind)
    (found : referenceAt rest = some (name, behind))
    (closing : rest.head? = some 123 → behind = []) :
    Expandable (36 :: rest) := by
  intro front after same more
  cases front with
  | nil =>
    obtain ⟨-, rfl⟩ := List.cons.inj same
    exact ⟨name, behind, found, closing⟩
  | cons _ front =>
    obtain ⟨-, rfl⟩ := List.cons.inj same
    obtain ⟨inner, -, split⟩ := (referenceAt_spec found).split
    exact expandable inner after split more

/-- Every `$` with something behind it begins a reference. -/
def Referable (token : Bytes) : Prop :=
  ∀ front rest, token = front ++ 36 :: rest → rest ≠ [] → referenceAt rest ≠ none

theorem Referable.behind {token : Bytes} (referable : Referable token)
    (front : Bytes) {rest : Bytes} (split : token = front ++ rest) : Referable rest := by
  intro inner after same
  apply referable (front ++ inner)
  rw [split, same, List.append_assoc]

/-- The lengths with values of one byte and without: the code makes no more references, and
with as many of them it keeps no more bytes, and all only in an expandable token. -/
structure Compared (byte : UInt8) (token : Bytes) : Prop where
  values : codeLength [byte] token + referenceLength [] token ≤
    codeLength [] token + referenceLength [byte] token
  literals : codeLength [byte] token + referenceLength [] token =
    codeLength [] token + referenceLength [byte] token →
    codeLength [] token ≤ referenceLength [] token
  expandable : codeLength [byte] token + referenceLength [] token =
    codeLength [] token + referenceLength [byte] token →
    codeLength [] token = referenceLength [] token → Expandable token

variable {letter : UInt8}

/-- What a piece in front adds to the lengths: the code makes no more references of it, and
with as many of them it keeps no more bytes. -/
theorem Compared.grows {token rest : Bytes} (compared : Compared letter rest)
    {codeValues codeKept referenceValues referenceKept : Nat}
    (code : ∀ value, value.length ≤ 1 →
      codeLength value token = codeValues * value.length + (codeKept + codeLength value rest))
    (reference : ∀ value,
      referenceLength value token =
        referenceValues * value.length + (referenceKept + referenceLength value rest))
    (fewer : codeValues ≤ referenceValues)
    (less : codeValues = referenceValues → codeKept ≤ referenceKept)
    (whole : codeValues = referenceValues → codeKept = referenceKept →
      Expandable rest → Expandable token) :
    Compared letter token := by
  have codeOne : codeLength [letter] token =
      codeValues + (codeKept + codeLength [letter] rest) := by
    rw [code [letter] (le_refl 1), List.length_singleton, Nat.mul_one]
  have codeNone : codeLength [] token = codeKept + codeLength [] rest := by
    rw [code [] (Nat.zero_le 1), List.length_nil, Nat.mul_zero, Nat.zero_add]
  have referenceOne : referenceLength [letter] token =
      referenceValues + (referenceKept + referenceLength [letter] rest) := by
    rw [reference, List.length_singleton, Nat.mul_one]
  have referenceNone : referenceLength [] token = referenceKept + referenceLength [] rest := by
    rw [reference, List.length_nil, Nat.mul_zero, Nat.zero_add]
  obtain ⟨values, literals, expandable⟩ := compared
  have alike (same : codeLength [letter] token + referenceLength [] token =
      codeLength [] token + referenceLength [letter] token) : codeValues = referenceValues ∧
      codeLength [letter] rest + referenceLength [] rest =
          codeLength [] rest + referenceLength [letter] rest := by
    omega
  constructor
  · omega
  · intro same
    have keeps := less (alike same).1
    have kept := literals (alike same).2
    omega
  · intro same equal
    have keeps := less (alike same).1
    have kept := literals (alike same).2
    exact whole (alike same).1 (by omega) (expandable (alike same).2 (by omega))

theorem Compared.byte {byte : UInt8} {rest : Bytes} (compared : Compared letter rest)
    (buffered : (byte :: rest).length < maxLine) (copied : byte ≠ 36 ∨ rest = []) :
      Compared letter (byte :: rest) := by
  refine @Compared.grows letter _ _ compared 0 1 0 1 ?_ ?_ (le_refl 0) (fun _ => le_refl 1)
    (fun _ _ expandable => expandable.byte copied)
  · intro value small
    rw [codeLength_byte small buffered copied, Nat.zero_mul, Nat.zero_add]
  · intro value
    rw [referenceLength_byte copied, Nat.zero_mul, Nat.zero_add]

theorem Compared.reference {rest name behind : Bytes} (compared : Compared letter behind)
    (buffered : (36 :: rest).length < maxLine) (found : referenceAt rest = some (name, behind))
    (closing : rest.head? = some 123 → behind = []) : Compared letter (36 :: rest) := by
  have goes_on : (if rest.head? = some 123 then behind.drop 1 else behind) = behind := by
    split
    · rename_i brace
      rw [closing brace, List.drop_nil]
    · rfl
  refine @Compared.grows letter _ _ compared 1 0 1 0 ?_ ?_ (le_refl 1) (fun _ => le_refl 0)
    (fun _ _ expandable => expandable.reference found closing)
  · intro value small
    rw [codeLength_reference small buffered found, goes_on, Nat.one_mul, Nat.zero_add]
  · intro value
    rw [referenceLength_reference found, Nat.one_mul, Nat.zero_add]

/-- A reference in braces behind which the code skips a byte that the reference keeps. -/
theorem Compared.skipped_byte {rest name after : Bytes} {byte : UInt8}
    (compared : Compared letter after) (buffered : (36 :: rest).length < maxLine)
    (found : referenceAt rest = some (name, byte :: after))
    (brace : rest.head? = some 123) (copied : byte ≠ 36 ∨ after = []) :
      Compared letter (36 :: rest) := by
  refine @Compared.grows letter _ _ compared 1 0 1 1 ?_ ?_ (le_refl 1) (fun _ => Nat.zero_le 1)
    (fun _ lost => absurd lost Nat.zero_ne_one)
  · intro value small
    rw [codeLength_reference small buffered found, if_pos brace, List.drop_succ_cons,
      List.drop_zero, Nat.one_mul,
      Nat.zero_add]
  · intro value
    rw [referenceLength_reference found, referenceLength_byte copied, Nat.one_mul]

/-- A reference in braces behind which the code skips the `$` of another reference, whose
bytes it then keeps. -/
theorem Compared.skipped_dollar {rest name after literal behind : Bytes}
    (compared : Compared letter behind)
    (buffered : (36 :: rest).length < maxLine) (found : referenceAt rest = some (name, 36 :: after))
    (brace : rest.head? = some 123) {other : Bytes}
    (next : referenceAt after = some (other, behind))
    (split : after = literal ++ behind) (plain : 36 ∉ literal) : Compared letter (36 :: rest) := by
  have shorter := (referenceAt_spec found).shorter
  refine @Compared.grows letter _ _ compared 1 literal.length 2 0 ?_ ?_ one_le_two
    (fun one_two => absurd one_two (by decide)) (fun one_two => absurd one_two (by decide))
  · intro value small
    rw [codeLength_reference small buffered found, if_pos brace, List.drop_succ_cons,
      List.drop_zero, split,
      codeLength_literal small
        (by rw [← split]; simp only [List.length_cons] at buffered shorter; omega) plain,
      Nat.one_mul]
  · intro value
    rw [referenceLength_reference found, referenceLength_reference next, Nat.two_mul,
      Nat.zero_add, Nat.add_assoc]

theorem compared {token : Bytes} (buffered : token.length < maxLine) (referable : Referable token) :
    Compared letter token := by
  induction size : token.length using Nat.strong_induction_on generalizing token with
  | _ length ih =>
    cases token with
    | nil => exact ⟨by simp [codeLength, referenceLength, expandFrom, expansion],
        by
      simp [codeLength, referenceLength, expandFrom, expansion], fun _ _ front rest same => by
        simp at same⟩
    | cons byte rest =>
      have recursion {front later : Bytes} (split : byte :: rest = front ++ later)
          (some_front : front ≠ []) :
          Compared letter later := by
        have whole := congrArg List.length split
        have positive := List.length_pos_iff.mpr some_front
        rw [List.length_append] at whole
        exact ih later.length (by omega) (by omega) (referable.behind front split) rfl
      by_cases copied : byte ≠ 36 ∨ rest = []
      · exact (@recursion [byte] rest rfl (List.cons_ne_nil byte [])).byte buffered copied
      · rw [not_or, not_not] at copied
        obtain ⟨rfl, more⟩ := copied
        obtain ⟨⟨name, behind⟩, found⟩ := Option.ne_none_iff_exists'.mp (referable [] rest rfl more)
        rcases (referenceAt_spec found).form with braced | ⟨unbraced, plain, -⟩
        · have brace : rest.head? = some 123 := by rw [braced]; rfl
          have start : 36 :: rest = (36 :: 123 :: (name ++ [125])) ++ behind := by simp [braced]
          cases behind with
          | nil =>
            exact (recursion start (List.cons_ne_nil _ _)).reference buffered found fun _ => rfl
          | cons next after =>
            by_cases literal : next ≠ 36 ∨ after = []
            · have later : 36 :: rest = (36 :: 123 :: (name ++ [125, next])) ++ after := by
                simp [braced]
              exact (recursion later (List.cons_ne_nil _ _)).skipped_byte buffered found brace
                literal
            · rw [not_or, not_not] at literal
              obtain ⟨rfl, someAfter⟩ := literal
              obtain ⟨⟨other, final⟩, second⟩ :=
                Option.ne_none_iff_exists'.mp (referable.behind _ start [] after rfl someAfter)
              have otherPlain := (referenceAt_spec second).dollarless
              rcases (referenceAt_spec second).form with otherBraced | ⟨-, otherPlainForm, -⟩
              · have same : after = (123 :: (other ++ [125])) ++ final := by simp [otherBraced]
                have later : 36 :: rest =
                    (36 :: 123 :: (name ++ 125 :: 36 :: 123 :: (other ++ [125]))) ++ final := by
                  simp [braced, otherBraced]
                exact (recursion later (List.cons_ne_nil _ _)).skipped_dollar buffered
                  found brace second same
                  (by simp [otherPlain])
              · have later : 36 :: rest = (36 :: 123 :: (name ++ 125 :: 36 :: other)) ++ final := by
                  simp [braced, otherPlainForm]
                exact (recursion later (List.cons_ne_nil _ _)).skipped_dollar buffered found brace
                  second otherPlainForm
                  otherPlain
        · have start : 36 :: rest = (36 :: name) ++ behind := by simp [plain]
          exact (recursion start (List.cons_ne_nil _ _)).reference buffered found fun brace =>
            absurd brace unbraced

end Comparison

section Domain

theorem referenceLength_empty_le (env : Environment) (token : Bytes) :
    referenceLength [] token ≤ (expansion env token).length := by
  fun_induction expansion env token with
  | case1 => simp [referenceLength, expansion]
  | case2 rest name behind found ih =>
    rw [referenceLength_reference found, List.length_append]
    exact (Nat.zero_add _).le.trans (ih.trans (Nat.le_add_left _ _))
  | case3 rest missing ih =>
    rw [referenceLength, expansion_dollar missing]
    exact Nat.succ_le_succ ih
  | case4 byte rest other ih =>
    rw [referenceLength, expansion_literal other]
    exact Nat.succ_le_succ ih

theorem referenceLength_letter (letter : UInt8) (token : Bytes) :
    referenceLength [letter] token ≤ token.length ∧
      (referenceLength [letter] token = referenceLength [] token ∨
        referenceLength [letter] token < token.length) := by
  have grown {byte : UInt8} {rest : Bytes} {longer shorter : Nat}
      (bound : longer ≤ rest.length ∧ (longer = shorter ∨ longer < rest.length)) :
      longer + 1 ≤ (byte :: rest).length ∧
          (longer + 1 = shorter + 1 ∨ longer + 1 < (byte :: rest).length) := by
    rw [List.length_cons]
    omega
  generalize same : Environment.constant [letter] = env
  rw [referenceLength, same]
  fun_induction expansion env token with
  | case1 => simp [referenceLength, expansion]
  | case2 rest name behind found ih =>
    have shorter := (referenceAt_spec found).shorter
    have value : (env.getenv name).getD [] = [letter] := by
      rw [← same, getenv_constant (referenceAt_spec found).named.1]
      rfl
    rw [value, List.length_append, List.length_singleton, List.length_cons]
    omega
  | case3 rest missing ih =>
    rw [referenceLength, expansion_dollar missing]
    exact grown ih
  | case4 byte rest other ih =>
    rw [referenceLength, expansion_literal other]
    exact grown ih

/-- A token that fits into its buffer and is expanded as the reference says with every
environment is expandable. -/
theorem expandable_of_expanded {token : Bytes} (buffered : token.length < maxLine)
    (some_short : ∃ env, (expansion env token).length < maxLine - 1)
    (same : ∀ env, (expansion env token).length < maxLine - 1 →
      expandVariables env token = expansion env token) :
    Expandable token := by
  obtain ⟨env, short⟩ := some_short
  have limit : maxLine = 4096 := rfl
  have empty := (referenceLength_empty_le env token).trans_lt short
  have equal := same (.constant []) empty
  have referable : Referable token := by
    rintro front rest rfl more missing
    have kept : endingDollars (front ++ 36 :: rest) < _ :=
      expansion_dollars (.constant []) missing more
    have lost := expandFrom_dollars [] (front ++ 36 :: rest)
    rw [List.count_nil, Nat.zero_add] at lost
    rw [← equal] at kept
    exact absurd kept (not_lt.mpr lost)
  have letter := referenceLength_letter 97 token
  have one : referenceLength [97] token < maxLine - 1 := by omega
  have equalOne := congrArg List.length (same (.constant [97]) one)
  have equalNone := congrArg List.length equal
  have one : codeLength [97] token = referenceLength [97] token := equalOne
  have none : codeLength [] token = referenceLength [] token := equalNone
  exact (@compared 97 token buffered referable).expandable (by omega) none

end Domain

/-- `expand_variables` is the reference expansion with every environment that leaves room,
exactly for the tokens in which every `$` begins a reference, with nothing behind one in
braces. -/
theorem expandVariables_reference (token : Bytes) :
    (Expandable token → ∀ env, (expansion env token).length < maxLine - 1 →
      expandVariables env token = expansion env token) ∧
    (token.length < maxLine → (∃ env, (expansion env token).length < maxLine - 1) →
      (∀ env, (expansion env token).length < maxLine - 1 →
        expandVariables env token = expansion env token) →
      Expandable token) := by
  constructor
  · intro expandable env short
    rw [expandVariables, expandFrom_expansion expandable (by rwa [List.nil_append]),
      List.nil_append]
  · exact expandable_of_expanded

/-- A path behind a directory in braces. -/
def bracedPath : Bytes := text "$\x7bHOME\x7d/bin"

/-- The slash behind the braces is lost. -/
theorem slash_behind_braces_lost :
    expandVariables (.constant (text "/root")) bracedPath = text "/rootbin" ∧
      expansion (.constant (text "/root")) bracedPath = text "/root/bin" := by
  have found : referenceAt bracedPath.tail = some (text "HOME", text "/bin") := by decide
  constructor
  · change expandFrom _ [] (36 :: bracedPath.tail) = _
    rw [expandFrom_reference (by decide) found]
    exact expandFrom_literal (text "/root") (by decide) (by decide)
  · change expansion _ (36 :: bracedPath.tail) = _
    rw [expansion_reference found]
    change text "/root" ++ expansion _ (47 :: 98 :: 105 :: 110 :: []) = _
    rw [expansion_literal (by decide), expansion_literal (by decide), expansion_literal (by decide),
      expansion_literal (by decide), expansion]
    rfl

end LinuxCLearning.MiniShell
