import LinuxCLearning.Base.Strtol
import LinuxCLearning.FileServer.Auth

/-! The users file, line by line: `auth_init` reads it into the table of users in place, and
what is in the table afterwards are the records of the lines. -/

namespace LinuxCLearning.FileServer

section Table

/-- `auth_user_t` as the memory that it is. -/
structure UserSlot where
  username : CharArray 32
  passwordHash : CharArray 128
  salt : CharArray 17
  permissions : Int
  deriving DecidableEq

/-- `snprintf(field, sizeof(field), "%s", token)`, which leaves what is behind the terminator. -/
def snprintfField {size : Nat} (field : CharArray size) (token : Bytes) : CharArray size :=
  let stored := token.take (size - 1) ++ [0]
  .ofBytes size (stored ++ field.bytes.drop stored.length)

/-- The table in the context: all slots, and how many of them are users. -/
structure UserTable where
  slots : List UserSlot
  userCount : Nat
  full : slots.length = authMaxUsers
  few : userCount ≤ authMaxUsers

namespace UserSlot

/-- A slot of the cleared context. -/
def zero : UserSlot := ⟨.ofBytes 32 [], .ofBytes 128 [], .ofBytes 17 [], 0⟩

/-- The user that is read from a slot. -/
def user (slot : UserSlot) : AuthUser :=
  ⟨.ofBuffer slot.username.bytes, .ofBuffer slot.passwordHash.bytes,
    .ofBuffer slot.salt.bytes, slot.permissions⟩

/-- The calls of `strtok_r` and the stores into the slot; whether all four fields were there. -/
def parse (slot : UserSlot) (record : Bytes) : UserSlot × Bool :=
  match strtok record with
  | none => (slot, false)
  | some (username, rest) =>
    let slot := { slot with username := snprintfField slot.username username }
    match strtok rest with
    | none => (slot, false)
    | some (hash, rest) =>
      let slot := { slot with passwordHash := snprintfField slot.passwordHash hash }
      match strtok rest with
      | none => (slot, false)
      | some (salt, rest) =>
        let slot := { slot with salt := snprintfField slot.salt salt }
        match strtok rest with
        | none => (slot, false)
        | some (permissions, _) => ({ slot with permissions := atoi permissions }, true)

end UserSlot

namespace UserTable

/-- `memset(ctx, 0, sizeof(auth_context_t))`. -/
def zero : UserTable := ⟨List.replicate authMaxUsers .zero, 0, List.length_replicate, Nat.zero_le _⟩

/-- `users[0 .. user_count - 1]`. -/
def users (table : UserTable) : List AuthUser :=
  (table.slots.take table.userCount).map UserSlot.user

/-- A record goes into the next free slot, and the slot is counted if the record is complete. -/
def store (table : UserTable) (record : Bytes) (room : table.userCount < authMaxUsers) :
    UserTable :=
  let (slot, complete) := (table.slots.getD table.userCount .zero).parse record
  { slots := table.slots.set table.userCount slot
    userCount := if complete then table.userCount + 1 else table.userCount
    full := List.length_set.trans table.full
    few := by
      split
      · exact room
      · exact table.few }

/-- The loop of `auth_init` over the lines of the file. -/
def readLines (input : Bytes) (table : UserTable) : UserTable :=
  if input = [] then table
  else
    let line := fgetsLine 511 input
    match recordText line with
    | none => readLines (input.drop line.length) table
    | some record =>
      if room : table.userCount < authMaxUsers then readLines (input.drop line.length)
        (table.store record room)
      else table
termination_by input.length
decreasing_by
  · exact drop_line_lt ‹_›
  · exact drop_line_lt ‹_›

end UserTable

/-- The table after `auth_init`, which returns -1 only if the file cannot be opened. -/
def authInitTable (content : Option Bytes) : Option UserTable :=
  content.map fun input => UserTable.zero.readLines input

end Table

section Refinement

/-- A field reads as the token in it, whatever it held before. -/
theorem snprintfField_read {size : Nat} (some_size : 0 < size)
    (field : CharArray size) (token : Bytes) :
    CString.ofBuffer (snprintfField field token).bytes = fieldOf size token := by
  have stored : (token.take (size - 1) ++ [(0 : UInt8)]).length ≤ size := by
    rw [List.length_append, List.length_take, List.length_singleton]
    omega
  have whole : (snprintfField field token).bytes =
      token.take (size - 1) ++ 0 :: field.bytes.drop
          (token.take (size - 1) ++ [(0 : UInt8)]).length := by
    have filled : size ≤ (token.take (size - 1) ++ [(0 : UInt8)] ++
        field.bytes.drop (token.take (size - 1) ++ [(0 : UInt8)]).length).length := by
      rw [List.length_append, List.length_drop, field.full]
      omega
    simp only [snprintfField, CharArray.ofBytes]
    rw [List.takeD_eq_take 0 filled, List.take_of_length_le]
    · rw [List.append_assoc, List.singleton_append]
    · rw [List.length_append, List.length_drop, field.full]
      omega
  apply CString.eq_of_bytes
  rw [whole]
  exact takeWhile_first (by decide) _ _

/-- What a slot holds after a record does not depend on what an abandoned record has left in it. -/
theorem parse_user (slot : UserSlot) (record : Bytes) :
    parseUser record = if (slot.parse record).2 then some (slot.parse record).1.user else none := by
  unfold parseUser UserSlot.parse
  simp only [Option.bind_eq_bind]
  cases first : strtok record with
  | none => rfl
  | some username =>
    simp only [Option.bind_some]
    cases second : strtok username.2 with
    | none => rfl
    | some hash =>
      simp only [Option.bind_some]
      cases third : strtok hash.2 with
      | none => rfl
      | some salt =>
        simp only [Option.bind_some]
        cases fourth : strtok salt.2 with
        | none => rfl
        | some permissions =>
          simp only [Option.bind_some, if_true, UserSlot.user,
            snprintfField_read (by decide : 0 < 32),
            snprintfField_read (by decide : 0 < 128), snprintfField_read (by decide : 0 < 17)]
          rfl

variable (table : UserTable)

theorem users_length : table.users.length = table.userCount := by
  rw [UserTable.users, List.length_map, List.length_take, table.full]
  exact min_eq_left table.few

/-- A record adds its user to the table, and an incomplete one adds nothing. -/
theorem store_users (record : Bytes) (room : table.userCount < authMaxUsers) :
    (table.store record room).users = table.users ++ (parseUser record).toList := by
  rw [parse_user (table.slots.getD table.userCount .zero) record]
  have inside : table.userCount < table.slots.length := room.trans_eq table.full.symm
  simp only [UserTable.store, UserTable.users]
  generalize (table.slots.getD table.userCount .zero).parse record = parsed
  obtain ⟨slot, complete⟩ := parsed
  cases complete with
  | false =>
    simp only [Bool.false_eq_true, if_false, Option.toList_none, List.append_nil]
    rw [List.take_set_of_le (le_refl _)]
  | true =>
    simp only [if_true, Option.toList_some]
    rw [List.take_succ_eq_append_getElem (by rwa [List.length_set]),
      List.take_set_of_le (le_refl _),
      List.getElem_set_self, List.map_append, List.map_singleton]

theorem readLines_users (input : Bytes) :
    (table.readLines input).users = parseUsers input table.users := by
  fun_induction UserTable.readLines input table with
  | case1 table => rw [parseUsers, if_pos rfl]
  | case2 input table nonempty line skipped ih =>
    rw [ih]
    conv_rhs => rw [parseUsers, if_neg nonempty]
    dsimp only
    rw [skipped]
  | case3 input table nonempty line record found room ih =>
    rw [ih, store_users]
    conv_rhs => rw [parseUsers, if_neg nonempty]
    dsimp only
    rw [found, users_length]
    exact (if_neg (not_le.mpr room)).symm
  | case4 input table nonempty line record found full =>
    conv_rhs => rw [parseUsers, if_neg nonempty]
    dsimp only
    rw [found, users_length]
    exact (if_pos (not_lt.mp full)).symm

end Refinement

section Fields

/-- The non-empty fields of a record. -/
def fields (record : Bytes) : List Bytes := (record.splitOn 58).filter (· ≠ [])

theorem fields_nil : fields [] = [] := rfl

theorem fields_append (before behind : Bytes) :
    fields (before ++ 58 :: behind) = fields before ++ fields behind :=
  words_append before behind

theorem fields_single {field : Bytes} (noColon : 58 ∉ field) (some_field : field ≠ []) :
    fields field = [field] :=
  words_single noColon some_field

theorem fields_colons (record : Bytes) : fields record = fields (record.dropWhile (· == 58)) := by
  induction record with
  | nil => rfl
  | cons byte record ih =>
    by_cases colon : byte = 58
    · subst colon
      rw [List.dropWhile_cons_of_pos rfl, ← ih]
      exact fields_append [] record
    · rw [List.dropWhile_cons_of_neg (by simpa using colon)]

/-- `strtok_r` finds the non-empty fields one after the other. -/
theorem strtok_fields (record : Bytes) :
    (strtok record = none ∧ fields record = []) ∨
      ∃ field rest, strtok record = some (field, rest) ∧ fields record = field :: fields rest := by
  rw [fields_colons, strtok]
  have first := List.head?_dropWhile_not (· == 58) record
  generalize record.dropWhile (· == 58) = start at first
  split
  · rename_i empty
    subst empty
    exact Or.inl ⟨rfl, rfl⟩
  · rename_i some_start
    refine Or.inr ⟨_, _, rfl, ?_⟩
    have noColon : 58 ∉ start.takeWhile (· != 58) := by
      intro member
      have kept := List.mem_takeWhile_imp member
      exact absurd kept (by decide)
    have some_field : start.takeWhile (· != 58) ≠ [] := by
      cases start with
      | nil => exact absurd rfl some_start
      | cons byte start =>
        rw [List.takeWhile_cons_of_pos (by simpa using first)]
        exact List.cons_ne_nil _ _
    have ends := List.head?_dropWhile_not (· != 58) start
    conv_lhs => rw [← List.takeWhile_append_dropWhile (p := (· != 58)) (l := start)]
    cases behind : start.dropWhile (· != 58) with
    | nil =>
      rw [List.append_nil, List.drop_nil, fields_nil]
      exact fields_single noColon some_field
    | cons byte rest =>
      rw [behind, List.head?_cons] at ends
      obtain rfl : byte = 58 := by simpa using ends
      rw [fields_append, fields_single noColon some_field]
      rfl

theorem parseUser_fields {record : Bytes} {user : AuthUser}
    (parsed : parseUser record = some user) :
    4 ≤ (fields record).length := by
  obtain ⟨⟨username, behindUsername⟩, first, parsed⟩ := Option.bind_eq_some_iff.mp parsed
  obtain ⟨⟨hash, behindHash⟩, second, parsed⟩ := Option.bind_eq_some_iff.mp parsed
  obtain ⟨⟨salt, behindSalt⟩, third, parsed⟩ := Option.bind_eq_some_iff.mp parsed
  obtain ⟨⟨permissions, rest⟩, fourth, _⟩ := Option.bind_eq_some_iff.mp parsed
  have step {string field rest : Bytes} (found : strtok string = some (field, rest)) :
      (fields string).length = (fields rest).length + 1 := by
    rcases strtok_fields string with ⟨absent, _⟩ | ⟨_, _, present, split⟩
    · rw [found] at absent
      cases absent
    · rw [found] at present
      cases present
      rw [split, List.length_cons]
  rw [step first, step second, step third, step fourth]
  exact Nat.le_add_left 4 _

theorem fields_length_append (record more : Bytes) :
    (fields record).length ≤ (fields (record ++ more)).length := by
  induction length : record.length using Nat.strong_induction_on generalizing record with
  | _ size ih =>
    by_cases colon : 58 ∈ record
    · obtain ⟨before, behind, rfl, _⟩ := List.eq_append_cons_of_mem colon
      have shorter : behind.length < size := by
        rw [← length, List.length_append, List.length_cons]
        omega
      have rest := ih behind.length shorter behind rfl
      rw [List.append_assoc, List.cons_append, fields_append, fields_append,
        List.length_append, List.length_append]
      exact Nat.add_le_add_left rest _
    · by_cases empty : record = []
      · subst empty
        exact Nat.zero_le _
      · rw [fields_single colon empty]
        by_cases later : 58 ∈ more
        · obtain ⟨before, behind, rfl, noColon⟩ := List.eq_append_cons_of_mem later
          have one : fields (record ++ before) = [record ++ before] :=
            fields_single (by simp [colon, noColon]) (by simp [empty])
          rw [← List.append_assoc, fields_append, one, List.length_append]
          exact Nat.le_add_right 1 _
        · rw [fields_single (by simp [colon, later]) (by simp [empty])]
          exact le_refl 1

end Fields

section Lines

theorem recordText_end (line : Bytes) {ending : Bytes}
    (ends : ∀ byte ∈ ending, byte = 10 ∨ byte = 13) :
    recordText (line ++ ending) = recordText line := by
  have trimmed :
      (CString.ofBuffer (line ++ ending)).bytes.rdropWhile (fun byte => byte == 10 || byte == 13) =
      (CString.ofBuffer line).bytes.rdropWhile fun byte => byte == 10 || byte == 13 := by
    change ((line ++ ending).takeWhile (· ≠ 0)).rdropWhile _ = (line.takeWhile (· ≠ 0)).rdropWhile _
    rw [List.takeWhile_append]
    split
    · rename_i whole
      have same : line.takeWhile (· ≠ 0) = line :=
        (List.takeWhile_prefix _).eq_of_length whole
      rw [same]
      apply rdropWhile_all
      intro byte member
      rcases ends byte ((List.takeWhile_sublist _).mem member) with rfl | rfl
      · rfl
      · rfl
    · rfl
  simp only [recordText, trimmed]

/-- What `auth_init` takes from a line. -/
def lineUser (line : Bytes) : Option AuthUser := (recordText line).bind parseUser

/-- What a line ends with. -/
def LineEnd (ending : Bytes) : Prop := ending = [10] ∨ ending = [13, 10]

/-- The lines of a text, shorter than 511 bytes; the last one may have no end. -/
inductive Lines : Bytes → List Bytes → Prop where
  | nil : Lines [] []
  | last {line : Bytes} (one : 10 ∉ line) (short : line.length < 511) : Lines line [line]
  | line {line ending rest : Bytes} {lines : List Bytes} (one : 10 ∉ line)
      (short : line.length < 511)
      (ends : LineEnd ending) (more : Lines rest lines) :
        Lines (line ++ ending ++ rest) (line :: lines)

/-- The loop goes on behind a line. -/
def afterLine (line : Bytes) (users : List AuthUser) (rest : Bytes) : List AuthUser :=
  match recordText line with
  | none => parseUsers rest users
  | some record =>
    if users.length ≥ authMaxUsers then users
    else parseUsers rest (users ++ (parseUser record).toList)

theorem parseUsers_fgets {input line rest : Bytes} (some_input : input ≠ [])
    (stored : fgetsLine 511 input = line) (split : input = line ++ rest) (users : List AuthUser) :
      parseUsers input users = afterLine line users rest := by
  have behind : input.drop line.length = rest := by
    rw [split]
    exact List.drop_left
  rw [parseUsers, if_neg some_input]
  simp only [stored, behind]
  rfl

theorem parseUsers_newline (rest : Bytes) (users : List AuthUser) :
    parseUsers (10 :: rest) users = parseUsers rest users :=
  @parseUsers_fgets (10 :: rest) [10] rest (List.cons_ne_nil _ _) rfl rfl users

/-- One line of a text. A line that `fgets` delivers in two pieces is followed by an empty one. -/
theorem parseUsers_line {line : Bytes} (one : 10 ∉ line)
    (short : line.length < 511) {ending : Bytes}
    (ends : LineEnd ending) (rest : Bytes) (users : List AuthUser) :
    parseUsers (line ++ ending ++ rest) users = afterLine line users rest := by
  have trimmed (tail : Bytes) (only : ∀ byte ∈ tail, byte = 10 ∨ byte = 13) (behind : Bytes) :
      afterLine (line ++ tail) users behind = afterLine line users behind := by
    rw [afterLine, afterLine, recordText_end line only]
  have nonempty (byte : UInt8) (tail : Bytes) : line ++ byte :: tail ++ rest ≠ [] := by
    rw [List.append_assoc]
    exact List.append_ne_nil_of_right_ne_nil _ (List.cons_ne_nil _ _)
  rcases ends with rfl | rfl
  · have stored : fgetsLine 511 (line ++ [10] ++ rest) = line ++ [10] := by
      rw [List.append_assoc, List.singleton_append, fgetsLine_line one]
      apply List.take_of_length_le
      rw [List.length_append, List.length_singleton]
      exact short
    rw [parseUsers_fgets (nonempty _ _) stored rfl users]
    exact trimmed [10] (by simp) rest
  · have inside : 10 ∉ line ++ [13] := by simp [one]
    have regroup : line ++ [13, 10] ++ rest = (line ++ [13]) ++ 10 :: rest := by simp
    by_cases fits : line.length < 510
    · have stored : fgetsLine 511 (line ++ [13, 10] ++ rest) = line ++ [13, 10] := by
        rw [regroup, fgetsLine_line inside, List.take_of_length_le]
        · simp
        · simp only [List.length_append, List.length_singleton]
          omega
      rw [parseUsers_fgets (nonempty _ _) stored rfl users]
      exact trimmed [13, 10] (by simp) rest
    · have stored : fgetsLine 511 (line ++ [13, 10] ++ rest) = line ++ [13] := by
        rw [regroup, fgetsLine_line inside, List.take_left']
        rw [List.length_append, List.length_singleton]
        omega
      rw [parseUsers_fgets (nonempty _ _) stored regroup users, trimmed [13] (by simp) (10 :: rest)]
      simp only [afterLine, parseUsers_newline]

/-- The loop over all lines: the users of the lines in their order, as far as there is room. -/
theorem parseUsers_lines {content : Bytes} {lines : List Bytes} (split : Lines content lines)
    (users : List AuthUser) (few : users.length ≤ authMaxUsers) :
    parseUsers content users = (users ++ lines.filterMap lineUser).take authMaxUsers := by
  have step (line rest : Bytes) (lines : List Bytes) (users : List AuthUser)
      (few : users.length ≤ authMaxUsers)
      (ih : ∀ users : List AuthUser, users.length ≤ authMaxUsers →
        parseUsers rest users = (users ++ lines.filterMap lineUser).take authMaxUsers) :
      afterLine line users rest =
          (users ++ (line :: lines).filterMap lineUser).take authMaxUsers := by
    have found : (line :: lines).filterMap lineUser =
        (lineUser line).toList ++ lines.filterMap lineUser := by
      rw [List.filterMap_cons]
      cases lineUser line <;> rfl
    rw [found, ← List.append_assoc, afterLine, lineUser]
    cases recordText line with
    | none =>
      rw [ih users few]
      simp
    | some record =>
      dsimp only [Option.bind_some]
      split
      · rename_i full
        have whole := List.take_of_length_le few
        rw [List.append_assoc, List.take_append_of_le_length full, whole]
      · rename_i room
        apply ih
        have one : (parseUser record).toList.length ≤ 1 := Option.length_toList_le
        rw [List.length_append]
        exact (Nat.add_le_add_left one _).trans (not_le.mp room)
  have ended (users : List AuthUser) (few : users.length ≤ authMaxUsers) :
      parseUsers [] users = (users ++ [].filterMap lineUser).take authMaxUsers := by
    rw [parseUsers, if_pos rfl, List.filterMap_nil, List.append_nil, List.take_of_length_le few]
  induction split generalizing users with
  | nil => exact ended users few
  | @last line one short =>
    by_cases empty : line = []
    · subst empty
      have nothing : [[]].filterMap lineUser = [] := rfl
      rw [nothing]
      exact ended users few
    · have stored : fgetsLine 511 line = line := by
        rw [fgetsLine_last one, List.take_of_length_le short.le]
      rw [parseUsers_fgets empty stored (List.append_nil line).symm users]
      exact step line [] [] users few ended
  | @line line ending rest lines one short ends more ih =>
    rw [parseUsers_line one short ends]
    exact step line rest lines users few ih

end Lines

section Kinds

/-- A field of a record. -/
def Field (field : Bytes) : Prop := field ≠ [] ∧ ∀ byte ∈ field, byte ≠ 58 ∧ byte ≠ 10 ∧ byte ≠ 0

instance (field : Bytes) : Decidable (Field field) :=
  inferInstanceAs (Decidable (field ≠ [] ∧ ∀ byte ∈ field, byte ≠ 58 ∧ byte ≠ 10 ∧ byte ≠ 0))

/-- The first byte of a record is seen and begins no comment. -/
def Begins (record : Bytes) : Prop :=
  ∃ byte rest, record = byte :: rest ∧ isspace byte = false ∧ byte ≠ 35

/-- The kinds of lines in a users file, with the user of a record. -/
inductive UsersLine : Bytes → Option AuthUser → Prop where
  | blank {line : Bytes} (blanks : ∀ byte ∈ line, isspace byte = true) : UsersLine line none
  | comment {leading comment : Bytes} (blanks : ∀ byte ∈ leading, isspace byte = true) :
    UsersLine (leading ++ 35 :: comment) none
  | malformed {leading record : Bytes} (blanks : ∀ byte ∈ leading, isspace byte = true)
    (begins : Begins record) (nulFree : 0 ∉ record) (missing : (fields record).length < 4) :
    UsersLine (leading ++ record) none
  | record {leading permissions : Bytes} {user : AuthUser}
      (blanks : ∀ byte ∈ leading, isspace byte = true)
    (begins : Begins user.username.bytes)
    (username : Field user.username.bytes) (username_fits : user.username.length < 32)
    (hash : Field user.passwordHash.bytes) (hash_fits : user.passwordHash.length < 128)
    (salt : Field user.salt.bytes) (salt_fits : user.salt.length < 17)
    (written : Field permissions) (ends : permissions.getLast? ≠ some 13)
    (value : user.permissions = atoi permissions) :
    UsersLine (leading ++ (user.username.bytes ++ 58 :: (user.passwordHash.bytes ++ 58 ::
      (user.salt.bytes ++ 58 :: permissions)))) (some user)

theorem recordText_begins {leading record : Bytes} (blanks : ∀ byte ∈ leading, isspace byte = true)
    (begins : Begins record) (nulFree : 0 ∉ record) :
    recordText (leading ++ record) =
      some (record.rdropWhile fun byte => byte == 10 || byte == 13) := by
  obtain ⟨byte, rest, rfl, visible, noComment⟩ := begins
  have whole : (CString.ofBuffer (leading ++ byte :: rest)).bytes = leading ++ byte :: rest := by
    apply takeWhile_whole
    intro member
    rcases List.mem_append.mp member with before | behind
    · exact absurd (blanks 0 before) (by decide)
    · exact nulFree behind
  have noEnd : (byte == 10 || byte == 13) = false := by
    have other (blank : UInt8) (space : isspace blank = true) : byte ≠ blank := by
      rintro rfl
      rw [visible] at space
      cases space
    simp [other 10 rfl, other 13 rfl]
  have trimmed : (leading ++ byte :: rest).rdropWhile (fun byte => byte == 10 || byte == 13) =
      leading ++ byte :: rest.rdropWhile fun byte => byte == 10 || byte == 13 :=
    rdropWhile_visible leading noEnd rest
  have same : (byte :: rest).rdropWhile (fun byte => byte == 10 || byte == 13) =
      byte :: rest.rdropWhile fun byte => byte == 10 || byte == 13 :=
    rdropWhile_visible [] noEnd rest
  have started : (leading ++ byte :: rest.rdropWhile fun byte => byte == 10 || byte ==
      13).dropWhile isspace =
      byte :: rest.rdropWhile fun byte => byte == 10 || byte == 13 := by
    rw [List.dropWhile_append_of_pos blanks, List.dropWhile_cons_of_neg (by rw [visible]; decide)]
  simp only [recordText, whole, trimmed, started, same]
  rw [if_neg]
  simp [noComment]

theorem lineUser_blank {line : Bytes} (blanks : ∀ byte ∈ line, isspace byte = true) :
    lineUser line = none := by
  have nothing : recordText line = none := by
    have gone : ((CString.ofBuffer line).bytes.rdropWhile fun byte => byte == 10 || byte ==
        13).dropWhile isspace = [] := by
      rw [List.dropWhile_eq_nil_iff]
      intro byte member
      apply blanks
      exact (List.takeWhile_sublist _).mem ((List.rdropWhile_prefix _ _).mem member)
    simp only [recordText, gone, true_or, if_true]
  rw [lineUser, nothing, Option.bind_none]

theorem lineUser_comment {leading comment : Bytes}
    (blanks : ∀ byte ∈ leading, isspace byte = true) :
    lineUser (leading ++ 35 :: comment) = none := by
  have nonzero : ∀ byte ∈ leading, decide (byte ≠ 0) = true := by
    intro byte member
    apply decide_eq_true
    rintro rfl
    exact absurd (blanks 0 member) (by decide)
  have string : (CString.ofBuffer (leading ++ 35 :: comment)).bytes =
      leading ++ 35 :: comment.takeWhile (· ≠ 0) := by
    change (leading ++ 35 :: comment).takeWhile (· ≠ 0) = _
    rw [List.takeWhile_append_of_pos nonzero, List.takeWhile_cons_of_pos (by decide)]
  have trimmed :
      (leading ++ 35 :: comment.takeWhile (· ≠ 0)).rdropWhile (fun byte => byte == 10 || byte == 13) =
      leading ++ 35 :: (comment.takeWhile (· ≠ 0)).rdropWhile
        fun byte => byte == 10 || byte == 13 :=
    rdropWhile_visible leading rfl _
  have started (tail : Bytes) : (leading ++ 35 :: tail).dropWhile isspace = 35 :: tail := by
    rw [List.dropWhile_append_of_pos blanks, List.dropWhile_cons_of_neg (by decide)]
  have nothing : recordText (leading ++ 35 :: comment) = none := by
    simp only [recordText, string, trimmed, started]
    exact if_pos (Or.inr rfl)
  rw [lineUser, nothing, Option.bind_none]

theorem lineUser_malformed {leading record : Bytes} (blanks : ∀ byte ∈ leading, isspace byte = true)
    (begins : Begins record) (nulFree : 0 ∉ record) (missing : (fields record).length < 4) :
    lineUser (leading ++ record) = none := by
  rw [lineUser, recordText_begins blanks begins nulFree, Option.bind_some,
    Option.eq_none_iff_forall_ne_some]
  intro user parsed
  have four := parseUser_fields parsed
  obtain ⟨more, split⟩ := List.rdropWhile_prefix (fun byte => byte == 10 || byte == 13) record
  have fewer := fields_length_append (record.rdropWhile fun byte => byte == 10 || byte == 13) more
  rw [split] at fewer
  omega

theorem strtok_field {field : Bytes} (some_field : field ≠ []) (noColon : 58 ∉ field) {rest : Bytes}
    (ends : ∀ byte, rest.head? = some byte → byte = 58) :
      strtok (field ++ rest) = some (field, rest.drop 1) := by
  have kept : ∀ byte ∈ field, (byte != 58) = true := by
    intro byte member
    rw [bne_iff_ne]
    rintro rfl
    exact noColon member
  have stops : ∀ byte, rest.head? = some byte → (byte != 58) = false := by
    intro byte first
    rw [ends byte first]
    rfl
  have start : (field ++ rest).dropWhile (· == 58) = field ++ rest := by
    cases field with
    | nil => exact absurd rfl some_field
    | cons byte field =>
      have other := kept byte List.mem_cons_self
      exact List.dropWhile_cons_of_neg (by simpa using other)
  have behind : (field ++ rest).dropWhile (· != 58) = rest := by
    have split := List.takeWhile_append_dropWhile (p := (· != 58)) (l := field ++ rest)
    rw [takeWhile_stops kept stops] at split
    exact List.append_cancel_left split
  rw [strtok, start, if_neg (by simp [some_field]), takeWhile_stops kept stops, behind]

theorem Field.noColon {field : Bytes} (is_field : Field field) : 58 ∉ field := by
  intro member
  exact (is_field.2 58 member).1 rfl

theorem Field.nulFree {field : Bytes} (is_field : Field field) : 0 ∉ field := by
  intro member
  exact (is_field.2 0 member).2.2 rfl

theorem lineUser_record {leading username hash salt permissions : Bytes}
    (blanks : ∀ byte ∈ leading, isspace byte = true) (begins : Begins username)
    (is_username : Field username)
    (is_hash : Field hash) (is_salt : Field salt) (is_permissions : Field permissions)
    (ends : permissions.getLast? ≠ some 13) :
    lineUser (leading ++ (username ++ 58 :: (hash ++ 58 :: (salt ++ 58 :: permissions)))) =
      some ⟨fieldOf 32 username, fieldOf 128 hash, fieldOf 17 salt, atoi permissions⟩ := by
  have started : Begins (username ++ 58 :: (hash ++ 58 :: (salt ++ 58 :: permissions))) := by
    obtain ⟨byte, rest, rfl, visible, noComment⟩ := begins
    exact ⟨byte, _, rfl, visible, noComment⟩
  have nulFree : 0 ∉ username ++ 58 :: (hash ++ 58 :: (salt ++ 58 :: permissions)) := by
    simp [is_username.nulFree, is_hash.nulFree, is_salt.nulFree, is_permissions.nulFree]
  have last : permissions.rdropWhile (fun byte => byte == 10 || byte == 13) = permissions := by
    rw [List.rdropWhile_eq_self_iff]
    intro some_permissions final
    have member := List.getLast_mem some_permissions
    rcases Bool.or_eq_true_iff.mp final with newline | carriage
    · exact (is_permissions.2 _ member).2.1 (eq_of_beq newline)
    · apply ends
      rw [List.getLast?_eq_getLast_of_ne_nil some_permissions, eq_of_beq carriage]
  have trimmed : (username ++ 58 :: (hash ++ 58 :: (salt ++ 58 :: permissions))).rdropWhile
      (fun byte => byte == 10 || byte == 13) =
          username ++ 58 :: (hash ++ 58 :: (salt ++ 58 :: permissions)) := by
    have inner : (username ++ 58 :: (hash ++ 58 :: salt) ++ 58 :: permissions).rdropWhile
        (fun byte => byte == 10 || byte == 13) =
          username ++ 58 :: (hash ++ 58 :: salt) ++ 58 :: permissions.rdropWhile fun byte =>
              byte == 10 || byte == 13 :=
      rdropWhile_visible _ rfl permissions
    rw [last] at inner
    simpa using inner
  have colon (rest : Bytes) : ∀ byte, (58 :: rest).head? = some byte → byte = 58 := by
    intro byte first
    exact (Option.some.inj first).symm
  have final : strtok permissions = some (permissions, []) := by
    have alone := @strtok_field permissions is_permissions.1 is_permissions.noColon [] (by simp)
    rwa [List.append_nil] at alone
  rw [lineUser, recordText_begins blanks started nulFree, Option.bind_some, trimmed]
  simp only [parseUser, strtok_field is_username.1 is_username.noColon (colon _),
    strtok_field is_hash.1 is_hash.noColon (colon _),
    strtok_field is_salt.1 is_salt.noColon (colon _), final,
    List.drop_succ_cons, List.drop_zero, Option.bind_eq_bind, Option.bind_some]
  rfl

theorem fieldOf_fits {size : Nat} (field : CString) (fits : field.length < size) :
    fieldOf size field.bytes = field := by
  have whole : field.bytes.take (size - 1) = field.bytes :=
    List.take_of_length_le (Nat.le_sub_one_of_lt fits)
  rw [fieldOf, whole, CString.ofBuffer_bytes]

theorem lineUser_kind {line : Bytes} {found : Option AuthUser} (kind : UsersLine line found) :
    lineUser line = found := by
  cases kind with
  | blank blanks => exact lineUser_blank blanks
  | comment blanks => exact lineUser_comment blanks
  | malformed blanks begins nulFree missing =>
    exact lineUser_malformed blanks begins nulFree missing
  | @record leading permissions user blanks begins username username_fits hash hash_fits salt
      salt_fits written ends value =>
    rw [lineUser_record blanks begins username hash salt written ends, fieldOf_fits _ username_fits,
      fieldOf_fits _ hash_fits, fieldOf_fits _ salt_fits, ← value]

/-- `auth_init` succeeds on every users file, and the users in the table are the records of the
file in their order, as many as the table holds. -/
theorem authInit_records {content : Bytes} {lines : List Bytes} {found : List (Option AuthUser)}
    (split : Lines content lines) (kinds : List.Forall₂ UsersLine lines found) :
    (authInitTable (some content)).map UserTable.users =
      some (found.reduceOption.take authMaxUsers) := by
  have records : lines.filterMap lineUser = found.reduceOption := by
    clear split
    induction kinds with
    | nil => rfl
    | @cons line user lines found kind kinds ih =>
      rw [List.filterMap_cons, lineUser_kind kind, ih]
      cases user with
      | none => exact (List.reduceOption_cons_of_none found).symm
      | some user => exact (List.reduceOption_cons_of_some user found).symm
  have empty : UserTable.zero.users = [] := rfl
  rw [authInitTable, Option.map_some, Option.map_some, readLines_users, empty,
    parseUsers_lines split [] (Nat.zero_le _),
    List.nil_append, records]

/-- The user of a record of one letter per field. -/
def letterUser : AuthUser := ⟨⟨[97], by decide⟩, ⟨[104], by decide⟩, ⟨[115], by decide⟩, 3⟩

/-- A comment, a record with a blank in front and a carriage return behind it, and a line of
two fields that nothing ends. -/
theorem authInit_records_three :
    (authInitTable
      (some ([35, 99] ++ [10] ++
        ([32, 97, 58, 104, 58, 115, 58, 51] ++ [13, 10] ++ [98, 58, 99])))).map
      UserTable.users = some (List.take authMaxUsers
        (List.reduceOption [none, some letterUser, none])) := by
  have blank : ∀ byte ∈ ([32] : Bytes), isspace byte = true := by
    intro byte member
    rw [List.mem_singleton.mp member]
    rfl
  have record : UsersLine [32, 97, 58, 104, 58, 115, 58, 51] (some letterUser) :=
    @UsersLine.record [32] [51] letterUser blank ⟨97, [], rfl, rfl, by decide⟩
      (by decide +kernel) (by decide)
      (by decide +kernel) (by decide) (by decide +kernel) (by decide)
        (by decide +kernel) (by decide) rfl
  have comment : UsersLine [35, 99] none := @UsersLine.comment [] [99] (by simp)
  have malformed : UsersLine [98, 58, 99] none :=
    @UsersLine.malformed [] [98, 58, 99] (by simp) ⟨98, [58, 99], rfl, rfl, by decide⟩
      (by decide) (by decide +kernel)
  apply authInit_records
  · exact .line (by decide) (by decide) (Or.inl rfl)
      (.line (by decide) (by decide) (Or.inr rfl) (.last (by decide) (by decide)))
  · exact .cons comment (.cons record (.cons malformed .nil))

/-- The context that is read from a file has the users of the table. -/
theorem authInit_table (content : Option Bytes) (beyond : Nat → UInt8) :
    (authInit content beyond).map AuthContext.users =
      (authInitTable content).map UserTable.users := by
  cases content with
  | none => rfl
  | some input =>
    rw [authInit, authInitTable, Option.map_some, Option.map_some, Option.map_some,
      Option.map_some, readLines_users]
    rfl

end Kinds

end LinuxCLearning.FileServer
