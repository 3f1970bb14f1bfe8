import LinuxCLearning.Base.Hex
import LinuxCLearning.FileServer.AuthTokens
import LinuxCLearning.FileServer.UsersFile

/-! Accounts whose salt comes from `auth_generate_salt`: their records in the users file, and
the logins on them. -/

namespace LinuxCLearning.FileServer

def authSaltLen : Nat := 16

/-- `auth_generate_salt` with these random bytes in its buffer: two digits for each byte. -/
def authGenerateSalt (random : CharArray authSaltLen) (len : Nat) : Bytes :=
  (random.bytes.take (min len authSaltLen)).flatMap hexByte

theorem authGenerateSalt_nulFree (random : CharArray authSaltLen) (len : Nat) :
    0 ∉ authGenerateSalt random len := by
  intro member
  obtain ⟨byte, _, inside⟩ := List.mem_flatMap.mp member
  exact hexByte_nulFree byte inside

/-- A user with a password, the random bytes of its salt, and the permissions as written. -/
structure Account where
  name : CString
  password : CString
  random : CharArray authSaltLen
  permissions : Bytes
  name_some : name.bytes ≠ []
  name_fits : name.length < 32
  name_plain : ∀ byte ∈ name.bytes, byte ≠ 58 ∧ isspace byte = false
  name_start : name.bytes.head? ≠ some 35
  permissions_field : Field permissions
  permissions_end : permissions.getLast? ≠ some 13

namespace Account

/-- `auth_generate_salt(salt, AUTH_SALT_LEN)`. -/
def salt (account : Account) : CString :=
  ⟨authGenerateSalt account.random authSaltLen, authGenerateSalt_nulFree account.random authSaltLen⟩

/-- The line of the account in the users file, with the hash of its password. -/
def line (account : Account) (hash : Bytes) : Bytes :=
  account.name.bytes ++ 58 :: (hash ++ 58 :: (account.salt.bytes ++ 58 :: account.permissions))

end Account

section Digits

theorem hexDigit_digit {value : Nat} (small : value < 16) :
    hexDigit value ≠ 58 ∧ hexDigit value ≠ 10 ∧ hexDigit value ≠ 0 := by
  interval_cases value <;> decide

theorem hexDigit_reads : ∀ digit < 16, hexDigitValue (hexDigit digit) = some digit := by decide

theorem hexByte_injective {first second : UInt8} (same : hexByte first = hexByte second) :
    first = second := by
  have small (byte : UInt8) : byte.toNat / 16 < 16 := Nat.div_lt_of_lt_mul byte.toNat_lt
  have rest (byte : UInt8) : byte.toNat % 16 < 16 := Nat.mod_lt _ (by decide)
  obtain ⟨high, low⟩ := List.cons.inj same
  have highs := digits_injective hexDigit_reads (small first) (small second) high
  have lows := digits_injective hexDigit_reads (rest first) (rest second) (List.cons.inj low).1
  apply UInt8.toNat_inj.mp
  omega

theorem hexDigits_injective {first second : Bytes}
    (same : first.flatMap hexByte = second.flatMap hexByte) :
    first = second := by
  induction first generalizing second with
  | nil =>
    cases second with
    | nil => rfl
    | cons byte second => cases same
  | cons byte first ih =>
    cases second with
    | nil => cases same
    | cons other second =>
      rw [List.flatMap_cons, List.flatMap_cons] at same
      obtain ⟨digits, rest⟩ := List.append_inj same rfl
      rw [hexByte_injective digits, ih rest]

theorem hexDigits_field {bytes : Bytes} (some_bytes : bytes ≠ []) :
    Field (bytes.flatMap hexByte) := by
  constructor
  · intro nothing
    cases bytes with
    | nil => exact some_bytes rfl
    | cons byte bytes => cases nothing
  · intro digit member
    obtain ⟨byte, _, inside⟩ := List.mem_flatMap.mp member
    have high : byte.toNat / 16 < 16 := Nat.div_lt_of_lt_mul byte.toNat_lt
    have low : byte.toNat % 16 < 16 := Nat.mod_lt _ (by decide)
    rcases List.mem_cons.mp inside with rfl | inside
    · exact hexDigit_digit high
    · rw [List.mem_singleton.mp inside]
      exact hexDigit_digit low

theorem digestToHex_injective : Function.Injective digestToHex := by
  intro first second same
  have bytes := hexDigits_injective same
  cases first
  cases second
  cases bytes
  rfl

end Digits

section Login
variable {sha256 : Sha256} (account : Account) {hash : Bytes}

theorem name_begins : Begins account.name.bytes := by
  cases shape : account.name.bytes with
  | nil => exact absurd shape account.name_some
  | cons byte rest =>
    refine ⟨byte, rest, rfl, ?_, ?_⟩
    · exact (account.name_plain byte (shape ▸ List.mem_cons_self)).2
    · rintro rfl
      exact account.name_start (by rw [shape]; rfl)

theorem name_field : Field account.name.bytes := by
  refine ⟨account.name_some, ?_⟩
  intro byte member
  obtain ⟨noColon, visible⟩ := account.name_plain byte member
  refine ⟨noColon, ?_, ?_⟩
  · rintro rfl
    cases visible
  · rintro rfl
    exact account.name.nulFree member

/-- The user that `auth_init` reads from the line: of the salt there is room for the first
sixteen digits. -/
theorem lineUser_account (hashed : authHashPassword sha256 account.password account.salt =
    some hash) :
    ∃ user, lineUser (account.line hash) = some user ∧ user.username = account.name ∧
      user.passwordHash.bytes = hash ∧ user.salt.bytes = account.salt.bytes.take 16 := by
  obtain ⟨digest, _, rfl⟩ := Option.map_eq_some_iff.mp hashed
  have some_digest : digest.bytes ≠ [] := by
    intro empty
    have full := digest.full
    rw [empty] at full
    cases full
  have some_random : account.random.bytes.take (min authSaltLen authSaltLen) ≠ [] := by
    rw [List.take_of_length_le (by rw [account.random.full]; exact le_refl _)]
    intro empty
    have full := account.random.full
    rw [empty] at full
    cases full
  have hashField : Field (digestToHex digest) := hexDigits_field some_digest
  have saltField : Field account.salt.bytes := hexDigits_field some_random
  refine ⟨_, @lineUser_record [] _ _ _ _ (by simp) (name_begins account)
    (name_field account) hashField saltField
    account.permissions_field account.permissions_end, ?_, ?_, ?_⟩
  · exact fieldOf_fits account.name account.name_fits
  · have fits : (digestToHex digest).length < 128 := by
      rw [digestToHex_length]
      decide
    exact congrArg CString.bytes
      (fieldOf_fits ⟨digestToHex digest, digestToHex_nulFree digest⟩ fits)
  · exact takeWhile_whole fun member => account.salt.nulFree (List.mem_of_mem_take member)

theorem loginUser_first {before after : List AuthUser} {user : AuthUser} {name password : CString}
    (first : ∀ other ∈ before, other.username ≠ name) (same : user.username = name) :
    (loginUser sha256 (before ++ user :: after) name password).isSome ↔
      authHashPassword sha256 password user.salt = some user.passwordHash.bytes := by
  have others : before.findIdx? (·.username = name) = none := by
    rw [List.findIdx?_eq_none_iff]
    intro other member
    exact decide_eq_false (first other member)
  have found : (before ++ user :: after).findIdx? (·.username = name) = some before.length := by
    rw [List.findIdx?_append, others, List.findIdx?_cons, decide_eq_true same]
    simp
  have present : (before ++ user :: after)[before.length]? = some user := by simp
  simp only [loginUser, found, present, Option.bind_eq_bind, Option.bind_some]
  cases authHashPassword sha256 password user.salt with
  | none => simp
  | some computed =>
    simp only [Option.bind_some, Option.some.injEq]
    split
    · rename_i equal
      exact iff_of_true rfl equal
    · rename_i different
      exact iff_of_false (by simp) different

/-- The account is the first of its name in a users file: its password is accepted exactly if
the digest with the whole salt is the one with the first half of its digits. -/
theorem salted_login_iff (hashed : authHashPassword sha256 account.password account.salt =
    some hash)
    {content : Bytes} {before after : List Bytes}
    (split : Lines content (before ++ account.line hash :: after))
    (first : ∀ user ∈ before.filterMap lineUser, user.username ≠ account.name)
    (room : (before.filterMap lineUser).length < authMaxUsers) {beyond : Nat → UInt8}
    {context : AuthContext}
    (created : authInit (some content) beyond = some context) (token : CharArray 32) :
    (authLogin sha256 context account.name account.password token).1.isSome ↔
      sha256 (account.salt.bytes.take 16 ++ account.password.bytes) =
        sha256 (account.salt.bytes ++ account.password.bytes) := by
  obtain ⟨user, read, name, stored, salt⟩ := lineUser_account account hashed
  have users : ∃ later, context.users = before.filterMap lineUser ++ user :: later := by
    cases created
    dsimp only
    rw [parseUsers_lines split [] (Nat.zero_le _), List.nil_append, List.filterMap_append,
      List.filterMap_cons, read,
      List.take_append, List.take_of_length_le room.le]
    obtain ⟨left, remains⟩ := Nat.exists_eq_add_of_lt room
    have more : authMaxUsers - (before.filterMap lineUser).length = left + 1 := by omega
    rw [more]
    exact ⟨_, rfl⟩
  obtain ⟨later, users⟩ := users
  have accepted : (authLogin sha256 context account.name account.password token).1.isSome ↔
      (loginUser sha256 context.users account.name account.password).isSome := by
    rw [authLogin]
    cases loginUser sha256 context.users account.name account.password with
    | none => exact Iff.rfl
    | some row => exact Iff.rfl
  rw [accepted, users, loginUser_first first name, authHashPassword, salt, stored]
  obtain ⟨digest, full, rfl⟩ := Option.map_eq_some_iff.mp hashed
  rw [full, Option.map_eq_some_iff]
  constructor
  · rintro ⟨cut, computed, same⟩
    rw [computed, digestToHex_injective same]
  · intro computed
    exact ⟨digest, computed, rfl⟩

theorem admin_nulFree : 0 ∉ text "admin" := by decide

theorem admin123_nulFree : 0 ∉ text "admin123" := by decide

theorem admin_name : text "admin" ≠ [] ∧ (text "admin").length < 32 ∧
    (∀ byte ∈ text "admin", byte ≠ 58 ∧ isspace byte = false) ∧ (text "admin").head? ≠ some 35 := by
  decide +kernel

theorem three_permissions : Field (text "3") ∧ (text "3").getLast? ≠ some 13 := by decide +kernel

/-- An account with the sixteen smallest bytes in its salt. -/
def saltedAccount : Account where
  name := ⟨text "admin", admin_nulFree⟩
  password := ⟨text "admin123", admin123_nulFree⟩
  random := ⟨(List.range 16).map UInt8.ofNat, rfl⟩
  permissions := text "3"
  name_some := admin_name.1
  name_fits := admin_name.2.1
  name_plain := admin_name.2.2.1
  name_start := admin_name.2.2.2
  permissions_field := three_permissions.1
  permissions_end := three_permissions.2

def wholeSaltDigest : CharArray 32 :=
  ⟨[149, 251, 73, 215, 140, 253, 247, 179, 48, 128, 191, 106, 218, 232, 190, 67, 116, 72,
    65, 242, 108, 187, 199, 103, 218, 37, 14, 14, 46, 2, 221, 221], rfl⟩

def halfSaltDigest : CharArray 32 :=
  ⟨[34, 32, 40, 232, 214, 214, 85, 77, 50, 63, 251, 231, 139, 157, 206, 224, 116, 143,
    142, 138, 179, 227, 99, 27, 2, 70, 97, 68, 45, 120, 220, 157], rfl⟩

/-- SHA-256 of the password of the account, with its salt and with half of it. -/
def saltedSha256 : Sha256 := fun input =>
  if input = text "000102030405060708090a0b0c0d0e0fadmin123" then some wholeSaltDigest
  else if input = text "0001020304050607admin123" then some halfSaltDigest
  else none

/-- The line of the account. -/
def saltedLine : Bytes := saltedAccount.line (digestToHex wholeSaltDigest)

theorem saltedLine_hash :
    authHashPassword saltedSha256 saltedAccount.password saltedAccount.salt =
      some (digestToHex wholeSaltDigest) := by
  decide +kernel

/-- The users file of this line only. -/
theorem salted_login_iff_alone :
    ∃ context, authInit (some saltedLine) (fun _ => 0) = some context ∧
      ((authLogin saltedSha256 context saltedAccount.name saltedAccount.password
        halfSaltDigest).1.isSome ↔
        saltedSha256 (saltedAccount.salt.bytes.take 16 ++ saltedAccount.password.bytes) =
          saltedSha256 (saltedAccount.salt.bytes ++ saltedAccount.password.bytes)) := by
  refine ⟨_, rfl, ?_⟩
  apply @salted_login_iff saltedSha256 saltedAccount _ saltedLine_hash saltedLine [] []
  · exact .last (by decide +kernel) (by decide +kernel)
  · simp
  · decide
  · rfl

/-- The file contains the line of the account, and its password is refused. -/
theorem salted_login_refused :
    authHashPassword saltedSha256 saltedAccount.password saltedAccount.salt =
      some (digestToHex wholeSaltDigest) ∧
      saltedSha256 (saltedAccount.salt.bytes.take 16 ++ saltedAccount.password.bytes) ≠
        saltedSha256 (saltedAccount.salt.bytes ++ saltedAccount.password.bytes) ∧
      ((authInit (some saltedLine) fun _ => 0).map fun context =>
        (authLogin saltedSha256 context saltedAccount.name saltedAccount.password
          halfSaltDigest).1) = some none := by
  decide +kernel

end Login

end LinuxCLearning.FileServer
