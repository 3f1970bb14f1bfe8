import LinuxCLearning.Base.Ctype
import LinuxCLearning.Base.Lines
import LinuxCLearning.Base.Machine

/-! Users and tokens of the file server: the users file, logins and the check of a
token. The token table is the end of the context and is kept as the bytes of
memory from its start on, since a token does not leave room for its terminator
in its row. -/

namespace LinuxCLearning.FileServer

def authMaxUsers : Nat := 64

def authTokenLen : Nat := 64

/-- `auth_user_t`. -/
structure AuthUser where
  username : CString
  passwordHash : CString
  salt : CString
  permissions : Int
  deriving DecidableEq

/-- `auth_context_t`: `tokenMemory` is the memory from `token_store` on, with row `i`
at `i * AUTH_TOKEN_LEN` and whatever follows the context behind the last row. -/
structure AuthContext where
  users : List AuthUser
  few : users.length ≤ authMaxUsers
  tokenMemory : Nat → UInt8

/-- A digit of `%x`. -/
def hexDigit (value : Nat) : UInt8 :=
  if value < 10 then UInt8.ofNat (48 + value) else UInt8.ofNat (87 + value)

/-- `%02x`. -/
def hexByte (byte : UInt8) : Bytes :=
  [hexDigit (byte.toNat / 16), hexDigit (byte.toNat % 16)]

/-- `digest_to_hex`, for an output that is large enough. -/
def digestToHex (digest : CharArray 32) : Bytes := digest.bytes.flatMap hexByte

section Init

/-- A line without its end and its leading blanks; `none` for blanks and comments. -/
def recordText (line : Bytes) : Option Bytes :=
  let trimmed := (CString.ofBuffer line).bytes.rdropWhile fun byte => byte == 10 || byte == 13
  let record := trimmed.dropWhile isspace
  if record = [] ∨ record.head? = some 35 then none else some record

/-- `strtok_r` with the delimiter `":"`: the token and where the next call starts. -/
def strtok (string : Bytes) : Option (Bytes × Bytes) :=
  let start := string.dropWhile (· == 58)
  if start = [] then none
  else some (start.takeWhile (· != 58), (start.dropWhile (· != 58)).drop 1)

/-- `snprintf(field, size, "%s", token)`. -/
def fieldOf (size : Nat) (token : Bytes) : CString := CString.ofBuffer (token.take (size - 1))

/-- A record `username:hash:salt:permissions`; `none` when a field is missing. -/
def parseUser (record : Bytes) : Option AuthUser := do
  let (username, rest) ← strtok record
  let (hash, rest) ← strtok rest
  let (salt, rest) ← strtok rest
  let (permissions, _) ← strtok rest
  return ⟨fieldOf 32 username, fieldOf 128 hash, fieldOf 17 salt, atoi permissions⟩

/-- The loop of `auth_init` over the lines of the file. -/
def parseUsers (input : Bytes) (users : List AuthUser) : List AuthUser :=
  if input = [] then users
  else
    let line := fgetsLine 511 input
    match recordText line with
    | none => parseUsers (input.drop line.length) users
    | some record =>
      if users.length ≥ authMaxUsers then users
      else parseUsers (input.drop line.length) (users ++ (parseUser record).toList)
termination_by input.length
decreasing_by
  · exact drop_line_lt ‹_›
  · exact drop_line_lt ‹_›

theorem parseUsers_few (input : Bytes) (users : List AuthUser) (few : users.length ≤ authMaxUsers) :
    (parseUsers input users).length ≤ authMaxUsers := by
  fun_induction parseUsers input users with
  | case1 users => exact few
  | case2 input users nonempty line skipped ih => exact ih few
  | case3 input users nonempty line record found full => exact few
  | case4 input users nonempty line record found room ih =>
    apply ih
    have one : (parseUser record).toList.length ≤ 1 := Option.length_toList_le
    rw [List.length_append]
    exact (Nat.add_le_add_left one _).trans (not_le.mp room)

/-- `auth_init` on the content of the users file, `none` when it cannot be opened.
The context is cleared; `beyond` is the memory behind it. -/
def authInit (content : Option Bytes) (beyond : Nat → UInt8) : Option AuthContext :=
  content.map fun input => {
    users := parseUsers input []
    few := parseUsers_few input [] (Nat.zero_le _)
    tokenMemory := fun address => if address < authMaxUsers * authTokenLen then
      0 else beyond address }

end Init

/-- SHA-256 as the library computes it; `none` when one of its calls fails. -/
abbrev Sha256 := Bytes → Option (CharArray 32)

/-- `auth_hash_password`. -/
def authHashPassword (sha256 : Sha256) (password salt : CString) : Option Bytes :=
  (sha256 (salt.bytes ++ password.bytes)).map digestToHex

/-- The part of `auth_login` that looks for the user and checks the password. -/
def loginUser (sha256 : Sha256) (users : List AuthUser) (username password : CString) :
    Option Nat := do
  let row ← users.findIdx? (·.username = username)
  let user ← users[row]?
  let computed ← authHashPassword sha256 password user.salt
  if computed = user.passwordHash.bytes then return row else none

/-- `auth_generate_token(token_store[row], AUTH_TOKEN_LEN)` with these random bytes: 64
digits fill the row and the terminator goes to the byte behind it. -/
def authGenerateToken (memory : Nat → UInt8) (row : Nat) (random : CharArray 32) : Nat → UInt8 :=
  fun address =>
    if address < row * authTokenLen then memory address
    else if address = row * authTokenLen + authTokenLen then 0
    else (digestToHex random).getD (address - row * authTokenLen) (memory address)

/-- `auth_login`: the token, and the context after it. -/
def authLogin (sha256 : Sha256) (context : AuthContext) (username password : CString)
    (random : CharArray 32) : Option Bytes × AuthContext :=
  match loginUser sha256 context.users username password with
  | none => (none, context)
  | some row =>
    let memory := authGenerateToken context.tokenMemory row random
    (some ((List.range authTokenLen).map fun index => memory (row * authTokenLen + index)),
      { context with tokenMemory := memory })

/-- `strcmp` of the string in memory with another one, as a test for equality. -/
def strcmpAt (memory : Nat → UInt8) : (address : Nat) → Bytes → Bool
  | address, [] => memory address == 0
  | address, byte :: rest => memory address == byte && strcmpAt memory (address + 1) rest

/-- `auth_verify`: the permissions, `none` when the token is not found. -/
def authVerify (context : AuthContext) (token : CString) : Option Int :=
  match (List.range context.users.length).find? fun row =>
    strcmpAt context.tokenMemory (row * authTokenLen) token.bytes with
  | none => none
  | some row => context.users[row]?.map AuthUser.permissions

/-- The arguments of a call of `auth_login` and the random bytes of its token. -/
structure LoginCall where
  username : CString
  password : CString
  random : CharArray 32

/-- A context and what its logins have returned: the row of the user and the token,
the latest first. -/
structure AuthSession where
  context : AuthContext
  issued : List (Nat × Bytes)

def AuthSession.login (sha256 : Sha256) (session : AuthSession) (call : LoginCall) : AuthSession :=
  let (token, context) :=
    authLogin sha256 session.context call.username call.password call.random
  let row := loginUser sha256 session.context.users call.username call.password
  ⟨context, (row.toList.zip token.toList) ++ session.issued⟩

/-- A sequence of logins on a context. -/
def authSession (sha256 : Sha256) (context : AuthContext) (calls : List LoginCall) : AuthSession :=
  calls.foldl (AuthSession.login sha256) ⟨context, []⟩

/-- The token that was returned last for the user in a row. -/
def AuthSession.latest (session : AuthSession) (row : Nat) : Option Bytes :=
  (session.issued.find? (·.1 = row)).map Prod.snd

end LinuxCLearning.FileServer
