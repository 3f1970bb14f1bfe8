import LinuxCLearning.FileServer.AuthTokens

/-! Which tokens the check accepts after a sequence of logins. A token fills its row,
so the string in a row ends only where the next row starts with a zero, and a row
without a token holds the empty string. -/

namespace LinuxCLearning.FileServer

/-- The check takes the permissions of the first user whose row holds the token. -/
theorem authVerify_eq_some {context : AuthContext} {token : CString} {permissions : Int} :
    authVerify context token = some permissions ↔
      ∃ row user, context.users[row]? = some user ∧ user.permissions = permissions ∧
        strcmpAt context.tokenMemory (row * authTokenLen) token.bytes = true ∧
        ∀ before < row,
          strcmpAt context.tokenMemory (before * authTokenLen) token.bytes = false := by
  rw [authVerify]
  constructor
  · intro accepted
    split at accepted
    · cases accepted
    · next row found =>
      obtain ⟨user, present, same⟩ := Option.map_eq_some_iff.mp accepted
      obtain ⟨holds, _, first⟩ := List.find?_range_eq_some.mp found
      exact ⟨row, user, present, same, holds, by simpa using first⟩
  · intro accepted
    obtain ⟨row, user, present, same, holds, first⟩ := accepted
    have inside : row < context.users.length := (List.getElem?_eq_some_iff.mp present).1
    have found : (List.range context.users.length).find? (fun row =>
        strcmpAt context.tokenMemory (row * authTokenLen) token.bytes) = some row :=
      List.find?_range_eq_some.mpr ⟨holds, by simpa using inside, by simpa using first⟩
    rw [found]
    exact Option.map_eq_some_iff.mpr ⟨user, present, same⟩

theorem authVerify_accepts {context : AuthContext} {token : CString} {row : Nat}
    (inside : row < context.users.length)
    (holds : strcmpAt context.tokenMemory (row * authTokenLen) token.bytes = true) :
    ∃ permissions, authVerify context token = some permissions := by
  have found : ((List.range context.users.length).find? fun row =>
      strcmpAt context.tokenMemory (row * authTokenLen) token.bytes).isSome :=
    List.find?_isSome.mpr ⟨row, by simpa using inside, holds⟩
  obtain ⟨first, found⟩ := Option.isSome_iff_exists.mp found
  have known : first < context.users.length := by
    simpa using List.mem_of_find?_eq_some found
  exact ⟨context.users[first].permissions, by simp [authVerify, found, known]⟩

theorem strcmpAt_unique {memory : Nat → UInt8} {address : Nat} {left right : Bytes}
    (leftFree : 0 ∉ left) (rightFree : 0 ∉ right) (holdsLeft : strcmpAt memory address left = true)
    (holdsRight : strcmpAt memory address right = true) : left = right := by
  induction left generalizing address right with
  | nil =>
    cases right with
    | nil => rfl
    | cons byte right => simp_all [strcmpAt]
  | cons byte left ih =>
    cases right with
    | nil => simp_all [strcmpAt]
    | cons other right =>
      simp only [strcmpAt, Bool.and_eq_true, beq_iff_eq] at holdsLeft holdsRight
      rw [← holdsLeft.1, ← holdsRight.1, ih (List.not_mem_of_not_mem_cons leftFree)
        (List.not_mem_of_not_mem_cons rightFree) holdsLeft.2 holdsRight.2]

section Table
variable {session : AuthSession} {row : Nat} {token : Bytes}

theorem head_ne_zero (filled : token.length = authTokenLen) (nulFree : 0 ∉ token) :
    token.getD 0 0 ≠ 0 := by
  rw [List.getD_eq_getElem _ _ (filled.symm ▸ (by decide : 0 < authTokenLen))]
  intro zero
  exact nulFree (zero ▸ List.getElem_mem _)

theorem row_succ (row : Nat) : row * authTokenLen + authTokenLen = (row + 1) * authTokenLen :=
  (Nat.succ_mul row authTokenLen).symm

theorem Tracks.latest_none (tracks : Tracks session)
    (outside : session.context.users.length ≤ row) :
    session.latest row = none := by
  by_contra present
  obtain ⟨token, known⟩ := Option.ne_none_iff_exists'.mp present
  exact (tracks.known _ (latest_mem known)).not_ge outside

/-- A row with its first digit and a zero behind it holds the latest token of its user. -/
theorem Tracks.holds_latest (tracks : Tracks session) (known : session.latest row = some token)
    (start : session.context.tokenMemory (row * authTokenLen) = token.getD 0 0)
    (stop : session.context.tokenMemory ((row + 1) * authTokenLen) = 0) :
    strcmpAt session.context.tokenMemory (row * authTokenLen) token = true := by
  have filled := (tracks.digits _ (latest_mem known)).1
  refine strcmpAt_iff.mpr ⟨?_, ?_⟩
  · intro index byte same
    have inside : index < authTokenLen := filled ▸ (List.getElem?_eq_some_iff.mp same).1
    have read : token.getD index 0 = byte := by simp [List.getD, same]
    by_cases first : index = 0
    · subst first
      exact start.trans read
    · exact (tracks.body row token known index inside first).trans read
  · rw [filled, row_succ]
    exact stop

/-- A row that holds a token holds the latest token of its user. -/
theorem Tracks.latest_of_holds (tracks : Tracks session) (inside : row < authMaxUsers)
    (filled : token.length = authTokenLen) (nulFree : 0 ∉ token)
    (holds : strcmpAt session.context.tokenMemory (row * authTokenLen) token = true) :
    session.latest row = some token ∧
      session.context.tokenMemory (row * authTokenLen) ≠ 0 ∧
      session.context.tokenMemory ((row + 1) * authTokenLen) = 0 := by
  obtain ⟨bytes, stop⟩ := strcmpAt_iff.mp holds
  rw [filled, row_succ] at stop
  have read : ∀ index < authTokenLen,
      session.context.tokenMemory (row * authTokenLen + index) = token.getD index 0 := by
    intro index within
    apply bytes index _
    rw [List.getD_eq_getElem _ _ (filled.symm ▸ within)]
    exact List.getElem?_eq_getElem _
  have start : session.context.tokenMemory (row * authTokenLen) = token.getD 0 0 :=
    read 0 (by decide)
  have nonzero : session.context.tokenMemory (row * authTokenLen) ≠ 0 :=
    start ▸ head_ne_zero filled nulFree
  refine ⟨?_, nonzero, stop⟩
  cases known : session.latest row with
  | none => exact absurd (tracks.fresh row inside known) nonzero
  | some latest =>
    have full := (tracks.digits _ (latest_mem known)).1
    refine congrArg some (List.ext_getElem (full.trans filled.symm) ?_)
    intro index within within'
    have small : index < authTokenLen := full ▸ within
    have same : latest.getD index 0 = token.getD index 0 := by
      by_cases first : index = 0
      · subst first
        exact ((tracks.start row latest known).resolve_left nonzero).symm.trans start
      · exact (tracks.body row latest known index small first).symm.trans (read index small)
    rwa [List.getD_eq_getElem _ _ within, List.getD_eq_getElem _ _ within'] at same

end Table

section Sessions
variable {sha256 : Sha256} {content : Option Bytes} {beyond : Nat → UInt8} {context : AuthContext}

/-- When no row is empty, the rows are one string up to the end of the last one. -/
theorem Tracks.rows_joined {session : AuthSession} (tracks : Tracks session)
    (users : session.context.users ≠ [])
    (nonempty : ∀ row < session.context.users.length,
      session.context.tokenMemory (row * authTokenLen) ≠ 0) :
    ∃ token : CString, strcmpAt session.context.tokenMemory (0 * authTokenLen) token.bytes =
      true := by
  obtain ⟨last, count⟩ := Nat.exists_eq_succ_of_ne_zero (List.length_pos_iff.mpr users).ne'
  have inside : last < session.context.users.length := by omega
  have logged : session.latest last ≠ none := by
    intro missing
    exact nonempty last inside (tracks.fresh last (inside.trans_le session.context.few) missing)
  obtain ⟨token, known⟩ := Option.ne_none_iff_exists'.mp logged
  have stop := tracks.stop last token known (tracks.latest_none count.le)
  rw [← Nat.zero_add ((last + 1) * authTokenLen), ← Nat.zero_mul authTokenLen] at stop
  exact exists_string stop

/-- When the strings in the rows are all as long as a token, there is one user, who
has logged in. -/
theorem Tracks.single_user {session : AuthSession} (tracks : Tracks session)
    (users : session.context.users ≠ [])
    (filled : ∀ token : CString, ∀ row < session.context.users.length,
      strcmpAt session.context.tokenMemory (row * authTokenLen) token.bytes = true →
        token.bytes.length = authTokenLen) :
    session.context.users.length = 1 ∧ ∃ token, session.latest 0 = some token := by
  have nonempty : ∀ row < session.context.users.length,
      session.context.tokenMemory (row * authTokenLen) ≠ 0 := by
    intro row inside zero
    have empty := filled ⟨[], by simp⟩ row inside (by simpa [strcmpAt] using zero)
    cases empty
  have first : 0 < session.context.users.length := List.length_pos_iff.mpr users
  obtain ⟨token, holds⟩ := tracks.rows_joined users nonempty
  have stop := (strcmpAt_iff.mp holds).2
  rw [filled token 0 first holds, row_succ] at stop
  constructor
  · by_contra several
    exact nonempty 1 (by omega) stop
  · apply Option.ne_none_iff_exists'.mp
    intro missing
    exact nonempty 0 first (tracks.fresh 0 (by decide) missing)

def adminDigest : CharArray 32 :=
  ⟨[69, 162, 150, 161, 104, 207, 152, 167, 253, 137, 87, 226, 77, 90, 215, 206,
    42, 239, 49, 167, 147,
    61, 130, 86, 15, 111, 177, 136, 204, 109, 145, 95], rfl⟩

def guestDigest : CharArray 32 :=
  ⟨[239, 133, 47, 0, 2, 109, 178, 186, 147, 107, 60, 115, 65, 190, 62, 1, 176,
    251, 247, 206, 246, 133,
    181, 35, 86, 7, 43, 101, 179, 99, 83, 99], rfl⟩

/-- SHA-256 of the salts and passwords of `config/users.conf`. -/
def knownSha256 : Sha256 := fun input =>
  if input = text "a1b2c3d4e5f6a7b8admin123" then some adminDigest
  else if input = text "b2c3d4e5f6a7b8c9guest123" then some guestDigest
  else none

/-- The records of `config/users.conf`. -/
def adminRecord : Bytes :=
  text "admin:" ++ digestToHex adminDigest ++ text ":a1b2c3d4e5f6a7b8:3\n"

def guestRecord : Bytes :=
  text "guest:" ++ digestToHex guestDigest ++ text ":b2c3d4e5f6a7b8c9:1\n"

/-- A user who does not log in. -/
def readerRecord : Bytes :=
  text "reader:" ++ digestToHex guestDigest ++ text ":c3d4e5f6a7b8c9d0:1\n"

/-- The context for a users file, with nothing behind it. -/
def contextOf (content : Bytes) : AuthContext :=
  (authInit (some content) fun _ => 0).get rfl

theorem contextOf_created (content : Bytes) :
    authInit (some content) (fun _ => 0) = some (contextOf content) :=
  (Option.some_get _).symm

def adminLogin : LoginCall :=
  ⟨⟨text "admin", by decide⟩, ⟨text "admin123", by decide⟩, ⟨List.replicate 32 0, rfl⟩⟩

def guestLogin : LoginCall :=
  ⟨⟨text "guest", by decide⟩, ⟨text "guest123", by decide⟩, ⟨List.replicate 32 255, rfl⟩⟩

/-- Only tokens of logins are accepted, with the permissions of their user, exactly
when there is no user, or a single one who has logged in. -/
theorem verify_sound_iff (created : authInit content beyond = some context)
    (calls : List LoginCall) :
    (∀ token permissions,
      authVerify (authSession sha256 context calls).context token = some permissions →
        ∃ row user, (row, token.bytes) ∈ (authSession sha256 context calls).issued ∧
          context.users[row]? = some user ∧ permissions = user.permissions) ↔
      context.users = [] ∨ context.users.length = 1 ∧
        ∃ call ∈ calls, loginUser sha256 context.users call.username call.password = some 0 := by
  have tracks := tracks_authSession sha256 created calls
  have users := authSession_users sha256 context calls
  constructor
  · intro sound
    by_cases none : context.users = []
    · exact .inl none
    · have filled : ∀ token : CString, ∀ row < context.users.length,
          strcmpAt (authSession sha256 context calls).context.tokenMemory (row * authTokenLen)
            token.bytes = true → token.bytes.length = authTokenLen := by
        intro token row inside holds
        obtain ⟨permissions, accepted⟩ := authVerify_accepts (users ▸ inside) holds
        obtain ⟨issuer, _, issued, _⟩ := sound token permissions accepted
        exact (tracks.digits _ issued).1
      rw [← users] at none filled
      obtain ⟨single, logged⟩ := tracks.single_user none filled
      exact .inr ⟨users ▸ single, (latest_isSome_iff context calls 0).mp logged⟩
  · intro condition token permissions accepted
    obtain ⟨row, user, present, same, holds, _⟩ := authVerify_eq_some.mp accepted
    rw [users] at present
    have inside : row < context.users.length := (List.getElem?_eq_some_iff.mp present).1
    rcases condition with none | ⟨single, logged⟩
    · simp [none] at inside
    · obtain rfl : row = 0 := by omega
      obtain ⟨latest, known⟩ := (latest_isSome_iff context calls 0).mpr logged
      have outside : (authSession sha256 context calls).latest 1 = none :=
        tracks.latest_none (users ▸ single.le)
      have reads := tracks.holds_latest known (tracks.alone 0 latest known (by simp))
        (tracks.stop 0 latest known outside)
      have equal : token.bytes = latest :=
        strcmpAt_unique token.nulFree (tracks.digits _ (latest_mem known)).2 holds reads
      exact ⟨0, user, equal ▸ latest_mem known, present, same.symm⟩

theorem verify_sound_iff_admin_alone :
    authInit (some adminRecord) (fun _ => 0) = some (contextOf adminRecord) ∧
    ∀ token permissions,
      authVerify (authSession knownSha256 (contextOf adminRecord) [adminLogin]).context token =
          some permissions →
        ∃ row user,
          (row, token.bytes) ∈ (authSession knownSha256 (contextOf adminRecord)
            [adminLogin]).issued ∧
            (contextOf adminRecord).users[row]? = some user ∧ permissions = user.permissions := by
  refine ⟨contextOf_created adminRecord, ?_⟩
  refine (verify_sound_iff (contextOf_created adminRecord) [adminLogin]).mpr (.inr ⟨?_, ?_⟩)
  · decide +kernel
  · exact ⟨adminLogin, by simp, by decide +kernel⟩

/-- The administrator logs in and the guest does not: the empty token is accepted
as the guest's. -/
theorem empty_token_accepted :
    ((authSession knownSha256 (contextOf (adminRecord ++ guestRecord)) [adminLogin]).issued.map
      Prod.snd).Nodup ∧
    ¬∀ token permissions,
      authVerify (authSession knownSha256 (contextOf (adminRecord ++ guestRecord))
          [adminLogin]).context token = some permissions →
        ∃ row user,
          (row, token.bytes) ∈ (authSession knownSha256 (contextOf (adminRecord ++ guestRecord))
            [adminLogin]).issued ∧
            (contextOf (adminRecord ++ guestRecord)).users[row]? = some user ∧
            permissions = user.permissions := by
  refine ⟨by decide +kernel, ?_⟩
  intro sound
  obtain ⟨row, user, issued, _⟩ := sound ⟨[], by simp⟩ 1 (by decide +kernel)
  have absent : [] ∉ (authSession knownSha256 (contextOf (adminRecord ++ guestRecord))
      [adminLogin]).issued.map Prod.snd := by decide +kernel
  exact absent (List.mem_map_of_mem issued)

/-- With distinct tokens, an accepted token is the latest one of the user whose row
holds it. -/
theorem Tracks.holder {session : AuthSession} (tracks : Tracks session)
    (distinct : (session.issued.map Prod.snd).Nodup) {row other : Nat} {token : Bytes}
    (known : session.latest row = some token) (inside : other < session.context.users.length)
    (holds : strcmpAt session.context.tokenMemory (other * authTokenLen) token = true) :
    other = row ∧ session.context.tokenMemory (row * authTokenLen) ≠ 0 ∧
      session.context.tokenMemory ((row + 1) * authTokenLen) = 0 := by
  obtain ⟨filled, nulFree⟩ := tracks.digits _ (latest_mem known)
  obtain ⟨latest, start, stop⟩ :=
    tracks.latest_of_holds (inside.trans_le session.context.few) filled nulFree holds
  have same := List.inj_on_of_nodup_map distinct (latest_mem latest) (latest_mem known) rfl
  obtain rfl : other = row := congrArg Prod.fst same
  exact ⟨rfl, start, stop⟩

theorem Tracks.edges_of_accepted {session : AuthSession} (tracks : Tracks session)
    (distinct : (session.issued.map Prod.snd).Nodup) {row : Nat} (token : CString)
    (known : session.latest row = some token.bytes) {permissions : Int}
    (accepted : authVerify session.context token = some permissions) :
    session.context.tokenMemory (row * authTokenLen) ≠ 0 ∧
      session.context.tokenMemory ((row + 1) * authTokenLen) = 0 := by
  obtain ⟨other, user, present, _, holds, _⟩ := authVerify_eq_some.mp accepted
  exact (tracks.holder distinct known (List.getElem?_eq_some_iff.mp present).1 holds).2

/-- The latest token of a user is accepted when no neighbour has logged in. -/
theorem Tracks.accepts_latest {session : AuthSession} (tracks : Tracks session)
    (distinct : (session.issued.map Prod.snd).Nodup) {row : Nat} {user : AuthUser} {token : CString}
    (present : session.context.users[row]? = some user)
    (known : session.latest row = some token.bytes)
    (before : ∀ before, before + 1 = row → session.latest before = none)
    (after : session.latest (row + 1) = none) :
    authVerify session.context token = some user.permissions := by
  have inside : row < session.context.users.length := (List.getElem?_eq_some_iff.mp present).1
  have holds := tracks.holds_latest known (tracks.alone row _ known before)
    (tracks.stop row _ known after)
  refine authVerify_eq_some.mpr ⟨row, user, present, rfl, holds, ?_⟩
  intro earlier smaller
  by_contra found
  have same := (tracks.holder distinct known (smaller.trans inside) (by simpa using found)).1
  exact smaller.ne same

/-- The latest token of every user is accepted, with the permissions of that user,
exactly when no two users in neighbouring rows have logged in. -/
theorem latest_tokens_accepted_iff (created : authInit content beyond = some context)
    (calls : List LoginCall)
    (distinct : ((authSession sha256 context calls).issued.map Prod.snd).Nodup) :
    (∀ row user token, context.users[row]? = some user →
      (authSession sha256 context calls).latest row = some token.bytes →
        authVerify (authSession sha256 context calls).context token = some user.permissions) ↔
      ∀ first ∈ calls, ∀ second ∈ calls, ∀ row,
        loginUser sha256 context.users first.username first.password = some row →
          loginUser sha256 context.users second.username second.password ≠ some (row + 1) := by
  have tracks := tracks_authSession sha256 created calls
  have users := authSession_users sha256 context calls
  constructor
  · intro accepted first firstCalled second secondCalled row firstLogged secondLogged
    have edges : ∀ row call, call ∈ calls →
        loginUser sha256 context.users call.username call.password = some row →
          (authSession sha256 context calls).context.tokenMemory (row * authTokenLen) ≠ 0 ∧
            (authSession sha256 context calls).context.tokenMemory ((row + 1) * authTokenLen) =
                0 := by
      intro row call called logged
      obtain ⟨token, known⟩ := (latest_isSome_iff context calls row).mpr ⟨call, called, logged⟩
      have nulFree := (tracks.digits _ (latest_mem known)).2
      have present := List.getElem?_eq_getElem (loginUser_lt logged)
      exact tracks.edges_of_accepted distinct ⟨token, nulFree⟩ known
        (accepted row _ ⟨token, nulFree⟩ present known)
    exact (edges (row + 1) second secondCalled secondLogged).1
      (edges row first firstCalled firstLogged).2
  · intro apart row user token present known
    obtain ⟨call, called, logged⟩ := (latest_isSome_iff context calls row).mp ⟨_, known⟩
    have before : ∀ before, before + 1 = row →
        (authSession sha256 context calls).latest before = none := by
      intro before next
      apply latest_none_of_never
      intro other otherCalled otherLogged
      exact apart other otherCalled call called before otherLogged (next ▸ logged)
    have after : (authSession sha256 context calls).latest (row + 1) = none := by
      apply latest_none_of_never
      intro other otherCalled
      exact apart call called other otherCalled row logged
    exact tracks.accepts_latest distinct (users.symm ▸ present) known before after

theorem rows_apart : ∀ call ∈ [adminLogin, guestLogin],
    loginUser knownSha256 (contextOf (adminRecord ++ readerRecord ++ guestRecord)).users
        call.username call.password = some 0 ∨
      loginUser knownSha256 (contextOf (adminRecord ++ readerRecord ++ guestRecord)).users
        call.username call.password = some 2 := by
  intro call called
  rcases List.mem_pair.mp called with rfl | rfl
  · exact Or.inl (by decide +kernel)
  · exact Or.inr (by decide +kernel)

theorem latest_tokens_accepted_iff_apart :
    (authSession knownSha256 (contextOf (adminRecord ++ readerRecord ++ guestRecord))
      [adminLogin, guestLogin]).issued.map Prod.fst = [2, 0] ∧
    ∀ row user token,
      (contextOf (adminRecord ++ readerRecord ++ guestRecord)).users[row]? = some user →
      (authSession knownSha256 (contextOf (adminRecord ++ readerRecord ++ guestRecord))
        [adminLogin, guestLogin]).latest row = some token.bytes →
      authVerify (authSession knownSha256 (contextOf (adminRecord ++ readerRecord ++ guestRecord))
        [adminLogin, guestLogin]).context token = some user.permissions := by
  have distinct : ((authSession knownSha256 (contextOf (adminRecord ++ readerRecord ++ guestRecord))
      [adminLogin, guestLogin]).issued.map Prod.snd).Nodup := by decide +kernel
  refine ⟨by decide +kernel, ?_⟩
  refine (latest_tokens_accepted_iff
    (contextOf_created (adminRecord ++ readerRecord ++ guestRecord))
    [adminLogin, guestLogin] distinct).mpr ?_
  intro first firstCalled second secondCalled row firstLogged secondLogged
  rcases rows_apart first firstCalled with at_row | at_row
  · cases firstLogged.symm.trans at_row
    rcases rows_apart second secondCalled with other | other
    · cases secondLogged.symm.trans other
    · cases secondLogged.symm.trans other
  · cases firstLogged.symm.trans at_row
    rcases rows_apart second secondCalled with other | other
    · cases secondLogged.symm.trans other
    · cases secondLogged.symm.trans other

/-- The administrator and then the guest log in: the token of the administrator is
rejected. -/
theorem admin_token_rejected :
    ((contextOf (adminRecord ++ guestRecord)).users.map AuthUser.username).Nodup ∧
    ((authSession knownSha256 (contextOf (adminRecord ++ guestRecord))
      [adminLogin, guestLogin]).issued.map Prod.snd).Nodup ∧
    ¬∀ row user token, (contextOf (adminRecord ++ guestRecord)).users[row]? = some user →
      (authSession knownSha256 (contextOf (adminRecord ++ guestRecord))
        [adminLogin, guestLogin]).latest row = some token.bytes →
        authVerify (authSession knownSha256 (contextOf (adminRecord ++ guestRecord))
          [adminLogin, guestLogin]).context token = some user.permissions := by
  refine ⟨by decide +kernel, by decide +kernel, ?_⟩
  intro accepted
  have inside : 0 < (contextOf (adminRecord ++ guestRecord)).users.length := by decide +kernel
  have verified := accepted 0 _ ⟨digestToHex adminLogin.random, digestToHex_nulFree _⟩
    (List.getElem?_eq_getElem inside) (by decide +kernel)
  have rejected : authVerify (authSession knownSha256 (contextOf (adminRecord ++ guestRecord))
      [adminLogin, guestLogin]).context
        ⟨digestToHex adminLogin.random, digestToHex_nulFree _⟩ = none := by decide +kernel
  rw [rejected] at verified
  cases verified

end Sessions

end LinuxCLearning.FileServer
