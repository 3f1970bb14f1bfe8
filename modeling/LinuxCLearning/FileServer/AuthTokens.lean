import LinuxCLearning.FileServer.Auth

/-! What the token table holds after any sequence of logins, and what the check of
a token makes of it. -/

namespace LinuxCLearning.FileServer

theorem hexDigit_ne_zero {value : Nat} (small : value < 16) : hexDigit value ≠ 0 := by
  interval_cases value <;> decide

theorem hexByte_nulFree (byte : UInt8) : 0 ∉ hexByte byte := by
  have high : byte.toNat / 16 < 16 := Nat.div_lt_of_lt_mul byte.toNat_lt
  have low : byte.toNat % 16 < 16 := Nat.mod_lt _ (by decide)
  simp [hexByte, (hexDigit_ne_zero high).symm, (hexDigit_ne_zero low).symm]

theorem digestToHex_nulFree (digest : CharArray 32) : 0 ∉ digestToHex digest := by
  intro member
  obtain ⟨byte, _, inside⟩ := List.mem_flatMap.mp member
  exact hexByte_nulFree byte inside

theorem digestToHex_length (digest : CharArray 32) :
    (digestToHex digest).length = authTokenLen := by
  have every : ∀ bytes : Bytes, (bytes.flatMap hexByte).length = 2 * bytes.length := by
    intro bytes
    induction bytes with
    | nil => rfl
    | cons byte bytes ih =>
      rw [List.flatMap_cons, List.length_append, ih, List.length_cons, Nat.mul_succ, Nat.add_comm]
      rfl
  rw [digestToHex, every, digest.full]
  rfl

section Rows
variable {row other index : Nat}

theorem cell_lt_row (inside : index < authTokenLen) :
    other * authTokenLen + index < row * authTokenLen ↔ other < row := by
  simp only [authTokenLen] at *
  omega

theorem cell_eq_end (inside : index < authTokenLen) :
    other * authTokenLen + index = row * authTokenLen + authTokenLen ↔
      other = row + 1 ∧ index = 0 := by
  simp only [authTokenLen] at *
  omega

theorem cell_past_end (later : row < other) :
    authTokenLen ≤ other * authTokenLen + index - row * authTokenLen := by
  simp only [authTokenLen] at *
  omega

end Rows

/-- The bytes of the rows after a token was stored in one of them: the digits in that
row, and a zero at the start of the next one. -/
theorem authGenerateToken_apply (memory : Nat → UInt8) (row : Nat) (random : CharArray 32)
    (other : Nat) {index : Nat} (inside : index < authTokenLen) :
    authGenerateToken memory row random (other * authTokenLen + index) =
      if other = row then (digestToHex random).getD index 0
      else if other = row + 1 ∧ index = 0 then 0 else memory (other * authTokenLen + index) := by
  have length := digestToHex_length random
  rw [authGenerateToken]
  simp only [cell_lt_row inside, cell_eq_end inside]
  rcases lt_trichotomy other row with before | rfl | later
  · rw [if_pos before, if_neg before.ne, if_neg]
    intro next
    exact absurd before (by simp [next.1])
  · rw [if_neg (lt_irrefl _), if_neg (by simp), if_pos rfl, Nat.add_sub_cancel_left,
      List.getD_eq_getElem _ _ (length.symm ▸ inside),
      List.getD_eq_getElem _ _ (length.symm ▸ inside)]
  · rw [if_neg later.not_gt, if_neg later.ne', List.getD_eq_default]
    exact length.trans_le (cell_past_end later)

theorem authGenerateToken_head (memory : Nat → UInt8) (row : Nat) (random : CharArray 32)
    (other : Nat) :
    authGenerateToken memory row random (other * authTokenLen) =
      if other = row then (digestToHex random).getD 0 0
      else if other = row + 1 then 0 else memory (other * authTokenLen) := by
  have applied := authGenerateToken_apply memory row random other (show 0 < authTokenLen by decide)
  simpa using applied

theorem strcmpAt_iff {memory : Nat → UInt8} {address : Nat} {token : Bytes} :
    strcmpAt memory address token = true ↔
      (∀ index byte, token[index]? = some byte → memory (address + index) = byte) ∧
        memory (address + token.length) = 0 := by
  induction token generalizing address with
  | nil => simp [strcmpAt]
  | cons first token ih =>
    rw [strcmpAt, Bool.and_eq_true, beq_iff_eq, ih]
    constructor
    · intro found
      obtain ⟨start, bytes, stop⟩ := found
      refine ⟨?_, by simpa [Nat.add_assoc, Nat.add_comm 1] using stop⟩
      intro index byte same
      cases index with
      | zero => simpa [start] using same
      | succ index =>
        have later := bytes index byte (by simpa using same)
        simpa [Nat.add_assoc, Nat.add_comm 1] using later
    · intro found
      obtain ⟨bytes, stop⟩ := found
      refine ⟨bytes 0 first rfl, ?_, by simpa [Nat.add_assoc, Nat.add_comm 1] using stop⟩
      intro index byte same
      have later := bytes (index + 1) byte (by simpa using same)
      simpa [Nat.add_assoc, Nat.add_comm 1] using later

theorem exists_string {memory : Nat → UInt8} {address length : Nat}
    (stops : memory (address + length) = 0) :
    ∃ token : CString, strcmpAt memory address token.bytes = true := by
  induction length generalizing address with
  | zero => exact ⟨⟨[], by simp⟩, by simpa [strcmpAt] using stops⟩
  | succ length ih =>
    by_cases empty : memory address = 0
    · exact ⟨⟨[], by simp⟩, by simpa [strcmpAt] using empty⟩
    · obtain ⟨token, found⟩ := ih (show memory (address + 1 + length) = 0 by
        rwa [Nat.add_right_comm])
      have nulFree : 0 ∉ memory address :: token.bytes := by
        simp [token.nulFree, Ne.symm empty]
      exact ⟨⟨memory address :: token.bytes, nulFree⟩, by simp [strcmpAt, found]⟩

theorem loginUser_lt {sha256 : Sha256} {users : List AuthUser} {username password : CString}
    {row : Nat} (logged : loginUser sha256 users username password = some row) :
    row < users.length := by
  simp only [loginUser, Option.bind_eq_bind, Option.bind_eq_some_iff] at logged
  obtain ⟨found, _, user, present, _, _, same⟩ := logged
  split at same
  · cases same
    exact (List.getElem?_eq_some_iff.mp present).1
  · cases same

section Sessions
variable {sha256 : Sha256} {session : AuthSession} {call : LoginCall}

theorem authGenerateToken_reads (memory : Nat → UInt8) (row : Nat) (random : CharArray 32) :
    ((List.range authTokenLen).map fun index =>
      authGenerateToken memory row random (row * authTokenLen + index)) = digestToHex random := by
  have length := digestToHex_length random
  apply List.ext_getElem (by simp [length])
  intro index inside _
  rw [List.length_map, List.length_range] at inside
  rw [List.getElem_map, List.getElem_range, authGenerateToken_apply memory row random row inside,
    if_pos rfl, List.getD_eq_getElem _ _ (length.symm ▸ inside)]

/-- A login changes nothing, or stores the token of a user and returns it. -/
theorem login_cases (sha256 : Sha256) (session : AuthSession) (call : LoginCall) :
    (loginUser sha256 session.context.users call.username call.password = none ∧
      session.login sha256 call = session) ∨
    ∃ row, loginUser sha256 session.context.users call.username call.password = some row ∧
      session.login sha256 call =
        ⟨{ session.context with
            tokenMemory := authGenerateToken session.context.tokenMemory row call.random },
          (row, digestToHex call.random) :: session.issued⟩ := by
  cases logged : loginUser sha256 session.context.users call.username call.password with
  | none => exact .inl ⟨rfl, by simp [AuthSession.login, authLogin, logged]⟩
  | some row =>
    refine .inr ⟨row, rfl, ?_⟩
    simp [AuthSession.login, authLogin, logged, authGenerateToken_reads]

theorem login_users : (session.login sha256 call).context.users = session.context.users := by
  rcases login_cases sha256 session call with ⟨_, same⟩ | ⟨row, _, same⟩
  · rw [same]
  · rw [same]

theorem authSession_append (context : AuthContext) (calls : List LoginCall) :
    authSession sha256 context (calls ++ [call]) =
      (authSession sha256 context calls).login sha256 call := by
  simp [authSession]

theorem authSession_users (sha256 : Sha256) (context : AuthContext) (calls : List LoginCall) :
    (authSession sha256 context calls).context.users = context.users := by
  induction calls using List.reverseRecOn with
  | nil => rfl
  | append_singleton calls call ih => rw [authSession_append, login_users, ih]

theorem latest_cons (session : AuthSession) (context : AuthContext) (row : Nat) (token : Bytes)
    (other : Nat) :
    AuthSession.latest ⟨context, (row, token) :: session.issued⟩ other =
      if other = row then some token else session.latest other := by
  by_cases same : other = row
  · simp [AuthSession.latest, same]
  · simp [AuthSession.latest, same, Ne.symm same]

theorem latest_cons_none {context : AuthContext} {row other : Nat} {token : Bytes} :
    AuthSession.latest ⟨context, (row, token) :: session.issued⟩ other = none ↔
      other ≠ row ∧ session.latest other = none := by
  rw [latest_cons]
  split <;> simp [*]

theorem latest_cons_some {context : AuthContext} {row other : Nat} {token text : Bytes} :
    AuthSession.latest ⟨context, (row, token) :: session.issued⟩ other = some text ↔
      other = row ∧ token = text ∨ other ≠ row ∧ session.latest other = some text := by
  rw [latest_cons]
  split <;> simp [*]

theorem latest_mem {row : Nat} {token : Bytes} (known : session.latest row = some token) :
    (row, token) ∈ session.issued := by
  obtain ⟨entry, found, same⟩ := Option.map_eq_some_iff.mp known
  have equal : entry.1 = row := by simpa using List.find?_some found
  rw [← equal, ← same]
  exact List.mem_of_find?_eq_some found

/-- A user has a latest token when one of the calls was a login of that user. -/
theorem latest_isSome_iff (context : AuthContext) (calls : List LoginCall) (row : Nat) :
    (∃ token, (authSession sha256 context calls).latest row = some token) ↔
      ∃ call ∈ calls, loginUser sha256 context.users call.username call.password = some row := by
  induction calls using List.reverseRecOn with
  | nil => simp [authSession, AuthSession.latest]
  | append_singleton calls call ih =>
    have users := authSession_users sha256 context calls
    rw [authSession_append]
    simp only [List.mem_append, List.mem_singleton, or_and_right, exists_or, exists_eq_left, ← ih]
    rcases login_cases sha256 (authSession sha256 context calls) call with
      ⟨refused, same⟩ | ⟨logged, found, same⟩
    · rw [same]
      rw [users] at refused
      simp [refused]
    · rw [same]
      rw [users] at found
      simp only [latest_cons, found, Option.some.injEq]
      by_cases equal : row = logged
      · simp [equal]
      · simp [equal, Ne.symm equal]

theorem latest_none_of_never {context : AuthContext} {calls : List LoginCall} {row : Nat}
    (never : ∀ call ∈ calls,
      loginUser sha256 context.users call.username call.password ≠ some row) :
    (authSession sha256 context calls).latest row = none := by
  by_contra stored
  obtain ⟨call, called, logged⟩ :=
    (latest_isSome_iff context calls row).mp (Option.ne_none_iff_exists'.mp stored)
  exact never call called logged

end Sessions

/-- What the token table holds at any time: the latest token of each user, of which
the first digit may be cleared when the user of the row before has logged in too. -/
structure Tracks (session : AuthSession) : Prop where
  known : ∀ entry ∈ session.issued, entry.1 < session.context.users.length
  digits : ∀ entry ∈ session.issued, entry.2.length = authTokenLen ∧ 0 ∉ entry.2
  fresh : ∀ row < authMaxUsers, session.latest row = none →
    session.context.tokenMemory (row * authTokenLen) = 0
  body : ∀ row token, session.latest row = some token → ∀ index < authTokenLen, index ≠ 0 →
    session.context.tokenMemory (row * authTokenLen + index) = token.getD index 0
  start : ∀ row token, session.latest row = some token →
    session.context.tokenMemory (row * authTokenLen) = 0 ∨
      session.context.tokenMemory (row * authTokenLen) = token.getD 0 0
  alone : ∀ row token, session.latest row = some token →
    (∀ before, before + 1 = row → session.latest before = none) →
      session.context.tokenMemory (row * authTokenLen) = token.getD 0 0
  stop : ∀ row token, session.latest row = some token → session.latest (row + 1) = none →
    session.context.tokenMemory ((row + 1) * authTokenLen) = 0

theorem Tracks.init {content : Option Bytes} {beyond : Nat → UInt8} {context : AuthContext}
    (created : authInit content beyond = some context) : Tracks ⟨context, []⟩ := by
  obtain ⟨input, _, rfl⟩ := Option.map_eq_some_iff.mp created
  refine ⟨by simp, by simp, ?_, ?_, ?_, ?_, ?_⟩
  · intro row inside _
    have within : row * authTokenLen < authMaxUsers * authTokenLen :=
      Nat.mul_lt_mul_of_pos_right inside (by decide)
    exact if_pos within
  all_goals
    intro row token known
    cases known

theorem Tracks.login {sha256 : Sha256} {session : AuthSession} (holds : Tracks session)
    (call : LoginCall) : Tracks (session.login sha256 call) := by
  rcases login_cases sha256 session call with ⟨_, same⟩ | ⟨logged, found, same⟩
  · rwa [same]
  · rw [same]
    refine ⟨?_, ?_, ?_, ?_, ?_, ?_, ?_⟩
    · exact List.forall_mem_cons.mpr ⟨loginUser_lt found, holds.known⟩
    · exact List.forall_mem_cons.mpr
        ⟨⟨digestToHex_length call.random, digestToHex_nulFree call.random⟩, holds.digits⟩
    · intro row inside missing
      obtain ⟨other, missing⟩ := latest_cons_none.mp missing
      apply (authGenerateToken_head _ _ _ _).trans
      rw [if_neg other, holds.fresh row inside missing, ite_self]
    · intro row token known index inside positive
      apply (authGenerateToken_apply _ _ _ _ inside).trans
      rcases latest_cons_some.mp known with ⟨rfl, rfl⟩ | ⟨other, known⟩
      · exact if_pos rfl
      · rw [if_neg other, if_neg (by simp [positive])]
        exact holds.body row token known index inside positive
    · intro row token known
      simp only [authGenerateToken_head]
      rcases latest_cons_some.mp known with ⟨rfl, rfl⟩ | ⟨other, known⟩
      · exact .inr (if_pos rfl)
      · rw [if_neg other]
        split
        · exact .inl rfl
        · exact holds.start row token known
    · intro row token known unspoiled
      apply (authGenerateToken_head _ _ _ _).trans
      rcases latest_cons_some.mp known with ⟨rfl, rfl⟩ | ⟨other, known⟩
      · exact if_pos rfl
      · have apart : row ≠ logged + 1 := by
          intro next
          exact (latest_cons_none.mp (unspoiled logged next.symm)).1 rfl
        rw [if_neg other, if_neg apart]
        exact holds.alone row token known fun before next =>
          (latest_cons_none.mp (unspoiled before next)).2
    · intro row token known missing
      obtain ⟨different, missing⟩ := latest_cons_none.mp missing
      apply (authGenerateToken_head _ _ _ _).trans
      rw [if_neg different]
      rcases latest_cons_some.mp known with ⟨rfl, rfl⟩ | ⟨other, known⟩
      · exact if_pos rfl
      · rw [holds.stop row token known missing, ite_self]

theorem tracks_authSession (sha256 : Sha256) {content : Option Bytes} {beyond : Nat → UInt8}
    {context : AuthContext} (created : authInit content beyond = some context)
    (calls : List LoginCall) : Tracks (authSession sha256 context calls) := by
  induction calls using List.reverseRecOn with
  | nil => exact .init created
  | append_singleton calls call ih =>
    rw [authSession_append]
    exact ih.login call

end LinuxCLearning.FileServer
