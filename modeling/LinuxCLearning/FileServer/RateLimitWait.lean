import LinuxCLearning.FileServer.RateLimit

/-! The loop of `rate_limiter_consume` in a single thread: it ends exactly if the bucket can
hold the bytes that it waits for. -/

namespace LinuxCLearning.FileServer

namespace RateLimiter

/-- The limiter with which a round of `rate_limiter_consume` begins, given the readings of the
clock in the rounds; `none` once a round has returned. -/
def consumeBefore (limiter : RateLimiter) (bytes : UInt64) (readings : ℕ → ℚ) :
    ℕ → Option RateLimiter
  | 0 => some limiter
  | round + 1 =>
    match limiter.consumeBefore bytes readings round with
    | none => none
    | some waiting =>
      match waiting.attempt bytes (readings round) with
      | (.granted, _) => none
      | (.short _, left) => some left

/-- Some round of `rate_limiter_consume` returns. -/
def ConsumeReturns (limiter : RateLimiter) (bytes : UInt64) (readings : ℕ → ℚ) : Prop :=
  ∃ round, limiter.consumeBefore bytes readings round = none

/-- A round sleeps for these seconds. -/
def SleepsIn (limiter : RateLimiter) (bytes : UInt64) (readings : ℕ → ℚ) (round : ℕ)
    (sleepSec : ℚ) : Prop :=
  ∃ waiting, limiter.consumeBefore bytes readings round = some waiting ∧
    (waiting.attempt bytes (readings round)).1 = .short sleepSec

/-- `(useconds_t)(sleep_sec * 1e6)`, in seconds. -/
def usleepArgument (sleepSec : ℚ) : ℚ := (⌊sleepSec * 10 ^ 6⌋₊ % 2 ^ 32 : ℕ) / 10 ^ 6

/-- Readings of a monotonic clock around `usleep`, which takes at least the time of its
argument. Either it takes what the argument leaves out of the seconds as well, or the clock
goes on without bound. -/
structure Slept (limiter : RateLimiter) (bytes : UInt64) (readings : ℕ → ℚ) : Prop where
  started : limiter.lastRefill ≤ readings 0
  sleeps : ∀ round sleepSec, limiter.SleepsIn bytes readings round sleepSec →
    readings round + usleepArgument sleepSec ≤ readings (round + 1)
  passes : (∀ round sleepSec, limiter.SleepsIn bytes readings round sleepSec →
      readings round + sleepSec ≤ readings (round + 1)) ∨
    ∀ bound, ∃ round, bound ≤ readings round

end RateLimiter

section Refill
variable {limiter : RateLimiter} {now : ℚ}

theorem refillTokens_level (later : limiter.lastRefill ≤ now) :
    ∃ tokens, limiter.refillTokens now = ⟨tokens, limiter.maxTokens, limiter.refillRate, now⟩ ∧
      min limiter.maxTokens (limiter.tokens + limiter.refillRate * (now - limiter.lastRefill)) ≤
        tokens ∧
      (tokens ≤ limiter.maxTokens ∨ now = limiter.lastRefill ∧ tokens = limiter.tokens) := by
  obtain ⟨level, maxTokens, refillRate, lastRefill⟩ := limiter
  dsimp only at later
  unfold RateLimiter.refillTokens
  dsimp only
  split
  · rw [mul_comm refillRate]
    split
    · exact ⟨_, rfl, min_le_left _ _, Or.inl (le_refl _)⟩
    · rename_i below
      exact ⟨_, rfl, min_le_right _ _, Or.inl (not_lt.mp below)⟩
  · obtain rfl : now = lastRefill := by linarith
    refine ⟨_, rfl, ?_, Or.inr ⟨rfl, rfl⟩⟩
    rw [sub_self, mul_zero, add_zero]
    exact min_le_right _ _

end Refill

section Loop
variable {limiter : RateLimiter} {bytes : UInt64} {readings : ℕ → ℚ}

/-- What is known of a limiter that a round leaves short of tokens: the refill of all the
time since the call has not been enough. -/
structure Short (limiter : RateLimiter) (bytes : UInt64) (now : ℚ) (left : RateLimiter) : Prop where
  capacity : left.maxTokens = limiter.maxTokens
  rate : left.refillRate = limiter.refillRate
  current : left.lastRefill = now
  missing : left.tokens < bytes.toNat
  filled : min limiter.maxTokens
    (limiter.tokens + limiter.refillRate * (now - limiter.lastRefill)) ≤ left.tokens

theorem attempt_spec (limiter : RateLimiter) (bytes : UInt64) {now : ℚ}
    (clock : limiter.lastRefill ≤ now) :
    (∃ left, limiter.attempt bytes now = (.granted, left) ∧
      (bytes.toNat ≤ limiter.maxTokens ∨ now = limiter.lastRefill ∧ bytes.toNat ≤ limiter.tokens)) ∨
    ∃ left, limiter.attempt bytes now =
      (.short ((bytes.toNat - left.tokens) / limiter.refillRate), left) ∧
      Short limiter bytes now left := by
  obtain ⟨tokens, refilled, filled, capped⟩ := refillTokens_level clock
  rw [RateLimiter.attempt, refilled]
  dsimp only
  split
  · rename_i enough
    refine Or.inl ⟨_, rfl, ?_⟩
    rcases capped with inside | ⟨still, kept⟩
    · exact Or.inl (enough.trans inside)
    · exact Or.inr ⟨still, kept ▸ enough⟩
  · rename_i missing
    refine Or.inr ⟨⟨tokens, limiter.maxTokens, limiter.refillRate, now⟩, rfl, ?_⟩
    exact ⟨rfl, rfl, rfl, not_le.mp missing, filled⟩

theorem Short.trans {first last : ℚ} {waiting left : RateLimiter} (flows : 0 < limiter.refillRate)
    (earlier : Short limiter bytes first waiting) (later : Short waiting bytes last left)
    (clock : first ≤ last) :
    Short limiter bytes last left where
  capacity := later.capacity.trans earlier.capacity
  rate := later.rate.trans earlier.rate
  current := later.current
  missing := later.missing
  filled := by
    have inflow : 0 ≤ limiter.refillRate * (last - first) :=
      mul_nonneg flows.le (sub_nonneg.mpr clock)
    have kept := earlier.filled
    have filled := later.filled
    rw [earlier.capacity, earlier.rate, earlier.current] at filled
    refine le_trans (le_min (min_le_left _ _) ?_) filled
    rcases min_choice limiter.maxTokens
      (limiter.tokens + limiter.refillRate * (first - limiter.lastRefill)) with full | level
    · rw [full] at kept
      exact (min_le_left _ _).trans (by linarith)
    · rw [level] at kept
      exact (min_le_right _ _).trans (by linarith)

theorem consumeBefore_sleeps {round : ℕ} {waiting : RateLimiter}
    (going : limiter.consumeBefore bytes readings (round + 1) = some waiting) :
    ∃ sleepSec, limiter.SleepsIn bytes readings round sleepSec := by
  rw [RateLimiter.consumeBefore] at going
  split at going
  · cases going
  · rename_i before earlier
    split at going
    · cases going
    · rename_i sleepSec left refused
      exact ⟨sleepSec, before, earlier, congrArg Prod.fst refused⟩

theorem usleepArgument_nonneg (sleepSec : ℚ) : 0 ≤ RateLimiter.usleepArgument sleepSec :=
  div_nonneg (Nat.cast_nonneg _) (by norm_num)

/-- The rounds of a call: each has returned, for a reason that the call had from the start, or
leaves the limiter short. -/
theorem consumeBefore_spec (flows : 0 < limiter.refillRate) (slept : limiter.Slept bytes readings)
    (round : ℕ) :
    (limiter.consumeBefore bytes readings (round + 1) = none ∧
      (bytes.toNat ≤ limiter.maxTokens ∨ readings 0 = limiter.lastRefill ∧
        bytes.toNat ≤ limiter.tokens)) ∨
    ∃ left, limiter.consumeBefore bytes readings (round + 1) = some left ∧
      Short limiter bytes (readings round) left := by
  induction round with
  | zero =>
    rcases attempt_spec limiter bytes slept.started with ⟨left, granted,
      reason⟩ | ⟨left, refused, short⟩
    · simp only [RateLimiter.consumeBefore, granted]
      exact Or.inl ⟨trivial, reason⟩
    · simp only [RateLimiter.consumeBefore, refused]
      exact Or.inr ⟨left, rfl, short⟩
  | succ round ih =>
    rw [RateLimiter.consumeBefore]
    rcases ih with ⟨returned, reason⟩ | ⟨waiting, going, short⟩
    · rw [returned]
      exact Or.inl ⟨rfl, reason⟩
    · obtain ⟨sleepSec, asleep⟩ := consumeBefore_sleeps going
      have clock : readings round ≤ readings (round + 1) :=
        (le_add_of_nonneg_right (usleepArgument_nonneg sleepSec)).trans
          (slept.sleeps round sleepSec asleep)
      rw [going]
      rcases attempt_spec waiting bytes (short.current.trans_le clock) with ⟨left, granted,
        reason⟩ | ⟨left, refused, later⟩
      · simp only [granted]
        refine Or.inl ⟨trivial, ?_⟩
        rcases reason with capacity | ⟨_, enough⟩
        · exact Or.inl (short.capacity ▸ capacity)
        · exact absurd short.missing (not_lt.mpr enough)
      · simp only [refused]
        exact Or.inr ⟨left, rfl, short.trans flows later clock⟩

/-- Time enough for the missing tokens, if the bucket can hold them, leaves no limiter short. -/
theorem Short.impossible {now : ℚ} {left : RateLimiter} (short : Short limiter bytes now left)
    (holds : bytes.toNat ≤ limiter.maxTokens)
    (enough : bytes.toNat ≤ limiter.tokens + limiter.refillRate * (now - limiter.lastRefill)) :
      False := by
  have full := le_min holds enough
  exact absurd short.missing (not_lt.mpr (full.trans short.filled))

theorem consume_stuck (flows : 0 < limiter.refillRate) (slept : limiter.Slept bytes readings)
    (stuck : ¬ limiter.ConsumeReturns bytes readings) (round : ℕ) :
    ∃ left, limiter.consumeBefore bytes readings (round + 1) = some left ∧
      Short limiter bytes (readings round) left := by
  rcases consumeBefore_spec flows slept round with ⟨returned, _⟩ | going
  · exact absurd ⟨round + 1, returned⟩ stuck
  · exact going

/-- `rate_limiter_consume` returns exactly if the bucket can hold the bytes, or if they are
there before the first refill and no time has passed since the last one. -/
theorem consume_returns_iff (flows : 0 < limiter.refillRate)
    (slept : limiter.Slept bytes readings) :
    limiter.ConsumeReturns bytes readings ↔
      bytes.toNat ≤ limiter.maxTokens ∨ readings 0 = limiter.lastRefill ∧
        bytes.toNat ≤ limiter.tokens := by
  constructor
  · rintro ⟨round, returned⟩
    cases round with
    | zero => cases returned
    | succ round =>
      rcases consumeBefore_spec flows slept round with ⟨_, reason⟩ | ⟨left, going, _⟩
      · exact reason
      · rw [returned] at going
        cases going
  · intro reason
    by_contra stuck
    rcases reason with holds | ⟨still, enough⟩
    · rcases slept.passes with exact | unbounded
      · rcases attempt_spec limiter bytes slept.started with ⟨left, granted,
          _⟩ | ⟨left, refused, short⟩
        · exact stuck ⟨1, by simp only [RateLimiter.consumeBefore, granted]⟩
        · have going : limiter.consumeBefore bytes readings 1 = some left := by
            simp only [RateLimiter.consumeBefore, refused]
          have asleep := exact 0 _ ⟨limiter, rfl, congrArg Prod.fst refused⟩
          have needed : 0 ≤ (bytes.toNat - left.tokens) / limiter.refillRate :=
            div_nonneg (sub_nonneg.mpr short.missing.le) flows.le
          rcases @attempt_spec left bytes (readings 1) (by linarith [short.current]) with
            ⟨after, granted, _⟩ | ⟨after, _, again⟩
          · apply stuck
            refine ⟨2, ?_⟩
            rw [RateLimiter.consumeBefore, going]
            simp only [granted]
          · apply again.impossible (short.capacity ▸ holds)
            have inflow : (bytes.toNat - left.tokens) / limiter.refillRate ≤
                readings 1 - left.lastRefill := by
              rw [short.current]
              linarith
            rw [div_le_iff₀' flows] at inflow
            rw [short.rate]
            linarith
      · obtain ⟨round, passed⟩ :=
          unbounded (limiter.lastRefill + (bytes.toNat - limiter.tokens) / limiter.refillRate)
        obtain ⟨left, _, short⟩ := consume_stuck flows slept stuck round
        apply short.impossible holds
        have inflow : (bytes.toNat - limiter.tokens) / limiter.refillRate ≤
            readings round - limiter.lastRefill := by
          linarith
        rw [div_le_iff₀' flows] at inflow
        linarith
    · apply stuck
      refine ⟨1, ?_⟩
      have unchanged : limiter.refillTokens (readings 0) = limiter := by
        rw [RateLimiter.refillTokens, still, sub_self]
        exact if_neg (lt_irrefl 0)
      simp only [RateLimiter.consumeBefore, RateLimiter.attempt, unchanged,
        ge_iff_le, if_pos enough]

theorem sleepsIn_eq (flows : 0 < limiter.refillRate) (slept : limiter.Slept bytes readings)
    {round : ℕ} {sleepSec : ℚ} (asleep : limiter.SleepsIn bytes readings round sleepSec) :
    ∃ left, sleepSec = (bytes.toNat - left.tokens) / limiter.refillRate ∧
      Short limiter bytes (readings round) left := by
  obtain ⟨waiting, going, refused⟩ := asleep
  cases shape : waiting.attempt bytes (readings round) with
  | mk outcome left =>
    rw [shape] at refused
    obtain rfl : outcome = .short sleepSec := refused
    have next : limiter.consumeBefore bytes readings (round + 1) = some left := by
      simp only [RateLimiter.consumeBefore, going, shape]
    rcases consumeBefore_spec flows slept round with ⟨returned, _⟩ | ⟨after, same, short⟩
    · rw [returned] at next
      cases next
    · obtain rfl : after = left := Option.some.inj (same.symm.trans next)
      refine ⟨after, ?_, short⟩
      rw [RateLimiter.attempt] at shape
      split at shape
      · cases shape
      · obtain ⟨sleep, left⟩ := Prod.mk.inj shape
        rw [← RateLimiter.Outcome.short.inj sleep, ← short.rate, ← left]

/-- A clock that is read every 8192 seconds, longer than any argument of `usleep`. -/
theorem slept_long (limiter : RateLimiter) (bytes : UInt64) :
    limiter.Slept bytes fun round => limiter.lastRefill + 8192 * round where
  started := by simp
  sleeps := by
    intro round sleepSec _
    have word : ⌊sleepSec * 10 ^ 6⌋₊ % 2 ^ 32 ≤ 2 ^ 32 := (Nat.mod_lt _ (by norm_num)).le
    have asked : RateLimiter.usleepArgument sleepSec ≤ 8192 := by
      rw [RateLimiter.usleepArgument, div_le_iff₀ (by norm_num)]
      have cast : ((⌊sleepSec * 10 ^ 6⌋₊ % 2 ^ 32 : ℕ) : ℚ) ≤ ((2 ^ 32 : ℕ) : ℚ) :=
        Nat.cast_le.mpr word
      refine cast.trans ?_
      norm_num
    push_cast
    linarith
  passes := by
    right
    intro bound
    obtain ⟨round, beyond⟩ := exists_nat_ge (bound - limiter.lastRefill)
    refine ⟨round, ?_⟩
    have natural : (0 : ℚ) ≤ round := Nat.cast_nonneg round
    linarith

/-- Half of a bucket, which is enough after the first sleep. -/
theorem consume_returns_half :
    (⟨5, 10, 10, 0⟩ : RateLimiter).ConsumeReturns 8 (fun round => 0 + 8192 * round) ↔
      ((8 : UInt64).toNat : ℚ) ≤ 10 ∨ (0 + 8192 * ((0 : ℕ) : ℚ) : ℚ) = 0 ∧
        ((8 : UInt64).toNat : ℚ) ≤ 5 :=
  consume_returns_iff (by norm_num) (slept_long ⟨5, 10, 10, 0⟩ 8)

/-- Eleven bytes from a full bucket of ten: each round sleeps for as long as the missing
token takes, and none returns. -/
theorem consume_never_returns :
    (⟨10, 10, 10, 0⟩ : RateLimiter).Slept 11 (fun round => 0 + 8192 * round) ∧
      (∀ round sleepSec, (⟨10, 10, 10, 0⟩ : RateLimiter).SleepsIn 11
        (fun round => 0 + 8192 * round) round sleepSec →
        (0 + 8192 * (round : ℚ)) + sleepSec ≤ 0 + 8192 * ((round + 1 : ℕ) : ℚ)) ∧
      ¬ (⟨10, 10, 10, 0⟩ : RateLimiter).ConsumeReturns 11 (fun round => 0 + 8192 * round) := by
  have flows : 0 < (⟨10, 10, 10, 0⟩ : RateLimiter).refillRate := by norm_num
  have slept : (⟨10, 10, 10, 0⟩ : RateLimiter).Slept 11 (fun round => 0 + 8192 * round) :=
    slept_long ⟨10, 10, 10, 0⟩ 11
  have bytes : ((11 : UInt64).toNat : ℚ) = 11 := rfl
  refine ⟨slept, ?_, ?_⟩
  · intro round sleepSec asleep
    obtain ⟨left, same, short⟩ := sleepsIn_eq flows slept asleep
    have natural : (0 : ℚ) ≤ round := Nat.cast_nonneg round
    have full := short.filled
    rw [min_eq_left (by dsimp only; linarith)] at full
    dsimp only at full same
    rw [bytes] at same
    push_cast
    linarith
  · rintro ⟨round, returned⟩
    cases round with
    | zero => cases returned
    | succ round =>
      rcases consumeBefore_spec flows slept round with ⟨_, holds | ⟨_, enough⟩⟩ | ⟨left, going, _⟩
      · rw [bytes] at holds
        norm_num at holds
      · rw [bytes] at enough
        norm_num at enough
      · rw [returned] at going
        cases going

end Loop

end LinuxCLearning.FileServer
