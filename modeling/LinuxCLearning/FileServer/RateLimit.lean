import LinuxCLearning.Base.Machine
import LinuxCLearning.Base.TokenBucket

/-! The rate limiter and the threads that share it. A `double` is an exact rational here,
and each section under the lock, from one reading of the clock to the next, is one step. -/

namespace LinuxCLearning.FileServer

/-- `struct rate_limiter` without its lock; `last_refill` in seconds. -/
structure RateLimiter where
  tokens : ℚ
  maxTokens : ℚ
  refillRate : ℚ
  lastRefill : ℚ
  deriving DecidableEq

namespace RateLimiter

/-- `rate_limiter_create` with the reading of the clock; `none` is `NULL`, also when there
is no memory. -/
def create (memory : Bool) (bytesPerSec now : ℚ) : Option RateLimiter :=
  if bytesPerSec ≤ 0 then none
  else if memory then some ⟨bytesPerSec, bytesPerSec, bytesPerSec, now⟩
  else none

/-- `refill_tokens`. -/
def refillTokens (limiter : RateLimiter) (now : ℚ) : RateLimiter :=
  let elapsedSec := now - limiter.lastRefill
  if elapsedSec > 0 then
    let tokens := limiter.tokens + elapsedSec * limiter.refillRate
    { limiter with
      tokens := if tokens > limiter.maxTokens then limiter.maxTokens else tokens
      lastRefill := now }
  else limiter

/-- How a section under the lock ends: with the bytes granted, or with the seconds that
`rate_limiter_consume` sleeps for. -/
inductive Outcome where
  | granted
  | short (sleepSec : ℚ)
  deriving DecidableEq

/-- The section under the lock of `rate_limiter_try_consume`, and one round of
`rate_limiter_consume`. -/
def attempt (limiter : RateLimiter) (bytes : UInt64) (now : ℚ) : Outcome × RateLimiter :=
  let limiter := limiter.refillTokens now
  if limiter.tokens ≥ bytes.toNat then
    (.granted, { limiter with tokens := limiter.tokens - bytes.toNat })
  else (.short ((bytes.toNat - limiter.tokens) / limiter.refillRate), limiter)

end RateLimiter

/-- A thread in `usleep`, and the bytes that it is going to ask for again. -/
structure Sleeper where
  bytes : UInt64
  sleepSec : ℚ
  deriving DecidableEq

variable {Thread : Type}

/-- The limiter, the last reading of the clock, the threads inside `rate_limiter_consume`,
and the bytes granted, each with the reading at which it was decided. -/
structure LimiterProcess (Thread : Type) where
  limiter : RateLimiter
  clock : ℚ
  asleep : Thread → Option Sleeper
  grants : List (ℚ × UInt64)

/-- A call of a thread, or the end of its `usleep`, which a signal may bring about early. -/
inductive LimiterStep (Thread : Type) where
  | tryConsume (thread : Thread) (bytes : UInt64)
  | consume (thread : Thread) (bytes : UInt64)
  | wake (thread : Thread)

namespace LimiterProcess

/-- A process that has just created its limiter. -/
def started (limiter : RateLimiter) (now : ℚ) : LimiterProcess Thread :=
  ⟨limiter, now, fun _ => none, []⟩

/-- `rate_limiter_try_consume`. -/
def tryConsume (process : LimiterProcess Thread) (bytes : UInt64) (now : ℚ) :
    LimiterProcess Thread :=
  match process.limiter.attempt bytes now with
  | (.granted, limiter) =>
    { process with limiter, clock := now, grants := (now, bytes) :: process.grants }
  | (.short _, limiter) => { process with limiter, clock := now }

/-- One round of the loop of `rate_limiter_consume`. -/
def consumeRound [DecidableEq Thread] (process : LimiterProcess Thread) (thread : Thread)
    (bytes : UInt64) (now : ℚ) :
    LimiterProcess Thread :=
  match process.limiter.attempt bytes now with
  | (.granted, limiter) =>
    { limiter
      clock := now
      asleep := Function.update process.asleep thread none
      grants := (now, bytes) :: process.grants }
  | (.short sleepSec, limiter) =>
    { process with
      limiter
      clock := now
      asleep := Function.update process.asleep thread (some ⟨bytes, sleepSec⟩) }

/-- A step at a reading of the clock, which does not go back. -/
def step [DecidableEq Thread] (process : LimiterProcess Thread) :
    ℚ × LimiterStep Thread → Option (LimiterProcess Thread)
  | (now, taken) =>
    if now < process.clock then none
    else match taken with
      | .tryConsume thread bytes =>
        if (process.asleep thread).isSome then none else some (process.tryConsume bytes now)
      | .consume thread bytes =>
        if (process.asleep thread).isSome then none
        else some (process.consumeRound thread bytes now)
      | .wake thread =>
        (process.asleep thread).map fun sleeper => process.consumeRound thread sleeper.bytes now

/-- The bytes granted at the instants between two, including both. -/
def grantedBetween (process : LimiterProcess Thread) (first last : ℚ) : ℕ :=
  ((process.grants.filter fun grant => first ≤ grant.1 ∧ grant.1 ≤ last).map fun grant =>
    grant.2.toNat).sum

end LimiterProcess

/-- What a process keeps of the rate of its limiter: the last refill was at the last
reading of the clock, and the bucket is within the bounds of a token bucket. -/
structure Limited (rate : ℚ) (process : LimiterProcess Thread) : Prop where
  capacity : process.limiter.maxTokens = rate
  refill : process.limiter.refillRate = rate
  current : process.limiter.lastRefill = process.clock
  bounded : TokenBucket.Bounded rate rate ⟨process.limiter.tokens, process.clock⟩
    (process.grants.map fun grant => (grant.1, (grant.2.toNat : ℚ)))

section Attempt
variable {rate : ℚ} {limiter : RateLimiter}

theorem refillTokens_eq (capacity : limiter.maxTokens = rate) (refill : limiter.refillRate = rate)
    (full : limiter.tokens ≤ rate) {now : ℚ} (later : limiter.lastRefill ≤ now) :
    limiter.refillTokens now =
      ⟨min rate (limiter.tokens + rate * (now - limiter.lastRefill)), rate, rate, now⟩ := by
  obtain ⟨tokens, maxTokens, refillRate, lastRefill⟩ := limiter
  dsimp only at capacity refill full later
  subst capacity refill
  unfold RateLimiter.refillTokens
  dsimp only
  split
  · rw [mul_comm]
    congr 1
    split
    · rename_i above
      exact (min_eq_left above.le).symm
    · rename_i below
      exact (min_eq_right (not_lt.mp below)).symm
  · rename_i still
    obtain rfl : now = lastRefill := by linarith
    rw [sub_self, mul_zero, add_zero, min_eq_right full]

end Attempt

section Steps
variable {rate : ℚ} {process : LimiterProcess Thread}

/-- The tokens after the refill of a step. -/
def LimiterProcess.filled (process : LimiterProcess Thread) (rate now : ℚ) : ℚ :=
  min rate (process.limiter.tokens + rate * (now - process.clock))

namespace Limited

theorem attempt (limited : Limited rate process) {now : ℚ}
    (later : process.clock ≤ now) (bytes : UInt64) :
    process.limiter.attempt bytes now =
      if process.filled rate now ≥ bytes.toNat then
        (.granted, ⟨process.filled rate now - bytes.toNat, rate, rate, now⟩)
      else
        (.short ((bytes.toNat - process.filled rate now) / rate),
          ⟨process.filled rate now, rate, rate, now⟩) := by
  rw [RateLimiter.attempt, refillTokens_eq limited.capacity limited.refill limited.bounded.high
    (limited.current.trans_le later), limited.current]
  rfl

theorem refused (limited : Limited rate process) (positive : 0 < rate) {now : ℚ}
    (later : process.clock ≤ now) (asleep : Thread → Option Sleeper) :
    Limited rate ⟨⟨process.filled rate now, rate, rate, now⟩, now, asleep, process.grants⟩ where
  capacity := rfl
  refill := rfl
  current := rfl
  bounded := limited.bounded.elapse positive.le later

theorem granted (limited : Limited rate process) (positive : 0 < rate) {now : ℚ}
    (later : process.clock ≤ now) {bytes : UInt64} (enough : process.filled rate now ≥ bytes.toNat)
    (asleep : Thread → Option Sleeper) :
    Limited rate
      ⟨⟨process.filled rate now - bytes.toNat, rate, rate, now⟩, now, asleep, (now, bytes) ::
        process.grants⟩ where
  capacity := rfl
  refill := rfl
  current := rfl
  bounded := (limited.bounded.elapse positive.le later).take positive.le (Nat.cast_nonneg _) enough

theorem tryConsume (limited : Limited rate process) (positive : 0 < rate) {now : ℚ}
    (later : process.clock ≤ now)
    (bytes : UInt64) : Limited rate (process.tryConsume bytes now) := by
  rw [LimiterProcess.tryConsume, limited.attempt later]
  by_cases enough : process.filled rate now ≥ bytes.toNat
  · rw [if_pos enough]
    exact limited.granted positive later enough process.asleep
  · rw [if_neg enough]
    exact limited.refused positive later process.asleep

theorem consumeRound [DecidableEq Thread] (limited : Limited rate process)
    (positive : 0 < rate) {now : ℚ}
    (later : process.clock ≤ now) (thread : Thread) (bytes : UInt64) :
    Limited rate (process.consumeRound thread bytes now) := by
  rw [LimiterProcess.consumeRound, limited.attempt later]
  by_cases enough : process.filled rate now ≥ bytes.toNat
  · rw [if_pos enough]
    exact limited.granted positive later enough _
  · rw [if_neg enough]
    exact limited.refused positive later _

theorem step [DecidableEq Thread] (limited : Limited rate process) (positive : 0 < rate)
    {action : ℚ × LimiterStep Thread} {next : LimiterProcess Thread}
    (stepped : process.step action = some next) : Limited rate next := by
  obtain ⟨now, taken⟩ := action
  simp only [LimiterProcess.step] at stepped
  split at stepped
  · cases stepped
  · rename_i forward
    have later := not_lt.mp forward
    cases taken with
    | tryConsume thread bytes =>
      dsimp only at stepped
      split at stepped
      · cases stepped
      · cases stepped
        exact limited.tryConsume positive later bytes
    | consume thread bytes =>
      dsimp only at stepped
      split at stepped
      · cases stepped
      · cases stepped
        exact limited.consumeRound positive later thread bytes
    | wake thread =>
      obtain ⟨sleeper, _, same⟩ := Option.map_eq_some_iff.mp stepped
      rw [← same]
      exact limited.consumeRound positive later thread sleeper.bytes

theorem started {limiter : RateLimiter} {memory : Bool} {start : ℚ}
    (created : RateLimiter.create memory rate start = some limiter) :
    0 < rate ∧ Limited rate (LimiterProcess.started limiter start : LimiterProcess Thread) := by
  unfold RateLimiter.create at created
  split_ifs at created with negative
  cases created
  have positive := not_le.mp negative
  exact ⟨positive, rfl, rfl, rfl, TokenBucket.Bounded.full positive.le positive.le start⟩

theorem grantedBetween (limited : Limited rate process) {first last : ℚ} (ordered : first ≤ last) :
    (process.grantedBetween first last : ℚ) ≤ rate + rate * (last - first) := by
  have bound := limited.bounded.window first last ordered
  rw [TokenBucket.taken, List.filter_map, List.map_map] at bound
  rw [LimiterProcess.grantedBetween, Nat.cast_list_sum, List.map_map]
  exact bound

end Limited

end Steps

/-- However many threads ask for bytes in whatever order, the tokens stay between zero and
their maximum, and in every window of time no more is granted than a full bucket and what
the rate brings in during the window. -/
theorem granted_within_rate [DecidableEq Thread] {memory : Bool} {rate start : ℚ}
    {limiter : RateLimiter} (created : RateLimiter.create memory rate start = some limiter)
    {process : LimiterProcess Thread}
    (reached : Machine.Arrives LimiterProcess.step (fun _ _ => True)
      (.started limiter start) process) :
    0 ≤ process.limiter.tokens ∧ process.limiter.tokens ≤ process.limiter.maxTokens ∧
      ∀ first last, first ≤ last →
        (process.grantedBetween first last : ℚ) ≤ rate + rate * (last - first) := by
  obtain ⟨positive, initially⟩ := @Limited.started Thread rate limiter memory start created
  have limited : Limited rate process := by
    apply reached.keeps initially
    intro state action next kept _ stepped
    exact kept.step positive stepped
  refine ⟨limited.bounded.low, ?_, ?_⟩
  · rw [limited.capacity]
    exact limited.bounded.high
  · intro first last ordered
    exact limited.grantedBetween ordered

/-- Two threads: one drains the bucket and waits for more, the other one takes what has been
refilled meanwhile. -/
theorem granted_within_rate_refilled :
    ∃ process : LimiterProcess Nat, process.grants = [(3 / 5, 500), (1 / 10, 250), (0, 800)] ∧
      (process.grantedBetween 0 (3 / 5) : ℚ) ≤ 1000 + 1000 * (3 / 5 - 0) := by
  have created : RateLimiter.create true 1000 0 = some ⟨1000, 1000, 1000, 0⟩ := by
    norm_num [RateLimiter.create]
  have ran : (Machine.follow LimiterProcess.step
      (LimiterProcess.started ⟨1000, 1000, 1000, 0⟩ 0 : LimiterProcess Nat)
      [(0, .consume 0 800), (0, .consume 0 500), (1 / 10, .tryConsume 1 250), (3 / 10, .wake 0),
        (3 / 5, .wake 0)]).map LimiterProcess.grants =
            some [(3 / 5, 500), (1 / 10, 250), (0, 800)] := by
    decide +kernel
  obtain ⟨process, followed, grants⟩ := Option.map_eq_some_iff.mp ran
  have reached := Machine.Arrives.start.follow (fun _ _ _ => trivial) followed
  exact ⟨process, grants, (granted_within_rate created reached).2.2 0 (3 / 5) (by norm_num)⟩

end LinuxCLearning.FileServer
