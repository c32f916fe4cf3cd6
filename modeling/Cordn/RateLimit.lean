import Cordn.Adapter
import Cordn.Lib.ForgottenBucket

/-!
# The rate limiter

A token bucket for each key under one lock. Tokens and rates are floating-point
in the source and rational here; times are 64-bit and their differences wrap.
Seen by one key, the limiter is a single bucket past which the other keys' calls
only let time go by.
-/

set_option autoImplicit false

namespace Cordn.RateLimit
open IndexMap TokenBucket

structure RateLimitConfig where
  enabled : Bool
  refillPerMinute : Int
  burst : Int
  idleTtlMs : Int
  deriving DecidableEq, Repr

structure TokenBucketRateLimitConfig where
  enabled : Bool
  refillPerMinute : ℚ
  burst : ℚ
  idleTtlMs : ℚ

structure TokenBucketState where
  tokens : ℚ
  lastRefillAt : Int
  lastSeenAt : Int
  deriving DecidableEq

def clampNonNegative (value : ℚ) : ℚ := if 0 < value then value else 0

structure TokenBucketRateLimiter where
  enabled : Bool
  burst : ℚ
  idleTtlMs : ℚ
  refillTokensPerMs : ℚ

abbrev Buckets := IndexMap String TokenBucketState

namespace TokenBucketRateLimiter

def new (config : TokenBucketRateLimitConfig) : TokenBucketRateLimiter where
  enabled := config.enabled
  burst := clampNonNegative config.burst
  idleTtlMs := clampNonNegative config.idleTtlMs
  refillTokensPerMs := clampNonNegative config.refillPerMinute / 60000

variable (rl : TokenBucketRateLimiter)

def evictIdleBuckets (buckets : Buckets) (now : Int) : Buckets :=
  if rl.idleTtlMs ≤ 0 ∨ buckets.size = 0 then buckets
  else buckets.retain (fun _ bucket =>
    decide ((wrappingSub now bucket.lastSeenAt : ℚ) < rl.idleTtlMs))

def check (key : String) (now : Int) (buckets : Buckets) : Bool × Buckets :=
  if !rl.enabled then (true, buckets)
  else
    let buckets := rl.evictIdleBuckets buckets now
    match buckets.get? key with
    | none =>
      if rl.burst < 1 then (false, buckets)
      else (true, buckets.insert key ⟨rl.burst - 1, now, now⟩)
    | some bucket =>
      let elapsedMs : ℚ := (max (wrappingSub now bucket.lastRefillAt) 0 : Int)
      let refilled := elapsedMs * rl.refillTokensPerMs
      let available := min (bucket.tokens + refilled) rl.burst
      if available < 1 then (false, buckets.insert key ⟨available, now, now⟩)
      else (true, buckets.insert key ⟨available - 1, now, now⟩)

end TokenBucketRateLimiter

def toRateLimitConfig (c : RateLimitConfig) : TokenBucketRateLimitConfig where
  enabled := c.enabled
  refillPerMinute := c.refillPerMinute
  burst := c.burst
  idleTtlMs := c.idleTtlMs

def rateLimiter (c : RateLimitConfig) : Adapter.RateLimiter Buckets :=
  ⟨(TokenBucketRateLimiter.new (toRateLimitConfig c)).check⟩

structure Check where
  key : String
  now : Int
  deriving DecidableEq, Repr

def step (c : RateLimitConfig) (call : Check) (buckets : Buckets) : Bool × Buckets :=
  (rateLimiter c).check call.key call.now buckets

def ofKey (key : String) (call : Check) (answer : Bool) : Option Bool :=
  if call.key = key then some answer else none

def TokenBucketRateLimiter.step (rl : TokenBucketRateLimiter) (call : Check) (buckets : Buckets) :
    Bool × Buckets :=
  rl.check call.key call.now buckets

def answersTo (c : RateLimitConfig) (key : String) (calls : List Check) (buckets : Buckets) :
    List Bool :=
  Run.observations (step c) (ofKey key) calls buckets

def TokenBucketRateLimiter.answersTo (rl : TokenBucketRateLimiter) (key : String)
    (calls : List Check) (buckets : Buckets) : List Bool :=
  Run.observations rl.step (ofKey key) calls buckets

/-- The calls come in the order of their times, and no two of these lie so far apart
that their difference leaves 64 bits. -/
def InOrder (calls : List Check) : Prop :=
  (calls.map Check.now).Pairwise (fun seen now => seen ≤ now ∧ now-seen < 2^63)

instance (calls : List Check) : Decidable (InOrder calls) :=
  inferInstanceAs (Decidable (List.Pairwise _ _))

def allowed (c : RateLimitConfig) (key : String) (calls : List Check) (buckets : Buckets) : ℕ :=
  (answersTo c key calls buckets).count true

def limits (c : RateLimitConfig) : Limits ℚ where
  capacity := clampNonNegative c.burst
  rate := clampNonNegative c.refillPerMinute / 60000
  idle := clampNonNegative c.idleTtlMs

def TokenBucketRateLimiter.limits (rl : TokenBucketRateLimiter) : Limits ℚ where
  capacity := rl.burst
  rate := rl.refillTokensPerMs
  idle := rl.idleTtlMs

theorem limits_nat (burst refill ttl : ℕ) :
    limits ⟨true, refill, burst, ttl⟩ = ⟨burst, refill / 60000, ttl⟩ := by
  have hclamp : ∀ n : ℕ, clampNonNegative n = n := by
    intro n
    rw [clampNonNegative]
    split
    · rfl
    · rename_i h
      have hn : n = 0 := by simpa using h
      simp [hn]
  simp only [limits, Int.cast_natCast, hclamp]

def stateOf (b : Bucket ℚ) : TokenBucketState := ⟨b.tokens, b.seenAt, b.seenAt⟩

/-- What stands under the key is the one bucket `o`. -/
def Tracks (key : String) (buckets : Buckets) (o : Option (Bucket ℚ)) : Prop :=
  buckets.get? key = o.map stateOf

def seenBy (key : String) (call : Check) : Event :=
  if call.key = key then .draw call.now else .pass call.now

theorem seenBy_now (key : String) (call : Check) : (seenBy key call).now = call.now := by
  rw [seenBy]
  split <;> rfl

theorem InOrder.inTime {calls : List Check} (h : InOrder calls) (key : String) :
    InTime wrappingSub (calls.map (seenBy key)) := by
  have htimes : (calls.map (seenBy key)).map Event.now = calls.map Check.now := by
    simp [seenBy_now]
  rw [InTime, htimes]
  refine List.Pairwise.imp ?_ h
  rintro seen now ⟨hle, hnear⟩
  exact ⟨hle, wrappingSub_of_small now seen (by omega) hnear⟩

theorem tracks_empty (key : String) : Tracks key IndexMap.empty none := rfl

theorem tracks_insert {key : String} {buckets : Buckets} (b : Bucket ℚ) :
    Tracks key (buckets.insert key (stateOf b)) (some b) := by
  simp [Tracks]

section Limiter

variable {key : String} {buckets : Buckets} {o : Option (Bucket ℚ)} (rl : TokenBucketRateLimiter)

theorem Tracks.evict (h : Tracks key buckets o) (now : Int) :
    Tracks key (rl.evictIdleBuckets buckets now) (forget wrappingSub rl.limits now o) := by
  have hidle : rl.idleTtlMs = rl.limits.idle := rfl
  rw [TokenBucketRateLimiter.evictIdleBuckets, hidle]
  by_cases hnever : rl.limits.idle ≤ 0
  · rw [if_pos (Or.inl hnever), forget_never hnever]
    exact h
  · by_cases hempty : buckets.size = 0
    · have hnone : buckets.get? key = none := by
        simp [IndexMap.get?, List.eq_nil_of_length_eq_zero hempty, lookup]
      have ho : o = none := Option.map_eq_none_iff.mp (h.symm.trans hnone)
      rw [if_pos (Or.inr hempty), ho]
      exact hnone
    · rw [if_neg (by simp [hnever, hempty]), Tracks, get?_retain, h]
      cases o with
      | none => rfl
      | some b =>
        simp only [forget, Option.map_some, Option.filter_some, stateOf, hnever, false_or]
        split <;> rfl

variable {rl} (henabled : rl.enabled = true) (call : Check)

include henabled

theorem check_frame (hkey : key ≠ call.key) :
    (rl.step call buckets).2.get? key = (rl.evictIdleBuckets buckets call.now).get? key := by
  simp only [TokenBucketRateLimiter.step, TokenBucketRateLimiter.check, henabled, Bool.not_true,
    Bool.false_eq_true, if_false]
  split
  · split <;> simp [hkey]
  · split <;> simp [hkey]

theorem Tracks.check (h : Tracks call.key buckets o) :
    (rl.step call buckets).1 =
        (draw wrappingSub rl.limits call.now (forget wrappingSub rl.limits call.now o)).1 ∧
      Tracks call.key (rl.step call buckets).2
        (draw wrappingSub rl.limits call.now (forget wrappingSub rl.limits call.now o)).2 := by
  have hkept := h.evict rl call.now
  have hburst : rl.burst = rl.limits.capacity := rfl
  simp only [TokenBucketRateLimiter.step, TokenBucketRateLimiter.check, henabled, Bool.not_true,
    Bool.false_eq_true, if_false]
  generalize rl.evictIdleBuckets buckets call.now = kept at hkept ⊢
  cases hforget : forget wrappingSub rl.limits call.now o with
  | none =>
    rw [hforget, Tracks, Option.map_none] at hkept
    simp only [hkept, hburst, draw]
    split
    · exact ⟨rfl, hkept⟩
    · exact ⟨rfl, tracks_insert ⟨_, call.now⟩⟩
  | some b =>
    rw [hforget, Tracks, Option.map_some] at hkept
    have havailable : min (b.tokens + ((max (wrappingSub call.now b.seenAt) 0 : Int) : ℚ) *
        rl.refillTokensPerMs) rl.burst = available wrappingSub rl.limits call.now b := rfl
    simp only [hkept, stateOf, havailable, draw]
    split
    · exact ⟨rfl, tracks_insert ⟨_, call.now⟩⟩
    · exact ⟨rfl, tracks_insert ⟨_, call.now⟩⟩

theorem Tracks.respond (h : Tracks key buckets o) :
    ofKey key call (rl.step call buckets).1 =
        (TokenBucket.step wrappingSub rl.limits (seenBy key call) o).1 ∧
      Tracks key (rl.step call buckets).2
        (TokenBucket.step wrappingSub rl.limits (seenBy key call) o).2 := by
  by_cases hkey : call.key = key
  · subst hkey
    obtain ⟨hanswer, hnext⟩ := h.check henabled call
    simp only [ofKey, seenBy, if_true, TokenBucket.step]
    exact ⟨congrArg some hanswer, hnext⟩
  · simp only [ofKey, seenBy, hkey, if_false, TokenBucket.step]
    refine ⟨trivial, ?_⟩
    rw [Tracks, check_frame henabled call (Ne.symm hkey)]
    exact h.evict rl call.now

omit call in
theorem TokenBucketRateLimiter.answersTo_eq (calls : List Check) (h : Tracks key buckets o) :
    rl.answersTo key calls buckets =
      replies wrappingSub rl.limits (calls.map (seenBy key)) o :=
  Run.observations_map _ _ _ _ (seenBy key) (Tracks key)
    (fun call _ _ h => h.respond henabled call) calls buckets o h

end Limiter

theorem Tracks.step {key : String} {buckets : Buckets} {o : Option (Bucket ℚ)}
    (h : Tracks key buckets o) (c : RateLimitConfig) (hc : c.enabled = true) (call : Check) :
    ofKey key call (step c call buckets).1 =
        (TokenBucket.step wrappingSub (limits c) (seenBy key call) o).1 ∧
      Tracks key (step c call buckets).2
        (TokenBucket.step wrappingSub (limits c) (seenBy key call) o).2 :=
  have henabled : (TokenBucketRateLimiter.new (toRateLimitConfig c)).enabled = true := hc
  Tracks.respond henabled call h

theorem answersTo_eq (c : RateLimitConfig) (hc : c.enabled = true) (key : String)
    (calls : List Check) (buckets : Buckets) (o : Option (Bucket ℚ))
    (h : Tracks key buckets o) :
    answersTo c key calls buckets =
      replies wrappingSub (limits c) (calls.map (seenBy key)) o :=
  have henabled : (TokenBucketRateLimiter.new (toRateLimitConfig c)).enabled = true := hc
  TokenBucketRateLimiter.answersTo_eq henabled calls h

theorem allowed_eq (c : RateLimitConfig) (hc : c.enabled = true) (key : String)
    (calls : List Check) (buckets : Buckets) (o : Option (Bucket ℚ))
    (h : Tracks key buckets o) :
    allowed c key calls buckets =
      grants wrappingSub (limits c) (calls.map (seenBy key)) o := by
  rw [allowed, answersTo_eq c hc key calls buckets o h]
  rfl

theorem run_tracks (c : RateLimitConfig) (hc : c.enabled = true) (key : String)
    (calls : List Check) (buckets : Buckets) (o : Option (Bucket ℚ))
    (h : Tracks key buckets o) :
    Tracks key (Run.after (step c) calls buckets)
      (Run.after (TokenBucket.step wrappingSub (limits c)) (calls.map (seenBy key)) o) :=
  Run.after_map _ _ (seenBy key) (Tracks key) (fun call _ _ h => (h.step c hc call).2)
    calls buckets o h

end Cordn.RateLimit
