import Cordn.RateLimit

/-!
# When idle eviction shows

The limiter that evicts idle buckets answers every run as the one that keeps
them all, exactly when the idle time refills a whole burst: a bucket is then full
again by the time it may be evicted.
-/

set_option autoImplicit false

namespace Cordn.RateLimit
open TokenBucket

def RateLimitConfig.withoutEviction (c : RateLimitConfig) : RateLimitConfig :=
  { c with idleTtlMs := 0 }

theorem clampNonNegative_nonneg (value : ℚ) : 0 ≤ clampNonNegative value := by
  rw [clampNonNegative]
  split
  · exact le_of_lt ‹_›
  · exact le_refl 0

theorem clampNonNegative_pos {value : ℚ} (h : 0 < value) : clampNonNegative value = value :=
  if_pos h

theorem limits_withoutEviction (c : RateLimitConfig) :
    limits c.withoutEviction = (limits c).remembering := by
  simp [limits, RateLimitConfig.withoutEviction, Limits.remembering, clampNonNegative]

theorem limits_rate (c : RateLimitConfig) : 0 ≤ (limits c).rate :=
  div_nonneg (clampNonNegative_nonneg _) (by norm_num)

theorem refills_iff (c : RateLimitConfig) (hburst : 1 ≤ c.burst) (hidle : 1 ≤ c.idleTtlMs) :
    (limits c).capacity ≤ (limits c).idle * (limits c).rate ↔
      60000*c.burst ≤ c.idleTtlMs*c.refillPerMinute := by
  have hb : (0 : ℚ) < c.burst := by exact_mod_cast hburst
  have ht : (0 : ℚ) < c.idleTtlMs := by exact_mod_cast hidle
  simp only [limits, clampNonNegative_pos hb, clampNonNegative_pos ht]
  rw [mul_div_assoc', le_div_iff₀ (by norm_num)]
  by_cases hr : (0 : ℚ) < c.refillPerMinute
  · rw [clampNonNegative_pos hr, mul_comm (c.burst : ℚ)]
    exact_mod_cast Iff.rfl
  · have hrefill : c.refillPerMinute ≤ 0 := by exact_mod_cast not_lt.mp hr
    have hless := mul_nonpos_of_nonneg_of_nonpos (show 0 ≤ c.idleTtlMs by omega) hrefill
    rw [clampNonNegative, if_neg hr, mul_zero]
    constructor
    · intro h
      linarith
    · intro h
      omega

theorem answersTo_refilled (c : RateLimitConfig) (hc : c.enabled = true)
    (hfull : (limits c).capacity ≤ (limits c).idle * (limits c).rate) (key : String)
    (calls : List Check) (horder : InOrder calls) :
    answersTo c key calls IndexMap.empty =
      answersTo c.withoutEviction key calls IndexMap.empty := by
  rw [answersTo_eq c hc key calls _ none (tracks_empty key),
    answersTo_eq c.withoutEviction hc key calls _ none (tracks_empty key), limits_withoutEviction]
  exact replies_remembered (clampNonNegative_nonneg _) (limits_rate c) hfull _
    (horder.inTime key) none none (.same none) (by simp [Ahead]) (by simp [Holds])

/-- Calls under one key that empty its bucket, and as many again an idle time later. -/
def twoBursts (n : ℕ) (idle : Int) : List Check :=
  List.replicate n ⟨"alice", 0⟩ ++ List.replicate n ⟨"alice", idle⟩

theorem twoBursts_inOrder (n : ℕ) (idle : Int) (hpos : 0 ≤ idle) (hwidth : idle < 2^63) :
    InOrder (twoBursts n idle) := by
  rw [InOrder, twoBursts, List.map_append, List.map_replicate, List.map_replicate,
    List.pairwise_append]
  refine ⟨List.pairwise_replicate.mpr (Or.inr (by omega)),
    List.pairwise_replicate.mpr (Or.inr (by omega)), ?_⟩
  intro seen hseen now hnow
  rw [List.eq_of_mem_replicate hseen, List.eq_of_mem_replicate hnow]
  dsimp only
  omega

theorem twoBursts_seen (n : ℕ) (idle : Int) :
    (twoBursts n idle).map (seenBy "alice") =
      List.replicate n (.draw 0) ++ List.replicate n (.draw idle) := by
  simp [twoBursts, seenBy]

theorem refills_of_answers (c : RateLimitConfig) (hc : c.enabled = true) (hburst : 1 ≤ c.burst)
    (hidle : 1 ≤ c.idleTtlMs) (hwidth : c.idleTtlMs < 2^63)
    (h : Run.answers (step c) (twoBursts c.burst.toNat c.idleTtlMs) IndexMap.empty =
      Run.answers (step c.withoutEviction) (twoBursts c.burst.toNat c.idleTtlMs) IndexMap.empty) :
    (limits c).capacity ≤ (limits c).idle * (limits c).rate := by
  have hb : (0 : ℚ) < c.burst := by exact_mod_cast hburst
  have ht : (0 : ℚ) < c.idleTtlMs := by exact_mod_cast hidle
  have hcapacity : (limits c).capacity = (c.burst.toNat : ℚ) := by
    have hnat : (c.burst.toNat : Int) = c.burst := by omega
    rw [limits, clampNonNegative_pos hb, ← hnat]
    rfl
  have hlimit : (limits c).idle = c.idleTtlMs := clampNonNegative_pos ht
  have hgap : wrappingSub c.idleTtlMs 0 = c.idleTtlMs := by
    rw [wrappingSub_of_small _ _ (by omega) (by omega), Int.sub_zero]
  have hshown := Run.observations_of_answers (ofKey "alice") _ _ _ h
  have hallowed : allowed c "alice" (twoBursts c.burst.toNat c.idleTtlMs) IndexMap.empty =
      allowed c.withoutEviction "alice" (twoBursts c.burst.toNat c.idleTtlMs) IndexMap.empty :=
    congrArg (List.count true) hshown
  rw [allowed_eq c hc "alice" _ _ none (tracks_empty "alice"),
    allowed_eq c.withoutEviction hc "alice" _ _ none (tracks_empty "alice"),
    limits_withoutEviction, twoBursts_seen] at hallowed
  exact refills_of_grants wrappingSub_self c.burst.toNat (by omega) hcapacity (limits_rate c)
    (by rw [hlimit]; exact ht) 0 c.idleTtlMs (by rw [hgap, hlimit]) hallowed

/-- An enabled limiter answers every run in the order of its times as the same one
without eviction exactly when the idle time refills the burst. -/
theorem eviction_invisible_iff (c : RateLimitConfig) (hc : c.enabled = true)
    (hburst : 1 ≤ c.burst) (hidle : 1 ≤ c.idleTtlMs) (hwidth : c.idleTtlMs < 2^63) :
    (∀ calls, InOrder calls → Run.answers (step c) calls IndexMap.empty =
      Run.answers (step c.withoutEviction) calls IndexMap.empty) ↔
        60000*c.burst ≤ c.idleTtlMs*c.refillPerMinute := by
  rw [← refills_iff c hburst hidle]
  constructor
  · intro h
    exact refills_of_answers c hc hburst hidle hwidth
      (h _ (twoBursts_inOrder _ _ (by omega) hwidth))
  · intro hfull calls horder
    exact Run.answers_of_observations Check.key calls _ _
      (fun key => answersTo_refilled c hc hfull key calls horder)

/-- Five tokens at one a second are back after five seconds. -/
theorem eviction_invisible_sample :
    (∀ calls, InOrder calls → Run.answers (step ⟨true, 60, 5, 5000⟩) calls IndexMap.empty =
      Run.answers (step (RateLimitConfig.withoutEviction ⟨true, 60, 5, 5000⟩)) calls
        IndexMap.empty) ↔ (60000*5 : Int) ≤ 5000*60 :=
  eviction_invisible_iff ⟨true, 60, 5, 5000⟩ rfl (by decide) (by decide) (by decide)

end Cordn.RateLimit
