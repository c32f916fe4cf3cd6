import Cordn.InvisibleEviction
import Cordn.KeyIsolation
import Cordn.Lib.Conformance
import Mathlib.Data.Finset.Dedup
import Mathlib.Data.Finset.Card

/-!
# What the limiter admits

A call is admitted exactly when, in every window of time that ends with it, the
calls admitted so far leave room for one more within the burst and the refill.
Eviction can only admit more, and keeps no bucket longer than its idle time.
-/

set_option autoImplicit false

namespace Cordn.RateLimit
open TokenBucket

def admittedTo (key : String) (call : Check) (answer : Bool) : Option Int :=
  if call.key = key ∧ answer = true then some call.now else none

def admittedAt (c : RateLimitConfig) (key : String) (calls : List Check) : List Int :=
  Run.observations (step c) (admittedTo key) calls IndexMap.empty

/-- One more call at `now` fits the burst and the refill of every window that ends there. -/
def OneMoreFits (c : RateLimitConfig) (admitted : List Int) (now : Int) : Prop :=
  ∀ start ≤ now, 60000*(spentSince start admitted + 1 : Int) ≤
    60000*max c.burst 0 + max c.refillPerMinute 0*(now-start)

def callsBetween (key : String) (start stop : Int) (calls : List Check) : ℕ :=
  calls.countP (fun call => decide (call.key = key ∧ start ≤ call.now ∧ call.now ≤ stop))

theorem clampNonNegative_cast (value : Int) :
    clampNonNegative value = ((max value 0 : Int) : ℚ) := by
  by_cases h : 0 < value
  · rw [clampNonNegative_pos (by exact_mod_cast h), max_eq_left h.le]
  · have hnot : ¬(0 : ℚ) < value := by exact_mod_cast h
    rw [clampNonNegative, if_neg hnot, max_eq_right (by omega), Int.cast_zero]

theorem limits_capacity (c : RateLimitConfig) :
    (limits c).capacity = ((max c.burst 0 : Int) : ℚ) := clampNonNegative_cast c.burst

theorem limits_idle (c : RateLimitConfig) :
    (limits c).idle = ((max c.idleTtlMs 0 : Int) : ℚ) := clampNonNegative_cast c.idleTtlMs

theorem fits_iff (c : RateLimitConfig) (spent : List Int) (now : Int) :
    Fits (limits c) spent now 1 ↔ OneMoreFits c spent now := by
  rw [Fits, OneMoreFits]
  refine forall_congr' fun start => forall_congr' fun _ => ?_
  rw [limits, clampNonNegative_cast, clampNonNegative_cast, mul_div_assoc', ← sub_le_iff_le_add',
    le_div_iff₀ (by norm_num)]
  have hcast : ((spentSince start spent : ℚ) + 1 - ((max c.burst 0 : Int) : ℚ)) * 60000 ≤
      ((now-start : Int) : ℚ) * ((max c.refillPerMinute 0 : Int) : ℚ) ↔
        ((spentSince start spent : Int) + 1 - max c.burst 0) * 60000 ≤
          (now-start) * max c.refillPerMinute 0 := by
    exact_mod_cast Iff.rfl
  rw [hcast, mul_comm (now-start)]
  constructor <;> intro h <;> linarith

theorem admittedAt_eq (c : RateLimitConfig) (hc : c.enabled = true) (key : String)
    (calls : List Check) :
    admittedAt c key calls =
      grantedAt wrappingSub (limits c) (calls.map (seenBy key)) none := by
  refine Run.observations_map _ _ _ _ (seenBy key) (Tracks key) ?_ calls _ _ (tracks_empty key)
  intro call buckets o h
  obtain ⟨hanswer, hnext⟩ := h.step c hc call
  refine ⟨?_, hnext⟩
  rw [← hanswer]
  by_cases hkey : call.key = key
  · rw [admittedTo, ofKey, seenBy, if_pos hkey, if_pos hkey]
    cases (step c call buckets).1 <;> simp [granted, hkey]
  · simp [admittedTo, ofKey, seenBy, hkey, granted]

section Call

variable (c : RateLimitConfig) (hc : c.enabled = true) (key : String) (earlier : List Check)
  (now : Int)

include hc in
theorem answer_eq :
    some (step c ⟨key, now⟩ (Run.after (step c) earlier IndexMap.empty)).1 =
      (TokenBucket.step wrappingSub (limits c) (.draw now)
        (Run.after (TokenBucket.step wrappingSub (limits c))
          (earlier.map (seenBy key)) none)).1 := by
  have htracks := run_tracks c hc key earlier _ _ (tracks_empty key)
  have hanswer := (htracks.step c hc ⟨key, now⟩).1
  simpa only [ofKey, seenBy, if_true] using hanswer

variable (horder : InOrder (earlier ++ [⟨key, now⟩]))

include horder in
theorem seen_inTime :
    InTime wrappingSub (earlier.map (seenBy key) ++ [.draw now]) := by
  have htimes := horder.inTime key
  rw [List.map_append] at htimes
  simpa only [List.map_cons, List.map_nil, seenBy, if_true] using htimes

include hc horder

theorem admitted_of_fits (h : OneMoreFits c (admittedAt c key earlier) now) :
    (step c ⟨key, now⟩ (Run.after (step c) earlier IndexMap.empty)).1 = true := by
  rw [admittedAt_eq c hc, ← fits_iff] at h
  have hgranted := granted_of_fits (limits_rate c) _ now (seen_inTime key earlier now horder) h
  rw [← answer_eq c hc] at hgranted
  exact Option.some.inj hgranted

/-- Without eviction, or when the idle time refills the burst, a call is admitted
exactly when it fits. -/
theorem admitted_iff (hidle : c.idleTtlMs ≤ 0 ∨ 60000*c.burst ≤ c.idleTtlMs*c.refillPerMinute) :
    (step c ⟨key, now⟩ (Run.after (step c) earlier IndexMap.empty)).1 = true ↔
      OneMoreFits c (admittedAt c key earlier) now := by
  have htimes := seen_inTime key earlier now horder
  rw [admittedAt_eq c hc, ← fits_iff, ← Option.some_inj, answer_eq c hc]
  by_cases hnever : c.idleTtlMs ≤ 0
  · refine granted_iff_fits (limits_rate c) _ now htimes ?_
    rw [limits_idle, max_eq_right hnever, Int.cast_zero]
  · refine granted_iff_fits_refilled (clampNonNegative_nonneg _) (limits_rate c) ?_ _ now htimes
    by_cases hburst : 1 ≤ c.burst
    · exact (refills_iff c hburst (by omega)).mpr (hidle.resolve_left hnever)
    · have hzero : (limits c).capacity = 0 := by
        rw [limits_capacity, max_eq_right (by omega), Int.cast_zero]
      rw [hzero]
      exact mul_nonneg (clampNonNegative_nonneg _) (limits_rate c)

end Call

/-- A token comes back after a second: not a millisecond earlier. -/
theorem admitted_iff_sample :
    (step ⟨true, 60, 1, 60000⟩ ⟨"alice", 1000⟩
        (Run.after (step ⟨true, 60, 1, 60000⟩) [⟨"alice", 0⟩, ⟨"alice", 999⟩] IndexMap.empty)).1 =
        true ↔
      OneMoreFits ⟨true, 60, 1, 60000⟩
        (admittedAt ⟨true, 60, 1, 60000⟩ "alice" [⟨"alice", 0⟩, ⟨"alice", 999⟩]) 1000 :=
  admitted_iff ⟨true, 60, 1, 60000⟩ rfl "alice" _ 1000 (by decide) (by decide)

theorem admittedAt_sublist (c : RateLimitConfig) (key : String) (calls : List Check)
    (buckets : Buckets) :
    (Run.observations (step c) (admittedTo key) calls buckets).Sublist
      ((callsOf key calls).map Check.now) := by
  induction calls generalizing buckets with
  | nil => exact List.Sublist.slnil
  | cons call calls ih =>
    rw [Run.observations, callsOf]
    by_cases hkey : call.key = key
    · rw [List.filter_cons_of_pos (by simpa using hkey), List.map_cons]
      have hfirst : (admittedTo key call (step c call buckets).1).toList.Sublist [call.now] := by
        rw [admittedTo]
        split <;> simp
      exact hfirst.append (ih _)
    · rw [List.filter_cons_of_neg (by simpa using hkey), admittedTo, if_neg (by simp [hkey])]
      exact ih _

theorem callsBetween_last (key : String) (start now : Int) (hstart : start ≤ now)
    (earlier later : List Check) (hbefore : ∀ call ∈ earlier, call.now ≤ now) :
    spentSince start ((callsOf key earlier).map Check.now) + 1 ≤
      callsBetween key start now (earlier ++ ⟨key, now⟩::later) := by
  have hcount : spentSince start ((callsOf key earlier).map Check.now) =
      callsBetween key start now earlier := by
    rw [spentSince, callsBetween, callsOf, List.countP_map, List.countP_filter]
    refine List.countP_congr fun call hcall => ?_
    have hnow := hbefore call hcall
    simp [hnow, and_comm]
  rw [hcount, callsBetween, callsBetween, List.countP_append, List.countP_cons_of_pos]
  · omega
  · simp [hstart]

def NeverRefused (c : RateLimitConfig) (key : String) (calls : List Check) : Prop :=
  ∀ answer ∈ answersTo c key calls IndexMap.empty, answer = true

/-- A client whose own calls fit the limits in every window is never refused, whatever
other clients do and whatever is evicted. -/
theorem conforming_admitted (c : RateLimitConfig) (key : String) (calls : List Check)
    (horder : InOrder calls)
    (hfits : ∀ start stop, start ≤ stop → 60000*(callsBetween key start stop calls : Int) ≤
      60000*max c.burst 0 + max c.refillPerMinute 0*(stop-start)) : NeverRefused c key calls := by
  intro answer hanswer
  obtain ⟨earlier, ⟨key', now⟩, later, rfl, hview⟩ := Run.mem_observations hanswer
  obtain ⟨rfl, rfl⟩ : key' = key ∧
      (step c ⟨key', now⟩ (Run.after (step c) earlier IndexMap.empty)).1 = answer := by
    simpa [ofKey] using hview
  cases hc : c.enabled with
  | false =>
    have hdisabled : (TokenBucketRateLimiter.new (toRateLimitConfig c)).enabled = false := hc
    simp [step, rateLimiter, TokenBucketRateLimiter.check, hdisabled]
  | true =>
    have hinit : InOrder (earlier ++ [⟨key', now⟩]) := by
      refine List.Pairwise.sublist ?_ horder
      simp
    refine admitted_of_fits c hc key' earlier now hinit ?_
    intro start hstart
    have hbefore : ∀ call ∈ earlier, call.now ≤ now := by
      intro call hcall
      rw [InOrder, List.map_append, List.pairwise_append] at hinit
      exact (hinit.2.2 call.now (List.mem_map_of_mem hcall) now (by simp)).1
    have hadmitted := spentSince_sublist (admittedAt_sublist c key' earlier IndexMap.empty) start
    have hcalls := callsBetween_last key' start now hstart earlier later hbefore
    have hwindow := hfits start now hstart
    rw [admittedAt]
    have hmore : (spentSince start (Run.observations (step c) (admittedTo key') earlier
        IndexMap.empty) : Int) + 1 ≤
          callsBetween key' start now (earlier ++ ⟨key', now⟩::later) := by
      exact_mod_cast (Nat.add_le_add_right hadmitted 1).trans hcalls
    linarith

theorem conforming_admitted_sample : NeverRefused ⟨true, 1, 1, 1000⟩ "alice"
    [⟨"alice", 0⟩, ⟨"bob", 1⟩, ⟨"bob", 2⟩, ⟨"alice", 60000⟩] := by
  refine conforming_admitted ⟨true, 1, 1, 1000⟩ "alice" _ (by decide) ?_
  intro start stop hle
  simp only [callsBetween, List.countP_cons, List.countP_nil]
  grind

def recentKeys (c : RateLimitConfig) (now : Int) (calls : List Check) : Finset String :=
  ((calls.filter (fun call => decide (now-call.now < c.idleTtlMs))).map Check.key).toFinset

theorem drawn_iff (key : String) (calls : List Check) (t : Int) :
    .draw t ∈ calls.map (seenBy key) ↔ ∃ call ∈ calls, call.key = key ∧ call.now = t := by
  rw [List.mem_map]
  refine exists_congr fun call => and_congr_right fun _ => ?_
  rw [seenBy]
  split <;> simp [*]

theorem remembered_iff (c : RateLimitConfig) (hc : c.enabled = true) (hburst : 1 ≤ c.burst)
    (hidle : 1 ≤ c.idleTtlMs) (key : String) (earlier : List Check) (call : Check)
    (horder : InOrder (earlier ++ [call])) :
    key ∈ (Run.after (step c) (earlier ++ [call]) IndexMap.empty).keys ↔
      key ∈ recentKeys c call.now (earlier ++ [call]) := by
  have htracks := run_tracks c hc key (earlier ++ [call]) _ _ (tracks_empty key)
  have htimes := horder.inTime key
  have hone : 1 ≤ (limits c).capacity := by
    rw [limits_capacity, max_eq_left (by omega)]
    exact_mod_cast hburst
  rw [List.map_append, List.map_singleton] at htracks htimes
  have hrun := remembers_after wrappingSub_self hone (earlier.map (seenBy key)) (seenBy key call)
    htimes
  rw [← IndexMap.get?_isSome_iff, htracks, Option.isSome_map, hrun.isSome_iff, seenBy_now,
    recentKeys, List.mem_toFinset, List.mem_map]
  have hrecent : ∀ past ∈ earlier ++ [call],
      ¬Idle wrappingSub (limits c) past.now call.now ↔ call.now-past.now < c.idleTtlMs := by
    intro past hpast
    have hclock : wrappingSub call.now past.now = call.now-past.now := by
      rcases List.mem_append.mp hpast with hmem | hmem
      · rw [InOrder, List.map_append, List.pairwise_append] at horder
        obtain ⟨hle, hnear⟩ := horder.2.2 past.now (List.mem_map_of_mem hmem) call.now (by simp)
        exact wrappingSub_of_small _ _ (by omega) hnear
      · obtain rfl := List.mem_singleton.mp hmem
        rw [wrappingSub_self, Int.sub_self]
    have hlimit : (limits c).idle = c.idleTtlMs := by
      rw [limits_idle, max_eq_left (by omega)]
    have hpos : (0 : ℚ) < c.idleTtlMs := by exact_mod_cast hidle
    rw [Idle, hlimit, hclock, not_and, not_le]
    constructor
    · intro h
      exact_mod_cast h hpos
    · intro h _
      exact_mod_cast h
  have hdrawn := drawn_iff key (earlier ++ [call])
  rw [List.map_append, List.map_singleton] at hdrawn
  constructor
  · rintro ⟨t, hdraw, hlate⟩
    obtain ⟨past, hpast, hkey, rfl⟩ := (hdrawn t).mp hdraw
    exact ⟨past, List.mem_filter.mpr ⟨hpast, decide_eq_true ((hrecent past hpast).mp hlate)⟩, hkey⟩
  · rintro ⟨past, hpast, hkey⟩
    obtain ⟨hmem, hlate⟩ := List.mem_filter.mp hpast
    exact ⟨past.now, (hdrawn past.now).mpr ⟨past, hmem, hkey, rfl⟩,
      (hrecent past hmem).mpr (of_decide_eq_true hlate)⟩

/-- The limiter holds one bucket for each key seen within the idle time, and no more. -/
theorem buckets_recent (c : RateLimitConfig) (hc : c.enabled = true) (hburst : 1 ≤ c.burst)
    (hidle : 1 ≤ c.idleTtlMs) (earlier : List Check) (call : Check)
    (horder : InOrder (earlier ++ [call])) :
    (Run.after (step c) (earlier ++ [call]) IndexMap.empty).keys.toFinset =
        recentKeys c call.now (earlier ++ [call]) ∧
      (Run.after (step c) (earlier ++ [call]) IndexMap.empty).size =
        (recentKeys c call.now (earlier ++ [call])).card := by
  have hkeys : (Run.after (step c) (earlier ++ [call]) IndexMap.empty).keys.toFinset =
      recentKeys c call.now (earlier ++ [call]) := by
    ext key
    rw [List.mem_toFinset]
    exact remembered_iff c hc hburst hidle key earlier call horder
  refine ⟨hkeys, ?_⟩
  rw [← hkeys]
  generalize Run.after (step c) (earlier ++ [call]) IndexMap.empty = buckets
  have hdistinct : buckets.keys.Nodup := buckets.nodup
  rw [List.toFinset_card_of_nodup hdistinct, IndexMap.size, IndexMap.keys, List.length_map]

/-- Bob's bucket is gone when his idle time is over, by the next call of anyone. -/
theorem buckets_recent_sample :
    (Run.after (step ⟨true, 60, 5, 1000⟩) ([⟨"bob", 0⟩, ⟨"alice", 999⟩] ++ [⟨"alice", 1000⟩])
        IndexMap.empty).keys.toFinset =
        recentKeys ⟨true, 60, 5, 1000⟩ 1000
          ([⟨"bob", 0⟩, ⟨"alice", 999⟩] ++ [⟨"alice", 1000⟩]) ∧
      (Run.after (step ⟨true, 60, 5, 1000⟩) ([⟨"bob", 0⟩, ⟨"alice", 999⟩] ++ [⟨"alice", 1000⟩])
        IndexMap.empty).size =
        (recentKeys ⟨true, 60, 5, 1000⟩ 1000
          ([⟨"bob", 0⟩, ⟨"alice", 999⟩] ++ [⟨"alice", 1000⟩])).card :=
  buckets_recent ⟨true, 60, 5, 1000⟩ rfl (by decide) (by decide) _ _ (by decide)

end Cordn.RateLimit
