import Cordn.RateLimit
import Mathlib.Data.Rat.Floor

/-!
# Tokens under idle eviction

An evicted bucket comes back full. Within a window of time a key goes through at
most one bucket more than idle times fit in, and each grants a burst at most
beyond what the time refills.
-/

set_option autoImplicit false

namespace Cordn.RateLimit
open TokenBucket

def TokensWithin (burst : Int) (buckets : Buckets) : Prop :=
  ∀ key bucket, buckets.get? key = some bucket → 0 ≤ bucket.tokens ∧ bucket.tokens ≤ burst

theorem forgetful (burst refill ttl : ℕ) (h : 0 < ttl) :
    Forgetful (limits ⟨true, refill, burst, ttl⟩) := by
  rw [limits_nat]
  constructor
  · exact Nat.cast_nonneg burst
  · positivity
  · exact Nat.cast_pos.mpr h

def Filled (c : RateLimitConfig) (buckets : Buckets) : Prop :=
  ∀ key, ∃ o, Tracks key buckets o ∧ Holds (limits c) o

theorem filled_empty (c : RateLimitConfig) : Filled c IndexMap.empty :=
  fun key => ⟨none, tracks_empty key, by simp [Holds]⟩

theorem filled_step {c : RateLimitConfig} (hc : c.enabled = true) (hL : Forgetful (limits c))
    (call : Check) (buckets : Buckets) (h : Filled c buckets) :
    Filled c (step c call buckets).2 := by
  intro key
  obtain ⟨o, htracks, hholds⟩ := h key
  exact ⟨_, (htracks.step c hc call).2, hholds.step hL.capacity hL.rate _⟩

theorem Filled.tokens {burst refill ttl : ℕ} {buckets : Buckets}
    (h : Filled ⟨true, refill, burst, ttl⟩ buckets) : TokensWithin burst buckets := by
  intro key bucket hget
  obtain ⟨o, htracks, hholds⟩ := h key
  rw [Tracks, hget] at htracks
  obtain ⟨b, hb, rfl⟩ := Option.map_eq_some_iff.mp htracks.symm
  have hbounds := hholds b hb
  rwa [limits_nat] at hbounds

theorem seen_before {c : RateLimitConfig} (key : String) (before : List Check) (t : Int)
    (h : ∀ call ∈ before, call.now ≤ t) :
    Seen t (Run.after (TokenBucket.step wrappingSub (limits c)) (before.map (seenBy key))
      none) := by
  apply Seen.after
  · intro event hevent
    obtain ⟨call, hcall, rfl⟩ := List.mem_map.mp hevent
    rw [seenBy_now]
    exact h call hcall
  · simp [Seen]

theorem holds_before {c : RateLimitConfig} (hL : Forgetful (limits c)) (key : String)
    (before : List Check) :
    Holds (limits c)
      (Run.after (TokenBucket.step wrappingSub (limits c)) (before.map (seenBy key)) none) :=
  Run.invariant _ (Holds (limits c)) (fun event _ h => h.step hL.capacity hL.rate event) _ _
    (by simp [Holds])

theorem allowed_bounded {c : RateLimitConfig} (hc : c.enabled = true)
    (hL : Forgetful (limits c)) (key : String) (before window : List Check)
    (horder : ((before ++ window).map Check.now).Pairwise (· ≤ ·)) (t₁ t₂ : Int) (ht : t₁ ≤ t₂)
    (hwindow : ∀ call ∈ window, t₁ ≤ call.now ∧ call.now ≤ t₂) :
    (allowed c key window (Run.after (step c) before IndexMap.empty) : ℚ) ≤
      fresh (limits c) t₂ t₁ := by
  have htracks := run_tracks c hc key before _ _ (tracks_empty key)
  rw [allowed_eq c hc key window _ _ htracks]
  cases window with
  | nil => exact fresh_nonneg hL ht
  | cons call window =>
    obtain ⟨hfirst, hlast⟩ := hwindow call (by simp)
    rw [List.map_append, List.map_cons, List.pairwise_append] at horder
    obtain ⟨-, hafter, hbehind⟩ := horder
    have hseen : Seen call.now (Run.after (TokenBucket.step wrappingSub (limits c))
        (before.map (seenBy key)) none) :=
      seen_before key before call.now
        (fun b hb => hbehind _ (List.mem_map_of_mem hb) _ (by simp))
    have htimes : ((call::window).map (seenBy key)).map Event.now =
        call.now::window.map Check.now := by
      simp [seenBy_now]
    have hbounded := grants_bounded hL wrappingSub_le t₂ ((call::window).map (seenBy key)) call.now
      (by
        rw [htimes]
        exact List.pairwise_cons.mpr ⟨by simpa using (List.pairwise_cons.mp hafter).1, hafter⟩)
      hlast
      (by
        intro event hevent
        obtain ⟨late, hlate, rfl⟩ := List.mem_map.mp hevent
        rw [seenBy_now]
        exact (hwindow late hlate).2)
      _ (holds_before hL key before) hseen
    exact hbounded.1.trans (fresh_antitone hL hfirst t₂)

/-- In every window of a run with non-decreasing times a key is allowed a burst for
each idle time that fits in, one more, and the refill; throughout the run every
bucket holds between nothing and the burst. -/
theorem window_bound (burst refill ttl : Int) (hburst : 0 ≤ burst) (hrefill : 0 ≤ refill)
    (httl : 0 < ttl) (key : String) (before window : List Check)
    (horder : ((before ++ window).map Check.now).Pairwise (· ≤ ·)) (t₁ t₂ : Int) (ht : t₁ ≤ t₂)
    (hwindow : ∀ call ∈ window, t₁ ≤ call.now ∧ call.now ≤ t₂) :
    (allowed ⟨true, refill, burst, ttl⟩ key window
        (Run.after (step ⟨true, refill, burst, ttl⟩) before IndexMap.empty) : ℚ) ≤
      burst * (1 + ⌊((t₂-t₁ : Int) : ℚ) / ttl⌋) + refill * (t₂-t₁ : Int) / 60000 ∧
    Run.Throughout (TokensWithin burst) (step ⟨true, refill, burst, ttl⟩) (before ++ window)
      IndexMap.empty := by
  obtain ⟨burst, rfl⟩ := Int.eq_ofNat_of_zero_le hburst
  obtain ⟨refill, rfl⟩ := Int.eq_ofNat_of_zero_le hrefill
  obtain ⟨ttl, rfl⟩ := Int.eq_ofNat_of_zero_le httl.le
  have hL := forgetful burst refill ttl (Int.natCast_pos.mp httl)
  constructor
  · have hall := allowed_bounded rfl hL key before window horder t₁ t₂ ht hwindow
    rw [fresh, limits_nat] at hall
    dsimp only at hall
    calc _ ≤ _ := hall
      _ = _ := by
        push_cast
        ring
  · exact Run.throughout_of_invariant _ (Filled ⟨true, refill, burst, ttl⟩) _
      (filled_step rfl hL) (fun _ h => h.tokens) _ _ (filled_empty _)

/-- A burst of one, no refill, forgotten after a second: in two seconds three calls
are allowed. -/
theorem window_bound_sample :
    (allowed ⟨true, 0, 1, 1000⟩ "alice"
        [⟨"alice", 0⟩, ⟨"alice", 1000⟩, ⟨"alice", 2000⟩]
        (Run.after (step ⟨true, 0, 1, 1000⟩) [] IndexMap.empty) : ℚ) ≤
      (1 : Int) * (1 + ⌊((2000-0 : Int) : ℚ) / (1000 : Int)⌋) +
        (0 : Int) * (2000-0 : Int) / 60000 ∧
    Run.Throughout (TokensWithin 1) (step ⟨true, 0, 1, 1000⟩)
      ([] ++ [⟨"alice", 0⟩, ⟨"alice", 1000⟩, ⟨"alice", 2000⟩]) IndexMap.empty :=
  window_bound 1 0 1000 (by decide) (by decide) (by decide) "alice" []
    [⟨"alice", 0⟩, ⟨"alice", 1000⟩, ⟨"alice", 2000⟩] (by decide) 0 2000 (by decide) (by decide)

end Cordn.RateLimit
