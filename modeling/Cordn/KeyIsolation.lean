import Cordn.RateLimit

/-!
# Isolation of rate-limit keys

Every call evicts idle buckets of all keys. A bucket that another key's call
evicts would be evicted by its own key's next call, so no key's answers depend
on the calls made under the others.
-/

set_option autoImplicit false

namespace Cordn.RateLimit
open TokenBucket

def callsOf (key : String) (calls : List Check) : List Check :=
  calls.filter (fun call => decide (call.key = key))

theorem callsOf_drawn (key : String) (calls : List Check) :
    ((calls.map (seenBy key)).filterMap Event.drawnAt).map Event.draw =
      (callsOf key calls).map (seenBy key) := by
  induction calls with
  | nil => rfl
  | cons call calls ih =>
    rw [callsOf] at ih ⊢
    rw [List.map_cons, List.filterMap_cons]
    by_cases hkey : call.key = key
    · have hdraw : seenBy key call = .draw call.now := if_pos hkey
      rw [List.filter_cons_of_pos (by simpa using hkey), List.map_cons, hdraw, ← ih]
      rfl
    · have hpass : seenBy key call = .pass call.now := if_neg hkey
      rw [List.filter_cons_of_neg (by simpa using hkey), hpass, ← ih]
      rfl

theorem answersTo_own (rl : TokenBucketRateLimiter) (key : String) (calls : List Check)
    (buckets : Buckets) :
    rl.answersTo key (callsOf key calls) buckets =
      Run.answers rl.step (callsOf key calls) buckets := by
  apply Run.observations_all
  intro call hcall answer
  have hkey : call.key = key := of_decide_eq_true (List.mem_filter.mp hcall).2
  exact if_pos hkey

theorem answersTo_disabled {rl : TokenBucketRateLimiter} (h : rl.enabled = false) (key : String)
    (calls : List Check) (buckets : Buckets) :
    rl.answersTo key calls buckets = rl.answersTo key (callsOf key calls) buckets := by
  have hstep : ∀ call s, rl.step call s = (true, s) := by
    intro call s
    simp [TokenBucketRateLimiter.step, TokenBucketRateLimiter.check, h]
  rw [callsOf, ← List.filterMap_eq_filter]
  apply Run.observations_filterMap _ _ _ _ _ (fun _ => True) (fun _ _ => True)
  · intro call s t _ _ hcall
    have hkey : call.key ≠ key := by simpa [Option.guard] using hcall
    exact ⟨fun answer => if_neg hkey, trivial⟩
  · intro call own s t _ _ hcall
    obtain ⟨-, rfl⟩ := by simpa [Option.guard] using hcall
    exact ⟨by rw [hstep, hstep], trivial⟩
  · exact fun _ _ => trivial
  · trivial

theorem answersTo_enabled {rl : TokenBucketRateLimiter} (h : rl.enabled = true) (key : String)
    (calls : List Check) (horder : InOrder calls) :
    rl.answersTo key calls IndexMap.empty =
      rl.answersTo key (callsOf key calls) IndexMap.empty := by
  rw [TokenBucketRateLimiter.answersTo_eq h calls (tracks_empty key),
    TokenBucketRateLimiter.answersTo_eq h _ (tracks_empty key),
    replies_dropped _ (horder.inTime key) none none (.same none) (by simp [Ahead]),
    callsOf_drawn]

/-- Whatever the configuration, the calls of a key are answered as if no other key
made any. -/
theorem keys_isolated (config : TokenBucketRateLimitConfig) (key : String) (calls : List Check)
    (horder : InOrder calls) :
    (TokenBucketRateLimiter.new config).answersTo key calls IndexMap.empty =
      Run.answers (TokenBucketRateLimiter.new config).step (callsOf key calls)
        IndexMap.empty := by
  rw [← answersTo_own]
  cases henabled : (TokenBucketRateLimiter.new config).enabled with
  | false => exact answersTo_disabled henabled key calls IndexMap.empty
  | true => exact answersTo_enabled henabled key calls horder

/-- A call of bob evicts the bucket of alice before she comes back to it. -/
theorem alice_isolated :
    (TokenBucketRateLimiter.new ⟨true, 0, 1, 1000⟩).answersTo "alice"
        [⟨"alice", 0⟩, ⟨"bob", 1000⟩, ⟨"alice", 1000⟩, ⟨"alice", 1001⟩] IndexMap.empty =
      Run.answers (TokenBucketRateLimiter.new ⟨true, 0, 1, 1000⟩).step
        (callsOf "alice" [⟨"alice", 0⟩, ⟨"bob", 1000⟩, ⟨"alice", 1000⟩, ⟨"alice", 1001⟩])
        IndexMap.empty :=
  keys_isolated ⟨true, 0, 1, 1000⟩ "alice"
    [⟨"alice", 0⟩, ⟨"bob", 1000⟩, ⟨"alice", 1000⟩, ⟨"alice", 1001⟩] (by decide)

end Cordn.RateLimit
