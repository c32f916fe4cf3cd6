import Cordn.RateLimit
import Mathlib.Data.Rat.Floor

/-!
# Tokens under a clock that steps back

Each call overwrites the time of the last refill with its own reading. When a
reading falls behind the one before it and the next one moves forward again, the
time in between is credited a second time.
-/

set_option autoImplicit false

namespace Cordn.RateLimit
open TokenBucket

def readingsOf (key : String) (calls : List Check) : List Int :=
  (calls.filter (fun call => decide (call.key = key))).map Check.now

def span (readings : List Int) : Int := readings.max?.getD 0 - readings.min?.getD 0

/-- Without eviction, a key is allowed the burst and the refill of the time its
readings span. -/
def WithinSpan (burst refill : ℕ) (key : String) (calls : List Check) : Prop :=
  (allowed ⟨true, refill, burst, 0⟩ key calls IndexMap.empty : ℚ) ≤
    burst + refill * span (readingsOf key calls) / 60000

instance (burst refill : ℕ) (key : String) (calls : List Check) :
    Decidable (WithinSpan burst refill key calls) :=
  inferInstanceAs (Decidable (_ ≤ _))

theorem readingsOf_drawn (key : String) (calls : List Check) :
    (calls.map (seenBy key)).filterMap Event.drawnAt = readingsOf key calls := by
  induction calls with
  | nil => rfl
  | cons call calls ih =>
    rw [List.map_cons, List.filterMap_cons, ih]
    by_cases hkey : call.key = key
    · simp [seenBy, readingsOf, hkey, Event.drawnAt]
    · simp [seenBy, readingsOf, hkey, Event.drawnAt]

/-- What a full bucket can allow at the readings of a stretch: no more than there are,
and no more than the burst and the refill of the time credited between them. -/
def allowance (burst refill : ℕ) (stretch : List Int) : Int :=
  min stretch.length (burst + refill * forward wrappingSub stretch / 60000)

/-- The readings can be cut into stretches whose allowances the bound covers. -/
def Affordable (burst refill : ℕ) (readings : List Int) : Prop :=
  ∃ cut : List (List Int), cut.flatten = readings ∧
    (((cut.map (allowance burst refill)).sum : Int) : ℚ) ≤
      burst + refill * span readings / 60000

theorem limits_unlimited (burst refill : ℕ) :
    limits ⟨true, refill, burst, 0⟩ = ⟨burst, refill / 60000, 0⟩ := by
  simpa using limits_nat burst refill 0

theorem allowance_eq (burst refill : ℕ) :
    TokenBucket.allowance wrappingSub (⟨burst, refill / 60000, 0⟩ : Limits ℚ) =
      allowance burst refill := by
  funext stretch
  have hfloor : ⌊(burst : ℚ) + forward wrappingSub stretch * ((refill : ℚ) / 60000)⌋ =
      burst + refill * forward wrappingSub stretch / 60000 := by
    have hrate : (forward wrappingSub stretch : ℚ) * ((refill : ℚ) / 60000) =
        ((refill * forward wrappingSub stretch : Int) : ℚ) / ((60000 : ℕ) : ℚ) := by
      push_cast
      ring
    rw [hrate, Int.floor_natCast_add, Rat.floor_intCast_div_natCast]
    rfl
  rw [TokenBucket.allowance, allowance, hfloor]

/-- A key stays within the bound exactly when its readings, in the order they arrive in,
can be cut into stretches that the bound affords. -/
theorem clock_order (burst refill : ℕ) (key : String) (calls : List Check) :
    WithinSpan burst refill key calls ↔
      Affordable burst refill (readingsOf key calls) := by
  have hrefill : (0 : ℚ) ≤ refill / 60000 := by positivity
  rw [WithinSpan, allowed_eq _ rfl key calls _ none (tracks_empty key), limits_unlimited,
    grants_drawn (le_refl 0), readingsOf_drawn,
    grants_le_iff (le_refl 0) (Nat.cast_nonneg burst) hrefill, allowance_eq]
  rfl

theorem span_nonneg (readings : List Int) : 0 ≤ span readings := by
  rw [span]
  cases hmax : readings.max? with
  | none =>
    obtain rfl := List.max?_eq_none_iff.mp hmax
    exact le_refl 0
  | some latest =>
    obtain ⟨hlatest, hall⟩ := List.max?_eq_some_iff.mp hmax
    cases hmin : readings.min? with
    | none =>
      obtain rfl := List.min?_eq_none_iff.mp hmin
      simp at hlatest
    | some earliest =>
      have hle := hall earliest (List.min?_eq_some_iff.mp hmin).1
      exact sub_nonneg.mpr hle

theorem affordable_of_credited (burst refill : ℕ) (readings : List Int)
    (h : burst = 0 ∨ refill = 0 ∨ forward wrappingSub readings ≤ span readings) :
    Affordable burst refill readings := by
  by_cases hburst : burst = 0
  · -- no single call is allowed
    subst hburst
    refine ⟨readings.map (fun t => [t]), by simp [List.flatten_eq_flatMap, List.flatMap_map], ?_⟩
    have hspan : (0 : ℚ) ≤ span readings := by exact_mod_cast span_nonneg readings
    have hbound : (0 : ℚ) ≤ refill * span readings / 60000 := by positivity
    simpa [allowance, forward, Function.comp_def] using hbound
  · have hrefill : (refill : Int) * forward wrappingSub readings ≤ refill * span readings := by
      rcases h with h | h | h
      · exact absurd h hburst
      · simp [h]
      · exact mul_le_mul_of_nonneg_left h (Int.natCast_nonneg refill)
    refine ⟨[readings], by simp, ?_⟩
    have hallowance : allowance burst refill readings ≤
        burst + refill * span readings / 60000 :=
      (min_le_right _ _).trans (by omega)
    have hfloor : ((refill * span readings / 60000 : Int) : ℚ) ≤
        ((refill * span readings : Int) : ℚ) / 60000 := by
      rw [le_div_iff₀ (by norm_num)]
      exact_mod_cast Int.ediv_mul_le (refill * span readings) (by norm_num)
    have hcast : ((allowance burst refill readings : Int) : ℚ) ≤
        ((burst + refill * span readings / 60000 : Int) : ℚ) := Int.cast_le.mpr hallowance
    simp only [List.map_cons, List.map_nil, List.sum_cons, List.sum_nil, add_zero]
    push_cast at hcast hfloor ⊢
    linarith

/-- The burst is one token and the refill one token a second; the clock reads
0, 1000, 0 and 1000. -/
def steppedBack : List Check := [⟨"alice", 0⟩, ⟨"alice", 1000⟩, ⟨"alice", 0⟩, ⟨"alice", 1000⟩]

theorem refilled_twice :
    answersTo ⟨true, 60, 1, 0⟩ "alice" steppedBack IndexMap.empty = [true, true, false, true] ∧
      ¬WithinSpan 1 60 "alice" steppedBack := by
  decide +kernel

end Cordn.RateLimit
