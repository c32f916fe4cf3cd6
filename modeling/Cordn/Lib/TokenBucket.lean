import Cordn.Lib.Run
import Mathlib.Algebra.Order.Field.Basic
import Mathlib.Algebra.Order.Floor.Ring
import Mathlib.Data.List.Induction
import Mathlib.Tactic.Linarith
import Mathlib.Tactic.Ring

/-!
# A token bucket that is forgotten when idle

One bucket over time. It refills up to its capacity as time passes, a draw takes
a token when a whole one is there, and a bucket not drawn from for the idle time
is forgotten, so that the next draw finds a full one. Time is read off a clock;
how far one reading lies behind another is a parameter, since a clock may wrap.
-/

set_option autoImplicit false

namespace TokenBucket

variable {K : Type*} [Field K] [LinearOrder K]

/-- A rate of tokens for a unit of time, and no forgetting when `idle` is not positive. -/
structure Limits (K : Type*) where
  capacity : K
  rate : K
  idle : K

structure Bucket (K : Type*) where
  tokens : K
  seenAt : ℤ

inductive Event where
  | pass (now : ℤ)
  | draw (now : ℤ)

def Event.now : Event → ℤ
  | .pass now => now
  | .draw now => now

def Event.drawnAt : Event → Option ℤ
  | .pass _ => none
  | .draw now => some now

variable (since : ℤ → ℤ → ℤ)

def credit (now seenAt : ℤ) : ℤ := max (since now seenAt) 0

def forget (L : Limits K) (now : ℤ) (o : Option (Bucket K)) : Option (Bucket K) :=
  o.filter (fun b => decide (L.idle ≤ 0 ∨ (since now b.seenAt : K) < L.idle))

def available (L : Limits K) (now : ℤ) (b : Bucket K) : K :=
  min (b.tokens + credit since now b.seenAt * L.rate) L.capacity

def draw (L : Limits K) (now : ℤ) : Option (Bucket K) → Bool × Option (Bucket K)
  | none => if L.capacity < 1 then (false, none) else (true, some ⟨L.capacity - 1, now⟩)
  | some b =>
    if available since L now b < 1 then (false, some ⟨available since L now b, now⟩)
    else (true, some ⟨available since L now b - 1, now⟩)

def step (L : Limits K) : Event → Option (Bucket K) → Option Bool × Option (Bucket K)
  | .pass now, o => (none, forget since L now o)
  | .draw now, o =>
    (some (draw since L now (forget since L now o)).1, (draw since L now (forget since L now o)).2)

def replies (L : Limits K) : List Event → Option (Bucket K) → List Bool :=
  Run.observations (step since L) (fun _ reply => reply)

def grants (L : Limits K) (events : List Event) (o : Option (Bucket K)) : ℕ :=
  (replies since L events o).count true

@[simp] theorem grants_nil (L : Limits K) (o : Option (Bucket K)) : grants since L [] o = 0 := rfl

@[simp] theorem grants_pass (L : Limits K) (now : ℤ) (events : List Event)
    (o : Option (Bucket K)) :
    grants since L (.pass now::events) o = grants since L events (forget since L now o) := rfl

theorem grants_draw (L : Limits K) (now : ℤ) (events : List Event) (o : Option (Bucket K)) :
    grants since L (.draw now::events) o =
      (draw since L now (forget since L now o)).1.toNat +
        grants since L events (draw since L now (forget since L now o)).2 := by
  simp only [grants, replies, Run.observations, step, Option.toList_some, List.singleton_append,
    List.count_cons]
  cases (draw since L now (forget since L now o)).1 <;> simp [Nat.add_comm]

section Draw

variable (L : Limits K)

theorem draw_absent (now : ℤ) :
    L.capacity < 1 ∧ draw since L now none = (false, none) ∨
      1 ≤ L.capacity ∧ draw since L now none = (true, some ⟨L.capacity - 1, now⟩) := by
  by_cases h : L.capacity < 1
  · exact Or.inl ⟨h, if_pos h⟩
  · exact Or.inr ⟨not_lt.mp h, if_neg h⟩

theorem credit_nonneg (now seenAt : ℤ) : 0 ≤ credit since now seenAt := le_max_right _ _

theorem available_le_refilled (now : ℤ) (b : Bucket K) :
    available since L now b ≤ b.tokens + credit since now b.seenAt * L.rate := min_le_left _ _

theorem available_le_capacity (now : ℤ) (b : Bucket K) :
    available since L now b ≤ L.capacity := min_le_right _ _

variable {since} {L}

theorem forget_some {now : ℤ} {o : Option (Bucket K)} {b : Bucket K}
    (h : forget since L now o = some b) :
    o = some b ∧ (L.idle ≤ 0 ∨ (since now b.seenAt : K) < L.idle) := by
  rw [forget, Option.filter_eq_some_iff, decide_eq_true_eq] at h
  exact h

variable [IsStrictOrderedRing K]

theorem draw_present (since : ℤ → ℤ → ℤ) (L : Limits K) (now : ℤ) (b : Bucket K) :
    ∃ reply tokens, draw since L now (some b) = (reply, some ⟨tokens, now⟩) ∧
      (reply.toNat : K) + tokens = available since L now b ∧
      (0 ≤ available since L now b → 0 ≤ tokens) := by
  by_cases h : available since L now b < 1
  · exact ⟨false, _, if_pos h, by simp, fun h => h⟩
  · refine ⟨true, _, if_neg h, by simp, fun _ => ?_⟩
    linarith [not_lt.mp h]

theorem available_nonneg (hc : 0 ≤ L.capacity) (hr : 0 ≤ L.rate) (now : ℤ) (b : Bucket K)
    (hb : 0 ≤ b.tokens) : 0 ≤ available since L now b := by
  have hcredit : (0 : K) ≤ credit since now b.seenAt := by exact_mod_cast credit_nonneg since _ _
  have hrefill := mul_nonneg hcredit hr
  exact le_min (by linarith) hc

def Holds (L : Limits K) (o : Option (Bucket K)) : Prop :=
  ∀ b, o = some b → 0 ≤ b.tokens ∧ b.tokens ≤ L.capacity

omit [IsStrictOrderedRing K] in
theorem Holds.forget {o : Option (Bucket K)} (h : Holds L o) (now : ℤ) :
    Holds L (forget since L now o) :=
  fun b hb => h b (forget_some hb).1

theorem Holds.draw {o : Option (Bucket K)} (h : Holds L o) (hc : 0 ≤ L.capacity)
    (hr : 0 ≤ L.rate) (now : ℤ) : Holds L (draw since L now o).2 := by
  intro b hb
  cases o with
  | none =>
    rcases draw_absent since L now with ⟨-, hd⟩ | ⟨hone, hd⟩
    · simp [hd] at hb
    · rw [hd] at hb
      obtain rfl := Option.some.inj hb
      constructor
      · exact sub_nonneg.mpr hone
      · exact sub_le_self _ zero_le_one
  | some a =>
    obtain ⟨reply, tokens, hd, hsum, hpos⟩ := draw_present since L now a
    rw [hd] at hb
    obtain rfl := Option.some.inj hb
    have hcap := available_le_capacity since L now a
    have hreply : (0 : K) ≤ reply.toNat := Nat.cast_nonneg _
    refine ⟨hpos (available_nonneg hc hr now a (h a rfl).1), ?_⟩
    change tokens ≤ L.capacity
    linarith

theorem Holds.step {o : Option (Bucket K)} (h : Holds L o) (hc : 0 ≤ L.capacity)
    (hr : 0 ≤ L.rate) (event : Event) : Holds L (step since L event o).2 := by
  cases event with
  | pass now => exact h.forget now
  | draw now => exact (h.forget now).draw hc hr now

def forward (since : ℤ → ℤ → ℤ) : List ℤ → ℤ
  | t::u::ts => credit since u t + forward since (u::ts)
  | _ => 0

omit [IsStrictOrderedRing K] in
theorem forward_nonneg (since : ℤ → ℤ → ℤ) (t : ℤ) (ts : List ℤ) :
    0 ≤ forward since (t::ts) := by
  induction ts generalizing t with
  | nil => exact le_refl 0
  | cons u ts ih => exact add_nonneg (credit_nonneg since u t) (ih u)

omit [IsStrictOrderedRing K] in
theorem forget_never (h : L.idle ≤ 0) (now : ℤ) (o : Option (Bucket K)) :
    forget since L now o = o := by
  cases o <;> simp [forget, h]

omit [IsStrictOrderedRing K] in
theorem grants_drawn (h : L.idle ≤ 0) (events : List Event) (o : Option (Bucket K)) :
    grants since L events o =
      grants since L ((events.filterMap Event.drawnAt).map Event.draw) o := by
  induction events generalizing o with
  | nil => rfl
  | cons event events ih =>
    cases event with
    | pass now =>
      rw [grants_pass, forget_never h, ih]
      rfl
    | draw now =>
      rw [grants_draw, ih]
      simp only [List.filterMap_cons, Event.drawnAt, List.map_cons]
      rw [grants_draw]

theorem draws_le (since : ℤ → ℤ → ℤ) (hidle : L.idle ≤ 0) (hc : 0 ≤ L.capacity)
    (hr : 0 ≤ L.rate) (ts : List ℤ) (b : Bucket K) (hb : 0 ≤ b.tokens) :
    (grants since L (ts.map Event.draw) (some b) : K) ≤
      b.tokens + forward since (b.seenAt::ts) * L.rate := by
  induction ts generalizing b with
  | nil => simpa [forward] using hb
  | cons t ts ih =>
    obtain ⟨reply, tokens, hd, hsum, hpos⟩ := draw_present since L t b
    have hrest := ih ⟨tokens, t⟩ (hpos (available_nonneg hc hr t b hb))
    have hrefill := available_le_refilled since L t b
    rw [List.map_cons, grants_draw, forget_never hidle, hd, forward]
    push_cast
    dsimp only at hrest ⊢
    linarith

omit [IsStrictOrderedRing K] in
theorem grants_small (h : L.capacity < 1) (events : List Event) :
    grants since L events none = 0 := by
  induction events with
  | nil => rfl
  | cons event events ih =>
    cases event with
    | pass now => exact ih
    | draw now =>
      have hd : draw since L now none = (false, none) := if_pos h
      rw [grants_draw]
      change (draw since L now none).1.toNat + grants since L events (draw since L now none).2 = 0
      rw [hd, ih]
      rfl

theorem readings_le (hidle : L.idle ≤ 0) (hc : 0 ≤ L.capacity) (hr : 0 ≤ L.rate)
    (ts : List ℤ) (o : Option (Bucket K)) (ho : Holds L o) :
    (grants since L (ts.map Event.draw) o : K) ≤ L.capacity + forward since ts * L.rate := by
  cases ts with
  | nil => simpa [forward] using hc
  | cons t ts =>
    have hforward : (0 : K) ≤ forward since (t::ts) := by
      exact_mod_cast forward_nonneg since t ts
    have hrefill := mul_nonneg hforward hr
    cases o with
    | none =>
      rcases draw_absent since L t with ⟨hsmall, -⟩ | ⟨hone, hd⟩
      · rw [grants_small hsmall, Nat.cast_zero]
        linarith
      · have hrest := draws_le since hidle hc hr ts ⟨L.capacity - 1, t⟩
          (sub_nonneg.mpr hone)
        rw [List.map_cons, grants_draw, forget_never hidle, hd]
        push_cast
        dsimp only at hrest ⊢
        simp only [Bool.toNat_true, Nat.cast_one]
        linarith
    | some b =>
      obtain ⟨reply, tokens, hd, hsum, hpos⟩ := draw_present since L t b
      have hcap := available_le_capacity since L t b
      have hrest := draws_le since hidle hc hr ts ⟨tokens, t⟩
        (hpos (available_nonneg hc hr t b (ho b rfl).1))
      rw [List.map_cons, grants_draw, forget_never hidle, hd]
      push_cast
      dsimp only at hrest ⊢
      linarith

section Cut

variable [FloorRing K]

/-- What a stretch of draws can be granted: no more than there are, and no more than
a full bucket and the time credited within the stretch pay for. -/
def allowance (since : ℤ → ℤ → ℤ) (L : Limits K) (stretch : List ℤ) : ℤ :=
  min stretch.length ⌊L.capacity + forward since stretch * L.rate⌋

omit [IsStrictOrderedRing K] [FloorRing K] in
theorem grants_append (since : ℤ → ℤ → ℤ) (L : Limits K) (events rest : List Event)
    (o : Option (Bucket K)) :
    grants since L (events ++ rest) o =
      grants since L events o + grants since L rest (Run.after (step since L) events o) := by
  rw [grants, replies, Run.observations_append, List.count_append]
  rfl

omit [IsStrictOrderedRing K] [FloorRing K] in
theorem grants_le_length (since : ℤ → ℤ → ℤ) (L : Limits K) (ts : List ℤ)
    (o : Option (Bucket K)) : grants since L (ts.map Event.draw) o ≤ ts.length := by
  induction ts generalizing o with
  | nil => exact le_refl 0
  | cons t ts ih =>
    rw [List.map_cons, grants_draw, List.length_cons, Nat.add_comm]
    exact Nat.add_le_add (ih _) (Bool.toNat_le _)

omit [IsStrictOrderedRing K] [FloorRing K] in
theorem forward_snoc (since : ℤ → ℤ → ℤ) (ts : List ℤ) (t u : ℤ) :
    forward since (ts ++ [t] ++ [u]) = forward since (ts ++ [t]) + credit since u t := by
  induction ts with
  | nil => simp [forward]
  | cons s ts ih =>
    cases ts with
    | nil => simp [forward]
    | cons r ts =>
      have hrest : ∀ us : List ℤ, forward since (s::r::ts ++ us) =
          credit since r s + forward since (r::ts ++ us) := fun us => rfl
      rw [List.append_assoc] at ih ⊢
      rw [hrest, hrest, ih, add_assoc]

theorem grants_le_allowance (hidle : L.idle ≤ 0) (hc : 0 ≤ L.capacity) (hr : 0 ≤ L.rate)
    (ts : List ℤ) (o : Option (Bucket K)) (ho : Holds L o) :
    (grants since L (ts.map Event.draw) o : ℤ) ≤ allowance since L ts := by
  refine le_min (by exact_mod_cast grants_le_length since L ts o) (Int.le_floor.mpr ?_)
  exact_mod_cast readings_le hidle hc hr ts o ho

theorem grants_le_cut (hidle : L.idle ≤ 0) (hc : 0 ≤ L.capacity) (hr : 0 ≤ L.rate)
    (cut : List (List ℤ)) (o : Option (Bucket K)) (ho : Holds L o) :
    (grants since L (cut.flatten.map Event.draw) o : ℤ) ≤
      (cut.map (allowance since L)).sum := by
  induction cut generalizing o with
  | nil => exact le_refl 0
  | cons stretch cut ih =>
    have hkept : Holds L (Run.after (step since L) (stretch.map Event.draw) o) :=
      Run.invariant (step since L) (Holds L) (fun event _ h => h.step hc hr event) _ o ho
    have hfirst : (grants since L (stretch.map Event.draw) o : ℤ) ≤ allowance since L stretch :=
      grants_le_allowance hidle hc hr stretch o ho
    rw [List.flatten_cons, List.map_append, grants_append, List.map_cons, List.sum_cons]
    push_cast
    exact add_le_add hfirst (ih _ hkept)

def Paid (since : ℤ → ℤ → ℤ) (L : Limits K) (ts : List ℤ) : Prop :=
  ∃ cut : List (List ℤ), cut.flatten = ts ∧
    (cut.map (allowance since L)).sum = grants since L (ts.map Event.draw) none

omit [IsStrictOrderedRing K] in
theorem Paid.append {ts stretch : List ℤ} (h : Paid since L ts)
    (hstretch : grants since L ((ts ++ stretch).map Event.draw) none =
      grants since L (ts.map Event.draw) none + allowance since L stretch) :
    Paid since L (ts ++ stretch) := by
  obtain ⟨cut, hflat, hsum⟩ := h
  refine ⟨cut ++ [stretch], by simp [hflat], ?_⟩
  rw [hstretch, List.map_append, List.sum_append, hsum]
  simp

/-- What is known after the draws `ts`: the bucket was last full at the start of
`stretch`, and has since lost what was granted and gained what was credited. -/
structure Ledger (since : ℤ → ℤ → ℤ) (L : Limits K) (ts : List ℤ) (b : Bucket K) : Prop where
  paid : Paid since L ts
  lastFull : ∃ before stretch, ts = before ++ (stretch ++ [b.seenAt]) ∧ Paid since L before ∧
    b.tokens + grants since L (ts.map Event.draw) none =
      grants since L (before.map Event.draw) none + L.capacity +
        forward since (stretch ++ [b.seenAt]) * L.rate

omit [IsStrictOrderedRing K] in
theorem allowance_singleton (hone : 1 ≤ L.capacity) (t : ℤ) : allowance since L [t] = 1 := by
  have hfloor : 1 ≤ ⌊L.capacity⌋ := Int.le_floor.mpr (by exact_mod_cast hone)
  simpa [allowance, forward] using hfloor

omit [IsStrictOrderedRing K] in
theorem ledger_full (hone : 1 ≤ L.capacity) {ts : List ℤ} (t : ℤ) (h : Paid since L ts)
    (hgrants : grants since L ((ts ++ [t]).map Event.draw) none =
      grants since L (ts.map Event.draw) none + 1) :
    Ledger since L (ts ++ [t]) ⟨L.capacity - 1, t⟩ := by
  refine ⟨h.append ?_, ts, [], rfl, h, ?_⟩
  · rw [allowance_singleton hone, hgrants]
    rfl
  · rw [hgrants]
    simp only [List.nil_append, forward]
    push_cast
    ring

theorem Paid.refused {before stretch : List ℤ} (h : Paid since L before) {left : K}
    (hleft : 0 ≤ left) (hsmall : left < 1)
    (hbalance : left + grants since L ((before ++ stretch).map Event.draw) none =
      grants since L (before.map Event.draw) none + L.capacity +
        forward since stretch * L.rate) :
    Paid since L (before ++ stretch) := by
  apply h.append
  have hsplit := grants_append since L (before.map Event.draw) (stretch.map Event.draw) none
  rw [← List.map_append] at hsplit
  have hlength := grants_le_length since L stretch
    (Run.after (step since L) (before.map Event.draw) none)
  generalize grants since L (stretch.map Event.draw)
    (Run.after (step since L) (before.map Event.draw) none) = granted at hsplit hlength
  have hfloor : ⌊L.capacity + forward since stretch * L.rate⌋ = (granted : ℤ) := by
    rw [hsplit] at hbalance
    push_cast at hbalance
    rw [Int.floor_eq_iff]
    constructor
    · push_cast
      linarith
    · push_cast
      linarith
  rw [allowance, hfloor, min_eq_right (by exact_mod_cast hlength), hsplit]
  push_cast
  rfl

theorem Ledger.next {ts : List ℤ} {b : Bucket K} (h : Ledger since L ts b)
    (hone : 1 ≤ L.capacity) (hr : 0 ≤ L.rate) (hb : 0 ≤ b.tokens) (t : ℤ)
    (hgrants : grants since L ((ts ++ [t]).map Event.draw) none =
      grants since L (ts.map Event.draw) none + (draw since L t (some b)).1.toNat) :
    ∃ tokens, (draw since L t (some b)).2 = some ⟨tokens, t⟩ ∧
      Ledger since L (ts ++ [t]) ⟨tokens, t⟩ := by
  obtain ⟨hpaid, before, stretch, hts, hbefore, hbalance⟩ := h
  have hgrow : ts ++ [t] = before ++ ((stretch ++ [b.seenAt]) ++ [t]) := by
    rw [hts]
    simp
  by_cases hfull : L.capacity ≤ b.tokens + credit since t b.seenAt * L.rate
  · have hav : available since L t b = L.capacity := min_eq_right hfull
    have hd : draw since L t (some b) = (true, some ⟨L.capacity - 1, t⟩) := by
      rw [draw, hav, if_neg (not_lt.mpr hone)]
    rw [hd] at hgrants ⊢
    exact ⟨L.capacity - 1, rfl, ledger_full hone t hpaid hgrants⟩
  · have hav : available since L t b = b.tokens + credit since t b.seenAt * L.rate :=
      min_eq_left (not_le.mp hfull).le
    by_cases hsmall : available since L t b < 1
    · have hd : draw since L t (some b) = (false, some ⟨available since L t b, t⟩) :=
        if_pos hsmall
      rw [hd] at hgrants ⊢
      have hleft : available since L t b + grants since L ((ts ++ [t]).map Event.draw) none =
          grants since L (before.map Event.draw) none + L.capacity +
            forward since ((stretch ++ [b.seenAt]) ++ [t]) * L.rate := by
        rw [hgrants, hav, forward_snoc]
        simp only [Bool.toNat_false, Nat.add_zero]
        push_cast
        linarith
      refine ⟨_, rfl, ?_, before, stretch ++ [b.seenAt], hgrow, hbefore, hleft⟩
      rw [hgrow] at hleft ⊢
      exact hbefore.refused (available_nonneg (by linarith) hr t b hb) hsmall hleft
    · have hd : draw since L t (some b) = (true, some ⟨available since L t b - 1, t⟩) :=
        if_neg hsmall
      rw [hd] at hgrants ⊢
      refine ⟨_, rfl, hpaid.append ?_, before, stretch ++ [b.seenAt], hgrow, hbefore, ?_⟩
      · rw [allowance_singleton hone, hgrants]
        rfl
      · change available since L t b - 1 + _ = _
        rw [hgrants, hav, forward_snoc]
        simp only [Bool.toNat_true]
        push_cast
        linarith

theorem after_ledger (hidle : L.idle ≤ 0) (hone : 1 ≤ L.capacity) (hr : 0 ≤ L.rate)
    (ts : List ℤ) (t : ℤ) :
    ∃ b, Run.after (step since L) ((ts ++ [t]).map Event.draw) none = some b ∧ 0 ≤ b.tokens ∧
      Ledger since L (ts ++ [t]) b := by
  induction ts using List.reverseRecOn generalizing t with
  | nil =>
    have hd : draw since L t none = (true, some ⟨L.capacity - 1, t⟩) :=
      if_neg (not_lt.mpr hone)
    have hempty : Paid since L [] := ⟨[], rfl, rfl⟩
    refine ⟨⟨L.capacity - 1, t⟩, ?_, sub_nonneg.mpr hone, ledger_full hone t hempty ?_⟩
    · change (draw since L t (forget since L t none)).2 = _
      rw [forget_never hidle, hd]
    · change grants since L (Event.draw t::[]) none = _
      rw [grants_draw, forget_never hidle, hd]
      rfl
  | append_singleton ts s ih =>
    obtain ⟨b, hb, htokens, hledger⟩ := ih s
    have hgrants : grants since L ((ts ++ [s] ++ [t]).map Event.draw) none =
        grants since L ((ts ++ [s]).map Event.draw) none +
          (draw since L t (some b)).1.toNat := by
      rw [List.map_append, grants_append, hb]
      change _ + grants since L (Event.draw t::[]) (some b) = _
      rw [grants_draw, forget_never hidle]
      rfl
    obtain ⟨tokens, hd, hnext⟩ := hledger.next hone hr htokens t hgrants
    have hafter : Run.after (step since L) ((ts ++ [s] ++ [t]).map Event.draw) none =
        some ⟨tokens, t⟩ := by
      rw [List.map_append, Run.after_append, hb]
      change (draw since L t (forget since L t (some b))).2 = _
      rw [forget_never hidle, hd]
    have hheld : Holds L (some ⟨tokens, t⟩) := by
      rw [← hafter]
      exact Run.invariant (step since L) (Holds L)
        (fun event _ h => h.step (by linarith) hr event) _ none (by simp [Holds])
    exact ⟨⟨tokens, t⟩, hafter, (hheld _ rfl).1, hnext⟩

theorem draws_paid (hidle : L.idle ≤ 0) (hc : 0 ≤ L.capacity) (hr : 0 ≤ L.rate)
    (ts : List ℤ) : Paid since L ts := by
  by_cases hone : 1 ≤ L.capacity
  · cases ts using List.reverseRecOn with
    | nil => exact ⟨[], rfl, rfl⟩
    | append_singleton ts t =>
      obtain ⟨b, -, -, hledger⟩ : ∃ b,
          Run.after (step since L) ((ts ++ [t]).map Event.draw) none = some b ∧ 0 ≤ b.tokens ∧
            Ledger since L (ts ++ [t]) b := after_ledger hidle hone hr ts t
      exact hledger.paid
  · -- below one token nothing is granted, and no single draw is allowed
    refine ⟨ts.map (fun t => [t]), by simp [List.flatten_eq_flatMap, List.flatMap_map], ?_⟩
    rw [grants_small (not_le.mp hone)]
    have hfloor : ⌊L.capacity⌋ = 0 :=
      Int.floor_eq_iff.mpr ⟨by simpa using hc, by simpa using hone⟩
    simp [allowance, forward, Function.comp_def, hfloor]

/-- The grants are the least that a cut into stretches allows. -/
theorem grants_le_iff (hidle : L.idle ≤ 0) (hc : 0 ≤ L.capacity) (hr : 0 ≤ L.rate)
    (ts : List ℤ) (x : K) :
    (grants since L (ts.map Event.draw) none : K) ≤ x ↔
      ∃ cut : List (List ℤ), cut.flatten = ts ∧
        (((cut.map (allowance since L)).sum : ℤ) : K) ≤ x := by
  constructor
  · intro h
    obtain ⟨cut, hflat, hsum⟩ : Paid since L ts := draws_paid hidle hc hr ts
    refine ⟨cut, hflat, ?_⟩
    rw [hsum]
    exact_mod_cast h
  · rintro ⟨cut, rfl, hcut⟩
    have hle : (grants since L (cut.flatten.map Event.draw) none : ℤ) ≤
        (cut.map (allowance since L)).sum := grants_le_cut hidle hc hr cut none (by simp [Holds])
    have hle' : ((grants since L (cut.flatten.map Event.draw) none : ℤ) : K) ≤
        (((cut.map (allowance since L)).sum : ℤ) : K) := by
      exact_mod_cast hle
    exact le_trans (by exact_mod_cast hle') hcut

end Cut

section Window

variable [FloorRing K]

def fresh (L : Limits K) (last t : ℤ) : K :=
  L.capacity * (1 + ⌊((last-t : ℤ) : K) / L.idle⌋) + ((last-t : ℤ) : K) * L.rate

/-- What a bucket can grant up to `last`: its tokens, a refill, and one capacity for
each time it can be forgotten. -/
def worn (L : Limits K) (last : ℤ) (b : Bucket K) : K :=
  b.tokens + L.capacity * ⌊((last-b.seenAt : ℤ) : K) / L.idle⌋ +
    ((last-b.seenAt : ℤ) : K) * L.rate

/-- `g` grants up to `last` are possible in this state at `t`. -/
def Bounded (L : Limits K) (last t : ℤ) (o : Option (Bucket K)) (g : K) : Prop :=
  g ≤ fresh L last t ∧ ∀ b, o = some b → g ≤ worn L last b

def Seen (t : ℤ) (o : Option (Bucket K)) : Prop := ∀ b, o = some b → b.seenAt ≤ t

structure Forgetful (L : Limits K) : Prop where
  capacity : 0 ≤ L.capacity
  rate : 0 ≤ L.rate
  idle : 0 < L.idle

def Honest (since : ℤ → ℤ → ℤ) : Prop :=
  ∀ now seenAt, seenAt ≤ now → since now seenAt ≤ now-seenAt

theorem floor_nonneg (hL : Forgetful L) {t last : ℤ} (h : t ≤ last) :
    (0 : K) ≤ ⌊((last-t : ℤ) : K) / L.idle⌋ := by
  have hspan : (0 : K) ≤ ((last-t : ℤ) : K) := by
    exact_mod_cast sub_nonneg.mpr h
  exact_mod_cast Int.floor_nonneg.mpr (div_nonneg hspan hL.idle.le)

theorem lifetimes_antitone (hL : Forgetful L) {t u : ℤ} (h : t ≤ u) (last : ℤ) :
    (⌊((last-u : ℤ) : K) / L.idle⌋ : K) ≤ ⌊((last-t : ℤ) : K) / L.idle⌋ := by
  have hspan : ((last-u : ℤ) : K) ≤ ((last-t : ℤ) : K) := by
    exact_mod_cast sub_le_sub_left h last
  exact_mod_cast Int.floor_le_floor (div_le_div_of_nonneg_right hspan hL.idle.le)

theorem fresh_antitone (hL : Forgetful L) {t u : ℤ} (h : t ≤ u) (last : ℤ) :
    fresh L last u ≤ fresh L last t := by
  have hspan : ((last-u : ℤ) : K) ≤ ((last-t : ℤ) : K) := by
    exact_mod_cast sub_le_sub_left h last
  have hlifetimes := mul_le_mul_of_nonneg_left (lifetimes_antitone hL h last) hL.capacity
  have hrefill := mul_le_mul_of_nonneg_right hspan hL.rate
  rw [fresh, fresh]
  linarith

theorem fresh_le_worn (hL : Forgetful L) (b : Bucket K) (hb : 0 ≤ b.tokens) (u last : ℤ)
    (h : L.idle ≤ ((u-b.seenAt : ℤ) : K)) : fresh L last u ≤ worn L last b := by
  have hspan : ((last-u : ℤ) : K) + L.idle ≤ ((last-b.seenAt : ℤ) : K) := by
    push_cast at h ⊢
    linarith
  have hone : ((last-u : ℤ) : K) / L.idle + 1 ≤ ((last-b.seenAt : ℤ) : K) / L.idle := by
    rw [← div_self hL.idle.ne', ← add_div]
    exact div_le_div_of_nonneg_right hspan hL.idle.le
  have hfloor : (⌊((last-u : ℤ) : K) / L.idle⌋ : K) + 1 ≤ ⌊((last-b.seenAt : ℤ) : K) / L.idle⌋ := by
    have hle := Int.floor_le_floor hone
    rw [Int.floor_add_one] at hle
    exact_mod_cast hle
  have hlifetimes := mul_le_mul_of_nonneg_left hfloor hL.capacity
  have hrefill : ((last-u : ℤ) : K) * L.rate ≤ ((last-b.seenAt : ℤ) : K) * L.rate :=
    mul_le_mul_of_nonneg_right (by linarith [hL.idle]) hL.rate
  rw [fresh, worn]
  linarith

theorem fresh_nonneg (hL : Forgetful L) {t last : ℤ} (h : t ≤ last) : 0 ≤ fresh L last t := by
  have hspan : (0 : K) ≤ ((last-t : ℤ) : K) := by
    exact_mod_cast sub_nonneg.mpr h
  have hlifetimes : 0 ≤ 1 + (⌊((last-t : ℤ) : K) / L.idle⌋ : K) :=
    add_nonneg zero_le_one (floor_nonneg hL h)
  exact add_nonneg (mul_nonneg hL.capacity hlifetimes) (mul_nonneg hspan hL.rate)

theorem worn_nonneg (hL : Forgetful L) {b : Bucket K} (hb : 0 ≤ b.tokens) {last : ℤ}
    (h : b.seenAt ≤ last) : 0 ≤ worn L last b := by
  have hspan : (0 : K) ≤ ((last-b.seenAt : ℤ) : K) := by
    exact_mod_cast sub_nonneg.mpr h
  have hlifetimes := mul_nonneg hL.capacity (floor_nonneg hL h)
  exact add_nonneg (add_nonneg hb hlifetimes) (mul_nonneg hspan hL.rate)

theorem Bounded.before (hL : Forgetful L) (hs : Honest since) {t u last : ℤ} (htu : t ≤ u)
    {o : Option (Bucket K)} (ho : Holds L o) (hseen : Seen t o) {g : K}
    (h : Bounded L last u (forget since L u o) g) : Bounded L last t o g := by
  refine ⟨h.1.trans (fresh_antitone hL htu last), ?_⟩
  rintro b rfl
  by_cases hkept : (since u b.seenAt : K) < L.idle
  · exact h.2 b (by simp [forget, hkept])
  · have hgap : L.idle ≤ ((u-b.seenAt : ℤ) : K) := by
      have hclock : ((since u b.seenAt : ℤ) : K) ≤ ((u-b.seenAt : ℤ) : K) := by
        exact_mod_cast hs u b.seenAt ((hseen b rfl).trans htu)
      exact (not_lt.mp hkept).trans hclock
    exact h.1.trans (fresh_le_worn hL b (ho b rfl).1 u last hgap)

theorem Bounded.draw (hL : Forgetful L) (hs : Honest since) {u last : ℤ}
    {o : Option (Bucket K)} (hseen : Seen u o) {g : K}
    (h : Bounded L last u (draw since L u o).2 g) :
    Bounded L last u o ((draw since L u o).1.toNat + g) := by
  cases o with
  | none =>
    refine ⟨?_, by simp⟩
    rcases draw_absent since L u with ⟨-, hd⟩ | ⟨-, hd⟩
    · rw [hd] at h ⊢
      simpa using h.1
    · rw [hd] at h ⊢
      have hworn := h.2 _ rfl
      rw [worn] at hworn
      rw [fresh]
      dsimp only at hworn ⊢
      simp only [Bool.toNat_true, Nat.cast_one]
      linarith
  | some b =>
    obtain ⟨reply, tokens, hd, hsum, -⟩ := draw_present since L u b
    rw [hd] at h ⊢
    have hworn := h.2 _ rfl
    have hcap := available_le_capacity since L u b
    have hfill := available_le_refilled since L u b
    rw [worn] at hworn
    dsimp only at hworn ⊢
    constructor
    · rw [fresh]
      linarith
    · rintro a ha
      obtain rfl := Option.some.inj ha
      have hcredit : (credit since u b.seenAt : K) ≤ ((u-b.seenAt : ℤ) : K) := by
        have hle := hseen b rfl
        exact_mod_cast max_le (hs u b.seenAt hle) (sub_nonneg.mpr hle)
      have hrefill := mul_le_mul_of_nonneg_right hcredit hL.rate
      have hlifetimes :=
        mul_le_mul_of_nonneg_left (lifetimes_antitone hL (hseen b rfl) last) hL.capacity
      have hsplit : ((last-b.seenAt : ℤ) : K) * L.rate =
          ((last-u : ℤ) : K) * L.rate + ((u-b.seenAt : ℤ) : K) * L.rate := by
        rw [← add_mul]
        push_cast
        ring
      rw [worn]
      linarith

omit [IsStrictOrderedRing K] [FloorRing K] in
theorem seen_forget {t u : ℤ} (h : t ≤ u) {o : Option (Bucket K)} (ho : Seen t o) (now : ℤ) :
    Seen u (forget since L now o) :=
  fun b hb => (ho b (forget_some hb).1).trans h

omit [FloorRing K] in
theorem seen_draw (u : ℤ) (o : Option (Bucket K)) : Seen u (TokenBucket.draw since L u o).2 := by
  intro b hb
  cases o with
  | none =>
    rcases draw_absent since L u with ⟨-, hd⟩ | ⟨-, hd⟩
    · simp [hd] at hb
    · rw [hd] at hb
      obtain rfl := Option.some.inj hb
      exact le_refl u
  | some a =>
    obtain ⟨reply, tokens, hd, -⟩ := draw_present since L u a
    rw [hd] at hb
    obtain rfl := Option.some.inj hb
    exact le_refl u

omit [FloorRing K] in
theorem Seen.after (events : List Event) (t : ℤ) (hall : ∀ event ∈ events, event.now ≤ t)
    (o : Option (Bucket K)) (ho : Seen t o) : Seen t (Run.after (step since L) events o) := by
  induction events generalizing o with
  | nil => exact ho
  | cons event events ih =>
    have hnow : event.now ≤ t := hall event (by simp)
    apply ih (fun e he => hall e (List.mem_cons_of_mem event he))
    cases event with
    | pass now => exact seen_forget (le_refl t) ho now
    | draw now => exact fun b hb => (seen_draw now _ b hb).trans hnow

theorem grants_bounded (hL : Forgetful L) (hs : Honest since) (last : ℤ) (events : List Event)
    (t : ℤ) (horder : (t::events.map Event.now).Pairwise (· ≤ ·)) (ht : t ≤ last)
    (hlast : ∀ event ∈ events, event.now ≤ last) (o : Option (Bucket K)) (ho : Holds L o)
    (hseen : Seen t o) : Bounded L last t o (grants since L events o) := by
  induction events generalizing t o with
  | nil =>
    rw [grants_nil, Nat.cast_zero]
    exact ⟨fresh_nonneg hL ht, fun b hb => worn_nonneg hL (ho b hb).1 ((hseen b hb).trans ht)⟩
  | cons event events ih =>
    obtain ⟨hle, horder⟩ := List.pairwise_cons.mp horder
    have htu : t ≤ event.now := hle _ (by simp)
    have hlate : event.now ≤ last := hlast event (by simp)
    have hrest := fun e he => hlast e (List.mem_cons_of_mem event he)
    apply Bounded.before hL hs htu ho hseen
    cases event with
    | pass now =>
      exact ih now horder hlate hrest _ (ho.forget now) (seen_forget htu hseen now)
    | draw now =>
      rw [grants_draw, Nat.cast_add]
      apply Bounded.draw hL hs (seen_forget htu hseen now)
      exact ih now horder hlate hrest _
        ((ho.forget now).draw hL.capacity hL.rate now) (seen_draw now _)

end Window

end Draw

end TokenBucket
