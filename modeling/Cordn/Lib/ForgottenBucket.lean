import Cordn.Lib.TokenBucket

/-!
# When forgetting a bucket does not show

Readings come in order and are told apart by the time between them. Time that
passes between the draws then does not show in the answers, since a bucket
forgotten meanwhile would be forgotten at the next draw. Forgetting itself does
not show exactly when the idle time refills a whole bucket.
-/

set_option autoImplicit false

namespace TokenBucket

variable {K : Type*} {since : ℤ → ℤ → ℤ}

/-- A reading and a later one, with the time between them as the clock has it. -/
def Steady (since : ℤ → ℤ → ℤ) (seen now : ℤ) : Prop := seen ≤ now ∧ since now seen = now-seen

def InTime (since : ℤ → ℤ → ℤ) (events : List Event) : Prop :=
  (events.map Event.now).Pairwise (Steady since)

def Ahead (since : ℤ → ℤ → ℤ) (events : List Event) (o : Option (Bucket K)) : Prop :=
  ∀ b, o = some b → ∀ event ∈ events, Steady since b.seenAt event.now

theorem InTime.cons {event : Event} {events : List Event} (h : InTime since (event::events)) :
    (∀ e ∈ events, Steady since event.now e.now) ∧ InTime since events := by
  obtain ⟨hfirst, hrest⟩ := List.pairwise_cons.mp h
  exact ⟨fun e he => hfirst _ (List.mem_map_of_mem he), hrest⟩

theorem Ahead.tail {event : Event} {events : List Event} {o : Option (Bucket K)}
    (h : Ahead since (event::events) o) : Ahead since events o :=
  fun b hb e he => h b hb e (List.mem_cons_of_mem event he)

theorem since_mono {event : Event} {events : List Event} (h : InTime since (event::events))
    {b : Bucket K} (hb : Ahead since (event::events) (some b)) :
    ∀ e ∈ event::events, since event.now b.seenAt ≤ since e.now b.seenAt := by
  intro e he
  rw [(hb b rfl event (by simp)).2, (hb b rfl e he).2]
  rcases List.mem_cons.mp he with rfl | hlater
  · exact le_refl _
  · have hle := (h.cons.1 e hlater).1
    omega

/-- The same bucket, or nothing against one of which `Q` holds at every event to come. -/
inductive Dropped (Q : Bucket K → ℤ → Prop) (events : List Event) :
    Option (Bucket K) → Option (Bucket K) → Prop where
  | same (o : Option (Bucket K)) : Dropped Q events o o
  | dropped (b : Bucket K) : (∀ event ∈ events, Q b event.now) → Dropped Q events none (some b)

theorem Dropped.tail {Q : Bucket K → ℤ → Prop} {event : Event} {events : List Event}
    {o o' : Option (Bucket K)} (h : Dropped Q (event::events) o o') : Dropped Q events o o' := by
  cases h with
  | same => exact .same o
  | dropped b hb => exact .dropped b (fun e he => hb e (List.mem_cons_of_mem event he))

variable [Field K] [LinearOrder K] {L : Limits K}

def Lapsed (since : ℤ → ℤ → ℤ) (L : Limits K) (b : Bucket K) (now : ℤ) : Prop :=
  0 < L.idle ∧ L.idle ≤ since now b.seenAt

theorem forget_lapsed {b : Bucket K} {now : ℤ} (h : Lapsed since L b now) :
    forget since L now (some b) = none := by
  simp [forget, h.1, h.2]

theorem forget_kept {b : Bucket K} {now : ℤ} (h : ¬Lapsed since L b now) :
    forget since L now (some b) = some b := by
  rw [Lapsed, not_and_or, not_lt, not_le] at h
  simp [forget, h]

theorem Dropped.forget {Q : Bucket K → ℤ → Prop} {event : Event} {events : List Event}
    {o o' : Option (Bucket K)} (h : Dropped Q (event::events) o o')
    (hdrop : ∀ b, o' = some b → Lapsed since L b event.now → ∀ e ∈ event::events, Q b e.now) :
    Dropped Q (event::events) (forget since L event.now o) o' := by
  cases h with
  | dropped b hb => exact .dropped b hb
  | same =>
    cases o with
    | none => exact .same none
    | some b =>
      by_cases hlapsed : Lapsed since L b event.now
      · rw [forget_lapsed hlapsed]
        exact .dropped b (hdrop b rfl hlapsed)
      · rw [forget_kept hlapsed]
        exact .same _

theorem Dropped.draw_same {now : ℤ} {events : List Event} {o o' : Option (Bucket K)}
    (h : Dropped (Lapsed since L) (.draw now::events) o o') :
    TokenBucket.forget since L now o = TokenBucket.forget since L now o' := by
  cases h with
  | same => rfl
  | dropped b hb => exact (forget_lapsed (hb (.draw now) (by simp))).symm

variable [IsStrictOrderedRing K]

theorem ahead_draw {now : ℤ} {events : List Event} (h : InTime since (.draw now::events))
    (o : Option (Bucket K)) : Ahead since events (draw since L now o).2 := by
  intro b hb e he
  have hnow : b.seenAt = now := by
    cases o with
    | none =>
      rcases draw_absent since L now with ⟨-, hd⟩ | ⟨-, hd⟩
      · simp [hd] at hb
      · rw [hd] at hb
        exact (congrArg Bucket.seenAt (Option.some.inj hb)).symm
    | some a =>
      obtain ⟨reply, tokens, hd, -⟩ := draw_present since L now a
      rw [hd] at hb
      exact (congrArg Bucket.seenAt (Option.some.inj hb)).symm
  rw [hnow]
  exact h.cons.1 e he

theorem replies_dropped (events : List Event) (h : InTime since events)
    (o o' : Option (Bucket K)) (hd : Dropped (Lapsed since L) events o o')
    (ha : Ahead since events o') :
    replies since L events o =
      replies since L ((events.filterMap Event.drawnAt).map Event.draw) o' := by
  induction events generalizing o o' with
  | nil => rfl
  | cons event events ih =>
    cases event with
    | pass now =>
      have hnext : Dropped (Lapsed since L) (.pass now::events) (forget since L now o) o' := by
        apply hd.forget
        rintro b rfl ⟨hpos, hidle⟩ e he
        have hmono := since_mono h ha e he
        exact ⟨hpos, hidle.trans (by exact_mod_cast hmono)⟩
      exact ih h.cons.2 _ _ hnext.tail ha.tail
    | draw now =>
      have hsame := hd.draw_same
      have hrest := ih h.cons.2 _ _ (.same (draw since L now (forget since L now o')).2)
        (ahead_draw h _)
      simp only [replies, Run.observations, step, Option.toList_some, List.filterMap_cons,
        Event.drawnAt, List.map_cons, hsame] at hrest ⊢
      rw [hrest]

def Limits.remembering (L : Limits K) : Limits K := ⟨L.capacity, L.rate, 0⟩

def Full (since : ℤ → ℤ → ℤ) (L : Limits K) (b : Bucket K) (now : ℤ) : Prop :=
  available since L now b = L.capacity

/-- A full bucket answers as a fresh one does, and what is left of them is the
same or full again. -/
theorem draw_full (hr : 0 ≤ L.rate) {now : ℤ} {events : List Event}
    {b : Bucket K} (hb : Full since L b now) :
    (draw since L now none).1 = (draw since L.remembering now (some b)).1 ∧
      Dropped (Full since L) events (draw since L now none).2
        (draw since L.remembering now (some b)).2 := by
  have hav : available since L.remembering now b = L.capacity := hb
  by_cases hone : L.capacity < 1
  · have hrefilled : ∀ e ∈ events, Full since L ⟨L.capacity, now⟩ e.now := by
      intro e _
      have hcredit : (0 : K) ≤ credit since e.now now := by
        exact_mod_cast credit_nonneg since _ _
      have hrefill := mul_nonneg hcredit hr
      exact min_eq_right (by dsimp only; linarith)
    simp only [draw, hav, hone, if_true]
    exact ⟨trivial, .dropped _ hrefilled⟩
  · simp only [draw, hav, hone, if_false]
    exact ⟨trivial, .same _⟩

/-- Where the idle time refills a whole bucket, forgetting does not show. -/
theorem replies_remembered (hc : 0 ≤ L.capacity) (hr : 0 ≤ L.rate)
    (hfull : L.capacity ≤ L.idle * L.rate) (events : List Event) (h : InTime since events)
    (o o' : Option (Bucket K)) (hd : Dropped (Full since L) events o o')
    (ha : Ahead since events o') (hh : Holds L o') :
    replies since L events o = replies since L.remembering events o' := by
  induction events generalizing o o' with
  | nil => rfl
  | cons event events ih =>
    have hnever : ∀ now, forget since L.remembering now o' = o' :=
      fun now => forget_never (le_refl 0) now o'
    have hnext : Dropped (Full since L) (event::events) (forget since L event.now o) o' := by
      apply hd.forget
      rintro b rfl ⟨-, hidle⟩ e he
      have hmono : (since event.now b.seenAt : K) ≤ since e.now b.seenAt := by
        exact_mod_cast since_mono h ha e he
      have hcredit : (since e.now b.seenAt : K) ≤ credit since e.now b.seenAt := by
        exact_mod_cast le_max_left _ _
      have hrefill := mul_le_mul_of_nonneg_right (hidle.trans (hmono.trans hcredit)) hr
      have htokens := (hh b rfl).1
      exact min_eq_right (by linarith)
    cases event with
    | pass now =>
      change replies since L events (forget since L now o) =
        replies since L.remembering events (forget since L.remembering now o')
      rw [hnever]
      exact ih h.cons.2 _ _ hnext.tail ha.tail hh
    | draw now =>
      have hlinked : (draw since L now (forget since L now o)).1 =
            (draw since L.remembering now o').1 ∧
          Dropped (Full since L) events (draw since L now (forget since L now o)).2
            (draw since L.remembering now o').2 := by
        change Dropped _ _ (forget since L now o) o' at hnext
        generalize forget since L now o = kept at hnext ⊢
        cases hnext with
        | same => exact ⟨by cases o' <;> rfl, by cases o' <;> exact .same _⟩
        | dropped b hb => exact draw_full hr (hb (.draw now) (by simp))
      have hrest := ih h.cons.2 _ _ hlinked.2 (ahead_draw h o') (hh.draw hc hr now)
      simp only [replies, Run.observations, step, Option.toList_some, hnever,
        hlinked.1] at hrest ⊢
      rw [hrest]

omit [IsStrictOrderedRing K] in
theorem not_lapsed_self (hself : ∀ t, since t t = 0) (tokens : K) (t : ℤ) :
    ¬Lapsed since L ⟨tokens, t⟩ t := by
  rintro ⟨hpos, hidle⟩
  rw [hself, Int.cast_zero] at hidle
  exact not_lt.mpr hidle hpos

omit [IsStrictOrderedRing K] in
theorem available_self (hself : ∀ t, since t t = 0) {tokens : K} (h : tokens ≤ L.capacity)
    (t : ℤ) : available since L t ⟨tokens, t⟩ = tokens := by
  simp [available, credit, hself, h]

theorem grants_spent (hself : ∀ t, since t t = 0) (n : ℕ) (hn : n ≤ L.capacity) (t : ℤ)
    (events : List Event) :
    grants since L (List.replicate n (.draw t) ++ events) (some ⟨n, t⟩) =
      n + grants since L events (some ⟨0, t⟩) := by
  induction n with
  | zero => simp
  | succ n ih =>
    have hone : ¬((n+1 : ℕ) : K) < 1 := by simp
    have hless : ((n+1 : ℕ) : K) - 1 = n := by simp
    rw [List.replicate_succ, List.cons_append, grants_draw,
      forget_kept (not_lapsed_self hself _ t), draw, available_self hself hn, if_neg hone]
    dsimp only
    rw [hless, ih ((Nat.cast_le.mpr (Nat.le_succ n)).trans hn), Bool.toNat_true]
    omega

theorem grants_burst (hself : ∀ t, since t t = 0) (n : ℕ) (hn : 0 < n) (hc : L.capacity = n)
    (t : ℤ) (events : List Event) :
    grants since L (List.replicate n (.draw t) ++ events) none =
      n + grants since L events (some ⟨0, t⟩) := by
  obtain ⟨m, rfl⟩ : ∃ m, n = m+1 := ⟨n-1, by omega⟩
  have hone : ¬L.capacity < 1 := by simp [hc]
  have hless : L.capacity - 1 = m := by simp [hc]
  have hfew : (m : K) ≤ L.capacity := by simp [hc]
  have hfresh : draw since L t (forget since L t none) = (true, some ⟨m, t⟩) := by
    rw [← hless]
    exact if_neg hone
  rw [List.replicate_succ, List.cons_append, grants_draw, hfresh, grants_spent hself m hfew,
    Bool.toNat_true]
  omega

omit [IsStrictOrderedRing K] in
theorem grants_le (n : ℕ) (t : ℤ) (o : Option (Bucket K)) :
    grants since L (List.replicate n (.draw t)) o ≤ n := by
  induction n generalizing o with
  | zero => exact le_refl 0
  | succ n ih =>
    have hrest := ih (draw since L t (forget since L t o)).2
    have hreply := Bool.toNat_le (draw since L t (forget since L t o)).1
    rw [List.replicate_succ, grants_draw]
    omega

theorem granted_iff (hself : ∀ t, since t t = 0) (n : ℕ) (x : K) (hx : 0 ≤ x)
    (hc : x ≤ L.capacity) (t : ℤ) :
    grants since L (List.replicate n (.draw t)) (some ⟨x, t⟩) = n ↔ n ≤ x := by
  induction n generalizing x with
  | zero => simp [hx]
  | succ n ih =>
    rw [List.replicate_succ, grants_draw, forget_kept (not_lapsed_self hself x t), draw,
      available_self hself hc]
    push_cast
    by_cases hone : x < 1
    · have hle : grants since L (List.replicate n (.draw t)) (some ⟨x, t⟩) ≤ n :=
        grants_le n t _
      have hn : (0 : K) ≤ n := Nat.cast_nonneg n
      rw [if_pos hone]
      constructor
      · intro h
        simp only [Bool.toNat_false] at h
        omega
      · intro h
        linarith
    · have hrest := ih (x-1) (by linarith [not_lt.mp hone]) (by linarith)
      rw [if_neg hone, ← le_sub_iff_add_le, ← hrest]
      simp only [Bool.toNat_true]
      omega

omit [IsStrictOrderedRing K] in
theorem draw_restamped (hself : ∀ t, since t t = 0) (u : ℤ) (b : Bucket K) :
    draw since L u (some b) = draw since L u (some ⟨available since L u b, u⟩) := by
  rw [draw, draw, available_self hself (available_le_capacity since L u b)]

/-- Draws that empty the bucket, and as many again after the idle time, show the
forgetting unless that time refills the bucket. -/
theorem refills_of_grants (hself : ∀ t, since t t = 0) (n : ℕ) (hn : 0 < n)
    (hc : L.capacity = n) (hr : 0 ≤ L.rate) (hpos : 0 < L.idle) (t u : ℤ)
    (hgap : since u t = L.idle)
    (h : grants since L (List.replicate n (.draw t) ++ List.replicate n (.draw u)) none =
      grants since L.remembering (List.replicate n (.draw t) ++ List.replicate n (.draw u)) none) :
    L.capacity ≤ L.idle * L.rate := by
  have hlapsed : Lapsed since L ⟨0, t⟩ u := ⟨hpos, hgap.ge⟩
  have hkept : ∀ b, forget since L.remembering u b = b := forget_never (le_refl 0) u
  obtain ⟨m, rfl⟩ : ∃ m, n = m+1 := ⟨n-1, by omega⟩
  -- with forgetting, the second draws find a fresh bucket
  have hforgotten : grants since L (List.replicate (m+1) (.draw u)) (some ⟨0, t⟩) = m+1 := by
    have hburst := grants_burst hself (m+1) hn hc u []
    rw [List.append_nil, List.replicate_succ, grants_draw, grants_nil] at hburst
    rw [List.replicate_succ, grants_draw, forget_lapsed hlapsed]
    exact hburst
  -- without it, what the time in between has refilled
  have hrefilled : grants since L.remembering (List.replicate (m+1) (.draw u)) (some ⟨0, t⟩) =
      grants since L.remembering (List.replicate (m+1) (.draw u))
        (some ⟨available since L.remembering u ⟨0, t⟩, u⟩) := by
    rw [List.replicate_succ, grants_draw, grants_draw, hkept, hkept,
      draw_restamped hself u ⟨0, t⟩]
  rw [grants_burst hself (m+1) hn hc, grants_burst (L := L.remembering) hself (m+1) hn hc,
    hforgotten, hrefilled] at h
  have hcap : 0 ≤ L.remembering.capacity := hc ▸ Nat.cast_nonneg (m+1)
  have hall := (granted_iff (L := L.remembering) hself (m+1) _
    (available_nonneg hcap hr u ⟨0, t⟩ (le_refl 0))
    (available_le_capacity since L.remembering u _) u).mp (by omega)
  have hcredit : (credit since u t : K) = L.idle := by
    rw [credit, max_eq_left, hgap]
    have hgapnonneg : (0 : K) ≤ (since u t : K) := hgap ▸ hpos.le
    exact_mod_cast hgapnonneg
  have hle := available_le_refilled since L.remembering u ⟨0, t⟩
  rw [hc]
  refine hall.trans (hle.trans ?_)
  rw [zero_add, hcredit]
  exact le_refl _

end TokenBucket
