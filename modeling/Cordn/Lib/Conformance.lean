import Cordn.Lib.ForgottenBucket

/-!
# What a bucket grants, by the grants before

The tokens left at a reading are what the capacity and the refill leave over after
the grants so far, in the tightest of all windows that end at the reading. A
bucket that is never forgotten grants a draw exactly when one token more fits in
every window; one that is forgotten grants at least that.
-/

set_option autoImplicit false

namespace TokenBucket

variable {K : Type*} {since : ℤ → ℤ → ℤ}

def spentSince (start : ℤ) (spent : List ℤ) : ℕ := spent.countP (fun t => decide (start ≤ t))

@[simp] theorem spentSince_nil (start : ℤ) : spentSince start [] = 0 := rfl

theorem spentSince_append (start : ℤ) (spent more : List ℤ) :
    spentSince start (spent ++ more) = spentSince start spent + spentSince start more :=
  List.countP_append

theorem spentSince_late {start : ℤ} {spent : List ℤ} (h : ∀ t ∈ spent, t < start) :
    spentSince start spent = 0 := by
  rw [spentSince, List.countP_eq_zero]
  intro t ht
  simpa using h t ht

theorem spentSince_sublist {spent more : List ℤ} (h : spent.Sublist more) (start : ℤ) :
    spentSince start spent ≤ spentSince start more := h.countP_le

variable [Field K] [LinearOrder K] {L : Limits K}

def granted : Event → Option Bool → Option ℤ
  | .draw now, some true => some now
  | _, _ => none

def grantedAt (since : ℤ → ℤ → ℤ) (L : Limits K) : List Event → Option (Bucket K) → List ℤ :=
  Run.observations (step since L) granted

/-- `x` tokens fit in every window that ends at the reading. -/
def Fits (L : Limits K) (spent : List ℤ) (now : ℤ) (x : K) : Prop :=
  ∀ start ≤ now, (spentSince start spent : K) + x ≤ L.capacity + ((now-start : ℤ) : K) * L.rate

def level (since : ℤ → ℤ → ℤ) (L : Limits K) (now : ℤ) : Option (Bucket K) → K
  | none => L.capacity
  | some b => available since L now b

theorem level_le_capacity (now : ℤ) (o : Option (Bucket K)) :
    level since L now o ≤ L.capacity := by
  cases o with
  | none => exact le_refl _
  | some b => exact available_le_capacity since L now b

def spends (reply : Bool) (now : ℤ) : List ℤ := if reply then [now] else []

theorem mem_spends {reply : Bool} {now t : ℤ} (h : t ∈ spends reply now) : t = now := by
  cases reply <;> simp_all [spends]

theorem spentSince_spends {start now : ℤ} (h : start ≤ now) (reply : Bool) :
    spentSince start (spends reply now) = reply.toNat := by
  cases reply <;> simp [spends, spentSince, h]

theorem draw_answer (now : ℤ) (o : Option (Bucket K)) :
    (draw since L now o).1 = true ↔ 1 ≤ level since L now o := by
  rw [← not_lt]
  cases o with
  | none =>
    rw [draw]
    split <;> simp_all [level]
  | some b =>
    rw [draw]
    split <;> simp_all [level]

variable [IsStrictOrderedRing K]

theorem fits_nil (hr : 0 ≤ L.rate) (now : ℤ) (x : K) : Fits L [] now x ↔ x ≤ L.capacity := by
  constructor
  · intro h
    simpa using h now (le_refl now)
  · intro h start hstart
    have hspan : (0 : K) ≤ ((now-start : ℤ) : K) := by
      exact_mod_cast sub_nonneg.mpr hstart
    have hrefill := mul_nonneg hspan hr
    rw [spentSince_nil, Nat.cast_zero]
    linarith

/-- After a draw, windows that end later are the ones that ended at it, with the
refill since, and those that begin after it, which are empty. -/
theorem fits_draw (hr : 0 ≤ L.rate) {spent : List ℤ} {u now : ℤ} (hu : u ≤ now)
    (hspent : ∀ t ∈ spent, t ≤ u) (reply : Bool) (x : K) :
    Fits L (spent ++ spends reply u) now x ↔
      x ≤ L.capacity ∧ Fits L spent u (x + (reply.toNat : K) - ((now-u : ℤ) : K) * L.rate) := by
  have hsplit : ∀ start : ℤ, ((now-start : ℤ) : K) * L.rate =
      ((u-start : ℤ) : K) * L.rate + ((now-u : ℤ) : K) * L.rate := by
    intro start
    rw [← add_mul]
    push_cast
    ring
  constructor
  · intro h
    constructor
    · have hnow := h now (le_refl now)
      have hcount : (0 : K) ≤ (spentSince now (spent ++ spends reply u) : K) := Nat.cast_nonneg _
      rw [sub_self, Int.cast_zero, zero_mul] at hnow
      linarith
    · intro start hstart
      have hwindow := h start (hstart.trans hu)
      rw [spentSince_append, spentSince_spends hstart, hsplit] at hwindow
      push_cast at hwindow ⊢
      linarith
  · rintro ⟨hcap, h⟩ start hstart
    by_cases hbefore : start ≤ u
    · have hwindow := h start hbefore
      rw [spentSince_append, spentSince_spends hbefore, hsplit]
      push_cast at hwindow ⊢
      linarith
    · have hnone : spentSince start (spent ++ spends reply u) = 0 := by
        apply spentSince_late
        intro t ht
        rcases List.mem_append.mp ht with hmem | hmem
        · exact (hspent t hmem).trans_lt (not_le.mp hbefore)
        · exact mem_spends hmem ▸ not_le.mp hbefore
      have hspan : (0 : K) ≤ ((now-start : ℤ) : K) := by
        exact_mod_cast sub_nonneg.mpr hstart
      have hrefill := mul_nonneg hspan hr
      rw [hnone, Nat.cast_zero]
      linarith

theorem level_draw (hr : 0 ≤ L.rate) {u now : ℤ} (h : Steady since u now)
    (o : Option (Bucket K)) (x : K) :
    x ≤ level since L now (draw since L u o).2 ↔
      x ≤ L.capacity ∧
        x + ((draw since L u o).1.toNat : K) - ((now-u : ℤ) : K) * L.rate ≤ level since L u o := by
  obtain ⟨hle, hclock⟩ := h
  have hspan : (0 : K) ≤ ((now-u : ℤ) : K) := by
    exact_mod_cast sub_nonneg.mpr hle
  have hrefill := mul_nonneg hspan hr
  have hcredit : credit since now u = now-u := by
    rw [credit, hclock, max_eq_left (sub_nonneg.mpr hle)]
  have hlater : ∀ tokens : K, x ≤ available since L now ⟨tokens, u⟩ ↔
      x ≤ L.capacity ∧ x ≤ tokens + ((now-u : ℤ) : K) * L.rate := by
    intro tokens
    rw [available, le_min_iff, hcredit, and_comm]
  cases o with
  | none =>
    rcases draw_absent since L u with ⟨-, hd⟩ | ⟨-, hd⟩
    · simp only [hd, level, Bool.toNat_false, Nat.cast_zero]
      constructor
      · intro hx
        exact ⟨hx, by linarith⟩
      · exact And.left
    · simp only [hd, level, hlater, Bool.toNat_true, Nat.cast_one]
      refine and_congr_right fun _ => ?_
      constructor <;> intro hx <;> linarith
  | some b =>
    obtain ⟨reply, tokens, hd, hsum, -⟩ := draw_present since L u b
    simp only [hd, level, hlater]
    refine and_congr_right fun _ => ?_
    constructor <;> intro hx <;> linarith

def Behind (spent : List ℤ) (events : List Event) : Prop :=
  ∀ t ∈ spent, ∀ event ∈ events, t ≤ event.now

def Covers (since : ℤ → ℤ → ℤ) (L : Limits K) (events : List Event) (spent : List ℤ)
    (o : Option (Bucket K)) : Prop :=
  ∀ event ∈ events, ∀ x, Fits L spent event.now x → x ≤ level since L event.now o

def Bounds (since : ℤ → ℤ → ℤ) (L : Limits K) (events : List Event) (spent : List ℤ)
    (o : Option (Bucket K)) : Prop :=
  ∀ event ∈ events, ∀ x, x ≤ level since L event.now o → Fits L spent event.now x

theorem Behind.tail {spent : List ℤ} {event : Event} {events : List Event}
    (h : Behind spent (event::events)) : Behind spent events :=
  fun t ht e he => h t ht e (List.mem_cons_of_mem event he)

theorem Behind.draw {spent : List ℤ} {now : ℤ} {events : List Event}
    (h : Behind spent (.draw now::events)) (horder : InTime since (.draw now::events))
    (reply : Bool) : Behind (spent ++ spends reply now) events := by
  intro t ht e he
  rcases List.mem_append.mp ht with hmem | hmem
  · exact h.tail t hmem e he
  · rw [mem_spends hmem]
    exact (horder.cons.1 e he).1

omit [IsStrictOrderedRing K] in
theorem grantedAt_draw (now : ℤ) (events : List Event) (o : Option (Bucket K)) :
    grantedAt since L (.draw now::events) o =
      spends (draw since L now (forget since L now o)).1 now ++
        grantedAt since L events (draw since L now (forget since L now o)).2 := by
  rw [grantedAt, Run.observations]
  simp only [step]
  cases (draw since L now (forget since L now o)).1 <;> rfl

omit [IsStrictOrderedRing K] in
theorem Covers.forget {events : List Event} {spent : List ℤ} {o : Option (Bucket K)}
    (h : Covers since L events spent o) (now : ℤ) :
    Covers since L events spent (forget since L now o) := by
  intro event hevent x hx
  cases hkept : TokenBucket.forget since L now o with
  | none => exact (h event hevent x hx).trans (level_le_capacity event.now o)
  | some b => exact (forget_some hkept).1 ▸ h event hevent x hx

theorem Covers.draw (hr : 0 ≤ L.rate) {now : ℤ} {events : List Event} {spent : List ℤ}
    {o : Option (Bucket K)} (h : Covers since L (.draw now::events) spent o)
    (horder : InTime since (.draw now::events)) (hspent : Behind spent (.draw now::events)) :
    Covers since L events (spent ++ spends (draw since L now o).1 now)
      (draw since L now o).2 := by
  intro event hevent x hx
  have hsteady := horder.cons.1 event hevent
  have hbefore := fun t ht => hspent t ht (.draw now) (by simp)
  obtain ⟨hcap, hfits⟩ := (fits_draw hr hsteady.1 hbefore _ x).mp hx
  exact (level_draw hr hsteady o x).mpr ⟨hcap, h (.draw now) (by simp) _ hfits⟩

theorem Bounds.draw (hr : 0 ≤ L.rate) {now : ℤ} {events : List Event} {spent : List ℤ}
    {o : Option (Bucket K)} (h : Bounds since L (.draw now::events) spent o)
    (horder : InTime since (.draw now::events)) (hspent : Behind spent (.draw now::events)) :
    Bounds since L events (spent ++ spends (draw since L now o).1 now)
      (draw since L now o).2 := by
  intro event hevent x hx
  have hsteady := horder.cons.1 event hevent
  have hbefore := fun t ht => hspent t ht (.draw now) (by simp)
  obtain ⟨hcap, hlevel⟩ := (level_draw hr hsteady o x).mp hx
  exact (fits_draw hr hsteady.1 hbefore _ x).mpr ⟨hcap, h (.draw now) (by simp) _ hlevel⟩

theorem Covers.run (hr : 0 ≤ L.rate) (events later : List Event) (spent : List ℤ)
    (o : Option (Bucket K)) (h : Covers since L (events++later) spent o)
    (horder : InTime since (events++later)) (hspent : Behind spent (events++later)) :
    Covers since L later (spent ++ grantedAt since L events o)
      (Run.after (step since L) events o) := by
  induction events generalizing spent o with
  | nil =>
    rw [grantedAt, Run.observations, List.append_nil]
    exact h
  | cons event events ih =>
    cases event with
    | pass now =>
      exact ih spent _ (fun e he => (h.forget now) e (List.mem_cons_of_mem _ he))
        horder.cons.2 hspent.tail
    | draw now =>
      rw [grantedAt_draw, ← List.append_assoc]
      exact ih _ _ ((h.forget now).draw hr horder hspent) horder.cons.2
        (hspent.draw horder _)

theorem Bounds.run (hr : 0 ≤ L.rate) (hidle : L.idle ≤ 0) (events later : List Event)
    (spent : List ℤ) (o : Option (Bucket K)) (h : Bounds since L (events++later) spent o)
    (horder : InTime since (events++later)) (hspent : Behind spent (events++later)) :
    Bounds since L later (spent ++ grantedAt since L events o)
      (Run.after (step since L) events o) := by
  induction events generalizing spent o with
  | nil =>
    rw [grantedAt, Run.observations, List.append_nil]
    exact h
  | cons event events ih =>
    cases event with
    | pass now =>
      have hsame : (step since L (.pass now) o).2 = o := forget_never hidle now o
      rw [Run.after, hsame]
      change Bounds since L later
        (spent ++ grantedAt since L events (forget since L now o)) _
      rw [forget_never hidle]
      exact ih spent o (fun e he => h e (List.mem_cons_of_mem _ he)) horder.cons.2 hspent.tail
    | draw now =>
      rw [grantedAt_draw, ← List.append_assoc]
      have hkept : Bounds since L (.draw now::(events++later)) spent (forget since L now o) := by
        rw [forget_never hidle]
        exact h
      exact ih _ _ (hkept.draw hr horder hspent) horder.cons.2 (hspent.draw horder _)

section Start

variable (hr : 0 ≤ L.rate) (events : List Event) (now : ℤ)
  (horder : InTime since (events ++ [.draw now]))

include hr horder

theorem granted_of_fits (h : Fits L (grantedAt since L events none) now 1) :
    (step since L (.draw now) (Run.after (step since L) events none)).1 = some true := by
  have hcovers : Covers since L (events ++ [.draw now]) [] none :=
    fun event _ x hx => (fits_nil hr event.now x).mp hx
  have hlast := hcovers.run hr events [.draw now] [] none horder (by simp [Behind])
  rw [step, (draw_answer now _).mpr (hlast.forget now (.draw now) (by simp) 1 h)]

theorem granted_iff_fits (hidle : L.idle ≤ 0) :
    (step since L (.draw now) (Run.after (step since L) events none)).1 = some true ↔
      Fits L (grantedAt since L events none) now 1 := by
  constructor
  · intro h
    have hbounds : Bounds since L (events ++ [.draw now]) [] none :=
      fun event _ x hx => (fits_nil hr event.now x).mpr hx
    have hlast := hbounds.run hr hidle events [.draw now] [] none horder (by simp [Behind])
    rw [step, forget_never hidle] at h
    exact hlast (.draw now) (by simp) 1 ((draw_answer now _).mp (Option.some.inj h))
  · exact granted_of_fits hr events now horder

end Start

omit [IsStrictOrderedRing K] in
theorem replies_snoc (events : List Event) (now : ℤ) (o : Option (Bucket K)) :
    replies since L (events ++ [.draw now]) o = replies since L events o ++
      [(draw since L now (forget since L now (Run.after (step since L) events o))).1] := by
  rw [replies, Run.observations_append]
  rfl

omit [IsStrictOrderedRing K] in
theorem grantedAt_congr {L' : Limits K} (events : List Event) (o o' : Option (Bucket K))
    (h : replies since L events o = replies since L' events o') :
    grantedAt since L events o = grantedAt since L' events o' := by
  induction events generalizing o o' with
  | nil => rfl
  | cons event events ih =>
    cases event with
    | pass now => exact ih _ _ h
    | draw now =>
      obtain ⟨hfirst, hrest⟩ := List.cons.inj h
      rw [grantedAt_draw, grantedAt_draw, hfirst]
      exact congrArg _ (ih _ _ hrest)

/-- Where the idle time refills a bucket, forgetting does not show in what is granted. -/
theorem granted_iff_fits_refilled (hc : 0 ≤ L.capacity) (hr : 0 ≤ L.rate)
    (hfull : L.capacity ≤ L.idle * L.rate) (events : List Event) (now : ℤ)
    (horder : InTime since (events ++ [.draw now])) :
    (step since L (.draw now) (Run.after (step since L) events none)).1 = some true ↔
      Fits L (grantedAt since L events none) now 1 := by
  have hsame := replies_remembered hc hr hfull _ horder none none (.same none) (by simp [Ahead])
    (by simp [Holds])
  rw [replies_snoc, replies_snoc] at hsame
  obtain ⟨hbefore, hlast⟩ := List.append_inj' hsame rfl
  have hiff := granted_iff_fits (L := L.remembering) hr events now horder (le_refl 0)
  rw [← grantedAt_congr events none none hbefore] at hiff
  rw [step, (List.cons.inj hlast).1]
  exact hiff

def Idle (since : ℤ → ℤ → ℤ) (L : Limits K) (t now : ℤ) : Prop :=
  0 < L.idle ∧ L.idle ≤ since now t

theorem Idle.later {t now later : ℤ} (h : Idle since L t now)
    (hnow : Steady since t now) (hlater : Steady since t later) (hle : now ≤ later) :
    Idle since L t later := by
  have hgrown : since now t ≤ since later t := by
    rw [hnow.2, hlater.2]
    omega
  exact ⟨h.1, h.2.trans (by exact_mod_cast hgrown)⟩

/-- A bucket stands for the last of the draws and is not idle; without one they all are. -/
structure Remembers (since : ℤ → ℤ → ℤ) (L : Limits K) (past : List Event) (now : ℤ)
    (o : Option (Bucket K)) : Prop where
  drawn : ∀ b, o = some b → .draw b.seenAt ∈ past ∧ ¬Idle since L b.seenAt now ∧
    ∀ t, .draw t ∈ past → t ≤ b.seenAt
  idle : o = none → ∀ t, .draw t ∈ past → Idle since L t now

omit [IsStrictOrderedRing K] in
theorem Remembers.isSome_iff {past : List Event} {now : ℤ}
    {o : Option (Bucket K)} (h : Remembers since L past now o) :
    o.isSome ↔ ∃ t, .draw t ∈ past ∧ ¬Idle since L t now := by
  cases o with
  | none =>
    simp only [Option.isSome_none, Bool.false_eq_true, false_iff, not_exists, not_and, not_not]
    exact h.idle rfl
  | some b =>
    obtain ⟨hdrawn, hrecent, -⟩ := h.drawn b rfl
    exact ⟨fun _ => ⟨b.seenAt, hdrawn, hrecent⟩, fun _ => rfl⟩

theorem Remembers.forget {past : List Event} {now later : ℤ} {o : Option (Bucket K)}
    (h : Remembers since L past now o) (hle : now ≤ later)
    (hnow : ∀ t, .draw t ∈ past → Steady since t now)
    (hlater : ∀ t, .draw t ∈ past → Steady since t later) :
    Remembers since L past later (forget since L later o) := by
  cases o with
  | none =>
    exact ⟨by simp [TokenBucket.forget],
      fun _ t ht => (h.idle rfl t ht).later (hnow t ht) (hlater t ht) hle⟩
  | some b =>
    obtain ⟨hdrawn, -, hlast⟩ := h.drawn b rfl
    by_cases hidle : Lapsed since L b later
    · rw [forget_lapsed hidle]
      refine ⟨by simp, fun _ t ht => ⟨hidle.1, hidle.2.trans ?_⟩⟩
      have hgap : since later b.seenAt ≤ since later t := by
        rw [(hlater t ht).2, (hlater _ hdrawn).2]
        have hbefore := hlast t ht
        omega
      exact_mod_cast hgap
    · rw [forget_kept hidle]
      constructor
      · rintro a ha
        obtain rfl := Option.some.inj ha
        exact ⟨hdrawn, hidle, hlast⟩
      · simp

theorem Remembers.draw (hself : ∀ t, since t t = 0) (hone : 1 ≤ L.capacity)
    {past : List Event} {now : ℤ} (hpast : ∀ t, .draw t ∈ past → t ≤ now)
    (o : Option (Bucket K)) :
    Remembers since L (past ++ [.draw now]) now (draw since L now o).2 := by
  have hfresh : ∃ tokens, (TokenBucket.draw since L now o).2 = some ⟨tokens, now⟩ := by
    cases o with
    | none =>
      rcases draw_absent since L now with ⟨hsmall, -⟩ | ⟨-, hd⟩
      · exact absurd hone (not_le.mpr hsmall)
      · exact ⟨_, congrArg Prod.snd hd⟩
    | some b =>
      obtain ⟨reply, tokens, hd, -⟩ := draw_present since L now b
      exact ⟨tokens, congrArg Prod.snd hd⟩
  obtain ⟨tokens, hd⟩ := hfresh
  rw [hd]
  constructor
  · rintro b hb
    obtain rfl := Option.some.inj hb
    refine ⟨by simp, not_lapsed_self hself tokens now, ?_⟩
    intro t ht
    rcases List.mem_append.mp ht with hmem | hmem
    · exact hpast t hmem
    · obtain rfl := by simpa using hmem
      exact le_refl _
  · simp

omit [IsStrictOrderedRing K] in
theorem Remembers.pass {past : List Event} {now : ℤ} {o : Option (Bucket K)}
    (h : Remembers since L past now o) : Remembers since L (past ++ [.pass now]) now o := by
  refine ⟨fun b hb => ?_, fun hnone t ht => h.idle hnone t (by simpa using ht)⟩
  obtain ⟨hdrawn, hrecent, hlast⟩ := h.drawn b hb
  exact ⟨by simp [hdrawn], hrecent, fun t ht => hlast t (by simpa using ht)⟩

theorem Remembers.step (hself : ∀ t, since t t = 0) (hone : 1 ≤ L.capacity)
    {past : List Event} {now : ℤ} {event : Event} {o : Option (Bucket K)}
    (h : Remembers since L past now o) (hle : now ≤ event.now)
    (hnow : ∀ t, .draw t ∈ past → Steady since t now)
    (hlater : ∀ t, .draw t ∈ past → Steady since t event.now) :
    Remembers since L (past ++ [event]) event.now (TokenBucket.step since L event o).2 := by
  cases event with
  | pass later => exact (h.forget hle hnow hlater).pass
  | draw later => exact Remembers.draw hself hone (fun t ht => (hlater t ht).1) _

theorem Remembers.run (hself : ∀ t, since t t = 0) (hone : 1 ≤ L.capacity)
    (events : List Event) (event : Event) (past : List Event) (now : ℤ) (o : Option (Bucket K))
    (h : Remembers since L past now o) (horder : InTime since (past ++ (events ++ [event])))
    (hnow : ∀ t, .draw t ∈ past → Steady since t now)
    (hle : ∀ e ∈ events ++ [event], now ≤ e.now) :
    Remembers since L (past ++ (events ++ [event])) event.now
      (Run.after (TokenBucket.step since L) (events ++ [event]) o) := by
  have hahead : ∀ e ∈ events ++ [event], ∀ t, .draw t ∈ past → Steady since t e.now := by
    intro e he t ht
    rw [InTime, List.map_append, List.pairwise_append] at horder
    exact horder.2.2 t (List.mem_map.mpr ⟨.draw t, ht, rfl⟩) e.now (List.mem_map_of_mem he)
  induction events generalizing past now o with
  | nil =>
    exact h.step hself hone (hle event (by simp)) hnow (hahead event (by simp))
  | cons first events ih =>
    have hnext := h.step hself hone (hle first (by simp)) hnow (hahead first (by simp))
    have hsplit : past ++ (first::events ++ [event]) =
        past ++ [first] ++ (events ++ [event]) := by simp
    have hafter : ∀ e ∈ events ++ [event], Steady since first.now e.now := by
      rw [InTime, List.map_append, List.pairwise_append] at horder
      have hrest : InTime since (first::(events ++ [event])) := horder.2.1
      exact hrest.cons.1
    rw [hsplit] at horder ⊢
    refine ih (past ++ [first]) first.now _ hnext horder ?_ (fun e he => (hafter e he).1) ?_
    · intro t ht
      rcases List.mem_append.mp ht with hmem | hmem
      · exact hahead first (by simp) t hmem
      · obtain rfl := by simpa using hmem
        exact ⟨le_refl _, by rw [Event.now, hself, sub_self]⟩
    · intro e he t ht
      rcases List.mem_append.mp ht with hmem | hmem
      · exact hahead e (List.mem_cons_of_mem first he) t hmem
      · obtain rfl := by simpa using hmem
        exact hafter e he

omit [IsStrictOrderedRing K] in
theorem remembers_start (now : ℤ) : Remembers since L [] now none := ⟨by simp, by simp⟩

theorem remembers_after (hself : ∀ t, since t t = 0) (hone : 1 ≤ L.capacity)
    (events : List Event) (event : Event) (horder : InTime since (events ++ [event])) :
    Remembers since L (events ++ [event]) event.now
      (Run.after (step since L) (events ++ [event]) none) := by
  cases events with
  | nil => exact (remembers_start event.now).step hself hone (le_refl _) (by simp) (by simp)
  | cons first events =>
    refine Remembers.run hself hone (first::events) event [] first.now none (remembers_start _)
      horder (by simp) ?_
    intro e he
    rcases List.mem_cons.mp he with rfl | hlater
    · exact le_refl _
    · exact (horder.cons.1 e hlater).1

end TokenBucket
