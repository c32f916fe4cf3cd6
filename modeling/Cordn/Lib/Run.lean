import Mathlib.Data.List.Basic
import Mathlib.Tactic.Common

/-!
# Runs of a state machine

A machine either answers every input and moves on, or takes the steps that are
enabled. The rules here carry an invariant through a run and compare the
answers of two machines that a relation links.
-/

set_option autoImplicit false

namespace Run

variable {ι σ τ ρ ω : Type*}

def after (step : ι → σ → ρ × σ) : List ι → σ → σ
  | [], s => s
  | i::is, s => after step is (step i s).2

def answers (step : ι → σ → ρ × σ) : List ι → σ → List ρ
  | [], _ => []
  | i::is, s => (step i s).1::answers step is (step i s).2

/-- Every input of the run is admissible in the state that receives it. -/
def Along (ok : ι → σ → Prop) (step : ι → σ → ρ × σ) : List ι → σ → Prop
  | [], _ => True
  | i::is, s => ok i s ∧ Along ok step is (step i s).2

instance decidableAlong (ok : ι → σ → Prop) [∀ i s, Decidable (ok i s)] (step : ι → σ → ρ × σ) :
    (is : List ι) → (s : σ) → Decidable (Along ok step is s)
  | [], _ => .isTrue trivial
  | i::is, s =>
    have := decidableAlong ok step is (step i s).2
    inferInstanceAs (Decidable (ok i s ∧ Along ok step is (step i s).2))

theorem after_append (step : ι → σ → ρ × σ) (is js : List ι) (s : σ) :
    after step (is++js) s = after step js (after step is s) := by
  induction is generalizing s with
  | nil => rfl
  | cons i is ih => exact ih _

theorem answers_append (step : ι → σ → ρ × σ) (is js : List ι) (s : σ) :
    answers step (is++js) s = answers step is s ++ answers step js (after step is s) := by
  induction is generalizing s with
  | nil => rfl
  | cons i is ih => exact congrArg _ (ih _)

theorem invariant (step : ι → σ → ρ × σ) (I : σ → Prop)
    (h : ∀ i s, I s → I (step i s).2) (is : List ι) (s : σ) (hs : I s) : I (after step is s) := by
  induction is generalizing s with
  | nil => exact hs
  | cons i is ih => exact ih _ (h i s hs)

theorem along_true (step : ι → σ → ρ × σ) (is : List ι) (s : σ) :
    Along (fun _ _ => True) step is s := by
  induction is generalizing s with
  | nil => trivial
  | cons i is ih => exact ⟨trivial, ih _⟩

theorem along_part {σ' ρ' : Type*} (step : ι → σ → ρ × σ) (step' : ι → σ' → ρ' × σ')
    (part : σ → σ') (h : ∀ i s, part (step i s).2 = (step' i (part s)).2) (ok : ι → σ' → Prop)
    (is : List ι) (s : σ) :
    Along (fun i s => ok i (part s)) step is s ↔ Along ok step' is (part s) := by
  induction is generalizing s with
  | nil => exact Iff.rfl
  | cons i is ih =>
    rw [Along, Along, ih, h]

/-- All steps of a run are `ok`, or one of them is the last that is not. -/
theorem along_or_last (ok : ι → σ → Prop) (step : ι → σ → ρ × σ) (is : List ι) (s : σ) :
    Along ok step is s ∨ ∃ before i later, is = before ++ i::later ∧
      ¬ok i (after step before s) ∧ Along ok step later (step i (after step before s)).2 := by
  induction is generalizing s with
  | nil => exact Or.inl trivial
  | cons i is ih =>
    rcases ih (step i s).2 with hall | ⟨before, j, later, rfl, hj, hlater⟩
    · by_cases hi : ok i s
      · exact Or.inl ⟨hi, hall⟩
      · exact Or.inr ⟨[], i, is, rfl, hi, hall⟩
    · exact Or.inr ⟨i::before, j, later, rfl, hj, hlater⟩

theorem along_append (ok : ι → σ → Prop) (step : ι → σ → ρ × σ) (is js : List ι) (s : σ) :
    Along ok step (is ++ js) s ↔ Along ok step is s ∧ Along ok step js (after step is s) := by
  induction is generalizing s with
  | nil => simp [Along, after]
  | cons i is ih => rw [List.cons_append, Along, ih, Along, and_assoc, after]

theorem along_iff (ok : ι → σ → Prop) (step : ι → σ → ρ × σ) (is : List ι) (s : σ) :
    Along ok step is s ↔
      ∀ before i later, is = before ++ i::later → ok i (after step before s) := by
  constructor
  · rintro h before i later rfl
    exact ((along_append ok step before (i::later) s).mp h).2.1
  · intro h
    rcases along_or_last ok step is s with hall | ⟨before, i, later, rfl, hi, -⟩
    · exact hall
    · exact absurd (h before i later rfl) hi

theorem after_congr {ρ' : Type*} (step : ι → σ → ρ × σ) (step' : ι → σ → ρ' × σ)
    (h : ∀ i s, (step i s).2 = (step' i s).2) (is : List ι) (s : σ) :
    after step is s = after step' is s := by
  induction is generalizing s with
  | nil => rfl
  | cons i is ih => rw [after, after, h, ih]

/-- Machines linked by `R` give equal answers, as long as every input is
admissible for the second. -/
theorem simulation (step : ι → σ → ρ × σ) (step' : ι → τ → ρ × τ) (R : σ → τ → Prop)
    (ok : ι → τ → Prop)
    (h : ∀ i s t, R s t → ok i t →
      (step i s).1 = (step' i t).1 ∧ R (step i s).2 (step' i t).2)
    (is : List ι) (s : σ) (t : τ) (hR : R s t) (hok : Along ok step' is t) :
    answers step is s = answers step' is t ∧ R (after step is s) (after step' is t) := by
  induction is generalizing s t with
  | nil => exact ⟨rfl, hR⟩
  | cons i is ih =>
    obtain ⟨hans, hnext⟩ := h i s t hR hok.1
    obtain ⟨hrest, hend⟩ := ih _ _ hnext hok.2
    refine ⟨?_, hend⟩
    rw [answers, answers, hans, hrest]

theorem simulation_rel {ρ' : Type*} (step : ι → σ → ρ × σ) (step' : ι → τ → ρ' × τ)
    (R : σ → τ → Prop) (A : ρ → ρ' → Prop) (ok : ι → τ → Prop)
    (h : ∀ i s t, R s t → ok i t →
      A (step i s).1 (step' i t).1 ∧ R (step i s).2 (step' i t).2)
    (is : List ι) (s : σ) (t : τ) (hR : R s t) (hok : Along ok step' is t) :
    List.Forall₂ A (answers step is s) (answers step' is t) ∧
      R (after step is s) (after step' is t) := by
  induction is generalizing s t with
  | nil => exact ⟨.nil, hR⟩
  | cons i is ih =>
    obtain ⟨hans, hnext⟩ := h i s t hR hok.1
    obtain ⟨hrest, hend⟩ := ih _ _ hnext hok.2
    exact ⟨.cons hans hrest, hend⟩

def Throughout (P : σ → Prop) (step : ι → σ → ρ × σ) : List ι → σ → Prop
  | [], s => P s
  | i::is, s => P s ∧ Throughout P step is (step i s).2

theorem Throughout.first {P : σ → Prop} {step : ι → σ → ρ × σ} {is : List ι} {s : σ}
    (h : Throughout P step is s) : P s := by
  cases is with
  | nil => exact h
  | cons i is => exact h.1

theorem Throughout.along {P : σ → Prop} {step : ι → σ → ρ × σ} {is : List ι} {s : σ}
    (h : Throughout P step is s) : Along (fun _ s => P s) step is s := by
  induction is generalizing s with
  | nil => trivial
  | cons i is ih => exact ⟨h.1, ih h.2⟩

theorem throughout_of_along (step : ι → σ → ρ × σ) (P : σ → Prop) (ok : ι → σ → Prop)
    (h : ∀ i s, P s → ok i s → P (step i s).2) (is : List ι) (s : σ)
    (hok : Along ok step is s) (hs : P s) : Throughout P step is s := by
  induction is generalizing s with
  | nil => exact hs
  | cons i is ih => exact ⟨hs, ih _ hok.2 (h i s hs hok.1)⟩

theorem Throughout.mono {P Q : σ → Prop} {step : ι → σ → ρ × σ} {is : List ι} {s : σ}
    (h : Throughout P step is s) (hPQ : ∀ s, P s → Q s) : Throughout Q step is s := by
  induction is generalizing s with
  | nil => exact hPQ s h
  | cons i is ih => exact ⟨hPQ s h.1, ih h.2⟩

theorem Throughout.congr {I P Q : σ → Prop} {step : ι → σ → ρ × σ} {is : List ι} {s : σ}
    (h : Throughout I step is s) (hPQ : ∀ s, I s → (P s ↔ Q s)) :
    Throughout P step is s ↔ Throughout Q step is s := by
  induction is generalizing s with
  | nil => exact hPQ s h
  | cons i is ih => exact and_congr (hPQ s h.1) (ih h.2)

theorem throughout_of_invariant (step : ι → σ → ρ × σ) (I P : σ → Prop)
    (h : ∀ i s, I s → I (step i s).2) (hP : ∀ s, I s → P s) (is : List ι) (s : σ) (hs : I s) :
    Throughout P step is s := by
  induction is generalizing s with
  | nil => exact hP s hs
  | cons i is ih => exact ⟨hP s hs, ih _ (h i s hs)⟩

/-- A property that a step breaks exactly when it is `bad` holds throughout a
run exactly when no step of the run is. -/
theorem throughout_iff_along (step : ι → σ → ρ × σ) (I P : σ → Prop) (ok bad : ι → σ → Prop)
    (hI : ∀ i s, I s → ok i s → I (step i s).2)
    (hP : ∀ i s, I s → ok i s → P s → (P (step i s).2 ↔ ¬bad i s))
    (is : List ι) (s : σ) (hok : Along ok step is s) (hi : I s) (hs : P s) :
    Throughout P step is s ↔ Along (fun i s => ¬bad i s) step is s := by
  induction is generalizing s with
  | nil => exact ⟨fun _ => trivial, fun _ => hs⟩
  | cons i is ih =>
    have hnext := hP i s hi hok.1 hs
    have hrest := ih (step i s).2 hok.2 (hI i s hi hok.1)
    constructor
    · rintro ⟨-, h⟩
      exact ⟨hnext.mp h.first, (hrest h.first).mp h⟩
    · rintro ⟨hgood, h⟩
      have hafter := hnext.mpr hgood
      exact ⟨hs, (hrest hafter).mpr h⟩

def observations (step : ι → σ → ρ × σ) (view : ι → ρ → Option ω) : List ι → σ → List ω
  | [], _ => []
  | i::is, s => (view i (step i s).1).toList ++ observations step view is (step i s).2

theorem observations_append (step : ι → σ → ρ × σ) (view : ι → ρ → Option ω) (is js : List ι)
    (s : σ) : observations step view (is++js) s =
      observations step view is s ++ observations step view js (after step is s) := by
  induction is generalizing s with
  | nil => rfl
  | cons i is ih => rw [List.cons_append, observations, observations, ih, List.append_assoc, after]

theorem mem_observations {step : ι → σ → ρ × σ} {view : ι → ρ → Option ω} {is : List ι} {s : σ}
    {w : ω} (h : w ∈ observations step view is s) :
    ∃ before i later, is = before ++ i::later ∧
      view i (step i (after step before s)).1 = some w := by
  induction is generalizing s with
  | nil => simp [observations] at h
  | cons i is ih =>
    rw [observations, List.mem_append, Option.mem_toList] at h
    rcases h with hfirst | hrest
    · exact ⟨[], i, is, rfl, hfirst⟩
    · obtain ⟨before, j, later, rfl, hj⟩ := ih hrest
      exact ⟨i::before, j, later, rfl, hj⟩

theorem observations_all (step : ι → σ → ρ × σ) (view : ι → ρ → Option ρ) (is : List ι) (s : σ)
    (h : ∀ i ∈ is, ∀ a, view i a = some a) : observations step view is s = answers step is s := by
  induction is generalizing s with
  | nil => rfl
  | cons i is ih =>
    rw [observations, answers, h i (by simp), ih _ (fun j hj => h j (List.mem_cons_of_mem i hj))]
    rfl

theorem observations_of_answers {τ : Type*} {step : ι → σ → ρ × σ} {step' : ι → τ → ρ × τ}
    (view : ι → ρ → Option ω) (is : List ι) (s : σ) (t : τ)
    (h : answers step is s = answers step' is t) :
    observations step view is s = observations step' view is t := by
  induction is generalizing s t with
  | nil => rfl
  | cons i is ih =>
    obtain ⟨hhead, hrest⟩ := List.cons.inj h
    rw [observations, observations, hhead, ih _ _ hrest]

theorem answers_of_observations {τ κ : Type*} [DecidableEq κ] {step : ι → σ → ρ × σ}
    {step' : ι → τ → ρ × τ} (asking : ι → κ) (is : List ι) (s : σ) (t : τ)
    (h : ∀ k, observations step (fun i a => if asking i = k then some a else none) is s =
      observations step' (fun i a => if asking i = k then some a else none) is t) :
    answers step is s = answers step' is t := by
  induction is generalizing s t with
  | nil => rfl
  | cons i is ih =>
    have hown := h (asking i)
    simp only [observations, if_true, Option.toList_some, List.singleton_append,
      List.cons.injEq] at hown
    rw [answers, answers, hown.1]
    refine congrArg _ (ih _ _ fun k => ?_)
    have hk := h k
    simp only [observations, hown.1] at hk
    exact List.append_cancel_left hk

/-- Two machines show the same, the second on fewer inputs or others, if a relation
between them is kept: an input that is dropped shows nothing, one that is replaced
shows what its replacement shows. -/
theorem observations_filterMap {ι' σ' ρ' : Type*} (step : ι → σ → ρ × σ)
    (step' : ι' → σ' → ρ' × σ') (view : ι → ρ → Option ω) (view' : ι' → ρ' → Option ω)
    (keep : ι → Option ι') (ok : ι → Prop) (R : σ → σ' → Prop)
    (herase : ∀ i s t, ok i → R s t → keep i = none →
      (∀ a, view i a = none) ∧ R (step i s).2 t)
    (hkeep : ∀ i j s t, ok i → R s t → keep i = some j →
      view i (step i s).1 = view' j (step' j t).1 ∧ R (step i s).2 (step' j t).2)
    (is : List ι) (s : σ) (t : σ') (hok : ∀ i ∈ is, ok i) (hR : R s t) :
    observations step view is s = observations step' view' (is.filterMap keep) t := by
  induction is generalizing s t with
  | nil => rfl
  | cons i is ih =>
    obtain ⟨hfirst, hrest⟩ := List.forall_mem_cons.mp hok
    cases hi : keep i with
    | none =>
      obtain ⟨hview, hnext⟩ := herase i s t hfirst hR hi
      rw [List.filterMap_cons_none hi, observations, hview, Option.toList_none, List.nil_append]
      exact ih _ _ hrest hnext
    | some j =>
      obtain ⟨hview, hnext⟩ := hkeep i j s t hfirst hR hi
      rw [List.filterMap_cons_some hi, observations, observations, hview, ih _ _ hrest hnext]

theorem observations_map {ι' σ' ρ' : Type*} (step : ι → σ → ρ × σ)
    (step' : ι' → σ' → ρ' × σ') (view : ι → ρ → Option ω) (view' : ι' → ρ' → Option ω)
    (f : ι → ι') (R : σ → σ' → Prop)
    (h : ∀ i s t, R s t → view i (step i s).1 = view' (f i) (step' (f i) t).1 ∧
      R (step i s).2 (step' (f i) t).2)
    (is : List ι) (s : σ) (t : σ') (hR : R s t) :
    observations step view is s = observations step' view' (is.map f) t := by
  rw [← List.filterMap_eq_map]
  refine observations_filterMap step step' view view' _ (fun _ => True) R (by simp) ?_ is s t
    (fun _ _ => trivial) hR
  intro i j s t _ hR hj
  obtain rfl := Option.some.inj hj
  exact h i s t hR

theorem after_map {ι' σ' ρ' : Type*} (step : ι → σ → ρ × σ) (step' : ι' → σ' → ρ' × σ')
    (f : ι → ι') (R : σ → σ' → Prop) (h : ∀ i s t, R s t → R (step i s).2 (step' (f i) t).2)
    (is : List ι) (s : σ) (t : σ') (hR : R s t) :
    R (after step is s) (after step' (is.map f) t) := by
  induction is generalizing s t with
  | nil => exact hR
  | cons i is ih => exact ih _ _ (h i s t hR)

def run (step : ι → σ → Option σ) : List ι → σ → Option σ
  | [], s => some s
  | i::is, s => (step i s).bind (run step is)

def Every (ok : ι → σ → Prop) (step : ι → σ → Option σ) : List ι → σ → Prop
  | [], _ => True
  | i::is, s => ok i s ∧ ∀ s', step i s = some s' → Every ok step is s'

instance decidableEvery (ok : ι → σ → Prop) [∀ i s, Decidable (ok i s)] (step : ι → σ → Option σ) :
    (is : List ι) → (s : σ) → Decidable (Every ok step is s)
  | [], _ => .isTrue trivial
  | i::is, s =>
    have := decidableEvery ok step is
    inferInstanceAs (Decidable (ok i s ∧ ∀ s' ∈ step i s, Every ok step is s'))

theorem run_cons (step : ι → σ → Option σ) (i : ι) (is : List ι) (s s' : σ) :
    run step (i::is) s = some s' ↔ ∃ m, step i s = some m ∧ run step is m = some s' := by
  simp [run, Option.bind_eq_some_iff]

theorem run_invariant (step : ι → σ → Option σ) (I : σ → Prop)
    (h : ∀ i s s', I s → step i s = some s' → I s') (is : List ι) (s s' : σ) (hs : I s)
    (hr : run step is s = some s') : I s' := by
  induction is generalizing s with
  | nil =>
    simp only [run, Option.some.injEq] at hr
    exact hr ▸ hs
  | cons i is ih =>
    obtain ⟨m, hm, hrest⟩ := (run_cons step i is s s').mp hr
    exact ih m (h i s m hs hm) hrest

theorem every_of_forall (ok : ι → Prop) (step : ι → σ → Option σ) (is : List ι) (s : σ)
    (h : ∀ i ∈ is, ok i) : Every (fun i _ => ok i) step is s := by
  induction is generalizing s with
  | nil => trivial
  | cons i is ih => exact ⟨h i (by simp), fun s' _ => ih s' (fun j hj => h j (by simp [hj]))⟩

/-- An invariant that each step keeps under a condition holds after every run
whose steps all meet the condition. -/
theorem every_invariant (step : ι → σ → Option σ) (ok : ι → σ → Prop) (I : σ → Prop)
    (h : ∀ i s s', I s → ok i s → step i s = some s' → I s') (is : List ι) (s s' : σ)
    (hs : I s) (hok : Every ok step is s) (hr : run step is s = some s') : I s' := by
  induction is generalizing s with
  | nil =>
    simp only [run, Option.some.injEq] at hr
    exact hr ▸ hs
  | cons i is ih =>
    obtain ⟨m, hm, hrest⟩ := (run_cons step i is s s').mp hr
    exact ih m (h i s m hs hok.1 hm) (hok.2 m hm) hrest

end Run
