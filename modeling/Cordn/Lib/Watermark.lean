import Mathlib.Data.List.Basic
import Mathlib.Order.MinMax
import Mathlib.Tactic.Common

/-!
# Streams filtered by a watermark

Each key has a watermark, the highest number passed on so far. An element
passes when its number lies above its key's watermark, which it then raises.
The results say what passes: everything, when each key's numbers come in
increasing order and start above its watermark.
-/

set_option autoImplicit false

namespace Watermark

variable {κ α ν : Type*} [DecidableEq κ] [LinearOrder ν]

section Filter

variable (key : α → κ) (num : α → ν)

def raise (mark : κ → ν) (a : α) : κ → ν :=
  fun k => if mark (key a) < num a ∧ k = key a then num a else mark k

def passing (mark : κ → ν) : List α → List α
  | [] => []
  | a::as =>
    if mark (key a) < num a then a::passing (raise key num mark a) as
    else passing (raise key num mark a) as

def marks (mark : κ → ν) (as : List α) : κ → ν := as.foldl (raise key num) mark

end Filter

variable {key : α → κ} {num : α → ν}

theorem raise_self (mark : κ → ν) (a : α) :
    raise key num mark a (key a) = max (mark (key a)) (num a) := by
  by_cases h : mark (key a) < num a
  · simp [raise, h, max_eq_right h.le]
  · simp [raise, h, max_eq_left (not_lt.mp h)]

theorem raise_other (mark : κ → ν) (a : α) (k : κ) (h : k ≠ key a) :
    raise key num mark a k = mark k := by
  simp [raise, h]

theorem le_raise (mark : κ → ν) (a : α) (k : κ) : mark k ≤ raise key num mark a k := by
  by_cases h : k = key a
  · rw [h, raise_self]
    exact le_max_left _ _
  · rw [raise_other mark a k h]

@[simp] theorem marks_nil (mark : κ → ν) : marks key num mark [] = mark := rfl

@[simp] theorem marks_cons (mark : κ → ν) (a : α) (as : List α) :
    marks key num mark (a::as) = marks key num (raise key num mark a) as := rfl

theorem marks_append (mark : κ → ν) (as bs : List α) :
    marks key num mark (as ++ bs) = marks key num (marks key num mark as) bs :=
  List.foldl_append

theorem passing_append (mark : κ → ν) (as bs : List α) :
    passing key num mark (as ++ bs) =
      passing key num mark as ++ passing key num (marks key num mark as) bs := by
  induction as generalizing mark with
  | nil => rfl
  | cons a as ih =>
    simp only [List.cons_append, passing, marks_cons, ih]
    split <;> simp

theorem le_marks (mark : κ → ν) (as : List α) (k : κ) : mark k ≤ marks key num mark as k := by
  induction as generalizing mark with
  | nil => exact le_refl _
  | cons a as ih => exact (le_raise mark a k).trans (ih _)

theorem num_le_marks (mark : κ → ν) (as : List α) (a : α) (ha : a ∈ as) :
    num a ≤ marks key num mark as (key a) := by
  induction as generalizing mark with
  | nil => simp at ha
  | cons b as ih =>
    rcases List.mem_cons.mp ha with rfl | ha
    · refine le_trans ?_ (le_marks _ as _)
      rw [raise_self]
      exact le_max_right _ _
    · exact ih _ ha

theorem marks_le (mark : κ → ν) (as : List α) (k : κ) (n : ν) (hk : mark k ≤ n)
    (has : ∀ a ∈ as, key a = k → num a ≤ n) : marks key num mark as k ≤ n := by
  induction as generalizing mark with
  | nil => exact hk
  | cons a as ih =>
    apply ih
    · by_cases h : k = key a
      · subst h
        rw [raise_self]
        exact max_le hk (has a (by simp) rfl)
      · rwa [raise_other mark a k h]
    · exact fun b hb => has b (List.mem_cons_of_mem _ hb)

theorem passing_sublist (mark : κ → ν) (as : List α) :
    (passing key num mark as).Sublist as := by
  induction as generalizing mark with
  | nil => exact List.Sublist.slnil
  | cons a as ih =>
    rw [passing]
    split
    · exact (ih _).cons_cons a
    · exact (ih _).cons a

theorem passing_subset (mark : κ → ν) (as : List α) : passing key num mark as ⊆ as :=
  (passing_sublist mark as).subset

theorem lt_of_passing (mark : κ → ν) (as : List α) (a : α) (ha : a ∈ passing key num mark as) :
    mark (key a) < num a := by
  induction as generalizing mark with
  | nil => simp [passing] at ha
  | cons b as ih =>
    rw [passing] at ha
    split at ha
    · rename_i hb
      rcases List.mem_cons.mp ha with rfl | ha
      · exact hb
      · exact lt_of_le_of_lt (le_raise mark b _) (ih _ ha)
    · exact lt_of_le_of_lt (le_raise mark b _) (ih _ ha)

def Increasing (key : α → κ) (num : α → ν) (as : List α) : Prop :=
  as.Pairwise (fun a b => key a = key b → num a < num b)

theorem increasing_passing (mark : κ → ν) (as : List α) :
    Increasing key num (passing key num mark as) := by
  induction as generalizing mark with
  | nil => exact List.Pairwise.nil
  | cons a as ih =>
    rw [passing]
    split
    · refine List.pairwise_cons.mpr ⟨fun b hb hk => ?_, ih _⟩
      have hlt := lt_of_passing _ as b hb
      rw [← hk, raise_self] at hlt
      exact lt_of_le_of_lt (le_max_right _ _) hlt
    · exact ih _

/-- Of an increasing stream what passes is what lies above the first marks. -/
theorem passing_increasing (mark : κ → ν) (as : List α) (h : Increasing key num as) :
    passing key num mark as = as.filter (fun a => decide (mark (key a) < num a)) := by
  induction as generalizing mark with
  | nil => rfl
  | cons a as ih =>
    obtain ⟨ha, has⟩ := List.pairwise_cons.mp h
    have hrest : as.filter (fun b => decide (raise key num mark a (key b) < num b)) =
        as.filter (fun b => decide (mark (key b) < num b)) := by
      apply List.filter_congr
      intro b hb
      by_cases hk : key b = key a
      · have hlt := ha b hb hk.symm
        simp only [hk, raise_self, max_lt_iff, hlt, and_true]
      · rw [raise_other mark a _ hk]
    rw [passing, ih _ has, hrest]
    by_cases hm : mark (key a) < num a <;> simp [hm]

theorem passing_congr (mark mark' : κ → ν) (as : List α)
    (h : ∀ a ∈ as, mark (key a) = mark' (key a)) :
    passing key num mark as = passing key num mark' as := by
  induction as generalizing mark mark' with
  | nil => rfl
  | cons a as ih =>
    have ha := h a (by simp)
    have hrest : passing key num (raise key num mark a) as =
        passing key num (raise key num mark' a) as := by
      apply ih
      intro b hb
      by_cases hk : key b = key a
      · rw [hk, raise_self, raise_self, ha]
      · rw [raise_other mark a _ hk, raise_other mark' a _ hk, h b (by simp [hb])]
    rw [passing, passing, ha, hrest]

theorem passing_filter (mark : κ → ν) (as : List α) (k : κ) :
    (passing key num mark as).filter (fun a => decide (key a = k)) =
      passing key num mark (as.filter (fun a => decide (key a = k))) := by
  induction as generalizing mark with
  | nil => rfl
  | cons a as ih =>
    by_cases hk : key a = k
    · rw [List.filter_cons_of_pos (by simpa using hk), passing, passing, ← ih]
      split
      · rw [List.filter_cons_of_pos (by simpa using hk)]
      · rfl
    · have hskip : passing key num (raise key num mark a)
          (as.filter (fun a => decide (key a = k))) =
          passing key num mark (as.filter (fun a => decide (key a = k))) := by
        apply passing_congr
        intro b hb
        have hb' : key b = k := by simpa using (List.mem_filter.mp hb).2
        exact raise_other mark a _ (fun he => hk (he.symm.trans hb'))
      rw [List.filter_cons_of_neg (by simpa using hk), passing, ← hskip, ← ih]
      split
      · rw [List.filter_cons_of_neg (by simpa using hk)]
      · rfl

theorem passing_covered (mark : κ → ν) (as : List α) (h : ∀ a ∈ as, num a ≤ mark (key a)) :
    passing key num mark as = [] := by
  apply List.eq_nil_iff_forall_not_mem.mpr
  intro a ha
  exact absurd (lt_of_passing mark as a ha) (not_lt.mpr (h a (passing_subset mark as ha)))

/-- A list of one key replayed several times, each time above another number: the
first round that is not empty passes, above its number and the mark, and no other. -/
theorem passing_rounds (mark : κ → ν) (as : List α) (k : κ) (hk : ∀ a ∈ as, key a = k)
    (h : as.Pairwise (fun a b => num a < num b)) (ts : List ν) :
    passing key num mark (ts.flatMap (fun t => as.filter (fun a => decide (t < num a)))) =
      match ts.find? (fun t => as.any (fun a => decide (t < num a))) with
      | none => []
      | some t => as.filter (fun a => decide (max t (mark k) < num a)) := by
  induction ts with
  | nil => rfl
  | cons t ts ih =>
    rw [List.flatMap_cons]
    cases hany : as.any (fun a => decide (t < num a)) with
    | false =>
      have hnone : as.filter (fun a => decide (t < num a)) = [] := by
        rw [List.filter_eq_nil_iff]
        exact List.any_eq_false.mp hany
      rw [hnone, List.nil_append, ih, List.find?_cons_of_neg (by simp [hany])]
    | true =>
      have hround : Increasing key num (as.filter (fun a => decide (t < num a))) := by
        rw [Increasing]
        refine (h.sublist List.filter_sublist).imp ?_
        intro a b hab _
        exact hab
      have hrest : passing key num
          (marks key num mark (as.filter (fun a => decide (t < num a))))
          (ts.flatMap (fun t => as.filter (fun a => decide (t < num a)))) = [] := by
        apply passing_covered
        intro b hb
        obtain ⟨t', -, hb⟩ := List.mem_flatMap.mp hb
        have hbas := List.mem_of_mem_filter hb
        have hmarked : ∀ a ∈ as, t < num a →
            num a ≤ marks key num mark (as.filter (fun a => decide (t < num a))) (key b) := by
          intro a ha hta
          rw [hk b hbas, ← hk a ha]
          exact num_le_marks mark _ a (List.mem_filter.mpr ⟨ha, decide_eq_true hta⟩)
        by_cases htb : t < num b
        · exact hmarked b hbas htb
        · obtain ⟨a, ha, hta⟩ := List.any_eq_true.mp hany
          have hta' : t < num a := of_decide_eq_true hta
          exact ((not_lt.mp htb).trans hta'.le).trans (hmarked a ha hta')
      rw [passing_append, hrest, List.append_nil, passing_increasing _ _ hround,
        List.find?_cons_of_pos (by simpa using hany), List.filter_filter]
      apply List.filter_congr
      intro a ha
      simp only [hk a ha, max_lt_iff, Bool.decide_and]
      exact Bool.and_comm _ _

end Watermark
