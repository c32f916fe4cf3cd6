import Mathlib.Data.List.DropRight
import Mathlib.Tactic.Common

/-!
# Lists trimmed at both ends

Trimming takes off what satisfies a predicate, from either end. What is left is
the one tight list that stands between two blank ones.
-/

set_option autoImplicit false

namespace Trim

variable {α : Type*} (p : α → Bool)

def trim (l : List α) : List α := (l.dropWhile p).rdropWhile p

def Blank (l : List α) : Prop := ∀ a ∈ l, p a = true

def Tight (l : List α) : Prop := (∀ a ∈ l.head?, p a = false) ∧ ∀ a ∈ l.getLast?, p a = false

variable {p}

theorem Blank.append {l m : List α} (hl : Blank p l) (hm : Blank p m) : Blank p (l ++ m) := by
  intro a ha
  rcases List.mem_append.mp ha with h | h
  · exact hl a h
  · exact hm a h

theorem Blank.dropWhile {l : List α} (h : Blank p l) (m : List α) :
    (l ++ m).dropWhile p = m.dropWhile p :=
  List.dropWhile_append_of_pos h

theorem Blank.rdropWhile {l : List α} (h : Blank p l) (m : List α) :
    (m ++ l).rdropWhile p = m.rdropWhile p := by
  have hreverse : Blank p l.reverse := fun a ha => h a (List.mem_reverse.mp ha)
  rw [List.rdropWhile, List.reverse_append, hreverse.dropWhile, List.rdropWhile]

theorem Tight.rdropWhile {m : List α} (h : Tight p m) : m.rdropWhile p = m := by
  refine List.rdropWhile_eq_self_iff.mpr fun hne => ?_
  have hlast := h.2 (m.getLast hne) (List.getLast?_eq_some_getLast hne)
  simp [hlast]

theorem dropWhile_head (l : List α) : ∀ a ∈ (l.dropWhile p).head?, p a = false := by
  intro a ha
  have hnot := List.head?_dropWhile_not p l
  rw [Option.mem_def.mp ha] at hnot
  simpa using hnot

theorem rdropWhile_last (l : List α) : ∀ a ∈ (l.rdropWhile p).getLast?, p a = false := by
  intro a ha
  rw [List.rdropWhile, List.getLast?_reverse] at ha
  exact dropWhile_head l.reverse a ha

/-- What is trimmed off is blank, and what is left is tight. -/
theorem trim_spec (l : List α) :
    ∃ a b, Blank p a ∧ Blank p b ∧ Tight p (trim p l) ∧ l = a ++ trim p l ++ b := by
  refine ⟨l.takeWhile p, (l.dropWhile p).rtakeWhile p, fun a ha => List.mem_takeWhile_imp ha,
    fun a ha => List.mem_rtakeWhile_imp ha, ⟨fun a ha => ?_, rdropWhile_last _⟩, ?_⟩
  · refine dropWhile_head l a ?_
    have hhead : ((l.dropWhile p).rdropWhile p).head? = some a := ha
    obtain ⟨rest, hrest⟩ := List.rdropWhile_prefix p (l.dropWhile p)
    rw [← hrest, List.head?_append, hhead]
    rfl
  · rw [trim, List.append_assoc, List.rdropWhile_append_rtakeWhile,
      List.takeWhile_append_dropWhile]

theorem trim_eq {a m b : List α} (ha : Blank p a) (hm : Tight p m) (hb : Blank p b) :
    trim p (a ++ m ++ b) = m := by
  rw [trim, List.append_assoc, ha.dropWhile]
  cases m with
  | nil =>
    rw [List.nil_append, List.dropWhile_eq_nil_iff.mpr hb, List.rdropWhile_nil]
  | cons x m =>
    have hx : p x = false := hm.1 x rfl
    rw [List.cons_append, List.dropWhile_cons_of_neg (by simp [hx]), ← List.cons_append,
      hb.rdropWhile, hm.rdropWhile]

theorem Tight.front {a m : List α} (h : Tight p (a ++ m)) (ha : Blank p a) : a = [] := by
  cases a with
  | nil => rfl
  | cons x a =>
    have hx : p x = false := h.1 x rfl
    rw [ha x (by simp)] at hx
    cases hx

theorem Tight.back {m b : List α} (h : Tight p (m ++ b)) (hb : Blank p b) : b = [] := by
  rcases List.eq_nil_or_concat' b with rfl | ⟨b, x, rfl⟩
  · rfl
  · have hx : p x = false := h.2 x (by simp)
    rw [hb x (by simp)] at hx
    cases hx

end Trim
