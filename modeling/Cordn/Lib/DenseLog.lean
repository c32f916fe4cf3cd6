import Mathlib.Data.List.Basic
import Mathlib.Tactic.Common

/-!
# Logs with dense numbers in each part

A log interleaves the entries of many keys. It is dense when the entries of
each key carry the numbers one, two, three and so on. Such a log can be read
piece by piece: the entries numbered above `n` are those behind the first `n`.
-/

set_option autoImplicit false

namespace DenseLog

variable {κ α : Type*} [DecidableEq κ]

def Numbered (num : α → Int) (as : List α) : Prop :=
  as.map num = (List.range as.length).map (fun i : ℕ => (i:Int)+1)

def part (key : α → κ) (k : κ) (l : List α) : List α := l.filter (fun a => decide (key a = k))

def Dense (key : α → κ) (num : α → Int) (l : List α) : Prop :=
  ∀ k, Numbered num (part key k l)

theorem Numbered.nil (num : α → Int) : Numbered num [] := rfl

theorem Numbered.snoc {num : α → Int} {as : List α} (h : Numbered num as) (a : α)
    (ha : num a = as.length+1) : Numbered num (as ++ [a]) := by
  rw [Numbered, List.map_append, h, List.length_append, List.length_singleton, List.range_succ,
    List.map_append]
  simp [ha]

theorem Numbered.getElem {num : α → Int} {as : List α} (h : Numbered num as) (i : ℕ)
    (hi : i < as.length) : num as[i] = i+1 := by
  have hget : (as.map num)[i]? = ((List.range as.length).map (fun i : ℕ => (i:Int)+1))[i]? := by
    rw [h]
  simpa [hi] using hget

theorem numbered_of_getElem {num : α → Int} {as : List α}
    (h : ∀ i, ∀ hi : i < as.length, num as[i] = i+1) : Numbered num as := by
  apply List.ext_getElem
  · simp
  · intro i hi hi'
    simpa using h i (by simpa using hi)

theorem Numbered.of_prefix {num : α → Int} {as bs : List α} (h : Numbered num (as ++ bs)) :
    Numbered num as := by
  apply numbered_of_getElem
  intro i hi
  have hget := h.getElem i (by simp; omega)
  rwa [List.getElem_append_left hi] at hget

theorem Numbered.bounds {num : α → Int} {as : List α} (h : Numbered num as) (a : α)
    (ha : a ∈ as) : 1 ≤ num a ∧ num a ≤ as.length := by
  obtain ⟨i, hi, rfl⟩ := List.getElem_of_mem ha
  rw [h.getElem i hi]
  omega

theorem Numbered.pairwise {num : α → Int} {as : List α} (h : Numbered num as) :
    as.Pairwise (fun a b => num a < num b) := by
  rw [List.pairwise_iff_getElem]
  intro i j hi hj hij
  rw [h.getElem i hi, h.getElem j hj]
  omega

theorem Numbered.filter_above {num : α → Int} {as : List α} (h : Numbered num as) (n : ℕ) :
    as.filter (fun a => decide ((n:Int) < num a)) = as.drop n := by
  have hlow : ∀ a ∈ as.take n, ¬ (n:Int) < num a := by
    intro a ha
    obtain ⟨i, hi, rfl⟩ := List.getElem_of_mem ha
    rw [List.length_take] at hi
    rw [List.getElem_take, h.getElem i (by omega)]
    omega
  have hhigh : ∀ a ∈ as.drop n, (n:Int) < num a := by
    intro a ha
    obtain ⟨i, hi, rfl⟩ := List.getElem_of_mem ha
    rw [List.length_drop] at hi
    rw [List.getElem_drop, h.getElem (n+i) (by omega)]
    omega
  conv_lhs => rw [← List.take_append_drop n as]
  rw [List.filter_append, List.filter_eq_nil_iff.mpr (by simpa using hlow),
    List.filter_eq_self.mpr (by simpa using hhigh), List.nil_append]

theorem Numbered.last {num : α → Int} {as : List α} (h : Numbered num as) (a : α)
    (ha : as.getLast? = some a) : num a = as.length := by
  obtain ⟨xs, rfl⟩ := List.getLast?_eq_some_iff.mp ha
  have hget := h.getElem xs.length (by simp)
  simpa using hget

theorem part_snoc (key : α → κ) (k : κ) (l : List α) (a : α) :
    part key k (l ++ [a]) = part key k l ++ if key a = k then [a] else [] := by
  by_cases h : key a = k <;> simp [part, h]

theorem mem_part (key : α → κ) (k : κ) (l : List α) (a : α) :
    a ∈ part key k l ↔ a ∈ l ∧ key a = k := by
  simp [part]

theorem dense_nil (key : α → κ) (num : α → Int) : Dense key num [] :=
  fun _ => Numbered.nil num

theorem Dense.snoc {key : α → κ} {num : α → Int} {l : List α} (h : Dense key num l) (a : α)
    (ha : num a = (part key (key a) l).length+1) : Dense key num (l ++ [a]) := by
  intro k
  rw [part_snoc]
  split
  · rename_i hk
    exact (h k).snoc a (hk ▸ ha)
  · rw [List.append_nil]
    exact h k

/-- Two entries of one key stand in the order of their numbers. -/
theorem Dense.pairwise {key : α → κ} {num : α → Int} {l : List α} (h : Dense key num l) :
    l.Pairwise (fun a b => key a = key b → num a < num b) := by
  rw [List.pairwise_iff_getElem]
  intro i j hi hj hij hkey
  have hpart := List.pairwise_filter.mp (h (key l[i])).pairwise
  exact List.pairwise_iff_getElem.mp hpart i j hi hj hij (by simp) (by simp [hkey])

theorem Dense.inj {key : α → κ} {num : α → Int} {l : List α} (h : Dense key num l) (a b : α)
    (ha : a ∈ l) (hb : b ∈ l) (hkey : key a = key b) (hnum : num a = num b) : a = b := by
  have hpart := h (key b)
  obtain ⟨i, hi, rfl⟩ := List.getElem_of_mem ((mem_part key (key b) l a).mpr ⟨ha, hkey⟩)
  obtain ⟨j, hj, hjb⟩ := List.getElem_of_mem ((mem_part key (key b) l b).mpr ⟨hb, rfl⟩)
  have hij : num ((part key (key b) l)[i]) = num ((part key (key b) l)[j]) := by rw [hnum, hjb]
  rw [hpart.getElem i hi, hpart.getElem j hj] at hij
  have hsame : i = j := by omega
  subst hsame
  exact hjb

theorem Dense.of_prefix {key : α → κ} {num : α → Int} {l l' : List α}
    (h : Dense key num (l ++ l')) : Dense key num l := by
  intro k
  have hk := h k
  rw [part, List.filter_append] at hk
  exact hk.of_prefix

end DenseLog
