import Mathlib.Data.List.Nodup
import Mathlib.Data.List.Basic
import Mathlib.Data.List.Perm.Basic
import Mathlib.Tactic.Common

/-!
# Taking elements out of a list by key

A removal by key takes the first element with that key. Where keys are distinct it
takes every element with it, and a batch of removals is one filter.
-/

set_option autoImplicit false

namespace KeyedList

variable {α κ : Type*} [DecidableEq κ]

def hasKey (key : α → κ) (k : κ) (a : α) : Bool := decide (key a = k)

/-- One removal for each key, in order. -/
def takeOut (key : α → κ) (ks : List κ) (l : List α) : List α :=
  ks.foldl (fun l k => l.eraseP (hasKey key k)) l

variable (key : α → κ)

@[simp] theorem takeOut_nil (l : List α) : takeOut key [] l = l := rfl

@[simp] theorem takeOut_cons (k : κ) (ks : List κ) (l : List α) :
    takeOut key (k::ks) l = takeOut key ks (l.eraseP (hasKey key k)) := rfl

theorem takeOut_sublist (ks : List κ) (l : List α) : (takeOut key ks l).Sublist l := by
  induction ks generalizing l with
  | nil => exact List.Sublist.refl l
  | cons k ks ih => exact (ih _).trans List.eraseP_sublist

theorem filter_split (xs ys : List α) (a : α) (h : ((xs ++ a::ys).map key).Nodup) :
    (xs ++ a::ys).filter (fun b => !hasKey key (key a) b) = xs ++ ys := by
  have hkeep : ∀ zs : List α, (∀ z ∈ zs, key z ≠ key a) →
      zs.filter (fun b => !hasKey key (key a) b) = zs := by
    intro zs hz
    apply List.filter_eq_self.mpr
    intro z hm
    simpa [hasKey] using hz z hm
  rw [List.map_append, List.map_cons, List.nodup_append] at h
  obtain ⟨-, hc, hd⟩ := h
  have hxs : ∀ z ∈ xs, key z ≠ key a := fun z hz => hd _ (List.mem_map_of_mem hz) _ (by simp)
  have hys : ∀ z ∈ ys, key z ≠ key a :=
    fun z hz he => (List.nodup_cons.mp hc).1 (he ▸ List.mem_map_of_mem hz)
  rw [List.filter_append, List.filter_cons, hkeep xs hxs, hkeep ys hys]
  simp [hasKey]

theorem eraseP_eq_filter (l : List α) (h : (l.map key).Nodup) (k : κ) :
    l.eraseP (hasKey key k) = l.filter (fun a => !hasKey key k a) := by
  cases hf : l.find? (hasKey key k) with
  | none =>
    have hnone := List.find?_eq_none.mp hf
    rw [List.eraseP_of_forall_not hnone]
    exact (List.filter_eq_self.mpr (by simpa using hnone)).symm
  | some a =>
    obtain ⟨ha, xs, ys, rfl, hxs⟩ := List.find?_eq_some_iff_append.mp hf
    have hk : key a = k := by simpa [hasKey] using ha
    rw [List.eraseP_append_right _ (by simpa using hxs), List.eraseP_cons_of_pos ha, ← hk,
      filter_split key xs ys a h]

theorem takeOut_eq_filter (ks : List κ) (l : List α) (h : (l.map key).Nodup) :
    takeOut key ks l = l.filter (fun a => decide (key a ∉ ks)) := by
  induction ks generalizing l with
  | nil => simp
  | cons k ks ih =>
    have hrest : ((l.filter (fun a => !hasKey key k a)).map key).Nodup :=
      h.sublist (List.filter_sublist.map _)
    rw [takeOut_cons, eraseP_eq_filter key l h, ih _ hrest, List.filter_filter]
    apply List.filter_congr
    intro a _
    simp [hasKey, Bool.and_comm]

end KeyedList
