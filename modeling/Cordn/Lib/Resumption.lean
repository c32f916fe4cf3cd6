import Mathlib.Data.List.Basic
import Mathlib.Order.MinMax
import Mathlib.Tactic.Common

/-!
# Reading a numbered log in pieces

A reader that lost its connection asks for what is numbered above the last element
it saw. What it reads, piece by piece, is one beginning of the log.
-/

set_option autoImplicit false

namespace Resumption

variable {α κ : Type*} (num : α → κ)

def lastSeen (c : Option κ) (piece : List α) : Option κ := (piece.getLast?.map num).or c

variable {num} in
@[simp] theorem lastSeen_nil (c : Option κ) : lastSeen num c [] = c := rfl

variable {num} in
@[simp] theorem lastSeen_snoc (c : Option κ) (piece : List α) (a : α) :
    lastSeen num c (piece ++ [a]) = some (num a) := by
  simp [lastSeen]

variable [LinearOrder κ]

def beyond (c : Option κ) (a : α) : Bool := c.all (fun c => decide (c < num a))

/-- Each piece is a beginning of what lies above the cursor that the ones before left. -/
def Pieces (log : List α) : Option κ → List (List α) → Prop
  | _, [] => True
  | c, piece::pieces =>
    piece <+: log.filter (beyond num c) ∧ Pieces log (lastSeen num c piece) pieces

variable {num}

theorem beyond_trans {c : Option κ} {a b : α} (ha : beyond num c a = true)
    (hb : beyond num (some (num a)) b = true) : beyond num c b = true := by
  cases c with
  | none => rfl
  | some c =>
    simp only [beyond, Option.all_some, decide_eq_true_eq] at ha hb ⊢
    exact ha.trans hb

theorem filter_lastSeen {log : List α} (hsorted : log.Pairwise (fun a b => num a < num b))
    {c : Option κ} {piece rest : List α} (h : piece ++ rest = log.filter (beyond num c)) :
    log.filter (beyond num (lastSeen num c piece)) = rest := by
  rcases List.eq_nil_or_concat' piece with rfl | ⟨front, a, rfl⟩
  · exact h.symm
  · have hlast : a ∈ log.filter (beyond num c) := by simp [← h]
    have hbeyond := (List.mem_filter.mp hlast).2
    have hfilter : log.filter (beyond num (some (num a))) =
        (log.filter (beyond num c)).filter (beyond num (some (num a))) := by
      rw [List.filter_filter]
      refine List.filter_congr fun b _ => ?_
      cases hb : beyond num (some (num a)) b with
      | false => rfl
      | true => simp [beyond_trans hbeyond hb]
    have hpairs := hsorted.filter (beyond num c)
    rw [← h, List.pairwise_append, List.pairwise_append] at hpairs
    obtain ⟨⟨-, -, hfront⟩, -, hrest⟩ := hpairs
    rw [lastSeen_snoc, hfilter, ← h, List.filter_append, List.filter_append]
    have hnone : front.filter (beyond num (some (num a))) = [] := by
      refine List.filter_eq_nil_iff.mpr fun b hb => ?_
      simp [beyond, (hfront b hb a (by simp)).le]
    have hall : rest.filter (beyond num (some (num a))) = rest := by
      refine List.filter_eq_self.mpr fun b hb => ?_
      simpa [beyond] using hrest a (by simp) b hb
    rw [hnone, hall]
    simp [beyond]

/-- The pieces, one behind the other, are a beginning of what lay above the first cursor. -/
theorem Pieces.flatten {log : List α} (hsorted : log.Pairwise (fun a b => num a < num b))
    {c : Option κ} {pieces : List (List α)} (h : Pieces num log c pieces) :
    pieces.flatten <+: log.filter (beyond num c) := by
  induction pieces generalizing c with
  | nil => exact List.nil_prefix
  | cons piece pieces ih =>
    obtain ⟨⟨rest, hrest⟩, hpieces⟩ := h
    have hmore := ih hpieces
    rw [filter_lastSeen hsorted hrest] at hmore
    rw [List.flatten_cons, ← hrest]
    exact (List.prefix_append_right_inj piece).mpr hmore

theorem Pieces.flatten_eq {log : List α} (hsorted : log.Pairwise (fun a b => num a < num b))
    {c : Option κ} {pieces : List (List α)} {last : List α}
    (h : Pieces num log c (pieces ++ [last]))
    (hlast : last = log.filter (beyond num (pieces.foldl (lastSeen num) c))) :
    (pieces ++ [last]).flatten = log.filter (beyond num c) := by
  induction pieces generalizing c with
  | nil => simpa using hlast
  | cons piece pieces ih =>
    obtain ⟨⟨rest, hrest⟩, hpieces⟩ := h
    have hmore := ih hpieces hlast
    rw [filter_lastSeen hsorted hrest] at hmore
    rw [List.cons_append, List.flatten_cons, hmore, hrest]

end Resumption
