import Mathlib.Data.List.Sort
import Mathlib.Tactic.Common

/-!
# Tables with an increasing row id

A table lists its rows in row-id order. Ids are handed out one above the
highest id ever used, so a new row stands behind every older one. Statements
are the usual ones: a selection filters and then sorts by its ORDER BY clause,
a join pairs a list of requested rows with the matching table rows.
-/

set_option autoImplicit false

structure SqlTable (ρ : Type*) where
  rows : List (ℕ × ρ)
  seq : ℕ
  sorted : rows.Pairwise (fun a b => a.1 < b.1)
  bounded : ∀ r ∈ rows, r.1 ≤ seq

namespace SqlTable

variable {ρ γ : Type*}

/-- Sort by an ORDER BY comparison; rows that compare equal keep their order. -/
def orderBy {α : Type*} (order : α → α → Ordering) (as : List α) : List α :=
  as.insertionSort (fun a b => (order a b).isLE = true)

def byId (a b : ℕ × ρ) : Ordering := compare a.1 b.1

def empty : SqlTable ρ := ⟨[], 0, by simp, by simp⟩

instance : Inhabited (SqlTable ρ) := ⟨empty⟩

def contents (t : SqlTable ρ) : List ρ := t.rows.map Prod.snd

def insert (t : SqlTable ρ) (r : ρ) : SqlTable ρ where
  rows := t.rows ++ [(t.seq+1, r)]
  seq := t.seq+1
  sorted := by
    rw [List.pairwise_append]
    refine ⟨t.sorted, by simp, ?_⟩
    intro a ha b hb
    rw [List.mem_singleton.mp hb]
    exact Nat.lt_succ_of_le (t.bounded a ha)
  bounded := by
    intro a ha
    rcases List.mem_append.mp ha with h | h
    · exact Nat.le_succ_of_le (t.bounded a h)
    · rw [List.mem_singleton.mp h]

/-- Insert under a uniqueness constraint: refused when a stored row conflicts. -/
def insertUnique (t : SqlTable ρ) (conflicts : ρ → Bool) (r : ρ) : Option (SqlTable ρ) :=
  if t.contents.any conflicts then none else some (t.insert r)

def delete (t : SqlTable ρ) (p : ρ → Bool) : SqlTable ρ where
  rows := t.rows.filter (fun r => !p r.2)
  seq := t.seq
  sorted := t.sorted.sublist List.filter_sublist
  bounded := fun r hr => t.bounded r (List.mem_filter.mp hr).1

def matching (t : SqlTable ρ) (p : ρ → Bool) : ℕ := t.contents.countP p

def update (t : SqlTable ρ) (p : ρ → Bool) (f : ρ → ρ) : SqlTable ρ where
  rows := t.rows.map (fun r => (r.1, if p r.2 then f r.2 else r.2))
  seq := t.seq
  sorted := by simpa [List.pairwise_map] using t.sorted
  bounded := by
    intro r hr
    obtain ⟨x, hx, rfl⟩ := List.mem_map.mp hr
    exact t.bounded x hx

def select (t : SqlTable ρ) (p : ρ → Bool) (order : ℕ × ρ → ℕ × ρ → Ordering) : List ρ :=
  (orderBy order (t.rows.filter (fun r => p r.2))).map Prod.snd

/-- The rows a join pairs up, the requested rows outermost. -/
def pairs (t : SqlTable ρ) (requested : List γ) (on : γ → ρ → Bool) : List (γ × ℕ × ρ) :=
  requested.flatMap (fun q => (t.rows.filter (fun r => on q r.2)).map (Prod.mk q))

def join (t : SqlTable ρ) (requested : List γ) (on : γ → ρ → Bool)
    (order : γ × ℕ × ρ → γ × ℕ × ρ → Ordering) : List ρ :=
  (orderBy order (t.pairs requested on)).map (fun x => x.2.2)

theorem ext {s t : SqlTable ρ} (hr : s.rows = t.rows) (hs : s.seq = t.seq) : s = t := by
  cases s
  cases t
  simp_all

instance [DecidableEq ρ] : DecidableEq (SqlTable ρ) := fun s t =>
  decidable_of_iff (s.rows = t.rows ∧ s.seq = t.seq)
    ⟨fun h => ext h.1 h.2, fun h => by simp [h]⟩

@[simp] theorem contents_empty : (empty : SqlTable ρ).contents = [] := rfl

@[simp] theorem contents_insert (t : SqlTable ρ) (r : ρ) :
    (t.insert r).contents = t.contents ++ [r] := by
  simp [contents, insert]

@[simp] theorem contents_delete (t : SqlTable ρ) (p : ρ → Bool) :
    (t.delete p).contents = t.contents.filter (fun r => !p r) := by
  simp only [contents, delete, List.filter_map, Function.comp_def]

@[simp] theorem contents_update (t : SqlTable ρ) (p : ρ → Bool) (f : ρ → ρ) :
    (t.update p f).contents = t.contents.map (fun r => if p r then f r else r) := by
  simp [contents, update, Function.comp_def]

theorem contents_deleteEach (cs : List γ) (p : γ → ρ → Bool) (t : SqlTable ρ) :
    (cs.foldl (fun t c => t.delete (p c)) t).contents =
      t.contents.filter (fun r => !cs.any (fun c => p c r)) := by
  induction cs generalizing t with
  | nil => simp
  | cons c cs ih =>
    rw [List.foldl_cons, ih, contents_delete, List.filter_filter]
    apply List.filter_congr
    intro r _
    simp [Bool.and_comm]

theorem orderBy_perm {α : Type*} (order : α → α → Ordering) (as : List α) :
    (orderBy order as).Perm as :=
  List.perm_insertionSort _ as

theorem orderBy_of_pairwise {α : Type*} (order : α → α → Ordering) (as : List α)
    (h : as.Pairwise (fun a b => (order a b).isLE = true)) : orderBy order as = as :=
  h.insertionSort_eq

theorem orderBy_pairwise {α : Type*} (order : α → α → Ordering) [Std.TransCmp order]
    (as : List α) : (orderBy order as).Pairwise (fun a b => (order a b).isLE = true) := by
  have htotal : Std.Total (fun a b => (order a b).isLE = true) := by
    refine ⟨fun a b => ?_⟩
    have hswap : order a b = (order b a).swap := Std.OrientedCmp.eq_swap
    cases hb : order b a <;> simp [hswap, hb]
  have htrans : IsTrans α (fun a b => (order a b).isLE = true) :=
    ⟨fun _ _ _ hab hbc => Std.TransCmp.isLE_trans hab hbc⟩
  exact List.pairwise_insertionSort _ as

theorem orderBy_head {α : Type*} (order : α → α → Ordering) [Std.TransCmp order]
    (as : List α) (a : α) (ha : a ∈ as) (h : ∀ b ∈ as, b ≠ a → order a b = .lt) :
    (orderBy order as).head? = some a := by
  have hmem : a ∈ orderBy order as := (orderBy_perm order as).mem_iff.mpr ha
  have hp := orderBy_pairwise order as
  cases hs : orderBy order as with
  | nil => simp [hs] at hmem
  | cons b bs =>
    rw [hs] at hmem hp
    by_cases hba : b = a
    · simp [hba]
    · have hbs : a ∈ bs := by
        rcases List.mem_cons.mp hmem with hab | hbs
        · exact absurd hab.symm hba
        · exact hbs
      have hle := List.rel_of_pairwise_cons hp hbs
      have hb : b ∈ as := (orderBy_perm order as).mem_iff.mp (by simp [hs])
      have hgt := Std.OrientedCmp.gt_of_lt (h b hb hba)
      simp [hgt] at hle

theorem mem_select (t : SqlTable ρ) (p : ρ → Bool) (order : ℕ × ρ → ℕ × ρ → Ordering) (r : ρ) :
    r ∈ t.select p order ↔ r ∈ t.contents ∧ p r = true := by
  have hperm : (t.select p order).Perm (t.contents.filter p) := by
    rw [contents, List.filter_map]
    exact (orderBy_perm order _).map Prod.snd
  rw [hperm.mem_iff, List.mem_filter]

theorem rows_byId (t : SqlTable ρ) (p : ℕ × ρ → Bool) :
    (t.rows.filter p).Pairwise (fun a b => (byId a b).isLE = true) := by
  refine (t.sorted.sublist List.filter_sublist).imp ?_
  intro a b hab
  simp [byId, Nat.compare_eq_lt.mpr hab]

@[simp] theorem select_byId (t : SqlTable ρ) (p : ρ → Bool) :
    t.select p byId = t.contents.filter p := by
  rw [select, orderBy_of_pairwise _ _ (t.rows_byId _), contents, List.filter_map]
  rfl

theorem rows_pairwise (t : SqlTable ρ) (p : ρ → Bool) (R : ρ → ρ → Prop)
    (h : (t.contents.filter p).Pairwise R) :
    (t.rows.filter (fun r => p r.2)).Pairwise (fun a b => R a.2 b.2) := by
  rw [contents, List.filter_map, List.pairwise_map] at h
  exact h

theorem select_of_pairwise (t : SqlTable ρ) (p : ρ → Bool) (order : ρ → ρ → Ordering)
    (h : (t.contents.filter p).Pairwise (fun a b => (order a b).isLE = true)) :
    t.select p (fun a b => order a.2 b.2) = t.contents.filter p := by
  rw [select, orderBy_of_pairwise _ _ (t.rows_pairwise p _ h), contents, List.filter_map]
  rfl

theorem orderedInsert_append {α : Type*} (le : α → α → Prop) [DecidableRel le] (a : α)
    (as bs : List α) (h : ∀ b ∈ bs, le a b) :
    (as ++ bs).orderedInsert le a = as.orderedInsert le a ++ bs := by
  induction as with
  | nil =>
    cases bs with
    | nil => rfl
    | cons b bs => exact List.orderedInsert_cons_of_le _ _ (h b (by simp))
  | cons x as ih =>
    by_cases hx : le a x
    · rw [List.cons_append, List.orderedInsert_cons_of_le _ _ hx,
        List.orderedInsert_cons_of_le _ _ hx, List.cons_append, List.cons_append]
    · rw [List.cons_append, List.orderedInsert_of_not_le _ _ hx,
        List.orderedInsert_of_not_le _ _ hx, ih, List.cons_append]

theorem orderBy_append {α : Type*} (order : α → α → Ordering) (as bs : List α)
    (h : ∀ a ∈ as, ∀ b ∈ bs, (order a b).isLE = true) :
    orderBy order (as ++ bs) = orderBy order as ++ orderBy order bs := by
  induction as with
  | nil => rfl
  | cons a as ih =>
    have hrest := ih (fun x hx => h x (List.mem_cons_of_mem _ hx))
    rw [orderBy, List.cons_append, List.insertionSort_cons, ← orderBy, hrest]
    apply orderedInsert_append
    intro b hb
    exact h a (by simp) b ((orderBy_perm order bs).mem_iff.mp hb)

theorem orderBy_map {α β : Type*} (f : α → β) (order : α → α → Ordering)
    (order' : β → β → Ordering) (h : ∀ a a', order' (f a) (f a') = order a a') (as : List α) :
    orderBy order' (as.map f) = (orderBy order as).map f := by
  symm
  apply List.map_insertionSort
  intro a _ a' _
  rw [h]

theorem select_eq (t : SqlTable ρ) (p : ρ → Bool) (order : ρ → ρ → Ordering) :
    t.select p (fun a b => order a.2 b.2) = orderBy order (t.contents.filter p) := by
  rw [select, ← orderBy_map Prod.snd _ order (fun _ _ => rfl), contents, List.filter_map]
  rfl

/-- A join ordered by the requested rows first is one selection after the other. -/
theorem join_selects (t : SqlTable ρ) (requested : List γ) (on : γ → ρ → Bool)
    (order : γ × ℕ × ρ → γ × ℕ × ρ → Ordering) (inner : ℕ × ρ → ℕ × ρ → Ordering)
    (hq : requested.Pairwise (fun q q' => ∀ r r', (order (q, r) (q', r')).isLE = true))
    (hr : ∀ q r r', order (q, r) (q, r') = inner r r') :
    t.join requested on order = requested.flatMap (fun q => t.select (on q) inner) := by
  induction requested with
  | nil => rfl
  | cons q requested ih =>
    obtain ⟨hfirst, hrest⟩ := List.pairwise_cons.mp hq
    have happend : orderBy order (t.pairs (q::requested) on) =
        orderBy order ((t.rows.filter (fun r => on q r.2)).map (Prod.mk q)) ++
          orderBy order (t.pairs requested on) := by
      apply orderBy_append
      intro a ha b hb
      obtain ⟨r, -, rfl⟩ := List.mem_map.mp ha
      obtain ⟨q', hq', hb⟩ := List.mem_flatMap.mp hb
      obtain ⟨r', -, rfl⟩ := List.mem_map.mp hb
      exact hfirst q' hq' r r'
    rw [join, happend, List.map_append, List.flatMap_cons, ← ih hrest, join,
      orderBy_map (Prod.mk q) inner order (hr q), List.map_map, select]
    rfl

theorem zipIdx_pairwise (requested : List γ) :
    requested.zipIdx.Pairwise (fun q q' => q.2 < q'.2) := by
  have h : (List.range' 0 requested.length).Pairwise (· < ·) := List.pairwise_lt_range' 1
  rw [← List.zipIdx_map_snd 0 requested, List.pairwise_map] at h
  exact h

end SqlTable
