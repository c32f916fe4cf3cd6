import Mathlib.Data.List.Nodup
import Mathlib.Data.List.Basic
import Mathlib.Data.Multiset.AddSub
import Mathlib.Tactic.Common

/-!
# Insertion-ordered maps

A map keeps its entries in the order in which their keys first appeared, with
distinct keys as a field. Rewriting the value of a present key keeps its
position; removing a key closes the gap, and the key joins at the end when it
comes back.
-/

set_option autoImplicit false

structure IndexMap (κ ν : Type*) where
  entries : List (κ × ν)
  nodup : (entries.map Prod.fst).Nodup

namespace IndexMap

variable {κ ν μ : Type*} [DecidableEq κ]

def lookup (k : κ) : List (κ × ν) → Option ν
  | [] => none
  | e::es => if e.1 = k then some e.2 else lookup k es

/-- Apply `f` to the value under `k`, adding the key at the end when absent. -/
def alter (k : κ) (f : Option ν → ν) : List (κ × ν) → List (κ × ν)
  | [] => [(k, f none)]
  | e::es => if e.1 = k then (k, f (some e.2))::es else e::alter k f es

theorem mem_alter_keys (k : κ) (f : Option ν → ν) (es : List (κ × ν)) (x : κ) :
    x ∈ (alter k f es).map Prod.fst ↔ x = k ∨ x ∈ es.map Prod.fst := by
  induction es with
  | nil => simp [alter]
  | cons e es ih =>
    by_cases h : e.1 = k
    · simp [alter, h]
    · simp only [alter, h, if_false, List.map_cons, List.mem_cons, ih]
      tauto

theorem alter_nodup (k : κ) (f : Option ν → ν) (es : List (κ × ν))
    (h : (es.map Prod.fst).Nodup) : ((alter k f es).map Prod.fst).Nodup := by
  induction es with
  | nil => simp [alter]
  | cons e es ih =>
    obtain ⟨hne, hes⟩ := List.nodup_cons.mp h
    by_cases he : e.1 = k
    · rw [alter, if_pos he]
      exact List.nodup_cons.mpr ⟨by rwa [he] at hne, hes⟩
    · rw [alter, if_neg he]
      refine List.nodup_cons.mpr ⟨?_, ih hes⟩
      rw [mem_alter_keys]
      rintro (hk | hm)
      · exact he hk
      · exact hne hm

theorem lookup_alter (k x : κ) (f : Option ν → ν) (es : List (κ × ν)) :
    lookup x (alter k f es) = if x = k then some (f (lookup k es)) else lookup x es := by
  induction es with
  | nil => simp [alter, lookup, eq_comm]
  | cons e es ih =>
    by_cases he : e.1 = k <;> by_cases hx : x = k <;> by_cases hex : e.1 = x <;>
      simp_all [alter, lookup]

theorem alter_stored (k : κ) (f : Option ν → ν) (es : List (κ × ν)) (v : ν)
    (h : lookup k es = some v) (hf : f (some v) = v) : alter k f es = es := by
  induction es with
  | nil => simp [lookup] at h
  | cons e es ih =>
    by_cases he : e.1 = k
    · rw [lookup, if_pos he] at h
      have hv : e.2 = v := Option.some.inj h
      rw [alter, if_pos he, hv, hf, ← he, ← hv]
    · rw [lookup, if_neg he] at h
      rw [alter, if_neg he, ih h]

theorem lookup_filter_ne (k x : κ) (es : List (κ × ν)) :
    lookup x (es.filter (fun e => decide (e.1 ≠ k))) =
      if x = k then none else lookup x es := by
  induction es with
  | nil => simp [lookup]
  | cons e es ih =>
    by_cases he : e.1 = k <;> by_cases hx : x = k <;> by_cases hex : e.1 = x <;>
      simp_all [lookup]

theorem lookup_map (k : κ) (f : κ → ν → μ) (es : List (κ × ν)) :
    lookup k (es.map (fun e => (e.1, f e.1 e.2))) = (lookup k es).map (f k) := by
  induction es with
  | nil => rfl
  | cons e es ih =>
    by_cases he : e.1 = k
    · simp [lookup, he]
    · simp [lookup, he, ih]

theorem lookup_append (k : κ) (es es' : List (κ × ν)) :
    lookup k (es ++ es') = (lookup k es).or (lookup k es') := by
  induction es with
  | nil => simp [lookup]
  | cons e es ih =>
    rw [List.cons_append, lookup, lookup]
    split
    · rfl
    · exact ih

theorem lookup_eq_some_iff (es : List (κ × ν)) (h : (es.map Prod.fst).Nodup) (k : κ) (v : ν) :
    lookup k es = some v ↔ (k, v) ∈ es := by
  induction es with
  | nil => simp [lookup]
  | cons e es ih =>
    obtain ⟨hne, hes⟩ := List.nodup_cons.mp h
    by_cases he : e.1 = k
    · subst he
      constructor
      · intro hv
        simp only [lookup, if_true, Option.some.injEq] at hv
        exact List.mem_cons.mpr (Or.inl (by rw [← hv]))
      · intro hm
        rcases List.mem_cons.mp hm with heq | hm
        · have hv : v = e.2 := congrArg Prod.snd heq
          simp [lookup, hv]
        · exact absurd (List.mem_map_of_mem hm) hne
    · have hke : (k, v) ≠ e := fun hk => he (by rw [← hk])
      simp only [lookup, he, if_false, ih hes, List.mem_cons, hke, false_or]

theorem lookup_isSome_iff (es : List (κ × ν)) (k : κ) :
    (lookup k es).isSome ↔ k ∈ es.map Prod.fst := by
  induction es with
  | nil => simp [lookup]
  | cons e es ih =>
    by_cases he : e.1 = k
    · simp [lookup, he]
    · simp only [lookup, he, if_false, ih, List.map_cons, List.mem_cons]
      constructor
      · exact Or.inr
      · rintro (hk | hm)
        · exact absurd hk.symm he
        · exact hm

theorem lookup_filter (k : κ) (p : κ → ν → Bool) (es : List (κ × ν))
    (h : (es.map Prod.fst).Nodup) :
    lookup k (es.filter (fun e => p e.1 e.2)) = (lookup k es).filter (p k) := by
  induction es with
  | nil => rfl
  | cons e es ih =>
    obtain ⟨hne, hes⟩ := List.nodup_cons.mp h
    by_cases he : e.1 = k
    · subst he
      have hrest : lookup e.1 es = none := by
        simpa [← Option.not_isSome_iff_eq_none, lookup_isSome_iff] using hne
      by_cases hp : p e.1 e.2
      · simp [lookup, hp, Option.filter]
      · simp [lookup, hp, ih hes, hrest, Option.filter]
    · by_cases hp : p e.1 e.2
      · simp [lookup, hp, he, ih hes]
      · simp [lookup, hp, he, ih hes]

def empty : IndexMap κ ν := ⟨[], by simp⟩

instance : Inhabited (IndexMap κ ν) := ⟨empty⟩

def get? (m : IndexMap κ ν) (k : κ) : Option ν := lookup k m.entries

def keys (m : IndexMap κ ν) : List κ := m.entries.map Prod.fst

def values (m : IndexMap κ ν) : List ν := m.entries.map Prod.snd

def size (m : IndexMap κ ν) : ℕ := m.entries.length

/-- The entry API: rewrite the value under `k` in place, or add the key last. -/
def upsert (m : IndexMap κ ν) (k : κ) (f : Option ν → ν) : IndexMap κ ν :=
  ⟨alter k f m.entries, alter_nodup k f m.entries m.nodup⟩

def insert (m : IndexMap κ ν) (k : κ) (v : ν) : IndexMap κ ν := m.upsert k (fun _ => v)

def adjust (m : IndexMap κ ν) (k : κ) (f : ν → ν) : IndexMap κ ν :=
  ⟨m.entries.map (fun e => (e.1, if e.1 = k then f e.2 else e.2)), by
    simpa [List.map_map, Function.comp_def] using m.nodup⟩

/-- Remove a key and close the gap, keeping the order of the others. -/
def shiftRemove (m : IndexMap κ ν) (k : κ) : IndexMap κ ν :=
  ⟨m.entries.filter (fun e => decide (e.1 ≠ k)),
    m.nodup.sublist (List.filter_sublist.map Prod.fst)⟩

def retain (m : IndexMap κ ν) (p : κ → ν → Bool) : IndexMap κ ν :=
  ⟨m.entries.filter (fun e => p e.1 e.2), m.nodup.sublist (List.filter_sublist.map Prod.fst)⟩

def mapValues (m : IndexMap κ ν) (f : κ → ν → μ) : IndexMap κ μ :=
  ⟨m.entries.map (fun e => (e.1, f e.1 e.2)), by
    simpa [List.map_map, Function.comp_def] using m.nodup⟩

omit [DecidableEq κ] in
theorem ext {m n : IndexMap κ ν} (h : m.entries = n.entries) : m = n := by
  cases m
  cases n
  simpa using h

instance [DecidableEq ν] : DecidableEq (IndexMap κ ν) := fun m n =>
  decidable_of_iff (m.entries = n.entries) ⟨ext, fun h => h ▸ rfl⟩

@[simp] theorem get?_empty (k : κ) : (empty : IndexMap κ ν).get? k = none := rfl

@[simp] theorem get?_upsert (m : IndexMap κ ν) (k x : κ) (f : Option ν → ν) :
    (m.upsert k f).get? x = if x = k then some (f (m.get? k)) else m.get? x :=
  lookup_alter k x f m.entries

theorem upsert_stored (m : IndexMap κ ν) (k : κ) (f : Option ν → ν) (v : ν)
    (h : m.get? k = some v) (hf : f (some v) = v) : m.upsert k f = m :=
  ext (alter_stored k f m.entries v h hf)

@[simp] theorem get?_insert (m : IndexMap κ ν) (k x : κ) (v : ν) :
    (m.insert k v).get? x = if x = k then some v else m.get? x :=
  get?_upsert m k x _

@[simp] theorem get?_adjust (m : IndexMap κ ν) (k x : κ) (f : ν → ν) :
    (m.adjust k f).get? x = if x = k then (m.get? k).map f else m.get? x := by
  have h := lookup_map x (fun y v => if y = k then f v else v) m.entries
  by_cases hx : x = k
  · subst hx
    simpa [get?, adjust] using h
  · simpa [get?, adjust, hx] using h

@[simp] theorem get?_shiftRemove (m : IndexMap κ ν) (k x : κ) :
    (m.shiftRemove k).get? x = if x = k then none else m.get? x :=
  lookup_filter_ne k x m.entries

@[simp] theorem get?_retain (m : IndexMap κ ν) (p : κ → ν → Bool) (k : κ) :
    (m.retain p).get? k = (m.get? k).filter (p k) :=
  lookup_filter k p m.entries m.nodup

@[simp] theorem get?_mapValues (m : IndexMap κ ν) (f : κ → ν → μ) (k : κ) :
    (m.mapValues f).get? k = (m.get? k).map (f k) :=
  lookup_map k f m.entries

theorem get?_eq_some_iff (m : IndexMap κ ν) (k : κ) (v : ν) :
    m.get? k = some v ↔ (k, v) ∈ m.entries :=
  lookup_eq_some_iff m.entries m.nodup k v

theorem get?_isSome_iff (m : IndexMap κ ν) (k : κ) : (m.get? k).isSome ↔ k ∈ m.keys :=
  lookup_isSome_iff m.entries k

omit [DecidableEq κ] in
theorem entries_eq_nil (m : IndexMap κ ν) (h : ∀ k, k ∉ m.keys) : m.entries = [] := by
  have hkeys : m.entries.map Prod.fst = [] := List.eq_nil_iff_forall_not_mem.mpr h
  exact List.map_eq_nil_iff.mp hkeys

end IndexMap
