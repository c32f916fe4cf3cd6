import Mathlib.Algebra.Order.Group.Multiset
import Mathlib.Tactic.Abel
import Cordn.InMemoryKeyPackages
import Cordn.SqliteKeyPackages

/-!
# Conservation of key packages

The books of a run: what was published is what is still stored, what removals
returned and the one-time packages that consumes handed out. Refs may repeat
and publishes may be refused.
-/

set_option autoImplicit false

namespace Cordn.KeyPackageOps
open InMemory Sqlite

variable {V : Type}

/-- What a run enters under one heading of the books. -/
def entries (f : Op V → Answer V → List (PublishedKeyPackageRecord V)) (ops : List (Op V))
    (answers : List (Answer V)) : List (PublishedKeyPackageRecord V) :=
  (List.zipWith f ops answers).flatten

def published : Op V → Answer V → List (PublishedKeyPackageRecord V)
  | .publish _, .published (.ok r) => [r]
  | _, _ => []

def removed : Op V → Answer V → List (PublishedKeyPackageRecord V)
  | .remove _, .found (.ok (some r)) => [r]
  | _, _ => []

def handedOut : Op V → Answer V → List (PublishedKeyPackageRecord V)
  | .consume _, .found (.ok (some r)) => if r.isLastResort then [] else [r]
  | _, _ => []

def lastResorts (l : KeyShelf V) : KeyShelf V := l.filter (fun r => r.isLastResort)

variable {σ : Type}

/-- Conservation over all runs of a backend from `init`. -/
structure Conserves (S : CoordinatorStorage V σ) (init : σ) : Prop where
  balance : ∀ ops : List (Op V), (entries published ops (Run.answers (step S) ops init)).Perm
    (stored S (Run.after (step S) ops init) ++
      (entries removed ops (Run.answers (step S) ops init) ++
        entries handedOut ops (Run.answers (step S) ops init)))
  /-- A one-time package is consumed no more often than it was published. -/
  handed_out_once : ∀ ops : List (Op V),
    (entries handedOut ops (Run.answers (step S) ops init)).Subperm
      ((entries published ops (Run.answers (step S) ops init)).filter
        (fun r => !r.isLastResort))
  consume_keeps_last_resort : ∀ (ops : List (Op V)) (x : String),
    lastResorts (stored S (step S (.consume x) (Run.after (step S) ops init)).2) =
      lastResorts (stored S (Run.after (step S) ops init))
  nothing_lost : ∀ (ops : List (Op V)) (op : Op V),
    (stored S (Run.after (step S) ops init)).Subperm
      (stored S (step S op (Run.after (step S) ops init)).2 ++
        (removed op (step S op (Run.after (step S) ops init)).1 ++
          handedOut op (step S op (Run.after (step S) ops init)).1))

structure KeepsBooks (S : CoordinatorStorage V σ) (I : σ → Prop) : Prop where
  keeps : ∀ op s, I s → I (step S op s).2
  balance : ∀ op s, I s → (stored S s ++ published op (step S op s).1).Perm
    (stored S (step S op s).2 ++ (removed op (step S op s).1 ++
      handedOut op (step S op s).1))
  last_resort : ∀ x s, I s →
    lastResorts (stored S (step S (.consume x) s).2) = lastResorts (stored S s)

theorem handedOut_regular (op : Op V) (a : Answer V) :
    ∀ r ∈ handedOut op a, r.isLastResort = false := by
  intro r hr
  unfold handedOut at hr
  split at hr
  · split at hr
    · simp at hr
    · rename_i hl
      rw [List.mem_singleton.mp hr]
      simpa using hl
  · simp at hr

theorem entries_regular (ops : List (Op V)) (as : List (Answer V)) :
    ∀ r ∈ entries handedOut ops as, r.isLastResort = false := by
  intro r hr
  obtain ⟨rs, hrs, hr⟩ := List.mem_flatten.mp hr
  rw [← List.map_uncurry_zip_eq_zipWith] at hrs
  obtain ⟨x, -, rfl⟩ := List.mem_map.mp hrs
  exact handedOut_regular x.1 x.2 r hr

theorem run_balance (S : CoordinatorStorage V σ) (I : σ → Prop) (h : KeepsBooks S I)
    (ops : List (Op V)) (s : σ) (hs : I s) :
    (stored S s ++ entries published ops (Run.answers (step S) ops s)).Perm
      (stored S (Run.after (step S) ops s) ++
        (entries removed ops (Run.answers (step S) ops s) ++
          entries handedOut ops (Run.answers (step S) ops s))) := by
  induction ops generalizing s with
  | nil => simp [entries, Run.after]
  | cons op ops ih =>
    have hone := h.balance op s hs
    have hrest := ih _ (h.keeps op s hs)
    simp only [entries, Run.answers, Run.after, List.zipWith_cons_cons, List.flatten_cons,
      ← Multiset.coe_eq_coe, ← Multiset.coe_add] at hone hrest ⊢
    rw [← add_assoc, hone, add_right_comm, hrest]
    abel

theorem KeepsBooks.conserves {S : CoordinatorStorage V σ} {I : σ → Prop} (h : KeepsBooks S I)
    (init : σ) (hi : I init) (he : stored S init = []) : Conserves S init := by
  have hb : ∀ ops : List (Op V), (entries published ops (Run.answers (step S) ops init)).Perm
      (stored S (Run.after (step S) ops init) ++
        (entries removed ops (Run.answers (step S) ops init) ++
          entries handedOut ops (Run.answers (step S) ops init))) := by
    intro ops
    simpa [he] using run_balance S I h ops init hi
  have hr : ∀ ops, I (Run.after (step S) ops init) :=
    fun ops => Run.invariant (step S) I h.keeps ops init hi
  refine ⟨hb, ?_, fun ops x => h.last_resort x _ (hr ops), ?_⟩
  · intro ops
    have hf := (hb ops).filter (fun r => !r.isLastResort)
    have hself : (entries handedOut ops (Run.answers (step S) ops init)).filter
        (fun r => !r.isLastResort) = entries handedOut ops (Run.answers (step S) ops init) :=
      List.filter_eq_self.mpr (fun r hm => by simp [entries_regular ops _ r hm])
    rw [List.filter_append, List.filter_append, hself] at hf
    refine List.Subperm.trans (List.Sublist.subperm ?_) hf.symm.subperm
    exact (List.sublist_append_right _ _).trans (List.sublist_append_right _ _)
  · intro ops op
    exact (List.sublist_append_left _ _).subperm.trans (h.balance op _ (hr ops)).subperm

theorem removed_lastResorts {m m' : Packages V} {r : PublishedKeyPackageRecord V}
    (h : InMemory.Removed m r m') (hr : r.isLastResort = false) :
    lastResorts m'.contents = lastResorts m.contents := by
  obtain ⟨pk, index, before, behind, hat, rfl⟩ := h
  rw [hat.contents, hat.removeAt_contents]
  simp [lastResorts, hr]

theorem inMemory_keepsBooks :
    KeepsBooks (InMemory.storage : CoordinatorStorage V (InMemoryInner V))
      (fun s => OwnKeys s.keyPackagesByIdentity) where
  keeps op s h := by
    cases op with
    | publish record => exact IndexMap.keyed_pushBack _ _ record h
    | get x => exact h
    | list x => exact h
    | remove x =>
      change OwnKeys (InMemory.removeKeyPackage x s).2.keyPackagesByIdentity
      cases hw : withRef s.keyPackagesByIdentity.contents x with
      | none => rwa [InMemory.remove_none x s hw]
      | some r => exact (InMemory.remove_removed x s r hw).keyed h
    | consume x =>
      have heff := (InMemory.consume_spec x s h).2
      change OwnKeys (InMemory.consumeKeyPackage x s).2.keyPackagesByIdentity
      split at heff
      · rwa [heff]
      · split at heff
        · rwa [heff]
        · exact heff.keyed h
  balance op s h := by
    cases op with
    | publish record =>
      change (s.keyPackagesByIdentity.contents ++ [record]).Perm
        ((s.keyPackagesByIdentity.pushBack record.stablePubkey record).contents ++ [])
      rw [List.append_nil]
      exact List.perm_append_comm.trans
        (IndexMap.contents_pushBack_perm s.keyPackagesByIdentity _ record).symm
    | get x => exact List.Perm.refl _
    | list x => exact List.Perm.refl _
    | remove x =>
      change (s.keyPackagesByIdentity.contents ++ []).Perm
        ((InMemory.removeKeyPackage x s).2.keyPackagesByIdentity.contents ++
          (removed (.remove x) (.found (InMemory.removeKeyPackage x s).1) ++ []))
      rw [InMemory.remove_result]
      cases hw : withRef s.keyPackagesByIdentity.contents x with
      | none =>
        rw [InMemory.remove_none x s hw]
        exact List.Perm.refl _
      | some r =>
        rw [List.append_nil]
        exact (InMemory.remove_removed x s r hw).perm.trans (List.perm_append_singleton _ _).symm
    | consume x =>
      obtain ⟨hres, heff⟩ := InMemory.consume_spec x s h
      change (s.keyPackagesByIdentity.contents ++ []).Perm
        ((InMemory.consumeKeyPackage x s).2.keyPackagesByIdentity.contents ++
          ([] ++ handedOut (.consume x) (.found (InMemory.consumeKeyPackage x s).1)))
      rw [hres]
      cases ht : taken s.keyPackagesByIdentity.contents x with
      | none =>
        simp only [ht] at heff
        rw [heff]
        exact List.Perm.refl _
      | some r =>
        simp only [ht] at heff
        simp only [handedOut]
        split
        · rename_i hr
          rw [if_pos hr] at heff
          rw [heff]
          exact List.Perm.refl _
        · rename_i hr
          rw [if_neg hr] at heff
          rw [List.append_nil]
          exact heff.perm.trans (List.perm_append_singleton _ _).symm
  last_resort x s h := by
    have heff := (InMemory.consume_spec x s h).2
    change lastResorts (InMemory.consumeKeyPackage x s).2.keyPackagesByIdentity.contents =
      lastResorts s.keyPackagesByIdentity.contents
    split at heff
    · rw [heff]
    · split at heff
      · rw [heff]
      · rename_i hr
        exact removed_lastResorts heff (by simpa using hr)

theorem without_perm {l : KeyShelf V} (h : UniqueRefs l) (r : PublishedKeyPackageRecord V)
    (hr : r ∈ l) : l.Perm (without l r.keyPackageRef ++ [r]) := by
  obtain ⟨xs, ys, rfl⟩ := List.append_of_mem hr
  rw [without_split xs ys r h]
  exact List.perm_middle.trans (List.perm_append_singleton _ _).symm

theorem without_lastResorts {l : KeyShelf V} (h : UniqueRefs l) (r : PublishedKeyPackageRecord V)
    (hr : r ∈ l) (hl : r.isLastResort = false) :
    lastResorts (without l r.keyPackageRef) = lastResorts l := by
  obtain ⟨xs, ys, rfl⟩ := List.append_of_mem hr
  rw [without_split xs ys r h]
  simp [lastResorts, hl]

theorem sqlite_keepsBooks (json : SerdeJson V) (hj : json.RoundTrips) :
    KeepsBooks (Sqlite.storage json) (fun db => ∃ l, Sqlite.Represents json db l) where
  keeps op db h := by
    obtain ⟨l, h⟩ := h
    cases op with
    | publish record =>
      change ∃ l, Sqlite.Represents json (Sqlite.publishKeyPackage json record db).2 l
      rcases Sqlite.publish_spec hj h record with ⟨-, hr⟩ | ⟨-, hr⟩
      · exact ⟨_, hr⟩
      · rw [hr]
        exact ⟨l, h⟩
    | get x => exact ⟨l, (Sqlite.step_represents hj (.get x) db l h trivial).2⟩
    | list x => exact ⟨l, (Sqlite.step_represents hj (.list x) db l h trivial).2⟩
    | remove x => exact ⟨_, (Sqlite.step_represents hj (.remove x) db l h trivial).2⟩
    | consume x => exact ⟨_, (Sqlite.step_represents hj (.consume x) db l h trivial).2⟩
  balance op db h := by
    obtain ⟨l, h⟩ := h
    rw [Sqlite.stored_eq hj h.1]
    cases op with
    | publish record =>
      change (l ++ published (.publish record)
        (.published (Sqlite.publishKeyPackage json record db).1)).Perm
          (stored (Sqlite.storage json) (Sqlite.publishKeyPackage json record db).2 ++ [])
      rw [List.append_nil]
      rcases Sqlite.publish_spec hj h record with ⟨hres, hr⟩ | ⟨⟨e, hres⟩, hr⟩
      · rw [hres, Sqlite.stored_eq hj hr.1]
        exact List.Perm.refl _
      · rw [hres, hr, Sqlite.stored_eq hj h.1]
        exact List.Perm.of_eq (List.append_nil l)
    | get x =>
      obtain ⟨hres, hr⟩ := Sqlite.step_represents hj (.get x) db l h trivial
      rw [hres, Sqlite.stored_eq hj hr.1]
      exact List.Perm.refl _
    | list x =>
      obtain ⟨hres, hr⟩ := Sqlite.step_represents hj (.list x) db l h trivial
      rw [hres, Sqlite.stored_eq hj hr.1]
      exact List.Perm.refl _
    | remove x =>
      obtain ⟨hres, hr⟩ := Sqlite.step_represents hj (.remove x) db l h trivial
      rw [hres, Sqlite.stored_eq hj hr.1]
      change (l ++ []).Perm
        (without l x ++ (removed (.remove x) (.found (.ok (withRef l x))) ++ []))
      rw [List.append_nil, List.append_nil]
      cases hw : withRef l x with
      | none =>
        rw [without_absent hw]
        exact List.Perm.of_eq (List.append_nil l).symm
      | some r =>
        obtain ⟨hmem, rfl⟩ := (withRef_eq_some l h.2 x r).mp hw
        exact without_perm h.2 r hmem
    | consume x =>
      obtain ⟨hres, hr⟩ := Sqlite.step_represents hj (.consume x) db l h trivial
      rw [hres, Sqlite.stored_eq hj hr.1]
      change (l ++ []).Perm (leftBehind l (taken l x) ++
        ([] ++ handedOut (.consume x) (.found (.ok (taken l x)))))
      rw [List.append_nil, List.nil_append]
      cases ht : taken l x with
      | none => exact List.Perm.of_eq (List.append_nil l).symm
      | some r =>
        simp only [leftBehind, handedOut]
        split
        · exact List.Perm.of_eq (List.append_nil l).symm
        · exact without_perm h.2 r (taken_mem ht)
  last_resort x db h := by
    obtain ⟨l, h⟩ := h
    obtain ⟨-, hr⟩ := Sqlite.step_represents hj (.consume x) db l h trivial
    rw [Sqlite.stored_eq hj h.1, Sqlite.stored_eq hj hr.1]
    change lastResorts (leftBehind l (taken l x)) = lastResorts l
    cases ht : taken l x with
    | none => rfl
    | some r =>
      simp only [leftBehind]
      split
      · rfl
      · rename_i hl
        exact without_lastResorts h.2 r (taken_mem ht) (by simpa using hl)

theorem key_packages_conserved (json : SerdeJson V) (hj : json.RoundTrips) :
    Conserves (InMemory.storage : CoordinatorStorage V (InMemoryInner V))
        InMemoryInner.default ∧
      Conserves (Sqlite.storage json) Database.new :=
  ⟨inMemory_keepsBooks.conserves InMemoryInner.default (IndexMap.keyed_empty _) rfl,
    (sqlite_keepsBooks json hj).conserves Database.new ⟨[], rfl, by simp [UniqueRefs]⟩
      (Sqlite.stored_eq hj rfl)⟩

theorem key_packages_conserved_bool :
    Conserves (InMemory.storage : CoordinatorStorage Bool (InMemoryInner Bool))
        InMemoryInner.default ∧
      Conserves (Sqlite.storage jsonBool) Database.new :=
  key_packages_conserved jsonBool jsonBool_roundTrips

end Cordn.KeyPackageOps
