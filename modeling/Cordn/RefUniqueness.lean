import Cordn.KeyPackageShelf

/-!
# Refs of stored packages

The UNIQUE column keeps the refs of the table distinct in every run. The
in-memory map has no such check: its refs stay distinct exactly as long as no
publish uses a ref that is still stored.
-/

set_option autoImplicit false

namespace Cordn.KeyPackageOps

variable {V σ : Type}

theorem KeepsShelf.step_shelf {S : CoordinatorStorage V σ} {Kept : σ → Prop} {unique : Bool}
    (hS : KeepsShelf S Kept unique) (op : Op V) (s : σ) (hs : Kept s) :
    Kept (step S op s).2 ∧
      ((stored S (step S op s).2).Sublist (stored S s) ∨
        ∃ r, op = .publish r ∧ ¬Refused unique r (stored S s) ∧
          Inserted (stored S s) r (stored S (step S op s).2)) := by
  cases op with
  | publish r =>
    by_cases hr : Refused unique r (stored S s)
    · obtain ⟨e, he⟩ := hS.refuse s r hs hr
      have hstate : (step S (.publish r) s).2 = s := congrArg Prod.snd he
      rw [hstate]
      exact ⟨hs, Or.inl (List.Sublist.refl _)⟩
    · obtain ⟨-, hkept, hin⟩ := hS.accept s r hs hr
      exact ⟨hkept, Or.inr ⟨r, rfl, hr, hin⟩⟩
  | get x =>
    have hstate : (step S (.get x) s).2 = s := congrArg Prod.snd (hS.get s x hs)
    rw [hstate]
    exact ⟨hs, Or.inl (List.Sublist.refl _)⟩
  | list x =>
    have hstate : (step S (.list x) s).2 = s :=
      congrArg Prod.snd (hS.identity s x hs)
    rw [hstate]
    exact ⟨hs, Or.inl (List.Sublist.refl _)⟩
  | remove x =>
    obtain ⟨-, hkept, hleft⟩ := hS.remove s x hs
    have hafter : stored S (step S (.remove x) s).2 =
        (stored S s).eraseP (hasRef x) := hleft
    rw [hafter]
    exact ⟨hkept, Or.inl List.eraseP_sublist⟩
  | consume x =>
    obtain ⟨-, hkept, hleft⟩ := hS.consume s x hs
    exact ⟨hkept, Or.inl (consumed_sublist hleft)⟩

theorem KeepsShelf.step_uniqueRefs {S : CoordinatorStorage V σ} {Kept : σ → Prop}
    (hS : KeepsShelf S Kept false) (op : Op V) (s : σ) (hs : Kept s)
    (hu : UniqueRefs (stored S s)) :
    UniqueRefs (stored S (step S op s).2) ↔ Fresh op (stored S s) := by
  cases op with
  | publish r =>
    have hr : ¬Refused false r (stored S s) := by simp [Refused]
    exact hu.inserted (hS.accept s r hs hr).2.2
  | _ =>
    obtain ⟨-, hsub | ⟨r, hop, -⟩⟩ := hS.step_shelf _ s hs
    · exact iff_of_true (hu.sublist (hsub.map _)) trivial
    · simp at hop

def DistinctRows (db : Sqlite.Database) : Prop :=
  (db.keyPackages.contents.map Sqlite.KeyPackageRow.keyPackageRef).Nodup

theorem DistinctRows.deleteByRef {db : Sqlite.Database} (h : DistinctRows db) (x : String) :
    DistinctRows (Sqlite.deleteByRef x db) := by
  rw [DistinctRows, Sqlite.deleteByRef, SqlTable.contents_delete]
  exact h.sublist (List.filter_sublist.map _)

theorem DistinctRows.publish {db : Sqlite.Database} (h : DistinctRows db)
    (json : Sqlite.SerdeJson V) (record : PublishedKeyPackageRecord V) :
    DistinctRows (Sqlite.publishKeyPackage json record db).2 := by
  unfold Sqlite.publishKeyPackage
  split
  · exact h
  · split
    · exact h
    · rename_i pubJson _ keyPackages hinsert
      simp only [SqlTable.insertUnique] at hinsert
      split at hinsert
      · simp at hinsert
      · rename_i hany
        obtain rfl := Option.some.inj hinsert
        simp only [DistinctRows, SqlTable.contents_insert, List.map_append, List.nodup_append]
        refine ⟨h, by simp, ?_⟩
        intro a ha b hb
        obtain ⟨row, hrow, rfl⟩ := List.mem_map.mp ha
        obtain rfl := List.mem_singleton.mp hb
        intro href
        exact hany (List.any_eq_true.mpr ⟨row, hrow, by simpa [Sqlite.hasRef] using href⟩)

theorem DistinctRows.kept {db : Sqlite.Database} (h : DistinctRows db)
    (json : Sqlite.SerdeJson V) (op : Op V) :
    DistinctRows (step (Sqlite.storage json) op db).2 := by
  cases op with
  | publish record => exact h.publish json record
  | get x => exact h
  | list x => exact h
  | remove x =>
    change DistinctRows (Sqlite.removeKeyPackage json x db).2
    unfold Sqlite.removeKeyPackage
    split
    · exact h
    · exact h
    · exact h.deleteByRef x
  | consume x =>
    change DistinctRows (Sqlite.consumeKeyPackage json x db).2
    unfold Sqlite.consumeKeyPackage
    split
    · exact h
    · split
      · exact h
      · exact h.deleteByRef x
    · split
      · exact h
      · split
        · exact h
        · exact h.deleteByRef _
      · exact h

theorem rowToKeyPackage_ref (json : Sqlite.SerdeJson V) (row : Sqlite.KeyPackageRow)
    (r : PublishedKeyPackageRecord V) (h : Sqlite.rowToKeyPackage json row = .ok r) :
    r.keyPackageRef = row.keyPackageRef := by
  unfold Sqlite.rowToKeyPackage at h
  split at h
  · simp at h
  · rw [← Except.ok.inj h]

theorem rows_refs (json : Sqlite.SerdeJson V) (rows : List Sqlite.KeyPackageRow) (l : KeyShelf V)
    (h : rows.mapM (Sqlite.rowToKeyPackage json) = .ok l) :
    l.map PublishedKeyPackageRecord.keyPackageRef =
      rows.map Sqlite.KeyPackageRow.keyPackageRef := by
  induction rows generalizing l with
  | nil =>
    obtain rfl := Except.ok.inj h
    rfl
  | cons row rows ih =>
    rw [List.mapM_cons] at h
    obtain ⟨r, hrow, h⟩ := except_bind_ok h
    obtain ⟨rs, hrows, h⟩ := except_bind_ok h
    obtain rfl := Except.ok.inj h
    rw [List.map_cons, List.map_cons, rowToKeyPackage_ref json row r hrow, ih rs hrows]

/-- What the table lists has its refs, also where a row fails to decode. -/
theorem DistinctRows.stored {db : Sqlite.Database} (h : DistinctRows db)
    (json : Sqlite.SerdeJson V) : UniqueRefs (stored (Sqlite.storage json) db) := by
  unfold KeyPackageOps.stored
  split
  · rename_i records hrecords
    change (db.keyPackages.select (fun _ => true) SqlTable.byId).mapM
      (Sqlite.rowToKeyPackage json) = .ok records at hrecords
    rw [SqlTable.select_byId, List.filter_true] at hrecords
    rw [UniqueRefs, rows_refs json _ records hrecords]
    exact h
  · simp [UniqueRefs]

/-- In memory refs stay distinct throughout a run exactly when every publish of it
is fresh; in the table they do in every run. -/
theorem refs_unique (json : Sqlite.SerdeJson V) (ops : List (Op V)) :
    (Run.Throughout (fun s => UniqueRefs (stored InMemory.storage s)) (step InMemory.storage) ops
        InMemory.InMemoryInner.default ↔
      Run.Along (fun op s => Fresh op (stored InMemory.storage s)) (step InMemory.storage) ops
        InMemory.InMemoryInner.default) ∧
      Run.Throughout (fun db => DistinctRows db ∧ UniqueRefs (stored (Sqlite.storage json) db))
        (step (Sqlite.storage json)) ops Sqlite.Database.new := by
  constructor
  · have h := Run.throughout_iff_along (step InMemory.storage) (MapShelved (V := V))
      (fun s => UniqueRefs (stored InMemory.storage s)) (fun _ _ => True)
      (fun op s => ¬Fresh op (stored InMemory.storage s))
      (fun op s hs _ => (inMemory_keepsShelf.step_shelf op s hs).1)
      (fun op s hs _ hu => (inMemory_keepsShelf.step_uniqueRefs op s hs hu).trans not_not.symm)
      ops InMemory.InMemoryInner.default (Run.along_true _ _ _) (IndexMap.keyed_empty _)
      List.nodup_nil
    simpa only [not_not] using h
  · exact Run.throughout_of_invariant _ DistinctRows _ (fun op db h => h.kept json op)
      (fun db h => ⟨h, h.stored json⟩) ops _ (by simp [DistinctRows, Sqlite.Database.new])

/-- Alice's package and then Bob's, under one ref. -/
def shareRef : List (Op Unit) :=
  [.publish ⟨"alice", [1], "x", false, 0, ()⟩, .publish ⟨"bob", [2], "x", false, 0, ()⟩]

theorem ref_stored_twice :
    (stored InMemory.storage (Run.after (step InMemory.storage) shareRef
      InMemory.InMemoryInner.default)).map (fun r => (r.stablePubkey, r.keyPackageRef)) =
        [("alice", "x"), ("bob", "x")] ∧
      ¬Run.Throughout (fun s => UniqueRefs (stored InMemory.storage s)) (step InMemory.storage)
        shareRef InMemory.InMemoryInner.default := by
  have hstored : (stored InMemory.storage (Run.after (step InMemory.storage) shareRef
      InMemory.InMemoryInner.default)).map (fun r => (r.stablePubkey, r.keyPackageRef)) =
        [("alice", "x"), ("bob", "x")] := by
    decide +kernel
  refine ⟨hstored, ?_⟩
  rintro ⟨-, -, hlast⟩
  have hrefs := congrArg (List.map Prod.snd) hstored
  rw [List.map_map] at hrefs
  change UniqueRefs _ at hlast
  change List.map PublishedKeyPackageRecord.keyPackageRef _ = ["x", "x"] at hrefs
  have hnodup : (["x", "x"] : List String).Nodup := hrefs ▸ hlast
  simp at hnodup

end Cordn.KeyPackageOps
