import Cordn.InMemoryKeyPackages
import Cordn.SqliteKeyPackages
import Cordn.StorageFrames

/-!
# The shelf of key packages behind either backend

What every operation does to the list of stored packages, said once for both
backends. They differ in one point: SQLite refuses a ref that is still stored,
the in-memory map does not.
-/

set_option autoImplicit false

namespace Cordn.KeyPackageOps

variable {V σ : Type}

/-- The shelf `l'` is `l` with `r` put somewhere on it. -/
def Inserted (l : KeyShelf V) (r : PublishedKeyPackageRecord V) (l' : KeyShelf V) : Prop :=
  ∃ before behind, l = before ++ behind ∧ l' = before ++ r::behind

/-- What a consume leaves of the shelf: all but one regular package. -/
def Consumed (l : KeyShelf V) (o : Option (PublishedKeyPackageRecord V)) (l' : KeyShelf V) : Prop :=
  match o with
  | none => l' = l
  | some r => if r.isLastResort then l' = l else Inserted l' r l

def LeavesShelf {α : Type} (S : CoordinatorStorage V σ) (Kept : σ → Prop)
    (op : Locked σ α) : Prop :=
  ∀ s, Kept s → Kept (op s).2 ∧ stored S (op s).2 = stored S s

/-- A publish the backend refuses: `unique` refs are on and this one is stored. -/
def Refused (unique : Bool) (record : PublishedKeyPackageRecord V) (l : KeyShelf V) : Prop :=
  unique = true ∧ ∃ r ∈ l, r.keyPackageRef = record.keyPackageRef

theorem consumed_sublist {l l' : KeyShelf V} {o : Option (PublishedKeyPackageRecord V)}
    (h : Consumed l o l') : l'.Sublist l := by
  cases o with
  | none => exact h ▸ List.Sublist.refl _
  | some r =>
    simp only [Consumed] at h
    split at h
    · exact h ▸ List.Sublist.refl _
    · obtain ⟨before, behind, rfl, rfl⟩ := h
      exact (List.sublist_cons_self r behind).append_left before

theorem UniqueRefs.inserted {l l' : KeyShelf V} {r : PublishedKeyPackageRecord V}
    (h : UniqueRefs l) (hin : Inserted l r l') : UniqueRefs l' ↔ Fresh (.publish r) l := by
  obtain ⟨before, behind, rfl, rfl⟩ := hin
  have hperm : UniqueRefs (before ++ r::behind) ↔ UniqueRefs (r::(before ++ behind)) :=
    (List.perm_middle.map _).nodup_iff
  rw [hperm, UniqueRefs, List.map_cons, List.nodup_cons]
  constructor
  · rintro ⟨hn, -⟩ q hq href
    exact hn (href ▸ List.mem_map_of_mem hq)
  · intro hf
    refine ⟨?_, h⟩
    intro hm
    obtain ⟨q, hq, href⟩ := List.mem_map.mp hm
    exact hf q hq href

structure KeepsShelf (S : CoordinatorStorage V σ) (Kept : σ → Prop) (unique : Bool) : Prop where
  distinct : ∀ s, Kept s → unique = true → UniqueRefs (stored S s)
  all : ∀ s, Kept s → S.listAllKeyPackages s = (.ok (stored S s), s)
  identity : ∀ s x, Kept s →
    S.listKeyPackagesForIdentity x s = (.ok ((stored S s).filter (hasIdentity x)), s)
  get : ∀ s x, Kept s → S.getKeyPackage x s = (.ok (withRef (stored S s) x), s)
  remove : ∀ s x, Kept s → (S.removeKeyPackage x s).1 = .ok (withRef (stored S s) x) ∧
    Kept (S.removeKeyPackage x s).2 ∧
    stored S (S.removeKeyPackage x s).2 = (stored S s).eraseP (hasRef x)
  consume : ∀ s x, Kept s → (S.consumeKeyPackage x s).1 = .ok (taken (stored S s) x) ∧
    Kept (S.consumeKeyPackage x s).2 ∧
    Consumed (stored S s) (taken (stored S s) x) (stored S (S.consumeKeyPackage x s).2)
  refuse : ∀ s record, Kept s → Refused unique record (stored S s) →
    ∃ e, S.publishKeyPackage record s = (.error e, s)
  accept : ∀ s record, Kept s → ¬Refused unique record (stored S s) →
    (S.publishKeyPackage record s).1 = .ok record ∧ Kept (S.publishKeyPackage record s).2 ∧
    Inserted (stored S s) record (stored S (S.publishKeyPackage record s).2)
  storeWelcome : ∀ record, LeavesShelf S Kept (S.storeWelcome record)
  fetchPendingWelcomes : ∀ pk consumed, LeavesShelf S Kept (S.fetchPendingWelcomes pk consumed)
  storeJoinRequest : ∀ record, LeavesShelf S Kept (S.storeJoinRequest record)
  fetchManyPendingJoinRequests : ∀ groups consumed,
    LeavesShelf S Kept (S.fetchManyPendingJoinRequests groups consumed)
  appendGroupMessage : ∀ params, LeavesShelf S Kept (S.appendGroupMessage params)
  fetchManyGroupMessages : ∀ groups, LeavesShelf S Kept (S.fetchManyGroupMessages groups)

theorem removed_inserted {m m' : InMemory.Packages V} {r : PublishedKeyPackageRecord V}
    (h : InMemory.Removed m r m') : Inserted m'.contents r m.contents := by
  obtain ⟨pk, index, before, behind, hat, rfl⟩ := h
  exact ⟨before, behind, hat.removeAt_contents, hat.contents⟩

def MapShelved (s : InMemory.InMemoryInner V) : Prop :=
  InMemory.OwnKeys s.keyPackagesByIdentity

theorem inMemory_leavesShelf {α : Type} (op : Locked (InMemory.InMemoryInner V) α)
    (h : ∀ s, (op s).2.keyPackagesByIdentity = s.keyPackagesByIdentity) :
    LeavesShelf InMemory.storage MapShelved op := by
  intro s hs
  rw [InMemory.stored_eq, InMemory.stored_eq, MapShelved, h]
  exact ⟨hs, rfl⟩

theorem inMemory_queues_packages (op : QueueOps.Op) (s : InMemory.InMemoryInner V) :
    (QueueOps.step InMemory.storage op s).2.keyPackagesByIdentity = s.keyPackagesByIdentity := by
  obtain ⟨welcomes, joinRequests, he⟩ := InMemory.queues_frame op s
  rw [he]

theorem inMemory_keepsShelf :
    KeepsShelf (InMemory.storage : CoordinatorStorage V (InMemory.InMemoryInner V))
      MapShelved false where
  distinct s _ h := by simp at h
  all s _ := rfl
  identity s x hs := by
    rw [InMemory.stored_eq, InMemory.identity_contents _ hs]
    rfl
  get s x _ := InMemory.get_result x s
  remove s x hs := by
    refine ⟨InMemory.remove_result x s, ?_, InMemory.remove_contents x s⟩
    change InMemory.OwnKeys (InMemory.removeKeyPackage x s).2.keyPackagesByIdentity
    cases hw : withRef s.keyPackagesByIdentity.contents x with
    | none => rwa [InMemory.remove_none x s hw]
    | some r => exact (InMemory.remove_removed x s r hw).keyed hs
  consume s x hs := by
    obtain ⟨hres, heff⟩ := InMemory.consume_spec x s hs
    rw [InMemory.stored_eq, InMemory.stored_eq]
    refine ⟨hres, ?_, ?_⟩
    · change InMemory.OwnKeys (InMemory.consumeKeyPackage x s).2.keyPackagesByIdentity
      split at heff
      · rwa [heff]
      · split at heff
        · rwa [heff]
        · exact heff.keyed hs
    · change Consumed _ _ (InMemory.consumeKeyPackage x s).2.keyPackagesByIdentity.contents
      cases ht : taken s.keyPackagesByIdentity.contents x with
      | none =>
        simp only [ht] at heff
        simp only [Consumed, heff]
      | some r =>
        simp only [ht] at heff
        simp only [Consumed]
        split
        · rename_i hr
          rw [if_pos hr] at heff
          rw [heff]
        · rename_i hr
          rw [if_neg hr] at heff
          exact removed_inserted heff
  refuse s record _ h := by simp [Refused] at h
  accept s record hs _ :=
    ⟨rfl, IndexMap.keyed_pushBack _ _ record hs,
      IndexMap.contents_pushBack s.keyPackagesByIdentity record.stablePubkey record⟩
  storeWelcome record := inMemory_leavesShelf _ (inMemory_queues_packages (.storeWelcome record))
  fetchPendingWelcomes pk consumed :=
    inMemory_leavesShelf _ (inMemory_queues_packages (.fetchPendingWelcomes pk consumed))
  storeJoinRequest record :=
    inMemory_leavesShelf _ (inMemory_queues_packages (.storeJoinRequest record))
  fetchManyPendingJoinRequests groups consumed :=
    inMemory_leavesShelf _
      (inMemory_queues_packages (.fetchManyPendingJoinRequests groups consumed))
  appendGroupMessage params := inMemory_leavesShelf _ (fun _ => rfl)
  fetchManyGroupMessages groups := inMemory_leavesShelf _ (fun _ => rfl)

def TableShelved (json : Sqlite.SerdeJson V) (db : Sqlite.Database) : Prop :=
  ∃ l, Sqlite.Represents json db l

theorem sqlite_leavesShelf {α : Type} {json : Sqlite.SerdeJson V} (hj : json.RoundTrips)
    (op : Locked Sqlite.Database α) (h : ∀ db, (op db).2.keyPackages = db.keyPackages) :
    LeavesShelf (Sqlite.storage json) (TableShelved json) op := by
  rintro db ⟨l, hl, hu⟩
  have hl' : (op db).2.keyPackages.contents = l.map (Sqlite.rowOf json) := by rw [h, hl]
  exact ⟨⟨l, hl', hu⟩, by rw [Sqlite.stored_eq hj hl, Sqlite.stored_eq hj hl']⟩

theorem sqlite_queues_packages (json : Sqlite.SerdeJson V) (op : QueueOps.Op)
    (db : Sqlite.Database) :
    (QueueOps.step (Sqlite.storage json) op db).2.keyPackages = db.keyPackages := by
  obtain ⟨welcomes, joinRequests, he⟩ := Sqlite.queues_frame json op db
  rw [he]

theorem sqlite_messages_packages (json : Sqlite.SerdeJson V) (op : GroupLogOps.Op)
    (db : Sqlite.Database) :
    (GroupLogOps.step (Sqlite.storage json) op db).2.keyPackages = db.keyPackages := by
  obtain ⟨routing, messages, he⟩ := Sqlite.messages_frame json op db
  rw [he]

theorem eraseP_eq_without {l : KeyShelf V} (h : UniqueRefs l) (x : String) :
    l.eraseP (hasRef x) = without l x :=
  KeyedList.eraseP_eq_filter PublishedKeyPackageRecord.keyPackageRef l h x

theorem leftBehind_consumed {l : KeyShelf V} (h : UniqueRefs l)
    (o : Option (PublishedKeyPackageRecord V)) (ho : ∀ r ∈ o, r ∈ l) :
    Consumed l o (leftBehind l o) := by
  cases o with
  | none => rfl
  | some r =>
    simp only [Consumed, leftBehind]
    split
    · rfl
    · obtain ⟨xs, ys, rfl⟩ := List.append_of_mem (ho r rfl)
      exact ⟨xs, ys, without_split xs ys r h, rfl⟩

theorem sqlite_keepsShelf {json : Sqlite.SerdeJson V} (hj : json.RoundTrips) :
    KeepsShelf (Sqlite.storage json) (TableShelved json) true where
  distinct db := by
    rintro ⟨l, hl, hu⟩ -
    rwa [Sqlite.stored_eq hj hl]
  all db := by
    rintro ⟨l, hl, -⟩
    rw [Sqlite.stored_eq hj hl]
    change (((db.keyPackages.select (fun _ => true) SqlTable.byId).mapM
      (Sqlite.rowToKeyPackage json)), db) = _
    rw [SqlTable.select_byId, List.filter_true, hl, hj.rows]
  identity db x := by
    rintro ⟨l, hl, -⟩
    rw [Sqlite.stored_eq hj hl]
    change ((db.keyPackages.select (Sqlite.hasIdentity x) SqlTable.byId).mapM
      (Sqlite.rowToKeyPackage json), db) = _
    rw [Sqlite.select_identity hl, hj.rows]
  get db x := by
    rintro ⟨l, hl, -⟩
    rw [Sqlite.stored_eq hj hl]
    exact Sqlite.get_result hj hl x
  remove db x := by
    rintro ⟨l, hl, hu⟩
    obtain ⟨hres, hleft⟩ := Sqlite.remove_result hj hl x
    rw [Sqlite.stored_eq hj hl, eraseP_eq_without hu]
    exact ⟨hres, ⟨_, hleft, hu.without x⟩, Sqlite.stored_eq hj hleft⟩
  consume db x := by
    rintro ⟨l, hl, hu⟩
    obtain ⟨hres, hleft⟩ := Sqlite.consume_result hj hl x
    rw [Sqlite.stored_eq hj hl]
    refine ⟨hres, ⟨_, hleft, hu.leftBehind _⟩, ?_⟩
    have hafter : stored (Sqlite.storage json) ((Sqlite.storage json).consumeKeyPackage x db).2 =
        leftBehind l (taken l x) := Sqlite.stored_eq hj hleft
    rw [hafter]
    exact leftBehind_consumed hu _ (fun r hr => taken_mem hr)
  refuse db record := by
    rintro ⟨l, hl, -⟩ ⟨-, r, hr, href⟩
    rw [Sqlite.stored_eq hj hl] at hr
    exact ⟨_, Sqlite.publish_conflict hj hl record r hr href⟩
  accept db record := by
    rintro ⟨l, hl, hu⟩ hn
    rw [Sqlite.stored_eq hj hl] at hn ⊢
    have hf : Fresh (.publish record) l := fun r hr href => hn ⟨rfl, r, hr, href⟩
    have hp := Sqlite.publish_fresh hj hl record hf
    have hafter : (Sqlite.publishKeyPackage json record db).2.keyPackages.contents =
        (l ++ [record]).map (Sqlite.rowOf json) := by
      rw [hp]
      simp [hl]
    refine ⟨congrArg Prod.fst hp, ⟨_, hafter, hu.publish record hf⟩, l, [], by simp, ?_⟩
    exact Sqlite.stored_eq hj hafter
  storeWelcome record :=
    sqlite_leavesShelf hj _ (sqlite_queues_packages json (.storeWelcome record))
  fetchPendingWelcomes pk consumed :=
    sqlite_leavesShelf hj _ (sqlite_queues_packages json (.fetchPendingWelcomes pk consumed))
  storeJoinRequest record :=
    sqlite_leavesShelf hj _ (sqlite_queues_packages json (.storeJoinRequest record))
  fetchManyPendingJoinRequests groups consumed :=
    sqlite_leavesShelf hj _
      (sqlite_queues_packages json (.fetchManyPendingJoinRequests groups consumed))
  appendGroupMessage params :=
    sqlite_leavesShelf hj _ (sqlite_messages_packages json (.append params))
  fetchManyGroupMessages groups :=
    sqlite_leavesShelf hj _ (sqlite_messages_packages json (.fetchMany groups))

end Cordn.KeyPackageOps
