import Cordn.Lib.KeyedList
import Cordn.Lib.Run
import Cordn.InMemory
import Cordn.Sqlite

/-!
# The key-package operations as one machine

The five operations of either backend, run one after the other, and the one
abstract store both are measured against: a list in order of publication.
-/

set_option autoImplicit false

namespace Cordn.KeyPackageOps

variable {V σ : Type}

inductive Op (V : Type) where
  | publish (record : PublishedKeyPackageRecord V)
  | get (keyPackageRef : String)
  | list (stablePubkey : String)
  | remove (keyPackageRef : String)
  | consume (identifier : String)
  deriving DecidableEq, Repr

inductive Answer (V : Type) where
  | published (result : Except StorageError (PublishedKeyPackageRecord V))
  | listed (result : Except StorageError (List (PublishedKeyPackageRecord V)))
  | found (result : Except StorageError (Option (PublishedKeyPackageRecord V)))

def step (S : CoordinatorStorage V σ) : Op V → σ → Answer V × σ
  | .publish record, s => (S.publishKeyPackage record s).map .published id
  | .get keyPackageRef, s => (S.getKeyPackage keyPackageRef s).map .found id
  | .list stablePubkey, s => (S.listKeyPackagesForIdentity stablePubkey s).map .listed id
  | .remove keyPackageRef, s => (S.removeKeyPackage keyPackageRef s).map .found id
  | .consume identifier, s => (S.consumeKeyPackage identifier s).map .found id

def stored (S : CoordinatorStorage V σ) (s : σ) : List (PublishedKeyPackageRecord V) :=
  match (S.listAllKeyPackages s).1 with
  | .ok records => records
  | .error _ => []

abbrev KeyShelf (V : Type) := List (PublishedKeyPackageRecord V)

def hasRef (keyPackageRef : String) (r : PublishedKeyPackageRecord V) : Bool :=
  decide (r.keyPackageRef = keyPackageRef)

def hasIdentity (stablePubkey : String) (r : PublishedKeyPackageRecord V) : Bool :=
  decide (r.stablePubkey = stablePubkey)

def withRef (l : KeyShelf V) (keyPackageRef : String) : Option (PublishedKeyPackageRecord V) :=
  l.find? (hasRef keyPackageRef)

def without (l : KeyShelf V) (keyPackageRef : String) : KeyShelf V :=
  l.filter (fun r => !hasRef keyPackageRef r)

def oldestRegular (l : KeyShelf V) (stablePubkey : String) : Option (PublishedKeyPackageRecord V) :=
  l.find? (fun r => hasIdentity stablePubkey r && !r.isLastResort)

def newestLastResort (l : KeyShelf V) (stablePubkey : String) :
    Option (PublishedKeyPackageRecord V) :=
  (l.filter (fun r => hasIdentity stablePubkey r && r.isLastResort)).getLast?

/-- The package a consume takes: by ref, else the oldest regular one of the
identity, else its newest last-resort one. -/
def taken (l : KeyShelf V) (identifier : String) : Option (PublishedKeyPackageRecord V) :=
  (withRef l identifier).or ((oldestRegular l identifier).or (newestLastResort l identifier))

def leftBehind (l : KeyShelf V) : Option (PublishedKeyPackageRecord V) → KeyShelf V
  | none => l
  | some r => if r.isLastResort then l else without l r.keyPackageRef

def shelfStep : Op V → KeyShelf V → Answer V × KeyShelf V
  | .publish record, l => (.published (.ok record), l ++ [record])
  | .get keyPackageRef, l => (.found (.ok (withRef l keyPackageRef)), l)
  | .list stablePubkey, l => (.listed (.ok (l.filter (hasIdentity stablePubkey))), l)
  | .remove keyPackageRef, l =>
    (.found (.ok (withRef l keyPackageRef)), without l keyPackageRef)
  | .consume identifier, l =>
    (.found (.ok (taken l identifier)), leftBehind l (taken l identifier))

/-- A publish names a ref that no stored package carries. -/
def Fresh : Op V → KeyShelf V → Prop
  | .publish record, l => ∀ r ∈ l, r.keyPackageRef ≠ record.keyPackageRef
  | _, _ => True

def UniqueRefs (l : KeyShelf V) : Prop := (l.map PublishedKeyPackageRecord.keyPackageRef).Nodup

theorem oldestRegular_filter (l : KeyShelf V) (x : String) :
    oldestRegular l x = (l.filter (hasIdentity x)).find? (fun r => !r.isLastResort) := by
  rw [oldestRegular, List.find?_filter]
  simp

theorem newestLastResort_filter (l : KeyShelf V) (x : String) :
    newestLastResort l x =
      ((l.filter (hasIdentity x)).filter (fun r => r.isLastResort)).getLast? := by
  rw [newestLastResort, List.filter_filter]
  simp only [Bool.and_comm]

theorem UniqueRefs.eq {l : KeyShelf V} (h : UniqueRefs l) {r s : PublishedKeyPackageRecord V}
    (hr : r ∈ l) (hs : s ∈ l) (he : r.keyPackageRef = s.keyPackageRef) : r = s :=
  List.inj_on_of_nodup_map h hr hs he

theorem UniqueRefs.without {l : KeyShelf V} (h : UniqueRefs l) (x : String) :
    UniqueRefs (without l x) :=
  h.sublist (List.filter_sublist.map _)

theorem UniqueRefs.leftBehind {l : KeyShelf V} (h : UniqueRefs l)
    (o : Option (PublishedKeyPackageRecord V)) : UniqueRefs (leftBehind l o) := by
  cases o with
  | none => exact h
  | some r =>
    simp only [KeyPackageOps.leftBehind]
    split
    · exact h
    · exact h.without _

theorem UniqueRefs.publish {l : KeyShelf V} (h : UniqueRefs l) (r : PublishedKeyPackageRecord V)
    (hf : Fresh (.publish r) l) : UniqueRefs (l ++ [r]) := by
  rw [UniqueRefs, List.map_append, List.nodup_append]
  refine ⟨h, by simp, ?_⟩
  intro a ha b hb
  obtain ⟨s, hs, rfl⟩ := List.mem_map.mp ha
  obtain rfl := List.mem_singleton.mp hb
  exact hf s hs

theorem withRef_eq_some (l : KeyShelf V) (h : UniqueRefs l) (x : String)
    (r : PublishedKeyPackageRecord V) :
    withRef l x = some r ↔ r ∈ l ∧ r.keyPackageRef = x := by
  constructor
  · intro hf
    exact ⟨List.mem_of_find?_eq_some hf, by simpa [hasRef] using List.find?_some hf⟩
  · rintro ⟨hr, hx⟩
    cases hf : withRef l x with
    | none =>
      have hn := List.find?_eq_none.mp hf r hr
      simp [hasRef, hx] at hn
    | some s =>
      have hs : s.keyPackageRef = x := by simpa [hasRef] using List.find?_some hf
      rw [h.eq hr (List.mem_of_find?_eq_some hf) (hx.trans hs.symm)]

theorem withRef_perm {l l' : KeyShelf V} (h : UniqueRefs l) (hp : l'.Perm l) (x : String) :
    withRef l' x = withRef l x := by
  have h' : UniqueRefs l' := (hp.map _).nodup_iff.mpr h
  cases hf : withRef l x with
  | none =>
    apply List.find?_eq_none.mpr
    intro r hr
    exact List.find?_eq_none.mp hf r (hp.mem_iff.mp hr)
  | some r =>
    obtain ⟨hr, hx⟩ := (withRef_eq_some l h x r).mp hf
    exact (withRef_eq_some l' h' x r).mpr ⟨hp.mem_iff.mpr hr, hx⟩

theorem taken_mem {l : KeyShelf V} {x : String} {r : PublishedKeyPackageRecord V}
    (h : taken l x = some r) : r ∈ l := by
  simp only [taken, Option.or_eq_some_iff] at h
  rcases h with h | ⟨-, h | ⟨-, h⟩⟩
  · exact List.mem_of_find?_eq_some h
  · exact List.mem_of_find?_eq_some h
  · exact (List.mem_filter.mp (List.mem_of_getLast? h)).1

theorem without_absent {l : KeyShelf V} {x : String} (h : withRef l x = none) :
    without l x = l := by
  apply List.filter_eq_self.mpr
  intro r hr
  simpa using List.find?_eq_none.mp h r hr

theorem without_split (xs ys : KeyShelf V) (r : PublishedKeyPackageRecord V)
    (h : UniqueRefs (xs ++ r::ys)) : without (xs ++ r::ys) r.keyPackageRef = xs ++ ys :=
  KeyedList.filter_split PublishedKeyPackageRecord.keyPackageRef xs ys r h

end Cordn.KeyPackageOps
