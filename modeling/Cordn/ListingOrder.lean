import Cordn.KeyPackageShelf

/-!
# The order in which the backends list

The table lists by row id, the map identity by identity. They agree with the order
of publication exactly as long as no identity publishes behind another one's
package while it has packages of its own stored.
-/

set_option autoImplicit false

namespace Cordn.KeyPackageOps
open IndexMap

variable {V : Type}

abbrev Beside (V : Type) : Type := InMemory.InMemoryInner V × Sqlite.Database × KeyShelf V

def besideStep (json : Sqlite.SerdeJson V) (op : Op V) (s : Beside V) : Answer V × Beside V :=
  ((shelfStep op s.2.2).1, (step InMemory.storage op s.1).2,
    (step (Sqlite.storage json) op s.2.1).2, (shelfStep op s.2.2).2)

def besideNew : Beside V := (InMemory.InMemoryInner.default, Sqlite.Database.new, [])

/-- A publish by an identity with stored packages, the newest stored one another's. -/
def Interleaves (op : Op V) (l : KeyShelf V) : Prop :=
  ∃ r, op = .publish r ∧ (∃ q ∈ l, q.stablePubkey = r.stablePubkey) ∧
    ∀ q ∈ l.getLast?, q.stablePubkey ≠ r.stablePubkey

structure Listings (json : Sqlite.SerdeJson V) (ops : List (Op V)) : Prop where
  sqlite : Run.Throughout (fun s => ((Sqlite.storage json).listAllKeyPackages s.2.1).1 = .ok s.2.2)
    (besideStep json) ops besideNew
  memory : Run.Throughout (fun s => (InMemory.storage.listAllKeyPackages s.1).1 = .ok s.2.2)
      (besideStep json) ops besideNew ↔
    Run.Along (fun op l => ¬Interleaves op l) shelfStep ops []
  same : Run.Throughout (fun s => (InMemory.storage.listAllKeyPackages s.1).1 =
        ((Sqlite.storage json).listAllKeyPackages s.2.1).1) (besideStep json) ops besideNew ↔
    Run.Along (fun op l => ¬Interleaves op l) shelfStep ops []

theorem consumed_leftBehind {l l' : KeyShelf V} (h : UniqueRefs l)
    {o : Option (PublishedKeyPackageRecord V)} (hc : Consumed l o l') : l' = leftBehind l o := by
  cases o with
  | none => exact hc
  | some r =>
    simp only [Consumed, leftBehind] at hc ⊢
    split at hc
    · rename_i hlast
      rw [if_pos hlast, hc]
    · rename_i hlast
      obtain ⟨before, behind, rfl, rfl⟩ := hc
      rw [if_neg hlast, without_split before behind r h]

theorem memory_filled (op : Op V) (s : InMemory.InMemoryInner V)
    (h : Filled s.keyPackagesByIdentity) :
    Filled (step InMemory.storage op s).2.keyPackagesByIdentity := by
  cases op with
  | publish r => exact h.pushBack _ r
  | get x => exact h
  | list x => exact h
  | remove x =>
    change Filled (InMemory.removeKeyPackage x s).2.keyPackagesByIdentity
    unfold InMemory.removeKeyPackage
    split
    · exact h
    · exact h.putBack _ _
  | consume x =>
    change Filled (InMemory.consumeKeyPackage x s).2.keyPackagesByIdentity
    unfold InMemory.consumeKeyPackage
    split
    · split
      · exact h
      · exact h.putBack _ _
    · split
      · exact h.putBack _ _
      · exact h

theorem memory_listing (op : Op V) (s : InMemory.InMemoryInner V) (l : KeyShelf V)
    (hs : InMemory.Represents s l) (hf : Filled s.keyPackagesByIdentity) (hop : Fresh op l)
    (hl : stored InMemory.storage s = l) :
    stored InMemory.storage (step InMemory.storage op s).2 = (shelfStep op l).2 ↔
      ¬Interleaves op l := by
  have hkeyed : MapShelved s := hs.1.keyed
  cases op with
  | publish r =>
    have hpush := contents_pushBack_last hkeyed hf r
    rw [← InMemory.stored_eq, hl] at hpush
    refine hpush.trans ?_
    simp only [Interleaves, Op.publish.injEq, not_exists, not_and, not_forall, not_not]
    constructor
    · rintro h q rfl hown
      obtain ⟨b, hb, hkey⟩ := h hown
      exact ⟨b, hb, hkey⟩
    · intro h hown
      obtain ⟨b, hb, hkey⟩ := h r rfl hown
      exact ⟨b, hb, hkey⟩
  | get x =>
    refine iff_of_true ?_ (by simp [Interleaves])
    have hstate : (step InMemory.storage (.get x) s).2 = s :=
      congrArg Prod.snd (inMemory_keepsShelf.get s x hkeyed)
    rw [hstate]
    exact hl
  | list x => exact iff_of_true hl (by simp [Interleaves])
  | remove x =>
    refine iff_of_true ?_ (by simp [Interleaves])
    obtain ⟨-, -, hleft⟩ := inMemory_keepsShelf.remove s x hkeyed
    rw [hl, eraseP_eq_without hs.2] at hleft
    exact hleft
  | consume x =>
    refine iff_of_true ?_ (by simp [Interleaves])
    obtain ⟨-, -, hleft⟩ := inMemory_keepsShelf.consume s x hkeyed
    rw [hl] at hleft
    exact consumed_leftBehind hs.2 hleft

section Runs

variable {json : Sqlite.SerdeJson V}

structure Held (json : Sqlite.SerdeJson V) (s : Beside V) : Prop where
  memory : InMemory.Represents s.1 s.2.2
  filled : Filled s.1.keyPackagesByIdentity
  sqlite : Sqlite.Represents json s.2.1 s.2.2

theorem Held.new : Held json (besideNew : Beside V) where
  memory := ⟨Holds.empty _, List.nodup_nil⟩
  filled := filled_empty
  sqlite := ⟨rfl, List.nodup_nil⟩

theorem Held.step (hj : json.RoundTrips) {s : Beside V} (h : Held json s) (op : Op V)
    (hop : Fresh op s.2.2) : Held json (besideStep json op s).2 where
  memory := (InMemory.step_represents op s.1 s.2.2 h.memory hop).2
  filled := memory_filled op s.1 h.filled
  sqlite := (Sqlite.step_represents hj op s.2.1 s.2.2 h.sqlite hop).2

theorem Held.sqlite_lists (hj : json.RoundTrips) {s : Beside V} (h : Held json s) :
    ((Sqlite.storage json).listAllKeyPackages s.2.1).1 = .ok s.2.2 := by
  have hall := (sqlite_keepsShelf hj).all s.2.1 ⟨_, h.sqlite⟩
  rw [Sqlite.stored_eq hj h.sqlite.1] at hall
  exact congrArg Prod.fst hall

theorem memory_lists (s : InMemory.InMemoryInner V) (l : KeyShelf V) :
    (InMemory.storage.listAllKeyPackages s).1 = .ok l ↔ stored InMemory.storage s = l := by
  change Except.ok (stored InMemory.storage s) = .ok l ↔ _
  simp

/-- In every run of fresh publishes the table lists in order of publication, and the
map does, and lists the same, exactly when no publish of the run interleaves. -/
theorem listing_order (json : Sqlite.SerdeJson V) (hj : json.RoundTrips) (ops : List (Op V))
    (hok : Run.Along Fresh shelfStep ops []) : Listings json ops := by
  have hfresh : Run.Along (fun op s => Fresh op s.2.2) (besideStep json) ops besideNew :=
    (Run.along_part _ _ (fun s => s.2.2) (fun _ _ => rfl) Fresh ops besideNew).mpr hok
  have hheld : Run.Throughout (Held json) (besideStep json) ops besideNew :=
    Run.throughout_of_along _ _ _ (fun op s h hop => h.step hj op hop) ops _ hfresh Held.new
  have hmemory : Run.Throughout (fun s => (InMemory.storage.listAllKeyPackages s.1).1 = .ok s.2.2)
      (besideStep json) ops besideNew ↔
      Run.Along (fun op l => ¬Interleaves op l) shelfStep ops [] := by
    have hruns := Run.along_part (besideStep json) shelfStep (fun s => s.2.2) (fun _ _ => rfl)
      (fun op l => ¬Interleaves op l) ops besideNew
    refine Iff.trans ?_ hruns
    refine Run.throughout_iff_along _ (Held json) _ (fun op s => Fresh op s.2.2)
      (fun op s => Interleaves op s.2.2) (fun op s h hop => h.step hj op hop) ?_ ops _ hfresh
      Held.new rfl
    intro op s h hop hl
    rw [memory_lists] at hl ⊢
    exact memory_listing op s.1 s.2.2 h.memory h.filled hop hl
  refine ⟨hheld.mono fun s h => h.sqlite_lists hj, hmemory, ?_⟩
  rw [← hmemory]
  have hsame : ∀ s, Held json s → ((InMemory.storage.listAllKeyPackages s.1).1 =
      ((Sqlite.storage json).listAllKeyPackages s.2.1).1 ↔
      (InMemory.storage.listAllKeyPackages s.1).1 = .ok s.2.2) := by
    intro s h
    rw [h.sqlite_lists hj]
  exact hheld.congr hsame

end Runs

/-- Alice publishes, Bob publishes, Alice publishes again. -/
def aliceBobAlice : List (Op Bool) :=
  [.publish ⟨"alice", [1], "a-1", false, 0, true⟩, .publish ⟨"bob", [2], "b-1", false, 0, true⟩,
    .publish ⟨"alice", [3], "a-2", false, 0, true⟩]

theorem listing_order_sample : Listings Sqlite.jsonBool aliceBobAlice :=
  listing_order Sqlite.jsonBool Sqlite.jsonBool_roundTrips aliceBobAlice
    ⟨by simp [Fresh], by simp [Fresh, shelfStep], by simp [Fresh, shelfStep], trivial⟩

/-- The map lists Alice's second package before Bob's, which was published earlier. -/
theorem listing_regrouped :
    Run.Along Fresh shelfStep aliceBobAlice [] ∧
      (Run.after (besideStep Sqlite.jsonBool) aliceBobAlice besideNew).2.2.map
        (fun r => r.keyPackageRef) = ["a-1", "b-1", "a-2"] ∧
      (stored InMemory.storage
        (Run.after (besideStep Sqlite.jsonBool) aliceBobAlice besideNew).1).map
        (fun r => r.keyPackageRef) = ["a-1", "a-2", "b-1"] ∧
      (stored (Sqlite.storage Sqlite.jsonBool)
        (Run.after (besideStep Sqlite.jsonBool) aliceBobAlice besideNew).2.1).map
        (fun r => r.keyPackageRef) = ["a-1", "b-1", "a-2"] := by
  refine ⟨⟨by simp [Fresh], by simp [Fresh, shelfStep], by simp [Fresh, shelfStep], trivial⟩, ?_⟩
  decide +kernel

end Cordn.KeyPackageOps
