import Cordn.KeyPackageOps

/-!
# Key packages in the in-memory map

What each key-package operation does to the map's contents, read in iteration
order. Refs may repeat here: this backend has no uniqueness check.
-/

set_option autoImplicit false

namespace Cordn.InMemory
open KeyPackageOps IndexMap

variable {V : Type}

abbrev Packages (V : Type) := IndexMap String (List (PublishedKeyPackageRecord V))

abbrev OwnKeys (m : Packages V) : Prop := Keyed PublishedKeyPackageRecord.stablePubkey m

/-- Record `r` stands at `index` under `pk`, with `before` and `behind` around
it in iteration order. -/
def At (m : Packages V) (pk : String) (index : ℕ) (r : PublishedKeyPackageRecord V)
    (before behind : KeyShelf V) : Prop :=
  ∃ pre post xs ys, m.entries = pre ++ (pk, xs ++ r::ys)::post ∧ xs.length = index ∧
    before = (pre.map Prod.snd).flatten ++ xs ∧ behind = ys ++ (post.map Prod.snd).flatten

def Removed (m : Packages V) (r : PublishedKeyPackageRecord V) (m' : Packages V) : Prop :=
  ∃ pk index before behind, At m pk index r before behind ∧ m' = removeAt m pk index

theorem At.contents {m : Packages V} {pk : String} {index : ℕ}
    {r : PublishedKeyPackageRecord V} {before behind : KeyShelf V}
    (h : At m pk index r before behind) : m.contents = before ++ r::behind := by
  obtain ⟨pre, post, xs, ys, hs, -, rfl, rfl⟩ := h
  simp [contents_split m pk _ pre post hs]

theorem At.bucket {m : Packages V} {pk : String} {index : ℕ}
    {r : PublishedKeyPackageRecord V} {before behind : KeyShelf V}
    (h : At m pk index r before behind) :
    ∃ xs ys, m.bucket pk = xs ++ r::ys ∧ (m.bucket pk).eraseIdx index = xs ++ ys := by
  obtain ⟨pre, post, xs, ys, hs, rfl, -, -⟩ := h
  refine ⟨xs, ys, split_bucket m pk _ pre post hs, ?_⟩
  rw [split_bucket m pk _ pre post hs, List.eraseIdx_append_of_length_le (le_refl _)]
  simp

theorem At.removeAt_contents {m : Packages V} {pk : String} {index : ℕ}
    {r : PublishedKeyPackageRecord V} {before behind : KeyShelf V}
    (h : At m pk index r before behind) : (removeAt m pk index).contents = before ++ behind := by
  obtain ⟨pre, post, xs, ys, hs, rfl, rfl, rfl⟩ := h
  rw [removeAt, contents_putBack m pk _ _ pre post hs, split_bucket m pk _ pre post hs,
    List.eraseIdx_append_of_length_le (le_refl _)]
  simp

theorem At.own_key {m : Packages V} {pk : String} {index : ℕ}
    {r : PublishedKeyPackageRecord V} {before behind : KeyShelf V}
    (h : At m pk index r before behind) (hk : OwnKeys m) : r.stablePubkey = pk := by
  obtain ⟨xs, ys, hb, -⟩ := h.bucket
  exact hk pk r (by simp [hb])

theorem removeAt_keyed (m : Packages V) (pk : String) (index : ℕ) (h : OwnKeys m) :
    OwnKeys (removeAt m pk index) :=
  keyed_putBack _ m pk _ h (fun _ ha => List.mem_of_mem_eraseIdx ha)

theorem Removed.perm {m m' : Packages V} {r : PublishedKeyPackageRecord V}
    (h : Removed m r m') : m.contents.Perm (r::m'.contents) := by
  obtain ⟨pk, index, before, behind, hat, rfl⟩ := h
  rw [hat.contents, hat.removeAt_contents]
  exact List.perm_middle

theorem Removed.keyed {m m' : Packages V} {r : PublishedKeyPackageRecord V}
    (h : Removed m r m') (hk : OwnKeys m) : OwnKeys m' := by
  obtain ⟨pk, index, before, behind, -, rfl⟩ := h
  exact removeAt_keyed m pk index hk

theorem locateIn_eq_none (x : String) (es : List (String × KeyShelf V)) :
    locateIn x es = none ↔ ∀ r ∈ (es.map Prod.snd).flatten, r.keyPackageRef ≠ x := by
  induction es with
  | nil => simp [locateIn]
  | cons e es ih =>
    obtain ⟨pk, records⟩ := e
    simp only [locateIn, List.map_cons, List.flatten_cons, List.mem_append]
    cases hp : position (fun r => decide (r.keyPackageRef = x)) records with
    | none =>
      have hn := (position_eq_none _ _).mp hp
      simp only [decide_eq_false_iff_not] at hn
      rw [ih]
      constructor
      · rintro h r (hr | hr)
        · exact hn r hr
        · exact h r hr
      · exact fun h r hr => h r (Or.inr hr)
    | some found =>
      obtain ⟨xs, ys, rfl, -, hr, -⟩ := position_split _ _ found.1 found.2 hp
      simp only [reduceCtorEq, false_iff, not_forall]
      exact ⟨found.2, Or.inl (by simp), by simpa using hr⟩

theorem locateIn_split (x : String) (es : List (String × KeyShelf V)) (loc : Located V)
    (h : locateIn x es = some loc) :
    loc.record.keyPackageRef = x ∧
      ∃ pre post xs ys, es = pre ++ (loc.stablePubkey, xs ++ loc.record::ys)::post ∧
        xs.length = loc.index ∧
        ∀ r ∈ (pre.map Prod.snd).flatten ++ xs, r.keyPackageRef ≠ x := by
  induction es with
  | nil => simp [locateIn] at h
  | cons e es ih =>
    obtain ⟨pk, records⟩ := e
    simp only [locateIn] at h
    cases hp : position (fun r => decide (r.keyPackageRef = x)) records with
    | none =>
      rw [hp] at h
      obtain ⟨hx, pre, post, xs, ys, rfl, hi, hb⟩ := ih h
      have hn := (position_eq_none _ _).mp hp
      refine ⟨hx, (pk, records)::pre, post, xs, ys, rfl, hi, ?_⟩
      intro r hr
      simp only [List.map_cons, List.flatten_cons, List.append_assoc, List.mem_append] at hr
      rcases hr with hr | hr
      · simpa using hn r hr
      · exact hb r (List.mem_append.mpr hr)
    | some found =>
      rw [hp] at h
      obtain ⟨xs, ys, rfl, hi, hr, hxs⟩ := position_split _ _ found.1 found.2 hp
      obtain rfl := Option.some.inj h
      exact ⟨by simpa using hr, [], es, xs, ys, rfl, hi, by simpa using hxs⟩

theorem locate_none (m : Packages V) (x : String) (h : locateByRef m x = none) :
    withRef m.contents x = none := by
  apply List.find?_eq_none.mpr
  intro r hr
  simpa [hasRef] using (locateIn_eq_none x m.entries).mp h r hr

theorem locate_some (m : Packages V) (x : String) (loc : Located V)
    (h : locateByRef m x = some loc) :
    withRef m.contents x = some loc.record ∧
      ∃ before behind, At m loc.stablePubkey loc.index loc.record before behind ∧
        ∀ r ∈ before, hasRef x r = false := by
  obtain ⟨hx, pre, post, xs, ys, hs, hi, hb⟩ := locateIn_split x m.entries loc h
  have hat : At m loc.stablePubkey loc.index loc.record
      ((pre.map Prod.snd).flatten ++ xs) (ys ++ (post.map Prod.snd).flatten) :=
    ⟨pre, post, xs, ys, hs, hi, rfl, rfl⟩
  have hbefore : ∀ r ∈ (pre.map Prod.snd).flatten ++ xs, hasRef x r = false :=
    fun r hr => by simpa [hasRef] using hb r hr
  refine ⟨?_, _, _, hat, hbefore⟩
  rw [withRef, hat.contents, List.find?_append, List.find?_eq_none.mpr (by simpa using hbefore)]
  simp [hasRef, hx]

theorem stored_eq (s : InMemoryInner V) :
    stored storage s = s.keyPackagesByIdentity.contents := rfl

theorem get_result (x : String) (s : InMemoryInner V) :
    getKeyPackage x s = (.ok (withRef s.keyPackagesByIdentity.contents x), s) := by
  unfold getKeyPackage
  cases hl : locateByRef s.keyPackagesByIdentity x with
  | none => rw [locate_none _ x hl, Option.map_none]
  | some loc => rw [(locate_some _ x loc hl).1, Option.map_some]

theorem remove_result (x : String) (s : InMemoryInner V) :
    (removeKeyPackage x s).1 = .ok (withRef s.keyPackagesByIdentity.contents x) := by
  unfold removeKeyPackage
  cases hl : locateByRef s.keyPackagesByIdentity x with
  | none => rw [locate_none _ x hl]
  | some loc => rw [(locate_some _ x loc hl).1]

theorem remove_contents (x : String) (s : InMemoryInner V) :
    (removeKeyPackage x s).2.keyPackagesByIdentity.contents =
      s.keyPackagesByIdentity.contents.eraseP (hasRef x) := by
  unfold removeKeyPackage
  cases hl : locateByRef s.keyPackagesByIdentity x with
  | none =>
    exact (List.eraseP_of_forall_not (List.find?_eq_none.mp (locate_none _ x hl))).symm
  | some loc =>
    obtain ⟨hw, before, behind, hat, hb⟩ := locate_some _ x loc hl
    have hx : hasRef x loc.record = true := List.find?_some hw
    rw [hat.contents, hat.removeAt_contents, List.eraseP_append_right _ (by simpa using hb),
      List.eraseP_cons_of_pos hx]

theorem remove_removed (x : String) (s : InMemoryInner V) (r : PublishedKeyPackageRecord V)
    (h : withRef s.keyPackagesByIdentity.contents x = some r) :
    Removed s.keyPackagesByIdentity r (removeKeyPackage x s).2.keyPackagesByIdentity := by
  unfold removeKeyPackage
  cases hl : locateByRef s.keyPackagesByIdentity x with
  | none => simp [locate_none _ x hl] at h
  | some loc =>
    obtain ⟨hw, before, behind, hat, -⟩ := locate_some _ x loc hl
    rw [hw, Option.some.injEq] at h
    exact ⟨loc.stablePubkey, loc.index, before, behind, h ▸ hat, rfl⟩

theorem remove_none (x : String) (s : InMemoryInner V)
    (h : withRef s.keyPackagesByIdentity.contents x = none) : (removeKeyPackage x s).2 = s := by
  unfold removeKeyPackage
  cases hl : locateByRef s.keyPackagesByIdentity x with
  | none => rfl
  | some loc => simp [(locate_some _ x loc hl).1] at h

theorem identity_contents (m : Packages V) (h : OwnKeys m) (x : String) :
    m.contents.filter (hasIdentity x) = m.bucket x :=
  contents_filter _ m h x

theorem at_of_bucket (m : Packages V) (pk : String) (xs ys : KeyShelf V)
    (r : PublishedKeyPackageRecord V) (h : m.bucket pk = xs ++ r::ys) :
    ∃ before behind, At m pk xs.length r before behind := by
  cases hm : m.get? pk with
  | none => simp [bucket, hm] at h
  | some as =>
    obtain ⟨pre, post, hs⟩ := split_of_get? m pk as hm
    rw [split_bucket m pk as pre post hs] at h
    exact ⟨_, _, pre, post, xs, ys, h ▸ hs, rfl, rfl, rfl⟩

/-- The package an identifier resolves to: the first with it as its ref, else the
first regular one of the identity, else the identity's last one. -/
def resolved (m : Packages V) (x : String) : Option (PublishedKeyPackageRecord V) :=
  (withRef m.contents x).or
    (((m.bucket x).find? (fun r => !r.isLastResort)).or (m.bucket x).getLast?)

theorem consume_resolved (x : String) (s : InMemoryInner V) :
    (consumeKeyPackage x s).1 = .ok (resolved s.keyPackagesByIdentity x) ∧
      match resolved s.keyPackagesByIdentity x with
      | none => (consumeKeyPackage x s).2 = s
      | some r => if r.isLastResort then (consumeKeyPackage x s).2 = s
        else Removed s.keyPackagesByIdentity r
          (consumeKeyPackage x s).2.keyPackagesByIdentity := by
  unfold consumeKeyPackage resolved
  cases hl : locateByRef s.keyPackagesByIdentity x with
  | some loc =>
    obtain ⟨hw, before, behind, hat, -⟩ := locate_some _ x loc hl
    cases hr : loc.record.isLastResort with
    | true => simp [hw, hr]
    | false =>
      simp only [hw, Option.some_or, hr, Bool.false_eq_true, if_false, true_and]
      exact ⟨loc.stablePubkey, loc.index, before, behind, hat, rfl⟩
  | none =>
    simp only [locate_none _ x hl, Option.none_or]
    cases hp : position (fun r => !r.isLastResort) (s.keyPackagesByIdentity.bucket x) with
    | some found =>
      obtain ⟨xs, ys, hb, hi, hr, hxs⟩ := position_split _ _ found.1 found.2 hp
      have hfind : (s.keyPackagesByIdentity.bucket x).find? (fun r => !r.isLastResort) =
          some found.2 := by
        rw [hb]
        exact List.find?_eq_some_iff_append.mpr ⟨hr, xs, ys, rfl, by simpa using hxs⟩
      have hregular : found.2.isLastResort = false := by simpa using hr
      obtain ⟨before, behind, hat⟩ := at_of_bucket s.keyPackagesByIdentity x xs ys found.2 hb
      simp only [hfind, Option.some_or, hregular, Bool.false_eq_true, if_false, true_and]
      exact ⟨x, found.1, before, behind, hi ▸ hat, rfl⟩
    | none =>
      have hall := (position_eq_none _ _).mp hp
      have hfind : (s.keyPackagesByIdentity.bucket x).find? (fun r => !r.isLastResort) = none :=
        List.find?_eq_none.mpr (by simpa using hall)
      simp only [hfind, Option.none_or, true_and]
      cases hg : (s.keyPackagesByIdentity.bucket x).getLast? with
      | none => trivial
      | some r =>
        have hr : r.isLastResort = true := by simpa using hall r (List.mem_of_getLast? hg)
        simp [hr]

theorem resolved_eq (m : Packages V) (h : OwnKeys m) (x : String) :
    resolved m x = taken m.contents x := by
  rw [resolved, taken, oldestRegular_filter, newestLastResort_filter, identity_contents m h]
  cases ho : (m.bucket x).find? (fun r => !r.isLastResort) with
  | some r => rfl
  | none =>
    have hall : (m.bucket x).filter (fun r => r.isLastResort) = m.bucket x := by
      apply List.filter_eq_self.mpr
      intro r hr
      simpa using List.find?_eq_none.mp ho r hr
    rw [hall]

theorem consume_spec (x : String) (s : InMemoryInner V) (h : OwnKeys s.keyPackagesByIdentity) :
    (consumeKeyPackage x s).1 = .ok (taken s.keyPackagesByIdentity.contents x) ∧
    match taken s.keyPackagesByIdentity.contents x with
    | none => (consumeKeyPackage x s).2 = s
    | some r => if r.isLastResort then (consumeKeyPackage x s).2 = s
        else Removed s.keyPackagesByIdentity r
          (consumeKeyPackage x s).2.keyPackagesByIdentity := by
  have hres := consume_resolved x s
  rwa [resolved_eq _ h] at hres

def Represents (s : InMemoryInner V) (l : KeyShelf V) : Prop :=
  Holds PublishedKeyPackageRecord.stablePubkey s.keyPackagesByIdentity l ∧ UniqueRefs l

theorem Removed.holds {m m' : Packages V} {r : PublishedKeyPackageRecord V} {l : KeyShelf V}
    (h : Removed m r m') (hl : Holds PublishedKeyPackageRecord.stablePubkey m l)
    (hu : UniqueRefs l) :
    Holds PublishedKeyPackageRecord.stablePubkey m' (without l r.keyPackageRef) := by
  obtain ⟨pk, index, before, behind, hat, rfl⟩ := h
  have hown := hat.own_key hl.keyed
  have hmem : r ∈ l := hl.perm.mem_iff.mp (by simp [hat.contents])
  obtain ⟨xs, ys, hb, he⟩ := hat.bucket
  have hub : UniqueRefs (m.bucket pk) := by
    rw [hl pk]
    exact hu.sublist (List.filter_sublist.map _)
  have herase : (m.bucket pk).eraseIdx index =
      (m.bucket pk).filter (fun a => !hasRef r.keyPackageRef a) := by
    rw [he]
    rw [hb] at hub ⊢
    exact (without_split xs ys r hub).symm
  have hrest : l.filter (fun a => decide (a.stablePubkey ≠ pk) || !hasRef r.keyPackageRef a) =
      without l r.keyPackageRef := by
    apply List.filter_congr
    intro a ha
    by_cases href : a.keyPackageRef = r.keyPackageRef
    · have har : a = r := hu.eq ha hmem href
      simp [hasRef, har, hown]
    · simp [hasRef, href]
  rw [removeAt, herase, ← hrest]
  exact hl.putBack pk _

theorem identity_order {m : Packages V} {l : KeyShelf V}
    (h : Holds PublishedKeyPackageRecord.stablePubkey m l) (x : String) :
    m.contents.filter (hasIdentity x) = l.filter (hasIdentity x) :=
  (identity_contents m h.keyed x).trans (h x)

/-- Iteration order and publication order agree on what a consume takes. -/
theorem taken_eq {m : Packages V} {l : KeyShelf V}
    (h : Holds PublishedKeyPackageRecord.stablePubkey m l) (hu : UniqueRefs l) (x : String) :
    taken m.contents x = taken l x := by
  rw [taken, taken, withRef_perm hu h.perm, oldestRegular_filter, oldestRegular_filter,
    newestLastResort_filter, newestLastResort_filter, identity_order h]

theorem step_represents (op : Op V) (s : InMemoryInner V) (l : KeyShelf V) (h : Represents s l)
    (hf : Fresh op l) :
    (step storage op s).1 = (shelfStep op l).1 ∧
      Represents (step storage op s).2 (shelfStep op l).2 := by
  obtain ⟨hl, hu⟩ := h
  cases op with
  | publish record => exact ⟨rfl, hl.pushBack record, hu.publish record hf⟩
  | get x =>
    have hg := get_result x s
    rw [withRef_perm hu hl.perm] at hg
    constructor
    · exact congrArg (fun r => Answer.found r.1) hg
    · change Represents (getKeyPackage x s).2 l
      rw [hg]
      exact ⟨hl, hu⟩
  | list x =>
    refine ⟨?_, hl, hu⟩
    change Answer.listed (.ok (s.keyPackagesByIdentity.bucket x)) = _
    rw [hl x]
    rfl
  | remove x =>
    have hres := remove_result x s
    rw [withRef_perm hu hl.perm] at hres
    refine ⟨congrArg Answer.found hres, ?_, hu.without x⟩
    change Holds _ (removeKeyPackage x s).2.keyPackagesByIdentity (without l x)
    cases hw : withRef l x with
    | none =>
      rw [remove_none x s (by rw [withRef_perm hu hl.perm, hw]), without_absent hw]
      exact hl
    | some r =>
      have hx := ((withRef_eq_some l hu x r).mp hw).2
      rw [← hx]
      exact (remove_removed _ s r (by rw [withRef_perm hu hl.perm, hx, hw])).holds hl hu
  | consume x =>
    obtain ⟨hres, heff⟩ := consume_spec x s hl.keyed
    rw [taken_eq hl hu] at hres heff
    refine ⟨congrArg Answer.found hres, ?_, hu.leftBehind _⟩
    change Holds _ (consumeKeyPackage x s).2.keyPackagesByIdentity (leftBehind l (taken l x))
    cases ht : taken l x with
    | none =>
      rw [ht] at heff
      simp only at heff
      rw [heff]
      exact hl
    | some r =>
      rw [ht] at heff
      simp only at heff
      simp only [leftBehind]
      split
      · rename_i hr
        rw [if_pos hr] at heff
        rw [heff]
        exact hl
      · rename_i hr
        rw [if_neg hr] at heff
        exact heff.holds hl hu

end Cordn.InMemory
