import Cordn.QuotaBound

/-!
# The exact effect of an accepted publish

The number to evict, the packages evicted and the count the quota decides on are
three formulas. Under distinct refs they agree: a publish is accepted exactly
when the identity has room for it behind the evictions, which leave its regular
packages and the newest of its last-resort ones.
-/

set_option autoImplicit false

namespace Cordn.Adapter
open Call KeyPackageOps

variable {V σ L : Type}

def own (l : KeyShelf V) (c : String) : KeyShelf V := l.filter (hasIdentity c)

def Accepted (A : CoordinatorAdapter V σ L) (c : Caller) (input : PublishKeyPackageInput)
    (event : Option NostrEvent) (state : σ × L) : Prop :=
  ∃ output, (publish A c input event state).1 = .ok output

/-- What a publish of `r` by `c` does, from the packages `l` to the packages `l'`. -/
structure PublishEffect (quota : KeyPackageQuotaConfig) (c : String)
    (r : PublishedKeyPackageRecord V) (accepted : Prop) (l l' : KeyShelf V) : Prop where
  regular : r.isLastResort = false →
    (accepted ↔ quota.maxPerIdentity = 0 ∨
      regularCount l c + lastResortCount l c < quota.maxPerIdentity) ∧
    (accepted → Inserted l r l' ∧ own l' c = own l c ++ [r])
  lastResort : r.isLastResort = true →
    (accepted ↔ quota.maxPerIdentity = 0 ∨
      regularCount l c + min (lastResortCount l c) (quota.maxLastResortPerIdentity-1) + 1 ≤
        quota.maxPerIdentity) ∧
    (accepted → ∃ kept, own l' c = kept ++ [r] ∧ kept.Sublist (own l c) ∧
      regulars kept c = regulars l c ∧ lastResorts kept c = spared quota l c)

def PublishesExactly (A : CoordinatorAdapter V σ L) (s : σ) : Prop :=
  ∀ l c input event admitted, Passes A c input event (s, l) admitted →
    ¬RefStored (stored A.storage s) input.kpRef →
    PublishEffect A.keyPackageQuota c.clientPubkey (incomingRecord A c input admitted)
      (Accepted A c input event (s, l)) (stored A.storage s)
      (stored A.storage (publish A c input event (s, l)).2.1)

def FreshRef (A : CoordinatorAdapter V σ L) (request : Caller × Request) (state : σ × L) : Prop :=
  ∀ input event, request.2 = .publishKeyPackage input event →
    ¬RefStored (stored A.storage state.1) input.kpRef

def LastResortsWithin (quota : KeyPackageQuotaConfig) (l : KeyShelf V) : Prop :=
  ∀ c, lastResortCount l c ≤ quota.maxLastResortPerIdentity

/-- The last-resort maximum holds in every run in which refs stay distinct, as they
do when every publish is made under a new one. -/
structure StaysWithin (A : CoordinatorAdapter V σ L) (init : σ) : Prop where
  distinct : ∀ requests l, Run.Along (FreshRef A) (step A) requests (init, l) →
    Run.Throughout (fun state => UniqueRefs (stored A.storage state.1)) (step A) requests (init, l)
  within : ∀ requests l,
    Run.Throughout (fun state => UniqueRefs (stored A.storage state.1)) (step A) requests
      (init, l) →
    Run.Throughout (fun state => LastResortsWithin A.keyPackageQuota (stored A.storage state.1))
      (step A) requests (init, l)

def AppendsOwn (S : CoordinatorStorage V σ) (Kept : σ → Prop) (unique : Bool) : Prop :=
  ∀ s r, Kept s → ¬Refused unique r (stored S s) →
    own (stored S (S.publishKeyPackage r s).2) r.stablePubkey =
      own (stored S s) r.stablePubkey ++ [r]

theorem inMemory_appendsOwn :
    AppendsOwn (InMemory.storage : CoordinatorStorage V (InMemory.InMemoryInner V))
      MapShelved false := by
  intro s r hs href
  obtain ⟨-, hkept, -⟩ := inMemory_keepsShelf.accept s r hs href
  rw [own, own, InMemory.stored_eq, InMemory.stored_eq, InMemory.identity_contents _ hkept,
    InMemory.identity_contents _ hs]
  exact (IndexMap.bucket_pushBack _ _ _ r).trans (if_pos rfl)

theorem sqlite_appendsOwn {json : Sqlite.SerdeJson V} (hj : json.RoundTrips) :
    AppendsOwn (Sqlite.storage json) (TableShelved json) true := by
  rintro db r ⟨l, hl, hu⟩ href
  rw [Sqlite.stored_eq hj hl] at href ⊢
  have hf : Fresh (.publish r) l := fun q hq hqr => href ⟨rfl, q, hq, hqr⟩
  have hp := Sqlite.publish_fresh hj hl r hf
  have hafter : (Sqlite.publishKeyPackage json r db).2.keyPackages.contents =
      (l ++ [r]).map (Sqlite.rowOf json) := by
    rw [hp]
    simp [hl]
  have hstored : stored (Sqlite.storage json)
      ((Sqlite.storage json).publishKeyPackage r db).2 = l ++ [r] := Sqlite.stored_eq hj hafter
  rw [hstored]
  simp [own, hasIdentity]

theorem own_evictAll (refs : List String) (l : KeyShelf V) (c : String) :
    (own (evictAll refs l) c).Sublist (own l c) :=
  (evictAll_sublist refs l).filter _

theorem regulars_own (l : KeyShelf V) (c : String) : regulars (own l c) c = regulars l c := by
  simp [regulars, own, List.filter_filter]

theorem lastResorts_own (l : KeyShelf V) (c : String) :
    lastResorts (own l c) c = lastResorts l c := by
  simp [lastResorts, own, List.filter_filter]

theorem not_overQuota_regular (quota : KeyPackageQuotaConfig) (l : KeyShelf V) (c : String) :
    ¬overQuota quota l c false = true ↔ quota.maxPerIdentity = 0 ∨
      regularCount l c + lastResortCount l c < quota.maxPerIdentity := by
  rw [overQuota_iff, if_neg (by simp)]
  omega

theorem not_overQuota_lastResort (quota : KeyPackageQuotaConfig) (l : KeyShelf V) (c : String) :
    ¬overQuota quota l c true = true ↔ quota.maxPerIdentity = 0 ∨
      regularCount l c + min (lastResortCount l c) (quota.maxLastResortPerIdentity-1) + 1 ≤
        quota.maxPerIdentity := by
  rw [overQuota_iff, if_pos rfl]
  omega

theorem publishEffect_intro (quota : KeyPackageQuotaConfig)
    (hm : 1 ≤ quota.maxLastResortPerIdentity) {l l' : KeyShelf V} (hu : UniqueRefs l)
    (r : PublishedKeyPackageRecord V) {accepted : Prop}
    (haccepted : accepted ↔ ¬overQuota quota l r.stablePubkey r.isLastResort = true)
    (hput : accepted →
      Inserted (evictAll (evictedRefs quota l r.stablePubkey r.isLastResort) l) r l' ∧
      own l' r.stablePubkey = own (evictAll (evictedRefs quota l r.stablePubkey r.isLastResort) l)
        r.stablePubkey ++ [r]) :
    PublishEffect quota r.stablePubkey r accepted l l' where
  regular hr := by
    rw [hr] at haccepted hput
    have hnone : evictedRefs quota l r.stablePubkey false = [] := by simp [evictedRefs]
    rw [hnone, evictAll_nil] at hput
    exact ⟨haccepted.trans (not_overQuota_regular quota l _), hput⟩
  lastResort hr := by
    rw [hr] at haccepted hput
    refine ⟨haccepted.trans (not_overQuota_lastResort quota l _), ?_⟩
    intro hacc
    obtain ⟨hregular, hlast⟩ := evicted_exactly quota hu r.stablePubkey hm
    refine ⟨_, (hput hacc).2, own_evictAll _ l _, ?_, ?_⟩
    · rw [regulars_own, hregular]
    · rw [lastResorts_own, hlast]

section Backend

variable {A : CoordinatorAdapter V σ L} {Kept : σ → Prop} {unique : Bool}

theorem publishesExactly (hA : KeepsShelf A.storage Kept unique)
    (hown : AppendsOwn A.storage Kept unique)
    (hm : 1 ≤ A.keyPackageQuota.maxLastResortPerIdentity) (s : σ) (hs : Kept s)
    (hu : UniqueRefs (stored A.storage s)) : PublishesExactly A s := by
  intro l c input event admitted hpass hfresh
  have h := hpass.2
  obtain ⟨hres, hstate⟩ := publish_passed c input event (s, l) admitted hpass
  rw [Accepted, hres, hstate]
  have hname : (incomingRecord A c input admitted).stablePubkey = c.clientPubkey :=
    admission_identity h
  have href : (incomingRecord A c input admitted).keyPackageRef = input.kpRef := rfl
  obtain ⟨m, hkept, hevicted, hstop, hgo⟩ := publish_evicted hA c input event s hs admitted h
  have hroom : ¬Refused unique (incomingRecord A c input admitted) (stored A.storage m) := by
    rintro ⟨-, q, hq, hqref⟩
    rw [hevicted] at hq
    exact hfresh ⟨q, (evictAll_sublist _ _).subset hq, hqref.trans href⟩
  have hstopped : Stopped A unique (stored A.storage s) (incomingRecord A c input admitted) ↔
      overQuota A.keyPackageQuota (stored A.storage s)
        (incomingRecord A c input admitted).stablePubkey
        (incomingRecord A c input admitted).isLastResort = true :=
    or_iff_left (hevicted ▸ hroom)
  obtain ⟨-, -, hput⟩ := hA.accept m _ hkept hroom
  have hplace := hown m _ hkept hroom
  rw [hevicted] at hput hplace
  rw [← hname]
  refine publishEffect_intro A.keyPackageQuota hm hu (incomingRecord A c input admitted) ?_ ?_
  · rw [← hstopped]
    constructor
    · rintro ⟨output, hok⟩ hst
      obtain ⟨e, he⟩ := hstop hst
      simp [he] at hok
    · intro hst
      obtain ⟨-, output, hok⟩ := hgo hst
      exact ⟨output, by rw [hok]⟩
  · rintro ⟨output, hacc⟩
    by_cases hst : Stopped A unique (stored A.storage s) (incomingRecord A c input admitted)
    · obtain ⟨e, he⟩ := hstop hst
      simp [he] at hacc
    · obtain ⟨-, output', hok⟩ := hgo hst
      rw [hok]
      exact ⟨hput, hplace⟩

theorem step_lastResortsWithin (hA : KeepsShelf A.storage Kept unique)
    (hm : 1 ≤ A.keyPackageQuota.maxLastResortPerIdentity) (request : Caller × Request)
    (state : σ × L) (hs : Kept state.1) (hu : UniqueRefs (stored A.storage state.1))
    (hw : LastResortsWithin A.keyPackageQuota (stored A.storage state.1)) :
    LastResortsWithin A.keyPackageQuota (stored A.storage (step A request state).2.1) := by
  intro c
  obtain ⟨-, hsub | ⟨r, -, hin⟩⟩ := step_shelf hA request state hs
  · exact (hsub.countP_le).trans (hw c)
  · have hleft : lastResortCount (evictAll (evictedBy A (stored A.storage state.1) r)
        (stored A.storage state.1)) c ≤ lastResortCount (stored A.storage state.1) c :=
      (evictAll_sublist _ _).countP_le
    have hc := hw c
    rw [lastResortCount_inserted hin]
    by_cases hadds : (hasIdentity c r && r.isLastResort) = true
    · simp only [Bool.and_eq_true, hasIdentity, decide_eq_true_eq] at hadds
      obtain ⟨hname, hlast⟩ := hadds
      have hcount := (evicted_counts A.keyPackageQuota hu c hm).2
      rw [evictedBy, hname, hlast, hcount]
      simp only [hasIdentity, hname, decide_true, Bool.and_self, if_true]
      omega
    · rw [if_neg hadds]
      omega

theorem step_uniqueRefs (hA : KeepsShelf A.storage Kept unique) (request : Caller × Request)
    (state : σ × L) (hs : Kept state.1) (hu : UniqueRefs (stored A.storage state.1))
    (hfresh : FreshRef A request state) :
    UniqueRefs (stored A.storage (step A request state).2.1) := by
  obtain ⟨-, hsub | ⟨r, ⟨input, event, admitted, hreq, -, hr, -⟩, hin⟩⟩ :=
    step_shelf hA request state hs
  · exact hu.sublist (hsub.map _)
  · have hevicted : UniqueRefs (evictAll (evictedBy A (stored A.storage state.1) r)
        (stored A.storage state.1)) := hu.sublist ((evictAll_sublist _ _).map _)
    apply (hevicted.inserted hin).mpr
    intro q hq href
    rw [hr] at href
    exact hfresh input event hreq ⟨q, (evictAll_sublist _ _).subset hq, href⟩

theorem staysWithin (hA : KeepsShelf A.storage Kept unique)
    (hm : 1 ≤ A.keyPackageQuota.maxLastResortPerIdentity) (init : σ) (hi : Kept init)
    (he : stored A.storage init = []) : StaysWithin A init where
  distinct requests l hfresh := by
    refine Run.Throughout.mono (P := fun state => Kept state.1 ∧
      UniqueRefs (stored A.storage state.1)) ?_ (fun _ h => h.2)
    refine Run.throughout_of_along _ _ _ ?_ requests (init, l) hfresh
      ⟨hi, by simp [he, UniqueRefs]⟩
    rintro request state ⟨hs, hu⟩ hf
    exact ⟨(step_shelf hA request state hs).1, step_uniqueRefs hA request state hs hu hf⟩
  within requests l hunique := by
    refine Run.Throughout.mono (P := fun state => Kept state.1 ∧
      LastResortsWithin A.keyPackageQuota (stored A.storage state.1)) ?_ (fun _ h => h.2)
    refine Run.throughout_of_along _ _ _ ?_ requests (init, l) hunique.along ⟨hi, ?_⟩
    · rintro request state ⟨hs, hw⟩ hu
      exact ⟨(step_shelf hA request state hs).1,
        step_lastResortsWithin hA hm request state hs hu hw⟩
    · intro c
      simp [he, lastResortCount]

end Backend

/-- What a publish does under the quota, from every state of distinct refs of either
backend; and the last-resort maximum holds throughout every run of distinct refs. -/
theorem publish_effect (json : Sqlite.SerdeJson V) (hj : json.RoundTrips)
    (rateLimiter : RateLimiter L) (quota : KeyPackageQuotaConfig) (externals : Externals V)
    (hm : 1 ≤ quota.maxLastResortPerIdentity) :
    ((∀ s, MapShelved s → UniqueRefs (stored InMemory.storage s) →
          PublishesExactly ⟨InMemory.storage, rateLimiter, quota, externals⟩ s) ∧
        StaysWithin ⟨InMemory.storage, rateLimiter, quota, externals⟩
          InMemory.InMemoryInner.default) ∧
      ((∀ db, TableShelved json db →
          PublishesExactly ⟨Sqlite.storage json, rateLimiter, quota, externals⟩ db) ∧
        StaysWithin ⟨Sqlite.storage json, rateLimiter, quota, externals⟩ Sqlite.Database.new) := by
  refine ⟨⟨?_, ?_⟩, ?_, ?_⟩
  · intro s hs hu
    exact publishesExactly (A := ⟨InMemory.storage, rateLimiter, quota, externals⟩)
      inMemory_keepsShelf inMemory_appendsOwn hm s hs hu
  · exact staysWithin inMemory_keepsShelf hm _ (IndexMap.keyed_empty _) rfl
  · intro db hdb
    exact publishesExactly (A := ⟨Sqlite.storage json, rateLimiter, quota, externals⟩)
      (sqlite_keepsShelf hj) (sqlite_appendsOwn hj) hm db hdb
      ((sqlite_keepsShelf hj).distinct db hdb rfl)
  · exact staysWithin (sqlite_keepsShelf hj) hm _ ⟨[], rfl, by simp [UniqueRefs]⟩
      (Sqlite.stored_eq hj rfl)

theorem publish_effect_sample :
    ((∀ s, MapShelved s → UniqueRefs (stored InMemory.storage s) →
          PublishesExactly memoryAdapter s) ∧
        StaysWithin memoryAdapter InMemory.InMemoryInner.default) ∧
      ((∀ db, TableShelved jsonText db → PublishesExactly sqliteAdapter db) ∧
        StaysWithin sqliteAdapter Sqlite.Database.new) :=
  publish_effect jsonText jsonText_roundTrips unlimited ⟨10, 1⟩ sampleExternals (by decide)

end Cordn.Adapter
