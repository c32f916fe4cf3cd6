import Cordn.PublishFrame

/-!
# What a failed publish leaves behind

Evictions come before the quota decision and before the insert. The quota keeps
every identity so small that a publish with evictions is never over it; the
insert into the SQLite table can still fail after them.
-/

set_option autoImplicit false

namespace Cordn.Adapter
open Call KeyPackageOps

variable {V σ L : Type}

def KeepsOnError (A : CoordinatorAdapter V σ L) (c : Caller) (input : PublishKeyPackageInput)
    (event : Option NostrEvent) (state : σ × L) : Prop :=
  ∀ e, (publish A c input event state).1 = .error e →
    stored A.storage (publish A c input event state).2.1 = stored A.storage state.1

/-- The call passes, its quota evicts, and its ref is that of a stored package
which is not among the evicted. -/
def EvictsThenConflicts (A : CoordinatorAdapter V σ L) (c : Caller)
    (input : PublishKeyPackageInput) (event : Option NostrEvent) (state : σ × L) : Prop :=
  ∃ admitted, Passes A c input event state admitted ∧
    evictedBy A (stored A.storage state.1) (incomingRecord A c input admitted) ≠ [] ∧
    input.kpRef ∉ evictedBy A (stored A.storage state.1) (incomingRecord A c input admitted) ∧
    RefStored (stored A.storage state.1) input.kpRef

def regularCount (l : KeyShelf V) (c : String) : ℕ :=
  l.countP (fun r => hasIdentity c r && !r.isLastResort)

def lastResortCount (l : KeyShelf V) (c : String) : ℕ :=
  l.countP (fun r => hasIdentity c r && r.isLastResort)

/-- No identity holds more than the quota, its spare last-resort packages left out. -/
def WithinQuota (quota : KeyPackageQuotaConfig) (l : KeyShelf V) : Prop :=
  ∀ c, 0 < quota.maxPerIdentity → 0 < quota.maxLastResortPerIdentity →
    regularCount l c + min (lastResortCount l c) quota.maxLastResortPerIdentity ≤
      quota.maxPerIdentity

theorem lastResortCount_eq (l : KeyShelf V) (c : String) :
    ((l.filter (hasIdentity c)).filter (fun r => r.isLastResort)).length =
      lastResortCount l c := by
  rw [lastResortCount, List.countP_eq_length_filter, List.filter_filter]
  simp only [Bool.and_comm]

theorem identityCount_eq (l : KeyShelf V) (c : String) :
    (l.filter (hasIdentity c)).length = regularCount l c + lastResortCount l c := by
  induction l with
  | nil => rfl
  | cons r l ih =>
    simp only [regularCount, lastResortCount] at ih ⊢
    cases hi : hasIdentity c r <;> cases hr : r.isLastResort <;>
      simp only [List.filter_cons, List.countP_cons, hi, hr, List.length_cons, ih, if_true,
        if_false, Bool.not_true, Bool.not_false, Bool.and_true, Bool.and_false,
        Bool.false_eq_true] <;> omega

theorem regularCount_inserted {l l' : KeyShelf V} {r : PublishedKeyPackageRecord V}
    (h : Inserted l r l') (c : String) : regularCount l' c =
      regularCount l c + if hasIdentity c r && !r.isLastResort then 1 else 0 := by
  obtain ⟨before, behind, rfl, rfl⟩ := h
  simp only [regularCount, List.countP_append, List.countP_cons]
  omega

theorem lastResortCount_inserted {l l' : KeyShelf V} {r : PublishedKeyPackageRecord V}
    (h : Inserted l r l') (c : String) : lastResortCount l' c =
      lastResortCount l c + if hasIdentity c r && r.isLastResort then 1 else 0 := by
  obtain ⟨before, behind, rfl, rfl⟩ := h
  simp only [lastResortCount, List.countP_append, List.countP_cons]
  omega

theorem overQuota_iff (quota : KeyPackageQuotaConfig) (l : KeyShelf V) (c : String)
    (incoming : Bool) :
    overQuota quota l c incoming = true ↔ 0 < quota.maxPerIdentity ∧
      if incoming then quota.maxPerIdentity < regularCount l c +
        min (lastResortCount l c) (quota.maxLastResortPerIdentity-1) + 1
      else quota.maxPerIdentity ≤ regularCount l c + lastResortCount l c := by
  simp only [overQuota, lastResortCount_eq, identityCount_eq, Nat.add_sub_cancel]
  cases incoming <;> simp

theorem evictedRefs_ne_nil (quota : KeyPackageQuotaConfig) (l : KeyShelf V) (c : String)
    (incoming : Bool) (h : evictedRefs quota l c incoming ≠ []) :
    incoming = true ∧ 0 < quota.maxLastResortPerIdentity ∧
      quota.maxLastResortPerIdentity ≤ lastResortCount l c := by
  simp only [evictedRefs, lastResortCount_eq] at h
  split at h
  · assumption
  · exact absurd rfl h

theorem WithinQuota.evicts {quota : KeyPackageQuotaConfig} {l : KeyShelf V}
    (h : WithinQuota quota l) (c : String) (incoming : Bool)
    (hevicts : evictedRefs quota l c incoming ≠ []) :
    overQuota quota l c incoming = false := by
  obtain ⟨rfl, hpos, hle⟩ := evictedRefs_ne_nil quota l c incoming hevicts
  rw [← Bool.not_eq_true, overQuota_iff, if_pos rfl]
  rintro ⟨hper, hover⟩
  have hc := h c hper hpos
  omega

theorem WithinQuota.sublist {quota : KeyPackageQuotaConfig} {l l' : KeyShelf V}
    (h : WithinQuota quota l) (hsub : l'.Sublist l) : WithinQuota quota l' := by
  intro c hper hpos
  have hc := h c hper hpos
  have hreg : regularCount l' c ≤ regularCount l c := hsub.countP_le
  have hlast : lastResortCount l' c ≤ lastResortCount l c := hsub.countP_le
  omega

theorem WithinQuota.publish {quota : KeyPackageQuotaConfig} {l m l' : KeyShelf V}
    {r : PublishedKeyPackageRecord V} (h : WithinQuota quota l) (hsub : m.Sublist l)
    (hin : Inserted m r l') (hover : overQuota quota l r.stablePubkey r.isLastResort = false) :
    WithinQuota quota l' := by
  intro c hper hpos
  have hc := h c hper hpos
  have hreg : regularCount m c ≤ regularCount l c := hsub.countP_le
  have hlast : lastResortCount m c ≤ lastResortCount l c := hsub.countP_le
  have hreg' := regularCount_inserted hin c
  have hlast' := lastResortCount_inserted hin c
  by_cases hid : r.stablePubkey = c
  · rw [← Bool.not_eq_true, overQuota_iff, hid] at hover
    cases hr : r.isLastResort <;>
      simp only [hasIdentity, hid, hr, decide_true, Bool.and_true, Bool.not_true, Bool.not_false,
        Bool.and_false, Bool.false_eq_true, if_true, if_false, not_and, not_lt, not_le]
        at hreg' hlast' hover
    · have hunder := hover hper
      omega
    · have hunder := hover hper
      omega
  · simp only [hasIdentity, hid, decide_false, Bool.false_and, Bool.false_eq_true, if_false]
      at hreg' hlast'
    omega

section Runs

variable {A : CoordinatorAdapter V σ L} {Kept : σ → Prop} {unique : Bool}

theorem run_withinQuota (hA : KeepsShelf A.storage Kept unique)
    (requests : List (Caller × Request)) (state : σ × L) (hs : Kept state.1)
    (hq : WithinQuota A.keyPackageQuota (stored A.storage state.1)) :
    Kept (Run.after (step A) requests state).1 ∧ WithinQuota A.keyPackageQuota
      (stored A.storage (Run.after (step A) requests state).1) := by
  refine Run.invariant (step A) (fun state => Kept state.1 ∧
    WithinQuota A.keyPackageQuota (stored A.storage state.1)) ?_ requests state ⟨hs, hq⟩
  rintro request state ⟨hkept, hquota⟩
  obtain ⟨hkept', hsub | ⟨r, ⟨_, _, _, -, -, -, hgo⟩, hin⟩⟩ := step_shelf hA request state hkept
  · exact ⟨hkept', hquota.sublist hsub⟩
  · refine ⟨hkept', hquota.publish (evictAll_sublist _ _) hin ?_⟩
    simpa using fun hover => hgo (Or.inl hover)

end Runs

theorem evictAll_eq_filter (refs : List String) (l : KeyShelf V) (h : UniqueRefs l) :
    evictAll refs l = l.filter (fun r => decide (r.keyPackageRef ∉ refs)) :=
  KeyedList.takeOut_eq_filter PublishedKeyPackageRecord.keyPackageRef refs l h

theorem mem_evictAll (refs : List String) (l : KeyShelf V) (h : UniqueRefs l)
    (r : PublishedKeyPackageRecord V) :
    r ∈ evictAll refs l ↔ r ∈ l ∧ r.keyPackageRef ∉ refs := by
  rw [evictAll_eq_filter refs l h, List.mem_filter, decide_eq_true_eq]

theorem evictAll_ne (refs : List String) (l : KeyShelf V) (hne : refs ≠ [])
    (hsub : refs.Subperm (l.map (fun r => r.keyPackageRef))) : evictAll refs l ≠ l := by
  obtain ⟨x, refs, rfl⟩ := List.exists_cons_of_ne_nil hne
  obtain ⟨r, hr, href⟩ := List.mem_map.mp (hsub.subset (List.mem_cons_self))
  intro heq
  have hle := (evictAll_sublist refs (l.eraseP (hasRef x))).length_le
  rw [← evictAll_cons, heq, List.length_eraseP_of_mem hr (by simp [hasRef, href])] at hle
  have hpos := List.length_pos_of_mem hr
  omega

section Backend

variable {A : CoordinatorAdapter V σ L} {Kept : σ → Prop} {unique : Bool}

theorem evictedBy_subperm (l : KeyShelf V) (r : PublishedKeyPackageRecord V) :
    (evictedBy A l r).Subperm (l.map (fun r => r.keyPackageRef)) :=
  (evictedRefs_subperm _ _ _ _).trans (List.filter_sublist.map _).subperm

theorem stopped_evicting (hA : KeepsShelf A.storage Kept unique) (s : σ) (hs : Kept s)
    (hq : WithinQuota A.keyPackageQuota (stored A.storage s))
    (r : PublishedKeyPackageRecord V) (hne : evictedBy A (stored A.storage s) r ≠ []) :
    Stopped A unique (stored A.storage s) r ↔ unique = true ∧
      r.keyPackageRef ∉ evictedBy A (stored A.storage s) r ∧
      RefStored (stored A.storage s) r.keyPackageRef := by
  have hunder := hq.evicts _ _ hne
  constructor
  · rintro (hover | ⟨hu, q, hq, href⟩)
    · simp [hunder] at hover
    · obtain ⟨hmem, hkept⟩ := (mem_evictAll _ _ (hA.distinct s hs hu) q).mp hq
      exact ⟨hu, href ▸ hkept, q, hmem, href⟩
  · rintro ⟨hu, hkept, q, hmem, href⟩
    exact Or.inr ⟨hu, q, (mem_evictAll _ _ (hA.distinct s hs hu) q).mpr
      ⟨hmem, href ▸ hkept⟩, href⟩

theorem keepsOnError_iff (hA : KeepsShelf A.storage Kept unique) (c : Caller)
    (input : PublishKeyPackageInput) (event : Option NostrEvent) (state : σ × L)
    (hs : Kept state.1) (hq : WithinQuota A.keyPackageQuota (stored A.storage state.1)) :
    KeepsOnError A c input event state ↔
      ¬(unique = true ∧ EvictsThenConflicts A c input event state) := by
  by_cases hp : ∃ admitted, Passes A c input event state admitted
  · obtain ⟨admitted, hp⟩ := hp
    obtain ⟨hres, hstate⟩ := publish_passed c input event state admitted hp
    obtain ⟨result, s', hrun, -, hstop, hgo⟩ :=
      publish_admitted hA c input event state.1 hs admitted hp.2
    rw [hrun] at hres hstate
    constructor
    · rintro hkeeps ⟨hu, other, hother, hne, hkept, href⟩
      obtain rfl := Except.ok.inj (hother.2.symm.trans hp.2)
      have hst := (stopped_evicting hA state.1 hs hq (incomingRecord A c input other) hne).mpr
        ⟨hu, hkept, href⟩
      obtain ⟨⟨e, he⟩, hleft⟩ := hstop hst
      have hsame := hkeeps e (hres.trans he)
      rw [hstate, hleft] at hsame
      exact evictAll_ne _ _ hne (evictedBy_subperm _ _) hsame
    · intro hn e he
      rw [hstate]
      by_cases hst : Stopped A unique (stored A.storage state.1) (incomingRecord A c input admitted)
      · rw [(hstop hst).2]
        by_cases hne : evictedBy A (stored A.storage state.1)
            (incomingRecord A c input admitted) = []
        · rw [hne, evictAll_nil]
        · obtain ⟨hu, hkept, href⟩ := (stopped_evicting hA state.1 hs hq _ hne).mp hst
          exact absurd ⟨hu, admitted, hp, hne, hkept, href⟩ hn
      · obtain ⟨⟨output, hok⟩, -⟩ := hgo hst
        rw [hres, hok] at he
        simp at he
  · have hstate := publish_unpassed c input event state (fun a ha => hp ⟨a, ha⟩)
    constructor
    · rintro - ⟨-, admitted, ha, -⟩
      exact hp ⟨admitted, ha⟩
    · intro _ e _
      rw [hstate]

theorem run_keepsOnError (hA : KeepsShelf A.storage Kept unique) (init : σ) (hi : Kept init)
    (he : stored A.storage init = []) (requests : List (Caller × Request)) (l : L) (c : Caller)
    (input : PublishKeyPackageInput) (event : Option NostrEvent) :
    KeepsOnError A c input event (Run.after (step A) requests (init, l)) ↔
      ¬(unique = true ∧
        EvictsThenConflicts A c input event (Run.after (step A) requests (init, l))) := by
  have hq : WithinQuota A.keyPackageQuota (stored A.storage init) := by
    rw [he]
    intro x _ _
    simp [regularCount, lastResortCount]
  obtain ⟨hkept, hwithin⟩ := run_withinQuota hA requests (init, l) hi hq
  exact keepsOnError_iff hA c input event _ hkept hwithin

end Backend

/-- In every state a run reaches, a failed in-memory publish leaves the store as
it was; a failed SQLite publish does so unless it evicted before it conflicted. -/
theorem failed_publish (json : Sqlite.SerdeJson V) (hj : json.RoundTrips)
    (rateLimiter : RateLimiter L) (quota : KeyPackageQuotaConfig) (externals : Externals V)
    (requests : List (Caller × Request)) (l : L) (c : Caller) (input : PublishKeyPackageInput)
    (event : Option NostrEvent) :
    KeepsOnError ⟨InMemory.storage, rateLimiter, quota, externals⟩ c input event
      (Run.after (step ⟨InMemory.storage, rateLimiter, quota, externals⟩) requests
        (InMemory.InMemoryInner.default, l)) ∧
    (KeepsOnError ⟨Sqlite.storage json, rateLimiter, quota, externals⟩ c input event
        (Run.after (step ⟨Sqlite.storage json, rateLimiter, quota, externals⟩) requests
          (Sqlite.Database.new, l)) ↔
      ¬EvictsThenConflicts ⟨Sqlite.storage json, rateLimiter, quota, externals⟩ c input event
        (Run.after (step ⟨Sqlite.storage json, rateLimiter, quota, externals⟩) requests
          (Sqlite.Database.new, l))) := by
  constructor
  · refine (run_keepsOnError inMemory_keepsShelf InMemory.InMemoryInner.default
      (IndexMap.keyed_empty _) rfl requests l c input event).mpr ?_
    simp
  · refine (run_keepsOnError (sqlite_keepsShelf hj) _ ⟨[], rfl, by simp [UniqueRefs]⟩
      (Sqlite.stored_eq hj rfl) requests l c input event).trans ?_
    simp

theorem failed_publish_sample :
    KeepsOnError memoryAdapter (sampleCaller alice) ⟨"a-1", package64 alice64 true⟩
      (some (sampleEvent alice))
      (Run.after (step memoryAdapter) hijack (InMemory.InMemoryInner.default, ())) ∧
    (KeepsOnError sqliteAdapter (sampleCaller alice) ⟨"a-1", package64 alice64 true⟩
        (some (sampleEvent alice))
        (Run.after (step sqliteAdapter) hijack (Sqlite.Database.new, ())) ↔
      ¬EvictsThenConflicts sqliteAdapter (sampleCaller alice) ⟨"a-1", package64 alice64 true⟩
        (some (sampleEvent alice))
        (Run.after (step sqliteAdapter) hijack (Sqlite.Database.new, ()))) :=
  failed_publish jsonText jsonText_roundTrips unlimited ⟨10, 1⟩ sampleExternals hijack ()
    (sampleCaller alice) ⟨"a-1", package64 alice64 true⟩ (some (sampleEvent alice))

/-- Alice's only package is a last-resort one; Bob holds the ref "taken". -/
def takenRef : List (Caller × Request) :=
  [publishes alice alice64 true "old", publishes bob bob64 false "taken"]

/-- Alice's next last-resort publish fails on Bob's ref, and her old package is gone. -/
theorem failed_publish_evicts :
    (publish sqliteAdapter (sampleCaller alice) ⟨"taken", package64 alice64 true⟩
        (some (sampleEvent alice))
        (Run.after (step sqliteAdapter) takenRef (Sqlite.Database.new, ()))).1 =
      .error (.storage
        (.backend "UNIQUE constraint failed: key_packages.key_package_ref")) ∧
    (stored sqliteAdapter.storage
      (Run.after (step sqliteAdapter) takenRef (Sqlite.Database.new, ())).1).map
        (fun r => r.keyPackageRef) = ["old", "taken"] ∧
    (stored sqliteAdapter.storage
      (publish sqliteAdapter (sampleCaller alice) ⟨"taken", package64 alice64 true⟩
        (some (sampleEvent alice))
        (Run.after (step sqliteAdapter) takenRef (Sqlite.Database.new, ()))).2.1).map
        (fun r => r.keyPackageRef) = ["taken"] := by
  decide +kernel

end Cordn.Adapter
