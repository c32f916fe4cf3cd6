import Cordn.TakeByIdentity

/-!
# What a publish does to the other identities

An eviction picks its packages among the caller's own and deletes them by ref.
Where refs are unique the two agree. The in-memory map searches its identities
in order, so an identity standing before the caller loses its package instead.
-/

set_option autoImplicit false

namespace Cordn.Adapter
open Call KeyPackageOps

variable {V σ L : Type}

def others (stablePubkey : String) (l : KeyShelf V) : KeyShelf V :=
  l.filter (fun r => !hasIdentity stablePubkey r)

def publish (A : CoordinatorAdapter V σ L) (c : Caller) (input : PublishKeyPackageInput)
    (event : Option NostrEvent) :
    σ × L → Except AdapterError PublishKeyPackageOutput × (σ × L) :=
  withinRateLimit A c (publishKeyPackage A c input event)

def LeavesOthers (A : CoordinatorAdapter V σ L) (c : Caller) (input : PublishKeyPackageInput)
    (event : Option NostrEvent) (state : σ × L) : Prop :=
  (others c.clientPubkey (stored A.storage state.1)).Sublist
    (stored A.storage (publish A c input event state).2.1)

def Passes (A : CoordinatorAdapter V σ L) (c : Caller) (input : PublishKeyPackageInput)
    (event : Option NostrEvent) (state : σ × L)
    (admitted : List UInt8 × MlsParse.ParsedKeyPackage × NostrEvent) : Prop :=
  (A.rateLimiter.check c.clientPubkey c.limiterNow state.2).1 = true ∧
    admission A c.clientPubkey input event = .ok admitted

/-- The quota evicts a ref that also stands with an identity before the caller's. -/
def EvictsAnothers (A : CoordinatorAdapter V σ L) (c : Caller) (input : PublishKeyPackageInput)
    (event : Option NostrEvent) (state : σ × L) : Prop :=
  ∃ admitted, Passes A c input event state admitted ∧
    ∃ x ∈ evictedBy A (stored A.storage state.1) (incomingRecord A c input admitted),
      ∃ r ∈ (stored A.storage state.1).takeWhile (fun r => !hasIdentity c.clientPubkey r),
        r.keyPackageRef = x

theorem others_sublist (c : String) {l l' : KeyShelf V} (h : l'.Sublist l) :
    (others c l').Sublist (others c l) :=
  h.filter _

theorem others_inserted {c : String} {l l' : KeyShelf V} {r : PublishedKeyPackageRecord V}
    (h : Inserted l r l') (hr : r.stablePubkey = c) : others c l' = others c l := by
  obtain ⟨before, behind, rfl, rfl⟩ := h
  simp [others, hasIdentity, hr]

theorem others_eraseP (c x : String) (l : KeyShelf V)
    (h : ∀ r ∈ l, r.keyPackageRef = x → r.stablePubkey = c) :
    others c (l.eraseP (hasRef x)) = others c l := by
  induction l with
  | nil => rfl
  | cons r l ih =>
    by_cases hr : hasRef x r = true
    · have hown := h r (by simp) (by simpa [hasRef] using hr)
      rw [List.eraseP_cons_of_pos hr]
      simp [others, hasIdentity, hown]
    · have hrest := ih (fun q hq => h q (List.mem_cons_of_mem _ hq))
      rw [List.eraseP_cons_of_neg hr]
      simp only [others, List.filter_cons] at hrest ⊢
      rw [hrest]

theorem others_evictAll (c : String) (refs : List String) (l : KeyShelf V)
    (h : ∀ x ∈ refs, ∀ r ∈ l, r.keyPackageRef = x → r.stablePubkey = c) :
    others c (evictAll refs l) = others c l := by
  induction refs generalizing l with
  | nil => rfl
  | cons x refs ih =>
    have hrest : ∀ y ∈ refs, ∀ r ∈ l.eraseP (hasRef x),
        r.keyPackageRef = y → r.stablePubkey = c :=
      fun y hy r hr => h y (List.mem_cons_of_mem _ hy) r (List.mem_of_mem_eraseP hr)
    rw [evictAll_cons, ih _ hrest, others_eraseP c x l (h x (by simp))]

theorem others_append (c : String) (xs ys : KeyShelf V) :
    others c (xs ++ ys) = others c xs ++ others c ys :=
  List.filter_append _ _

theorem others_none (c : String) (l : KeyShelf V) (h : ∀ r ∈ l, r.stablePubkey ≠ c) :
    others c l = l := by
  apply List.filter_eq_self.mpr
  intro r hr
  simpa [hasIdentity] using h r hr

theorem others_all (c : String) (l : KeyShelf V) (h : ∀ r ∈ l, r.stablePubkey = c) :
    others c l = [] := by
  apply List.filter_eq_nil_iff.mpr
  intro r hr
  simp [hasIdentity, h r hr]

theorem map_ref_eraseP (x : String) (l : KeyShelf V) :
    (l.eraseP (hasRef x)).map (fun r => r.keyPackageRef) =
      (l.map (fun r => r.keyPackageRef)).erase x := by
  rw [List.erase_eq_eraseP', List.eraseP_map]
  rfl

/-- On a shelf that keeps the caller's packages together, evicting some of
their refs spares the others exactly when none of these stands before them. -/
theorem others_evictAll_iff (c : String) (refs : List String) (before own behind : KeyShelf V)
    (hbefore : ∀ r ∈ before, r.stablePubkey ≠ c) (hown : ∀ r ∈ own, r.stablePubkey = c)
    (hbehind : ∀ r ∈ behind, r.stablePubkey ≠ c)
    (hrefs : refs.Subperm (own.map (fun r => r.keyPackageRef))) :
    others c (evictAll refs (before ++ own ++ behind)) = before ++ behind ↔
      ∀ x ∈ refs, ∀ r ∈ before, r.keyPackageRef ≠ x := by
  have hsplit : ∀ xs ys zs : KeyShelf V, others c (xs ++ ys ++ zs) =
      others c xs ++ others c ys ++ others c zs := by
    intro xs ys zs
    rw [others_append, others_append]
  induction refs generalizing own with
  | nil =>
    rw [evictAll_nil, hsplit, others_none c before hbefore, others_all c own hown,
      others_none c behind hbehind]
    simp
  | cons x refs ih =>
    rw [evictAll_cons]
    by_cases hx : ∃ r ∈ before, r.keyPackageRef = x
    · obtain ⟨r, hr, href⟩ := hx
      have hhas : hasRef x r = true := by simp [hasRef, href]
      constructor
      · intro h
        have hle := (others_sublist c (evictAll_sublist refs
          ((before ++ own ++ behind).eraseP (hasRef x)))).length_le
        rw [h, List.append_assoc, List.eraseP_append_left hhas _ hr, others_append, others_append,
          others_all c own hown, others_none c behind hbehind] at hle
        have herase := List.length_eraseP_of_mem hr hhas
        have hpos := List.length_pos_of_mem hr
        have hfilter : (others c (before.eraseP (hasRef x))).length ≤
            (before.eraseP (hasRef x)).length := List.length_filter_le _ _
        simp only [List.length_append, List.nil_append] at hle
        omega
      · exact fun h => absurd href (h x (by simp) r hr)
    · simp only [not_exists, not_and] at hx
      obtain ⟨r, hr, href⟩ := List.mem_map.mp (hrefs.subset (List.mem_cons_self))
      have hhas : hasRef x r = true := by simp [hasRef, href]
      have hrest : refs.Subperm ((own.eraseP (hasRef x)).map (fun r => r.keyPackageRef)) := by
        rw [map_ref_eraseP]
        simpa using hrefs.erase x
      have hown' : ∀ r ∈ own.eraseP (hasRef x), r.stablePubkey = c :=
        fun r hr => hown r (List.mem_of_mem_eraseP hr)
      rw [List.append_assoc, List.eraseP_append_right _ (by simpa [hasRef] using hx),
        List.eraseP_append_left hhas _ hr, ← List.append_assoc]
      refine (ih _ hown' hrest).trans ?_
      constructor
      · intro h y hy
        rcases List.mem_cons.mp hy with rfl | hy
        · exact hx
        · exact h y hy
      · exact fun h y hy => h y (List.mem_cons_of_mem _ hy)

theorem evictedRefs_subperm (quota : KeyPackageQuotaConfig) (l : KeyShelf V) (c : String)
    (incoming : Bool) :
    (evictedRefs quota l c incoming).Subperm
      ((l.filter (hasIdentity c)).map (fun r => r.keyPackageRef)) := by
  simp only [evictedRefs]
  split
  · exact (((List.take_sublist _ _).trans List.filter_sublist).map _).subperm
  · exact List.nil_subperm

theorem inMemory_grouped (s : InMemory.InMemoryInner V) (hs : MapShelved s) (c : String) :
    ∃ before behind, stored InMemory.storage s =
        before ++ (stored InMemory.storage s).filter (hasIdentity c) ++ behind ∧
      (∀ r ∈ before, r.stablePubkey ≠ c) ∧ ∀ r ∈ behind, r.stablePubkey ≠ c := by
  have hbucket := InMemory.identity_contents _ hs c
  rw [InMemory.stored_eq, hbucket]
  cases hm : s.keyPackagesByIdentity.get? c with
  | none =>
    rw [IndexMap.bucket, hm, Option.getD_none] at hbucket ⊢
    refine ⟨s.keyPackagesByIdentity.contents, [], by simp, ?_, by simp⟩
    intro r hr
    simpa [hasIdentity] using List.filter_eq_nil_iff.mp hbucket r hr
  | some own =>
    obtain ⟨pre, post, hsplit⟩ := IndexMap.split_of_get? _ c own hm
    obtain ⟨hpre, -, hpost⟩ := IndexMap.keyed_split _ _ c own pre post hs hsplit
    rw [IndexMap.split_bucket _ c own pre post hsplit]
    exact ⟨_, _, IndexMap.contents_split _ c own pre post hsplit, hpre, hpost⟩

theorem takeWhile_others {c : String} {before own behind : KeyShelf V}
    (hbefore : ∀ r ∈ before, r.stablePubkey ≠ c) (hown : ∀ r ∈ own, r.stablePubkey = c)
    (hne : own ≠ []) :
    (before ++ own ++ behind).takeWhile (fun r => !hasIdentity c r) = before := by
  obtain ⟨r, own, rfl⟩ := List.exists_cons_of_ne_nil hne
  have hr : hasIdentity c r = true := by simp [hasIdentity, hown r (by simp)]
  rw [List.append_assoc, List.takeWhile_append_of_pos (by simpa [hasIdentity] using hbefore)]
  simp [hr]

section Backend

variable {A : CoordinatorAdapter V σ L} {Kept : σ → Prop} {unique : Bool}

theorem publish_unpassed (c : Caller) (input : PublishKeyPackageInput)
    (event : Option NostrEvent) (state : σ × L)
    (h : ∀ admitted, ¬Passes A c input event state admitted) :
    (publish A c input event state).2.1 = state.1 := by
  unfold publish withinRateLimit
  split
  · rfl
  · rename_i hlimit
    cases hadm : admission A c.clientPubkey input event with
    | ok admitted => exact absurd ⟨by rw [hlimit], hadm⟩ (h admitted)
    | error e => simp only [publish_rejected c input event state.1 e hadm]

theorem publish_passed (c : Caller) (input : PublishKeyPackageInput)
    (event : Option NostrEvent) (state : σ × L)
    (admitted : List UInt8 × MlsParse.ParsedKeyPackage × NostrEvent)
    (h : Passes A c input event state admitted) :
    (publish A c input event state).1 = (publishKeyPackage A c input event state.1).1 ∧
      (publish A c input event state).2.1 = (publishKeyPackage A c input event state.1).2 :=
  withinRateLimit_passed c _ state h.1

theorem publish_others (hA : KeepsShelf A.storage Kept unique) (c : Caller)
    (input : PublishKeyPackageInput) (event : Option NostrEvent) (state : σ × L)
    (hs : Kept state.1) (admitted : List UInt8 × MlsParse.ParsedKeyPackage × NostrEvent)
    (h : Passes A c input event state admitted) :
    others c.clientPubkey (stored A.storage (publish A c input event state).2.1) =
      others c.clientPubkey (evictAll (evictedBy A (stored A.storage state.1)
        (incomingRecord A c input admitted)) (stored A.storage state.1)) := by
  obtain ⟨result, s', hrun, -, hstop, hgo⟩ :=
    publish_admitted hA c input event state.1 hs admitted h.2
  rw [(publish_passed c input event state admitted h).2, hrun]
  by_cases hst : Stopped A unique (stored A.storage state.1) (incomingRecord A c input admitted)
  · rw [(hstop hst).2]
  · exact others_inserted (hgo hst).2 (admission_identity h.2)

theorem leavesOthers_of_eq (c : Caller) (input : PublishKeyPackageInput)
    (event : Option NostrEvent) (state : σ × L)
    (h : others c.clientPubkey (stored A.storage (publish A c input event state).2.1) =
      others c.clientPubkey (stored A.storage state.1)) :
    LeavesOthers A c input event state := by
  rw [LeavesOthers, ← h]
  exact List.filter_sublist

theorem leavesOthers_iff (hA : KeepsShelf A.storage Kept unique) (c : Caller)
    (input : PublishKeyPackageInput) (event : Option NostrEvent) (state : σ × L)
    (hs : Kept state.1) (admitted : List UInt8 × MlsParse.ParsedKeyPackage × NostrEvent)
    (h : Passes A c input event state admitted) :
    LeavesOthers A c input event state ↔
      others c.clientPubkey (evictAll (evictedBy A (stored A.storage state.1)
        (incomingRecord A c input admitted)) (stored A.storage state.1)) =
      others c.clientPubkey (stored A.storage state.1) := by
  have hothers := publish_others hA c input event state hs admitted h
  constructor
  · intro hleaves
    have hkeep := others_sublist c.clientPubkey hleaves
    rw [hothers] at hkeep
    have hself : others c.clientPubkey (others c.clientPubkey (stored A.storage state.1)) =
        others c.clientPubkey (stored A.storage state.1) := by simp [others]
    rw [hself] at hkeep
    exact (others_sublist c.clientPubkey (evictAll_sublist _ _)).antisymm hkeep
  · exact fun heq => leavesOthers_of_eq c input event state (hothers.trans heq)

theorem evictsAnothers_iff (c : Caller) (input : PublishKeyPackageInput)
    (event : Option NostrEvent) (state : σ × L)
    (admitted : List UInt8 × MlsParse.ParsedKeyPackage × NostrEvent)
    (h : Passes A c input event state admitted) :
    EvictsAnothers A c input event state ↔
      ∃ x ∈ evictedBy A (stored A.storage state.1) (incomingRecord A c input admitted),
        ∃ r ∈ (stored A.storage state.1).takeWhile (fun r => !hasIdentity c.clientPubkey r),
          r.keyPackageRef = x := by
  constructor
  · rintro ⟨other, hother, hx⟩
    rwa [Except.ok.inj (hother.2.symm.trans h.2)] at hx
  · exact fun hx => ⟨admitted, h, hx⟩

end Backend

theorem inMemory_leavesOthers_iff {A : CoordinatorAdapter V (InMemory.InMemoryInner V) L}
    (hA : A.storage = InMemory.storage) (c : Caller) (input : PublishKeyPackageInput)
    (event : Option NostrEvent) (state : InMemory.InMemoryInner V × L)
    (hs : MapShelved state.1) :
    LeavesOthers A c input event state ↔ ¬EvictsAnothers A c input event state := by
  have hkeeps : KeepsShelf A.storage MapShelved false := hA ▸ inMemory_keepsShelf
  by_cases hp : ∃ admitted, Passes A c input event state admitted
  · obtain ⟨admitted, hp⟩ := hp
    have hid : (incomingRecord A c input admitted).stablePubkey = c.clientPubkey :=
      admission_identity hp.2
    rw [leavesOthers_iff hkeeps c input event state hs admitted hp,
      evictsAnothers_iff c input event state admitted hp]
    obtain ⟨before, behind, hl, hbefore, hbehind⟩ :=
      inMemory_grouped state.1 hs c.clientPubkey
    rw [← hA] at hl
    have hsub := evictedRefs_subperm A.keyPackageQuota (stored A.storage state.1) c.clientPubkey
      (incomingRecord A c input admitted).isLastResort
    rw [evictedBy, hid]
    generalize evictedRefs A.keyPackageQuota (stored A.storage state.1) c.clientPubkey
      (incomingRecord A c input admitted).isLastResort = refs at hsub ⊢
    have hown : ∀ r ∈ (stored A.storage state.1).filter (hasIdentity c.clientPubkey),
        r.stablePubkey = c.clientPubkey :=
      fun r hr => by simpa [hasIdentity] using (List.mem_filter.mp hr).2
    generalize (stored A.storage state.1).filter (hasIdentity c.clientPubkey) = own
      at hl hsub hown
    rw [hl]
    have hall : others c.clientPubkey (before ++ own ++ behind) = before ++ behind := by
      rw [others_append, others_append, others_none _ before hbefore, others_all _ own hown,
        others_none _ behind hbehind, List.append_nil]
    rw [hall, others_evictAll_iff _ refs before own behind hbefore hown hbehind hsub]
    rcases eq_or_ne own [] with rfl | hne
    · have hnil : refs = [] := List.subperm_nil.mp (by simpa using hsub)
      simp [hnil]
    · rw [takeWhile_others hbefore hown hne]
      simp only [not_exists, not_and, ne_eq]
  · have hstate := publish_unpassed c input event state (fun a ha => hp ⟨a, ha⟩)
    constructor
    · rintro - ⟨admitted, ha, -⟩
      exact hp ⟨admitted, ha⟩
    · intro _
      apply leavesOthers_of_eq
      rw [hstate]

theorem unique_leavesOthers {A : CoordinatorAdapter V σ L} {Kept : σ → Prop}
    (hA : KeepsShelf A.storage Kept true) (c : Caller) (input : PublishKeyPackageInput)
    (event : Option NostrEvent) (state : σ × L) (hs : Kept state.1) :
    LeavesOthers A c input event state := by
  by_cases hp : ∃ admitted, Passes A c input event state admitted
  · obtain ⟨admitted, hp⟩ := hp
    rw [leavesOthers_iff hA c input event state hs admitted hp]
    apply others_evictAll
    intro x hx r hr href
    have hid : (incomingRecord A c input admitted).stablePubkey = c.clientPubkey :=
      admission_identity hp.2
    rw [evictedBy, hid] at hx
    obtain ⟨q, hq, hqx⟩ := List.mem_map.mp ((evictedRefs_subperm _ _ _ _).subset hx)
    obtain ⟨hq, hown⟩ := List.mem_filter.mp hq
    rw [(hA.distinct state.1 hs rfl).eq hr hq (href.trans hqx.symm)]
    simpa [hasIdentity] using hown
  · apply leavesOthers_of_eq
    rw [publish_unpassed c input event state (fun a ha => hp ⟨a, ha⟩)]

/-- In every state a run reaches, an in-memory publish leaves the others exactly
when it evicts no ref of theirs; with the SQLite table it always does. -/
theorem publish_frame (json : Sqlite.SerdeJson V) (hj : json.RoundTrips)
    (rateLimiter : RateLimiter L) (quota : KeyPackageQuotaConfig) (externals : Externals V)
    (requests : List (Caller × Request)) (l : L) (c : Caller) (input : PublishKeyPackageInput)
    (event : Option NostrEvent) :
    (LeavesOthers ⟨InMemory.storage, rateLimiter, quota, externals⟩ c input event
        (Run.after (step ⟨InMemory.storage, rateLimiter, quota, externals⟩) requests
          (InMemory.InMemoryInner.default, l)) ↔
      ¬EvictsAnothers ⟨InMemory.storage, rateLimiter, quota, externals⟩ c input event
        (Run.after (step ⟨InMemory.storage, rateLimiter, quota, externals⟩) requests
          (InMemory.InMemoryInner.default, l))) ∧
    LeavesOthers ⟨Sqlite.storage json, rateLimiter, quota, externals⟩ c input event
      (Run.after (step ⟨Sqlite.storage json, rateLimiter, quota, externals⟩) requests
        (Sqlite.Database.new, l)) :=
  ⟨inMemory_leavesOthers_iff rfl c input event _
      (run_kept inMemory_keepsShelf requests _ (IndexMap.keyed_empty _)),
    unique_leavesOthers (sqlite_keepsShelf hj) c input event _
      (run_kept (sqlite_keepsShelf hj) requests _ ⟨[], rfl, by simp [UniqueRefs]⟩)⟩

theorem publish_frame_sample :
    (LeavesOthers memoryAdapter (sampleCaller alice) ⟨"a-1", package64 alice64 true⟩
        (some (sampleEvent alice))
        (Run.after (step memoryAdapter) hijack (InMemory.InMemoryInner.default, ())) ↔
      ¬EvictsAnothers memoryAdapter (sampleCaller alice) ⟨"a-1", package64 alice64 true⟩
        (some (sampleEvent alice))
        (Run.after (step memoryAdapter) hijack (InMemory.InMemoryInner.default, ()))) ∧
    LeavesOthers sqliteAdapter (sampleCaller alice) ⟨"a-1", package64 alice64 true⟩
      (some (sampleEvent alice))
      (Run.after (step sqliteAdapter) hijack (Sqlite.Database.new, ())) :=
  publish_frame jsonText jsonText_roundTrips unlimited ⟨10, 1⟩ sampleExternals hijack ()
    (sampleCaller alice) ⟨"a-1", package64 alice64 true⟩ (some (sampleEvent alice))

/-- Bob's package under "shared" stands before Alice's last-resort one of the same ref. -/
def sharedRef : List (Caller × Request) :=
  [publishes bob bob64 false "shared", publishes alice alice64 true "shared"]

/-- Alice's next last-resort package is accepted, and Bob's package is gone. -/
theorem publish_evicts_anothers :
    (publish memoryAdapter (sampleCaller alice) ⟨"fresh", package64 alice64 true⟩
        (some (sampleEvent alice)) (Run.after (step memoryAdapter) sharedRef
          (InMemory.InMemoryInner.default, ()))).1 = .ok ⟨"fresh", true, 1700000001⟩ ∧
      ¬LeavesOthers memoryAdapter (sampleCaller alice) ⟨"fresh", package64 alice64 true⟩
        (some (sampleEvent alice)) (Run.after (step memoryAdapter) sharedRef
          (InMemory.InMemoryInner.default, ())) := by
  unfold LeavesOthers
  decide +kernel

end Cordn.Adapter
