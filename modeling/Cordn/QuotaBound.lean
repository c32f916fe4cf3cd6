import Cordn.FailedPublish

/-!
# The quota of an identity over sequential runs

The last-resort branch of the quota counts as many of the identity's last-resort
packages as its evictions would leave. With a maximum of zero nothing is evicted
and nothing is counted.
-/

set_option autoImplicit false

namespace Cordn.Adapter
open Call KeyPackageOps

variable {V σ L : Type}

def WithinMax (quota : KeyPackageQuotaConfig) (l : KeyShelf V) : Prop :=
  ∀ c, (l.filter (hasIdentity c)).length ≤ quota.maxPerIdentity

/-- A last-resort publish, under a ref not yet stored and with the last-resort
maximum off, of a client that holds the maximum already, not all regular. -/
def Overfills (A : CoordinatorAdapter V σ L) (request : Caller × Request) (state : σ × L) : Prop :=
  A.keyPackageQuota.maxLastResortPerIdentity = 0 ∧
  ∃ input event admitted, request.2 = .publishKeyPackage input event ∧
    Passes A request.1 input event state admitted ∧ admitted.2.1.isLastResort = true ∧
    ¬RefStored (stored A.storage state.1) input.kpRef ∧
    regularCount (stored A.storage state.1) request.1.clientPubkey <
      A.keyPackageQuota.maxPerIdentity ∧
    A.keyPackageQuota.maxPerIdentity ≤
      ((stored A.storage state.1).filter (hasIdentity request.1.clientPubkey)).length

theorem WithinMax.sublist {quota : KeyPackageQuotaConfig} {l l' : KeyShelf V}
    (h : WithinMax quota l) (hsub : l'.Sublist l) : WithinMax quota l' := by
  intro c
  have hle := (hsub.filter (hasIdentity c)).length_le
  exact hle.trans (h c)

theorem identityCount_inserted {l l' : KeyShelf V} {r : PublishedKeyPackageRecord V}
    (h : Inserted l r l') (c : String) : (l'.filter (hasIdentity c)).length =
      (l.filter (hasIdentity c)).length + if r.stablePubkey = c then 1 else 0 := by
  rw [identityCount_eq, identityCount_eq, regularCount_inserted h, lastResortCount_inserted h]
  by_cases hid : r.stablePubkey = c
  · cases hr : r.isLastResort <;> simp [hasIdentity, hid] <;> omega
  · simp [hasIdentity, hid]

theorem withinMax_inserted {quota : KeyPackageQuotaConfig} {l l' : KeyShelf V}
    {r : PublishedKeyPackageRecord V} (h : WithinMax quota l) (hin : Inserted l r l') :
    WithinMax quota l' ↔
      (l.filter (hasIdentity r.stablePubkey)).length < quota.maxPerIdentity := by
  constructor
  · intro h'
    have hc := h' r.stablePubkey
    rw [identityCount_inserted hin, if_pos rfl] at hc
    omega
  · intro hlt c
    rw [identityCount_inserted hin]
    split
    · rename_i hid
      rw [← hid]
      omega
    · exact h c

theorem filter_drops_taken {α β : Type} [DecidableEq β] (f : α → β) (l : List α)
    (h : (l.map f).Nodup) (k : ℕ) :
    l.filter (fun a => decide (f a ∉ (l.take k).map f)) = l.drop k := by
  have hsplit : (l.take k).map f ++ (l.drop k).map f = l.map f := by
    rw [← List.map_append, List.take_append_drop]
  rw [← hsplit, List.nodup_append] at h
  obtain ⟨-, -, hdisjoint⟩ := h
  have hfront : (l.take k).filter (fun a => decide (f a ∉ (l.take k).map f)) = [] := by
    apply List.filter_eq_nil_iff.mpr
    intro a ha
    rw [decide_eq_true_eq, not_not]
    exact List.mem_map_of_mem ha
  have hback : (l.drop k).filter (fun a => decide (f a ∉ (l.take k).map f)) = l.drop k := by
    apply List.filter_eq_self.mpr
    intro a ha
    rw [decide_eq_true_eq]
    intro hm
    exact hdisjoint _ hm _ (List.mem_map_of_mem ha) rfl
  calc l.filter (fun a => decide (f a ∉ (l.take k).map f))
      = (l.take k ++ l.drop k).filter (fun a => decide (f a ∉ (l.take k).map f)) := by
        rw [List.take_append_drop]
    _ = l.drop k := by rw [List.filter_append, hfront, hback, List.nil_append]

def lastResorts (l : KeyShelf V) (c : String) : KeyShelf V :=
  (l.filter (hasIdentity c)).filter (fun r => r.isLastResort)

theorem lastResorts_sublist (l : KeyShelf V) (c : String) : (lastResorts l c).Sublist l :=
  List.filter_sublist.trans List.filter_sublist

theorem lastResorts_evictAll {l : KeyShelf V} (h : UniqueRefs l) (c : String) (k : ℕ) :
    lastResorts (evictAll (((lastResorts l c).take k).map (fun r => r.keyPackageRef)) l) c =
      (lastResorts l c).drop k := by
  have hnodup : ((lastResorts l c).map (fun r => r.keyPackageRef)).Nodup :=
    h.sublist ((lastResorts_sublist l c).map _)
  rw [evictAll_eq_filter _ l h, ← filter_drops_taken _ (lastResorts l c) hnodup k]
  simp only [lastResorts, List.filter_filter]
  apply List.filter_congr
  intro r _
  ac_rfl

def regulars (l : KeyShelf V) (c : String) : KeyShelf V :=
  (l.filter (hasIdentity c)).filter (fun r => !r.isLastResort)

theorem regularCount_eq (l : KeyShelf V) (c : String) :
    (regulars l c).length = regularCount l c := by
  rw [regulars, regularCount, List.countP_eq_length_filter, List.filter_filter]
  simp only [Bool.and_comm]

theorem regulars_evictAll {l : KeyShelf V} (h : UniqueRefs l) (c : String) (k : ℕ) :
    regulars (evictAll (((lastResorts l c).take k).map (fun r => r.keyPackageRef)) l) c =
      regulars l c := by
  rw [evictAll_eq_filter _ l h]
  simp only [regulars, List.filter_filter]
  apply List.filter_congr
  intro r hr
  rw [Bool.eq_iff_iff]
  simp only [Bool.and_eq_true, Bool.not_eq_true', decide_eq_true_eq, and_congr_right_iff,
    and_iff_left_iff_imp]
  intro hregular _ hm
  obtain ⟨v, hv, href⟩ := List.mem_map.mp hm
  have hlast := List.mem_of_mem_take hv
  obtain rfl := h.eq ((lastResorts_sublist l c).subset hlast) hr href
  have hflag := (List.mem_filter.mp hlast).2
  simp [hregular] at hflag

def spared (quota : KeyPackageQuotaConfig) (l : KeyShelf V) (c : String) : KeyShelf V :=
  (lastResorts l c).drop
    ((lastResorts l c).length - min (lastResorts l c).length (quota.maxLastResortPerIdentity-1))

theorem evicted_exactly (quota : KeyPackageQuotaConfig) {l : KeyShelf V} (h : UniqueRefs l)
    (c : String) (hpos : 0 < quota.maxLastResortPerIdentity) :
    regulars (evictAll (evictedRefs quota l c true) l) c = regulars l c ∧
      lastResorts (evictAll (evictedRefs quota l c true) l) c = spared quota l c := by
  by_cases hfull : quota.maxLastResortPerIdentity ≤ (lastResorts l c).length
  · have hrefs : evictedRefs quota l c true = ((lastResorts l c).take
        ((lastResorts l c).length - quota.maxLastResortPerIdentity + 1)).map
          (fun r => r.keyPackageRef) :=
      if_pos ⟨rfl, hpos, hfull⟩
    rw [hrefs, regulars_evictAll h, lastResorts_evictAll h, spared]
    refine ⟨rfl, ?_⟩
    congr 1
    omega
  · have hrefs : evictedRefs quota l c true = [] := if_neg (fun hc => hfull hc.2.2)
    have hall : (lastResorts l c).length - min (lastResorts l c).length
        (quota.maxLastResortPerIdentity-1) = 0 := by omega
    rw [hrefs, evictAll_nil, spared, hall, List.drop_zero]
    exact ⟨rfl, rfl⟩

theorem evicted_counts (quota : KeyPackageQuotaConfig) {l : KeyShelf V} (h : UniqueRefs l)
    (c : String) (hpos : 0 < quota.maxLastResortPerIdentity) :
    regularCount (evictAll (evictedRefs quota l c true) l) c = regularCount l c ∧
      lastResortCount (evictAll (evictedRefs quota l c true) l) c =
        min (lastResortCount l c) (quota.maxLastResortPerIdentity-1) := by
  obtain ⟨hregular, hlast⟩ := evicted_exactly quota h c hpos
  constructor
  · rw [← regularCount_eq, hregular, regularCount_eq]
  · have hcount : ∀ l : KeyShelf V, lastResortCount l c = (lastResorts l c).length :=
      fun l => (lastResortCount_eq l c).symm
    rw [hcount, hlast, hcount, spared, List.length_drop]
    omega

/-- A publish within the quota finds room for its package behind the evictions,
except with the last-resort maximum off: then it has evicted nothing. -/
theorem room_after_evictions (quota : KeyPackageQuotaConfig) {l : KeyShelf V} (h : UniqueRefs l)
    (c : String) (incoming : Bool) (hmax : 0 < quota.maxPerIdentity)
    (hover : overQuota quota l c incoming = false) :
    ((evictAll (evictedRefs quota l c incoming) l).filter (hasIdentity c)).length <
        quota.maxPerIdentity ↔
      ¬(quota.maxLastResortPerIdentity = 0 ∧ incoming = true ∧
        quota.maxPerIdentity ≤ (l.filter (hasIdentity c)).length) := by
  rw [← Bool.not_eq_true, overQuota_iff] at hover
  simp only [hmax, true_and] at hover
  cases incoming with
  | false =>
    have hnone : evictedRefs quota l c false = [] := by simp [evictedRefs]
    simp only [Bool.false_eq_true, if_false, not_le] at hover
    rw [hnone, evictAll_nil, identityCount_eq]
    simp [hover]
  | true =>
    simp only [if_true, not_lt] at hover
    by_cases hzero : quota.maxLastResortPerIdentity = 0
    · have hnone : evictedRefs quota l c true = [] := if_neg (by simp [hzero])
      rw [hnone, evictAll_nil]
      simp [hzero]
    · obtain ⟨hregular, hlasts⟩ := evicted_counts quota h c (Nat.pos_of_ne_zero hzero)
      rw [identityCount_eq, hregular, hlasts]
      apply iff_of_true
      · omega
      · exact fun hbad => hzero hbad.1

section Backend

variable {A : CoordinatorAdapter V σ L} {Kept : σ → Prop}

theorem step_publish (request : Caller × Request) (input : PublishKeyPackageInput)
    (event : Option NostrEvent) (h : request.2 = .publishKeyPackage input event) (state : σ × L) :
    (step A request state).2 = (publish A request.1 input event state).2 := by
  unfold step publish withinRateLimit
  split
  · rfl
  · rename_i l hl
    rw [h, perform]
    cases hp : publishKeyPackage A request.1 input event state.1 with
    | mk result m =>
      cases result with
      | error e => rw [bind_error hp]
      | ok output =>
        rw [bind_ok hp]
        rfl

theorem publish_withinMax (hA : KeepsShelf A.storage Kept true) (c : Caller)
    (input : PublishKeyPackageInput) (event : Option NostrEvent) (s : σ) (hs : Kept s)
    (hmax : 0 < A.keyPackageQuota.maxPerIdentity)
    (hw : WithinMax A.keyPackageQuota (stored A.storage s))
    (admitted : List UInt8 × MlsParse.ParsedKeyPackage × NostrEvent)
    (h : admission A c.clientPubkey input event = .ok admitted) :
    WithinMax A.keyPackageQuota (stored A.storage (publishKeyPackage A c input event s).2) ↔
      ¬(A.keyPackageQuota.maxLastResortPerIdentity = 0 ∧ admitted.2.1.isLastResort = true ∧
        ¬RefStored (stored A.storage s) input.kpRef ∧
        regularCount (stored A.storage s) c.clientPubkey < A.keyPackageQuota.maxPerIdentity ∧
        A.keyPackageQuota.maxPerIdentity ≤
          ((stored A.storage s).filter (hasIdentity c.clientPubkey)).length) := by
  have hunique := hA.distinct s hs rfl
  have hname : (incomingRecord A c input admitted).stablePubkey = c.clientPubkey :=
    admission_identity h
  have hflag : (incomingRecord A c input admitted).isLastResort = admitted.2.1.isLastResort := rfl
  obtain ⟨result, s', hrun, hkept, hstop, hgo⟩ := publish_admitted hA c input event s hs admitted h
  rw [hrun]
  generalize hl : stored A.storage s = l at hunique hstop hgo hw ⊢
  generalize hr : incomingRecord A c input admitted = r at hname hflag hstop hgo
  have href : r.keyPackageRef = input.kpRef := by
    rw [← hr]
    rfl
  by_cases hst : Stopped A true l r
  · rw [(hstop hst).2]
    refine iff_of_true (hw.sublist (evictAll_sublist _ _)) ?_
    rintro ⟨hzero, hlast, hfresh, hregular, -⟩
    have hnone : evictedBy A l r = [] := if_neg (by simp [hzero])
    rcases hst with hover | ⟨-, q, hq, hqref⟩
    · rw [overQuota_iff, hflag, hlast, if_pos rfl, hzero, hname] at hover
      omega
    · rw [hnone, evictAll_nil] at hq
      exact hfresh ⟨q, hq, hqref.trans href⟩
  · obtain ⟨-, hin⟩ := hgo hst
    have hover : overQuota A.keyPackageQuota l c.clientPubkey
        admitted.2.1.isLastResort = false := by
      rw [← Bool.not_eq_true, ← hflag, ← hname]
      exact fun ho => hst (Or.inl ho)
    rw [withinMax_inserted (hw.sublist (evictAll_sublist _ _)) hin, evictedBy, hname, hflag,
      room_after_evictions A.keyPackageQuota hunique c.clientPubkey _ hmax hover]
    apply not_congr
    constructor
    · rintro ⟨hzero, hlast, hfull⟩
      have hnone : evictedBy A l r = [] := if_neg (by simp [hzero])
      refine ⟨hzero, hlast, ?_, ?_, hfull⟩
      · rintro ⟨q, hq, hqref⟩
        refine hst (Or.inr ⟨rfl, q, ?_, hqref.trans href.symm⟩)
        rwa [hnone, evictAll_nil]
      · rw [← Bool.not_eq_true, overQuota_iff, hlast, if_pos rfl, hzero] at hover
        omega
    · rintro ⟨hzero, hlast, -, -, hfull⟩
      exact ⟨hzero, hlast, hfull⟩

theorem step_withinMax (hA : KeepsShelf A.storage Kept true) (request : Caller × Request)
    (state : σ × L) (hs : Kept state.1) (hmax : 0 < A.keyPackageQuota.maxPerIdentity)
    (hw : WithinMax A.keyPackageQuota (stored A.storage state.1)) :
    WithinMax A.keyPackageQuota (stored A.storage (step A request state).2.1) ↔
      ¬Overfills A request state := by
  by_cases hp : ∃ input event admitted, request.2 = .publishKeyPackage input event ∧
      Passes A request.1 input event state admitted
  · obtain ⟨input, event, admitted, hreq, hpass⟩ := hp
    rw [step_publish request input event hreq,
      (publish_passed request.1 input event state admitted hpass).2,
      publish_withinMax hA request.1 input event state.1 hs hmax hw admitted hpass.2]
    apply not_congr
    constructor
    · rintro ⟨hzero, hlast, hrest⟩
      exact ⟨hzero, input, event, admitted, hreq, hpass, hlast, hrest⟩
    · rintro ⟨hzero, input', event', admitted', hreq', hpass', hlast, hrest⟩
      obtain ⟨rfl, rfl⟩ := Request.publishKeyPackage.inj (hreq.symm.trans hreq')
      obtain rfl := Except.ok.inj (hpass.2.symm.trans hpass'.2)
      exact ⟨hzero, hlast, hrest⟩
  · have hnever : ¬Overfills A request state := by
      rintro ⟨-, input, event, admitted, hreq, hpass, -⟩
      exact hp ⟨input, event, admitted, hreq, hpass⟩
    refine iff_of_true ?_ hnever
    by_cases hreq : ∃ input event, request.2 = .publishKeyPackage input event
    · obtain ⟨input, event, hreq⟩ := hreq
      have hunpassed : ∀ admitted, ¬Passes A request.1 input event state admitted :=
        fun admitted hpass => hp ⟨input, event, admitted, hreq, hpass⟩
      rw [step_publish request input event hreq,
        publish_unpassed request.1 input event state hunpassed]
      exact hw
    · obtain ⟨-, hsub | ⟨r, ⟨input, event, _, hpub, -⟩, -⟩⟩ := step_shelf hA request state hs
      · exact hw.sublist hsub
      · exact absurd ⟨input, event, hpub⟩ hreq

end Backend

/-- On SQLite every identity stays within the maximum throughout a run exactly
when no step of the run overfills one. -/
theorem quota_bound (json : Sqlite.SerdeJson V) (hj : json.RoundTrips)
    (rateLimiter : RateLimiter L) (quota : KeyPackageQuotaConfig) (externals : Externals V)
    (hmax : 0 < quota.maxPerIdentity) (requests : List (Caller × Request)) (l : L) :
    Run.Throughout (fun state => WithinMax quota (stored (Sqlite.storage json) state.1))
        (step ⟨Sqlite.storage json, rateLimiter, quota, externals⟩) requests
        (Sqlite.Database.new, l) ↔
      Run.Along (fun request state =>
          ¬Overfills ⟨Sqlite.storage json, rateLimiter, quota, externals⟩ request state)
        (step ⟨Sqlite.storage json, rateLimiter, quota, externals⟩) requests
        (Sqlite.Database.new, l) := by
  refine Run.throughout_iff_along _ (fun state => TableShelved json state.1) _ (fun _ _ => True) _
    ?_ ?_ requests _ (Run.along_true _ _ _) ⟨[], rfl, by simp [UniqueRefs]⟩ ?_
  · intro request state hs _
    exact (step_shelf (sqlite_keepsShelf hj) request state hs).1
  · intro request state hs _ hw
    exact step_withinMax (A := ⟨Sqlite.storage json, rateLimiter, quota, externals⟩)
      (sqlite_keepsShelf hj) request state hs hmax hw
  · intro c
    have hempty : stored (Sqlite.storage json) Sqlite.Database.new = [] := Sqlite.stored_eq hj rfl
    simp [hempty]

/-- At most two packages for each identity, the last-resort maximum off. -/
def twoEach : CoordinatorAdapter String Sqlite.Database Unit :=
  ⟨Sqlite.storage jsonText, unlimited, ⟨2, 0⟩, sampleExternals⟩

def lastResortsPublished : List (Caller × Request) :=
  [publishes alice alice64 false "a-1", publishes alice alice64 true "a-2",
    publishes bob bob64 true "b-1", publishes alice alice64 true "a-3"]

theorem quota_bound_sample :
    Run.Throughout (fun state => WithinMax ⟨2, 0⟩ (stored (Sqlite.storage jsonText) state.1))
        (step twoEach) lastResortsPublished (Sqlite.Database.new, ()) ↔
      Run.Along (fun request state => ¬Overfills twoEach request state)
        (step twoEach) lastResortsPublished (Sqlite.Database.new, ()) :=
  quota_bound jsonText jsonText_roundTrips unlimited ⟨2, 0⟩ sampleExternals (by decide)
    lastResortsPublished ()

def lastResortsOff : CoordinatorAdapter String Sqlite.Database Unit :=
  ⟨Sqlite.storage jsonText, unlimited, ⟨1, 0⟩, sampleExternals⟩

/-- Two last-resort packages of Alice where one package is the maximum. -/
theorem quota_overfilled :
    (((stored lastResortsOff.storage (Run.after (step lastResortsOff)
      [publishes alice alice64 true "a-1", publishes alice alice64 true "a-2"]
      (Sqlite.Database.new, ())).1).filter (hasIdentity alice)).map
        (fun r => r.keyPackageRef)) = ["a-1", "a-2"] ∧
      ¬Run.Throughout (fun state => WithinMax ⟨1, 0⟩ (stored lastResortsOff.storage state.1))
        (step lastResortsOff)
        [publishes alice alice64 true "a-1", publishes alice alice64 true "a-2"]
        (Sqlite.Database.new, ()) := by
  have hstored : ((stored lastResortsOff.storage (Run.after (step lastResortsOff)
      [publishes alice alice64 true "a-1", publishes alice alice64 true "a-2"]
      (Sqlite.Database.new, ())).1).filter (hasIdentity alice)).map
        (fun r => r.keyPackageRef) = ["a-1", "a-2"] := by
    decide +kernel
  refine ⟨hstored, ?_⟩
  rintro ⟨-, -, hlast⟩
  have hmost : _ ≤ 1 := hlast alice
  have hlength := congrArg List.length hstored
  rw [List.length_map] at hlength
  change List.length _ = 2 at hlength
  simp only [Run.after] at hlength
  omega

end Cordn.Adapter
