import Cordn.SubscriptionFrame

/-!
# The registry along every run

Subscribe calls that end well or fail, handles released once, twice or by being
dropped, and posts interleave. The three maps of the registry hold what is live
and nothing else, and what one subscription does is invisible to the others.
-/

set_option autoImplicit false

namespace Cordn.Coordinator
open IndexMap

variable {V σ : Type}

/-- Registered and not yet released: a call in set-up, or a handle in use. -/
def Live (c : Clients σ) (id : ℕ) : Prop :=
  (∃ w, c.system.subscriptions.get? id = some w ∧ w.stage ≠ .opened) ∨
    ∃ handle, c.handles.get? id = some handle ∧ handle.unsubscribed = false

def getActiveSubscriptionCount (s : System σ) : ℕ := s.registry.refcounts.size

def distinctGroups (groups : List FetchGroupMessagesInput) : List String :=
  (groups.map FetchGroupMessagesInput.groupId).dedup

def setsWith (reg : SubscriberRegistry) (id : ℕ) : List (String × List ℕ) :=
  reg.groupSubscribers.entries.filter (fun e => decide (id ∈ e.2))

structure RegistryAgrees (c : Clients σ) : Prop where
  subscribers : ∀ id, id ∈ c.system.registry.subscribers.keys ↔ Live c id
  refcounts : ∀ id, id ∈ c.system.registry.refcounts.keys ↔ Live c id
  counts : ∀ id w, c.system.subscriptions.get? id = some w →
    c.system.registry.refcounts.get? id = some (distinctGroups w.groups).length
  sets : ∀ id n, c.system.registry.refcounts.get? id = some n →
    (setsWith c.system.registry id).length = n
  members : ∀ g id, id ∈ c.system.registry.groupSubscribers.bucket g ↔
    ∃ w, c.system.subscriptions.get? id = some w ∧ g ∈ distinctGroups w.groups
  distinct : ∀ e ∈ c.system.registry.groupSubscribers.entries, e.2.Nodup
  filled : ∀ e ∈ c.system.registry.groupSubscribers.entries, e.2 ≠ []
  active : ∃ ids : List ℕ, ids.Nodup ∧ (∀ id, id ∈ ids ↔ Live c id) ∧
    getActiveSubscriptionCount c.system = ids.length
  /-- Once all are released nothing is left. -/
  empty : (∀ id, ¬Live c id) → c.system.registry.groupSubscribers.entries = [] ∧
    c.system.registry.subscribers.entries = [] ∧ c.system.registry.refcounts.entries = []

theorem live_iff {c : Clients σ} (h : Sound c) (id : ℕ) :
    Live c id ↔ (c.system.subscriptions.get? id).isSome = true := by
  have hat := h.booked id
  constructor
  · rintro (⟨w, hw, -⟩ | ⟨handle, hh, hfalse⟩)
    · rw [hw]
      rfl
    · obtain ⟨w, hw, -⟩ := (h.held id handle hh).2.2 hfalse
      rw [hw]
      rfl
  · intro hsome
    obtain ⟨w, hw⟩ := Option.isSome_iff_exists.mp hsome
    by_cases hstage : w.stage = .opened
    · rw [hw] at hat
      cases hh : c.handles.get? id with
      | none =>
        rw [hh] at hat
        exact absurd hstage hat
      | some handle =>
        rw [hh] at hat
        exact Or.inr ⟨handle, hh, hat.2.1⟩
    · exact Or.inl ⟨w, hw, hstage⟩

theorem mem_distinctGroups (groups : List FetchGroupMessagesInput) (g : String) :
    g ∈ distinctGroups groups ↔ g ∈ (cursorsOf groups).keys := by
  simp [distinctGroups, mem_groupIds]

theorem length_distinctGroups (groups : List FetchGroupMessagesInput) :
    (cursorsOf groups).keys.length = (distinctGroups groups).length := by
  have hperm := (List.perm_ext_iff_of_nodup (cursorsOf groups).nodup (List.nodup_dedup _)).mpr
    (fun g => (mem_distinctGroups groups g).symm)
  exact hperm.length_eq

theorem countOf_groupIds (w : Subscription) (hnamed : w.groups ≠ []) :
    countOf w.groupIds = some (distinctGroups w.groups).length := by
  rw [← length_distinctGroups]
  change countOf w.groupIds = some w.groupIds.length
  cases hgs : w.groupIds with
  | cons g gs => rfl
  | nil =>
    obtain ⟨q, hq⟩ := List.exists_mem_of_ne_nil _ hnamed
    have hg : q.groupId ∈ w.groupIds := (mem_groupIds w.groups q.groupId).mpr ⟨q, hq, rfl⟩
    simp [hgs] at hg

section Maps

variable {c : Clients σ} (h : Sound c)
include h

theorem refcount_eq (id : ℕ) (w : Subscription) (hw : c.system.subscriptions.get? id = some w) :
    c.system.registry.refcounts.get? id = some (distinctGroups w.groups).length := by
  rw [h.registry.registered.counts, liveGroups, hw, Option.map_some, Option.bind_some,
    countOf_groupIds w (h.named id w hw)]

theorem mem_refcounts (id : ℕ) : id ∈ c.system.registry.refcounts.keys ↔ Live c id := by
  rw [← get?_isSome_iff, live_iff h]
  cases hw : c.system.subscriptions.get? id with
  | none => simp [h.registry.registered.counts, liveGroups, hw]
  | some w => simp [refcount_eq h id w hw]

theorem mem_subscribers (id : ℕ) : id ∈ c.system.registry.subscribers.keys ↔ Live c id := by
  rw [← get?_isSome_iff, h.registry.registered.subscribers, live_iff h, liveGroups,
    Option.isSome_map]

theorem mem_groupSubscribers (g : String) (id : ℕ) :
    id ∈ c.system.registry.groupSubscribers.bucket g ↔
      ∃ w, c.system.subscriptions.get? id = some w ∧ g ∈ distinctGroups w.groups := by
  rw [h.registry.registered.members, liveGroups]
  simp [mem_distinctGroups, Subscription.groupIds]

theorem length_setsWith (id n : ℕ) (hn : c.system.registry.refcounts.get? id = some n) :
    (setsWith c.system.registry id).length = n := by
  have hlive := (mem_refcounts h id).mp ((get?_isSome_iff _ _).mp (by rw [hn]; rfl))
  obtain ⟨w, hw⟩ := Option.isSome_iff_exists.mp ((live_iff h id).mp hlive)
  obtain rfl := Option.some.inj ((refcount_eq h id w hw).symm.trans hn)
  apply length_holding _ _ _ (List.nodup_dedup _)
  intro g
  rw [mem_groupSubscribers h]
  simp [hw, distinctGroups]

theorem live_of_entry (e : String × List ℕ)
    (he : e ∈ c.system.registry.groupSubscribers.entries) : ∃ id ∈ e.2, Live c id := by
  obtain ⟨id, hid⟩ := List.exists_mem_of_ne_nil _ (h.registry.filled e he)
  have hin : id ∈ c.system.registry.groupSubscribers.bucket e.1 := by
    rwa [bucket, (get?_eq_some_iff _ e.1 e.2).mpr he, Option.getD_some]
  obtain ⟨w, hw, -⟩ := (mem_groupSubscribers h e.1 id).mp hin
  exact ⟨id, hid, (live_iff h id).mpr (by rw [hw]; rfl)⟩

theorem registryAgrees : RegistryAgrees c where
  subscribers := mem_subscribers h
  refcounts := mem_refcounts h
  counts := refcount_eq h
  sets := length_setsWith h
  members := mem_groupSubscribers h
  distinct e he := by
    have hd := h.registry.registered.distinct e.1
    rwa [bucket, (get?_eq_some_iff _ e.1 e.2).mpr he, Option.getD_some] at hd
  filled := h.registry.filled
  active := by
    refine ⟨c.system.registry.refcounts.keys, c.system.registry.refcounts.nodup,
      mem_refcounts h, ?_⟩
    rw [getActiveSubscriptionCount, size, keys, List.length_map]
  empty hnone := by
    refine ⟨List.eq_nil_iff_forall_not_mem.mpr ?_, entries_eq_nil _ ?_, entries_eq_nil _ ?_⟩
    · intro e he
      obtain ⟨id, -, hlive⟩ := live_of_entry h e he
      exact hnone id hlive
    · exact fun id hid => hnone id ((mem_subscribers h id).mp hid)
    · exact fun id hid => hnone id ((mem_refcounts h id).mp hid)

end Maps

structure SameMaps (reg reg' : SubscriberRegistry) : Prop where
  subscribers : ∀ id, reg'.subscribers.get? id = reg.subscribers.get? id
  refcounts : ∀ id, reg'.refcounts.get? id = reg.refcounts.get? id
  members : ∀ g id, id ∈ reg'.groupSubscribers.bucket g ↔ id ∈ reg.groupSubscribers.bucket g
  groups : ∀ g, g ∈ reg'.groupSubscribers.keys ↔ g ∈ reg.groupSubscribers.keys

structure SameFor (id : ℕ) (c d : Clients σ) : Prop where
  received : d.received id = c.received id
  handle : d.handles.get? id = c.handles.get? id
  subscriber : d.system.registry.subscribers.get? id = c.system.registry.subscribers.get? id
  refcount : d.system.registry.refcounts.get? id = c.system.registry.refcounts.get? id
  members : ∀ g, id ∈ d.system.registry.groupSubscribers.bucket g ↔
    id ∈ c.system.registry.groupSubscribers.bucket g

theorem liveGroups_congr {subscriptions subscriptions' : IndexMap ℕ Subscription} {id : ℕ}
    (h : subscriptions'.get? id = subscriptions.get? id) :
    liveGroups subscriptions' id = liveGroups subscriptions id := by
  rw [liveGroups, liveGroups, h]

theorem ClientsAgree.sameFor {id : ℕ} {c d : Clients σ} (h : ClientsAgree id c d) (hc : Sound c)
    (hd : Sound d) (x : ℕ) (hx : x ≠ id) : SameFor x c d where
  received := h.received x hx
  handle := h.handles x hx
  subscriber := h.system.subscribers x hx
  refcount := by
    rw [hd.registry.registered.counts, hc.registry.registered.counts,
      liveGroups_congr (h.system.subscriptions x hx)]
  members g := by
    rw [hd.registry.registered.members, hc.registry.registered.members,
      liveGroups_congr (h.system.subscriptions x hx)]

theorem mem_keys_iff {m : IndexMap String (List ℕ)} (h : Filled m) (g : String) :
    g ∈ m.keys ↔ ∃ id, id ∈ m.bucket g := by
  rw [← get?_isSome_iff]
  cases hg : m.get? g with
  | none => simp [bucket, hg]
  | some ids =>
    obtain ⟨id, hid⟩ := List.exists_mem_of_ne_nil _ (h (g, ids) ((get?_eq_some_iff m g ids).mp hg))
    exact iff_of_true rfl ⟨id, by rwa [bucket, hg, Option.getD_some]⟩

theorem sameMaps {s t : System σ} (hs : RegistrySound s) (ht : RegistrySound t) (id : ℕ)
    (hsubscribers : ∀ x, x ≠ id → t.registry.subscribers.get? x = s.registry.subscribers.get? x)
    (hsubscriptions : ∀ x, x ≠ id → t.subscriptions.get? x = s.subscriptions.get? x)
    (hgone : s.subscriptions.get? id = none) (hgone' : t.subscriptions.get? id = none) :
    SameMaps s.registry t.registry := by
  have hlive : ∀ x, liveGroups t.subscriptions x = liveGroups s.subscriptions x := by
    intro x
    by_cases hx : x = id
    · rw [hx]
      exact liveGroups_congr (hgone'.trans hgone.symm)
    · exact liveGroups_congr (hsubscriptions x hx)
  have hmembers : ∀ g x, x ∈ t.registry.groupSubscribers.bucket g ↔
      x ∈ s.registry.groupSubscribers.bucket g := by
    intro g x
    rw [ht.registered.members, hs.registered.members, hlive]
  have hnone : ∀ {u : System σ}, RegistrySound u → u.subscriptions.get? id = none →
      u.registry.subscribers.get? id = none := by
    intro u hu hnone
    rw [← Option.not_isSome_iff_eq_none, hu.registered.subscribers, liveGroups, hnone]
    simp
  constructor
  · intro x
    by_cases hx : x = id
    · rw [hx, hnone hs hgone, hnone ht hgone']
    · exact hsubscribers x hx
  · intro x
    rw [ht.registered.counts, hs.registered.counts, hlive]
  · exact hmembers
  · intro g
    rw [mem_keys_iff ht.filled, mem_keys_iff hs.filled]
    exact exists_congr (hmembers g)

/-- The same clients, with the next id used up. -/
def skipId (c : Clients σ) : Clients σ :=
  { c with system := { c.system with
      registry := { c.system.registry with nextId := c.system.registry.nextId+1 } } }

theorem skipId_sound {c : Clients σ} (h : Sound c) : Sound (skipId c) where
  registry := ⟨{ h.registry.registered with
    fresh := fun id hid => Nat.lt_succ_of_lt (h.registry.registered.fresh id hid) },
    h.registry.filled⟩
  booked := h.booked
  fresh id hid := Nat.lt_succ_of_lt (h.fresh id hid)
  named := h.named
  received := h.received

theorem register_agree {c : Clients σ} (h : Sound c) (groups : List FetchGroupMessagesInput) :
    ClientsAgree c.system.registry.nextId (c.advance (register groups c.system)) (skipId c) := by
  have hsubscribers : ∀ x, x ≠ c.system.registry.nextId →
      (register groups c.system).registry.subscribers.get? x =
        c.system.registry.subscribers.get? x :=
    fun x hx => ((h.registry.registered.registerMany _ _).2.2.2 x).trans (if_neg hx)
  have hnext : (register groups c.system).registry.nextId = c.system.registry.nextId+1 :=
    registerMany_nextId _ _ _
  refine ⟨⟨rfl, rfl, rfl, rfl, hnext.symm, Nat.lt_of_succ_le hnext.ge, ?_, ?_⟩,
    fun _ _ => rfl, ?_⟩
  · exact fun x hx => (hsubscribers x hx).symm
  · exact fun x hx => ((get?_insert _ _ _ _).trans (if_neg hx)).symm
  · intro x hx
    simp only [Clients.advance]
    rw [hsubscribers x hx]
    cases hsub : c.system.registry.subscribers.get? x with
    | none => rfl
    | some sub => exact h.received x sub hsub

/-- The three maps along every run in which requests name a group. -/
structure RegistryConsistent (S : CoordinatorStorage V σ) (storage : σ) : Prop where
  agrees : ∀ actions c, (∀ action ∈ actions, NamesGroup action) →
    Run.run (clientStep S) actions (Clients.init storage) = some c → RegistryAgrees c
  /-- A subscribe call whose fetch fails leaves the maps as they are without it, whatever
  happened between its two steps. -/
  failed : ∀ before groups between c d e, (∀ action ∈ before, NamesGroup action) →
    groups ≠ [] → (∀ action ∈ between, NamesGroup action) →
    (∀ action ∈ between, Names c.system.registry.nextId action = false) →
    Run.run (clientStep S) before (Clients.init storage) = some c →
    Run.run (clientStep S) (.register groups::between) c = some d →
    (S.fetchManyGroupMessages groups d.system.storage).1 = .error e →
    ∃ d', clientStep S (.fetchBacklog c.system.registry.nextId) d = some d' ∧
      ∃ d₀, Run.run (clientStep S) between (skipId c) = some d₀ ∧
        SameMaps d₀.system.registry d'.system.registry
  /-- Behind a release the channel is as it was, and the others have what they would
  have without it. -/
  released : ∀ before behind c d id release, (∀ action ∈ before, NamesGroup action) →
    (∀ action ∈ behind, NamesGroup action) →
    Run.run (clientStep S) before (Clients.init storage) = some c →
    release = .unsubscribe id ∨ release = .drop id →
    Run.run (clientStep S) (release::behind) c = some d →
    d.received id = c.received id ∧ ¬Live d id ∧
      ∃ d₀, Run.run (clientStep S) (behind.filter (fun a => !Names id a)) c = some d₀ ∧
        ∀ x, x ≠ id → SameFor x d₀ d

theorem failed_without_trace {S : CoordinatorStorage V σ} {c : Clients σ} (hc : Sound c)
    (groups : List FetchGroupMessagesInput) (between : List Action) (d : Clients σ)
    (e : StorageError) (hgroups : groups ≠ []) (hok : ∀ action ∈ between, NamesGroup action)
    (hquiet : ∀ action ∈ between, Names c.system.registry.nextId action = false)
    (hrun : Run.run (clientStep S) (.register groups::between) c = some d)
    (herror : (S.fetchManyGroupMessages groups d.system.storage).1 = .error e) :
    ∃ d', clientStep S (.fetchBacklog c.system.registry.nextId) d = some d' ∧
      ∃ d₀, Run.run (clientStep S) between (skipId c) = some d₀ ∧
        SameMaps d₀.system.registry d'.system.registry := by
  obtain ⟨m, hm, hrest⟩ := (Run.run_cons _ _ _ _ _).mp hrun
  obtain rfl := Option.some.inj hm
  have hms : Sound (c.advance (register groups c.system)) :=
    act_sound (.register groups) c _ hc hgroups (.register (S := S) groups)
  obtain ⟨hkept, d₀, hrun₀, hd₀, hagree⟩ := run_agree between hok _ (skipId c) d hms
    (skipId_sound hc) (register_agree hc groups) (Or.inr hquiet) hrest
  rw [List.filter_eq_self.mpr (fun a ha => by rw [hquiet a ha]; rfl)] at hrun₀
  have hw : d.system.subscriptions.get? c.system.registry.nextId =
      some ⟨true, groups, .registered, c.system.published.length, c.system.appended.length⟩ :=
    hkept.trans ((get?_insert _ _ _ _).trans (if_pos rfl))
  have hd := run_sound between hok _ d hms hrest
  have hgone₀ : d₀.system.subscriptions.get? c.system.registry.nextId = none := by
    have hgone := (run_agree between hok _ _ d₀ (skipId_sound hc) hms
      (register_agree hc groups).symm (Or.inr hquiet) hrun₀).1
    exact hgone.trans hc.unused.1
  have hreg := hd.registry.fetchBacklog S _ _ hw
  refine ⟨_, (clientStep_iff S _ _ _).mpr (.fetchBacklog _ _ hw rfl), d₀, hrun₀, ?_⟩
  change SameMaps d₀.system.registry (fetchBacklog S _ _ d.system).registry
  rcases fetchBacklog_cases S c.system.registry.nextId ⟨true, groups, .registered,
    c.system.published.length, c.system.appended.length⟩ d.system with
    ⟨-, -, hleft⟩ | ⟨backlog, hfetched, -⟩
  · have hget := (hd.registry.registered.removeSubscriber c.system.registry.nextId
      (cursorsOf groups).keys (by rw [liveGroups, hw]; rfl)).2
    refine sameMaps hd₀.registry hreg c.system.registry.nextId ?_ ?_ hgone₀ ?_
    · intro x hx
      rw [hleft]
      exact ((hget x).trans (if_neg hx)).trans (hagree.system.subscribers x hx).symm
    · intro x hx
      rw [hleft]
      exact ((get?_shiftRemove _ _ _).trans (if_neg hx)).trans
        (hagree.system.subscriptions x hx).symm
    · rw [hleft]
      exact (get?_shiftRemove _ _ _).trans (if_pos rfl)
  · simp [herror] at hfetched

theorem released_without_trace {S : CoordinatorStorage V σ} {c : Clients σ} (hc : Sound c)
    (id : ℕ) (release : Action) (hrelease : release = .unsubscribe id ∨ release = .drop id)
    (behind : List Action) (d : Clients σ) (hok : ∀ action ∈ behind, NamesGroup action)
    (hrun : Run.run (clientStep S) (release::behind) c = some d) :
    d.received id = c.received id ∧ ¬Live d id ∧
      ∃ d₀, Run.run (clientStep S) (behind.filter (fun a => !Names id a)) c = some d₀ ∧
        ∀ x, x ≠ id → SameFor x d₀ d := by
  obtain ⟨m, hm, hrest⟩ := (Run.run_cons _ _ _ _ _).mp hrun
  have hact := (clientStep_iff S release c m).mp hm
  have hgone : m.system.subscriptions.get? id = none ∧ ClientsAgree id c m := by
    rcases hrelease with rfl | rfl
    · cases hact with
      | unsubscribe _ handle hh =>
        exact ⟨(unsubscribe_released hc id handle hh).1, (release_agree hc id handle hh).1⟩
    · cases hact with
      | drop _ handle hh =>
        exact ⟨(unsubscribe_released hc id handle hh).1, (release_agree hc id handle hh).2⟩
  have hms : Sound m := by
    rcases hrelease with rfl | rfl
    · exact act_sound (.unsubscribe id) c m hc trivial hact
    · exact act_sound (.drop id) c m hc trivial hact
  obtain ⟨hkept, d₀, hrun₀, hd₀, hagree⟩ :=
    run_agree behind hok m c d hms hc hgone.2.symm (Or.inl hgone.1) hrest
  have hd := run_sound behind hok m d hms hrest
  refine ⟨?_, ?_, d₀, hrun₀, fun x hx => hagree.symm.sameFor hd₀ hd x hx⟩
  · rw [run_received behind hok m d hms hgone.2.symm.system.given hgone.1 hrest]
    exact act_received release hms hgone.1 hact
  · rw [live_iff hd, hkept, hgone.1]
    simp

theorem subscription_registry (S : CoordinatorStorage V σ) (storage : σ) :
    RegistryConsistent S storage where
  agrees actions c hok hrun := registryAgrees (run_sound actions hok _ c (Sound.init storage) hrun)
  failed before groups between c d e hbefore hgroups hok hquiet hrun hcall herror :=
    failed_without_trace (run_sound before hbefore _ c (Sound.init storage) hrun) groups between d
      e hgroups hok hquiet hcall herror
  released before behind c d id release hbefore hok hrun hrelease hcall :=
    released_without_trace (run_sound before hbefore _ c (Sound.init storage) hrun) id release
      hrelease behind d hok hcall

end Cordn.Coordinator
