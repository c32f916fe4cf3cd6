import Cordn.ConcurrentPosts

/-!
# Subscribing and then fetching

A live tail of one group is registered before its client fetches. Whatever was
appended by the time of the fetch is in the fetch, and whatever was appended
later is published later than the registration.
-/

set_option autoImplicit false

namespace Cordn.Coordinator
open IndexMap GroupLogOps

variable {V σ : Type}

theorem step_published {S : CoordinatorStorage V σ} (event : Event) (s s' : System σ)
    (hstep : step S event s = some s') : s.published <+: s'.published := by
  rcases step_history event s s' hstep with ⟨params, -, -, rfl⟩ | ⟨r, -, -, rfl⟩ | ⟨-, he, -⟩
  · unfold append
    split <;> exact List.prefix_refl _
  · exact List.prefix_append _ _
  · exact he ▸ List.prefix_refl _

theorem run_published {S : CoordinatorStorage V σ} (events : List Event) (s s' : System σ)
    (hrun : Run.run (step S) events s = some s') : s.published <+: s'.published :=
  Run.run_invariant (step S) (fun s' => s.published <+: s'.published)
    (fun event s₁ s₂ h hstep => h.trans (step_published event s₁ s₂ hstep)) events s s'
    (List.prefix_refl _) hrun

def TailedBy (id : ℕ) (g : String) (registeredAt : ℕ) (s : System σ) : Prop :=
  id < s.registry.nextId ∧ ∀ w, s.subscriptions.get? id = some w → w.many = false ∧
    w.groups = [⟨g, none⟩] ∧ w.registeredAt = registeredAt ∧ w.stage ≠ .registered

section Steps

variable {S : CoordinatorStorage V σ}
  {limit : FetchLimit} {R : σ → MessageLog → Prop} (hS : KeepsLog S limit R) {id : ℕ}
  {g : String} {registeredAt : ℕ}
include hS

theorem step_tailedBy (event : Event) (s s' : System σ) (hc : Consistent R s)
    (h : TailedBy id g registeredAt s) (hstep : step S event s = some s') :
    TailedBy id g registeredAt s' := by
  obtain ⟨hid, htail⟩ := h
  rcases step_subscriptions hS event s s' hc hstep with ⟨hsame, hnext⟩ | ⟨w, -, hin, hnext⟩ |
    ⟨id', w, w', hw, hin, hnext, hgo⟩ | ⟨id', hin, hnext⟩
  · rw [TailedBy, hsame, hnext]
    exact ⟨hid, htail⟩
  · rw [TailedBy, hin, hnext]
    refine ⟨Nat.lt_succ_of_lt hid, fun x hx => ?_⟩
    rw [get?_insert, if_neg (Nat.ne_of_lt hid)] at hx
    exact htail x hx
  · rw [TailedBy, hin, hnext]
    refine ⟨hid, fun x hx => ?_⟩
    rw [get?_insert] at hx
    split at hx
    · rename_i he
      obtain rfl := Option.some.inj hx
      obtain ⟨hmany, hgroups, hat, hstage⟩ := htail w (he ▸ hw)
      rcases hgo with ⟨hregistered, -⟩ | hg
      · exact absurd hregistered hstage
      · exact ⟨hg.many.trans hmany, hg.groups.trans hgroups, hg.registeredAt.trans hat, hg.stage'⟩
    · exact htail x hx
  · rw [TailedBy, hin, hnext]
    refine ⟨hid, fun x hx => ?_⟩
    rw [get?_shiftRemove] at hx
    split at hx
    · simp at hx
    · exact htail x hx

theorem run_tailedBy (events : List Event) (s s' : System σ) (hc : Consistent R s)
    (h : TailedBy id g registeredAt s) (hrun : Run.run (step S) events s = some s') :
    Consistent R s' ∧ TailedBy id g registeredAt s' :=
  Run.run_invariant (step S) (fun s => Consistent R s ∧ TailedBy id g registeredAt s)
    (fun event s₁ s₂ hi hstep => ⟨step_consistent hS event s₁ s₂ hi.1 hstep,
      step_tailedBy hS event s₁ s₂ hi.1 hi.2 hstep⟩) events s s' ⟨hc, h⟩ hrun

theorem fetch_consistent {s : System σ} (hc : Consistent R s) (afterCursor : Option Int) :
    Consistent R
      { s with storage := (S.fetchGroupMessages g afterCursor s.storage).2 } := by
  obtain ⟨log, hR, hlog⟩ := hc.log
  have hnext := (hS.step (.fetch g afterCursor) s.storage log hR trivial).2
  refine ⟨⟨log, hnext, hlog⟩, hc.partition, hc.registry, fun id w hw => ?_⟩
  obtain ⟨sub, hsub, hf⟩ := hc.subscribers id w hw
  exact ⟨sub, hsub, hf.frame rfl rfl⟩

end Steps

theorem channel_tail {R : σ → MessageLog → Prop} {s : System σ} (hc : Consistent R s) {id : ℕ}
    {g : String} {registeredAt : ℕ} (h : TailedBy id g registeredAt s)
    (hopen : (s.subscriptions.get? id).isSome = true) :
    channel s id = (s.published.drop registeredAt).filter (fun r => decide (r.groupId = g)) := by
  obtain ⟨w, hw⟩ := Option.isSome_iff_exists.mp hopen
  obtain ⟨hmany, hgroups, rfl, -⟩ := h.2 w hw
  obtain ⟨sub, hsub, hf⟩ := hc.subscribers id w hw
  have ht := hf.tracks
  simp only [Tracks, hmany] at ht
  rw [channel, hsub, Option.map_some, Option.getD_some, ht.2.sender, liveOf]
  apply List.filter_congr
  intro r _
  simp [Subscription.groupIds, hgroups, mem_groupIds, eq_comm]

/-- A client subscribes to `g`, later fetches above its cursor, and keeps the
subscription open: what was published is fetched or on the channel, the channel
carries nothing twice and nothing of other groups. -/
structure NoGap (S : CoordinatorStorage V σ) (g : String) (afterCursor : Option Int)
    (atFetch : σ) (s : System σ) (channel : List GroupMessageRecord) : Prop where
  covered : ∃ fetched, (S.fetchGroupMessages g afterCursor atFetch).1 = .ok fetched ∧
    ∀ r ∈ s.published, r.groupId = g → above afterCursor r = true → r ∈ fetched ∨ r ∈ channel
  once : channel.Pairwise (fun a b => a.cursor ≠ b.cursor)
  own : ∀ r ∈ channel, r.groupId = g

/-- Over every run with a subscribe, a fetch after it and no unsubscribe. -/
def TailsWithoutGap (S : CoordinatorStorage V σ) (storage : σ) : Prop :=
  ∀ g afterCursor before between behind s₀ m s,
    Run.run (step S) before (System.init storage) = some s₀ →
    Run.run (step S) between (subscribe g s₀) = some m →
    Run.run (step S) behind
      { m with storage := (S.fetchGroupMessages g afterCursor m.storage).2 } = some s →
    (s.subscriptions.get? s₀.registry.nextId).isSome = true →
    NoGap S g afterCursor m.storage s (channel s s₀.registry.nextId)

theorem subscribe_tailedBy (g : String) (s : System σ) :
    TailedBy s.registry.nextId g s.published.length (subscribe g s) := by
  have hnext : (subscribe g s).registry.nextId = s.registry.nextId+1 :=
    registerMany_nextId [g] _ _
  rw [TailedBy, hnext]
  refine ⟨Nat.lt_succ_self _, fun w hw => ?_⟩
  have hnew : (subscribe g s).subscriptions.get? s.registry.nextId =
      some ⟨false, [⟨g, none⟩], .opened, s.published.length, s.appended.length⟩ :=
    (get?_insert _ _ _ _).trans (if_pos rfl)
  obtain rfl := Option.some.inj (hnew.symm.trans hw)
  exact ⟨rfl, rfl, rfl, by simp⟩

theorem published_behind {R : σ → MessageLog → Prop} {s₀ m s : System σ} (hc : Consistent R m)
    (hbefore : s₀.published <+: m.published) (hbehind : m.published <+: s.published)
    (r : GroupMessageRecord) (hr : r ∈ s.published) (hlate : r ∉ m.appended) :
    r ∈ s.published.drop s₀.published.length := by
  obtain ⟨tail, htail⟩ := hbehind
  have hnew : r ∉ m.published :=
    fun hm => hlate (hc.partition.mem_iff.mpr (List.mem_append_left _ hm))
  rw [← htail, List.mem_append] at hr
  rw [← htail, List.drop_append_of_le_length hbefore.length_le]
  exact List.mem_append_right _ (hr.resolve_left hnew)

theorem tailsWithoutGap {S : CoordinatorStorage V σ}
    {limit : FetchLimit} {R : σ → MessageLog → Prop}
    (hS : KeepsLog S limit R) (storage : σ) (h : R storage MessageLog.empty) :
    TailsWithoutGap S storage := by
  intro g afterCursor before between behind s₀ m s hbefore hbetween hbehind hopen
  have hc₀ := run_consistent hS storage h before s₀ hbefore
  have hc₁ := step_consistent hS (.subscribe g) s₀ (subscribe g s₀) hc₀ rfl
  have htail₁ := subscribe_tailedBy g s₀
  obtain ⟨hcm, htailm⟩ := run_tailedBy hS between _ m hc₁ htail₁ hbetween
  obtain ⟨hcs, htails⟩ := run_tailedBy hS behind _ s (fetch_consistent hS hcm afterCursor)
    htailm hbehind
  rw [channel_tail hcs htails hopen]
  have hnodup : s.published.Nodup := by
    have happended := appended_nodup hcs
    rw [hcs.partition.nodup_iff] at happended
    exact List.Nodup.of_append_left happended
  constructor
  · obtain ⟨log, hR, hlog⟩ := hcm.log
    refine ⟨_, fetch_eq_part hS hR g afterCursor, fun r hr hg habove => ?_⟩
    by_cases hstored : r ∈ m.appended
    · left
      rw [List.mem_filter, DenseLog.mem_part, hlog]
      exact ⟨⟨hstored, hg⟩, habove⟩
    · right
      rw [List.mem_filter]
      have hgrows := run_published behind _ s hbehind
      exact ⟨published_behind hcm (run_published between _ m hbetween) hgrows r hr hstored,
        decide_eq_true hg⟩
  · apply ((hnodup.sublist (List.drop_sublist _ _)).filter _).pairwise_of_forall_ne
    intro a ha b hb hne hcursor
    obtain ⟨hma, hga⟩ := List.mem_filter.mp ha
    obtain ⟨hmb, hgb⟩ := List.mem_filter.mp hb
    have hgroup := (of_decide_eq_true hga).trans (of_decide_eq_true hgb).symm
    have happ : ∀ r ∈ s.published.drop s₀.published.length, r ∈ s.appended := fun r hr =>
      hcs.partition.mem_iff.mpr (List.mem_append_left _ (List.mem_of_mem_drop hr))
    exact hne ((dense_appended hcs).inj a b (happ a hma) (happ b hmb) hgroup hcursor)
  · intro r hr
    exact of_decide_eq_true (List.mem_filter.mp hr).2

theorem live_tail_no_gap (json : Sqlite.SerdeJson V) :
    TailsWithoutGap (InMemory.storage : CoordinatorStorage V (InMemory.InMemoryInner V))
        InMemory.InMemoryInner.default ∧
      TailsWithoutGap (Sqlite.storage json) Sqlite.Database.new :=
  ⟨tailsWithoutGap inMemory_keepsLog _ InMemory.HoldsLog.default,
    tailsWithoutGap (sqlite_keepsLog json) _ Sqlite.HoldsLog.new⟩

end Cordn.Coordinator
