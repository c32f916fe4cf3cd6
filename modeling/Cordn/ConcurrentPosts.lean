import Cordn.SerializedPosts

/-!
# Multi-group subscriptions under concurrent posts

Two posts to one group may publish in the other order than they appended. The
watermark then drops the earlier message for good. A subscription misses a
message exactly when some publish overtakes one in flight that it asked for and
that was appended after its backlog fetch.
-/

set_option autoImplicit false

namespace Cordn.Coordinator
open IndexMap Watermark GroupLogOps

variable {V σ : Type}

def Asks (w : Subscription) (r : GroupMessageRecord) : Prop :=
  r.groupId ∈ w.groupIds ∧ startOf w.groups r.groupId < r.cursor

/-- A publish overtakes nothing that the multi-group subscription `id` still waits
for: what it asked for of the messages in flight before `r` was stored when it
fetched its backlog. Until the fetch nothing counts as overtaken. -/
def Unovertaken (id : ℕ) : Event → System σ → Prop
  | .publishLive r, s => ∀ w, s.subscriptions.get? id = some w → w.many = true →
      w.stage ≠ .registered → ∀ r' ∈ s.posting, r'.groupId = r.groupId → r'.cursor < r.cursor →
        Asks w r' → r' ∈ s.appended.take w.fetchedAt
  | _, _ => True

def Complete (S : CoordinatorStorage V σ) (s : System σ) (id : ℕ) (w : Subscription) : Prop :=
  ∀ g ∈ w.groups, ∃ messages,
    (S.fetchGroupMessages g.groupId g.afterCursor s.storage).1 = .ok messages ∧
      messages ⊆ channel s id

def stream (s : System σ) (w : Subscription) : List GroupMessageRecord :=
  backlogOf s.appended w ++ liveOf s.published w

structure Goes (w w' : Subscription) : Prop where
  many : w'.many = w.many
  groups : w'.groups = w.groups
  registeredAt : w'.registeredAt = w.registeredAt
  fetchedAt : w'.fetchedAt = w.fetchedAt
  stage : w.stage ≠ .registered
  stage' : w'.stage ≠ .registered

theorem step_subscriptions {S : CoordinatorStorage V σ}
    {limit : FetchLimit} {R : σ → MessageLog → Prop}
    (hS : KeepsLog S limit R) (event : Event) (s s' : System σ) (hc : Consistent R s)
    (hstep : step S event s = some s') :
    (s'.subscriptions = s.subscriptions ∧ s'.registry.nextId = s.registry.nextId) ∨
    (∃ w, (w.many = false ∨ w.stage = .registered) ∧
      s'.subscriptions = s.subscriptions.insert s.registry.nextId w ∧
      s'.registry.nextId = s.registry.nextId+1) ∨
    (∃ id w w', s.subscriptions.get? id = some w ∧
      s'.subscriptions = s.subscriptions.insert id w' ∧ s'.registry.nextId = s.registry.nextId ∧
      ((w.stage = .registered ∧ w'.fetchedAt = s'.appended.length) ∨ Goes w w')) ∨
    (∃ id, s'.subscriptions = s.subscriptions.shiftRemove id ∧
      s'.registry.nextId = s.registry.nextId) := by
  cases step_takes hstep with
  | append params hroom =>
    obtain ⟨log, storage, -, -, hrun⟩ := append_eq hS hc params hroom
    rw [hrun]
    exact Or.inl ⟨rfl, rfl⟩
  | publishLive r hr => exact Or.inl ⟨rfl, publishLive_nextId r s.registry⟩
  | subscribe g => exact Or.inr (Or.inl ⟨_, Or.inl rfl, rfl, registerMany_nextId [g] _ _⟩)
  | register groups => exact Or.inr (Or.inl ⟨_, Or.inr rfl, rfl, registerMany_nextId _ _ _⟩)
  | fetchBacklog id w hw hstage =>
    obtain ⟨storage, -, ⟨-, hrun⟩ | ⟨-, hrun⟩⟩ := fetchBacklog_eq hS hc id w
    · rw [hrun]
      exact Or.inr (Or.inr (Or.inl ⟨id, w, _, hw, rfl, rfl, Or.inl ⟨hstage, rfl⟩⟩))
    · rw [hrun]
      exact Or.inr (Or.inr (Or.inr ⟨id, rfl, removeSubscriber_nextId _ _ _⟩))
  | finish id w backlog hw hstage =>
    refine Or.inr (Or.inr (Or.inl ⟨id, w, _, hw, rfl, rfl, Or.inr ?_⟩))
    exact ⟨rfl, rfl, rfl, rfl, by simp [hstage], by simp⟩
  | unsubscribe id w hw hstage =>
    exact Or.inr (Or.inr (Or.inr ⟨id, rfl, removeSubscriber_nextId _ _ _⟩))

theorem stream_subset {R : σ → MessageLog → Prop} {s : System σ} (hc : Consistent R s)
    (w : Subscription) : stream s w ⊆ s.appended := by
  intro r hr
  rcases List.mem_append.mp hr with hr | hr
  · exact List.mem_of_mem_take ((mem_storedFor _ _ _).mp hr).1
  · apply hc.partition.mem_iff.mpr
    exact List.mem_append_left _ (List.mem_of_mem_drop (List.mem_filter.mp hr).1)

theorem stream_frame {s s' : System σ} {w w' : Subscription} (hg : Goes w w')
    (hp : s'.published = s.published) (ha : s'.appended = s.appended) :
    stream s' w' = stream s w := by
  have hids : w'.groupIds = w.groupIds := by
    rw [Subscription.groupIds, Subscription.groupIds, hg.groups]
  rw [stream, stream, backlogOf, backlogOf, liveOf, liveOf, hids, hg.groups, hg.registeredAt,
    hg.fetchedAt, hp, ha]

theorem Goes.refl (w : Subscription) (h : w.stage ≠ .registered) : Goes w w :=
  ⟨rfl, rfl, rfl, rfl, h, h⟩

theorem Goes.asks {w w' : Subscription} (hg : Goes w w') (r : GroupMessageRecord) :
    Asks w' r ↔ Asks w r := by
  simp only [Asks, Subscription.groupIds, hg.groups]

theorem stream_append (s s' : System σ) {w : Subscription} (hf : w.fetchedAt ≤ s.appended.length)
    (r : GroupMessageRecord) (hp : s'.published = s.published)
    (ha : s'.appended = s.appended ++ [r]) : stream s' w = stream s w := by
  rw [stream, stream, hp, ha, backlogOf, List.take_append_of_le_length hf, backlogOf]

theorem stream_publish (s s' : System σ) {w : Subscription}
    (hr : w.registeredAt ≤ s.published.length) (r : GroupMessageRecord)
    (hp : s'.published = s.published ++ [r]) (ha : s'.appended = s.appended) :
    stream s' w = stream s w ++ if r.groupId ∈ w.groupIds then [r] else [] := by
  rw [stream, stream, hp, ha, liveOf, List.drop_append_of_le_length hr, List.filter_append, liveOf,
    List.append_assoc]
  by_cases hg : r.groupId ∈ w.groupIds <;> simp [hg]

theorem reached_backlog {R : σ → MessageLog → Prop} {s : System σ} (hc : Consistent R s)
    {w : Subscription} (hd : DistinctGroups w.groups) (r : GroupMessageRecord) (hasks : Asks w r)
    (hstored : r ∈ s.appended.take w.fetchedAt) :
    r.cursor ≤ reached w.groups (stream s w) r.groupId := by
  have hpos := dense_cursor_pos (dense_appended hc) r (List.mem_of_mem_take hstored)
  apply num_le_marks
  apply List.mem_append_left
  exact (mem_storedFor _ _ _).mpr ⟨hstored, (requested_iff hd r hpos).mpr hasks⟩

theorem inflight_notMem_stream {R : σ → MessageLog → Prop} {s : System σ} (hc : Consistent R s)
    (w : Subscription) (r : GroupMessageRecord) (hr : r ∈ s.posting)
    (hlate : r ∉ s.appended.take w.fetchedAt) : r ∉ stream s w := by
  have hnodup : (s.published ++ s.posting).Nodup := by
    rw [← hc.partition.nodup_iff]
    exact appended_nodup hc
  intro hmem
  rcases List.mem_append.mp hmem with hmem | hmem
  · exact hlate ((mem_storedFor _ _ _).mp hmem).1
  · have hpub := List.mem_of_mem_drop (List.mem_filter.mp hmem).1
    exact List.disjoint_of_nodup_append hnodup hpub hr

/-- Every message the subscription asked for has passed, or is in flight and still
to be reached. -/
def Awaited (s : System σ) (w : Subscription) : Prop :=
  ∀ r ∈ s.appended, Asks w r → r ∈ passed w.groups (stream s w) ∨
    (r ∈ s.posting ∧ reached w.groups (stream s w) r.groupId < r.cursor)

theorem Awaited.append {R : σ → MessageLog → Prop} {s s' : System σ} {w : Subscription}
    {sub : Subscriber} (hc : Consistent R s) (hc' : Consistent R s') (hf : Follows s w sub)
    (h : Awaited s w) (r : GroupMessageRecord) (hp : s'.published = s.published)
    (ha : s'.appended = s.appended ++ [r]) (hposting : s'.posting = s.posting ++ [r]) :
    Awaited s' w := by
  intro x hx hasks
  rw [stream_append s s' hf.fetchedAt r hp ha]
  rw [ha, List.mem_append, List.mem_singleton] at hx
  rcases hx with hx | rfl
  · rcases h x hx hasks with hpass | ⟨hpost, hlt⟩
    · exact Or.inl hpass
    · exact Or.inr ⟨by simp [hposting, hpost], hlt⟩
  · refine Or.inr ⟨by simp [hposting], ?_⟩
    rw [reached_lt_iff]
    · exact hasks.2
    · intro b hb hkey
      have hpair := (dense_appended hc').pairwise
      rw [ha, List.pairwise_append] at hpair
      exact hpair.2.2 b (stream_subset hc w hb) x (by simp) hkey

theorem Awaited.publish {R : σ → MessageLog → Prop} {s s' : System σ} {w : Subscription}
    {sub : Subscriber} (hc : Consistent R s) (hf : Follows s w sub) (h : Awaited s w)
    (r : GroupMessageRecord) (hr : r ∈ s.posting) (hp : s'.published = s.published ++ [r])
    (ha : s'.appended = s.appended) (hposting : s'.posting = s.posting.erase r)
    (hd : DistinctGroups w.groups)
    (hover : ∀ r' ∈ s.posting, r'.groupId = r.groupId → r'.cursor < r.cursor → Asks w r' →
      r' ∈ s.appended.take w.fetchedAt) : Awaited s' w := by
  intro x hx hasks
  rw [ha] at hx
  rw [stream_publish s s' hf.registeredAt r hp ha, passed, passing_append, reached, marks_append]
  have hinflight : ∀ y ∈ s.posting, y ∈ s.appended :=
    fun y hy => hc.partition.mem_iff.mpr (List.mem_append_right _ hy)
  rcases h x hx hasks with hpass | ⟨hpost, hlt⟩
  · exact Or.inl (List.mem_append_left _ hpass)
  by_cases hxr : x = r
  · subst hxr
    rw [if_pos hasks.1]
    refine Or.inl (List.mem_append_right _ ?_)
    rw [passing, if_pos hlt]
    simp
  · refine Or.inr ⟨by rw [hposting]; exact (List.mem_erase_of_ne hxr).mpr hpost, ?_⟩
    by_cases hg : r.groupId ∈ w.groupIds
    · rw [if_pos hg, marks_cons, marks_nil]
      by_cases hkey : x.groupId = r.groupId
      · rw [hkey] at hlt ⊢
        rw [raise_self, max_lt_iff]
        refine ⟨hlt, lt_of_not_ge fun hle => ?_⟩
        rcases lt_or_eq_of_le hle with hless | heq
        · have hstored := hover x hpost hkey hless hasks
          exact absurd (hkey ▸ hlt) (not_lt.mpr (reached_backlog hc hd x hasks hstored))
        · exact hxr ((dense_appended hc).inj x r hx (hinflight r hr) hkey heq)
      · rw [raise_other _ _ _ hkey]
        exact hlt
    · rw [if_neg hg, marks_nil]
      exact hlt

theorem awaited_fetched {R : σ → MessageLog → Prop} {s : System σ} {w : Subscription}
    (hc : Consistent R s) (hd : DistinctGroups w.groups) (hf : w.fetchedAt = s.appended.length) :
    Awaited s w := by
  intro r hr hasks
  have hdense := dense_appended hc
  left
  rw [stream, backlogOf, hf, List.take_length, passed, passing_append]
  apply List.mem_append_left
  rw [← passed, passed_storedFor hdense hd]
  exact (mem_storedFor _ _ _).mpr
    ⟨hr, (requested_iff hd r (dense_cursor_pos hdense r hr)).mpr hasks⟩

theorem Awaited.frame {s s' : System σ} {w w' : Subscription} (h : Awaited s w) (hg : Goes w w')
    (hp : s'.published = s.published) (ha : s'.appended = s.appended)
    (hposting : s'.posting = s.posting) : Awaited s' w' := by
  intro r hr hasks
  rw [ha] at hr
  rw [stream_frame hg hp ha, hg.groups, hposting]
  exact h r hr ((hg.asks r).mp hasks)

section Runs

variable {S : CoordinatorStorage V σ}
  {limit : FetchLimit} {R : σ → MessageLog → Prop} (hS : KeepsLog S limit R)
include hS

def AwaitedBy (id : ℕ) (s : System σ) : Prop :=
  ∀ w, s.subscriptions.get? id = some w → w.many = true → w.stage ≠ .registered →
    DistinctGroups w.groups → Awaited s w

theorem step_awaitedBy (id : ℕ) (event : Event) (s s' : System σ) (hc : Consistent R s)
    (h : AwaitedBy id s) (hok : Unovertaken id event s) (hstep : step S event s = some s') :
    AwaitedBy id s' := by
  intro w' hw' hmany hstage hd
  have hc' := step_consistent hS event s s' hc hstep
  rcases step_history event s s' hstep with ⟨params, rfl, hroom, rfl⟩ | ⟨r, rfl, hr, rfl⟩ |
    ⟨hposting, hpublished, happended⟩
  · obtain ⟨log, storage, -, -, hrun⟩ := append_eq hS hc params hroom
    rw [hrun] at hw' hc' ⊢
    obtain ⟨sub, -, hf⟩ := hc.subscribers id w' hw'
    exact (h w' hw' hmany hstage hd).append hc hc' hf (log.next params) rfl rfl rfl
  · obtain ⟨sub, -, hf⟩ := hc.subscribers id w' hw'
    exact (h w' hw' hmany hstage hd).publish hc hf r hr rfl rfl rfl hd (hok w' hw' hmany hstage)
  · have hframe : ∀ w, s.subscriptions.get? id = some w → Goes w w' → Awaited s' w' := by
      intro w hw hg
      have hdw : DistinctGroups w.groups := hg.groups ▸ hd
      exact (h w hw (hg.many ▸ hmany) hg.stage hdw).frame hg hpublished happended hposting
    rcases step_subscriptions hS event s s' hc hstep with ⟨hsame, -⟩ | ⟨w, hnew, hin, -⟩ |
      ⟨id', w, w₁, hw, hin, -, hgo⟩ | ⟨id', hin, -⟩
    · exact hframe w' (hsame ▸ hw') (Goes.refl w' hstage)
    · rw [hin, get?_insert] at hw'
      split at hw'
      · obtain rfl := Option.some.inj hw'
        rcases hnew with hsingle | hregistered
        · simp [hsingle] at hmany
        · exact absurd hregistered hstage
      · exact hframe w' hw' (Goes.refl w' hstage)
    · rw [hin, get?_insert] at hw'
      split at hw'
      · rename_i hid
        obtain rfl := Option.some.inj hw'
        rcases hgo with ⟨-, hfetched⟩ | hg
        · exact awaited_fetched hc' hd hfetched
        · exact hframe w (hid ▸ hw) hg
      · exact hframe w' hw' (Goes.refl w' hstage)
    · rw [hin, get?_shiftRemove] at hw'
      split at hw'
      · simp at hw'
      · exact hframe w' hw' (Goes.refl w' hstage)

/-- The subscription has gone, or has reached beyond `r` without having passed it on. -/
def Missed (id : ℕ) (r : GroupMessageRecord) (s : System σ) : Prop :=
  (s.subscriptions.get? id = none ∧ id < s.registry.nextId) ∨
    ∃ w, s.subscriptions.get? id = some w ∧ w.many = true ∧ w.stage ≠ .registered ∧
      r ∈ s.appended ∧ Asks w r ∧ r ∉ passed w.groups (stream s w) ∧
      r.cursor ≤ reached w.groups (stream s w) r.groupId

omit hS in
theorem missed_behind (w : Subscription) (records more : List GroupMessageRecord)
    (r : GroupMessageRecord) (hn : r ∉ passed w.groups records)
    (hle : r.cursor ≤ reached w.groups records r.groupId) :
    r ∉ passed w.groups (records ++ more) ∧
      r.cursor ≤ reached w.groups (records ++ more) r.groupId := by
  rw [passed, passing_append, reached, marks_append, List.mem_append]
  constructor
  · rintro (hpass | hpass)
    · exact hn hpass
    · exact absurd (lt_of_passing _ _ _ hpass) (not_lt.mpr hle)
  · exact hle.trans (le_marks _ _ _)

omit hS in
theorem Missed.frame {id : ℕ} {r : GroupMessageRecord} {s s' : System σ} {w w' : Subscription}
    (hg : Goes w w') (hw' : s'.subscriptions.get? id = some w')
    (hp : s'.published = s.published) (ha : s'.appended = s.appended) (hmany : w.many = true)
    (hr : r ∈ s.appended) (hasks : Asks w r) (hn : r ∉ passed w.groups (stream s w))
    (hle : r.cursor ≤ reached w.groups (stream s w) r.groupId) : Missed id r s' := by
  refine Or.inr ⟨w', hw', hg.many.trans hmany, hg.stage', ha ▸ hr, (hg.asks r).mpr hasks, ?_, ?_⟩
  · rwa [stream_frame hg hp ha, hg.groups]
  · rwa [stream_frame hg hp ha, hg.groups]

theorem step_missed (id : ℕ) (r : GroupMessageRecord) (event : Event) (s s' : System σ)
    (hc : Consistent R s) (h : Missed id r s) (hstep : step S event s = some s') :
    Missed id r s' := by
  rcases h with ⟨hgone, hid⟩ | ⟨w, hw, hmany, hstage, hr, hasks, hn, hle⟩
  · left
    rcases step_subscriptions hS event s s' hc hstep with ⟨hsame, hnext⟩ | ⟨w, -, hin, hnext⟩ |
      ⟨id', w, w₁, hw, hin, hnext, -⟩ | ⟨id', hin, hnext⟩
    · exact ⟨hsame ▸ hgone, hnext ▸ hid⟩
    · rw [hin, get?_insert, if_neg hid.ne, hnext]
      exact ⟨hgone, Nat.lt_succ_of_lt hid⟩
    · have hne : id ≠ id' := by
        rintro rfl
        simp [hgone] at hw
      rw [hin, get?_insert, if_neg hne, hnext]
      exact ⟨hgone, hid⟩
    · rw [hin, get?_shiftRemove, hnext]
      exact ⟨by split <;> simp [hgone], hid⟩
  · obtain ⟨sub, -, hf⟩ := hc.subscribers id w hw
    rcases step_history event s s' hstep with ⟨params, rfl, hroom, rfl⟩ | ⟨x, rfl, hx, rfl⟩ |
      ⟨hposting, hpublished, happended⟩
    · obtain ⟨log, storage, -, -, hrun⟩ := append_eq hS hc params hroom
      have hsame := stream_append s (append S params s) hf.fetchedAt (log.next params)
        (by rw [hrun]) (by rw [hrun])
      have hmem : r ∈ (append S params s).appended := by
        rw [hrun]
        exact List.mem_append_left _ hr
      have hget : (append S params s).subscriptions.get? id = some w := by
        rw [hrun]
        exact hw
      exact Or.inr ⟨w, hget, hmany, hstage, hmem, hasks, hsame ▸ hn, hsame ▸ hle⟩
    · obtain ⟨hn', hle'⟩ := missed_behind w (stream s w)
        (if x.groupId ∈ w.groupIds then [x] else []) r hn hle
      rw [← stream_publish s (publish x s) hf.registeredAt x rfl rfl] at hn' hle'
      exact Or.inr ⟨w, hw, hmany, hstage, hr, hasks, hn', hle'⟩
    · have hframe : ∀ w', s'.subscriptions.get? id = some w' → Goes w w' → Missed id r s' :=
        fun w' hw' hg => Missed.frame hg hw' hpublished happended hmany hr hasks hn hle
      have hfresh := hc.registry.fresh id (by rw [liveGroups, hw]; rfl)
      rcases step_subscriptions hS event s s' hc hstep with ⟨hsame, -⟩ | ⟨w₁, -, hin, -⟩ |
        ⟨id', w₀, w₁, hw₀, hin, -, hgo⟩ | ⟨id', hin, hnext⟩
      · exact hframe w (hsame ▸ hw) (Goes.refl w hstage)
      · exact hframe w (by rw [hin, get?_insert, if_neg hfresh.ne, hw]) (Goes.refl w hstage)
      · by_cases hid : id = id'
        · subst hid
          obtain rfl := Option.some.inj (hw.symm.trans hw₀)
          rcases hgo with ⟨hreg, -⟩ | hg
          · exact absurd hreg hstage
          · exact hframe w₁ (by rw [hin, get?_insert, if_pos rfl]) hg
        · exact hframe w (by rw [hin, get?_insert, if_neg hid, hw]) (Goes.refl w hstage)
      · by_cases hid : id = id'
        · exact Or.inl ⟨by rw [hin, get?_shiftRemove, if_pos hid], hnext ▸ hfresh⟩
        · exact hframe w (by rw [hin, get?_shiftRemove, if_neg hid, hw]) (Goes.refl w hstage)

theorem run_missed (id : ℕ) (r : GroupMessageRecord) (events : List Event) (s s' : System σ)
    (hc : Consistent R s) (h : Missed id r s) (hrun : Run.run (step S) events s = some s') :
    Missed id r s' :=
  (Run.run_invariant (step S) (fun s => Consistent R s ∧ Missed id r s)
    (fun event s s' hs hstep => ⟨step_consistent hS event s s' hs.1 hstep,
      step_missed hS id r event s s' hs.1 hs.2 hstep⟩) events s s' ⟨hc, h⟩ hrun).2

omit hS in
theorem overtaking_misses (id : ℕ) (event : Event) (s s' : System σ) (hc : Consistent R s)
    (hstep : step S event s = some s') (hover : ¬Unovertaken id event s) :
    ∃ r, Missed id r s' := by
  cases step_takes hstep with
  | publishLive x hx =>
    simp only [Unovertaken, not_forall] at hover
    obtain ⟨w, hw, hmany, hstage, r, hr, hkey, hless, hasks, hlate⟩ := hover
    obtain ⟨sub, -, hf⟩ := hc.subscribers id w hw
    have hmem : r ∈ s.appended := hc.partition.mem_iff.mpr (List.mem_append_right _ hr)
    have hstream := stream_publish s (publish x s) hf.registeredAt x rfl rfl
    rw [if_pos (hkey ▸ hasks.1)] at hstream
    refine ⟨r, Or.inr ⟨w, hw, hmany, hstage, hmem, hasks, ?_, ?_⟩⟩
    · intro hpass
      have hin := passing_subset _ _ hpass
      rw [hstream, List.mem_append, List.mem_singleton] at hin
      rcases hin with hin | rfl
      · exact inflight_notMem_stream hc w r hr hlate hin
      · exact lt_irrefl _ hless
    · rw [hstream, hkey]
      exact hless.le.trans (num_le_marks _ _ x (by simp))
  | append params hroom => exact absurd trivial hover
  | subscribe g => exact absurd trivial hover
  | register groups => exact absurd trivial hover
  | fetchBacklog id' w hw hstage => exact absurd trivial hover
  | finish id' w backlog hw hstage => exact absurd trivial hover
  | unsubscribe id' w hw hstage => exact absurd trivial hover

theorem every_unovertaken (id : ℕ) (events : List Event) (s s' : System σ) (hc : Consistent R s)
    (hrun : Run.run (step S) events s = some s') (hall : ∀ r, ¬Missed id r s') :
    Run.Every (Unovertaken id) (step S) events s := by
  induction events generalizing s with
  | nil => trivial
  | cons event events ih =>
    obtain ⟨m, hm, hrest⟩ := (Run.run_cons (step S) event events s s').mp hrun
    have hcm := step_consistent hS event s m hc hm
    constructor
    · by_contra hover
      obtain ⟨r, hr⟩ := overtaking_misses id event s m hc hm hover
      exact hall r (run_missed hS id r events m s' hcm hr hrest)
    · intro m' hm'
      obtain rfl := Option.some.inj (hm.symm.trans hm')
      exact ih m hcm hrest

theorem run_awaitedBy (storage : σ) (h : R storage MessageLog.empty) (id : ℕ)
    (events : List Event) (s : System σ)
    (hevery : Run.Every (Unovertaken id) (step S) events (System.init storage))
    (hrun : Run.run (step S) events (System.init storage) = some s) :
    Consistent R s ∧ AwaitedBy id s := by
  refine Run.every_invariant (step S) (Unovertaken id) (fun s => Consistent R s ∧ AwaitedBy id s)
    ?_ events _ s ⟨Consistent.init storage h, ?_⟩ hevery hrun
  · rintro event s s' ⟨hc, hawait⟩ hok hstep
    exact ⟨step_consistent hS event s s' hc hstep,
      step_awaitedBy hS id event s s' hc hawait hok hstep⟩
  · intro w hw
    simp [System.init] at hw

theorem complete_iff {s : System σ} (hc : Consistent R s) (id : ℕ) (w : Subscription)
    (hd : DistinctGroups w.groups) :
    Complete S s id w ↔ ∀ r ∈ s.appended, Asks w r → r ∈ channel s id := by
  obtain ⟨log, hR, hlog⟩ := hc.log
  have hfetch : ∀ g after, (S.fetchGroupMessages g after s.storage).1 =
      .ok ((DenseLog.part GroupMessageRecord.groupId g s.appended).filter (above after)) := by
    intro g after
    rw [← hlog]
    exact fetch_eq_part hS hR g after
  have hpos := dense_cursor_pos (dense_appended hc)
  constructor
  · intro hcomplete r hr hasks
    obtain ⟨g, hg, hid⟩ := (mem_groupIds _ _).mp hasks.1
    obtain ⟨messages, hmessages, hsub⟩ := hcomplete g hg
    rw [hfetch, Except.ok.injEq] at hmessages
    apply hsub
    rw [← hmessages, List.mem_filter, DenseLog.mem_part]
    refine ⟨⟨hr, hid.symm⟩, ?_⟩
    rw [above_iff _ r (hpos r hr), ← startOf_distinct hd g hg, hid]
    exact hasks.2
  · intro hall g hg
    refine ⟨_, hfetch g.groupId g.afterCursor, ?_⟩
    intro r hr
    obtain ⟨hpart, habove⟩ := List.mem_filter.mp hr
    obtain ⟨hmem, hid⟩ := (DenseLog.mem_part _ _ _ _).mp hpart
    rw [above_iff _ r (hpos r hmem), ← startOf_distinct hd g hg] at habove
    exact hall r hmem ⟨(mem_groupIds _ _).mpr ⟨g, hg, hid.symm⟩, hid ▸ habove⟩

omit hS in
theorem channel_passed {s : System σ} (hc : Consistent R s) (id : ℕ) (w : Subscription)
    (hw : s.subscriptions.get? id = some w) (hmany : w.many = true) (hopen : w.stage = .opened) :
    channel s id = passed w.groups (stream s w) := by
  obtain ⟨sub, hsub, hf⟩ := hc.subscribers id w hw
  have ht := hf.tracks
  simp only [Tracks, hmany, hopen] at ht
  rw [channel, hsub, Option.map_some, Option.getD_some, ht.sender, stream]

theorem complete_iff_unovertaken (storage : σ) (h : R storage MessageLog.empty) (id : ℕ)
    (w : Subscription) (events : List Event) (s : System σ)
    (hrun : Run.run (step S) events (System.init storage) = some s) (hquiet : Quiet s)
    (hw : s.subscriptions.get? id = some w) (hmany : w.many = true)
    (hd : DistinctGroups w.groups) :
    Complete S s id w ↔ Run.Every (Unovertaken id) (step S) events (System.init storage) := by
  have hc := run_consistent hS storage h events s hrun
  have hopen := hquiet.2 id w hw
  have hstage : w.stage ≠ .registered := by simp [hopen]
  rw [complete_iff hS hc id w hd, channel_passed hc id w hw hmany hopen]
  constructor
  · intro hall
    apply every_unovertaken hS id events _ s (Consistent.init storage h) hrun
    rintro r (⟨hgone, -⟩ | ⟨w', hw', -, -, hr, hasks, hn, -⟩)
    · simp [hw] at hgone
    · obtain rfl := Option.some.inj (hw.symm.trans hw')
      exact hn (hall r hr hasks)
  · intro hevery r hr hasks
    obtain ⟨-, hawait⟩ := run_awaitedBy hS storage h id events s hevery hrun
    rcases hawait w hw hmany hstage hd r hr hasks with hpass | ⟨hpost, -⟩
    · exact hpass
    · simp [hquiet.1] at hpost

end Runs

/-- At rest a multi-group subscription has all it asked for exactly when no publish
overtook a message it was still waiting for. -/
def LosesOnlyOvertaken (S : CoordinatorStorage V σ) (storage : σ) : Prop :=
  ∀ events s id w, Run.run (step S) events (System.init storage) = some s → Quiet s →
    s.subscriptions.get? id = some w → w.many = true → DistinctGroups w.groups →
    (Complete S s id w ↔ Run.Every (Unovertaken id) (step S) events (System.init storage))

theorem concurrent_posts (json : Sqlite.SerdeJson V) :
    LosesOnlyOvertaken (InMemory.storage : CoordinatorStorage V (InMemory.InMemoryInner V))
        InMemory.InMemoryInner.default ∧
      LosesOnlyOvertaken (Sqlite.storage json) Sqlite.Database.new :=
  ⟨fun events s id w hrun hquiet hw hmany hd => complete_iff_unovertaken inMemory_keepsLog _
      InMemory.HoldsLog.default id w events s hrun hquiet hw hmany hd,
    fun events s id w hrun hquiet hw hmany hd => complete_iff_unovertaken (sqlite_keepsLog json) _
      Sqlite.HoldsLog.new id w events s hrun hquiet hw hmany hd⟩

/-- Two posts to "g" publish in the other order than they appended. -/
def overtaking : List Event :=
  [.register [⟨"g", none⟩], .fetchBacklog 1, .finish 1, .append ⟨"g", [1], 0⟩,
    .append ⟨"g", [2], 0⟩, .publishLive ⟨2, "g", [2], 0⟩, .publishLive ⟨1, "g", [1], 0⟩]

def overtakenSubscription : Subscription := ⟨true, [⟨"g", none⟩], .opened, 0, 0⟩

/-- All calls are done and both messages are stored; the first never reaches the channel. -/
theorem overtaken_lost :
    ∃ s, Run.run (step (InMemory.storage : CoordinatorStorage Bool _)) overtaking
        (System.init InMemory.InMemoryInner.default) = some s ∧ Quiet s ∧
      s.subscriptions.get? 1 = some overtakenSubscription ∧ channel s 1 = [⟨2, "g", [2], 0⟩] ∧
      ¬Complete (InMemory.storage : CoordinatorStorage Bool _) s 1 overtakenSubscription := by
  obtain ⟨s, hs⟩ := Option.isSome_iff_exists.mp (show (Run.run
    (step (InMemory.storage : CoordinatorStorage Bool _)) overtaking
    (System.init InMemory.InMemoryInner.default)).isSome = true by decide +kernel)
  have hrun : (Run.run (step (InMemory.storage : CoordinatorStorage Bool _)) overtaking
      (System.init InMemory.InMemoryInner.default)).map (fun s => (s.posting,
        s.subscriptions.entries, channel s 1,
        ((InMemory.storage : CoordinatorStorage Bool _).fetchGroupMessages "g" none
          s.storage).1)) =
      some ([], [(1, overtakenSubscription)], [⟨2, "g", [2], 0⟩],
        .ok [⟨1, "g", [1], 0⟩, ⟨2, "g", [2], 0⟩]) := by
    decide +kernel
  rw [hs, Option.map_some, Option.some.injEq] at hrun
  obtain ⟨hposting, hentries, hchannel, hfetch⟩ : _ ∧ _ ∧ _ ∧ _ := by
    simpa only [Prod.mk.injEq] using hrun
  have hget : ∀ id w, s.subscriptions.get? id = some w ↔ (id, w) = (1, overtakenSubscription) :=
    fun id w => by rw [IndexMap.get?_eq_some_iff, hentries, List.mem_singleton]
  refine ⟨s, hs, ⟨hposting, ?_⟩, (hget _ _).mpr rfl, hchannel, ?_⟩
  · intro id w hw
    rw [(Prod.mk.inj ((hget id w).mp hw)).2]
    rfl
  · intro hcomplete
    obtain ⟨messages, hmessages, hsub⟩ := hcomplete ⟨"g", none⟩ (List.mem_singleton_self _)
    obtain rfl := Except.ok.inj (hfetch.symm.trans hmessages)
    have hmem := hsub (List.mem_cons_self)
    rw [hchannel] at hmem
    revert hmem
    decide

end Cordn.Coordinator
