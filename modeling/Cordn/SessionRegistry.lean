import Cordn.SessionResumption
import Cordn.SubscriptionRegistry

/-!
# Streaming calls leave nothing behind

Over any storage, its failures included, the registry holds an entry for each
streaming call that is not over and nothing else. A call that returned, whose
backlog fetch failed or whose task was dropped has left no trace, and a call that
streams can always be ended.
-/

set_option autoImplicit false

namespace Cordn.Coordinator
open IndexMap

variable {V σ : Type}

def PostsOnly : StreamEvent → Prop
  | .coordinator (.append _) | .coordinator (.publishLive _) => True
  | .coordinator _ => False
  | .subscribe _ | .turn _ _ => True

instance (phase : Phase) : Decidable phase.Over := inferInstanceAs (Decidable (_ ∨ _ ∨ _))

def unfinished (t : Streaming σ) : List (ℕ × Session) :=
  t.sessions.entries.filter (fun e => decide (¬e.2.phase.Over))

structure RegistryOfCalls (S : CoordinatorStorage V σ) (externals : Adapter.Externals V)
    (t : Streaming σ) : Prop where
  subscribers : ∀ id, id ∈ t.system.registry.subscribers.keys ↔
    ∃ x, t.sessions.get? id = some x ∧ ¬x.phase.Over
  counts : ∀ id x, t.sessions.get? id = some x → ¬x.phase.Over →
    t.system.registry.refcounts.get? id = some (distinctGroups x.groups).length
  members : ∀ g id, id ∈ t.system.registry.groupSubscribers.bucket g ↔
    ∃ x, t.sessions.get? id = some x ∧ ¬x.phase.Over ∧ g ∈ distinctGroups x.groups
  active : getActiveSubscriptionCount t.system = (unfinished t).length
  /-- Once all calls are over nothing is left. -/
  empty : (∀ id x, t.sessions.get? id = some x → x.phase.Over) →
    t.system.registry.groupSubscribers.entries = [] ∧
      t.system.registry.subscribers.entries = [] ∧ t.system.registry.refcounts.entries = []
  /-- The task of a call that streams may be dropped at any time. -/
  ends : ∀ id x, t.sessions.get? id = some x → x.phase.Running →
    ∃ t', streamStep S externals (.turn id .cancel) t = some t' ∧
      id ∉ t'.system.registry.subscribers.keys

section Steps

variable {S : CoordinatorStorage V σ} {externals : Adapter.Externals V}

theorem step_registrySound {event : Event} {s s' : System σ} (h : RegistrySound s)
    (hstep : step S event s = some s') : RegistrySound s' := by
  cases step_takes hstep with
  | append params hroom => exact h.append S params
  | publishLive record hr => exact h.publish record
  | subscribe groupId => exact subscribe_eq groupId s ▸ h.enter _ _
  | register groups => exact register_eq groups s ▸ h.enter _ _
  | fetchBacklog id w hw hstage => exact h.fetchBacklog S id w hw
  | finish id w backlog hw hstage => exact h.finish id w backlog hw
  | unsubscribe id w hw hstage =>
    exact h.leave id w.groupIds (by rw [liveGroups, hw, Option.map_some])

theorem step_owned {event : Event} {s s' : System σ} (hstep : step S event s = some s') (id : ℕ)
    (hid : (s'.subscriptions.get? id).isSome = true) :
    (s.subscriptions.get? id).isSome = true ∨ id = s.registry.nextId ∧
      ((∃ g, event = .subscribe g) ∨ ∃ groups, event = .register groups) := by
  have hinsert : ∀ (id' : ℕ) (w' : Subscription),
      ((s.subscriptions.insert id' w').get? id).isSome = true →
      (s.subscriptions.get? id).isSome = true ∨ id = id' := by
    intro id' w' h
    rw [get?_insert] at h
    split at h
    · rename_i he
      exact Or.inr he
    · exact Or.inl h
  have hremove : ∀ id' : ℕ, ((s.subscriptions.shiftRemove id').get? id).isSome = true →
      (s.subscriptions.get? id).isSome = true := by
    intro id' h
    rw [get?_shiftRemove] at h
    split at h
    · cases h
    · exact h
  cases step_takes hstep with
  | append params hroom =>
    unfold append at hid
    split at hid <;> exact Or.inl hid
  | publishLive record hr => exact Or.inl hid
  | subscribe groupId => exact (hinsert _ _ hid).imp_right fun he => ⟨he, Or.inl ⟨_, rfl⟩⟩
  | register groups => exact (hinsert _ _ hid).imp_right fun he => ⟨he, Or.inr ⟨_, rfl⟩⟩
  | fetchBacklog id' w hw hstage =>
    rcases fetchBacklog_cases S id' w s with ⟨e, -, hrun⟩ | ⟨backlog, -, hrun⟩
    · rw [hrun] at hid
      exact Or.inl (hremove id' hid)
    · rw [hrun] at hid
      rcases hinsert id' _ hid with hold | rfl
      · exact Or.inl hold
      · exact Or.inl (by rw [hw]; rfl)
  | finish id' w backlog hw hstage =>
    rcases hinsert id' _ hid with hold | rfl
    · exact Or.inl hold
    · exact Or.inl (by rw [hw]; rfl)
  | unsubscribe id' w hw hstage => exact Or.inl (hremove id' hid)

def AllOwned (t : Streaming σ) : Prop :=
  ∀ id, (t.system.subscriptions.get? id).isSome = true → (t.sessions.get? id).isSome = true

theorem isSome_insert (sessions : IndexMap ℕ Session) (id' : ℕ) (y : Session) (id : ℕ)
    (h : (sessions.get? id).isSome = true) : ((sessions.insert id' y).get? id).isSome = true := by
  rw [get?_insert]
  split
  · rfl
  · exact h

theorem streams_owned {event : StreamEvent} {t t' : Streaming σ} (h : AllOwned t)
    (hposts : PostsOnly event) (hstep : Streams S externals t event t') : AllOwned t' := by
  intro id hid
  cases hstep with
  | coordinator event system hother hstep =>
    rcases step_owned hstep id hid with hold | ⟨-, ⟨g, rfl⟩ | ⟨groups, rfl⟩⟩
    · exact h id hold
    · exact hposts.elim
    · exact hposts.elim
  | refused | waits => exact h id hid
  | subscribe groups hok =>
    have hregister : step S (.register groups) t.system = some (register groups t.system) := rfl
    rcases step_owned hregister id hid with hold | ⟨rfl, -⟩
    · exact isSome_insert _ _ _ id (h id hold)
    · rw [get?_insert, if_pos rfl]
      rfl
  | fetched _ x system hx hphase hfetch hlive =>
    rcases step_owned hfetch id hid with hold | ⟨-, ⟨g, he⟩ | ⟨groups, he⟩⟩
    · exact h id hold
    · cases he
    · cases he
  | failed _ x system hx hphase hstep | start _ x system hx hphase hstep
  | ends _ x turn phase system hx hphase hover hstep =>
    rcases step_owned hstep id hid with hold | ⟨-, ⟨g, he⟩ | ⟨groups, he⟩⟩
    · exact isSome_insert _ _ _ id (h id hold)
    · cases he
    · cases he
  | receive | drained | leaves | deactivate | close => exact isSome_insert _ _ _ id (h id hid)

structure Kept (t : Streaming σ) : Prop where
  sound : RegistrySound t.system
  stand : AllStand t
  checked : AllChecked t
  owned : AllOwned t

theorem run_kept (storage : σ) (events : List StreamEvent) (t : Streaming σ)
    (hposts : ∀ event ∈ events, PostsOnly event)
    (hrun : Run.run (streamStep S externals) events (Streaming.init storage) = some t) :
    Kept t := by
  have hkept : RegistrySound t.system ∧ AllStand t ∧ AllOwned t := by
    refine Run.every_invariant (streamStep S externals) (fun event _ => PostsOnly event)
      (fun t => RegistrySound t.system ∧ AllStand t ∧ AllOwned t) ?_ events _ t ?_
      (Run.every_of_forall _ _ events _ hposts) hrun
    · rintro event t t' ⟨hsound, hstand, howned⟩ hok hstep
      have hstreams := streamStep_streams hstep
      refine ⟨?_, streams_allStand hstand hstreams, streams_owned howned hok hstreams⟩
      rcases streams_system hstreams with hsame | ⟨e, he, -⟩
      · exact hsame ▸ hsound
      · exact step_registrySound hsound he
    · refine ⟨⟨registered_new, filled_empty⟩, fun id x hx => ?_, fun id hid => ?_⟩
      · simp [Streaming.init] at hx
      · simp [Streaming.init, System.init] at hid
  exact ⟨hkept.1, hkept.2.1, run_allChecked storage events t hrun, hkept.2.2⟩

theorem Phase.cases (phase : Phase) : phase = .opening ∨ phase.Running ∨ phase.Over := by
  cases phase <;> simp [Phase.Running, Phase.Over]

theorem Kept.subscription {t : Streaming σ} (h : Kept t) (id : ℕ) (x : Session)
    (hx : t.sessions.get? id = some x) (hphase : ¬x.phase.Over) :
    ∃ w, t.system.subscriptions.get? id = some w ∧ w.groups = x.groups := by
  rcases x.phase.cases with ho | hr | hover
  · obtain ⟨w, hw, -, hgroups, -⟩ := (h.stand id x hx).opening ho
    exact ⟨w, hw, hgroups⟩
  · obtain ⟨w, hw, -, hgroups, -⟩ := (h.stand id x hx).running hr
    exact ⟨w, hw, hgroups⟩
  · exact absurd hover hphase

theorem Kept.call {t : Streaming σ} (h : Kept t) (id : ℕ) (w : Subscription)
    (hw : t.system.subscriptions.get? id = some w) :
    ∃ x, t.sessions.get? id = some x ∧ ¬x.phase.Over ∧ w.groups = x.groups := by
  obtain ⟨x, hx⟩ := Option.isSome_iff_exists.mp (h.owned id (by rw [hw]; rfl))
  have hphase : ¬x.phase.Over := by
    intro hover
    rw [(h.stand id x hx).gone hover] at hw
    cases hw
  obtain ⟨w', hw', hgroups⟩ := h.subscription id x hx hphase
  obtain rfl := Option.some.inj (hw.symm.trans hw')
  exact ⟨x, hx, hphase, hgroups⟩

theorem Kept.subscribers {t : Streaming σ} (h : Kept t) (id : ℕ) :
    id ∈ t.system.registry.subscribers.keys ↔
      ∃ x, t.sessions.get? id = some x ∧ ¬x.phase.Over := by
  rw [← get?_isSome_iff, h.sound.registered.subscribers, liveGroups, Option.isSome_map]
  constructor
  · intro hsome
    obtain ⟨w, hw⟩ := Option.isSome_iff_exists.mp hsome
    obtain ⟨x, hx, hphase, -⟩ := h.call id w hw
    exact ⟨x, hx, hphase⟩
  · rintro ⟨x, hx, hphase⟩
    obtain ⟨w, hw, -⟩ := h.subscription id x hx hphase
    rw [hw]
    rfl

theorem Kept.counts {t : Streaming σ} (h : Kept t) (id : ℕ) (x : Session)
    (hx : t.sessions.get? id = some x) (hphase : ¬x.phase.Over) :
    t.system.registry.refcounts.get? id = some (distinctGroups x.groups).length := by
  obtain ⟨w, hw, hgroups⟩ := h.subscription id x hx hphase
  obtain ⟨hnamed, -⟩ := (subscribeChecks_iff _).mp (h.checked id x hx)
  rw [h.sound.registered.counts, liveGroups, hw, Option.map_some, Option.bind_some,
    countOf_groupIds w (hgroups ▸ hnamed), hgroups]

theorem Kept.refcounts {t : Streaming σ} (h : Kept t) (id : ℕ) :
    id ∈ t.system.registry.refcounts.keys ↔
      ∃ x, t.sessions.get? id = some x ∧ ¬x.phase.Over := by
  rw [← get?_isSome_iff]
  constructor
  · intro hsome
    rw [h.sound.registered.counts, liveGroups] at hsome
    cases hw : t.system.subscriptions.get? id with
    | none => simp [hw] at hsome
    | some w =>
      obtain ⟨x, hx, hphase, -⟩ := h.call id w hw
      exact ⟨x, hx, hphase⟩
  · rintro ⟨x, hx, hphase⟩
    rw [h.counts id x hx hphase]
    rfl

theorem Kept.members {t : Streaming σ} (h : Kept t) (g : String) (id : ℕ) :
    id ∈ t.system.registry.groupSubscribers.bucket g ↔
      ∃ x, t.sessions.get? id = some x ∧ ¬x.phase.Over ∧ g ∈ distinctGroups x.groups := by
  rw [h.sound.registered.members, liveGroups]
  constructor
  · rintro ⟨gs, hgs, hg⟩
    obtain ⟨w, hw, rfl⟩ := Option.map_eq_some_iff.mp hgs
    obtain ⟨x, hx, hphase, hgroups⟩ := h.call id w hw
    exact ⟨x, hx, hphase, (mem_distinctGroups _ _).mpr (hgroups ▸ hg)⟩
  · rintro ⟨x, hx, hphase, hg⟩
    obtain ⟨w, hw, hgroups⟩ := h.subscription id x hx hphase
    exact ⟨w.groupIds, by rw [hw]; rfl, (mem_distinctGroups _ _).mp (hgroups ▸ hg)⟩

theorem Kept.active {t : Streaming σ} (h : Kept t) :
    getActiveSubscriptionCount t.system = (unfinished t).length := by
  have hnodup : ((unfinished t).map Prod.fst).Nodup :=
    t.sessions.nodup.sublist (List.filter_sublist.map Prod.fst)
  have hperm : t.system.registry.refcounts.keys.Perm ((unfinished t).map Prod.fst) := by
    refine (List.perm_ext_iff_of_nodup t.system.registry.refcounts.nodup hnodup).mpr fun id => ?_
    refine (h.refcounts id).trans ?_
    simp only [unfinished, List.mem_map, List.mem_filter, decide_eq_true_eq]
    constructor
    · rintro ⟨x, hx, hphase⟩
      exact ⟨(id, x), ⟨(get?_eq_some_iff _ _ _).mp hx, hphase⟩, rfl⟩
    · rintro ⟨⟨id', x⟩, ⟨hx, hphase⟩, rfl⟩
      exact ⟨x, (get?_eq_some_iff _ _ _).mpr hx, hphase⟩
  have hlength := hperm.length_eq
  rw [keys, List.length_map, List.length_map] at hlength
  exact hlength

theorem Kept.empty {t : Streaming σ} (h : Kept t)
    (hover : ∀ id x, t.sessions.get? id = some x → x.phase.Over) :
    t.system.registry.groupSubscribers.entries = [] ∧
      t.system.registry.subscribers.entries = [] ∧ t.system.registry.refcounts.entries = [] := by
  have hnone : ∀ id, ¬∃ x, t.sessions.get? id = some x ∧ ¬x.phase.Over :=
    fun id ⟨x, hx, hphase⟩ => hphase (hover id x hx)
  refine ⟨List.eq_nil_iff_forall_not_mem.mpr fun e he => ?_, entries_eq_nil _ fun id hid => ?_,
    entries_eq_nil _ fun id hid => ?_⟩
  · obtain ⟨id, hid⟩ := List.exists_mem_of_ne_nil _ (h.sound.filled e he)
    have hin : id ∈ t.system.registry.groupSubscribers.bucket e.1 := by
      rwa [bucket, (get?_eq_some_iff _ e.1 e.2).mpr he, Option.getD_some]
    obtain ⟨x, hx, hphase, -⟩ := (h.members e.1 id).mp hin
    exact hnone id ⟨x, hx, hphase⟩
  · exact hnone id ((h.subscribers id).mp hid)
  · exact hnone id ((h.refcounts id).mp hid)

theorem Kept.ends {t : Streaming σ} (h : Kept t) (id : ℕ) (x : Session)
    (hx : t.sessions.get? id = some x) (hphase : x.phase.Running) :
    ∃ t', streamStep S externals (.turn id .cancel) t = some t' ∧
      id ∉ t'.system.registry.subscribers.keys := by
  obtain ⟨w, hw, -, -, hopen⟩ := (h.stand id x hx).running hphase
  have hleave : step S (.unsubscribe id) t.system = some (unsubscribe id w t.system) := by
    simp only [step, hw, hopen]
  refine ⟨⟨unsubscribe id w t.system, t.sessions.insert id { x with phase := .cancelled }⟩, ?_, ?_⟩
  · simp only [streamStep, hx, Option.bind_some, sessionTurn, if_pos hphase, endSession, hleave,
      Option.map_some]
  · rw [← get?_isSome_iff, (step_registrySound h.sound hleave).registered.subscribers, liveGroups,
      step_unsubscribe hleave]
    simp

end Steps

/-- After every run of posts and streaming calls. -/
def CallsRegistered (S : CoordinatorStorage V σ) (externals : Adapter.Externals V)
    (storage : σ) : Prop :=
  ∀ events t, (∀ event ∈ events, PostsOnly event) →
    Run.run (streamStep S externals) events (Streaming.init storage) = some t →
    RegistryOfCalls S externals t

theorem calls_registered (S : CoordinatorStorage V σ) (externals : Adapter.Externals V)
    (storage : σ) : CallsRegistered S externals storage := by
  intro events t hposts hrun
  have h := run_kept storage events t hposts hrun
  exact ⟨h.subscribers, h.counts, h.members, h.active, h.empty, h.ends⟩

theorem calls_registered_sample :
    RegistryOfCalls InMemory.storage Adapter.sampleExternals
      ((memoryRun resumedStream).get resumedStream_runs) :=
  calls_registered InMemory.storage Adapter.sampleExternals InMemory.InMemoryInner.default
    resumedStream _ (by simp [resumedStream, PostsOnly]) (Option.some_get resumedStream_runs).symm

end Cordn.Coordinator
