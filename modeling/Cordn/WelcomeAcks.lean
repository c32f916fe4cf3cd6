import Cordn.CoordinatorOps

/-!
# Acknowledged welcomes

A fetch retires every welcome of its target under an acknowledged reference and
creation time, be it one or several. The history kept beside the backend tells
stored welcomes apart by the order in which they were stored.
-/

set_option autoImplicit false

namespace Cordn.CoordinatorOps
open QueueOps

variable {V σ : Type}

/-- The welcomes of a run, each with its number: those pending and those that a
fetch of their target has returned. -/
structure Inboxes where
  stored : ℕ
  pending : List (ℕ × WelcomeQueueRecord)
  seen : List (ℕ × WelcomeQueueRecord)
  deriving DecidableEq, Repr

def Inboxes.empty : Inboxes := ⟨0, [], []⟩

def addressed (target : String) (w : ℕ × WelcomeQueueRecord) : Bool :=
  decide (w.2.targetStablePubkey = target)

def welcomeRef (r : WelcomeQueueRecord) : ConsumedWelcomeRef :=
  ⟨r.keyPackageReference, r.createdAt⟩

def Inboxes.observe : QueueOps.Op → Inboxes → Inboxes
  | .storeWelcome record, b =>
    { b with stored := b.stored+1, pending := b.pending ++ [(b.stored, record)] }
  | .fetchPendingWelcomes target consumed, b =>
    let left := b.pending.filter (fun w => !ackedWelcome target consumed w.2)
    { b with pending := left, seen := b.seen ++ left.filter (addressed target) }
  | .deleteExpiredWelcomes threshold, b =>
    { b with pending := b.pending.filter (fun w => !expired threshold w.2.createdAt) }
  | _, b => b

def inboxesAfter : StorageOp V → Inboxes → Inboxes
  | .queues op, b => b.observe op
  | _, b => b

def watchedStep (S : CoordinatorStorage V σ) (event : Event V) (x : σ × Inboxes) :
    Answer V × (σ × Inboxes) :=
  ((step S event x.1).1, (step S event x.1).2, inboxesAfter event.request x.2)

def Faithful (S : CoordinatorStorage V σ) (x : σ × Inboxes) : Prop :=
  ∀ target consumed, (S.fetchPendingWelcomes target consumed x.1).1 =
    .ok ((x.2.pending.filter (fun w => addressed target w &&
      !ackedWelcome target consumed w.2)).map Prod.snd)

/-- A fetch that acknowledges welcomes its target was shown returns every pending
welcome that the target was not shown. -/
def KeepsUnseen (S : CoordinatorStorage V σ) (x : σ × Inboxes) : Prop :=
  ∀ target consumed,
    (∀ c ∈ consumed, ∃ v ∈ x.2.seen, v.2.targetStablePubkey = target ∧ welcomeRef v.2 = c) →
    ∀ w ∈ x.2.pending, w.2.targetStablePubkey = target → w ∉ x.2.seen →
      ∃ records, (S.fetchPendingWelcomes target consumed x.1).1 = .ok records ∧ w.2 ∈ records

/-- The call stores a welcome under the target, the reference and the millisecond
of one that the target was already shown. -/
def StoresTwin : StorageOp V → Inboxes → Prop
  | .queues (.storeWelcome record), b => ∃ v ∈ b.seen,
    v.2.targetStablePubkey = record.targetStablePubkey ∧ welcomeRef v.2 = welcomeRef record
  | _, _ => False

structure Remembers (q : Queues) (b : Inboxes) : Prop where
  welcomes : q.welcomes = b.pending.map Prod.snd
  pending : ∀ w ∈ b.pending, w.1 < b.stored
  seen : ∀ w ∈ b.seen, w.1 < b.stored

def Unambiguous (b : Inboxes) : Prop :=
  ∀ w ∈ b.pending, w ∉ b.seen → ∀ v ∈ b.seen,
    v.2.targetStablePubkey = w.2.targetStablePubkey → welcomeRef v.2 ≠ welcomeRef w.2

theorem ackedWelcome_iff (target : String) (consumed : List ConsumedWelcomeRef)
    (r : WelcomeQueueRecord) : ackedWelcome target consumed r = true ↔
      r.targetStablePubkey = target ∧ welcomeRef r ∈ consumed := by
  simp [ackedWelcome, welcomeRef]

theorem Remembers.observe {q : Queues} {b : Inboxes} (h : Remembers q b) (op : QueueOps.Op) :
    Remembers (queueStep op q).2 (b.observe op) := by
  have hwelcomes := (queueStep_keepsOrder op q).welcomes
  rw [h.welcomes, List.filter_map] at hwelcomes
  cases op with
  | storeWelcome record =>
    constructor
    · simpa [Inboxes.observe, leavesWelcomes, entersWelcomes] using hwelcomes
    · intro w hw
      rcases List.mem_append.mp hw with hw | hw
      · exact Nat.lt_succ_of_lt (h.pending w hw)
      · rw [List.mem_singleton.mp hw]
        exact Nat.lt_succ_self _
    · exact fun w hw => Nat.lt_succ_of_lt (h.seen w hw)
  | fetchPendingWelcomes target consumed =>
    constructor
    · simpa [Inboxes.observe, leavesWelcomes, entersWelcomes, Function.comp_def] using hwelcomes
    · exact fun w hw => h.pending w (List.mem_filter.mp hw).1
    · intro w hw
      rcases List.mem_append.mp hw with hw | hw
      · exact h.seen w hw
      · exact h.pending w (List.mem_filter.mp (List.mem_filter.mp hw).1).1
  | deleteExpiredWelcomes threshold =>
    constructor
    · simpa [Inboxes.observe, leavesWelcomes, entersWelcomes, Function.comp_def] using hwelcomes
    · exact fun w hw => h.pending w (List.mem_filter.mp hw).1
    · exact h.seen
  | storeJoinRequest record =>
    exact ⟨by simpa [Inboxes.observe, leavesWelcomes, entersWelcomes] using hwelcomes,
      h.pending, h.seen⟩
  | fetchPendingJoinRequests groupId consumed =>
    exact ⟨by simpa [Inboxes.observe, leavesWelcomes, entersWelcomes] using hwelcomes,
      h.pending, h.seen⟩
  | fetchManyPendingJoinRequests groupIds consumed =>
    exact ⟨by simpa [Inboxes.observe, leavesWelcomes, entersWelcomes] using hwelcomes,
      h.pending, h.seen⟩
  | deleteExpiredJoinRequests threshold =>
    exact ⟨by simpa [Inboxes.observe, leavesWelcomes, entersWelcomes] using hwelcomes,
      h.pending, h.seen⟩

theorem unambiguous_observe (op : StorageOp V) (b : Inboxes) (hb : ∀ w ∈ b.seen, w.1 < b.stored)
    (h : Unambiguous b) : Unambiguous (inboxesAfter op b) ↔ ¬StoresTwin op b := by
  have hsame : Unambiguous b ↔ ¬False := ⟨fun _ => id, fun _ => h⟩
  cases op with
  | keyPackages op => exact hsame
  | listAllKeyPackages => exact hsame
  | messages op => exact hsame
  | queues op =>
    cases op with
    | storeWelcome record =>
      constructor
      · rintro hnew ⟨v, hv, htarget, href⟩
        have hunseen : (b.stored, record) ∉ b.seen := fun hm => Nat.lt_irrefl _ (hb _ hm)
        have hpending : (b.stored, record) ∈ b.pending ++ [(b.stored, record)] := by simp
        exact hnew _ hpending hunseen v hv htarget href
      · intro hfree w hw hunseen v hv htarget href
        rcases List.mem_append.mp hw with hw | hw
        · exact h w hw hunseen v hv htarget href
        · obtain rfl := List.mem_singleton.mp hw
          exact hfree ⟨v, hv, htarget, href⟩
    | fetchPendingWelcomes target consumed =>
      refine ⟨fun _ => id, fun _ w hw hunseen v hv htarget => ?_⟩
      have hleft : w ∉ b.seen := fun hm => hunseen (List.mem_append_left _ hm)
      have hother : w.2.targetStablePubkey ≠ target := fun he =>
        hunseen (List.mem_append_right _ (List.mem_filter.mpr ⟨hw, by simpa [addressed] using he⟩))
      rcases List.mem_append.mp hv with hv | hv
      · exact h w (List.mem_filter.mp hw).1 hleft v hv htarget
      · have hshown : v.2.targetStablePubkey = target := by
          simpa [addressed] using (List.mem_filter.mp hv).2
        exact absurd (htarget.symm.trans hshown) hother
    | deleteExpiredWelcomes threshold =>
      exact ⟨fun _ => id, fun _ w hw => h w (List.mem_filter.mp hw).1⟩
    | storeJoinRequest record => exact hsame
    | fetchPendingJoinRequests groupId consumed => exact hsame
    | fetchManyPendingJoinRequests groupIds consumed => exact hsame
    | deleteExpiredJoinRequests threshold => exact hsame

theorem keepsUnseen_iff {S : CoordinatorStorage V σ} {x : σ × Inboxes} (hx : Faithful S x) :
    KeepsUnseen S x ↔ Unambiguous x.2 := by
  constructor
  · intro h w hw hunseen v hv htarget href
    have hacks : ∀ c ∈ [welcomeRef v.2], ∃ u ∈ x.2.seen,
        u.2.targetStablePubkey = w.2.targetStablePubkey ∧ welcomeRef u.2 = c := by
      intro c hc
      exact ⟨v, hv, htarget, (List.mem_singleton.mp hc).symm⟩
    obtain ⟨records, hfetch, hmem⟩ := h _ _ hacks w hw rfl hunseen
    rw [hx] at hfetch
    obtain rfl := Except.ok.inj hfetch
    obtain ⟨u, hu, he⟩ := List.mem_map.mp hmem
    have hkept := (List.mem_filter.mp hu).2
    have hacked : ackedWelcome w.2.targetStablePubkey [welcomeRef v.2] u.2 = true := by
      rw [ackedWelcome_iff, he, List.mem_singleton]
      exact ⟨rfl, href.symm⟩
    simp [hacked] at hkept
  · intro h target consumed hacks w hw htarget hunseen
    refine ⟨_, hx target consumed, List.mem_map_of_mem (List.mem_filter.mpr ⟨hw, ?_⟩)⟩
    have hkept : ackedWelcome target consumed w.2 ≠ true := by
      intro hacked
      obtain ⟨v, hv, hvt, href⟩ := hacks _ ((ackedWelcome_iff _ _ _).mp hacked).2
      exact h w hw hunseen v hv (hvt.trans htarget.symm) href
    simp [addressed, htarget, hkept]

/-- In every state of the run a fetch returns what the history says, and it keeps
the unseen welcomes exactly as long as no twin of a shown one was stored. -/
structure AcksWelcomes (S : CoordinatorStorage V σ) (init : σ) (events : List (Event V)) :
    Prop where
  faithful : Run.Throughout (Faithful S) (watchedStep S) events (init, Inboxes.empty)
  unseen : Run.Throughout (KeepsUnseen S) (watchedStep S) events (init, Inboxes.empty) ↔
    Run.Along (fun event x => ¬StoresTwin event.request x.2) (watchedStep S) events
      (init, Inboxes.empty)

section Backend

variable {S : CoordinatorStorage V σ} {limit : FetchLimit} {R : σ → Queues → Prop}

def Watched (R : σ → Queues → Prop) (x : σ × Inboxes) : Prop := ∃ q, R x.1 q ∧ Remembers q x.2

theorem Watched.step (hS : KeepsQueues S limit R) (event : Event V) (x : σ × Inboxes)
    (h : Watched R x) : Watched R (watchedStep S event x).2 := by
  obtain ⟨q, hR, hq⟩ := h
  have hnext := hS.perform event.request x.1 q hR
  refine ⟨_, hnext, ?_⟩
  cases hop : event.request with
  | queues op =>
    rw [watchedStep, hop]
    have hop := hq.observe op
    exact ⟨(limitedStep_welcomes limit op q).trans hop.welcomes, hop.pending, hop.seen⟩
  | keyPackages op =>
    rw [watchedStep, hop]
    exact hq
  | listAllKeyPackages =>
    rw [watchedStep, hop]
    exact hq
  | messages op =>
    rw [watchedStep, hop]
    exact hq

theorem Watched.faithful (hS : KeepsQueues S limit R) (x : σ × Inboxes) (h : Watched R x) :
    Faithful S x := by
  obtain ⟨q, hR, hq⟩ := h
  intro target consumed
  have hans := (hS.queues (.fetchPendingWelcomes target consumed) x.1 q hR).1
  rw [QueueOps.Answer.welcomes.inj hans]
  simp [Queues.dropWelcomes, hq.welcomes, List.filter_map, Function.comp_def, addressed]

theorem acksWelcomes (hS : KeepsQueues S limit R) (init : σ) (hinit : R init Queues.empty)
    (events : List (Event V)) : AcksWelcomes S init events := by
  have hstart : Watched R (init, Inboxes.empty) :=
    ⟨_, hinit, rfl, by simp [Inboxes.empty], by simp [Inboxes.empty]⟩
  constructor
  · exact Run.throughout_of_invariant _ (Watched R) _ (Watched.step hS) (Watched.faithful hS)
      events _ hstart
  · apply Run.throughout_iff_along _ (Watched R) _ (fun _ _ => True) _
      (fun event x hx _ => hx.step hS event) _ events _ (Run.along_true _ _ _) hstart
    · exact (keepsUnseen_iff (hstart.faithful hS)).mpr (by simp [Unambiguous, Inboxes.empty])
    · intro event x hx _ hunseen
      rw [keepsUnseen_iff ((hx.step hS event).faithful hS)]
      obtain ⟨q, hR, hq⟩ := hx
      exact unambiguous_observe _ _ hq.seen
        ((keepsUnseen_iff (Watched.faithful hS x ⟨q, hR, hq⟩)).mp hunseen)

end Backend

theorem welcome_acks (json : Sqlite.SerdeJson V) (events : List (Event V)) :
    AcksWelcomes (InMemory.storage : CoordinatorStorage V (InMemory.InMemoryInner V))
        InMemory.InMemoryInner.default events ∧
      AcksWelcomes (Sqlite.storage json) Sqlite.Database.new events :=
  ⟨acksWelcomes inMemory_keepsQueues _ holdsQueues_default events,
    acksWelcomes (sqlite_keepsQueues json) _ holdsQueues_new events⟩

/-- A last-resort package invites twice in one millisecond, and the target
fetches in between. -/
def twinEvents : List (Event Bool) :=
  [⟨100, .storeWelcome ⟨"bob", "kp", [1], none⟩⟩, ⟨100, .fetchPendingWelcomes "bob" []⟩,
    ⟨100, .storeWelcome ⟨"bob", "kp", [2], none⟩⟩]

theorem twin_retired : (twinEvents.map Event.now).Pairwise (· ≤ ·) ∧
    ¬Run.Throughout (KeepsUnseen (InMemory.storage : CoordinatorStorage Bool _))
      (watchedStep InMemory.storage) twinEvents (InMemory.InMemoryInner.default, Inboxes.empty) ∧
    ¬Run.Throughout (KeepsUnseen (Sqlite.storage Sqlite.jsonBool))
      (watchedStep (Sqlite.storage Sqlite.jsonBool)) twinEvents
      (Sqlite.Database.new, Inboxes.empty) := by
  refine ⟨by decide, ?_, ?_⟩
  · rw [(acksWelcomes inMemory_keepsQueues _ holdsQueues_default twinEvents).unseen]
    rintro ⟨-, -, h, -⟩
    exact h ⟨(0, ⟨"bob", "kp", [1], 100, none⟩), by decide, rfl, rfl⟩
  · rw [(acksWelcomes (sqlite_keepsQueues Sqlite.jsonBool) _ holdsQueues_new twinEvents).unseen]
    rintro ⟨-, -, h, -⟩
    exact h ⟨(0, ⟨"bob", "kp", [1], 100, none⟩), by decide, rfl, rfl⟩

end Cordn.CoordinatorOps
