import Cordn.CoordinatorOps

/-!
# Acknowledged join requests

A re-request refreshes the pending request in place, and an acknowledgement names
the requester and the creation time. The history kept beside the backend is what
its fetches have returned, and what they had returned when each requester last
asked to join.
-/

set_option autoImplicit false

namespace Cordn.CoordinatorOps
open QueueOps

variable {V σ : Type}

/-- The requests a fetch has returned, and those it had returned before the last
accepted request of a requester in a group. -/
structure Sightings where
  seen : List JoinRequestRecord
  before : String × String → List JoinRequestRecord

def Sightings.none : Sightings := ⟨[], fun _ => []⟩

def Sightings.requested (g : Sightings) (record : JoinRequestRecord) : Sightings :=
  { g with before := fun key => if key = requestKey record then g.seen else g.before key }

def Sightings.note : StorageOp V → Answer V → Sightings → Sightings
  | .queues (.storeJoinRequest record), .queues (.joinRequest (.ok _)), g => g.requested record
  | _, .queues (.joinRequests (.ok records)), g => { g with seen := g.seen ++ records }
  | _, _, g => g

def sightedStep (S : CoordinatorStorage V σ) (event : Event V) (x : σ × Sightings) :
    Answer V × (σ × Sightings) :=
  let out := step S event x.1
  (out.1, out.2, x.2.note event.request out.1)

def pendingIn (S : CoordinatorStorage V σ) (s : σ) (groupId : String) : List JoinRequestRecord :=
  match (S.fetchPendingJoinRequests groupId [] s).1 with
  | .ok records => records
  | .error _ => []

def joinRequestRef (r : JoinRequestRecord) : ConsumedJoinRequestWithGroupRef :=
  ⟨r.groupId, r.requesterStablePubkey, r.createdAt⟩

inductive JoinRequestFetch where
  | one (groupId : String) (consumed : List ConsumedJoinRequestRef)
  | many (groupIds : List String) (consumed : List ConsumedJoinRequestWithGroupRef)
  deriving DecidableEq, Repr

namespace JoinRequestFetch

def op : JoinRequestFetch → QueueOps.Op
  | .one groupId consumed => .fetchPendingJoinRequests groupId consumed
  | .many groupIds consumed => .fetchManyPendingJoinRequests groupIds consumed

def groupIds : JoinRequestFetch → List String
  | .one groupId _ => [groupId]
  | .many groupIds _ => groupIds

def acks : JoinRequestFetch → List ConsumedJoinRequestWithGroupRef
  | .one groupId consumed => consumed.map (fun c => ⟨groupId, c.requesterStablePubkey, c.createdAt⟩)
  | .many _ consumed => consumed

end JoinRequestFetch

def returned : QueueOps.Answer → List JoinRequestRecord
  | .joinRequests (.ok records) => records
  | _ => []

/-- A pending request whose requester was seen before under another package
outlives every fetch that acknowledges only what was seen before the request was
made, and a fetch of its group that the backend serves returns it. -/
def KeepsRefreshed (S : CoordinatorStorage V σ) (limit : FetchLimit) (x : σ × Sightings) : Prop :=
  ∀ r, r ∈ pendingIn S x.1 r.groupId →
    (∃ v ∈ x.2.before (requestKey r), requestKey v = requestKey r ∧
      v.keyPackageRef ≠ r.keyPackageRef) →
    ∀ fetch : JoinRequestFetch,
      (∀ c ∈ fetch.acks, ∃ v ∈ x.2.before (requestKey r), joinRequestRef v = c) →
      r ∈ pendingIn S (QueueOps.step S fetch.op x.1).2 r.groupId ∧
        (r.groupId ∈ fetch.groupIds → Served limit fetch.op →
          r ∈ returned (QueueOps.step S fetch.op x.1).1)

def Admits (record : JoinRequestRecord) (pending : List JoinRequestRecord) : Prop :=
  (∃ r ∈ pending, r.requesterStablePubkey = record.requesterStablePubkey) ∨
    pending.length < maxPendingJoinRequestsPerGroup

def SeenAtOnce (record : JoinRequestRecord) (seen : List JoinRequestRecord) : Prop :=
  (∃ v ∈ seen, requestKey v = requestKey record ∧ v.keyPackageRef ≠ record.keyPackageRef) ∧
    ∃ v ∈ seen, requestKey v = requestKey record ∧ v.createdAt = record.createdAt

/-- The call is an admitted request in a millisecond in which a request of the
same requester that was already seen was made. -/
def RepeatsTime (S : CoordinatorStorage V σ) (op : StorageOp V) (x : σ × Sightings) : Prop :=
  ∃ record, op = .queues (.storeJoinRequest record) ∧
    Admits record (pendingIn S x.1 record.groupId) ∧ SeenAtOnce record x.2.seen

/-- No refreshed request carries the time of a request seen before it was made. -/
def Distinguished (q : Queues) (g : Sightings) : Prop :=
  ∀ r ∈ q.joinRequests, (∃ v ∈ g.before (requestKey r), requestKey v = requestKey r ∧
      v.keyPackageRef ≠ r.keyPackageRef) →
    ∀ v ∈ g.before (requestKey r), requestKey v = requestKey r → v.createdAt ≠ r.createdAt

theorem leaves_fetch (fetch : JoinRequestFetch) (r : JoinRequestRecord) :
    leavesJoinRequests fetch.op r = true ↔
      r.groupId ∈ fetch.groupIds ∧ joinRequestRef r ∈ fetch.acks := by
  cases fetch with
  | many groupIds consumed =>
    simp [JoinRequestFetch.op, JoinRequestFetch.groupIds, JoinRequestFetch.acks,
      leavesJoinRequests, joinRequestRef]
  | one groupId consumed =>
    simp only [JoinRequestFetch.op, JoinRequestFetch.groupIds, JoinRequestFetch.acks,
      leavesJoinRequests, ackedJoinRequest, joinRequestRef, decide_eq_true_eq,
      List.mem_singleton, List.mem_map]
    apply and_congr_right
    intro hg
    constructor
    · exact fun hc => ⟨_, hc, by rw [hg]⟩
    · rintro ⟨c, hc, he⟩
      injection he with _ hr ht
      rwa [← hr, ← ht]

theorem fetch_left (fetch : JoinRequestFetch) (q : Queues) :
    (queueStep fetch.op q).2.joinRequests =
      q.joinRequests.filter (fun r => !leavesJoinRequests fetch.op r) := by
  rw [(queueStep_keepsOrder fetch.op q).joinRequests]
  cases fetch <;> simp [JoinRequestFetch.op, refreshedBy, entersJoinRequests]

theorem fetch_returned (fetch : JoinRequestFetch) (q : Queues) (r : JoinRequestRecord)
    (hr : r ∈ (queueStep fetch.op q).2.joinRequests) (hg : r.groupId ∈ fetch.groupIds) :
    r ∈ returned (queueStep fetch.op q).1 := by
  cases fetch with
  | one groupId consumed =>
    exact List.mem_filter.mpr ⟨hr, by simpa [QueueOps.inGroup] using List.mem_singleton.mp hg⟩
  | many groupIds consumed =>
    change r ∈ (Queues.fetchManyJoinRequests consumed groupIds q).1
    rw [Sqlite.fetchMany_answer, List.mem_flatMap]
    refine ⟨r.groupId, hg, ?_⟩
    rw [← Sqlite.fetchMany_left_inGroup consumed groupIds q r.groupId hg]
    exact List.mem_filter.mpr ⟨hr, by simp [QueueOps.inGroup]⟩

theorem mem_storeJoinRequest (q : Queues) (record r : JoinRequestRecord)
    (ha : Admits record (q.joinRequests.filter (QueueOps.inGroup record.groupId))) :
    (q.storeJoinRequest record).1 = .ok record ∧
      (r ∈ (q.storeJoinRequest record).2.joinRequests ↔
        r = record ∨ (r ∈ q.joinRequests ∧ requestKey r ≠ requestKey record)) := by
  rw [Queues.storeJoinRequest]
  split
  · rename_i hk
    refine ⟨rfl, ?_⟩
    simp only [Queues.refreshJoinRequest, List.mem_map]
    constructor
    · rintro ⟨r, hr, rfl⟩
      by_cases he : requestKey r = requestKey record
      · exact Or.inl (refresh_same record r he)
      · rw [refresh_other record r he]
        exact Or.inr ⟨hr, he⟩
    · rintro (rfl | ⟨hr, he⟩)
      · obtain ⟨r, hr, he⟩ := List.mem_map.mp hk
        exact ⟨r, hr, refresh_same _ r he⟩
      · exact ⟨r, hr, refresh_other _ r he⟩
  · rename_i hk
    have hroom : ¬maxPendingJoinRequestsPerGroup ≤
        (q.joinRequests.filter (QueueOps.inGroup record.groupId)).length := by
      rcases ha with hpending | hlt
      · exact absurd ((requested_inGroup record q.joinRequests).mp hpending) hk
      · exact Nat.not_le.mpr hlt
    rw [if_neg hroom]
    refine ⟨rfl, ?_⟩
    simp only [Queues.pushJoinRequest, List.mem_append, List.mem_singleton]
    constructor
    · rintro (hr | rfl)
      · exact Or.inr ⟨hr, fun he => hk (he ▸ List.mem_map_of_mem hr)⟩
      · exact Or.inl rfl
    · rintro (rfl | ⟨hr, -⟩)
      · exact Or.inr rfl
      · exact Or.inl hr

theorem storeJoinRequest_refused (q : Queues) (record : JoinRequestRecord)
    (ha : ¬Admits record (q.joinRequests.filter (QueueOps.inGroup record.groupId))) :
    q.storeJoinRequest record = (.error .tooManyPendingJoinRequests, q) := by
  rw [Admits, not_or, Nat.not_lt] at ha
  have hk : requestKey record ∉ q.joinRequests.map requestKey :=
    fun hk => ha.1 ((requested_inGroup record q.joinRequests).mpr hk)
  rw [Queues.storeJoinRequest, dif_neg hk, if_pos ha.2]

theorem Distinguished.subset {q q' : Queues} {g g' : Sightings} (h : Distinguished q g)
    (hq : q'.joinRequests ⊆ q.joinRequests) (hg : g'.before = g.before) : Distinguished q' g' := by
  intro r hr
  rw [hg]
  exact h r (hq hr)

theorem distinguished_note (op : QueueOps.Op) (q : Queues) (g : Sightings)
    (h : Distinguished q g) :
    Distinguished (queueStep op q).2
        (g.note (.queues op : StorageOp V) (.queues (queueStep op q).1)) ↔
      ¬∃ record, op = .storeJoinRequest record ∧
        Admits record (q.joinRequests.filter (QueueOps.inGroup record.groupId)) ∧
        SeenAtOnce record g.seen := by
  have hkept := (queueStep_keepsOrder op q).joinRequests
  cases op with
  | storeJoinRequest record =>
    by_cases ha : Admits record (q.joinRequests.filter (QueueOps.inGroup record.groupId))
    · have hans : (queueStep (.storeJoinRequest record) q).1 = .joinRequest (.ok record) :=
        congrArg QueueOps.Answer.joinRequest (mem_storeJoinRequest q record record ha).1
      have hmem := fun r => (mem_storeJoinRequest q record r ha).2
      rw [hans]
      change (∀ r ∈ (q.storeJoinRequest record).2.joinRequests, _) ↔ _
      simp only [hmem, Sightings.note, Sightings.requested, QueueOps.Op.storeJoinRequest.injEq,
        exists_eq_left', ha, true_and]
      constructor
      · rintro hd ⟨hother, v, hv, hvk, hvt⟩
        have hr := hd record (Or.inl rfl)
        rw [if_pos rfl] at hr
        exact hr hother v hv hvk hvt
      · rintro hfree r (rfl | ⟨hr, hne⟩)
        · rw [if_pos rfl]
          exact fun hother v hv hvk hvt => hfree ⟨hother, v, hv, hvk, hvt⟩
        · rw [if_neg hne]
          exact h r hr
    · have hstep : queueStep (.storeJoinRequest record) q =
          (.joinRequest (.error .tooManyPendingJoinRequests), q) := by
        rw [queueStep, storeJoinRequest_refused q record ha]
        rfl
      rw [hstep]
      refine ⟨fun _ => ?_, fun _ => h⟩
      rintro ⟨record', he, ha', -⟩
      obtain rfl := QueueOps.Op.storeJoinRequest.inj he
      exact ha ha'
  | storeWelcome record => exact ⟨fun _ => by simp, fun _ => h⟩
  | fetchPendingWelcomes target consumed => exact ⟨fun _ => by simp, fun _ => h⟩
  | deleteExpiredWelcomes threshold => exact ⟨fun _ => by simp, fun _ => h⟩
  | fetchPendingJoinRequests groupId consumed =>
    refine ⟨fun _ => by simp, fun _ => h.subset ?_ rfl⟩
    simp [hkept, refreshedBy, entersJoinRequests]
  | fetchManyPendingJoinRequests groupIds consumed =>
    refine ⟨fun _ => by simp, fun _ => h.subset ?_ rfl⟩
    simp [hkept, refreshedBy, entersJoinRequests]
  | deleteExpiredJoinRequests threshold =>
    refine ⟨fun _ => by simp, fun _ => h.subset ?_ rfl⟩
    simp [hkept, refreshedBy, entersJoinRequests]

/-- Refreshed requests outlive the acknowledgements made of earlier fetches, exactly
as long as no request repeats a time already seen of its requester. -/
def AcksJoinRequests (S : CoordinatorStorage V σ) (limit : FetchLimit) (init : σ)
    (events : List (Event V)) : Prop :=
  Run.Throughout (KeepsRefreshed S limit) (sightedStep S) events (init, Sightings.none) ↔
    Run.Along (fun event x => ¬RepeatsTime S event.request x) (sightedStep S) events
      (init, Sightings.none)

section Backend

variable {S : CoordinatorStorage V σ} {limit : FetchLimit} {R : σ → Queues → Prop}

theorem pendingIn_eq (hS : KeepsQueues S limit R) (s : σ) (q : Queues) (hR : R s q)
    (groupId : String) :
    pendingIn S s groupId = q.joinRequests.filter (QueueOps.inGroup groupId) := by
  have hans := QueueOps.Answer.joinRequests.inj
    (hS.queues (.fetchPendingJoinRequests groupId []) s q hR).1
  rw [pendingIn, hans]
  simp [Queues.dropJoinRequests, ackedJoinRequest]

theorem mem_pendingIn (hS : KeepsQueues S limit R) (s : σ) (q : Queues) (hR : R s q)
    (r : JoinRequestRecord) : r ∈ pendingIn S s r.groupId ↔ r ∈ q.joinRequests := by
  rw [pendingIn_eq hS s q hR, List.mem_filter]
  simp [QueueOps.inGroup]

theorem keepsRefreshed_iff (hS : KeepsQueues S limit R) (s : σ) (q : Queues) (hR : R s q)
    (g : Sightings) : KeepsRefreshed S limit (s, g) ↔ Distinguished q g := by
  constructor
  · intro h r hr hother v hv hvk hvt
    have hacks : ∀ c ∈ (JoinRequestFetch.one r.groupId
        [⟨r.requesterStablePubkey, r.createdAt⟩]).acks,
        ∃ v ∈ g.before (requestKey r), joinRequestRef v = c := by
      intro c hc
      obtain rfl := List.mem_singleton.mp hc
      injection hvk with hg hq
      exact ⟨v, hv, by rw [joinRequestRef, hg, hq, hvt]⟩
    have hkept := (h r ((mem_pendingIn hS s q hR r).mpr hr) hother _ hacks).1
    have hnext := (hS.queues (.fetchPendingJoinRequests r.groupId
      [⟨r.requesterStablePubkey, r.createdAt⟩]) s q hR).2
    have hleft := (mem_pendingIn hS _ _ hnext r).mp hkept
    have hstays := (List.mem_filter.mp hleft).2
    simp [ackedJoinRequest] at hstays
  · intro h r hr hother fetch hacks
    have hpending := (mem_pendingIn hS s q hR r).mp hr
    have hleft : r ∈ (queueStep fetch.op q).2.joinRequests := by
      rw [fetch_left, List.mem_filter]
      refine ⟨hpending, ?_⟩
      rw [Bool.not_eq_true', Bool.eq_false_iff, ne_eq, leaves_fetch]
      rintro ⟨-, hc⟩
      obtain ⟨v, hv, he⟩ := hacks _ hc
      injection he with hg hq ht
      exact h r hpending hother v hv (Prod.ext hg hq) ht
    have hstays : r ∈ (limitedStep limit fetch.op q).2.joinRequests := by
      rcases limitedStep_cases limit fetch.op q with he | ⟨_, _, _, -, -, he⟩
      · rwa [he]
      · rwa [he]
    obtain ⟨hans, hnext⟩ := hS.queues fetch.op s q hR
    refine ⟨(mem_pendingIn hS _ _ hnext r).mpr hstays, fun hg hserved => ?_⟩
    rw [hans, limitedStep_served limit fetch.op q hserved]
    exact fetch_returned fetch q r hleft hg

theorem sightedStep_iff (hS : KeepsQueues S limit R) (event : Event V) (s : σ) (q : Queues)
    (hR : R s q) (g : Sightings) (h : KeepsRefreshed S limit (s, g)) :
    KeepsRefreshed S limit (sightedStep S event (s, g)).2 ↔
      ¬RepeatsTime S event.request (s, g) := by
  rw [keepsRefreshed_iff hS s q hR] at h
  have hnext := hS.perform event.request s q hR
  rw [sightedStep, step, keepsRefreshed_iff hS _ _ hnext]
  cases hop : event.request with
  | queues op =>
    have hans : (perform S (.queues op) s).1 = (.queues (limitedStep limit op q).1 : Answer V) :=
      congrArg Answer.queues (hS.queues op s q hR).1
    simp only [hans, queuesAfter, RepeatsTime, pendingIn_eq hS s q hR, StorageOp.queues.injEq]
    rcases limitedStep_cases limit op q with he | ⟨groupIds, consumed, e, rfl, -, he⟩
    · rw [he]
      exact distinguished_note op q g h
    · rw [he]
      exact ⟨fun _ => by simp, fun _ => h⟩
  | keyPackages op => exact ⟨fun _ => by simp [RepeatsTime], fun _ => h⟩
  | listAllKeyPackages => exact ⟨fun _ => by simp [RepeatsTime], fun _ => h⟩
  | messages op => exact ⟨fun _ => by simp [RepeatsTime], fun _ => h⟩

theorem acksJoinRequests (hS : KeepsQueues S limit R) (init : σ) (hinit : R init Queues.empty)
    (events : List (Event V)) : AcksJoinRequests S limit init events := by
  apply Run.throughout_iff_along _ (fun x => ∃ q, R x.1 q) _ (fun _ _ => True) _ _ _ events _
    (Run.along_true _ _ _) ⟨_, hinit⟩
  · rw [keepsRefreshed_iff hS init Queues.empty hinit]
    simp [Distinguished, Queues.empty]
  · rintro event ⟨s, g⟩ ⟨q, hR⟩ -
    exact ⟨_, hS.perform event.request s q hR⟩
  · rintro event ⟨s, g⟩ ⟨q, hR⟩ - h
    exact sightedStep_iff hS event s q hR g h

end Backend

theorem join_request_acks (json : Sqlite.SerdeJson V) (events : List (Event V)) :
    AcksJoinRequests (InMemory.storage : CoordinatorStorage V (InMemory.InMemoryInner V))
        noLimit InMemory.InMemoryInner.default events ∧
      AcksJoinRequests (Sqlite.storage json) Sqlite.joinRequestLimit Sqlite.Database.new events :=
  ⟨acksJoinRequests inMemory_keepsQueues _ holdsQueues_default events,
    acksJoinRequests (sqlite_keepsQueues json) _ holdsQueues_new events⟩

/-- Alice asks, an admin looks, and she asks again with another package within the
millisecond. -/
def hastyEvents : List (Event Bool) :=
  [⟨100, .storeJoinRequest ⟨"g", "alice", "kp-1"⟩⟩, ⟨100, .fetchPendingJoinRequests "g" []⟩,
    ⟨100, .storeJoinRequest ⟨"g", "alice", "kp-2"⟩⟩]

theorem refreshed_retired : (hastyEvents.map Event.now).Pairwise (· ≤ ·) ∧
    ¬Run.Throughout (KeepsRefreshed (InMemory.storage : CoordinatorStorage Bool _) noLimit)
      (sightedStep InMemory.storage) hastyEvents
      (InMemory.InMemoryInner.default, Sightings.none) ∧
    ¬Run.Throughout (KeepsRefreshed (Sqlite.storage Sqlite.jsonBool) Sqlite.joinRequestLimit)
      (sightedStep (Sqlite.storage Sqlite.jsonBool)) hastyEvents
      (Sqlite.Database.new, Sightings.none) := by
  have hseen : SeenAtOnce ⟨"g", "alice", "kp-2", 100⟩ [⟨"g", "alice", "kp-1", 100⟩] :=
    ⟨⟨_, List.mem_singleton_self _, rfl, by decide⟩, ⟨_, List.mem_singleton_self _, rfl, rfl⟩⟩
  refine ⟨by decide, fun h => ?_, fun h => ?_⟩
  · obtain ⟨-, -, hfree, -⟩ :=
      (acksJoinRequests inMemory_keepsQueues _ holdsQueues_default hastyEvents).mp h
    exact hfree ⟨_, rfl, Or.inl ⟨⟨"g", "alice", "kp-1", 100⟩, by decide, rfl⟩, hseen⟩
  · obtain ⟨-, -, hfree, -⟩ :=
      (acksJoinRequests (sqlite_keepsQueues Sqlite.jsonBool) _ holdsQueues_new hastyEvents).mp h
    exact hfree ⟨_, rfl, Or.inl ⟨⟨"g", "alice", "kp-1", 100⟩, by decide, rfl⟩, hseen⟩

end Cordn.CoordinatorOps
