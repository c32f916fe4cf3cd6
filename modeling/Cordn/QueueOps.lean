import Mathlib.Data.List.Nodup
import Cordn.Lib.Run
import Cordn.InMemory
import Cordn.Sqlite

/-!
# Welcome and join-request queues as one machine

The seven queue operations of either backend, and the abstract queues both are
measured against. Each kind of record stands in one list in order of insertion;
the queue of a key is that key's part of the list.
-/

set_option autoImplicit false

namespace Cordn.QueueOps

inductive Op where
  | storeWelcome (record : WelcomeQueueRecord)
  | fetchPendingWelcomes (targetStablePubkey : String) (consumed : List ConsumedWelcomeRef)
  | deleteExpiredWelcomes (maxAgeThreshold : Int)
  | storeJoinRequest (record : JoinRequestRecord)
  | fetchPendingJoinRequests (groupId : String) (consumed : List ConsumedJoinRequestRef)
  | fetchManyPendingJoinRequests (groupIds : List String)
      (consumed : List ConsumedJoinRequestWithGroupRef)
  | deleteExpiredJoinRequests (maxAgeThreshold : Int)
  deriving DecidableEq, Repr

inductive Answer where
  | welcome (result : Except StorageError WelcomeQueueRecord)
  | welcomes (result : Except StorageError (List WelcomeQueueRecord))
  | joinRequest (result : Except StorageError JoinRequestRecord)
  | joinRequests (result : Except StorageError (List JoinRequestRecord))
  | deleted (result : Except StorageError ℕ)

def step {V σ : Type} (S : CoordinatorStorage V σ) : Op → σ → Answer × σ
  | .storeWelcome record, s => (S.storeWelcome record s).map .welcome id
  | .fetchPendingWelcomes target consumed, s =>
    (S.fetchPendingWelcomes target consumed s).map .welcomes id
  | .deleteExpiredWelcomes threshold, s => (S.deleteExpiredWelcomes threshold s).map .deleted id
  | .storeJoinRequest record, s => (S.storeJoinRequest record s).map .joinRequest id
  | .fetchPendingJoinRequests groupId consumed, s =>
    (S.fetchPendingJoinRequests groupId consumed s).map .joinRequests id
  | .fetchManyPendingJoinRequests groupIds consumed, s =>
    (S.fetchManyPendingJoinRequests groupIds consumed s).map .joinRequests id
  | .deleteExpiredJoinRequests threshold, s =>
    (S.deleteExpiredJoinRequests threshold s).map .deleted id

def requestKey (r : JoinRequestRecord) : String × String := (r.groupId, r.requesterStablePubkey)

structure Queues where
  welcomes : List WelcomeQueueRecord
  joinRequests : List JoinRequestRecord
  distinct : (joinRequests.map requestKey).Nodup

def Queues.empty : Queues := ⟨[], [], by simp⟩

def ackedWelcome (target : String) (consumed : List ConsumedWelcomeRef)
    (r : WelcomeQueueRecord) : Bool :=
  decide (r.targetStablePubkey = target ∧
    ConsumedWelcomeRef.mk r.keyPackageReference r.createdAt ∈ consumed)

def ackedJoinRequest (groupId : String) (consumed : List ConsumedJoinRequestRef)
    (r : JoinRequestRecord) : Bool :=
  decide (r.groupId = groupId ∧
    ConsumedJoinRequestRef.mk r.requesterStablePubkey r.createdAt ∈ consumed)

def acksFor (consumed : List ConsumedJoinRequestWithGroupRef) (groupId : String) :
    List ConsumedJoinRequestRef :=
  (consumed.filter (fun c => decide (c.groupId = groupId))).map
    (fun c => ⟨c.requesterStablePubkey, c.createdAt⟩)

/-- Only a positive threshold expires anything. -/
def expired (threshold createdAt : Int) : Bool := decide (0 < threshold ∧ createdAt < threshold)

def refresh (record r : JoinRequestRecord) : JoinRequestRecord :=
  if requestKey r = requestKey record then
    { r with keyPackageRef := record.keyPackageRef, createdAt := record.createdAt }
  else r

def inGroup (groupId : String) (r : JoinRequestRecord) : Bool := decide (r.groupId = groupId)

theorem requestKey_refresh (record r : JoinRequestRecord) :
    requestKey (refresh record r) = requestKey r := by
  unfold refresh
  split <;> rfl

theorem refresh_same (record r : JoinRequestRecord) (h : requestKey r = requestKey record) :
    refresh record r = record := by
  rw [refresh, if_pos h]
  injection h with hg hq
  rw [hg, hq]

theorem refresh_other (record r : JoinRequestRecord) (h : requestKey r ≠ requestKey record) :
    refresh record r = r := if_neg h

theorem inGroup_refresh (groupId : String) (record : JoinRequestRecord) :
    inGroup groupId ∘ refresh record = inGroup groupId := by
  funext r
  exact congrArg (fun k : String × String => decide (k.1 = groupId)) (requestKey_refresh record r)

theorem requested_inGroup (record : JoinRequestRecord) (l : List JoinRequestRecord) :
    (∃ r ∈ l.filter (inGroup record.groupId),
      r.requesterStablePubkey = record.requesterStablePubkey) ↔
      requestKey record ∈ l.map requestKey := by
  rw [List.mem_map]
  constructor
  · rintro ⟨r, hr, he⟩
    obtain ⟨hm, hg⟩ := List.mem_filter.mp hr
    exact ⟨r, hm, Prod.ext (of_decide_eq_true hg) he⟩
  · rintro ⟨r, hm, he⟩
    injection he with hg hq
    exact ⟨r, List.mem_filter.mpr ⟨hm, decide_eq_true hg⟩, hq⟩

namespace Queues

def pushWelcome (q : Queues) (record : WelcomeQueueRecord) : Queues :=
  { q with welcomes := q.welcomes ++ [record] }

def dropWelcomes (q : Queues) (gone : WelcomeQueueRecord → Bool) : Queues :=
  { q with welcomes := q.welcomes.filter (fun r => !gone r) }

def dropJoinRequests (q : Queues) (gone : JoinRequestRecord → Bool) : Queues where
  welcomes := q.welcomes
  joinRequests := q.joinRequests.filter (fun r => !gone r)
  distinct := q.distinct.sublist (List.filter_sublist.map _)

def refreshJoinRequest (q : Queues) (record : JoinRequestRecord) : Queues where
  welcomes := q.welcomes
  joinRequests := q.joinRequests.map (refresh record)
  distinct := by
    rw [List.map_map]
    exact (List.map_congr_left (fun r _ => requestKey_refresh record r)).symm ▸ q.distinct

def pushJoinRequest (q : Queues) (record : JoinRequestRecord)
    (h : requestKey record ∉ q.joinRequests.map requestKey) : Queues where
  welcomes := q.welcomes
  joinRequests := q.joinRequests ++ [record]
  distinct := by
    rw [List.map_append, List.nodup_append]
    refine ⟨q.distinct, by simp, ?_⟩
    intro k hk k' hk' he
    rw [List.map_singleton, List.mem_singleton] at hk'
    exact h (hk' ▸ he ▸ hk)

def storeJoinRequest (q : Queues) (record : JoinRequestRecord) :
    Except StorageError JoinRequestRecord × Queues :=
  if h : requestKey record ∈ q.joinRequests.map requestKey then
    (.ok record, q.refreshJoinRequest record)
  else if maxPendingJoinRequestsPerGroup ≤ (q.joinRequests.filter (inGroup record.groupId)).length
  then (.error .tooManyPendingJoinRequests, q)
  else (.ok record, q.pushJoinRequest record h)

def fetchJoinRequests (q : Queues) (groupId : String) (consumed : List ConsumedJoinRequestRef) :
    List JoinRequestRecord × Queues :=
  let q := q.dropJoinRequests (ackedJoinRequest groupId consumed)
  (q.joinRequests.filter (inGroup groupId), q)

/-- The single-group fetches of the requested groups, one after the other. -/
def fetchManyJoinRequests (consumed : List ConsumedJoinRequestWithGroupRef) :
    List String → Queues → List JoinRequestRecord × Queues
  | [], q => ([], q)
  | groupId::groupIds, q =>
    let (out, q) := q.fetchJoinRequests groupId (acksFor consumed groupId)
    let (more, q) := fetchManyJoinRequests consumed groupIds q
    (out ++ more, q)

end Queues

def queueStep : Op → Queues → Answer × Queues
  | .storeWelcome record, q => (.welcome (.ok record), q.pushWelcome record)
  | .fetchPendingWelcomes target consumed, q =>
    let q := q.dropWelcomes (ackedWelcome target consumed)
    (.welcomes (.ok (q.welcomes.filter (fun r => decide (r.targetStablePubkey = target)))), q)
  | .deleteExpiredWelcomes threshold, q =>
    (.deleted (.ok (q.welcomes.countP (fun r => expired threshold r.createdAt))),
      q.dropWelcomes (fun r => expired threshold r.createdAt))
  | .storeJoinRequest record, q => (q.storeJoinRequest record).map .joinRequest id
  | .fetchPendingJoinRequests groupId consumed, q =>
    (q.fetchJoinRequests groupId consumed).map (fun out => .joinRequests (.ok out)) id
  | .fetchManyPendingJoinRequests groupIds consumed, q =>
    (Queues.fetchManyJoinRequests consumed groupIds q).map (fun out => .joinRequests (.ok out)) id
  | .deleteExpiredJoinRequests threshold, q =>
    (.deleted (.ok (q.joinRequests.countP (fun r => expired threshold r.createdAt))),
      q.dropJoinRequests (fun r => expired threshold r.createdAt))

def limitedStep (limit : FetchLimit) : Op → Queues → Answer × Queues
  | .fetchManyPendingJoinRequests groupIds consumed, q =>
    match limit groupIds.length with
    | some e => (.joinRequests (.error e), q)
    | none => queueStep (.fetchManyPendingJoinRequests groupIds consumed) q
  | op, q => queueStep op q

def Served (limit : FetchLimit) : Op → Prop
  | .fetchManyPendingJoinRequests groupIds _ => limit groupIds.length = none
  | _ => True

theorem limitedStep_served (limit : FetchLimit) (op : Op) (q : Queues) (h : Served limit op) :
    limitedStep limit op q = queueStep op q := by
  cases op with
  | fetchManyPendingJoinRequests groupIds consumed =>
    simp only [Served] at h
    simp only [limitedStep, h]
  | _ => rfl

theorem limitedStep_cases (limit : FetchLimit) (op : Op) (q : Queues) :
    limitedStep limit op q = queueStep op q ∨
      ∃ groupIds consumed e, op = .fetchManyPendingJoinRequests groupIds consumed ∧
        limit groupIds.length = some e ∧
          limitedStep limit op q = (.joinRequests (.error e), q) := by
  cases op with
  | fetchManyPendingJoinRequests groupIds consumed =>
    simp only [limitedStep]
    split
    · rename_i e he
      exact Or.inr ⟨groupIds, consumed, e, rfl, he, rfl⟩
    · exact Or.inl rfl
  | _ => exact Or.inl rfl

theorem limitedStep_noLimit (op : Op) (q : Queues) :
    limitedStep noLimit op q = queueStep op q := by
  cases op <;> rfl

theorem nothing_expires {α : Type} (createdAt : α → Int) (threshold : Int) (ht : threshold ≤ 0)
    (l : List α) : l.countP (fun r => expired threshold (createdAt r)) = 0 ∧
      l.filter (fun r => !expired threshold (createdAt r)) = l := by
  have hnone : ∀ r, expired threshold (createdAt r) = false := by
    intro r
    simp only [expired, decide_eq_false_iff_not]
    omega
  simp [hnone]

theorem expired_pos (threshold : Int) (ht : ¬ threshold ≤ 0) (createdAt : Int) :
    decide (createdAt < threshold) = expired threshold createdAt := by
  rw [Bool.eq_iff_iff]
  simp only [expired, decide_eq_true_eq]
  omega

theorem kept_pos (threshold : Int) (ht : ¬ threshold ≤ 0) (createdAt : Int) :
    decide (threshold ≤ createdAt) = !expired threshold createdAt := by
  rw [← expired_pos threshold ht, ← decide_not, decide_eq_decide]
  exact Int.not_lt.symm

def leavesWelcomes : Op → WelcomeQueueRecord → Bool
  | .fetchPendingWelcomes target consumed, r => ackedWelcome target consumed r
  | .deleteExpiredWelcomes threshold, r => expired threshold r.createdAt
  | _, _ => false

def leavesJoinRequests : Op → JoinRequestRecord → Bool
  | .fetchPendingJoinRequests groupId consumed, r => ackedJoinRequest groupId consumed r
  | .fetchManyPendingJoinRequests groupIds consumed, r => decide (r.groupId ∈ groupIds) &&
    decide (ConsumedJoinRequestWithGroupRef.mk r.groupId r.requesterStablePubkey r.createdAt
      ∈ consumed)
  | .deleteExpiredJoinRequests threshold, r => expired threshold r.createdAt
  | _, _ => false

def refreshedBy : Op → JoinRequestRecord → JoinRequestRecord
  | .storeJoinRequest record => refresh record
  | _ => id

theorem refreshedBy_groupId (op : Op) (r : JoinRequestRecord) :
    (refreshedBy op r).groupId = r.groupId := by
  cases op with
  | storeJoinRequest record => exact congrArg Prod.fst (requestKey_refresh record r)
  | _ => rfl

def entersWelcomes : Op → List WelcomeQueueRecord
  | .storeWelcome record => [record]
  | _ => []

def entersJoinRequests (q : Queues) : Op → List JoinRequestRecord
  | .storeJoinRequest record =>
    if requestKey record ∈ q.joinRequests.map requestKey ∨ maxPendingJoinRequestsPerGroup ≤
      (q.joinRequests.filter (inGroup record.groupId)).length then [] else [record]
  | _ => []

/-- A record leaves only when it is acknowledged or expired, new ones join at
the end, and everything else keeps its place. -/
structure KeepsOrder (op : Op) (q : Queues) : Prop where
  welcomes : (queueStep op q).2.welcomes =
    q.welcomes.filter (fun r => !leavesWelcomes op r) ++ entersWelcomes op
  joinRequests : (queueStep op q).2.joinRequests =
    (q.joinRequests.map (refreshedBy op)).filter (fun r => !leavesJoinRequests op r) ++
      entersJoinRequests q op

theorem mem_acksFor (consumed : List ConsumedJoinRequestWithGroupRef) (groupId requester : String)
    (createdAt : Int) : ConsumedJoinRequestRef.mk requester createdAt ∈ acksFor consumed groupId ↔
      ConsumedJoinRequestWithGroupRef.mk groupId requester createdAt ∈ consumed := by
  simp only [acksFor, List.mem_map, List.mem_filter, decide_eq_true_eq]
  constructor
  · rintro ⟨c, ⟨hc, rfl⟩, he⟩
    injection he with hr ht
    rwa [← hr, ← ht]
  · exact fun hc => ⟨_, ⟨hc, rfl⟩, rfl⟩

theorem ackedJoinRequest_acksFor (consumed : List ConsumedJoinRequestWithGroupRef)
    (groupId : String) (r : JoinRequestRecord) :
    ackedJoinRequest groupId (acksFor consumed groupId) r =
      leavesJoinRequests (.fetchManyPendingJoinRequests [groupId] consumed) r := by
  simp only [ackedJoinRequest, leavesJoinRequests, mem_acksFor, List.mem_singleton]
  by_cases h : r.groupId = groupId <;> simp [h]

theorem fetchMany_welcomes (consumed : List ConsumedJoinRequestWithGroupRef)
    (groupIds : List String) (q : Queues) :
    (Queues.fetchManyJoinRequests consumed groupIds q).2.welcomes = q.welcomes := by
  induction groupIds generalizing q with
  | nil => rfl
  | cons groupId groupIds ih => exact ih _

theorem limitedStep_welcomes (limit : FetchLimit) (op : Op) (q : Queues) :
    (limitedStep limit op q).2.welcomes = (queueStep op q).2.welcomes := by
  rcases limitedStep_cases limit op q with he | ⟨groupIds, consumed, e, rfl, -, he⟩
  · rw [he]
  · rw [he]
    exact (fetchMany_welcomes consumed groupIds q).symm

theorem fetchMany_left (consumed : List ConsumedJoinRequestWithGroupRef) (groupIds : List String)
    (q : Queues) : (Queues.fetchManyJoinRequests consumed groupIds q).2.joinRequests =
      q.joinRequests.filter
        (fun r => !leavesJoinRequests (.fetchManyPendingJoinRequests groupIds consumed) r) := by
  induction groupIds generalizing q with
  | nil => simp [Queues.fetchManyJoinRequests, leavesJoinRequests]
  | cons groupId groupIds ih =>
    refine (ih _).trans ?_
    simp only [Queues.dropJoinRequests, List.filter_filter]
    apply List.filter_congr
    intro r _
    rw [ackedJoinRequest_acksFor]
    by_cases hg : r.groupId = groupId <;> by_cases hm : r.groupId ∈ groupIds <;>
      simp [leavesJoinRequests, hg, hm] <;> simp_all

theorem queueStep_keepsOrder (op : Op) (q : Queues) : KeepsOrder op q := by
  cases op with
  | storeWelcome record =>
    constructor <;> simp [queueStep, Queues.pushWelcome, leavesWelcomes, entersWelcomes,
      leavesJoinRequests, refreshedBy, entersJoinRequests]
  | fetchPendingWelcomes target consumed =>
    constructor <;> simp [queueStep, Queues.dropWelcomes, leavesWelcomes, entersWelcomes,
      leavesJoinRequests, refreshedBy, entersJoinRequests]
  | deleteExpiredWelcomes threshold =>
    constructor <;> simp [queueStep, Queues.dropWelcomes, leavesWelcomes, entersWelcomes,
      leavesJoinRequests, refreshedBy, entersJoinRequests]
  | storeJoinRequest record =>
    have hsame : requestKey record ∉ q.joinRequests.map requestKey →
        q.joinRequests.map (refresh record) = q.joinRequests := by
      intro h
      conv_rhs => rw [← List.map_id q.joinRequests]
      apply List.map_congr_left
      intro r hr
      exact refresh_other record r (fun he => h (he ▸ List.mem_map_of_mem hr))
    constructor
    · simp only [queueStep, Queues.storeJoinRequest, leavesWelcomes, entersWelcomes]
      split
      · simp [Queues.refreshJoinRequest]
      · split <;> simp [Queues.pushJoinRequest]
    · simp only [queueStep, Queues.storeJoinRequest, leavesJoinRequests, refreshedBy,
        entersJoinRequests]
      split
      · rename_i h
        simp [Queues.refreshJoinRequest, h]
      · rename_i h
        rw [hsame h]
        split
        · rename_i hfull
          simp [hfull]
        · rename_i hroom
          simp [Queues.pushJoinRequest, h, hroom]
  | fetchPendingJoinRequests groupId consumed =>
    constructor <;> simp [queueStep, Queues.fetchJoinRequests, Queues.dropJoinRequests,
      leavesWelcomes, entersWelcomes, leavesJoinRequests, refreshedBy, entersJoinRequests]
  | fetchManyPendingJoinRequests groupIds consumed =>
    constructor
    · simp [queueStep, fetchMany_welcomes, leavesWelcomes, entersWelcomes]
    · simp [queueStep, fetchMany_left, refreshedBy, entersJoinRequests]
  | deleteExpiredJoinRequests threshold =>
    constructor <;> simp [queueStep, Queues.dropJoinRequests, leavesWelcomes, entersWelcomes,
      leavesJoinRequests, refreshedBy, entersJoinRequests]

end Cordn.QueueOps
