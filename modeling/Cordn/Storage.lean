import Cordn.Lib.Buckets
import Cordn.Types

/-!
# The storage contract

A backend is a record of operations on its state. Each operation runs under
the backend's lock: it returns its result and the state it leaves, also when
the result is an error.
-/

set_option autoImplicit false

namespace Cordn

def maxPendingJoinRequestsPerGroup : ℕ := 100

inductive StorageError where
  | backend (message : String)
  | tooManyPendingJoinRequests
  deriving DecidableEq, Repr

def partitionConsumedJoinRequests (consumed : List ConsumedJoinRequestWithGroupRef) :
    IndexMap String (List ConsumedJoinRequestRef) :=
  consumed.foldl (fun byGroup item => byGroup.pushBack item.groupId
    ⟨item.requesterStablePubkey, item.createdAt⟩) IndexMap.empty

structure AppendGroupMessageParams where
  groupId : String
  opaqueMessage : List UInt8
  createdAt : Int
  deriving DecidableEq, Repr

theorem except_bind_ok {ε α β : Type} {x : Except ε α} {f : α → Except ε β} {b : β}
    (h : x >>= f = .ok b) : ∃ a, x = .ok a ∧ f a = .ok b := by
  cases x with
  | error e => cases h
  | ok a => exact ⟨a, rfl, h⟩

abbrev Locked (σ α : Type) := σ → Except StorageError α × σ

/-- What a backend answers a fetch of that many groups it does not serve. -/
abbrev FetchLimit := ℕ → Option StorageError

def noLimit : FetchLimit := fun _ => none

def ServesSmaller (limit : FetchLimit) : Prop := ∀ m n, m ≤ n → limit n = none → limit m = none

def fetchEachGroup {σ : Type}
    (fetch : String → List ConsumedJoinRequestRef → Locked σ (List JoinRequestRecord))
    (consumedByGroup : IndexMap String (List ConsumedJoinRequestRef)) :
    List String → Locked σ (List JoinRequestRecord)
  | [], s => (.ok [], s)
  | groupId::rest, s =>
    match fetch groupId (consumedByGroup.bucket groupId) s with
    | (.error e, s) => (.error e, s)
    | (.ok out, s) =>
      match fetchEachGroup fetch consumedByGroup rest s with
      | (.error e, s) => (.error e, s)
      | (.ok more, s) => (.ok (out ++ more), s)

/-- How often a fetch of the join requests of many groups takes the lock. -/
inductive Locking where
  | once
  | perGroup
  deriving DecidableEq, Repr

structure CoordinatorStorage (V σ : Type) where
  publishKeyPackage : PublishedKeyPackageRecord V → Locked σ (PublishedKeyPackageRecord V)
  listKeyPackagesForIdentity : String → Locked σ (List (PublishedKeyPackageRecord V))
  listAllKeyPackages : Locked σ (List (PublishedKeyPackageRecord V))
  getKeyPackage : String → Locked σ (Option (PublishedKeyPackageRecord V))
  removeKeyPackage : String → Locked σ (Option (PublishedKeyPackageRecord V))
  consumeKeyPackage : String → Locked σ (Option (PublishedKeyPackageRecord V))
  storeWelcome : WelcomeQueueRecord → Locked σ WelcomeQueueRecord
  fetchPendingWelcomes : String → List ConsumedWelcomeRef → Locked σ (List WelcomeQueueRecord)
  deleteExpiredWelcomes : Int → Locked σ ℕ
  storeJoinRequest : JoinRequestRecord → Locked σ JoinRequestRecord
  fetchPendingJoinRequests :
    String → List ConsumedJoinRequestRef → Locked σ (List JoinRequestRecord)
  fetchManyPendingJoinRequests : List String → List ConsumedJoinRequestWithGroupRef →
    Locked σ (List JoinRequestRecord)
  deleteExpiredJoinRequests : Int → Locked σ ℕ
  appendGroupMessage : AppendGroupMessageParams → Locked σ GroupMessageRecord
  fetchGroupMessages : String → Option Int → Locked σ (List GroupMessageRecord)
  fetchManyGroupMessages :
    List FetchGroupMessagesInput → Locked σ (List GroupMessageRecord)
  joinRequestLocking : Locking := .once
  each : joinRequestLocking = .perGroup → ∀ groupIds consumed,
    fetchManyPendingJoinRequests groupIds consumed = fetchEachGroup fetchPendingJoinRequests
      (partitionConsumedJoinRequests consumed) groupIds := by nofun

theorem partition_bucket (consumed : List ConsumedJoinRequestWithGroupRef) (g : String) :
    (partitionConsumedJoinRequests consumed).bucket g =
      (consumed.filter (fun c => decide (c.groupId = g))).map
        (fun c => ⟨c.requesterStablePubkey, c.createdAt⟩) := by
  suffices h : ∀ m : IndexMap String (List ConsumedJoinRequestRef),
      (consumed.foldl (fun byGroup item => byGroup.pushBack item.groupId
        ⟨item.requesterStablePubkey, item.createdAt⟩) m).bucket g =
      m.bucket g ++ (consumed.filter (fun c => decide (c.groupId = g))).map
        (fun c => ⟨c.requesterStablePubkey, c.createdAt⟩) by
    simpa [partitionConsumedJoinRequests] using h IndexMap.empty
  induction consumed with
  | nil => simp
  | cons c cs ih =>
    intro m
    rw [List.foldl_cons, ih, IndexMap.bucket_pushBack]
    by_cases hc : c.groupId = g
    · simp [hc]
    · simp [hc, Ne.symm hc]

end Cordn
