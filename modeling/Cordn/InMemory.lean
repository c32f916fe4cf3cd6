import Cordn.Storage

/-!
# The in-memory backend

Four insertion-ordered maps. Every operation is a function of the whole state,
since the source runs it under one lock. No operation of this backend fails
except a join request beyond the cap.
-/

set_option autoImplicit false

namespace Cordn.InMemory

structure GroupLog where
  nextCursor : Int
  messages : List GroupMessageRecord
  deriving DecidableEq, Repr

def GroupLog.new : GroupLog := ⟨1, []⟩

structure InMemoryInner (V : Type) where
  keyPackagesByIdentity : IndexMap String (List (PublishedKeyPackageRecord V))
  welcomesByIdentity : IndexMap String (List WelcomeQueueRecord)
  joinRequestsByGroup : IndexMap String (List JoinRequestRecord)
  groups : IndexMap String GroupLog

def InMemoryInner.default {V : Type} : InMemoryInner V :=
  ⟨IndexMap.empty, IndexMap.empty, IndexMap.empty, IndexMap.empty⟩

variable {V : Type}

structure Located (V : Type) where
  stablePubkey : String
  index : ℕ
  record : PublishedKeyPackageRecord V

def locateIn (keyPackageRef : String) :
    List (String × List (PublishedKeyPackageRecord V)) → Option (Located V)
  | [] => none
  | (stablePubkey, records)::rest =>
    match IndexMap.position (fun r => decide (r.keyPackageRef = keyPackageRef)) records with
    | some (index, record) => some ⟨stablePubkey, index, record⟩
    | none => locateIn keyPackageRef rest

def locateByRef (keyPackagesByIdentity : IndexMap String (List (PublishedKeyPackageRecord V)))
    (keyPackageRef : String) : Option (Located V) :=
  locateIn keyPackageRef keyPackagesByIdentity.entries

/-- `records.remove(index)`, then `shift_remove` of the identity if that was
its last record. -/
def removeAt (keyPackagesByIdentity : IndexMap String (List (PublishedKeyPackageRecord V)))
    (stablePubkey : String) (index : ℕ) : IndexMap String (List (PublishedKeyPackageRecord V)) :=
  keyPackagesByIdentity.putBack stablePubkey
    ((keyPackagesByIdentity.bucket stablePubkey).eraseIdx index)

def publishKeyPackage (record : PublishedKeyPackageRecord V) :
    Locked (InMemoryInner V) (PublishedKeyPackageRecord V) := fun inner =>
  (.ok record, { inner with
    keyPackagesByIdentity := inner.keyPackagesByIdentity.pushBack record.stablePubkey record })

def listKeyPackagesForIdentity (stablePubkey : String) :
    Locked (InMemoryInner V) (List (PublishedKeyPackageRecord V)) := fun inner =>
  (.ok (inner.keyPackagesByIdentity.bucket stablePubkey), inner)

def listAllKeyPackages : Locked (InMemoryInner V) (List (PublishedKeyPackageRecord V)) :=
  fun inner => (.ok inner.keyPackagesByIdentity.contents, inner)

def getKeyPackage (keyPackageRef : String) :
    Locked (InMemoryInner V) (Option (PublishedKeyPackageRecord V)) := fun inner =>
  (.ok ((locateByRef inner.keyPackagesByIdentity keyPackageRef).map Located.record), inner)

def removeKeyPackage (keyPackageRef : String) :
    Locked (InMemoryInner V) (Option (PublishedKeyPackageRecord V)) := fun inner =>
  match locateByRef inner.keyPackagesByIdentity keyPackageRef with
  | none => (.ok none, inner)
  | some loc => (.ok (some loc.record), { inner with
      keyPackagesByIdentity := removeAt inner.keyPackagesByIdentity loc.stablePubkey loc.index })

def consumeKeyPackage (identifier : String) :
    Locked (InMemoryInner V) (Option (PublishedKeyPackageRecord V)) := fun inner =>
  -- 1. by exact key-package ref.
  match locateByRef inner.keyPackagesByIdentity identifier with
  | some loc =>
    if loc.record.isLastResort then (.ok (some loc.record), inner)
    else (.ok (some loc.record), { inner with
      keyPackagesByIdentity := removeAt inner.keyPackagesByIdentity loc.stablePubkey loc.index })
  | none =>
    -- 2. as a stable identity: its first regular package, else the newest one.
    match IndexMap.position (fun r => !r.isLastResort)
        (inner.keyPackagesByIdentity.bucket identifier) with
    | some (index, record) => (.ok (some record), { inner with
        keyPackagesByIdentity := removeAt inner.keyPackagesByIdentity identifier index })
    | none => (.ok (inner.keyPackagesByIdentity.bucket identifier).getLast?, inner)

def storeWelcome (record : WelcomeQueueRecord) : Locked (InMemoryInner V) WelcomeQueueRecord :=
  fun inner => (.ok record, { inner with
    welcomesByIdentity := inner.welcomesByIdentity.pushBack record.targetStablePubkey record })

def welcomeConsumed (consumed : List ConsumedWelcomeRef) (r : WelcomeQueueRecord) : Bool :=
  consumed.any (fun c => decide (c.keyPackageReference = r.keyPackageReference) &&
    decide (c.createdAt = r.createdAt))

def fetchPendingWelcomes (targetStablePubkey : String) (consumed : List ConsumedWelcomeRef) :
    Locked (InMemoryInner V) (List WelcomeQueueRecord) := fun inner =>
  match inner.welcomesByIdentity.get? targetStablePubkey with
  | none => (.ok [], inner)
  | some records =>
    let records := if consumed.isEmpty then records
      else records.filter (fun r => !welcomeConsumed consumed r)
    (.ok records, { inner with
      welcomesByIdentity := inner.welcomesByIdentity.putBack targetStablePubkey records })

def deleteExpiredWelcomes (maxAgeThreshold : Int) : Locked (InMemoryInner V) ℕ := fun inner =>
  if maxAgeThreshold ≤ 0 then (.ok 0, inner)
  else
    let (deleted, kept) := inner.welcomesByIdentity.retainAll
      (fun r => decide (maxAgeThreshold ≤ r.createdAt))
    (.ok deleted, { inner with welcomesByIdentity := kept })

def sameRequester (record r : JoinRequestRecord) : Bool :=
  decide (r.requesterStablePubkey = record.requesterStablePubkey)

def refreshed (record existing : JoinRequestRecord) : JoinRequestRecord :=
  { existing with keyPackageRef := record.keyPackageRef, createdAt := record.createdAt }

def storeJoinRequest (record : JoinRequestRecord) : Locked (InMemoryInner V) JoinRequestRecord :=
  fun inner =>
  if (inner.joinRequestsByGroup.bucket record.groupId).any (sameRequester record) then
    -- Re-request: refresh in place.
    let joinRequestsByGroup := inner.joinRequestsByGroup.adjust record.groupId
      (IndexMap.modifyFirst (sameRequester record) (refreshed record))
    (.ok record, { inner with joinRequestsByGroup := joinRequestsByGroup })
  else
    let entered := inner.joinRequestsByGroup.upsert record.groupId (fun o => o.getD [])
    if maxPendingJoinRequestsPerGroup ≤ (entered.bucket record.groupId).length then
      (.error .tooManyPendingJoinRequests, { inner with joinRequestsByGroup := entered })
    else (.ok record, { inner with
      joinRequestsByGroup := entered.pushBack record.groupId record })

def joinRequestConsumed (consumed : List ConsumedJoinRequestRef) (r : JoinRequestRecord) : Bool :=
  consumed.any (fun c => decide (c.requesterStablePubkey = r.requesterStablePubkey) &&
    decide (c.createdAt = r.createdAt))

def fetchPendingJoinRequests (groupId : String) (consumed : List ConsumedJoinRequestRef) :
    Locked (InMemoryInner V) (List JoinRequestRecord) := fun inner =>
  match inner.joinRequestsByGroup.get? groupId with
  | none => (.ok [], inner)
  | some records =>
    let records := if consumed.isEmpty then records
      else records.filter (fun r => !joinRequestConsumed consumed r)
    (.ok records, { inner with
      joinRequestsByGroup := inner.joinRequestsByGroup.putBack groupId records })

/-- Each group's fetch takes the lock anew. -/
def fetchManyPendingJoinRequests (groupIds : List String)
    (consumed : List ConsumedJoinRequestWithGroupRef) :
    Locked (InMemoryInner V) (List JoinRequestRecord) :=
  fetchEachGroup fetchPendingJoinRequests (partitionConsumedJoinRequests consumed) groupIds

def deleteExpiredJoinRequests (maxAgeThreshold : Int) : Locked (InMemoryInner V) ℕ := fun inner =>
  if maxAgeThreshold ≤ 0 then (.ok 0, inner)
  else
    let (deleted, kept) := inner.joinRequestsByGroup.retainAll
      (fun r => decide (maxAgeThreshold ≤ r.createdAt))
    (.ok deleted, { inner with joinRequestsByGroup := kept })

def appendGroupMessage (params : AppendGroupMessageParams) :
    Locked (InMemoryInner V) GroupMessageRecord := fun inner =>
  let log := (inner.groups.get? params.groupId).getD .new
  let record : GroupMessageRecord :=
    ⟨log.nextCursor, params.groupId, params.opaqueMessage, params.createdAt⟩
  let log : GroupLog := ⟨wrappingAdd log.nextCursor 1, log.messages ++ [record]⟩
  (.ok record, { inner with groups := inner.groups.insert params.groupId log })

def messagesAfter (groups : IndexMap String GroupLog) (groupId : String)
    (afterCursor : Option Int) : List GroupMessageRecord :=
  (((groups.get? groupId).map GroupLog.messages).getD []).filter
    (fun m => decide (afterCursor.getD 0 < m.cursor))

def fetchGroupMessages (groupId : String) (afterCursor : Option Int) :
    Locked (InMemoryInner V) (List GroupMessageRecord) := fun inner =>
  (.ok (messagesAfter inner.groups groupId afterCursor), inner)

def fetchManyGroupMessages (groups : List FetchGroupMessagesInput) :
    Locked (InMemoryInner V) (List GroupMessageRecord) := fun inner =>
  (.ok (groups.flatMap (fun g => messagesAfter inner.groups g.groupId g.afterCursor)), inner)

def storage : CoordinatorStorage V (InMemoryInner V) where
  publishKeyPackage := publishKeyPackage
  listKeyPackagesForIdentity := listKeyPackagesForIdentity
  listAllKeyPackages := listAllKeyPackages
  getKeyPackage := getKeyPackage
  removeKeyPackage := removeKeyPackage
  consumeKeyPackage := consumeKeyPackage
  storeWelcome := storeWelcome
  fetchPendingWelcomes := fetchPendingWelcomes
  deleteExpiredWelcomes := deleteExpiredWelcomes
  storeJoinRequest := storeJoinRequest
  fetchPendingJoinRequests := fetchPendingJoinRequests
  fetchManyPendingJoinRequests := fetchManyPendingJoinRequests
  deleteExpiredJoinRequests := deleteExpiredJoinRequests
  appendGroupMessage := appendGroupMessage
  fetchGroupMessages := fetchGroupMessages
  fetchManyGroupMessages := fetchManyGroupMessages
  joinRequestLocking := .perGroup
  each _ _ _ := rfl

end Cordn.InMemory
