import Cordn.Lib.SqlTable
import Cordn.Storage

/-!
# The SQLite backend

Five tables. Each operation runs its statements under the connection lock; a
transaction that returns early leaves the database as it was. The JSON codec is
a parameter. The welcome, join-request and message rows carry the columns of
their records, so reading one back is the identity.
-/

set_option autoImplicit false

namespace Cordn.Sqlite

structure SerdeJson (V : Type) where
  toString : V → Except String String
  fromStr : String → Except String V

/-- Every value reads back from the text it was written as. -/
def SerdeJson.RoundTrips {V : Type} (json : SerdeJson V) : Prop :=
  ∀ v, ∃ text, json.toString v = .ok text ∧ json.fromStr text = .ok v

def jsonBool : SerdeJson Bool where
  toString b := .ok (if b then "true" else "false")
  fromStr t := if t = "true" then .ok true else if t = "false" then .ok false
    else .error "expected value at line 1 column 1"

theorem jsonBool_roundTrips : jsonBool.RoundTrips := by
  intro b
  cases b
  · exact ⟨"false", rfl, rfl⟩
  · exact ⟨"true", rfl, rfl⟩

structure KeyPackageRow where
  stablePubkey : String
  keyPackageRef : String
  keyPackageBytes : List UInt8
  isLastResort : Int
  publishedAt : Int
  publicationEventJson : String
  deriving DecidableEq, Repr

structure Database where
  keyPackages : SqlTable KeyPackageRow
  welcomes : SqlTable WelcomeQueueRecord
  joinRequests : SqlTable JoinRequestRecord
  groupRouting : IndexMap String Int
  groupMessages : SqlTable GroupMessageRecord

def Database.new : Database :=
  ⟨SqlTable.empty, SqlTable.empty, SqlTable.empty, IndexMap.empty, SqlTable.empty⟩

/-- `SQLITE_MAX_VARIABLE_NUMBER` of the bundled library. -/
def maxVariableNumber : ℕ := 32766

/-- Preparing a statement with more placeholders fails. The statement's text,
which the driver adds to the message, is left out. -/
def prepareError (placeholders : ℕ) : Option StorageError :=
  if placeholders ≤ maxVariableNumber then none else some (.backend "too many SQL variables")

def joinRequestLimit : FetchLimit := fun groups => prepareError (2*groups)

def messageLimit : FetchLimit := fun groups => prepareError (3*groups)

variable {V : Type} (json : SerdeJson V)

def rowToKeyPackage (row : KeyPackageRow) : Except StorageError (PublishedKeyPackageRecord V) :=
  match json.fromStr row.publicationEventJson with
  | .error e => .error (.backend ("Conversion error from type Text at index: 0, " ++ e))
  | .ok publicationEvent => .ok ⟨row.stablePubkey, row.keyPackageBytes, row.keyPackageRef,
      decide (row.isLastResort ≠ 0), row.publishedAt, publicationEvent⟩

def queryRow (rows : List KeyPackageRow) :
    Except StorageError (Option (PublishedKeyPackageRecord V)) :=
  match rows.head? with
  | none => .ok none
  | some row => (rowToKeyPackage json row).map some

def hasRef (keyPackageRef : String) (row : KeyPackageRow) : Bool :=
  decide (row.keyPackageRef = keyPackageRef)

def hasIdentity (stablePubkey : String) (row : KeyPackageRow) : Bool :=
  decide (row.stablePubkey = stablePubkey)

def publishKeyPackage (record : PublishedKeyPackageRecord V) :
    Locked Database (PublishedKeyPackageRecord V) := fun db =>
  match json.toString record.publicationEvent with
  | .error e => (.error (.backend e), db)
  | .ok pubJson =>
    match db.keyPackages.insertUnique (hasRef record.keyPackageRef)
      ⟨record.stablePubkey, record.keyPackageRef, record.keyPackageBytes,
        if record.isLastResort then 1 else 0, record.publishedAt, pubJson⟩ with
    | none =>
      (.error (.backend "UNIQUE constraint failed: key_packages.key_package_ref"), db)
    | some keyPackages => (.ok record, { db with keyPackages := keyPackages })

def listKeyPackagesForIdentity (stablePubkey : String) :
    Locked Database (List (PublishedKeyPackageRecord V)) := fun db =>
  ((db.keyPackages.select (hasIdentity stablePubkey) SqlTable.byId).mapM (rowToKeyPackage json),
    db)

def listAllKeyPackages : Locked Database (List (PublishedKeyPackageRecord V)) := fun db =>
  ((db.keyPackages.select (fun _ => true) SqlTable.byId).mapM (rowToKeyPackage json), db)

def selectByRef (keyPackageRef : String) (db : Database) : List KeyPackageRow :=
  (db.keyPackages.select (hasRef keyPackageRef) SqlTable.byId).take 1

def getKeyPackage (keyPackageRef : String) :
    Locked Database (Option (PublishedKeyPackageRecord V)) := fun db =>
  (queryRow json (selectByRef keyPackageRef db), db)

def deleteByRef (keyPackageRef : String) (db : Database) : Database :=
  { db with keyPackages := db.keyPackages.delete (hasRef keyPackageRef) }

def removeKeyPackage (keyPackageRef : String) :
    Locked Database (Option (PublishedKeyPackageRecord V)) := fun db =>
  match queryRow json (selectByRef keyPackageRef db) with
  | .error e => (.error e, db)
  | .ok none => (.ok none, db)
  | .ok (some record) => (.ok (some record), deleteByRef keyPackageRef db)

/-- `CASE WHEN is_last_resort = flag THEN id END`; NULL sorts first. -/
def caseId (flag : Int) (r : ℕ × KeyPackageRow) : Option ℕ :=
  if r.2.isLastResort = flag then some r.1 else none

/-- The ORDER BY of `KP_CONSUME_BY_IDENTITY_SQL`. -/
def consumeOrder : ℕ × KeyPackageRow → ℕ × KeyPackageRow → Ordering :=
  compareLex (compareOn (fun r => r.2.isLastResort))
    (compareLex (compareOn (caseId 0)) (fun a b => compareOn (caseId 1) b a))

def selectForConsume (stablePubkey : String) (db : Database) : List KeyPackageRow :=
  (db.keyPackages.select (hasIdentity stablePubkey) consumeOrder).take 1

def consumeKeyPackage (identifier : String) :
    Locked Database (Option (PublishedKeyPackageRecord V)) := fun db =>
  -- 1. by exact key-package ref.
  match queryRow json (selectByRef identifier db) with
  | .error e => (.error e, db)
  | .ok (some record) =>
    if record.isLastResort then (.ok (some record), db)
    else (.ok (some record), deleteByRef identifier db)
  | .ok none =>
    -- 2. as a stable identity.
    match queryRow json (selectForConsume identifier db) with
    | .error e => (.error e, db)
    | .ok (some record) =>
      if record.isLastResort then (.ok (some record), db)
      else (.ok (some record), deleteByRef record.keyPackageRef db)
    | .ok none => (.ok none, db)

def storeWelcome (record : WelcomeQueueRecord) : Locked Database WelcomeQueueRecord := fun db =>
  (.ok record, { db with welcomes := db.welcomes.insert record })

def consumesWelcome (targetStablePubkey : String) (c : ConsumedWelcomeRef)
    (r : WelcomeQueueRecord) : Bool :=
  decide (r.targetStablePubkey = targetStablePubkey) &&
    decide (r.keyPackageReference = c.keyPackageReference) && decide (r.createdAt = c.createdAt)

def fetchPendingWelcomes (targetStablePubkey : String) (consumed : List ConsumedWelcomeRef) :
    Locked Database (List WelcomeQueueRecord) := fun db =>
  let welcomes := consumed.foldl (fun t c => t.delete (consumesWelcome targetStablePubkey c))
    db.welcomes
  (.ok (welcomes.select (fun r => decide (r.targetStablePubkey = targetStablePubkey))
      SqlTable.byId), { db with welcomes := welcomes })

def deleteExpiredWelcomes (maxAgeThreshold : Int) : Locked Database ℕ := fun db =>
  if maxAgeThreshold ≤ 0 then (.ok 0, db)
  else (.ok (db.welcomes.matching (fun r => decide (r.createdAt < maxAgeThreshold))),
    { db with welcomes := db.welcomes.delete (fun r => decide (r.createdAt < maxAgeThreshold)) })

def inGroup (groupId : String) (r : JoinRequestRecord) : Bool := decide (r.groupId = groupId)

def sameRequest (record r : JoinRequestRecord) : Bool :=
  decide (r.groupId = record.groupId) &&
    decide (r.requesterStablePubkey = record.requesterStablePubkey)

def storeJoinRequest (record : JoinRequestRecord) : Locked Database JoinRequestRecord := fun db =>
  if ((db.joinRequests.select (sameRequest record) SqlTable.byId).take 1).isEmpty then
    if maxPendingJoinRequestsPerGroup ≤ db.joinRequests.matching (inGroup record.groupId) then
      (.error .tooManyPendingJoinRequests, db)
    else (.ok record, { db with joinRequests := db.joinRequests.insert record })
  else
    -- Re-request: refresh in place.
    let joinRequests := db.joinRequests.update (sameRequest record)
      (fun r => { r with keyPackageRef := record.keyPackageRef, createdAt := record.createdAt })
    (.ok record, { db with joinRequests := joinRequests })

def consumesJoinRequest (groupId : String) (c : ConsumedJoinRequestRef)
    (r : JoinRequestRecord) : Bool :=
  decide (r.groupId = groupId) && decide (r.requesterStablePubkey = c.requesterStablePubkey) &&
    decide (r.createdAt = c.createdAt)

def retire (groupId : String) (consumed : List ConsumedJoinRequestRef)
    (t : SqlTable JoinRequestRecord) : SqlTable JoinRequestRecord :=
  consumed.foldl (fun t c => t.delete (consumesJoinRequest groupId c)) t

def fetchPendingJoinRequests (groupId : String) (consumed : List ConsumedJoinRequestRef) :
    Locked Database (List JoinRequestRecord) := fun db =>
  let joinRequests := retire groupId consumed db.joinRequests
  (.ok (joinRequests.select (inGroup groupId) SqlTable.byId),
    { db with joinRequests := joinRequests })

def joinRequestOrder : (String × ℕ) × ℕ × JoinRequestRecord →
    (String × ℕ) × ℕ × JoinRequestRecord → Ordering :=
  compareLex (compareOn (fun x => x.1.2)) (compareOn (fun x => x.2.1))

def retireEach (groupIds : List String) (consumed : List ConsumedJoinRequestWithGroupRef)
    (t : SqlTable JoinRequestRecord) : SqlTable JoinRequestRecord :=
  let consumedByGroup := partitionConsumedJoinRequests consumed
  groupIds.foldl (fun t groupId => retire groupId (consumedByGroup.bucket groupId) t) t

def fetchManyPendingJoinRequests (groupIds : List String)
    (consumed : List ConsumedJoinRequestWithGroupRef) :
    Locked Database (List JoinRequestRecord) := fun db =>
  if groupIds.isEmpty then (.ok [], db)
  else
    let joinRequests := retireEach groupIds consumed db.joinRequests
    match joinRequestLimit groupIds.length with
    -- The deletes are rolled back.
    | some e => (.error e, db)
    | none => (.ok (joinRequests.join groupIds.zipIdx (fun q r => decide (r.groupId = q.1))
        joinRequestOrder), { db with joinRequests := joinRequests })

def deleteExpiredJoinRequests (maxAgeThreshold : Int) : Locked Database ℕ := fun db =>
  if maxAgeThreshold ≤ 0 then (.ok 0, db)
  else (.ok (db.joinRequests.matching (fun r => decide (r.createdAt < maxAgeThreshold))),
    { db with joinRequests :=
        db.joinRequests.delete (fun r => decide (r.createdAt < maxAgeThreshold)) })

def appendGroupMessage (params : AppendGroupMessageParams) :
    Locked Database GroupMessageRecord := fun db =>
  let cursor := wrappingAdd ((db.groupRouting.get? params.groupId).getD 0) 1
  if cursor ≤ 0 then (.error (.backend "Unable to allocate per-group message cursor"), db)
  else
    let record : GroupMessageRecord :=
      ⟨cursor, params.groupId, params.opaqueMessage, params.createdAt⟩
    match db.groupMessages.insertUnique
      (fun r => decide (r.groupId = params.groupId) && decide (r.cursor = cursor)) record with
    | none => (.error (.backend
        "UNIQUE constraint failed: group_messages.group_id, group_messages.cursor"), db)
    | some groupMessages => (.ok record, { db with
        groupMessages := groupMessages
        groupRouting := db.groupRouting.insert params.groupId cursor })

def byCursor (a b : ℕ × GroupMessageRecord) : Ordering := compare a.2.cursor b.2.cursor

def fetchGroupMessages (groupId : String) (afterCursor : Option Int) :
    Locked Database (List GroupMessageRecord) := fun db =>
  (.ok (db.groupMessages.select (fun m => decide (m.groupId = groupId) &&
    decide (afterCursor.getD 0 < m.cursor)) byCursor), db)

def groupMessageOrder : (FetchGroupMessagesInput × ℕ) × ℕ × GroupMessageRecord →
    (FetchGroupMessagesInput × ℕ) × ℕ × GroupMessageRecord → Ordering :=
  compareLex (compareOn (fun x => x.1.2)) (compareOn (fun x => x.2.2.cursor))

def fetchManyGroupMessages (groups : List FetchGroupMessagesInput) :
    Locked Database (List GroupMessageRecord) := fun db =>
  if groups.isEmpty then (.ok [], db)
  else
    match messageLimit groups.length with
    | some e => (.error e, db)
    | none => (.ok (db.groupMessages.join groups.zipIdx
        (fun q m => decide (m.groupId = q.1.groupId) &&
          decide (q.1.afterCursor.getD 0 < m.cursor)) groupMessageOrder), db)

def storage : CoordinatorStorage V Database where
  publishKeyPackage := publishKeyPackage json
  listKeyPackagesForIdentity := listKeyPackagesForIdentity json
  listAllKeyPackages := listAllKeyPackages json
  getKeyPackage := getKeyPackage json
  removeKeyPackage := removeKeyPackage json
  consumeKeyPackage := consumeKeyPackage json
  storeWelcome := storeWelcome
  fetchPendingWelcomes := fetchPendingWelcomes
  deleteExpiredWelcomes := deleteExpiredWelcomes
  storeJoinRequest := storeJoinRequest
  fetchPendingJoinRequests := fetchPendingJoinRequests
  fetchManyPendingJoinRequests := fetchManyPendingJoinRequests
  deleteExpiredJoinRequests := deleteExpiredJoinRequests
  appendGroupMessage := appendGroupMessage
  fetchGroupMessages := fetchGroupMessages
  fetchManyGroupMessages := fetchManyGroupMessages

end Cordn.Sqlite
