import Cordn.MlsParse
import Cordn.Storage

/-!
# The server adapter

What a client's call does between the wire and the storage layer: the rate
limit, the input checks, the admission of key packages with their quota, and the
ownership checks. Base64 and the event's JSON form come from libraries and are
parameters, as is the rate limiter. Each call brings the two clock readings it
makes.
-/

set_option autoImplicit false

namespace Cordn.Adapter
open MlsParse

inductive AdapterError where
  | rateLimitExceeded
  | quotaExceeded
  | missingPublicationEvent
  | signerMismatch
  | identityMismatch
  | invalidKeyPackage
  | invalidWelcome
  | invalidMessage
  | unknownKeyPackageRef (kpRef : String)
  | unauthorizedKeyPackageRef (kpRef : String)
  | invalidInput (message : String)
  | storage (error : StorageError)
  deriving DecidableEq, Repr

structure NostrEvent where
  id : String
  pubkey : String
  createdAt : Int
  kind : Int
  tags : List (List String)
  content : String
  sig : String
  deriving DecidableEq, Repr

structure PublishKeyPackageInput where
  kpRef : String
  kp64 : String
  deriving DecidableEq, Repr

structure PublishKeyPackageOutput where
  kpRef : String
  lastResort : Bool
  publishedAt : Int
  deriving DecidableEq, Repr

structure ConsumedKeyPackage where
  pk : String
  kpRef : String
  lastResort : Bool
  publishedAt : Int
  event : NostrEvent
  deriving DecidableEq, Repr

structure AvailableKeyPackage where
  pk : String
  kpRef : String
  lastResort : Bool
  publishedAt : Int
  deriving DecidableEq, Repr

structure PendingWelcome where
  kpRef : String
  welcome64 : String
  createdAt : Int
  after : Option Int
  deriving DecidableEq, Repr

structure StoreWelcomeInput where
  targetPk : String
  kpRef : String
  welcome64 : String
  after : Option Int
  deriving DecidableEq, Repr

structure StoreJoinRequestInput where
  gid : String
  kpRef : String
  deriving DecidableEq, Repr

structure PostGroupMessageInput where
  msg64 : String
  gid : String
  deriving DecidableEq, Repr

structure PostGroupMessageOutput where
  cursor : Int
  gid : String
  createdAt : Int
  deriving DecidableEq, Repr

structure GroupMessage where
  cursor : Int
  gid : String
  msg64 : String
  createdAt : Int
  deriving DecidableEq, Repr

structure KeyPackageQuotaConfig where
  maxPerIdentity : ℕ
  maxLastResortPerIdentity : ℕ
  deriving DecidableEq, Repr

/-- Base64 and `serde_json` between an event and its JSON value. -/
structure Externals (V : Type) where
  b64Decode : String → Option (List UInt8)
  b64Encode : List UInt8 → String
  toValue : NostrEvent → Except String V
  null : V
  fromValue : V → Except String NostrEvent

structure RateLimiter (L : Type) where
  check : String → Int → L → Bool × L

structure CoordinatorAdapter (V σ L : Type) where
  storage : CoordinatorStorage V σ
  rateLimiter : RateLimiter L
  keyPackageQuota : KeyPackageQuotaConfig
  externals : Externals V

/-- A call's caller and its clock readings, for the limiter and for the record. -/
structure Caller where
  clientPubkey : String
  limiterNow : Int
  now : Int
  deriving DecidableEq, Repr

def Call (σ α : Type) := σ → Except AdapterError α × σ

namespace Call

variable {σ α β : Type}

def reply (result : Except AdapterError α) : Call σ α := fun s => (result, s)

def andThen (p : Call σ α) (q : α → Call σ β) : Call σ β := fun s =>
  match p s with
  | (.error e, s) => (.error e, s)
  | (.ok a, s) => q a s

instance : Monad (Call σ) where
  pure a := reply (.ok a)
  bind := andThen

def onStorage (op : Locked σ α) : Call σ α := fun s =>
  match op s with
  | (.error e, s) => (.error (.storage e), s)
  | (.ok a, s) => (.ok a, s)

end Call

open Call

def requireNonEmpty (value field : String) : Except AdapterError Unit :=
  if value.isEmpty then .error (.invalidInput (field ++ " must be non-empty")) else .ok ()

def requirePositiveCursor (after : Option Int) (field : String) : Except AdapterError Unit :=
  if after.any (fun c => decide (c ≤ 0)) then
    .error (.invalidInput (field ++ " must be a positive integer"))
  else .ok ()

def requireGroups {α : Type} (groups : List α) : Except AdapterError Unit :=
  if groups.isEmpty then .error (.invalidInput "groups must be non-empty") else .ok ()

variable {V σ L : Type} (A : CoordinatorAdapter V σ L)

def withinRateLimit {α : Type} (c : Caller) (call : Call σ α) :
    σ × L → Except AdapterError α × (σ × L) := fun state =>
  match A.rateLimiter.check c.clientPubkey c.limiterNow state.2 with
  | (false, l) => (.error .rateLimitExceeded, (state.1, l))
  | (true, l) =>
    let (result, s) := call state.1
    (result, (s, l))

/-- The checks of a publication before the quota: what is admitted is the decoded
package with its parse and its event. -/
def admission (clientPubkey : String) (input : PublishKeyPackageInput)
    (publicationEvent : Option NostrEvent) :
    Except AdapterError (List UInt8 × ParsedKeyPackage × NostrEvent) := do
  requireNonEmpty input.kpRef "kp_ref"
  requireNonEmpty input.kp64 "kp_64"
  match A.externals.b64Decode input.kp64 with
  | none => .error .invalidKeyPackage
  | some keyPackageBytes =>
    match parseKeyPackage keyPackageBytes with
    | .error _ => .error .invalidKeyPackage
    | .ok parsed =>
      match publicationEvent with
      | none => .error .missingPublicationEvent
      | some event =>
        if event.pubkey ≠ clientPubkey then .error .signerMismatch
        else if parsed.credentialIdentity ≠ event.pubkey then .error .identityMismatch
        else .ok (keyPackageBytes, parsed, event)

def removeEach : List (PublishedKeyPackageRecord V) → Call σ Unit
  | [] => pure ()
  | record::records => do
    let _ ← onStorage (A.storage.removeKeyPackage record.keyPackageRef)
    removeEach records

def evictLastResorts (existingLastResort : List (PublishedKeyPackageRecord V)) : Call σ Unit :=
  let maxLastResort := A.keyPackageQuota.maxLastResortPerIdentity
  if 0 < maxLastResort ∧ maxLastResort ≤ existingLastResort.length then
    removeEach A (existingLastResort.take (existingLastResort.length - maxLastResort + 1))
  else pure ()

def enforceKeyPackageQuota (stablePubkey : String) (incomingIsLastResort : Bool) :
    Call σ Unit := do
  let records ← onStorage (A.storage.listKeyPackagesForIdentity stablePubkey)
  let maxPer := A.keyPackageQuota.maxPerIdentity
  let maxLastResort := A.keyPackageQuota.maxLastResortPerIdentity
  if incomingIsLastResort then do
    let existingLastResort := records.filter (fun r => r.isLastResort)
    evictLastResorts A existingLastResort
    let nonLastResortCount := records.length - existingLastResort.length
    if 0 < maxPer ∧ maxPer <
        nonLastResortCount + min existingLastResort.length (maxLastResort-1) + 1 then
      reply (.error .quotaExceeded)
    else pure ()
  else if 0 < maxPer ∧ maxPer ≤ records.length then reply (.error .quotaExceeded)
  else pure ()

/-- `serde_json::to_value(..).unwrap_or(Null)`. -/
def eventValue (event : NostrEvent) : V :=
  match A.externals.toValue event with
  | .ok v => v
  | .error _ => A.externals.null

def publishKeyPackage (c : Caller) (input : PublishKeyPackageInput)
    (publicationEvent : Option NostrEvent) : Call σ PublishKeyPackageOutput := do
  let admitted ← reply (admission A c.clientPubkey input publicationEvent)
  let parsed := admitted.2.1
  enforceKeyPackageQuota A parsed.credentialIdentity parsed.isLastResort
  let record ← onStorage (A.storage.publishKeyPackage ⟨parsed.credentialIdentity, admitted.1,
    input.kpRef, parsed.isLastResort, c.now, eventValue A admitted.2.2⟩)
  pure ⟨record.keyPackageRef, record.isLastResort, record.publishedAt⟩

def consumedKeyPackage (r : PublishedKeyPackageRecord V) :
    Except AdapterError ConsumedKeyPackage :=
  match A.externals.fromValue r.publicationEvent with
  | .error e => .error (.invalidInput ("corrupt publication event: " ++ e))
  | .ok event => .ok ⟨r.stablePubkey, r.keyPackageRef, r.isLastResort, r.publishedAt, event⟩

def consumeKeyPackage (id : String) : Call σ (Option ConsumedKeyPackage) := do
  reply (requireNonEmpty id "id")
  let record ← onStorage (A.storage.consumeKeyPackage id)
  match record with
  | none => pure none
  | some r => reply ((consumedKeyPackage A r).map some)

def listAvailableKeyPackages : Call σ (List AvailableKeyPackage) := do
  let records ← onStorage A.storage.listAllKeyPackages
  pure (records.map (fun r => ⟨r.stablePubkey, r.keyPackageRef, r.isLastResort, r.publishedAt⟩))

def ownKeyPackage (c : Caller) (kpRef : String) : Call σ Unit := do
  let found ← onStorage (A.storage.getKeyPackage kpRef)
  match found with
  | none => reply (.error (.unknownKeyPackageRef kpRef))
  | some record =>
    if record.stablePubkey ≠ c.clientPubkey then
      reply (.error (.unauthorizedKeyPackageRef kpRef))
    else pure ()

def removeLoop (c : Caller) : List String → Call σ (List String)
  | [] => pure []
  | kpRef::kpRefs => do
    ownKeyPackage A c kpRef
    let gone ← onStorage (A.storage.removeKeyPackage kpRef)
    let removed ← removeLoop c kpRefs
    pure ((gone.map (fun r => r.keyPackageRef)).getD kpRef::removed)

def removeKeyPackages (c : Caller) (kpRefs : List String) : Call σ (List String) := do
  reply (if kpRefs.isEmpty then .error (.invalidInput "kp_refs must be non-empty") else .ok ())
  removeLoop A c kpRefs

def fetchPendingWelcomes (c : Caller) (consumed : Option (List ConsumedWelcomeRef)) :
    Call σ (List PendingWelcome) := do
  let records ← onStorage (A.storage.fetchPendingWelcomes c.clientPubkey (consumed.getD []))
  pure (records.map (fun r => ⟨r.keyPackageReference, A.externals.b64Encode r.welcomeBytes,
    r.createdAt, r.joinAfterCursor⟩))

def storeWelcome (c : Caller) (input : StoreWelcomeInput) : Call σ Int := do
  reply (requireNonEmpty input.targetPk "target_pk")
  reply (requireNonEmpty input.kpRef "kp_ref")
  reply (requireNonEmpty input.welcome64 "welcome_64")
  match A.externals.b64Decode input.welcome64 with
  | none => reply (.error .invalidWelcome)
  | some welcomeBytes => do
    let record ← onStorage (A.storage.storeWelcome
      ⟨input.targetPk, input.kpRef, welcomeBytes, c.now, input.after⟩)
    pure record.createdAt

def storeJoinRequest (c : Caller) (input : StoreJoinRequestInput) : Call σ Int := do
  reply (requireNonEmpty input.gid "gid")
  reply (requireNonEmpty input.kpRef "kp_ref")
  ownKeyPackage A c input.kpRef
  let record ← onStorage (A.storage.storeJoinRequest
    ⟨input.gid, c.clientPubkey, input.kpRef, c.now⟩)
  pure record.createdAt

def fetchManyPendingJoinRequests (groups : List String)
    (consumed : Option (List ConsumedJoinRequestWithGroupRef)) :
    Call σ (List JoinRequestRecord) := do
  reply (requireGroups groups)
  onStorage (A.storage.fetchManyPendingJoinRequests groups (consumed.getD []))

/-- A post up to its live fan-out. -/
def postGroupMessage (c : Caller) (input : PostGroupMessageInput) :
    Call σ PostGroupMessageOutput := do
  reply (requireNonEmpty input.gid "gid")
  reply (requireNonEmpty input.msg64 "msg_64")
  match A.externals.b64Decode input.msg64 with
  | none => reply (.error .invalidMessage)
  | some opaqueMessage => do
    let record ← onStorage (A.storage.appendGroupMessage ⟨input.gid, opaqueMessage, c.now⟩)
    pure ⟨record.cursor, record.groupId, record.createdAt⟩

def requirePositiveCursors (groups : List FetchGroupMessagesInput) : Except AdapterError Unit :=
  groups.forM (fun g => requirePositiveCursor g.afterCursor "after")

def fetchManyGroupMessages (groups : List FetchGroupMessagesInput) :
    Call σ (List GroupMessage) := do
  reply (requireGroups groups)
  reply (requirePositiveCursors groups)
  let records ← onStorage (A.storage.fetchManyGroupMessages groups)
  pure (records.map (fun r => ⟨r.cursor, r.groupId, A.externals.b64Encode r.opaqueMessage,
    r.createdAt⟩))

inductive Request where
  | publishKeyPackage (input : PublishKeyPackageInput) (publicationEvent : Option NostrEvent)
  | consumeKeyPackage (id : String)
  | listAvailableKeyPackages
  | removeKeyPackages (kpRefs : List String)
  | fetchPendingWelcomes (consumed : Option (List ConsumedWelcomeRef))
  | storeWelcome (input : StoreWelcomeInput)
  | storeJoinRequest (input : StoreJoinRequestInput)
  | fetchManyPendingJoinRequests (groups : List String)
      (consumed : Option (List ConsumedJoinRequestWithGroupRef))
  | postGroupMessage (input : PostGroupMessageInput)
  | fetchManyGroupMessages (groups : List FetchGroupMessagesInput)
  deriving DecidableEq, Repr

inductive Reply where
  | published (output : PublishKeyPackageOutput)
  | consumed (keyPackage : Option ConsumedKeyPackage)
  | available (keyPackages : List AvailableKeyPackage)
  | removed (kpRefs : List String)
  | welcomes (welcomes : List PendingWelcome)
  | storedAt (createdAt : Int)
  | joinRequests (requests : List JoinRequestRecord)
  | posted (output : PostGroupMessageOutput)
  | messages (messages : List GroupMessage)
  deriving DecidableEq, Repr

def perform (c : Caller) : Request → Call σ Reply
  | .publishKeyPackage input event => do
    let output ← publishKeyPackage A c input event
    pure (.published output)
  | .consumeKeyPackage id => do
    let keyPackage ← consumeKeyPackage A id
    pure (.consumed keyPackage)
  | .listAvailableKeyPackages => do
    let keyPackages ← listAvailableKeyPackages A
    pure (.available keyPackages)
  | .removeKeyPackages kpRefs => do
    let removed ← removeKeyPackages A c kpRefs
    pure (.removed removed)
  | .fetchPendingWelcomes consumed => do
    let welcomes ← fetchPendingWelcomes A c consumed
    pure (.welcomes welcomes)
  | .storeWelcome input => do
    let createdAt ← storeWelcome A c input
    pure (.storedAt createdAt)
  | .storeJoinRequest input => do
    let createdAt ← storeJoinRequest A c input
    pure (.storedAt createdAt)
  | .fetchManyPendingJoinRequests groups consumed => do
    let requests ← fetchManyPendingJoinRequests A groups consumed
    pure (.joinRequests requests)
  | .postGroupMessage input => do
    let output ← postGroupMessage A c input
    pure (.posted output)
  | .fetchManyGroupMessages groups => do
    let messages ← fetchManyGroupMessages A groups
    pure (.messages messages)

def step (request : Caller × Request) : σ × L → Except AdapterError Reply × (σ × L) :=
  withinRateLimit A request.1 (perform A request.1 request.2)

end Cordn.Adapter
