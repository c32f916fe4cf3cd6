import Cordn.CoordinatorOps
import Cordn.Lib.Interleaving
import Cordn.TakeByIdentity

/-!
# The server's calls as programs

The limiter, the storage and the registry of subscribers each stand behind a lock
that is held for one operation. A tool call is the program of the operations it
performs, and so is a round of the clean-up task. Run in one go, a call does what
the adapter does.
-/

set_option autoImplicit false

namespace Cordn.Server
open Adapter

variable {V σ L α β : Type}

inductive StorageCall (V : Type) : Type → Type where
  | publishKeyPackage (record : PublishedKeyPackageRecord V) :
      StorageCall V (PublishedKeyPackageRecord V)
  | listKeyPackagesForIdentity (stablePubkey : String) :
      StorageCall V (List (PublishedKeyPackageRecord V))
  | listAllKeyPackages : StorageCall V (List (PublishedKeyPackageRecord V))
  | getKeyPackage (keyPackageRef : String) : StorageCall V (Option (PublishedKeyPackageRecord V))
  | removeKeyPackage (keyPackageRef : String) :
      StorageCall V (Option (PublishedKeyPackageRecord V))
  | consumeKeyPackage (identifier : String) :
      StorageCall V (Option (PublishedKeyPackageRecord V))
  | storeWelcome (record : WelcomeQueueRecord) : StorageCall V WelcomeQueueRecord
  | fetchPendingWelcomes (targetStablePubkey : String) (consumed : List ConsumedWelcomeRef) :
      StorageCall V (List WelcomeQueueRecord)
  | deleteExpiredWelcomes (maxAgeThreshold : Int) : StorageCall V ℕ
  | storeJoinRequest (record : JoinRequestRecord) : StorageCall V JoinRequestRecord
  | fetchPendingJoinRequests (groupId : String) (consumed : List ConsumedJoinRequestRef) :
      StorageCall V (List JoinRequestRecord)
  | fetchManyPendingJoinRequests (groupIds : List String)
      (consumed : List ConsumedJoinRequestWithGroupRef) : StorageCall V (List JoinRequestRecord)
  | deleteExpiredJoinRequests (maxAgeThreshold : Int) : StorageCall V ℕ
  | appendGroupMessage (params : AppendGroupMessageParams) : StorageCall V GroupMessageRecord
  | fetchManyGroupMessages (groups : List FetchGroupMessagesInput) :
      StorageCall V (List GroupMessageRecord)

def StorageCall.perform (S : CoordinatorStorage V σ) : StorageCall V α → Locked σ α
  | publishKeyPackage record => S.publishKeyPackage record
  | listKeyPackagesForIdentity stablePubkey => S.listKeyPackagesForIdentity stablePubkey
  | listAllKeyPackages => S.listAllKeyPackages
  | getKeyPackage keyPackageRef => S.getKeyPackage keyPackageRef
  | removeKeyPackage keyPackageRef => S.removeKeyPackage keyPackageRef
  | consumeKeyPackage identifier => S.consumeKeyPackage identifier
  | storeWelcome record => S.storeWelcome record
  | fetchPendingWelcomes target consumed => S.fetchPendingWelcomes target consumed
  | deleteExpiredWelcomes threshold => S.deleteExpiredWelcomes threshold
  | storeJoinRequest record => S.storeJoinRequest record
  | fetchPendingJoinRequests groupId consumed => S.fetchPendingJoinRequests groupId consumed
  | fetchManyPendingJoinRequests groupIds consumed =>
    S.fetchManyPendingJoinRequests groupIds consumed
  | deleteExpiredJoinRequests threshold => S.deleteExpiredJoinRequests threshold
  | appendGroupMessage params => S.appendGroupMessage params
  | fetchManyGroupMessages groups => S.fetchManyGroupMessages groups

inductive ServerCall (V : Type) : Type → Type 1 where
  | check (key : String) (now : Int) : ServerCall V Bool
  | storage {α : Type} (op : StorageCall V α) : ServerCall V (Except StorageError α)
  | publishLive (record : GroupMessageRecord) : ServerCall V Unit

/-- The limiter and the storage, each answering one operation at a time. The subscribers
that a live message goes to are no part of this state. -/
def machine (S : CoordinatorStorage V σ) (rateLimiter : RateLimiter L) :
    Machine (ServerCall V) (σ × L) where
  perform op state :=
    match op with
    | .check key now =>
      ((rateLimiter.check key now state.2).1, (state.1, (rateLimiter.check key now state.2).2))
    | .storage op => ((op.perform S state.1).1, ((op.perform S state.1).2, state.2))
    | .publishLive _ => ((), state)

def Handler (V α : Type) : Type 1 := Program (ServerCall V) (Except AdapterError α)

namespace Handler

def program (p : Handler V α) : Program (ServerCall V) (Except AdapterError α) := p

def reply (result : Except AdapterError α) : Handler V α := .done result

def andThen (p : Handler V α) (q : α → Handler V β) : Handler V β :=
  Program.bind p fun result =>
    match result with
    | .error e => .done (.error e)
    | .ok a => q a

instance : Monad (Handler V) where
  pure a := reply (.ok a)
  bind := andThen

def onStorage (op : StorageCall V α) : Handler V α :=
  .call (.storage op) fun result => .done (result.mapError AdapterError.storage)

def publishLive (record : GroupMessageRecord) : Handler V Unit :=
  .call (.publishLive record) fun _ => .done (.ok ())

end Handler

open Handler

variable (A : CoordinatorAdapter V σ L)

def removeEach : List (PublishedKeyPackageRecord V) → Handler V Unit
  | [] => pure ()
  | record::records => do
    let _ ← onStorage (.removeKeyPackage record.keyPackageRef)
    removeEach records

def evictLastResorts (existingLastResort : List (PublishedKeyPackageRecord V)) :
    Handler V Unit :=
  let maxLastResort := A.keyPackageQuota.maxLastResortPerIdentity
  if 0 < maxLastResort ∧ maxLastResort ≤ existingLastResort.length then
    removeEach (existingLastResort.take (existingLastResort.length - maxLastResort + 1))
  else pure ()

def enforceKeyPackageQuota (stablePubkey : String) (incomingIsLastResort : Bool) :
    Handler V Unit := do
  let records ← onStorage (.listKeyPackagesForIdentity stablePubkey)
  let maxPer := A.keyPackageQuota.maxPerIdentity
  let maxLastResort := A.keyPackageQuota.maxLastResortPerIdentity
  if incomingIsLastResort then do
    let existingLastResort := records.filter (fun r => r.isLastResort)
    evictLastResorts A existingLastResort
    let nonLastResortCount := records.length - existingLastResort.length
    if 0 < maxPer ∧ maxPer <
        nonLastResortCount + min existingLastResort.length (maxLastResort-1) + 1 then
      reply (.error .quotaExceeded)
    else pure ()
  else if 0 < maxPer ∧ maxPer ≤ records.length then reply (.error .quotaExceeded)
  else pure ()

def publishKeyPackage (c : Caller) (input : PublishKeyPackageInput)
    (publicationEvent : Option NostrEvent) : Handler V PublishKeyPackageOutput := do
  let admitted ← reply (admission A c.clientPubkey input publicationEvent)
  let parsed := admitted.2.1
  enforceKeyPackageQuota A parsed.credentialIdentity parsed.isLastResort
  let record ← onStorage (.publishKeyPackage ⟨parsed.credentialIdentity, admitted.1,
    input.kpRef, parsed.isLastResort, c.now, eventValue A admitted.2.2⟩)
  pure ⟨record.keyPackageRef, record.isLastResort, record.publishedAt⟩

def consumeKeyPackage (id : String) : Handler V (Option ConsumedKeyPackage) := do
  reply (requireNonEmpty id "id")
  let record ← onStorage (.consumeKeyPackage id)
  match record with
  | none => pure none
  | some r => reply ((consumedKeyPackage A r).map some)

def listAvailableKeyPackages : Handler V (List AvailableKeyPackage) := do
  let records ← onStorage .listAllKeyPackages
  pure (records.map (fun r => ⟨r.stablePubkey, r.keyPackageRef, r.isLastResort, r.publishedAt⟩))

def ownKeyPackage (c : Caller) (kpRef : String) : Handler V Unit := do
  let found ← onStorage (.getKeyPackage kpRef)
  match found with
  | none => reply (.error (.unknownKeyPackageRef kpRef))
  | some record =>
    if record.stablePubkey ≠ c.clientPubkey then
      reply (.error (.unauthorizedKeyPackageRef kpRef))
    else pure ()

def removeLoop (c : Caller) : List String → Handler V (List String)
  | [] => pure []
  | kpRef::kpRefs => do
    ownKeyPackage c kpRef
    let gone ← onStorage (.removeKeyPackage kpRef)
    let removed ← removeLoop c kpRefs
    pure ((gone.map (fun r => r.keyPackageRef)).getD kpRef::removed)

def removeKeyPackages (c : Caller) (kpRefs : List String) : Handler V (List String) := do
  reply (if kpRefs.isEmpty then .error (.invalidInput "kp_refs must be non-empty") else .ok ())
  removeLoop c kpRefs

def fetchPendingWelcomes (c : Caller) (consumed : Option (List ConsumedWelcomeRef)) :
    Handler V (List PendingWelcome) := do
  let records ← onStorage (.fetchPendingWelcomes c.clientPubkey (consumed.getD []))
  pure (records.map (fun r => ⟨r.keyPackageReference, A.externals.b64Encode r.welcomeBytes,
    r.createdAt, r.joinAfterCursor⟩))

def storeWelcome (c : Caller) (input : StoreWelcomeInput) : Handler V Int := do
  reply (requireNonEmpty input.targetPk "target_pk")
  reply (requireNonEmpty input.kpRef "kp_ref")
  reply (requireNonEmpty input.welcome64 "welcome_64")
  match A.externals.b64Decode input.welcome64 with
  | none => reply (.error .invalidWelcome)
  | some welcomeBytes => do
    let record ← onStorage (.storeWelcome
      ⟨input.targetPk, input.kpRef, welcomeBytes, c.now, input.after⟩)
    pure record.createdAt

def storeJoinRequest (c : Caller) (input : StoreJoinRequestInput) : Handler V Int := do
  reply (requireNonEmpty input.gid "gid")
  reply (requireNonEmpty input.kpRef "kp_ref")
  ownKeyPackage c input.kpRef
  let record ← onStorage (.storeJoinRequest ⟨input.gid, c.clientPubkey, input.kpRef, c.now⟩)
  pure record.createdAt

def fetchEachGroup (consumedByGroup : IndexMap String (List ConsumedJoinRequestRef)) :
    List String → Handler V (List JoinRequestRecord)
  | [] => pure []
  | groupId::rest => do
    let out ← onStorage (.fetchPendingJoinRequests groupId (consumedByGroup.bucket groupId))
    let more ← fetchEachGroup consumedByGroup rest
    pure (out ++ more)

/-- In one operation, or one for each group, as the storage locks. -/
def fetchJoinRequests (groupIds : List String) (consumed : List ConsumedJoinRequestWithGroupRef) :
    Handler V (List JoinRequestRecord) :=
  match A.storage.joinRequestLocking with
  | .once => onStorage (.fetchManyPendingJoinRequests groupIds consumed)
  | .perGroup => fetchEachGroup (partitionConsumedJoinRequests consumed) groupIds

def fetchManyPendingJoinRequests (groups : List String)
    (consumed : Option (List ConsumedJoinRequestWithGroupRef)) :
    Handler V (List JoinRequestRecord) := do
  reply (requireGroups groups)
  fetchJoinRequests A groups (consumed.getD [])

def postGroupMessage (c : Caller) (input : PostGroupMessageInput) :
    Handler V PostGroupMessageOutput := do
  reply (requireNonEmpty input.gid "gid")
  reply (requireNonEmpty input.msg64 "msg_64")
  match A.externals.b64Decode input.msg64 with
  | none => reply (.error .invalidMessage)
  | some opaqueMessage => do
    let record ← onStorage (.appendGroupMessage ⟨input.gid, opaqueMessage, c.now⟩)
    publishLive record
    pure ⟨record.cursor, record.groupId, record.createdAt⟩

def fetchManyGroupMessages (groups : List FetchGroupMessagesInput) :
    Handler V (List GroupMessage) := do
  reply (requireGroups groups)
  reply (requirePositiveCursors groups)
  let records ← onStorage (.fetchManyGroupMessages groups)
  pure (records.map (fun r => ⟨r.cursor, r.groupId, A.externals.b64Encode r.opaqueMessage,
    r.createdAt⟩))

def handle (c : Caller) : Request → Handler V Reply
  | .publishKeyPackage input event => do
    let output ← publishKeyPackage A c input event
    pure (.published output)
  | .consumeKeyPackage id => do
    let keyPackage ← consumeKeyPackage A id
    pure (.consumed keyPackage)
  | .listAvailableKeyPackages => do
    let keyPackages ← listAvailableKeyPackages
    pure (.available keyPackages)
  | .removeKeyPackages kpRefs => do
    let removed ← removeKeyPackages c kpRefs
    pure (.removed removed)
  | .fetchPendingWelcomes consumed => do
    let welcomes ← fetchPendingWelcomes A c consumed
    pure (.welcomes welcomes)
  | .storeWelcome input => do
    let createdAt ← storeWelcome A c input
    pure (.storedAt createdAt)
  | .storeJoinRequest input => do
    let createdAt ← storeJoinRequest c input
    pure (.storedAt createdAt)
  | .fetchManyPendingJoinRequests groups consumed => do
    let requests ← fetchManyPendingJoinRequests A groups consumed
    pure (.joinRequests requests)
  | .postGroupMessage input => do
    let output ← postGroupMessage A c input
    pure (.posted output)
  | .fetchManyGroupMessages groups => do
    let messages ← fetchManyGroupMessages A groups
    pure (.messages messages)

inductive Job where
  | call (c : Caller) (request : Request)
  | cleanup (maxAgeMs now : Int)
  deriving DecidableEq, Repr

inductive Outcome where
  | replied (result : Except AdapterError Reply)
  | cleanedUp

def admitted (c : Caller) (request : Request) (passed : Bool) :
    Program (ServerCall V) (Except AdapterError Reply) :=
  if passed then (handle A c request).program else .done (.error .rateLimitExceeded)

def program : Job → Program (ServerCall V) Outcome
  | .call c request =>
    .call (.check c.clientPubkey c.limiterNow) fun passed =>
      admitted A c request passed >>= fun result => .done (.replied result)
  | .cleanup maxAgeMs now =>
    -- failures are passed over
    .call (.storage (.deleteExpiredWelcomes (CoordinatorOps.threshold maxAgeMs now))) fun _ =>
      .call (.storage (.deleteExpiredJoinRequests (CoordinatorOps.threshold maxAgeMs now))) fun _ =>
        .done .cleanedUp

abbrev Pool (V σ L : Type) := Interleaving.Pool Job (ServerCall V) Outcome (σ × L)

abbrev Event := Interleaving.Event Job

def serve (event : Event) (pool : Pool V σ L) : Option (Job × Outcome) × Pool V σ L :=
  Interleaving.serve (machine A.storage A.rateLimiter) (program A) event pool

section Alone

variable {A}

def Runs (A : CoordinatorAdapter V σ L) (p : Handler V α) (q : Call σ α) : Prop :=
  ∀ s l, p.program.alone (machine A.storage A.rateLimiter) (s, l) = ((q s).1, ((q s).2, l))

theorem runs_reply (result : Except AdapterError α) :
    Runs A (reply result) (Call.reply result) := fun _ _ => rfl

theorem runs_storage (op : StorageCall V α) :
    Runs A (Handler.onStorage op) (Call.onStorage (op.perform A.storage)) := by
  intro s l
  simp only [Handler.program, Handler.onStorage, Program.alone, machine, Call.onStorage]
  split
  · rename_i e t h
    rw [h]
    rfl
  · rename_i a t h
    rw [h]
    rfl

theorem Runs.andThen {p : Handler V α} {q : Call σ α} {p' : α → Handler V β} {q' : α → Call σ β}
    (h : Runs A p q) (h' : ∀ a, Runs A (p' a) (q' a)) : Runs A (p >>= p') (q >>= q') := by
  intro s l
  refine (Program.alone_bind (machine A.storage A.rateLimiter) p.program (fun result =>
    match result with
    | .error e => .done (.error e)
    | .ok a => p' a) (s, l)).trans ?_
  rw [h s l]
  cases hq : q s with
  | mk result t =>
    cases result with
    | error e =>
      rw [Adapter.bind_error hq]
      rfl
    | ok a =>
      rw [Adapter.bind_ok hq]
      exact h' a t l

theorem runs_pure (a : α) : Runs A (pure a) (pure a) := runs_reply (.ok a)

theorem runs_published (record : GroupMessageRecord) (a : α) :
    Runs A (publishLive record >>= fun _ => pure a) (pure a) := fun _ _ => rfl

theorem runs_removeEach (records : List (PublishedKeyPackageRecord V)) :
    Runs A (removeEach records) (Adapter.removeEach A records) := by
  induction records with
  | nil => exact runs_pure ()
  | cons record records ih => exact (runs_storage _).andThen fun _ => ih

theorem Runs.ite {passed : Prop} [Decidable passed] {p p' : Handler V α} {q q' : Call σ α}
    (h : Runs A p q) (h' : Runs A p' q') :
    Runs A (if passed then p else p') (if passed then q else q') := by
  split
  · exact h
  · exact h'

theorem runs_evictLastResorts (records : List (PublishedKeyPackageRecord V)) :
    Runs A (evictLastResorts A records) (Adapter.evictLastResorts A records) :=
  (runs_removeEach _).ite (runs_pure ())

theorem runs_enforceKeyPackageQuota (stablePubkey : String) (incoming : Bool) :
    Runs A (enforceKeyPackageQuota A stablePubkey incoming)
      (Adapter.enforceKeyPackageQuota A stablePubkey incoming) := by
  refine (runs_storage _).andThen fun records => ?_
  refine Runs.ite ?_ ((runs_reply _).ite (runs_pure ()))
  exact (runs_evictLastResorts _).andThen fun _ => (runs_reply _).ite (runs_pure ())

theorem runs_ownKeyPackage (c : Caller) (kpRef : String) :
    Runs A (ownKeyPackage c kpRef) (Adapter.ownKeyPackage A c kpRef) := by
  refine (runs_storage _).andThen fun found => ?_
  cases found with
  | none => exact runs_reply _
  | some record => exact (runs_reply _).ite (runs_pure ())

theorem runs_removeLoop (c : Caller) (kpRefs : List String) :
    Runs A (removeLoop c kpRefs) (Adapter.removeLoop A c kpRefs) := by
  induction kpRefs with
  | nil => exact runs_pure []
  | cons kpRef kpRefs ih =>
    exact (runs_ownKeyPackage c kpRef).andThen fun _ => (runs_storage _).andThen fun _ =>
      ih.andThen fun _ => runs_pure _

theorem onStorage_fetchEachGroup (consumedByGroup : IndexMap String (List ConsumedJoinRequestRef))
    (groupId : String) (rest : List String) :
    Call.onStorage (Cordn.fetchEachGroup A.storage.fetchPendingJoinRequests consumedByGroup
        (groupId::rest)) =
      (Call.onStorage (A.storage.fetchPendingJoinRequests groupId
          (consumedByGroup.bucket groupId)) >>= fun out =>
        Call.onStorage (Cordn.fetchEachGroup A.storage.fetchPendingJoinRequests consumedByGroup
          rest) >>= fun more => pure (out ++ more)) := by
  funext s
  cases hout : A.storage.fetchPendingJoinRequests groupId (consumedByGroup.bucket groupId) s with
  | mk result t =>
    cases result with
    | error e =>
      have hfirst : Call.onStorage (A.storage.fetchPendingJoinRequests groupId
          (consumedByGroup.bucket groupId)) s = (.error (.storage e), t) := by
        simp [Call.onStorage, hout]
      rw [Adapter.bind_error hfirst]
      simp [Call.onStorage, Cordn.fetchEachGroup, hout]
    | ok out =>
      have hfirst : Call.onStorage (A.storage.fetchPendingJoinRequests groupId
          (consumedByGroup.bucket groupId)) s = (.ok out, t) := by
        simp [Call.onStorage, hout]
      rw [Adapter.bind_ok hfirst]
      cases hmore : Cordn.fetchEachGroup A.storage.fetchPendingJoinRequests consumedByGroup rest
          t with
      | mk result u =>
        cases result with
        | error e =>
          have hrest : Call.onStorage (Cordn.fetchEachGroup A.storage.fetchPendingJoinRequests
              consumedByGroup rest) t = (.error (.storage e), u) := by
            simp [Call.onStorage, hmore]
          rw [Adapter.bind_error hrest]
          simp [Call.onStorage, Cordn.fetchEachGroup, hout, hmore]
        | ok more =>
          have hrest : Call.onStorage (Cordn.fetchEachGroup A.storage.fetchPendingJoinRequests
              consumedByGroup rest) t = (.ok more, u) := by
            simp [Call.onStorage, hmore]
          rw [Adapter.bind_ok hrest]
          simp only [Call.onStorage, Cordn.fetchEachGroup, hout, hmore]
          rfl

theorem runs_fetchEachGroup (consumedByGroup : IndexMap String (List ConsumedJoinRequestRef))
    (groupIds : List String) : Runs A (fetchEachGroup consumedByGroup groupIds)
      (Call.onStorage (Cordn.fetchEachGroup A.storage.fetchPendingJoinRequests consumedByGroup
        groupIds)) := by
  induction groupIds with
  | nil => exact runs_pure []
  | cons groupId groupIds ih =>
    rw [onStorage_fetchEachGroup]
    exact (runs_storage (.fetchPendingJoinRequests groupId _)).andThen fun _ =>
      ih.andThen fun _ => runs_pure _

theorem runs_fetchJoinRequests (groupIds : List String)
    (consumed : List ConsumedJoinRequestWithGroupRef) :
    Runs A (fetchJoinRequests A groupIds consumed)
      (Call.onStorage (A.storage.fetchManyPendingJoinRequests groupIds consumed)) := by
  rw [fetchJoinRequests]
  cases hlocking : A.storage.joinRequestLocking with
  | once => exact runs_storage (.fetchManyPendingJoinRequests groupIds consumed)
  | perGroup =>
    rw [A.storage.each hlocking]
    exact runs_fetchEachGroup _ groupIds

theorem runs_handle (c : Caller) (request : Request) :
    Runs A (handle A c request) (Adapter.perform A c request) := by
  cases request with
  | publishKeyPackage input event =>
    refine Runs.andThen ?_ fun _ => runs_pure _
    exact (runs_reply _).andThen fun _ => (runs_enforceKeyPackageQuota _ _).andThen fun _ =>
      (runs_storage _).andThen fun _ => runs_pure _
  | consumeKeyPackage id =>
    refine Runs.andThen ?_ fun _ => runs_pure _
    refine (runs_reply _).andThen fun _ => (runs_storage _).andThen fun record => ?_
    cases record with
    | none => exact runs_pure none
    | some r => exact runs_reply _
  | listAvailableKeyPackages =>
    exact ((runs_storage _).andThen fun _ => runs_pure _).andThen fun _ => runs_pure _
  | removeKeyPackages kpRefs =>
    exact ((runs_reply _).andThen fun _ => runs_removeLoop c kpRefs).andThen fun _ => runs_pure _
  | fetchPendingWelcomes consumed =>
    exact ((runs_storage _).andThen fun _ => runs_pure _).andThen fun _ => runs_pure _
  | storeWelcome input =>
    refine Runs.andThen ?_ fun _ => runs_pure _
    refine (runs_reply _).andThen fun _ => (runs_reply _).andThen fun _ =>
      (runs_reply _).andThen fun _ => ?_
    cases A.externals.b64Decode input.welcome64 with
    | none => exact runs_reply _
    | some welcomeBytes => exact (runs_storage _).andThen fun _ => runs_pure _
  | storeJoinRequest input =>
    exact ((runs_reply _).andThen fun _ => (runs_reply _).andThen fun _ =>
      (runs_ownKeyPackage c _).andThen fun _ => (runs_storage _).andThen fun _ =>
        runs_pure _).andThen fun _ => runs_pure _
  | fetchManyPendingJoinRequests groups consumed =>
    exact ((runs_reply _).andThen fun _ => runs_fetchJoinRequests _ _).andThen
      fun _ => runs_pure _
  | postGroupMessage input =>
    refine Runs.andThen ?_ fun _ => runs_pure _
    refine (runs_reply _).andThen fun _ => (runs_reply _).andThen fun _ => ?_
    cases A.externals.b64Decode input.msg64 with
    | none => exact runs_reply _
    | some opaqueMessage => exact (runs_storage _).andThen fun _ => runs_published _ _
  | fetchManyGroupMessages groups =>
    exact ((runs_reply _).andThen fun _ => (runs_reply _).andThen fun _ =>
      (runs_storage _).andThen fun _ => runs_pure _).andThen fun _ => runs_pure _

end Alone

/-- On its own, a job does to the limiter and the storage what the sequential server does. -/
theorem program_alone (job : Job) (state : σ × L) :
    Program.alone (machine A.storage A.rateLimiter) (program A job) state =
      match job with
      | .call c request =>
        (.replied (Adapter.step A (c, request) state).1, (Adapter.step A (c, request) state).2)
      | .cleanup maxAgeMs now =>
        (.cleanedUp, (CoordinatorOps.cleanup A.storage maxAgeMs now state.1, state.2)) := by
  cases job with
  | cleanup maxAgeMs now => rfl
  | call c request =>
    have hlimit : (machine A.storage A.rateLimiter).perform
        (.check c.clientPubkey c.limiterNow) state =
          ((A.rateLimiter.check c.clientPubkey c.limiterNow state.2).1,
            (state.1, (A.rateLimiter.check c.clientPubkey c.limiterNow state.2).2)) := rfl
    dsimp only
    rw [program, Program.alone, hlimit, Adapter.step, withinRateLimit, Program.alone_bind]
    cases hcheck : A.rateLimiter.check c.clientPubkey c.limiterNow state.2 with
    | mk passed l =>
      cases passed with
      | false => rfl
      | true =>
        have hruns := runs_handle (A := A) c request state.1 l
        have hpassed : admitted A c request true = (handle A c request).program := rfl
        rw [hpassed, hruns]
        rfl

end Cordn.Server
