import Cordn.InMemoryQueues
import Cordn.SqliteQueues
import Cordn.StorageFrames

/-!
# The coordinator over its clock

Each call reads the clock when it stamps a record and then performs one storage
operation. A run is a list of calls with the readings they see. Live delivery
leaves the storage as it is, and a multi-group subscription reads it as a
multi-group fetch does.
-/

set_option autoImplicit false

namespace Cordn.CoordinatorOps
open QueueOps (Queues limitedStep limitedStep_noLimit)

variable {V σ : Type}

structure PublishKeyPackageInput (V : Type) where
  stablePubkey : String
  keyPackageBytes : List UInt8
  keyPackageRef : String
  isLastResort : Bool
  publicationEvent : V
  deriving DecidableEq, Repr

structure StoreWelcomeInput where
  targetStablePubkey : String
  keyPackageReference : String
  welcomeBytes : List UInt8
  joinAfterCursor : Option Int
  deriving DecidableEq, Repr

structure StoreJoinRequestInput where
  groupId : String
  requesterStablePubkey : String
  keyPackageRef : String
  deriving DecidableEq, Repr

structure PostGroupMessageInput where
  groupId : String
  opaqueMessage : List UInt8
  deriving DecidableEq, Repr

inductive Op (V : Type) where
  | publishKeyPackage (input : PublishKeyPackageInput V)
  | listKeyPackagesForIdentity (stablePubkey : String)
  | listAllKeyPackages
  | getKeyPackage (keyPackageRef : String)
  | removeKeyPackage (keyPackageRef : String)
  | consumeKeyPackage (identifier : String)
  | storeWelcome (input : StoreWelcomeInput)
  | fetchPendingWelcomes (targetStablePubkey : String) (consumed : List ConsumedWelcomeRef)
  | deleteExpiredWelcomes (maxAgeThreshold : Int)
  | storeJoinRequest (input : StoreJoinRequestInput)
  | fetchPendingJoinRequests (groupId : String) (consumed : List ConsumedJoinRequestRef)
  | fetchManyPendingJoinRequests (groupIds : List String)
      (consumed : List ConsumedJoinRequestWithGroupRef)
  | deleteExpiredJoinRequests (maxAgeThreshold : Int)
  | postGroupMessage (input : PostGroupMessageInput)
  | fetchGroupMessages (groupId : String) (afterCursor : Option Int)
  | fetchManyGroupMessages (groups : List FetchGroupMessagesInput)
  deriving DecidableEq, Repr

structure Event (V : Type) where
  now : Int
  op : Op V
  deriving DecidableEq, Repr

inductive StorageOp (V : Type) where
  | keyPackages (op : KeyPackageOps.Op V)
  | listAllKeyPackages
  | queues (op : QueueOps.Op)
  | messages (op : GroupLogOps.Op)
  deriving DecidableEq, Repr

inductive Answer (V : Type) where
  | keyPackages (answer : KeyPackageOps.Answer V)
  | queues (answer : QueueOps.Answer)
  | messages (answer : GroupLogOps.Answer)

def welcomeRecord (now : Int) (input : StoreWelcomeInput) : WelcomeQueueRecord :=
  ⟨input.targetStablePubkey, input.keyPackageReference, input.welcomeBytes, now,
    input.joinAfterCursor⟩

def joinRequestRecord (now : Int) (input : StoreJoinRequestInput) : JoinRequestRecord :=
  ⟨input.groupId, input.requesterStablePubkey, input.keyPackageRef, now⟩

def Event.request (event : Event V) : StorageOp V :=
  match event.op with
  | .publishKeyPackage input => .keyPackages (.publish ⟨input.stablePubkey,
      input.keyPackageBytes, input.keyPackageRef, input.isLastResort, event.now,
      input.publicationEvent⟩)
  | .listKeyPackagesForIdentity stablePubkey => .keyPackages (.list stablePubkey)
  | .listAllKeyPackages => .listAllKeyPackages
  | .getKeyPackage keyPackageRef => .keyPackages (.get keyPackageRef)
  | .removeKeyPackage keyPackageRef => .keyPackages (.remove keyPackageRef)
  | .consumeKeyPackage identifier => .keyPackages (.consume identifier)
  | .storeWelcome input => .queues (.storeWelcome (welcomeRecord event.now input))
  | .fetchPendingWelcomes target consumed => .queues (.fetchPendingWelcomes target consumed)
  | .deleteExpiredWelcomes threshold => .queues (.deleteExpiredWelcomes threshold)
  | .storeJoinRequest input => .queues (.storeJoinRequest (joinRequestRecord event.now input))
  | .fetchPendingJoinRequests groupId consumed =>
    .queues (.fetchPendingJoinRequests groupId consumed)
  | .fetchManyPendingJoinRequests groupIds consumed =>
    .queues (.fetchManyPendingJoinRequests groupIds consumed)
  | .deleteExpiredJoinRequests threshold => .queues (.deleteExpiredJoinRequests threshold)
  | .postGroupMessage input =>
    .messages (.append ⟨input.groupId, input.opaqueMessage, event.now⟩)
  | .fetchGroupMessages groupId afterCursor => .messages (.fetch groupId afterCursor)
  | .fetchManyGroupMessages groups => .messages (.fetchMany groups)

def perform (S : CoordinatorStorage V σ) : StorageOp V → σ → Answer V × σ
  | .keyPackages op, s => (KeyPackageOps.step S op s).map .keyPackages id
  | .listAllKeyPackages, s => (S.listAllKeyPackages s).map (fun r => .keyPackages (.listed r)) id
  | .queues op, s => (QueueOps.step S op s).map .queues id
  | .messages op, s => (GroupLogOps.step S op s).map .messages id

def step (S : CoordinatorStorage V σ) (event : Event V) (s : σ) : Answer V × σ :=
  perform S event.request s

def threshold (maxAgeMs now : Int) : Int := if 0 < maxAgeMs then wrappingSub now maxAgeMs else 0

/-- One round of the task. The clock is read once and failures are passed over. -/
def cleanup (S : CoordinatorStorage V σ) (maxAgeMs now : Int) (s : σ) : σ :=
  let threshold := threshold maxAgeMs now
  let s := (S.deleteExpiredWelcomes threshold s).2
  (S.deleteExpiredJoinRequests threshold s).2

def Serves (queueLimit logLimit : FetchLimit) : StorageOp V → Prop
  | .queues op => QueueOps.Served queueLimit op
  | .messages op => GroupLogOps.Served logLimit op
  | _ => True

/-- The backend serves the abstract queues up to its limit, and only queue
operations touch them. -/
structure KeepsQueues (S : CoordinatorStorage V σ) (limit : FetchLimit) (R : σ → Queues → Prop) :
    Prop where
  queues : ∀ op s q, R s q → (QueueOps.step S op s).1 = (limitedStep limit op q).1 ∧
    R (QueueOps.step S op s).2 (limitedStep limit op q).2
  keyPackages : ∀ op s q, R s q → R (KeyPackageOps.step S op s).2 q
  listAllKeyPackages : ∀ s q, R s q → R (S.listAllKeyPackages s).2 q
  messages : ∀ op s q, R s q → R (GroupLogOps.step S op s).2 q

def queuesAfter (limit : FetchLimit) : StorageOp V → Queues → Queues
  | .queues op, q => (limitedStep limit op q).2
  | _, q => q

theorem KeepsQueues.perform {S : CoordinatorStorage V σ} {limit : FetchLimit}
    {R : σ → Queues → Prop} (hS : KeepsQueues S limit R) (op : StorageOp V) (s : σ) (q : Queues)
    (h : R s q) : R (perform S op s).2 (queuesAfter limit op q) := by
  cases op with
  | keyPackages op => exact hS.keyPackages op s q h
  | listAllKeyPackages => exact hS.listAllKeyPackages s q h
  | queues op => exact (hS.queues op s q h).2
  | messages op => exact hS.messages op s q h

theorem inMemory_keepsQueues :
    KeepsQueues (InMemory.storage : CoordinatorStorage V (InMemory.InMemoryInner V)) noLimit
      InMemory.HoldsQueues where
  queues op s q h := by
    rw [limitedStep_noLimit]
    exact InMemory.step_holdsQueues op s q h
  keyPackages op s q h := by
    obtain ⟨kept, he⟩ := InMemory.keyPackages_frame op s
    rw [he]
    exact ⟨h.welcomes, h.joinRequests⟩
  listAllKeyPackages s q h := h
  messages op s q h := by
    obtain ⟨groups, he⟩ := InMemory.messages_frame op s
    rw [he]
    exact ⟨h.welcomes, h.joinRequests⟩

theorem sqlite_keepsQueues (json : Sqlite.SerdeJson V) :
    KeepsQueues (Sqlite.storage json) Sqlite.joinRequestLimit Sqlite.HoldsQueues where
  queues op db q h := Sqlite.step_holdsQueues json op db q h
  keyPackages op db q h := by
    obtain ⟨keyPackages, he⟩ := Sqlite.keyPackages_frame json op db
    rw [he]
    exact ⟨h.welcomes, h.joinRequests⟩
  listAllKeyPackages db q h := h
  messages op db q h := by
    obtain ⟨routing, messages, he⟩ := Sqlite.messages_frame json op db
    rw [he]
    exact ⟨h.welcomes, h.joinRequests⟩

theorem holdsQueues_default :
    InMemory.HoldsQueues (InMemory.InMemoryInner.default : InMemory.InMemoryInner V)
      Queues.empty :=
  ⟨IndexMap.Holds.empty _, IndexMap.Holds.empty _⟩

theorem holdsQueues_new : Sqlite.HoldsQueues Sqlite.Database.new Queues.empty := ⟨rfl, rfl⟩

end Cordn.CoordinatorOps
