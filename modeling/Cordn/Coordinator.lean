import Cordn.Storage

/-!
# Live delivery of group messages

The coordinator appends a message under the storage lock and fans it out later
under the registry lock. A multi-group subscription registers, fetches its
backlog without a lock and then replays it. A run interleaves these steps of any
number of calls.
-/

set_option autoImplicit false

namespace Cordn.Coordinator

/-- A subscriber under the registry lock; `sender` is all that was sent so far. -/
structure Subscriber where
  sender : List GroupMessageRecord
  dedup : Bool
  cursorsByGroup : IndexMap String Int
  buffering : Bool
  buffer : List GroupMessageRecord
  deriving DecidableEq

namespace Subscriber

def emitIfNew (sub : Subscriber) (record : GroupMessageRecord) : Subscriber :=
  if !sub.dedup then { sub with sender := sub.sender ++ [record] }
  else
    let last := (sub.cursorsByGroup.get? record.groupId).getD 0
    if last < record.cursor then { sub with
      cursorsByGroup := sub.cursorsByGroup.insert record.groupId record.cursor
      sender := sub.sender ++ [record] }
    else sub

def push (sub : Subscriber) (record : GroupMessageRecord) : Subscriber :=
  if sub.buffering then { sub with buffer := sub.buffer ++ [record] } else sub.emitIfNew record

def replayBacklog (sub : Subscriber) (records : List GroupMessageRecord) : Subscriber :=
  records.foldl emitIfNew sub

def finishBuffering (sub : Subscriber) : Subscriber :=
  sub.buffer.foldl emitIfNew { sub with buffering := false, buffer := [] }

end Subscriber

/-- The sets of subscriber ids are lists without repetition. -/
structure SubscriberRegistry where
  groupSubscribers : IndexMap String (List ℕ)
  subscribers : IndexMap ℕ Subscriber
  refcounts : IndexMap ℕ ℕ
  nextId : ℕ

namespace SubscriberRegistry

def new : SubscriberRegistry := ⟨IndexMap.empty, IndexMap.empty, IndexMap.empty, 1⟩

def enterGroup (id : ℕ) (reg : SubscriberRegistry) (groupId : String) : SubscriberRegistry :=
  { reg with
    groupSubscribers := reg.groupSubscribers.upsert groupId (fun ids => (ids.getD []).insert id)
    refcounts := reg.refcounts.upsert id (fun count => count.getD 0 + 1) }

def registerSubscriber (groupId : String) (subscriber : Subscriber)
    (reg : SubscriberRegistry) : ℕ × SubscriberRegistry :=
  let id := reg.nextId
  (id, enterGroup id { reg with
    nextId := reg.nextId+1, subscribers := reg.subscribers.insert id subscriber } groupId)

def registerMany (groupIds : List String) (subscriber : Subscriber)
    (reg : SubscriberRegistry) : ℕ × SubscriberRegistry :=
  let id := reg.nextId
  (id, groupIds.foldl (enterGroup id) { reg with
    nextId := reg.nextId+1, subscribers := reg.subscribers.insert id subscriber })

def leaveGroup (id : ℕ) (reg : SubscriberRegistry) (groupId : String) : SubscriberRegistry :=
  let groupSubscribers := match reg.groupSubscribers.get? groupId with
    | none => reg.groupSubscribers
    | some ids => reg.groupSubscribers.putBack groupId (ids.filter (fun x => decide (x ≠ id)))
  let refcounts := match reg.refcounts.get? id with
    | none => reg.refcounts
    | some count =>
      if count-1 = 0 then reg.refcounts.shiftRemove id else reg.refcounts.insert id (count-1)
  { reg with groupSubscribers := groupSubscribers, refcounts := refcounts }

def removeSubscriber (id : ℕ) (groupIds : List String) (reg : SubscriberRegistry) :
    SubscriberRegistry :=
  let reg := groupIds.foldl (leaveGroup id) reg
  if (reg.refcounts.get? id).isSome then reg
  else { reg with subscribers := reg.subscribers.shiftRemove id }

def publishLive (record : GroupMessageRecord) (reg : SubscriberRegistry) : SubscriberRegistry :=
  match reg.groupSubscribers.get? record.groupId with
  | none => reg
  | some ids => { reg with
      subscribers := ids.foldl (fun subs id => subs.adjust id (fun sub => sub.push record))
        reg.subscribers }

end SubscriberRegistry

inductive Stage where
  | registered
  | fetched (backlog : List GroupMessageRecord)
  | opened
  deriving DecidableEq, Repr

/-- A subscription from its registration on. The last two fields are history: how
many messages were published when it registered and appended when it fetched. -/
structure Subscription where
  many : Bool
  groups : List FetchGroupMessagesInput
  stage : Stage
  registeredAt : ℕ
  fetchedAt : ℕ
  deriving DecidableEq, Repr

/-- The cursor map of a request: the last `after_cursor` given for a group counts. -/
def cursorsOf (groups : List FetchGroupMessagesInput) : IndexMap String Int :=
  groups.foldl (fun cursors g => cursors.insert g.groupId (g.afterCursor.getD 0)) IndexMap.empty

def Subscription.groupIds (w : Subscription) : List String := (cursorsOf w.groups).keys

/-- The coordinator with its calls in flight: posts that appended and have not
published, subscriptions in set-up and open. `appended` and `published` are
history, in the order of the steps. -/
structure System (σ : Type) where
  storage : σ
  registry : SubscriberRegistry
  posting : List GroupMessageRecord
  subscriptions : IndexMap ℕ Subscription
  appended : List GroupMessageRecord
  published : List GroupMessageRecord

def System.init {σ : Type} (storage : σ) : System σ :=
  ⟨storage, SubscriberRegistry.new, [], IndexMap.empty, [], []⟩

inductive Event where
  | append (params : AppendGroupMessageParams)
  | publishLive (record : GroupMessageRecord)
  | subscribe (groupId : String)
  | register (groups : List FetchGroupMessagesInput)
  | fetchBacklog (id : ℕ)
  | finish (id : ℕ)
  | unsubscribe (id : ℕ)
  deriving DecidableEq, Repr

variable {V σ : Type}

/-- A vector of messages, or a table of them, never holds as many as 2^63-1. -/
def hasRoom (S : CoordinatorStorage V σ) (groupId : String) (s : σ) : Bool :=
  match (S.fetchGroupMessages groupId none s).1 with
  | .ok messages => decide (messages.length+1 < 2^63-1)
  | .error _ => true

def append (S : CoordinatorStorage V σ) (params : AppendGroupMessageParams) (s : System σ) :
    System σ :=
  match S.appendGroupMessage params s.storage with
  | (.error _, storage) => { s with storage := storage }
  | (.ok record, storage) => { s with
      storage := storage, posting := s.posting ++ [record], appended := s.appended ++ [record] }

def publish (record : GroupMessageRecord) (s : System σ) : System σ :=
  { s with
    registry := s.registry.publishLive record
    posting := s.posting.erase record
    published := s.published ++ [record] }

def subscribe (groupId : String) (s : System σ) : System σ :=
  let (id, registry) := s.registry.registerSubscriber groupId ⟨[], false, IndexMap.empty, false, []⟩
  { s with
    registry := registry
    subscriptions := s.subscriptions.insert id
      ⟨false, [⟨groupId, none⟩], .opened, s.published.length, s.appended.length⟩ }

def register (groups : List FetchGroupMessagesInput) (s : System σ) : System σ :=
  let (id, registry) := s.registry.registerMany (cursorsOf groups).keys
    ⟨[], true, cursorsOf groups, true, []⟩
  { s with
    registry := registry
    subscriptions := s.subscriptions.insert id
      ⟨true, groups, .registered, s.published.length, s.appended.length⟩ }

def fetchBacklog (S : CoordinatorStorage V σ) (id : ℕ) (w : Subscription) (s : System σ) :
    System σ :=
  match S.fetchManyGroupMessages w.groups s.storage with
  | (.error _, storage) => { s with
      storage := storage
      registry := s.registry.removeSubscriber id w.groupIds
      subscriptions := s.subscriptions.shiftRemove id }
  | (.ok backlog, storage) => { s with
      storage := storage
      subscriptions := s.subscriptions.insert id
        { w with stage := .fetched backlog, fetchedAt := s.appended.length } }

def finish (id : ℕ) (w : Subscription) (backlog : List GroupMessageRecord) (s : System σ) :
    System σ :=
  let subscribers := s.registry.subscribers.adjust id
    (fun sub => (sub.replayBacklog backlog).finishBuffering)
  { s with
    registry := { s.registry with subscribers := subscribers }
    subscriptions := s.subscriptions.insert id { w with stage := .opened } }

def unsubscribe (id : ℕ) (w : Subscription) (s : System σ) : System σ :=
  { s with
    registry := s.registry.removeSubscriber id w.groupIds
    subscriptions := s.subscriptions.shiftRemove id }

def step (S : CoordinatorStorage V σ) : Event → System σ → Option (System σ)
  | .append params, s =>
    if hasRoom S params.groupId s.storage then some (append S params s) else none
  | .publishLive record, s => if record ∈ s.posting then some (publish record s) else none
  | .subscribe groupId, s => some (subscribe groupId s)
  | .register groups, s => some (register groups s)
  | .fetchBacklog id, s =>
    match s.subscriptions.get? id with
    | none => none
    | some w =>
      match w.stage with
      | .registered => some (fetchBacklog S id w s)
      | _ => none
  | .finish id, s =>
    match s.subscriptions.get? id with
    | none => none
    | some w =>
      match w.stage with
      | .fetched backlog => some (finish id w backlog s)
      | _ => none
  | .unsubscribe id, s =>
    match s.subscriptions.get? id with
    | none => none
    | some w =>
      match w.stage with
      | .opened => some (unsubscribe id w s)
      | _ => none

inductive Takes (S : CoordinatorStorage V σ) (s : System σ) : Event → System σ → Prop where
  | append (params : AppendGroupMessageParams)
      (hroom : hasRoom S params.groupId s.storage = true) :
      Takes S s (.append params) (append S params s)
  | publishLive (record : GroupMessageRecord) (hr : record ∈ s.posting) :
      Takes S s (.publishLive record) (publish record s)
  | subscribe (groupId : String) : Takes S s (.subscribe groupId) (subscribe groupId s)
  | register (groups : List FetchGroupMessagesInput) :
      Takes S s (.register groups) (register groups s)
  | fetchBacklog (id : ℕ) (w : Subscription) (hw : s.subscriptions.get? id = some w)
      (hstage : w.stage = .registered) : Takes S s (.fetchBacklog id) (fetchBacklog S id w s)
  | finish (id : ℕ) (w : Subscription) (backlog : List GroupMessageRecord)
      (hw : s.subscriptions.get? id = some w) (hstage : w.stage = .fetched backlog) :
      Takes S s (.finish id) (finish id w backlog s)
  | unsubscribe (id : ℕ) (w : Subscription) (hw : s.subscriptions.get? id = some w)
      (hstage : w.stage = .opened) : Takes S s (.unsubscribe id) (unsubscribe id w s)

theorem step_takes {S : CoordinatorStorage V σ} {event : Event} {s s' : System σ}
    (h : step S event s = some s') : Takes S s event s' := by
  cases event with
  | append params =>
    simp only [step, Option.ite_none_right_eq_some, Option.some.injEq] at h
    obtain ⟨hroom, rfl⟩ := h
    exact .append params hroom
  | publishLive record =>
    simp only [step, Option.ite_none_right_eq_some, Option.some.injEq] at h
    obtain ⟨hr, rfl⟩ := h
    exact .publishLive record hr
  | subscribe groupId =>
    obtain rfl := Option.some.inj h
    exact .subscribe groupId
  | register groups =>
    obtain rfl := Option.some.inj h
    exact .register groups
  | fetchBacklog id =>
    simp only [step] at h
    split at h
    · simp at h
    · rename_i w hw
      split at h
      · rename_i hstage
        obtain rfl := Option.some.inj h
        exact .fetchBacklog id w hw hstage
      · simp at h
  | finish id =>
    simp only [step] at h
    split at h
    · simp at h
    · rename_i w hw
      split at h
      · rename_i backlog hstage
        obtain rfl := Option.some.inj h
        exact .finish id w backlog hw hstage
      · simp at h
  | unsubscribe id =>
    simp only [step] at h
    split at h
    · simp at h
    · rename_i w hw
      split at h
      · rename_i hstage
        obtain rfl := Option.some.inj h
        exact .unsubscribe id w hw hstage
      · simp at h

def Quiet (s : System σ) : Prop :=
  s.posting = [] ∧ ∀ id w, s.subscriptions.get? id = some w → w.stage = .opened

def channel (s : System σ) (id : ℕ) : List GroupMessageRecord :=
  ((s.registry.subscribers.get? id).map Subscriber.sender).getD []

end Cordn.Coordinator
