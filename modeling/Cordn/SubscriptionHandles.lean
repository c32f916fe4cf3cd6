import Mathlib.Data.List.Dedup
import Cordn.CoordinatorHistory

/-!
# Subscriptions and the handles on them

A subscription call returns a handle, which unsubscribes once and is dropped
some time. The receiving end of a channel outlives its sender. Steps interleave
as before; the storage may be any, and its answers may be errors.
-/

set_option autoImplicit false

namespace Cordn.Coordinator
open IndexMap

/-- The handle; what its receiver was sent is kept in `Clients.received`. -/
structure GroupMessageSubscription where
  subscriberId : ℕ
  groupIds : List String
  unsubscribed : Bool
  deriving DecidableEq, Repr

/-- The coordinator with the handles not yet dropped, by subscriber id, and all
that was put on each channel so far. -/
structure Clients (σ : Type) where
  system : System σ
  handles : IndexMap ℕ GroupMessageSubscription
  received : ℕ → List GroupMessageRecord

inductive Action where
  | append (params : AppendGroupMessageParams)
  | publishLive (record : GroupMessageRecord)
  | subscribe (groupId : String)
  | register (groups : List FetchGroupMessagesInput)
  | fetchBacklog (id : ℕ)
  | finish (id : ℕ)
  | unsubscribe (id : ℕ)
  | drop (id : ℕ)
  deriving DecidableEq, Repr

variable {V σ : Type}

namespace Clients

def init (storage : σ) : Clients σ := ⟨System.init storage, IndexMap.empty, fun _ => []⟩

def advance (c : Clients σ) (s : System σ) : Clients σ :=
  { c with
    system := s
    received := fun id =>
      ((s.registry.subscribers.get? id).map Subscriber.sender).getD (c.received id) }

end Clients

def leave (id : ℕ) (groupIds : List String) (s : System σ) : System σ :=
  { s with
    registry := s.registry.removeSubscriber id groupIds
    subscriptions := s.subscriptions.shiftRemove id }

namespace GroupMessageSubscription

def unsubscribe (handle : GroupMessageSubscription) (c : Clients σ) : Clients σ :=
  if handle.unsubscribed then c
  else { c.advance (leave handle.subscriberId handle.groupIds c.system) with
    handles := c.handles.insert handle.subscriberId { handle with unsubscribed := true } }

def drop (handle : GroupMessageSubscription) (c : Clients σ) : Clients σ :=
  let c := handle.unsubscribe c
  { c with handles := c.handles.shiftRemove handle.subscriberId }

end GroupMessageSubscription

def Clients.issue (c : Clients σ) (id : ℕ) (groupIds : List String) : Clients σ :=
  { c with handles := c.handles.insert id ⟨id, groupIds, false⟩ }

def clientStep (S : CoordinatorStorage V σ) : Action → Clients σ → Option (Clients σ)
  | .append params, c => some (c.advance (append S params c.system))
  | .publishLive record, c =>
    if record ∈ c.system.posting then some (c.advance (publish record c.system)) else none
  | .subscribe groupId, c => some
    ((c.advance (subscribe groupId c.system)).issue c.system.registry.nextId [groupId])
  | .register groups, c => some (c.advance (register groups c.system))
  | .fetchBacklog id, c =>
    match c.system.subscriptions.get? id with
    | none => none
    | some w =>
      match w.stage with
      | .registered => some (c.advance (fetchBacklog S id w c.system))
      | _ => none
  | .finish id, c =>
    match c.system.subscriptions.get? id with
    | none => none
    | some w =>
      match w.stage with
      | .fetched backlog => some ((c.advance (finish id w backlog c.system)).issue id w.groupIds)
      | _ => none
  | .unsubscribe id, c => (c.handles.get? id).map (fun handle => handle.unsubscribe c)
  | .drop id, c => (c.handles.get? id).map (fun handle => handle.drop c)

inductive Acts (S : CoordinatorStorage V σ) (c : Clients σ) : Action → Clients σ → Prop where
  | append (params : AppendGroupMessageParams) :
      Acts S c (.append params) (c.advance (append S params c.system))
  | publishLive (record : GroupMessageRecord) (hr : record ∈ c.system.posting) :
      Acts S c (.publishLive record) (c.advance (publish record c.system))
  | subscribe (groupId : String) : Acts S c (.subscribe groupId)
      ((c.advance (subscribe groupId c.system)).issue c.system.registry.nextId [groupId])
  | register (groups : List FetchGroupMessagesInput) :
      Acts S c (.register groups) (c.advance (register groups c.system))
  | fetchBacklog (id : ℕ) (w : Subscription) (hw : c.system.subscriptions.get? id = some w)
      (hstage : w.stage = .registered) :
      Acts S c (.fetchBacklog id) (c.advance (fetchBacklog S id w c.system))
  | finish (id : ℕ) (w : Subscription) (backlog : List GroupMessageRecord)
      (hw : c.system.subscriptions.get? id = some w) (hstage : w.stage = .fetched backlog) :
      Acts S c (.finish id) ((c.advance (finish id w backlog c.system)).issue id w.groupIds)
  | unsubscribe (id : ℕ) (handle : GroupMessageSubscription)
      (hh : c.handles.get? id = some handle) : Acts S c (.unsubscribe id) (handle.unsubscribe c)
  | drop (id : ℕ) (handle : GroupMessageSubscription) (hh : c.handles.get? id = some handle) :
      Acts S c (.drop id) (handle.drop c)

theorem clientStep_iff (S : CoordinatorStorage V σ) (action : Action) (c c' : Clients σ) :
    clientStep S action c = some c' ↔ Acts S c action c' := by
  constructor
  · intro h
    cases action with
    | append params =>
      obtain rfl := Option.some.inj h
      exact .append params
    | publishLive record =>
      simp only [clientStep, Option.ite_none_right_eq_some, Option.some.injEq] at h
      obtain ⟨hr, rfl⟩ := h
      exact .publishLive record hr
    | subscribe groupId =>
      obtain rfl := Option.some.inj h
      exact .subscribe groupId
    | register groups =>
      obtain rfl := Option.some.inj h
      exact .register groups
    | fetchBacklog id =>
      simp only [clientStep] at h
      split at h
      · simp at h
      · rename_i w hw
        split at h
        · rename_i hstage
          obtain rfl := Option.some.inj h
          exact .fetchBacklog id w hw hstage
        · simp at h
    | finish id =>
      simp only [clientStep] at h
      split at h
      · simp at h
      · rename_i w hw
        split at h
        · rename_i backlog hstage
          obtain rfl := Option.some.inj h
          exact .finish id w backlog hw hstage
        · simp at h
    | unsubscribe id =>
      obtain ⟨handle, hh, rfl⟩ := Option.map_eq_some_iff.mp h
      exact .unsubscribe id handle hh
    | drop id =>
      obtain ⟨handle, hh, rfl⟩ := Option.map_eq_some_iff.mp h
      exact .drop id handle hh
  · intro h
    cases h with
    | append params => rfl
    | publishLive record hr => exact if_pos hr
    | subscribe groupId => rfl
    | register groups => rfl
    | fetchBacklog id w hw hstage => simp only [clientStep, hw, hstage]
    | finish id w backlog hw hstage => simp only [clientStep, hw, hstage]
    | unsubscribe id handle hh => exact Option.map_eq_some_iff.mpr ⟨handle, hh, rfl⟩
    | drop id handle hh => exact Option.map_eq_some_iff.mpr ⟨handle, hh, rfl⟩

/-- The maps tell which subscriptions are live, and no empty set is kept. -/
structure RegistrySound (s : System σ) : Prop where
  registered : Registered s.registry (liveGroups s.subscriptions)
  filled : Filled s.registry.groupSubscribers

theorem RegistrySound.append {s : System σ} (h : RegistrySound s) (S : CoordinatorStorage V σ)
    (params : AppendGroupMessageParams) : RegistrySound (append S params s) := by
  unfold Coordinator.append
  split <;> exact ⟨h.registered, h.filled⟩

theorem RegistrySound.publish {s : System σ} (h : RegistrySound s) (record : GroupMessageRecord) :
    RegistrySound (publish record s) :=
  ⟨(h.registered.publishLive record).1, publishLive_filled record s.registry h.filled⟩

def enter (w : Subscription) (sub : Subscriber) (s : System σ) : System σ :=
  { s with
    registry := (s.registry.registerMany w.groupIds sub).2
    subscriptions := s.subscriptions.insert s.registry.nextId w }

theorem subscribe_eq (groupId : String) (s : System σ) : subscribe groupId s =
    enter ⟨false, [⟨groupId, none⟩], .opened, s.published.length, s.appended.length⟩
      ⟨[], false, IndexMap.empty, false, []⟩ s := rfl

theorem register_eq (groups : List FetchGroupMessagesInput) (s : System σ) : register groups s =
    enter ⟨true, groups, .registered, s.published.length, s.appended.length⟩
      ⟨[], true, cursorsOf groups, true, []⟩ s := rfl

theorem RegistrySound.enter {s : System σ} (h : RegistrySound s) (w : Subscription)
    (sub : Subscriber) : RegistrySound (enter w sub s) where
  registered := by
    change Registered _ (liveGroups (s.subscriptions.insert s.registry.nextId w))
    rw [liveGroups_insert]
    exact (h.registered.registerMany w.groupIds sub).1
  filled := registerMany_filled w.groupIds sub s.registry h.filled

theorem RegistrySound.leave {s : System σ} (h : RegistrySound s) (id : ℕ) (gs : List String)
    (hid : liveGroups s.subscriptions id = some gs) : RegistrySound (leave id gs s) where
  registered := by
    change Registered _ (liveGroups (s.subscriptions.shiftRemove id))
    rw [liveGroups_remove]
    exact (h.registered.removeSubscriber id gs hid).1
  filled := removeSubscriber_filled id gs s.registry h.filled

theorem liveGroups_rewrite (subscriptions : IndexMap ℕ Subscription) (id : ℕ)
    (w w' : Subscription) (hw : subscriptions.get? id = some w)
    (hgroups : w'.groups = w.groups) :
    liveGroups (subscriptions.insert id w') = liveGroups subscriptions := by
  funext x
  simp only [liveGroups, get?_insert]
  split
  · rename_i hx
    rw [hx, hw, Option.map_some, Option.map_some, Subscription.groupIds, Subscription.groupIds,
      hgroups]
  · rfl

theorem fetchBacklog_cases (S : CoordinatorStorage V σ) (id : ℕ) (w : Subscription)
    (s : System σ) :
    (∃ e, (S.fetchManyGroupMessages w.groups s.storage).1 = .error e ∧
      fetchBacklog S id w s = { leave id w.groupIds s with
        storage := (S.fetchManyGroupMessages w.groups s.storage).2 }) ∨
    ∃ backlog, (S.fetchManyGroupMessages w.groups s.storage).1 = .ok backlog ∧
      fetchBacklog S id w s = { s with
        storage := (S.fetchManyGroupMessages w.groups s.storage).2
        subscriptions := s.subscriptions.insert id
          { w with stage := .fetched backlog, fetchedAt := s.appended.length } } := by
  unfold fetchBacklog
  split
  · rename_i e storage heq
    rw [heq]
    exact Or.inl ⟨e, rfl, rfl⟩
  · rename_i backlog storage heq
    rw [heq]
    exact Or.inr ⟨backlog, rfl, rfl⟩

theorem RegistrySound.fetchBacklog {s : System σ} (h : RegistrySound s)
    (S : CoordinatorStorage V σ) (id : ℕ) (w : Subscription)
    (hw : s.subscriptions.get? id = some w) : RegistrySound (fetchBacklog S id w s) := by
  rcases fetchBacklog_cases S id w s with ⟨e, -, hrun⟩ | ⟨backlog, -, hrun⟩
  · have hleft := h.leave id w.groupIds (by rw [liveGroups, hw, Option.map_some])
    rw [hrun]
    exact ⟨hleft.registered, hleft.filled⟩
  · rw [hrun]
    refine ⟨?_, h.filled⟩
    change Registered s.registry (liveGroups (s.subscriptions.insert id _))
    rw [liveGroups_rewrite s.subscriptions id w
      { w with stage := .fetched backlog, fetchedAt := s.appended.length } hw rfl]
    exact h.registered

theorem RegistrySound.finish {s : System σ} (h : RegistrySound s) (id : ℕ) (w : Subscription)
    (backlog : List GroupMessageRecord) (hw : s.subscriptions.get? id = some w) :
    RegistrySound (finish id w backlog s) where
  registered := by
    change Registered _ (liveGroups (s.subscriptions.insert id { w with stage := .opened }))
    rw [liveGroups_rewrite s.subscriptions id w { w with stage := .opened } hw rfl]
    refine h.registered.rewrite (fun x => ?_) rfl rfl rfl
    change ((s.registry.subscribers.adjust id _).get? x).isSome = _
    rw [get?_adjust]
    split
    · rename_i hx
      rw [Option.isSome_map, hx]
    · rfl
  filled := h.filled

/-- The record of a subscription and its handle: an open one is held by a handle that
is not released, a released handle stands for nothing. -/
def BookedAt (id : ℕ) : Option Subscription → Option GroupMessageSubscription → Prop
  | none, none => True
  | none, some handle => handle.subscriberId = id ∧ handle.unsubscribed = true
  | some w, none => w.stage ≠ .opened
  | some w, some handle => handle.subscriberId = id ∧ handle.unsubscribed = false ∧
    w.stage = .opened ∧ handle.groupIds = w.groupIds

structure Sound (c : Clients σ) : Prop where
  registry : RegistrySound c.system
  booked : ∀ id, BookedAt id (c.system.subscriptions.get? id) (c.handles.get? id)
  fresh : ∀ id, (c.handles.get? id).isSome → id < c.system.registry.nextId
  named : ∀ id w, c.system.subscriptions.get? id = some w → w.groups ≠ []
  received : ∀ id sub, c.system.registry.subscribers.get? id = some sub →
    c.received id = sub.sender

theorem Sound.init (storage : σ) : Sound (Clients.init storage) where
  registry := ⟨registered_new, filled_empty⟩
  booked _ := trivial
  fresh id h := by simp [Clients.init] at h
  named id w h := by simp [Clients.init, System.init] at h
  received id sub h := by simp [Clients.init, System.init, SubscriberRegistry.new] at h

theorem Sound.unused {c : Clients σ} (h : Sound c) :
    c.system.subscriptions.get? c.system.registry.nextId = none ∧
      c.handles.get? c.system.registry.nextId = none := by
  constructor
  · cases hw : c.system.subscriptions.get? c.system.registry.nextId with
    | none => rfl
    | some w =>
      have hlt := h.registry.registered.fresh c.system.registry.nextId
        (by rw [liveGroups, hw]; rfl)
      exact absurd hlt (lt_irrefl _)
  · cases hh : c.handles.get? c.system.registry.nextId with
    | none => rfl
    | some handle => exact absurd (h.fresh _ (by rw [hh]; rfl)) (lt_irrefl _)

theorem Sound.change {c : Clients σ} (h : Sound c) (id : ℕ) (s : System σ)
    (handles : IndexMap ℕ GroupMessageSubscription) (hreg : RegistrySound s)
    (hsubs : ∀ x, x ≠ id → s.subscriptions.get? x = c.system.subscriptions.get? x)
    (hhandles : ∀ x, x ≠ id → handles.get? x = c.handles.get? x)
    (hat : BookedAt id (s.subscriptions.get? id) (handles.get? id))
    (hnext : c.system.registry.nextId ≤ s.registry.nextId)
    (hid : id < s.registry.nextId)
    (hnamed : ∀ w, s.subscriptions.get? id = some w → w.groups ≠ []) :
    Sound { c.advance s with handles := handles } where
  registry := hreg
  booked x := by
    by_cases hx : x = id
    · rw [hx]
      exact hat
    · change BookedAt x (s.subscriptions.get? x) (handles.get? x)
      rw [hsubs x hx, hhandles x hx]
      exact h.booked x
  fresh x hsome := by
    by_cases hx : x = id
    · rw [hx]
      exact hid
    · change (handles.get? x).isSome = true at hsome
      rw [hhandles x hx] at hsome
      exact (h.fresh x hsome).trans_le hnext
  named x w hw := by
    by_cases hx : x = id
    · rw [hx] at hw
      exact hnamed w hw
    · exact h.named x w ((hsubs x hx).symm.trans hw)
  received x sub hsub := by
    change s.registry.subscribers.get? x = some sub at hsub
    simp [Clients.advance, hsub]

theorem Sound.keep {c : Clients σ} (h : Sound c) (s : System σ) (hreg : RegistrySound s)
    (hsubs : s.subscriptions = c.system.subscriptions)
    (hnext : s.registry.nextId = c.system.registry.nextId) : Sound (c.advance s) where
  registry := hreg
  booked x := by
    change BookedAt x (s.subscriptions.get? x) (c.handles.get? x)
    rw [hsubs]
    exact h.booked x
  fresh x hsome := by
    change x < s.registry.nextId
    rw [hnext]
    exact h.fresh x hsome
  named x w hw := h.named x w (hsubs ▸ hw)
  received x sub hsub := by
    change s.registry.subscribers.get? x = some sub at hsub
    simp [Clients.advance, hsub]

theorem Sound.lt {c : Clients σ} (h : Sound c) (id : ℕ) (w : Subscription)
    (hw : c.system.subscriptions.get? id = some w) : id < c.system.registry.nextId :=
  h.registry.registered.fresh id (by rw [liveGroups, hw]; rfl)

theorem Sound.enter {c : Clients σ} (h : Sound c) (w : Subscription) (sub : Subscriber)
    (handles : IndexMap ℕ GroupMessageSubscription)
    (hhandles : ∀ x, x ≠ c.system.registry.nextId → handles.get? x = c.handles.get? x)
    (hat : BookedAt c.system.registry.nextId (some w) (handles.get? c.system.registry.nextId))
    (hnamed : w.groups ≠ []) :
    Sound { c.advance (enter w sub c.system) with handles := handles } := by
  have hnext : (Coordinator.enter w sub c.system).registry.nextId =
      c.system.registry.nextId+1 := registerMany_nextId _ _ _
  have hnew : (Coordinator.enter w sub c.system).subscriptions.get? c.system.registry.nextId =
      some w := (get?_insert _ _ _ _).trans (if_pos rfl)
  refine h.change c.system.registry.nextId (Coordinator.enter w sub c.system) handles
    (h.registry.enter w sub) ?_ hhandles ?_ ?_ ?_ ?_
  · exact fun x hx => (get?_insert _ _ _ _).trans (if_neg hx)
  · rw [hnew]
    exact hat
  · exact (Nat.le_succ _).trans hnext.ge
  · exact Nat.lt_of_succ_le hnext.ge
  · intro w' hw'
    obtain rfl := Option.some.inj (hnew.symm.trans hw')
    exact hnamed

theorem Sound.restage {c : Clients σ} (h : Sound c) (id : ℕ) (w w' : Subscription)
    (hw : c.system.subscriptions.get? id = some w) (hgroups : w'.groups = w.groups)
    (s : System σ) (handles : IndexMap ℕ GroupMessageSubscription) (hreg : RegistrySound s)
    (hsubs : s.subscriptions = c.system.subscriptions.insert id w')
    (hnext : s.registry.nextId = c.system.registry.nextId)
    (hhandles : ∀ x, x ≠ id → handles.get? x = c.handles.get? x)
    (hat : BookedAt id (some w') (handles.get? id)) :
    Sound { c.advance s with handles := handles } := by
  have hnew : s.subscriptions.get? id = some w' := by
    rw [hsubs, get?_insert, if_pos rfl]
  refine h.change id s handles hreg ?_ hhandles ?_ hnext.ge ?_ ?_
  · intro x hx
    rw [hsubs, get?_insert, if_neg hx]
  · rw [hnew]
    exact hat
  · rw [hnext]
    exact h.lt id w hw
  · intro w'' hw''
    obtain rfl := Option.some.inj (hnew.symm.trans hw'')
    rw [hgroups]
    exact h.named id w hw

theorem Sound.depart {c : Clients σ} (h : Sound c) (id : ℕ) (w : Subscription)
    (hw : c.system.subscriptions.get? id = some w) (s : System σ)
    (handles : IndexMap ℕ GroupMessageSubscription) (hreg : RegistrySound s)
    (hsubs : s.subscriptions = c.system.subscriptions.shiftRemove id)
    (hnext : s.registry.nextId = c.system.registry.nextId)
    (hhandles : ∀ x, x ≠ id → handles.get? x = c.handles.get? x)
    (hat : BookedAt id none (handles.get? id)) :
    Sound { c.advance s with handles := handles } := by
  have hgone : s.subscriptions.get? id = none := by
    rw [hsubs, get?_shiftRemove, if_pos rfl]
  refine h.change id s handles hreg ?_ hhandles ?_ hnext.ge ?_ ?_
  · intro x hx
    rw [hsubs, get?_shiftRemove, if_neg hx]
  · rw [hgone]
    exact hat
  · rw [hnext]
    exact h.lt id w hw
  · simp [hgone]

theorem Sound.held {c : Clients σ} (h : Sound c) (id : ℕ) (handle : GroupMessageSubscription)
    (hh : c.handles.get? id = some handle) : handle.subscriberId = id ∧
      (handle.unsubscribed = true → c.system.subscriptions.get? id = none) ∧
      (handle.unsubscribed = false →
        ∃ w, c.system.subscriptions.get? id = some w ∧ handle.groupIds = w.groupIds) := by
  have hat := h.booked id
  rw [hh] at hat
  cases hw : c.system.subscriptions.get? id with
  | none =>
    rw [hw] at hat
    exact ⟨hat.1, fun _ => rfl, fun hfalse => by simp [hat.2] at hfalse⟩
  | some w =>
    rw [hw] at hat
    obtain ⟨hid, hfalse, -, hgs⟩ := hat
    exact ⟨hid, fun htrue => by simp [hfalse] at htrue, fun _ => ⟨w, rfl, hgs⟩⟩

theorem Sound.pending {c : Clients σ} (h : Sound c) (id : ℕ) (w : Subscription)
    (hw : c.system.subscriptions.get? id = some w) (hstage : w.stage ≠ .opened) :
    c.handles.get? id = none := by
  have hat := h.booked id
  rw [hw] at hat
  cases hh : c.handles.get? id with
  | none => rfl
  | some handle =>
    rw [hh] at hat
    exact absurd hat.2.2.1 hstage

theorem Sound.unsubscribe {c : Clients σ} (h : Sound c) (id : ℕ)
    (handle : GroupMessageSubscription) (hh : c.handles.get? id = some handle) :
    Sound (handle.unsubscribe c) := by
  obtain ⟨rfl, -, hopen⟩ := h.held id handle hh
  rw [GroupMessageSubscription.unsubscribe]
  split
  · exact h
  · rename_i hfalse
    obtain ⟨w, hw, hgs⟩ := hopen (Bool.eq_false_iff.mpr hfalse)
    refine h.depart handle.subscriberId w hw (leave handle.subscriberId handle.groupIds c.system)
      _ ?_ rfl (removeSubscriber_nextId _ _ _)
      (fun x hx => (get?_insert _ _ _ _).trans (if_neg hx)) ?_
    · exact h.registry.leave _ _ (by rw [liveGroups, hw, Option.map_some, hgs])
    · rw [get?_insert, if_pos rfl]
      exact ⟨rfl, rfl⟩

theorem unsubscribe_released {c : Clients σ} (h : Sound c) (id : ℕ)
    (handle : GroupMessageSubscription) (hh : c.handles.get? id = some handle) :
    (handle.unsubscribe c).system.subscriptions.get? id = none ∧
      ∃ handle', (handle.unsubscribe c).handles.get? id = some handle' ∧
        handle'.unsubscribed = true := by
  obtain ⟨rfl, hclosed, -⟩ := h.held id handle hh
  rw [GroupMessageSubscription.unsubscribe]
  split
  · rename_i htrue
    exact ⟨hclosed htrue, handle, hh, htrue⟩
  · exact ⟨(get?_shiftRemove _ _ _).trans (if_pos rfl), _,
      (get?_insert _ _ _ _).trans (if_pos rfl), rfl⟩

theorem Sound.forget {c : Clients σ} (h : Sound c) (id : ℕ)
    (hgone : c.system.subscriptions.get? id = none) :
    Sound { c with handles := c.handles.shiftRemove id } where
  registry := h.registry
  booked x := by
    change BookedAt x (c.system.subscriptions.get? x) ((c.handles.shiftRemove id).get? x)
    rw [get?_shiftRemove]
    split
    · rename_i hx
      rw [hx, hgone]
      trivial
    · exact h.booked x
  fresh x hsome := by
    change ((c.handles.shiftRemove id).get? x).isSome = true at hsome
    rw [get?_shiftRemove] at hsome
    split at hsome
    · simp at hsome
    · exact h.fresh x hsome
  named := h.named
  received := h.received

def NamesGroup : Action → Prop
  | .register groups => groups ≠ []
  | _ => True

theorem act_sound {S : CoordinatorStorage V σ} (action : Action) (c c' : Clients σ) (h : Sound c)
    (hok : NamesGroup action) (hact : Acts S c action c') : Sound c' := by
  cases hact with
  | append params =>
    apply h.keep _ (h.registry.append S params)
    · unfold append
      split <;> rfl
    · unfold append
      split <;> rfl
  | publishLive record hr =>
    exact h.keep _ (h.registry.publish record) rfl (publishLive_nextId _ _)
  | subscribe groupId =>
    refine h.enter ⟨false, [⟨groupId, none⟩], .opened, c.system.published.length,
      c.system.appended.length⟩ ⟨[], false, IndexMap.empty, false, []⟩ _
      (fun x hx => (get?_insert _ _ _ _).trans (if_neg hx)) ?_ (by simp)
    rw [get?_insert, if_pos rfl]
    exact ⟨rfl, rfl, rfl, rfl⟩
  | register groups =>
    refine h.enter ⟨true, groups, .registered, c.system.published.length,
      c.system.appended.length⟩ ⟨[], true, cursorsOf groups, true, []⟩ c.handles
      (fun _ _ => rfl) ?_ hok
    rw [h.unused.2]
    simp [BookedAt]
  | fetchBacklog id w hw hstage =>
    have hunheld := h.pending id w hw (by simp [hstage])
    have hreg := h.registry.fetchBacklog S id w hw
    rcases fetchBacklog_cases S id w c.system with ⟨e, -, hrun⟩ | ⟨backlog, -, hrun⟩
    · refine h.depart id w hw (fetchBacklog S id w c.system) c.handles hreg ?_ ?_
        (fun _ _ => rfl) ?_
      · rw [hrun]
        rfl
      · rw [hrun]
        exact removeSubscriber_nextId _ _ _
      · rw [hunheld]
        trivial
    · refine h.restage id w
        { w with stage := .fetched backlog, fetchedAt := c.system.appended.length } hw rfl
        (fetchBacklog S id w c.system) c.handles hreg ?_ ?_ (fun _ _ => rfl) ?_
      · rw [hrun]
      · rw [hrun]
      · rw [hunheld]
        simp [BookedAt]
  | finish id w backlog hw hstage =>
    refine h.restage id w { w with stage := .opened } hw rfl (finish id w backlog c.system) _
      (h.registry.finish id w backlog hw) rfl rfl
      (fun x hx => (get?_insert _ _ _ _).trans (if_neg hx)) ?_
    rw [get?_insert, if_pos rfl]
    exact ⟨rfl, rfl, rfl, rfl⟩
  | unsubscribe id handle hh => exact h.unsubscribe id handle hh
  | drop id handle hh =>
    obtain ⟨rfl, -, -⟩ := h.held id handle hh
    exact (h.unsubscribe _ handle hh).forget _ (unsubscribe_released h _ handle hh).1

end Cordn.Coordinator
