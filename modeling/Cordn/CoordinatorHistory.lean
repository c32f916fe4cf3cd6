import Cordn.CoordinatorRegistry
import Cordn.GroupLogParity
import Cordn.Lib.Watermark

/-!
# Subscribers as functions of the history

In every interleaving a subscriber's state is told by three things: the request,
the messages stored when its backlog was fetched, and the messages published to
its groups since it registered. What is on its channel is the backlog and these
messages in the order of their publishing, each group filtered by its watermark.
-/

set_option autoImplicit false

namespace Cordn.Coordinator
open IndexMap Watermark GroupLogOps

def startOf (groups : List FetchGroupMessagesInput) (g : String) : Int :=
  ((cursorsOf groups).get? g).getD 0

def storedFor (records : List GroupMessageRecord) (groups : List FetchGroupMessagesInput) :
    List GroupMessageRecord :=
  groups.flatMap (fun g => (DenseLog.part GroupMessageRecord.groupId g.groupId records).filter
    (above g.afterCursor))

abbrev passed (groups : List FetchGroupMessagesInput) (records : List GroupMessageRecord) :
    List GroupMessageRecord :=
  passing GroupMessageRecord.groupId GroupMessageRecord.cursor (startOf groups) records

abbrev reached (groups : List FetchGroupMessagesInput) (records : List GroupMessageRecord) :
    String → Int :=
  marks GroupMessageRecord.groupId GroupMessageRecord.cursor (startOf groups) records

def Subscriber.cursorOf (sub : Subscriber) (g : String) : Int :=
  (sub.cursorsByGroup.get? g).getD 0

theorem emitIfNew_cursorOf (sub : Subscriber) (r : GroupMessageRecord) (h : sub.dedup = true) :
    (sub.emitIfNew r).cursorOf =
      raise GroupMessageRecord.groupId GroupMessageRecord.cursor sub.cursorOf r := by
  funext g
  simp only [Subscriber.emitIfNew, h, Bool.not_true, Bool.false_eq_true, if_false, raise,
    Subscriber.cursorOf]
  by_cases hlt : (sub.cursorsByGroup.get? r.groupId).getD 0 < r.cursor
  · by_cases hg : g = r.groupId <;> simp [hlt, hg]
  · simp [hlt]

theorem emitIfNew_sender (sub : Subscriber) (r : GroupMessageRecord) (h : sub.dedup = true) :
    (sub.emitIfNew r).sender =
      sub.sender ++ if sub.cursorOf r.groupId < r.cursor then [r] else [] := by
  simp only [Subscriber.emitIfNew, h, Bool.not_true, Bool.false_eq_true, if_false,
    Subscriber.cursorOf]
  by_cases hlt : (sub.cursorsByGroup.get? r.groupId).getD 0 < r.cursor <;> simp [hlt]

theorem emitIfNew_rest (sub : Subscriber) (r : GroupMessageRecord) :
    (sub.emitIfNew r).dedup = sub.dedup ∧ (sub.emitIfNew r).buffering = sub.buffering ∧
      (sub.emitIfNew r).buffer = sub.buffer := by
  unfold Subscriber.emitIfNew
  split
  · exact ⟨rfl, rfl, rfl⟩
  · dsimp only
    split <;> exact ⟨rfl, rfl, rfl⟩

theorem emitAll (records : List GroupMessageRecord) (sub : Subscriber) (h : sub.dedup = true) :
    (records.foldl Subscriber.emitIfNew sub).sender =
        sub.sender ++ passing GroupMessageRecord.groupId GroupMessageRecord.cursor
          sub.cursorOf records ∧
      (records.foldl Subscriber.emitIfNew sub).cursorOf =
        marks GroupMessageRecord.groupId GroupMessageRecord.cursor sub.cursorOf records ∧
      (records.foldl Subscriber.emitIfNew sub).dedup = true ∧
      (records.foldl Subscriber.emitIfNew sub).buffering = sub.buffering ∧
      (records.foldl Subscriber.emitIfNew sub).buffer = sub.buffer := by
  induction records generalizing sub with
  | nil => simp [passing, h]
  | cons r records ih =>
    obtain ⟨hdedup, hbuffering, hbuffer⟩ := emitIfNew_rest sub r
    obtain ⟨hs, hc, hd, hbg, hb⟩ := ih (sub.emitIfNew r) (hdedup.trans h)
    rw [List.foldl_cons]
    refine ⟨?_, ?_, hd, hbg.trans hbuffering, hb.trans hbuffer⟩
    · rw [hs, emitIfNew_sender sub r h, emitIfNew_cursorOf sub r h, passing]
      split <;> simp
    · rw [hc, emitIfNew_cursorOf sub r h, marks_cons]

structure Tails (live : List GroupMessageRecord) (sub : Subscriber) : Prop where
  dedup : sub.dedup = false
  buffering : sub.buffering = false
  sender : sub.sender = live

/-- A multi-group subscriber in set-up holds the live messages back. -/
structure Waits (groups : List FetchGroupMessagesInput) (live : List GroupMessageRecord)
    (sub : Subscriber) : Prop where
  dedup : sub.dedup = true
  buffering : sub.buffering = true
  sender : sub.sender = []
  cursors : sub.cursorOf = startOf groups
  buffer : sub.buffer = live

/-- A multi-group subscriber has been through a stream. -/
structure Delivers (groups : List FetchGroupMessagesInput) (stream : List GroupMessageRecord)
    (sub : Subscriber) : Prop where
  dedup : sub.dedup = true
  buffering : sub.buffering = false
  sender : sub.sender = passed groups stream
  cursors : sub.cursorOf = reached groups stream

def Tracks (backlog live : List GroupMessageRecord) (w : Subscription) (sub : Subscriber) : Prop :=
  match w.many, w.stage with
  | false, stage => stage = .opened ∧ Tails live sub
  | true, .registered => Waits w.groups live sub
  | true, .fetched b => b = backlog ∧ Waits w.groups live sub
  | true, .opened => Delivers w.groups (backlog ++ live) sub

theorem Tails.push {live : List GroupMessageRecord} {sub : Subscriber} (h : Tails live sub)
    (r : GroupMessageRecord) : Tails (live ++ [r]) (sub.push r) := by
  have hpush : sub.push r = { sub with sender := sub.sender ++ [r] } := by
    simp [Subscriber.push, Subscriber.emitIfNew, h.dedup, h.buffering]
  rw [hpush]
  exact ⟨h.dedup, h.buffering, by simp [h.sender]⟩

theorem Waits.push {groups : List FetchGroupMessagesInput} {live : List GroupMessageRecord}
    {sub : Subscriber} (h : Waits groups live sub) (r : GroupMessageRecord) :
    Waits groups (live ++ [r]) (sub.push r) := by
  have hpush : sub.push r = { sub with buffer := sub.buffer ++ [r] } := by
    simp [Subscriber.push, h.buffering]
  rw [hpush]
  exact ⟨h.dedup, h.buffering, h.sender, h.cursors, by simp [h.buffer]⟩

theorem Delivers.push {groups : List FetchGroupMessagesInput} {stream : List GroupMessageRecord}
    {sub : Subscriber} (h : Delivers groups stream sub) (r : GroupMessageRecord) :
    Delivers groups (stream ++ [r]) (sub.push r) := by
  have hpush : sub.push r = [r].foldl Subscriber.emitIfNew sub := by
    simp [Subscriber.push, h.buffering]
  obtain ⟨hs, hc, hd, hbg, -⟩ := emitAll [r] sub h.dedup
  rw [hpush]
  refine ⟨hd, hbg.trans h.buffering, ?_, ?_⟩
  · rw [hs, h.sender, h.cursors, ← passing_append]
  · rw [hc, h.cursors, ← marks_append]

theorem Waits.finish {groups : List FetchGroupMessagesInput} {live : List GroupMessageRecord}
    {sub : Subscriber} (h : Waits groups live sub) (backlog : List GroupMessageRecord) :
    Delivers groups (backlog ++ live) (sub.replayBacklog backlog).finishBuffering := by
  obtain ⟨hs, hc, hd, -, hb⟩ := emitAll backlog sub h.dedup
  let resumed : Subscriber :=
    { sub.replayBacklog backlog with buffering := false, buffer := [] }
  obtain ⟨hs', hc', hd', hbg', -⟩ := emitAll live resumed hd
  have hfinish : (sub.replayBacklog backlog).finishBuffering =
      live.foldl Subscriber.emitIfNew resumed := by
    rw [Subscriber.finishBuffering, Subscriber.replayBacklog, hb, h.buffer]
    rfl
  rw [h.cursors] at hs hc
  rw [h.sender, List.nil_append] at hs
  have hsender : resumed.sender = passed groups backlog := hs
  have hcursor : resumed.cursorOf = reached groups backlog := hc
  rw [hfinish]
  refine ⟨hd', hbg', ?_, ?_⟩
  · rw [hs', hsender, hcursor, ← passing_append]
  · rw [hc', hcursor, ← marks_append]

theorem Tracks.push {backlog live : List GroupMessageRecord} {w : Subscription} {sub : Subscriber}
    (h : Tracks backlog live w sub) (r : GroupMessageRecord) :
    Tracks backlog (live ++ [r]) w (sub.push r) := by
  unfold Tracks at h ⊢
  split at h
  · exact ⟨h.1, h.2.push r⟩
  · exact h.push r
  · exact ⟨h.1, h.2.push r⟩
  · rw [← List.append_assoc]
    exact h.push r

variable {V σ : Type}

/-- What was published to the subscription's groups since it registered. -/
def liveOf (published : List GroupMessageRecord) (w : Subscription) : List GroupMessageRecord :=
  (published.drop w.registeredAt).filter (fun r => decide (r.groupId ∈ w.groupIds))

/-- What the request asks for of the messages stored at the backlog fetch. -/
def backlogOf (appended : List GroupMessageRecord) (w : Subscription) :
    List GroupMessageRecord :=
  storedFor (appended.take w.fetchedAt) w.groups

structure Follows (s : System σ) (w : Subscription) (sub : Subscriber) : Prop where
  registeredAt : w.registeredAt ≤ s.published.length
  fetchedAt : w.fetchedAt ≤ s.appended.length
  order : w.registeredAt ≤ w.fetchedAt
  tracks : Tracks (backlogOf s.appended w) (liveOf s.published w) w sub

def liveGroups (subscriptions : IndexMap ℕ Subscription) (id : ℕ) : Option (List String) :=
  (subscriptions.get? id).map Subscription.groupIds

structure Consistent (R : σ → MessageLog → Prop) (s : System σ) : Prop where
  log : ∃ log, R s.storage log ∧ log.records = s.appended
  /-- Every appended message is published or still in flight. -/
  partition : s.appended.Perm (s.published ++ s.posting)
  registry : Registered s.registry (liveGroups s.subscriptions)
  subscribers : ∀ id w, s.subscriptions.get? id = some w →
    ∃ sub, s.registry.subscribers.get? id = some sub ∧ Follows s w sub

theorem Consistent.init {R : σ → MessageLog → Prop} (storage : σ)
    (h : R storage MessageLog.empty) : Consistent R (System.init storage) where
  log := ⟨_, h, rfl⟩
  partition := List.Perm.refl _
  registry := registered_new
  subscribers id w hw := by simp [System.init] at hw

theorem Consistent.published_le {R : σ → MessageLog → Prop} {s : System σ} (h : Consistent R s) :
    s.published.length ≤ s.appended.length := by
  rw [h.partition.length_eq, List.length_append]
  exact Nat.le_add_right _ _

theorem Follows.frame {s s' : System σ} {w : Subscription} {sub : Subscriber}
    (h : Follows s w sub) (hp : s'.published = s.published) (ha : s'.appended = s.appended) :
    Follows s' w sub := by
  obtain ⟨hr, hf, ho, ht⟩ := h
  exact ⟨hp ▸ hr, ha ▸ hf, ho, hp ▸ ha ▸ ht⟩

theorem Follows.append {s s' : System σ} {w : Subscription} {sub : Subscriber}
    (h : Follows s w sub) (r : GroupMessageRecord) (hp : s'.published = s.published)
    (ha : s'.appended = s.appended ++ [r]) : Follows s' w sub := by
  have htake : s'.appended.take w.fetchedAt = s.appended.take w.fetchedAt := by
    rw [ha, List.take_append_of_le_length h.fetchedAt]
  refine ⟨hp ▸ h.registeredAt, ?_, h.order, ?_⟩
  · rw [ha, List.length_append]
    exact Nat.le_add_right_of_le h.fetchedAt
  · rw [backlogOf, htake, hp]
    exact h.tracks

theorem Follows.publish {s s' : System σ} {w : Subscription} {sub : Subscriber}
    (h : Follows s w sub) (r : GroupMessageRecord) (hp : s'.published = s.published ++ [r])
    (ha : s'.appended = s.appended) :
    Follows s' w (if r.groupId ∈ w.groupIds then sub.push r else sub) := by
  have hlive : liveOf s'.published w =
      liveOf s.published w ++ if r.groupId ∈ w.groupIds then [r] else [] := by
    rw [liveOf, hp, List.drop_append_of_le_length h.registeredAt, List.filter_append, liveOf]
    by_cases hg : r.groupId ∈ w.groupIds <;> simp [hg]
  refine ⟨?_, ha ▸ h.fetchedAt, h.order, ?_⟩
  · rw [hp, List.length_append]
    exact Nat.le_add_right_of_le h.registeredAt
  · rw [hlive, ha]
    split
    · exact h.tracks.push r
    · rw [List.append_nil]
      exact h.tracks

section Steps

variable {S : CoordinatorStorage V σ}
  {limit : FetchLimit} {R : σ → MessageLog → Prop} (hS : KeepsLog S limit R)
include hS

theorem fetch_eq_part {storage : σ} {log : MessageLog} (hR : R storage log) (groupId : String)
    (afterCursor : Option Int) : (S.fetchGroupMessages groupId afterCursor storage).1 =
      .ok ((DenseLog.part GroupMessageRecord.groupId groupId log.records).filter
        (above afterCursor)) := by
  obtain ⟨hres, -⟩ := hS.step (.fetch groupId afterCursor) storage log hR trivial
  exact Answer.fetched.inj hres

theorem fetch_all {storage : σ} {log : MessageLog} (hR : R storage log) (groupId : String) :
    (S.fetchGroupMessages groupId none storage).1 =
      .ok (DenseLog.part GroupMessageRecord.groupId groupId log.records) := by
  rw [fetch_eq_part hS hR]
  exact congrArg Except.ok (List.filter_eq_self.mpr (fun _ _ => rfl))

theorem room_of_hasRoom {storage : σ} {log : MessageLog} (hR : R storage log)
    (params : AppendGroupMessageParams) (h : hasRoom S params.groupId storage = true) :
    Room (.append params) log := by
  simp only [hasRoom, fetch_all hS hR, decide_eq_true_eq] at h
  simp only [Room, MessageLog.count, MessageLog.messages]
  omega

theorem append_eq {s : System σ} (h : Consistent R s) (params : AppendGroupMessageParams)
    (hroom : hasRoom S params.groupId s.storage = true) :
    ∃ (log : MessageLog) (storage : σ), log.records = s.appended ∧ R storage (log.append params) ∧
      append S params s = { s with
        storage := storage
        posting := s.posting ++ [log.next params]
        appended := s.appended ++ [log.next params] } := by
  obtain ⟨log, hR, hlog⟩ := h.log
  obtain ⟨hres, hnext⟩ := hS.step (.append params) s.storage log hR
    (room_of_hasRoom hS hR params hroom)
  have hok : S.appendGroupMessage params s.storage =
      (.ok (log.next params), (S.appendGroupMessage params s.storage).2) :=
    Prod.ext (Answer.appended.inj hres) rfl
  refine ⟨log, _, hlog, hnext, ?_⟩
  unfold append
  split
  · rename_i heq
    rw [hok] at heq
    simp at heq
  · rename_i heq
    rw [hok] at heq
    obtain ⟨h1, h2⟩ := Prod.mk.inj heq
    rw [← Except.ok.inj h1, ← h2]
    rfl

theorem append_consistent {s : System σ} (h : Consistent R s) (params : AppendGroupMessageParams)
    (hroom : hasRoom S params.groupId s.storage = true) : Consistent R (append S params s) := by
  obtain ⟨log, storage, hlog, hnext, hrun⟩ := append_eq hS h params hroom
  rw [hrun]
  constructor
  · exact ⟨log.append params, hnext, congrArg (fun l => l ++ [log.next params]) hlog⟩
  · rw [← List.append_assoc]
    exact h.partition.append_right _
  · exact h.registry
  · intro id w hw
    obtain ⟨sub, hsub, hf⟩ := h.subscribers id w hw
    exact ⟨sub, hsub, hf.append (log.next params) rfl rfl⟩

omit hS in
theorem publish_consistent {s : System σ} (h : Consistent R s) (r : GroupMessageRecord)
    (hr : r ∈ s.posting) : Consistent R (publish r s) := by
  obtain ⟨hreg, hpush⟩ := h.registry.publishLive r
  constructor
  · exact h.log
  · refine h.partition.trans ?_
    change (s.published ++ s.posting).Perm (s.published ++ [r] ++ s.posting.erase r)
    rw [List.append_assoc]
    exact (List.perm_cons_erase hr).append_left _
  · exact hreg
  · intro id w hw
    obtain ⟨sub, hsub, hf⟩ := h.subscribers id w hw
    refine ⟨_, ?_, hf.publish r rfl rfl⟩
    change (s.registry.publishLive r).subscribers.get? id = _
    rw [hpush id w.groupIds (by rw [liveGroups, show s.subscriptions.get? id = some w from hw,
      Option.map_some]), hsub, Option.map_some]

omit hS in
theorem liveGroups_insert (subscriptions : IndexMap ℕ Subscription) (id : ℕ)
    (w : Subscription) : liveGroups (subscriptions.insert id w) =
      relive (liveGroups subscriptions) id (some w.groupIds) := by
  funext x
  simp only [liveGroups, relive, get?_insert]
  split <;> rfl

omit hS in
theorem liveGroups_remove (subscriptions : IndexMap ℕ Subscription) (id : ℕ) :
    liveGroups (subscriptions.shiftRemove id) = relive (liveGroups subscriptions) id none := by
  funext x
  simp only [liveGroups, relive, get?_shiftRemove]
  split <;> rfl

omit hS in
theorem register_consistent {s : System σ} (h : Consistent R s) (w : Subscription)
    (sub : Subscriber) (hr : w.registeredAt = s.published.length)
    (hf : w.fetchedAt = s.appended.length)
    (ht : ∀ backlog, Tracks backlog [] w sub) :
    Consistent R { s with
      registry := (s.registry.registerMany w.groupIds sub).2
      subscriptions := s.subscriptions.insert s.registry.nextId w } := by
  obtain ⟨hreg, hnew, -, hget⟩ := h.registry.registerMany w.groupIds sub
  have hfollows : Follows s w sub := by
    refine ⟨hr.le, hf.le, ?_, ?_⟩
    · rw [hr, hf]
      exact h.published_le
    · rw [liveOf, hr, List.drop_length, List.filter_nil]
      exact ht _
  constructor
  · exact h.log
  · exact h.partition
  · change Registered _ (liveGroups (s.subscriptions.insert s.registry.nextId w))
    rw [liveGroups_insert]
    exact hreg
  · intro id w' hw'
    change (s.subscriptions.insert s.registry.nextId w).get? id = some w' at hw'
    rw [get?_insert] at hw'
    change ∃ sub', (s.registry.registerMany w.groupIds sub).2.subscribers.get? id = _ ∧ _
    rw [hget]
    split at hw'
    · rename_i hid
      obtain rfl := Option.some.inj hw'
      exact ⟨sub, if_pos hid, hfollows.frame rfl rfl⟩
    · rename_i hid
      obtain ⟨sub', hsub', hf'⟩ := h.subscribers id w' hw'
      exact ⟨sub', by rw [if_neg hid, hsub'], hf'.frame rfl rfl⟩

omit hS in
theorem rewrite_consistent {s s' : System σ} (h : Consistent R s) (id : ℕ) (w w' : Subscription)
    (hw : s.subscriptions.get? id = some w) (hgroups : w'.groupIds = w.groupIds)
    (hlog : ∃ log, R s'.storage log ∧ MessageLog.records log = s'.appended)
    (hreg : s'.registry.groupSubscribers = s.registry.groupSubscribers ∧
      s'.registry.refcounts = s.registry.refcounts ∧ s'.registry.nextId = s.registry.nextId)
    (hsubs : s'.subscriptions = s.subscriptions.insert id w')
    (hhistory : s'.posting = s.posting ∧ s'.published = s.published ∧ s'.appended = s.appended)
    (f : Subscriber → Subscriber)
    (hget : ∀ x, s'.registry.subscribers.get? x =
      if x = id then (s.registry.subscribers.get? id).map f else s.registry.subscribers.get? x)
    (hfollows : ∀ sub, Follows s w sub → Follows s w' (f sub)) : Consistent R s' := by
  obtain ⟨hgs, hcounts, hnext⟩ := hreg
  obtain ⟨hposting, hpublished, happended⟩ := hhistory
  have hlive : liveGroups s'.subscriptions = liveGroups s.subscriptions := by
    funext x
    simp only [liveGroups, hsubs, get?_insert]
    split
    · rename_i hx
      rw [hx, hw, Option.map_some, Option.map_some, hgroups]
    · rfl
  constructor
  · exact hlog
  · rw [hposting, hpublished, happended]
    exact h.partition
  · rw [hlive]
    refine h.registry.rewrite (fun x => ?_) hgs hcounts hnext
    rw [hget]
    split
    · rename_i hx
      rw [Option.isSome_map, hx]
    · rfl
  · intro x wx hwx
    rw [hsubs, get?_insert] at hwx
    rw [hget]
    split at hwx
    · rename_i hx
      obtain rfl := Option.some.inj hwx
      obtain ⟨sub, hsub, hf⟩ := h.subscribers id w hw
      exact ⟨f sub, by rw [if_pos hx, hsub, Option.map_some],
        (hfollows sub hf).frame hpublished happended⟩
    · rename_i hx
      obtain ⟨sub, hsub, hf⟩ := h.subscribers x wx hwx
      exact ⟨sub, by rw [if_neg hx, hsub], hf.frame hpublished happended⟩

theorem fetchBacklog_eq {s : System σ} (h : Consistent R s) (id : ℕ) (w : Subscription) :
    ∃ storage, (∃ log, R storage log ∧ MessageLog.records log = s.appended) ∧
      (limit w.groups.length = none ∧ fetchBacklog S id w s = { s with
          storage := storage
          subscriptions := s.subscriptions.insert id
            { w with stage := .fetched (storedFor s.appended w.groups)
                     fetchedAt := s.appended.length } } ∨
        limit w.groups.length ≠ none ∧
          fetchBacklog S id w s = { unsubscribe id w s with storage := storage }) := by
  obtain ⟨log, hR, hlog⟩ := h.log
  obtain ⟨hres, hnext⟩ := hS.step (.fetchMany w.groups) s.storage log hR trivial
  refine ⟨_, ⟨log, hnext, hlog⟩, ?_⟩
  change Answer.fetched (S.fetchManyGroupMessages w.groups s.storage).1 = _ at hres
  cases hlimit : limit w.groups.length with
  | none =>
    rw [within_served limit (.fetchMany w.groups) _ hlimit] at hres
    have hok : S.fetchManyGroupMessages w.groups s.storage =
        (.ok (storedFor s.appended w.groups), (S.fetchManyGroupMessages w.groups s.storage).2) := by
      refine Prod.ext ?_ rfl
      rw [← hlog]
      exact Answer.fetched.inj hres
    refine Or.inl ⟨rfl, ?_⟩
    unfold fetchBacklog
    rw [hok]
    rfl
  | some e =>
    simp only [within, hlimit] at hres
    have herror : S.fetchManyGroupMessages w.groups s.storage =
        (.error e, (S.fetchManyGroupMessages w.groups s.storage).2) :=
      Prod.ext (Answer.fetched.inj hres) rfl
    refine Or.inr ⟨by simp, ?_⟩
    unfold fetchBacklog
    rw [herror]
    rfl

omit hS in
theorem unsubscribe_consistent {s : System σ} (h : Consistent R s) (id : ℕ) (w : Subscription)
    (hw : s.subscriptions.get? id = some w) : Consistent R (unsubscribe id w s) := by
  have hlive : liveGroups s.subscriptions id = some w.groupIds := by
    rw [liveGroups, hw, Option.map_some]
  obtain ⟨hreg, hget⟩ := h.registry.removeSubscriber id w.groupIds hlive
  constructor
  · exact h.log
  · exact h.partition
  · change Registered _ (liveGroups (s.subscriptions.shiftRemove id))
    rw [liveGroups_remove]
    exact hreg
  · intro x wx hwx
    change (s.subscriptions.shiftRemove id).get? x = some wx at hwx
    change ∃ sub, (s.registry.removeSubscriber id w.groupIds).subscribers.get? x = _ ∧ _
    rw [get?_shiftRemove] at hwx
    rw [hget]
    split at hwx
    · simp at hwx
    · rename_i hx
      obtain ⟨sub, hsub, hf⟩ := h.subscribers x wx hwx
      exact ⟨sub, by rw [if_neg hx, hsub], hf.frame rfl rfl⟩

theorem fetchBacklog_consistent {s : System σ} (h : Consistent R s) (id : ℕ) (w : Subscription)
    (hw : s.subscriptions.get? id = some w) (hstage : w.stage = .registered) :
    Consistent R (fetchBacklog S id w s) := by
  obtain ⟨storage, hlog, ⟨-, hrun⟩ | ⟨-, hrun⟩⟩ := fetchBacklog_eq hS h id w
  · rw [hrun]
    let w' : Subscription :=
      { w with stage := .fetched (storedFor s.appended w.groups), fetchedAt := s.appended.length }
    refine rewrite_consistent h id w w' hw rfl hlog ⟨rfl, rfl, rfl⟩ rfl ⟨rfl, rfl, rfl⟩
      (fun sub => sub) ?_ ?_
    · intro x
      split
      · rename_i hx
        simp [hx]
      · rfl
    · intro sub hf
      refine ⟨hf.registeredAt, le_refl _, hf.registeredAt.trans h.published_le, ?_⟩
      have ht := hf.tracks
      cases hmany : w.many with
      | false =>
        simp only [Tracks, hmany] at ht
        exact absurd (ht.1.symm.trans hstage) (by simp)
      | true =>
        simp only [Tracks, hmany, hstage] at ht
        simp only [Tracks, w', hmany]
        exact ⟨by simp [backlogOf], ht⟩
  · have hleft := unsubscribe_consistent h id w hw
    rw [hrun]
    constructor
    · exact hlog
    · exact hleft.partition
    · exact hleft.registry
    · intro x wx hwx
      obtain ⟨sub, hsub, hf⟩ := hleft.subscribers x wx hwx
      exact ⟨sub, hsub, hf.frame rfl rfl⟩

omit hS in
theorem finish_consistent {s : System σ} (h : Consistent R s) (id : ℕ) (w : Subscription)
    (backlog : List GroupMessageRecord) (hw : s.subscriptions.get? id = some w)
    (hstage : w.stage = .fetched backlog) : Consistent R (finish id w backlog s) := by
  refine rewrite_consistent h id w { w with stage := .opened } hw rfl h.log ⟨rfl, rfl, rfl⟩ rfl
    ⟨rfl, rfl, rfl⟩ (fun sub => (sub.replayBacklog backlog).finishBuffering)
    (fun x => get?_adjust _ _ _ _) ?_
  intro sub hf
  refine ⟨hf.registeredAt, hf.fetchedAt, hf.order, ?_⟩
  have ht := hf.tracks
  cases hmany : w.many with
  | false =>
    simp only [Tracks, hmany] at ht
    exact absurd (ht.1.symm.trans hstage) (by simp)
  | true =>
    simp only [Tracks, hmany, hstage] at ht ⊢
    obtain ⟨rfl, hwaits⟩ := ht
    exact hwaits.finish _

theorem step_consistent (event : Event) (s s' : System σ) (h : Consistent R s)
    (hstep : step S event s = some s') : Consistent R s' := by
  cases step_takes hstep with
  | append params hroom => exact append_consistent hS h params hroom
  | publishLive r hr => exact publish_consistent h r hr
  | subscribe g =>
    exact register_consistent h ⟨false, [⟨g, none⟩], .opened, s.published.length, s.appended.length⟩
      ⟨[], false, IndexMap.empty, false, []⟩ rfl rfl (fun _ => ⟨rfl, rfl, rfl, rfl⟩)
  | register groups =>
    exact register_consistent h ⟨true, groups, .registered, s.published.length, s.appended.length⟩
      ⟨[], true, cursorsOf groups, true, []⟩ rfl rfl (fun _ => ⟨rfl, rfl, rfl, rfl, rfl⟩)
  | fetchBacklog id w hw hstage => exact fetchBacklog_consistent hS h id w hw hstage
  | finish id w backlog hw hstage => exact finish_consistent h id w backlog hw hstage
  | unsubscribe id w hw hstage => exact unsubscribe_consistent h id w hw

theorem run_consistent (storage : σ) (h : R storage MessageLog.empty) (events : List Event)
    (s : System σ) (hrun : Run.run (step S) events (System.init storage) = some s) :
    Consistent R s :=
  Run.run_invariant (step S) (Consistent R)
    (fun event s s' hs hstep => step_consistent hS event s s' hs hstep) events _ s
    (Consistent.init storage h) hrun

omit hS in
theorem step_history (event : Event) (s s' : System σ) (hstep : step S event s = some s') :
    (∃ params, event = .append params ∧ hasRoom S params.groupId s.storage = true ∧
      s' = append S params s) ∨
    (∃ r, event = .publishLive r ∧ r ∈ s.posting ∧ s' = publish r s) ∨
    (s'.posting = s.posting ∧ s'.published = s.published ∧ s'.appended = s.appended) := by
  cases step_takes hstep with
  | append params hroom => exact Or.inl ⟨params, rfl, hroom, rfl⟩
  | publishLive r hr => exact Or.inr (Or.inl ⟨r, rfl, hr, rfl⟩)
  | subscribe g => exact Or.inr (Or.inr ⟨rfl, rfl, rfl⟩)
  | register groups => exact Or.inr (Or.inr ⟨rfl, rfl, rfl⟩)
  | fetchBacklog id w hw hstage =>
    unfold fetchBacklog
    split <;> exact Or.inr (Or.inr ⟨rfl, rfl, rfl⟩)
  | finish id w backlog hw hstage => exact Or.inr (Or.inr ⟨rfl, rfl, rfl⟩)
  | unsubscribe id w hw hstage => exact Or.inr (Or.inr ⟨rfl, rfl, rfl⟩)

end Steps

def requested (groups : List FetchGroupMessagesInput) (r : GroupMessageRecord) : Bool :=
  groups.any (fun g => decide (g.groupId = r.groupId) && above g.afterCursor r)

def DistinctGroups (groups : List FetchGroupMessagesInput) : Prop :=
  (groups.map FetchGroupMessagesInput.groupId).Nodup

theorem cursorsOf_get? (groups : List FetchGroupMessagesInput)
    (cursors : IndexMap String Int) (g : String) :
    (groups.foldl (fun cursors g => cursors.insert g.groupId (g.afterCursor.getD 0)) cursors).get?
        g =
      ((groups.reverse.find? (fun x => decide (x.groupId = g))).map
        (fun x => x.afterCursor.getD 0)).or (cursors.get? g) := by
  induction groups generalizing cursors with
  | nil => simp
  | cons x groups ih =>
    rw [List.foldl_cons, ih, List.reverse_cons, List.find?_append, get?_insert]
    cases hf : groups.reverse.find? (fun x => decide (x.groupId = g)) with
    | some y => simp
    | none =>
      by_cases hx : g = x.groupId
      · simp [hx]
      · simp [hx, Ne.symm hx]

theorem startOf_distinct {groups : List FetchGroupMessagesInput} (h : DistinctGroups groups)
    (x : FetchGroupMessagesInput) (hx : x ∈ groups) :
    startOf groups x.groupId = x.afterCursor.getD 0 := by
  have hfind : groups.reverse.find? (fun y => decide (y.groupId = x.groupId)) = some x := by
    cases hf : groups.reverse.find? (fun y => decide (y.groupId = x.groupId)) with
    | none => simpa using List.find?_eq_none.mp hf x (List.mem_reverse.mpr hx)
    | some y =>
      have hy := List.mem_reverse.mp (List.mem_of_find?_eq_some hf)
      have hid : y.groupId = x.groupId := by simpa using List.find?_some hf
      rw [List.inj_on_of_nodup_map h hy hx hid]
  rw [startOf, cursorsOf, cursorsOf_get?, hfind]
  rfl

theorem mem_groupIds (groups : List FetchGroupMessagesInput) (g : String) :
    g ∈ (cursorsOf groups).keys ↔ ∃ x ∈ groups, x.groupId = g := by
  rw [← get?_isSome_iff, cursorsOf, cursorsOf_get?]
  simp

theorem mem_storedFor (records : List GroupMessageRecord) (groups : List FetchGroupMessagesInput)
    (r : GroupMessageRecord) :
    r ∈ storedFor records groups ↔ r ∈ records ∧ requested groups r = true := by
  simp only [storedFor, List.mem_flatMap, List.mem_filter, DenseLog.mem_part, requested,
    List.any_eq_true, Bool.and_eq_true, decide_eq_true_eq]
  constructor
  · rintro ⟨x, hx, ⟨hr, hid⟩, habove⟩
    exact ⟨hr, x, hx, hid.symm, habove⟩
  · rintro ⟨hr, x, hx, hid, habove⟩
    exact ⟨x, hx, ⟨hr, hid.symm⟩, habove⟩

end Cordn.Coordinator
