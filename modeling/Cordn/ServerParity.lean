import Cordn.GroupLogParity
import Cordn.KeyPackageParity
import Cordn.Authority

/-!
# The two backends behind one server

The abstract store is a shelf of packages, the queues and the log of messages.
Each backend refines it method by method, so a server over either one answers
every schedule of calls as the server over the abstract store does, where a fetch of
join requests names one group and no other fetch is too large. Only the order in
which all packages are listed differs.
-/

set_option autoImplicit false

namespace Cordn.Server
open Adapter CoordinatorOps KeyPackageOps QueueOps GroupLogOps

variable {V σ τ L α β : Type}

structure Store (V : Type) where
  shelf : KeyShelf V
  queues : Queues
  log : MessageLog

namespace Store

def empty : Store V := ⟨[], Queues.empty, MessageLog.empty⟩

def storage : CoordinatorStorage V (Store V) where
  publishKeyPackage record st := (.ok record, { st with shelf := st.shelf ++ [record] })
  listKeyPackagesForIdentity pk st :=
    (.ok (st.shelf.filter (KeyPackageOps.hasIdentity pk)), st)
  listAllKeyPackages st := (.ok st.shelf, st)
  getKeyPackage ref st := (.ok (withRef st.shelf ref), st)
  removeKeyPackage ref st :=
    (.ok (withRef st.shelf ref), { st with shelf := without st.shelf ref })
  consumeKeyPackage id st := (.ok (taken st.shelf id),
    { st with shelf := leftBehind st.shelf (taken st.shelf id) })
  storeWelcome record st := (.ok record, { st with queues := st.queues.pushWelcome record })
  fetchPendingWelcomes target consumed st :=
    let queues := st.queues.dropWelcomes (ackedWelcome target consumed)
    (.ok (queues.welcomes.filter (fun r => decide (r.targetStablePubkey = target))),
      { st with queues := queues })
  deleteExpiredWelcomes threshold st :=
    (.ok (st.queues.welcomes.countP (fun r => expired threshold r.createdAt)),
      { st with queues := st.queues.dropWelcomes (fun r => expired threshold r.createdAt) })
  storeJoinRequest record st :=
    ((st.queues.storeJoinRequest record).1,
      { st with queues := (st.queues.storeJoinRequest record).2 })
  fetchPendingJoinRequests groupId consumed st :=
    (.ok (st.queues.fetchJoinRequests groupId consumed).1,
      { st with queues := (st.queues.fetchJoinRequests groupId consumed).2 })
  fetchManyPendingJoinRequests groupIds consumed st :=
    (.ok (st.queues.fetchManyJoinRequests consumed groupIds).1,
      { st with queues := (st.queues.fetchManyJoinRequests consumed groupIds).2 })
  deleteExpiredJoinRequests threshold st :=
    (.ok (st.queues.joinRequests.countP (fun r => expired threshold r.createdAt)),
      { st with queues := st.queues.dropJoinRequests (fun r => expired threshold r.createdAt) })
  appendGroupMessage params st :=
    (.ok (st.log.next params), { st with log := st.log.append params })
  fetchGroupMessages groupId afterCursor st := (.ok (st.log.fetch groupId afterCursor), st)
  fetchManyGroupMessages groups st := (.ok (st.log.fetchMany groups), st)

end Store

def agrees : StorageCall V α → Except StorageError α → Except StorageError α → Prop
  | .listAllKeyPackages, x, y => ∃ l l', x = .ok l ∧ y = .ok l' ∧ l.Perm l'
  | _, x, y => x = y

/-- A publish brings a ref that no stored package carries, a post finds room, and a fetch
is not too large for SQLite. -/
def admits (op : StorageCall V α) (st : Store V) : Prop :=
  match op with
  | .publishKeyPackage record => Fresh (.publish record) st.shelf
  | .appendGroupMessage params => Room (.append params) st.log
  | .fetchManyPendingJoinRequests groupIds _ => Sqlite.joinRequestLimit groupIds.length = none
  | .fetchManyGroupMessages groups => Sqlite.messageLimit groups.length = none
  | _ => True

instance : (op : StorageCall V α) → (st : Store V) → Decidable (admits op st)
  | .publishKeyPackage record, st =>
    inferInstanceAs (Decidable (∀ r ∈ st.shelf, r.keyPackageRef ≠ record.keyPackageRef))
  | .appendGroupMessage params, st =>
    inferInstanceAs (Decidable ((st.log.count params.groupId : Int) + 1 < 2^63-1))
  | .fetchManyPendingJoinRequests groupIds _, _ =>
    inferInstanceAs (Decidable (Sqlite.joinRequestLimit groupIds.length = none))
  | .fetchManyGroupMessages groups, _ =>
    inferInstanceAs (Decidable (Sqlite.messageLimit groups.length = none))
  | .listKeyPackagesForIdentity _, _ | .listAllKeyPackages, _ | .getKeyPackage _, _
  | .removeKeyPackage _, _ | .consumeKeyPackage _, _ | .storeWelcome _, _
  | .fetchPendingWelcomes _ _, _ | .deleteExpiredWelcomes _, _ | .storeJoinRequest _, _
  | .fetchPendingJoinRequests _ _, _ | .deleteExpiredJoinRequests _, _ => .isTrue trivial

structure RefinesParts (S : CoordinatorStorage V σ) (limit logLimit : FetchLimit)
    (P : σ → KeyShelf V → Prop) (Q : σ → Queues → Prop) (M : σ → MessageLog → Prop) : Prop where
  shelf : ∀ op s l, P s l → Fresh op l →
    (KeyPackageOps.step S op s).1 = (shelfStep op l).1 ∧
      P (KeyPackageOps.step S op s).2 (shelfStep op l).2
  shelf_all : ∀ s l, P s l → ∃ records, S.listAllKeyPackages s = (.ok records, s) ∧
    records.Perm l
  shelf_queues : ∀ op s l, P s l → P (QueueOps.step S op s).2 l
  shelf_messages : ∀ op s l, P s l → P (GroupLogOps.step S op s).2 l
  queues : KeepsQueues S limit Q
  log : KeepsLog S logLimit M
  servesRequests : ∀ groups, Sqlite.joinRequestLimit groups = none → limit groups = none
  servesMessages : ∀ groups, Sqlite.messageLimit groups = none → logLimit groups = none
  log_keyPackages : ∀ op s log, M s log → M (KeyPackageOps.step S op s).2 log
  log_queues : ∀ op s log, M s log → M (QueueOps.step S op s).2 log

structure Refined (P : σ → KeyShelf V → Prop) (Q : σ → Queues → Prop) (M : σ → MessageLog → Prop)
    (s : σ) (st : Store V) : Prop where
  shelf : P s st.shelf
  queues : Q s st.queues
  log : M s st.log

section Method

variable {S : CoordinatorStorage V σ} {limit logLimit : FetchLimit}
  {P : σ → KeyShelf V → Prop} {Q : σ → Queues → Prop} {M : σ → MessageLog → Prop}
  (hS : RefinesParts S limit logLimit P Q M) {s : σ} {st : Store V} (h : Refined P Q M s st)

include hS h

theorem Refined.packageStep (op : KeyPackageOps.Op V) (hop : Fresh op st.shelf) :
    (KeyPackageOps.step S op s).1 = (shelfStep op st.shelf).1 ∧
      Refined P Q M (KeyPackageOps.step S op s).2
        { st with shelf := (shelfStep op st.shelf).2 } := by
  obtain ⟨hanswer, hnext⟩ := hS.shelf op s st.shelf h.shelf hop
  exact ⟨hanswer, hnext, hS.queues.keyPackages op s _ h.queues, hS.log_keyPackages op s _ h.log⟩

theorem Refined.queueStep (op : QueueOps.Op) (hop : QueueOps.Served limit op) :
    (QueueOps.step S op s).1 = (QueueOps.queueStep op st.queues).1 ∧
      Refined P Q M (QueueOps.step S op s).2
        { st with queues := (QueueOps.queueStep op st.queues).2 } := by
  obtain ⟨hanswer, hnext⟩ := hS.queues.queues op s st.queues h.queues
  rw [limitedStep_served limit op _ hop] at hanswer hnext
  exact ⟨hanswer, hS.shelf_queues op s _ h.shelf, hnext, hS.log_queues op s _ h.log⟩

theorem Refined.logStep (op : GroupLogOps.Op) (hop : Room op st.log)
    (hserved : GroupLogOps.Served logLimit op) :
    (GroupLogOps.step S op s).1 = (GroupLogOps.logStep op st.log).1 ∧
      Refined P Q M (GroupLogOps.step S op s).2
        { st with log := (GroupLogOps.logStep op st.log).2 } := by
  obtain ⟨hanswer, hnext⟩ := hS.log.step op s st.log h.log hop
  rw [within_served logLimit op _ hserved] at hanswer
  exact ⟨hanswer, hS.shelf_messages op s _ h.shelf, hS.queues.messages op s _ h.queues, hnext⟩

theorem Refined.perform (op : StorageCall V α) (hop : admits op st) :
    agrees op (op.perform S s).1 (op.perform Store.storage st).1 ∧
      Refined P Q M (op.perform S s).2 (op.perform Store.storage st).2 := by
  cases op with
  | publishKeyPackage record =>
    obtain ⟨hanswer, hnext⟩ := h.packageStep hS (.publish record) hop
    exact ⟨KeyPackageOps.Answer.published.inj hanswer, hnext⟩
  | listKeyPackagesForIdentity pk =>
    obtain ⟨hanswer, hnext⟩ := h.packageStep hS (.list pk) trivial
    exact ⟨KeyPackageOps.Answer.listed.inj hanswer, hnext⟩
  | listAllKeyPackages =>
    obtain ⟨records, hres, hperm⟩ := hS.shelf_all s st.shelf h.shelf
    change agrees .listAllKeyPackages (S.listAllKeyPackages s).1 _ ∧
      Refined P Q M (S.listAllKeyPackages s).2 _
    rw [hres]
    exact ⟨⟨records, st.shelf, rfl, rfl, hperm⟩, h⟩
  | getKeyPackage ref =>
    obtain ⟨hanswer, hnext⟩ := h.packageStep hS (.get ref) trivial
    exact ⟨KeyPackageOps.Answer.found.inj hanswer, hnext⟩
  | removeKeyPackage ref =>
    obtain ⟨hanswer, hnext⟩ := h.packageStep hS (.remove ref) trivial
    exact ⟨KeyPackageOps.Answer.found.inj hanswer, hnext⟩
  | consumeKeyPackage id =>
    obtain ⟨hanswer, hnext⟩ := h.packageStep hS (.consume id) trivial
    exact ⟨KeyPackageOps.Answer.found.inj hanswer, hnext⟩
  | storeWelcome record =>
    obtain ⟨hanswer, hnext⟩ := h.queueStep hS (.storeWelcome record) trivial
    exact ⟨QueueOps.Answer.welcome.inj hanswer, hnext⟩
  | fetchPendingWelcomes target consumed =>
    obtain ⟨hanswer, hnext⟩ := h.queueStep hS (.fetchPendingWelcomes target consumed) trivial
    exact ⟨QueueOps.Answer.welcomes.inj hanswer, hnext⟩
  | deleteExpiredWelcomes threshold =>
    obtain ⟨hanswer, hnext⟩ := h.queueStep hS (.deleteExpiredWelcomes threshold) trivial
    exact ⟨QueueOps.Answer.deleted.inj hanswer, hnext⟩
  | storeJoinRequest record =>
    obtain ⟨hanswer, hnext⟩ := h.queueStep hS (.storeJoinRequest record) trivial
    exact ⟨QueueOps.Answer.joinRequest.inj hanswer, hnext⟩
  | fetchPendingJoinRequests groupId consumed =>
    obtain ⟨hanswer, hnext⟩ := h.queueStep hS (.fetchPendingJoinRequests groupId consumed) trivial
    exact ⟨QueueOps.Answer.joinRequests.inj hanswer, hnext⟩
  | fetchManyPendingJoinRequests groupIds consumed =>
    obtain ⟨hanswer, hnext⟩ := h.queueStep hS (.fetchManyPendingJoinRequests groupIds consumed)
      (hS.servesRequests _ hop)
    exact ⟨QueueOps.Answer.joinRequests.inj hanswer, hnext⟩
  | deleteExpiredJoinRequests threshold =>
    obtain ⟨hanswer, hnext⟩ := h.queueStep hS (.deleteExpiredJoinRequests threshold) trivial
    exact ⟨QueueOps.Answer.deleted.inj hanswer, hnext⟩
  | appendGroupMessage params =>
    obtain ⟨hanswer, hnext⟩ := h.logStep hS (.append params) hop trivial
    exact ⟨GroupLogOps.Answer.appended.inj hanswer, hnext⟩
  | fetchManyGroupMessages groups =>
    obtain ⟨hanswer, hnext⟩ := h.logStep hS (.fetchMany groups) trivial
      (hS.servesMessages _ hop)
    exact ⟨GroupLogOps.Answer.fetched.inj hanswer, hnext⟩

theorem Refined.performGroup (groupId : String) (consumed : List ConsumedJoinRequestWithGroupRef) :
    (S.fetchPendingJoinRequests groupId ((partitionConsumedJoinRequests consumed).bucket groupId)
        s).1 = (Store.storage.fetchManyPendingJoinRequests [groupId] consumed st).1 ∧
      Refined P Q M (S.fetchPendingJoinRequests groupId
          ((partitionConsumedJoinRequests consumed).bucket groupId) s).2
        (Store.storage.fetchManyPendingJoinRequests [groupId] consumed st).2 := by
  obtain ⟨hanswer, hnext⟩ :=
    h.queueStep hS (.fetchPendingJoinRequests groupId (acksFor consumed groupId)) trivial
  have hone : st.queues.fetchJoinRequests groupId (acksFor consumed groupId) =
      st.queues.fetchManyJoinRequests consumed [groupId] := by
    simp [Queues.fetchManyJoinRequests]
  rw [QueueOps.queueStep, hone] at hanswer hnext
  rw [partition_bucket]
  exact ⟨QueueOps.Answer.joinRequests.inj hanswer, hnext⟩

end Method

theorem inMemory_refines :
    RefinesParts (InMemory.storage : CoordinatorStorage V (InMemory.InMemoryInner V)) noLimit
      noLimit InMemory.Represents InMemory.HoldsQueues InMemory.HoldsLog where
  shelf := InMemory.step_represents
  shelf_all s l h := ⟨_, rfl, h.1.perm⟩
  shelf_queues op s l h := by
    obtain ⟨welcomes, joinRequests, he⟩ := InMemory.queues_frame op s
    rw [he]
    exact h
  shelf_messages op s l h := by
    obtain ⟨groups, he⟩ := InMemory.messages_frame op s
    rw [he]
    exact h
  queues := inMemory_keepsQueues
  log := inMemory_keepsLog
  servesRequests _ _ := rfl
  servesMessages _ _ := rfl
  log_keyPackages op s log h := by
    obtain ⟨kept, he⟩ := InMemory.keyPackages_frame op s
    rw [he]
    exact h
  log_queues op s log h := by
    obtain ⟨welcomes, joinRequests, he⟩ := InMemory.queues_frame op s
    rw [he]
    exact h

theorem sqlite_refines {json : Sqlite.SerdeJson V} (hj : json.RoundTrips) :
    RefinesParts (Sqlite.storage json) Sqlite.joinRequestLimit Sqlite.messageLimit
      (Sqlite.Represents json) Sqlite.HoldsQueues Sqlite.HoldsLog where
  shelf := Sqlite.step_represents hj
  shelf_all db l h := by
    refine ⟨l, ?_, List.Perm.refl l⟩
    have hall := (sqlite_keepsShelf hj).all db ⟨l, h⟩
    rwa [Sqlite.stored_eq hj h.1] at hall
  shelf_queues op db l h := by
    obtain ⟨welcomes, joinRequests, he⟩ := Sqlite.queues_frame json op db
    rw [he]
    exact h
  shelf_messages op db l h := by
    obtain ⟨routing, messages, he⟩ := Sqlite.messages_frame json op db
    rw [he]
    exact h
  queues := sqlite_keepsQueues json
  log := sqlite_keepsLog json
  servesRequests _ h := h
  servesMessages _ h := h
  log_keyPackages op db log h := by
    obtain ⟨keyPackages, he⟩ := Sqlite.keyPackages_frame json op db
    rw [he]
    exact ⟨h.messages, h.routing⟩
  log_queues op db log h := by
    obtain ⟨welcomes, joinRequests, he⟩ := Sqlite.queues_frame json op db
    rw [he]
    exact ⟨h.messages, h.routing⟩

inductive SameOutcome : Outcome → Outcome → Prop where
  | same (outcome : Outcome) : SameOutcome outcome outcome
  | listed {l l' : List AvailableKeyPackage} (h : l.Perm l') :
      SameOutcome (.replied (.ok (.available l))) (.replied (.ok (.available l')))

theorem SameOutcome.join {a b c : Outcome} (h : SameOutcome a c) (h' : SameOutcome b c) :
    SameOutcome a b := by
  cases h with
  | same =>
    cases h' with
    | same => exact .same _
    | listed hp => exact .listed hp.symm
  | listed hp =>
    cases h' with
    | same => exact .listed hp
    | listed hp' => exact .listed (hp.trans hp'.symm)

def agreesCall : (β : Type) → ServerCall V β → β → β → Prop
  | _, .check _ _, x, y => x = y
  | _, .storage op, x, y => agrees op x y
  | _, .publishLive _, x, y => x = y

/-- Operations that do the same: a fetch for one group may be one for a list of groups. -/
inductive Paired : (β : Type) → ServerCall V β → ServerCall V β → Prop where
  | same {β : Type} (op : ServerCall V β) : Paired β op op
  | group (groupId : String) (consumed : List ConsumedJoinRequestWithGroupRef) :
      Paired _ (.storage (.fetchPendingJoinRequests groupId
          ((partitionConsumedJoinRequests consumed).bucket groupId)))
        (.storage (.fetchManyPendingJoinRequests [groupId] consumed))

def Handler.Matches (p q : Handler V α) : Prop :=
  Program.Alike Paired agreesCall (fun x y => x = y) p.program q.program

abbrev Handler.Steady (p : Handler V α) : Prop := p.Matches p

theorem steady_reply (result : Except AdapterError α) : (Handler.reply (V := V) result).Steady :=
  .done rfl

theorem steady_pure (a : α) : Handler.Steady (pure a : Handler V α) := .done rfl

theorem steady_storage (op : StorageCall V α) (h : ∀ x y, agrees op x y → x = y) :
    (Handler.onStorage op).Steady :=
  .call (.same _) fun x y hxy => .done (congrArg _ (h x y hxy))

theorem Handler.Matches.andThen {p p' : Handler V α} {q q' : α → Handler V β} (hp : p.Matches p')
    (hq : ∀ a, (q a).Matches (q' a)) : (p >>= q).Matches (p' >>= q') := by
  refine Program.Alike.bind hp fun result result' hsame => ?_
  subst hsame
  cases result with
  | error e => exact .done rfl
  | ok a => exact hq a

theorem Handler.Steady.ite {passed : Prop} [Decidable passed] {p p' : Handler V α}
    (h : p.Steady) (h' : p'.Steady) : (if passed then p else p').Steady := by
  split
  · exact h
  · exact h'

theorem steady_publishLive (record : GroupMessageRecord) :
    (Handler.publishLive (V := V) record).Steady :=
  .call (.same _) fun _ _ _ => .done rfl

theorem steady_removeEach (records : List (PublishedKeyPackageRecord V)) :
    (removeEach records).Steady := by
  induction records with
  | nil => exact steady_pure ()
  | cons record records ih => exact (steady_storage _ (by exact fun _ _ h => h)).andThen fun _ => ih

theorem steady_ownKeyPackage (c : Caller) (kpRef : String) :
    (ownKeyPackage c kpRef : Handler V Unit).Steady := by
  refine (steady_storage _ (by exact fun _ _ h => h)).andThen fun found => ?_
  cases found with
  | none => exact steady_reply _
  | some record => exact (steady_reply _).ite (steady_pure ())

theorem steady_removeLoop (c : Caller) (kpRefs : List String) :
    (removeLoop c kpRefs : Handler V (List String)).Steady := by
  induction kpRefs with
  | nil => exact steady_pure []
  | cons kpRef kpRefs ih =>
    exact (steady_ownKeyPackage c kpRef).andThen fun _ =>
      (steady_storage _ (by exact fun _ _ h => h)).andThen fun _ =>
        ih.andThen fun _ => steady_pure _

variable (A : CoordinatorAdapter V σ L)

theorem steady_enforceKeyPackageQuota (stablePubkey : String) (incoming : Bool) :
    (enforceKeyPackageQuota A stablePubkey incoming).Steady := by
  refine (steady_storage _ (by exact fun _ _ h => h)).andThen fun records => ?_
  refine Handler.Steady.ite ?_ ((steady_reply _).ite (steady_pure ()))
  refine Handler.Matches.andThen ?_ fun _ => (steady_reply _).ite (steady_pure ())
  exact (steady_removeEach _).ite (steady_pure ())

theorem steady_handle (c : Caller) (request : Request)
    (hlist : request ≠ .listAvailableKeyPackages)
    (hjoin : ∀ groups consumed, request ≠ .fetchManyPendingJoinRequests groups consumed) :
    (handle A c request).Steady := by
  cases request with
  | publishKeyPackage input event =>
    refine Handler.Matches.andThen ?_ fun _ => steady_pure _
    exact (steady_reply _).andThen fun _ => (steady_enforceKeyPackageQuota A _ _).andThen
      fun _ => (steady_storage _ (by exact fun _ _ h => h)).andThen fun _ => steady_pure _
  | consumeKeyPackage id =>
    refine Handler.Matches.andThen ?_ fun _ => steady_pure _
    refine (steady_reply _).andThen fun _ => (steady_storage _ (by exact fun _ _ h => h)).andThen
      fun record => ?_
    cases record with
    | none => exact steady_pure none
    | some r => exact steady_reply _
  | listAvailableKeyPackages => exact absurd rfl hlist
  | removeKeyPackages kpRefs =>
    exact ((steady_reply _).andThen fun _ => steady_removeLoop c kpRefs).andThen
      fun _ => steady_pure _
  | fetchPendingWelcomes consumed =>
    exact ((steady_storage _ (by exact fun _ _ h => h)).andThen fun _ => steady_pure _).andThen
      fun _ => steady_pure _
  | storeWelcome input =>
    refine Handler.Matches.andThen ?_ fun _ => steady_pure _
    refine (steady_reply _).andThen fun _ => (steady_reply _).andThen fun _ =>
      (steady_reply _).andThen fun _ => ?_
    cases A.externals.b64Decode input.welcome64 with
    | none => exact steady_reply _
    | some bytes =>
      exact (steady_storage _ (by exact fun _ _ h => h)).andThen fun _ => steady_pure _
  | storeJoinRequest input =>
    exact ((steady_reply _).andThen fun _ => (steady_reply _).andThen fun _ =>
      (steady_ownKeyPackage c _).andThen fun _ =>
        (steady_storage _ (by exact fun _ _ h => h)).andThen fun _ =>
          steady_pure _).andThen fun _ => steady_pure _
  | fetchManyPendingJoinRequests groups consumed =>
    exact absurd rfl (hjoin groups consumed)
  | postGroupMessage input =>
    refine Handler.Matches.andThen ?_ fun _ => steady_pure _
    refine (steady_reply _).andThen fun _ => (steady_reply _).andThen fun _ => ?_
    cases A.externals.b64Decode input.msg64 with
    | none => exact steady_reply _
    | some bytes =>
      exact (steady_storage _ (by exact fun _ _ h => h)).andThen fun record =>
        (steady_publishLive record).andThen fun _ => steady_pure _
  | fetchManyGroupMessages groups =>
    exact ((steady_reply _).andThen fun _ => (steady_reply _).andThen fun _ =>
      (steady_storage _ (by exact fun _ _ h => h)).andThen fun _ => steady_pure _).andThen
        fun _ => steady_pure _

def overStore : CoordinatorAdapter V (Store V) L :=
  ⟨Store.storage, A.rateLimiter, A.keyPackageQuota, A.externals⟩

theorem handle_overStore (c : Caller) (request : Request)
    (hjoin : ∀ groups consumed, request ≠ .fetchManyPendingJoinRequests groups consumed) :
    handle (overStore A) c request = handle A c request := by
  cases request with
  | fetchManyPendingJoinRequests groups consumed => exact absurd rfl (hjoin groups consumed)
  | _ => rfl

theorem matches_fetchJoinRequests (groups : List String) (hone : groups.length ≤ 1)
    (consumed : Option (List ConsumedJoinRequestWithGroupRef)) :
    (fetchManyPendingJoinRequests A groups consumed).Matches
      (fetchManyPendingJoinRequests (overStore A) groups consumed) := by
  cases groups with
  | nil => exact .done rfl
  | cons groupId rest =>
    obtain rfl : rest = [] := by simpa using hone
    refine (steady_reply _).andThen fun _ => ?_
    have hstore : fetchJoinRequests (overStore A) [groupId] (consumed.getD []) =
        Handler.onStorage (.fetchManyPendingJoinRequests [groupId] (consumed.getD [])) := rfl
    rw [hstore, fetchJoinRequests]
    cases A.storage.joinRequestLocking with
    | once => exact steady_storage _ (by exact fun _ _ h => h)
    | perGroup =>
      refine .call (.group groupId (consumed.getD [])) fun x y hagree => ?_
      obtain rfl : x = y := hagree
      cases x with
      | error e => exact .done rfl
      | ok out => exact .done (congrArg Except.ok (List.append_nil out))

theorem listing_alike : Program.Alike Paired agreesCall
    (fun x y => SameOutcome (.replied x) (.replied y))
    (listAvailableKeyPackages >>= fun l => pure (Reply.available l) : Handler V Reply).program
    (listAvailableKeyPackages >>= fun l => pure (Reply.available l) : Handler V Reply).program := by
  refine .call (.same _) fun x y hagree => ?_
  obtain ⟨l, l', rfl, rfl, hperm⟩ := hagree
  exact .done (.listed (hperm.map _))

def namesOneGroup : Job → Prop
  | .call _ (.fetchManyPendingJoinRequests groups _) => groups.length ≤ 1
  | _ => True

instance : DecidablePred namesOneGroup
  | .call _ (.fetchManyPendingJoinRequests groups _) =>
    inferInstanceAs (Decidable (groups.length ≤ 1))
  | .call _ (.publishKeyPackage _ _) | .call _ (.consumeKeyPackage _)
  | .call _ .listAvailableKeyPackages | .call _ (.removeKeyPackages _)
  | .call _ (.fetchPendingWelcomes _) | .call _ (.storeWelcome _) | .call _ (.storeJoinRequest _)
  | .call _ (.postGroupMessage _) | .call _ (.fetchManyGroupMessages _) | .cleanup _ _ =>
    .isTrue trivial

theorem program_alike (job : Job) (hone : namesOneGroup job) :
    Program.Alike Paired agreesCall SameOutcome (program A job) (program (overStore A) job) := by
  cases job with
  | cleanup maxAgeMs now =>
    exact .call (.same _) fun _ _ _ => .call (.same _) fun _ _ _ => .done (.same _)
  | call c request =>
    refine .call (.same _) fun passed passed' hagree => ?_
    obtain rfl : passed = passed' := hagree
    have hsteady : ∀ p q : Handler V Reply, p.Matches q →
        Program.Alike Paired agreesCall SameOutcome
          (p.program >>= fun result => .done (.replied result))
          (q.program >>= fun result => .done (.replied result)) := by
      intro p q hmatches
      refine Program.Alike.bind hmatches fun result result' hsame => ?_
      subst hsame
      exact .done (.same _)
    cases passed with
    | false => exact .done (.same _)
    | true =>
      by_cases hlist : request = .listAvailableKeyPackages
      · subst hlist
        exact listing_alike.bind fun _ _ hsame => .done hsame
      · by_cases hjoin : ∀ groups consumed, request ≠ .fetchManyPendingJoinRequests groups consumed
        · have hsame : (handle A c request).Matches (handle (overStore A) c request) := by
            rw [handle_overStore A c request hjoin]
            exact steady_handle A c request hlist hjoin
          exact hsteady _ _ hsame
        · push Not at hjoin
          obtain ⟨groups, consumed, rfl⟩ := hjoin
          exact hsteady _ _ ((matches_fetchJoinRequests A groups hone consumed).andThen
            fun _ => steady_pure _)

def admitsCall : (β : Type) → ServerCall V β → Store V × L → Prop
  | _, .storage op, state => admits op state.1
  | _, .check _ _, _ | _, .publishLive _, _ => True

instance : (β : Type) → (op : ServerCall V β) → (state : Store V × L) →
    Decidable (admitsCall β op state)
  | _, .storage op, state => inferInstanceAs (Decidable (admits op state.1))
  | _, .check _ _, _ | _, .publishLive _, _ => .isTrue trivial

def RefinedState (P : σ → KeyShelf V → Prop) (Q : σ → Queues → Prop) (M : σ → MessageLog → Prop)
    (state : σ × L) (state' : Store V × L) : Prop :=
  Refined P Q M state.1 state'.1 ∧ state.2 = state'.2

theorem RefinedState.perform {S : CoordinatorStorage V σ} {limit logLimit : FetchLimit}
    {P : σ → KeyShelf V → Prop} {Q : σ → Queues → Prop} {M : σ → MessageLog → Prop}
    (hS : RefinesParts S limit logLimit P Q M) (rateLimiter : RateLimiter L) (β : Type)
    (op op' : ServerCall V β) (state : σ × L) (state' : Store V × L)
    (h : RefinedState P Q M state state') (hpaired : Paired β op op')
    (hop : admitsCall β op' state') :
    agreesCall β op' ((machine S rateLimiter).perform op state).1
        ((machine Store.storage rateLimiter).perform op' state').1 ∧
      RefinedState P Q M ((machine S rateLimiter).perform op state).2
        ((machine Store.storage rateLimiter).perform op' state').2 := by
  obtain ⟨href, hlimiter⟩ := h
  cases hpaired with
  | group groupId consumed =>
    obtain ⟨hagree, hnext⟩ := href.performGroup hS groupId consumed
    exact ⟨hagree, hnext, hlimiter⟩
  | same op =>
    cases op with
    | check key now =>
      simp only [agreesCall, machine, RefinedState, hlimiter]
      exact ⟨trivial, href, trivial⟩
    | publishLive record => exact ⟨rfl, href, hlimiter⟩
    | storage op =>
      obtain ⟨hagree, hnext⟩ := href.perform hS op hop
      exact ⟨hagree, hnext, hlimiter⟩

/-- Fetches of join requests name one group, and where the schedule runs on the store,
publishes bring fresh refs, posts find room and no fetch is too large for SQLite. -/
def AdmissibleRun (rateLimiter : RateLimiter L) (quota : KeyPackageQuotaConfig)
    (externals : Externals V) (events : List Event) (l : L) : Prop :=
  Run.Along (Interleaving.Admissible namesOneGroup admitsCall)
    (serve ⟨Store.storage, rateLimiter, quota, externals⟩) events
    (Interleaving.Pool.new (Store.empty, l))

def answersOf (A : CoordinatorAdapter V σ L) (events : List Event) (init : σ × L) :
    List (Option (Job × Outcome)) :=
  Run.answers (serve A) events (Interleaving.Pool.new init)

theorem answers_refine {S : CoordinatorStorage V σ} {limit logLimit : FetchLimit}
    {P : σ → KeyShelf V → Prop} {Q : σ → Queues → Prop} {M : σ → MessageLog → Prop}
    (hS : RefinesParts S limit logLimit P Q M) (rateLimiter : RateLimiter L)
    (quota : KeyPackageQuotaConfig) (externals : Externals V) (events : List Event) (init : σ)
    (l : L) (hinit : Refined P Q M init Store.empty)
    (hok : AdmissibleRun rateLimiter quota externals events l) :
    List.Forall₂ (Option.Rel (Interleaving.SameResult fun _ => SameOutcome))
      (answersOf ⟨S, rateLimiter, quota, externals⟩ events (init, l))
      (answersOf ⟨Store.storage, rateLimiter, quota, externals⟩ events (Store.empty, l)) :=
  (Interleaving.Linked.run (RefinedState.perform hS rateLimiter)
    (program_alike ⟨S, rateLimiter, quota, externals⟩) events _ _
    ⟨⟨hinit, rfl⟩, .nil⟩ hok).1

theorem sameAnswers_join {l m n : List (Option (Job × Outcome))}
    (h : List.Forall₂ (Option.Rel (Interleaving.SameResult fun _ => SameOutcome)) l n)
    (h' : List.Forall₂ (Option.Rel (Interleaving.SameResult fun _ => SameOutcome)) m n) :
    List.Forall₂ (Option.Rel (Interleaving.SameResult fun _ => SameOutcome)) l m := by
  induction h generalizing m with
  | nil =>
    cases h'
    exact .nil
  | cons hxz _ ih =>
    cases h' with
    | cons hyz hrest =>
      refine .cons ?_ (ih hrest)
      cases hxz with
      | none =>
        cases hyz
        exact .none
      | some hxz =>
        cases hyz with
        | some hyz => exact .some ⟨hxz.1.trans hyz.1.symm, hxz.2.join hyz.2⟩

/-- However its calls are interleaved, a server over SQLite and one in memory answer
alike, event by event, up to the order of a listing of all packages. -/
theorem servers_agree (json : Sqlite.SerdeJson V) (hj : json.RoundTrips)
    (rateLimiter : RateLimiter L) (quota : KeyPackageQuotaConfig) (externals : Externals V)
    (events : List Event) (l : L) (hok : AdmissibleRun rateLimiter quota externals events l) :
    List.Forall₂ (Option.Rel (Interleaving.SameResult fun _ => SameOutcome))
      (answersOf ⟨InMemory.storage, rateLimiter, quota, externals⟩ events
        (InMemory.InMemoryInner.default, l))
      (answersOf ⟨Sqlite.storage json, rateLimiter, quota, externals⟩ events
        (Sqlite.Database.new, l)) :=
  sameAnswers_join
    (answers_refine inMemory_refines rateLimiter quota externals events _ l
      ⟨⟨IndexMap.Holds.empty _, by simp [Store.empty, KeyPackageOps.UniqueRefs]⟩,
        CoordinatorOps.holdsQueues_default, InMemory.HoldsLog.default⟩ hok)
    (answers_refine (sqlite_refines hj) rateLimiter quota externals events _ l
      ⟨⟨rfl, by simp [Store.empty, KeyPackageOps.UniqueRefs]⟩, CoordinatorOps.holdsQueues_new,
        Sqlite.HoldsLog.new⟩ hok)

/-- Alice asks to join a group, and the group is fetched while Bob takes her package. -/
def crossedFetch : List Event :=
  crossedPublishes ++
    [.start (.call (sampleCaller alice) (.storeJoinRequest ⟨"g", "a-1"⟩)), .advance 3, .advance 3,
      .advance 3, .start (.call (sampleCaller bob) (.fetchManyPendingJoinRequests ["g"] none)),
      .advance 4, .advance 2, .advance 4]

theorem servers_agree_sample :
    List.Forall₂ (Option.Rel (Interleaving.SameResult fun _ => SameOutcome))
      (answersOf memoryAdapter crossedFetch (InMemory.InMemoryInner.default, ()))
      (answersOf sqliteAdapter crossedFetch (Sqlite.Database.new, ())) :=
  servers_agree jsonText jsonText_roundTrips unlimited ⟨10, 1⟩ sampleExternals crossedFetch ()
    (by unfold AdmissibleRun; decide +kernel)

end Cordn.Server
