import Cordn.Authority
import Cordn.JoinRequestAcks
import Cordn.ReplyBasis

/-!
# What is acknowledged stays

Once a client hears that its record is stored, the record is handed out by every
fetch that comes for it, whatever else is in flight, until a call that may retire it
does so or a clean-up round finds it too old.
-/

set_option autoImplicit false

namespace Cordn.Server
open Adapter QueueOps
open CoordinatorOps (StorageOp KeepsQueues JoinRequestFetch threshold)
open Interleaving (ofCall)

variable {V σ L α β : Type}

def StorageCall.request : StorageCall V α → StorageOp V
  | publishKeyPackage record => .keyPackages (.publish record)
  | listKeyPackagesForIdentity stablePubkey => .keyPackages (.list stablePubkey)
  | listAllKeyPackages => .listAllKeyPackages
  | getKeyPackage keyPackageRef => .keyPackages (.get keyPackageRef)
  | removeKeyPackage keyPackageRef => .keyPackages (.remove keyPackageRef)
  | consumeKeyPackage identifier => .keyPackages (.consume identifier)
  | storeWelcome record => .queues (.storeWelcome record)
  | fetchPendingWelcomes target consumed => .queues (.fetchPendingWelcomes target consumed)
  | deleteExpiredWelcomes threshold => .queues (.deleteExpiredWelcomes threshold)
  | storeJoinRequest record => .queues (.storeJoinRequest record)
  | fetchPendingJoinRequests groupId consumed =>
    .queues (.fetchPendingJoinRequests groupId consumed)
  | fetchManyPendingJoinRequests groupIds consumed =>
    .queues (.fetchManyPendingJoinRequests groupIds consumed)
  | deleteExpiredJoinRequests threshold => .queues (.deleteExpiredJoinRequests threshold)
  | appendGroupMessage params => .messages (.append params)
  | fetchManyGroupMessages groups => .messages (.fetchMany groups)

theorem perform_request (S : CoordinatorStorage V σ) (op : StorageCall V α) (s : σ) :
    (op.perform S s).2 = (CoordinatorOps.perform S op.request s).2 := by
  cases op <;> rfl

def fetchCall : JoinRequestFetch → StorageCall V (List JoinRequestRecord)
  | .one groupId consumed => .fetchPendingJoinRequests groupId consumed
  | .many groupIds consumed => .fetchManyPendingJoinRequests groupIds consumed

def onQueues : Answered (ServerCall V) → Option QueueOps.Op
  | ⟨_, .storage op, _⟩ =>
    match op.request with
    | .queues op => some op
    | _ => none
  | _ => none

def LosesWelcome (w : WelcomeQueueRecord) (done : Answered (ServerCall V)) : Prop :=
  ∃ o, onQueues done = some o ∧ leavesWelcomes o w = true

/-- How a pending request is lost: a refresh at a time that is not `Given`, or a
retirement under a time that is. -/
def RequestLost (key : String × String) (Given : Int → Prop) (o : QueueOps.Op) : Prop :=
  (∃ record, o = .storeJoinRequest record ∧ requestKey record = key ∧
      ¬Given record.createdAt) ∨
    ∃ r, requestKey r = key ∧ Given r.createdAt ∧ leavesJoinRequests o r = true

def LosesRequest (key : String × String) (Given : Int → Prop) (done : Answered (ServerCall V)) :
    Prop :=
  ∃ o, onQueues done = some o ∧ RequestLost key Given o

section Queues

variable {S : CoordinatorStorage V σ} {limit : FetchLimit} {R : σ → Queues → Prop}
  (hS : KeepsQueues S limit R) (rateLimiter : RateLimiter L)

include hS

theorem queues_perform (op : ServerCall V β) (state : σ × L) (q : Queues) (h : R state.1 q) :
    R ((machine S rateLimiter).perform op state).2.1
      (match onQueues ⟨β, op, ((machine S rateLimiter).perform op state).1⟩ with
        | some op => (limitedStep limit op q).2
        | none => q) := by
  cases op with
  | check key now => exact h
  | publishLive record => exact h
  | storage op =>
    change R (op.perform S state.1).2 _
    rw [perform_request]
    have hnext := hS.perform op.request state.1 q h
    simp only [onQueues]
    cases hop : op.request with
    | queues op =>
      rw [hop] at hnext
      exact hnext
    | keyPackages op =>
      rw [hop] at hnext
      exact hnext
    | listAllKeyPackages =>
      rw [hop] at hnext
      exact hnext
    | messages op =>
      rw [hop] at hnext
      exact hnext

theorem welcome_kept (w : WelcomeQueueRecord) (op : ServerCall V β) (state : σ × L)
    (h : ∃ q, R state.1 q ∧ w ∈ q.welcomes) :
    (∃ q, R ((machine S rateLimiter).perform op state).2.1 q ∧ w ∈ q.welcomes) ∨
      LosesWelcome w ⟨β, op, ((machine S rateLimiter).perform op state).1⟩ := by
  obtain ⟨q, hR, hw⟩ := h
  have hnext := queues_perform hS rateLimiter op state q hR
  cases hop : onQueues ⟨β, op, ((machine S rateLimiter).perform op state).1⟩ with
  | none =>
    rw [hop] at hnext
    exact Or.inl ⟨q, hnext, hw⟩
  | some o =>
    rw [hop] at hnext
    by_cases hleaves : leavesWelcomes o w = true
    · exact Or.inr ⟨o, hop, hleaves⟩
    · refine Or.inl ⟨_, hnext, ?_⟩
      rw [limitedStep_welcomes, (queueStep_keepsOrder o q).welcomes]
      exact List.mem_append_left _ (List.mem_filter.mpr ⟨hw, by simp [hleaves]⟩)

theorem request_kept (key : String × String) (Given : Int → Prop) (op : ServerCall V β)
    (state : σ × L)
    (h : ∃ q, R state.1 q ∧ ∃ r ∈ q.joinRequests, requestKey r = key ∧ Given r.createdAt) :
    (∃ q, R ((machine S rateLimiter).perform op state).2.1 q ∧
        ∃ r ∈ q.joinRequests, requestKey r = key ∧ Given r.createdAt) ∨
      LosesRequest key Given ⟨β, op, ((machine S rateLimiter).perform op state).1⟩ := by
  obtain ⟨q, hR, r, hr, hkey, hgiven⟩ := h
  have hnext := queues_perform hS rateLimiter op state q hR
  cases hop : onQueues ⟨β, op, ((machine S rateLimiter).perform op state).1⟩ with
  | none =>
    rw [hop] at hnext
    exact Or.inl ⟨q, hnext, r, hr, hkey, hgiven⟩
  | some o =>
    rw [hop] at hnext
    change R _ (limitedStep limit o q).2 at hnext
    rcases limitedStep_cases limit o q with he | ⟨_, _, _, -, -, he⟩
    swap
    · rw [he] at hnext
      exact Or.inl ⟨q, hnext, r, hr, hkey, hgiven⟩
    rw [he] at hnext
    have hstays : ∀ r' : JoinRequestRecord, refreshedBy o r = r' → requestKey r' = key →
        Given r'.createdAt → leavesJoinRequests o r' ≠ true →
        ∃ r' ∈ (queueStep o q).2.joinRequests, requestKey r' = key ∧ Given r'.createdAt := by
      intro r' hrefreshed hkey' hgiven' hleaves
      refine ⟨r', ?_, hkey', hgiven'⟩
      rw [(queueStep_keepsOrder o q).joinRequests]
      refine List.mem_append_left _ (List.mem_filter.mpr ⟨?_, by simp [hleaves]⟩)
      exact hrefreshed ▸ List.mem_map_of_mem hr
    by_cases hlost : RequestLost key Given o
    · exact Or.inr ⟨o, hop, hlost⟩
    · refine Or.inl ⟨_, hnext, ?_⟩
      rw [RequestLost, not_or] at hlost
      obtain ⟨hnew, hretired⟩ := hlost
      cases o with
      | storeJoinRequest record =>
        by_cases hsame : requestKey r = requestKey record
        · have hrecord : requestKey record = key := hsame.symm.trans hkey
          have hgiven' : Given record.createdAt := by
            by_contra hnot
            exact hnew ⟨record, rfl, hrecord, hnot⟩
          exact hstays record (refresh_same record r hsame) hrecord hgiven' (by
            simp [leavesJoinRequests])
        · exact hstays r (refresh_other record r hsame) hkey hgiven (by
            simp [leavesJoinRequests])
      | _ => exact hstays r rfl hkey hgiven fun hleaves => hretired ⟨r, hkey, hgiven, hleaves⟩

theorem fetch_shows {fetch : JoinRequestFetch} {s : σ} {q : Queues} (hR : R s q)
    {out : List JoinRequestRecord}
    (hanswer : ((fetchCall fetch : StorageCall V _).perform S s).1 = .ok out)
    {r : JoinRequestRecord} (hr : r ∈ q.joinRequests) (hgroup : r.groupId ∈ fetch.groupIds)
    (hstays : leavesJoinRequests fetch.op r ≠ true) : r ∈ out := by
  have hstep : Answer.joinRequests (.ok out) = (limitedStep limit fetch.op q).1 := by
    rw [← (hS.queues fetch.op s q hR).1, ← hanswer]
    cases fetch <;> rfl
  rcases limitedStep_cases limit fetch.op q with he | ⟨_, _, _, -, -, he⟩
  · have hleft : r ∈ (queueStep fetch.op q).2.joinRequests := by
      rw [CoordinatorOps.fetch_left]
      exact List.mem_filter.mpr ⟨hr, by simpa using hstays⟩
    have hshown := CoordinatorOps.fetch_returned fetch q r hleft hgroup
    rw [he] at hstep
    rwa [← hstep] at hshown
  · rw [he] at hstep
    cases hstep

end Queues

theorem queues_after {A : CoordinatorAdapter V σ L} {limit : FetchLimit} {R : σ → Queues → Prop}
    (hS : KeepsQueues A.storage limit R) {init : σ × L} (hinit : ∃ q, R init.1 q)
    (events : List Event) :
    ∃ q, R (poolAfter A init events).shared.1 q :=
  kept_after (P := fun state => ∃ q, R state.1 q)
    (fun op state ⟨q, hq⟩ => ⟨_, queues_perform hS A.rateLimiter op state q hq⟩) hinit events

def WelcomeRetired (w : WelcomeQueueRecord) : Performed V → Prop
  | ⟨_, .call c (.fetchPendingWelcomes consumed), ⟨_, .storage (.fetchPendingWelcomes _ _), _⟩⟩ =>
    c.clientPubkey = w.targetStablePubkey ∧
      ⟨w.keyPackageReference, w.createdAt⟩ ∈ consumed.getD []
  | ⟨_, .cleanup maxAgeMs now, ⟨_, .storage (.deleteExpiredWelcomes _), _⟩⟩ =>
    expired (threshold maxAgeMs now) w.createdAt = true
  | _ => False

theorem welcomeRetired_of_leaves {A : CoordinatorAdapter V σ L} {P : Past V} {x : Performed V}
    (h : Authorised A P x.request x.done.2.1) {o : QueueOps.Op} (ho : onQueues x.done = some o)
    {w : WelcomeQueueRecord} (hleaves : leavesWelcomes o w = true) : WelcomeRetired w x := by
  obtain ⟨n, job, β, op, answer⟩ := x
  cases op with
  | check key now => cases ho
  | publishLive record => cases ho
  | storage op =>
    cases op with
    | fetchPendingWelcomes target consumed =>
      obtain rfl := Option.some.inj ho
      obtain ⟨htarget, href⟩ := (decide_eq_true_eq (p := _ ∧ _)).mp hleaves
      cases job with
      | cleanup maxAgeMs now => cases h
      | call c request =>
        obtain ⟨-, hclient, acks, rfl, hacks⟩ := h
        obtain rfl : target = c.clientPubkey := hclient
        obtain rfl : consumed = acks.getD [] := hacks
        exact ⟨htarget.symm, href⟩
    | deleteExpiredWelcomes threshold =>
      obtain rfl := Option.some.inj ho
      cases job with
      | cleanup maxAgeMs now =>
        obtain rfl : threshold = _ := h
        exact hleaves
      | call c request => cases h.2
    | storeWelcome | storeJoinRequest | fetchPendingJoinRequests | fetchManyPendingJoinRequests
    | deleteExpiredJoinRequests =>
      obtain rfl := Option.some.inj ho
      cases hleaves
    | _ => cases ho

/-- A welcome that a reply has acknowledged is in every later reply to its target,
unless its target has acknowledged it or a clean-up round found it too old. -/
def WelcomesLast (A : CoordinatorAdapter V σ L) (init : σ × L) : Prop :=
  ∀ (events : List Event) (event : Event) (later : List Event) (fetch : Event) (c c' : Caller)
    (input : StoreWelcomeInput) (reply : Reply) (consumed : Option (List ConsumedWelcomeRef))
    (welcomes : List PendingWelcome),
  answerTo A init events event = some (.call c (.storeWelcome input), .replied (.ok reply)) →
  answerTo A init (events ++ [event] ++ later) fetch =
    some (.call c' (.fetchPendingWelcomes consumed), .replied (.ok (.welcomes welcomes))) →
  c'.clientPubkey = input.targetPk →
  ∃ bytes, A.externals.b64Decode input.welcome64 = some bytes ∧
    (⟨input.kpRef, A.externals.b64Encode bytes, c.now, input.after⟩ ∈ welcomes ∨
      ∃ x ∈ performedSince A init (events ++ [event]) (later ++ [fetch]),
        WelcomeRetired ⟨input.targetPk, input.kpRef, bytes, c.now, input.after⟩ x)

theorem welcomesLast {A : CoordinatorAdapter V σ L} {limit : FetchLimit} {R : σ → Queues → Prop}
    (hS : KeepsQueues A.storage limit R) {init : σ × L} (hinit : ∃ q, R init.1 q)
    (hauthority : ∀ events, WithinAuthority A init events) : WelcomesLast A init := by
  intro events event later fetch c c' input reply consumed welcomes hstored hfetched hclient
  obtain ⟨-, β, op, -, hshared, bytes, record, hbytes, hop⟩ :=
    replied_since events event rfl hstored
  refine ⟨bytes, hbytes, ?_⟩
  generalize hw : (⟨input.targetPk, input.kpRef, bytes, c.now, input.after⟩ :
    WelcomeQueueRecord) = w at hop
  -- the reply finds the welcome in its queue
  have hstart : ∃ q, R (poolAfter A init (events ++ [event])).shared.1 q ∧ w ∈ q.welcomes := by
    obtain ⟨q, hq⟩ := queues_after hS hinit events
    obtain ⟨rfl, hcall⟩ := Sigma.mk.inj hop
    obtain ⟨rfl, -⟩ := Prod.mk.inj (eq_of_heq hcall)
    refine ⟨_, hshared ▸ queues_perform hS A.rateLimiter (.storage (.storeWelcome w)) _ q hq, ?_⟩
    exact List.mem_append_right _ (List.mem_singleton.mpr rfl)
  rw [performedSince_append]
  rcases kept_since (LosesWelcome w) (welcome_kept hS A.rateLimiter w) (events ++ [event]) later
      hstart with ⟨q, hq, hpending⟩ | ⟨x, hx, o, ho, hleaves⟩
  · obtain ⟨n, γ, op', hperformed, -, records, hop', hreply⟩ := replied_since _ fetch rfl hfetched
    obtain ⟨rfl, hcall⟩ := Sigma.mk.inj hop'
    obtain ⟨rfl, hanswer⟩ := Prod.mk.inj (eq_of_heq hcall)
    obtain rfl := Reply.welcomes.inj hreply
    have hfetch := (hS.queues (.fetchPendingWelcomes c'.clientPubkey (consumed.getD [])) _ q hq).1
    have hrecords := Except.ok.inj (hanswer.symm.trans (Answer.welcomes.inj hfetch))
    by_cases hacked : ackedWelcome c'.clientPubkey (consumed.getD []) w = true
    · obtain ⟨htarget, href⟩ := (decide_eq_true_eq (p := _ ∧ _)).mp hacked
      refine Or.inr ⟨_, List.mem_append_right _ (hperformed ▸ List.mem_singleton.mpr rfl), ?_⟩
      exact ⟨htarget.symm, href⟩
    · refine Or.inl (List.mem_map.mpr ⟨w, ?_, by rw [← hw]⟩)
      rw [hrecords]
      refine List.mem_filter.mpr ⟨List.mem_filter.mpr ⟨hpending, by simp [hacked]⟩, ?_⟩
      exact decide_eq_true (hw ▸ hclient.symm)
  · obtain ⟨first, behind, hsplit⟩ := List.append_of_mem hx
    have hallowed := authorised_since (hauthority _) hsplit
    exact Or.inr ⟨x, List.mem_append_left _ hx, welcomeRetired_of_leaves hallowed ho hleaves⟩

def Refreshes (groupId requester : String) (createdAt : Int) : Performed V → Prop
  | ⟨_, .call c (.storeJoinRequest input), ⟨_, .storage (.storeJoinRequest _), _⟩⟩ =>
    input.gid = groupId ∧ c.clientPubkey = requester ∧ c.now = createdAt
  | _ => False

/-- A fetch of its group acknowledged the request under a time at which it was made, or
a clean-up round found it too old. -/
def JoinRequestRetired (groupId requester : String) (Given : Int → Prop) : Performed V → Prop
  | ⟨_, .call _ (.fetchManyPendingJoinRequests groups consumed),
      ⟨_, .storage (.fetchManyPendingJoinRequests _ _), _⟩⟩ =>
    groupId ∈ groups ∧ ∃ t, Given t ∧ ⟨groupId, requester, t⟩ ∈ consumed.getD []
  | ⟨_, .call _ (.fetchManyPendingJoinRequests groups consumed),
      ⟨_, .storage (.fetchPendingJoinRequests fetched _), _⟩⟩ =>
    fetched = groupId ∧ groupId ∈ groups ∧
      ∃ t, Given t ∧ ⟨groupId, requester, t⟩ ∈ consumed.getD []
  | ⟨_, .cleanup maxAgeMs now, ⟨_, .storage (.deleteExpiredJoinRequests _), _⟩⟩ =>
    ∃ t, Given t ∧ expired (threshold maxAgeMs now) t = true
  | _ => False

theorem retired_of_requestLost {A : CoordinatorAdapter V σ L} {P : Past V} {x : Performed V}
    (h : Authorised A P x.request x.done.2.1) {o : QueueOps.Op} (ho : onQueues x.done = some o)
    {groupId requester : String} {Given : Int → Prop}
    (hlost : RequestLost (groupId, requester) Given o) :
    (∃ t, ¬Given t ∧ Refreshes groupId requester t x) ∨
      JoinRequestRetired groupId requester Given x := by
  obtain ⟨n, job, β, op, answer⟩ := x
  cases op with
  | check key now => cases ho
  | publishLive record => cases ho
  | storage op =>
    cases op with
    | storeJoinRequest record =>
      obtain rfl := Option.some.inj ho
      rcases hlost with ⟨record', hrecord, hkey, hnot⟩ | ⟨r, -, -, hleaves⟩
      · obtain rfl := QueueOps.Op.storeJoinRequest.inj hrecord
        cases job with
        | cleanup maxAgeMs now => cases h
        | call c request =>
          obtain ⟨-, -, input, rfl, rfl⟩ := h
          obtain ⟨hgroup, hrequester⟩ := Prod.mk.inj hkey
          exact Or.inl ⟨c.now, hnot, hgroup, hrequester, rfl⟩
      · cases hleaves
    | fetchPendingJoinRequests fetched consumed =>
      obtain rfl := Option.some.inj ho
      rcases hlost with ⟨record, hrecord, -⟩ | ⟨r, hkey, hgiven, hleaves⟩
      · cases hrecord
      · obtain ⟨hgroup, hrequester⟩ := Prod.mk.inj hkey
        obtain ⟨hnamed, hacked⟩ := (decide_eq_true_eq (p := _ ∧ _)).mp hleaves
        cases job with
        | cleanup maxAgeMs now => cases h
        | call c request =>
          obtain ⟨-, groups, acks, rfl, hgroups, rfl⟩ := h
          rw [partition_bucket] at hacked
          have hacks := (mem_acksFor _ _ _ _).mp hacked
          obtain rfl : groupId = fetched := hgroup.symm.trans hnamed
          exact Or.inr ⟨rfl, hgroups, r.createdAt, hgiven, hrequester ▸ hacks⟩
    | fetchManyPendingJoinRequests groupIds consumed =>
      obtain rfl := Option.some.inj ho
      rcases hlost with ⟨record, hrecord, -⟩ | ⟨r, hkey, hgiven, hleaves⟩
      · cases hrecord
      · obtain ⟨hgroup, hrequester⟩ := Prod.mk.inj hkey
        obtain ⟨hnamed, hacked⟩ := (Bool.and_eq_true _ _ ▸ hleaves : _ ∧ _)
        cases job with
        | cleanup maxAgeMs now => cases h
        | call c request =>
          obtain ⟨-, acks, rfl, rfl⟩ := h
          refine Or.inr ⟨hgroup ▸ of_decide_eq_true hnamed, r.createdAt, hgiven, ?_⟩
          exact hgroup ▸ hrequester ▸ of_decide_eq_true hacked
    | deleteExpiredJoinRequests threshold =>
      obtain rfl := Option.some.inj ho
      rcases hlost with ⟨record, hrecord, -⟩ | ⟨r, -, hgiven, hleaves⟩
      · cases hrecord
      · cases job with
        | cleanup maxAgeMs now =>
          obtain rfl : threshold = _ := h
          exact Or.inr ⟨r.createdAt, hgiven, hleaves⟩
        | call c request => cases h.2
    | storeWelcome | fetchPendingWelcomes | deleteExpiredWelcomes =>
      obtain rfl := Option.some.inj ho
      rcases hlost with ⟨record, hrecord, -⟩ | ⟨r, -, -, hleaves⟩
      · cases hrecord
      · cases hleaves
    | _ => cases ho

/-- A join request that a reply has acknowledged is in the reply to every fetch that
comes in from then on and names its group, as it was made or as its requester has
refreshed it, unless a fetch of the group has acknowledged it or a clean-up round found
it too old. -/
def JoinRequestsLast (A : CoordinatorAdapter V σ L) (init : σ × L) : Prop :=
  ∀ (events : List Event) (event : Event) (later : List Event) (n : ℕ) (c c' : Caller)
    (input : StoreJoinRequestInput) (reply : Reply) (groups : List String)
    (consumed : Option (List ConsumedJoinRequestWithGroupRef)) (records : List JoinRequestRecord),
  answerTo A init events event = some (.call c (.storeJoinRequest input), .replied (.ok reply)) →
  (poolAfter A init (events ++ [event])).calls.length ≤ n →
  answerTo A init (events ++ [event] ++ later) (.advance n) =
    some (.call c' (.fetchManyPendingJoinRequests groups consumed),
      .replied (.ok (.joinRequests records))) →
  input.gid ∈ groups →
  let since := performedSince A init (events ++ [event]) (later ++ [.advance n])
  let Given := fun t => t = c.now ∨ ∃ x ∈ since, Refreshes input.gid c.clientPubkey t x
  (∃ r ∈ records, r.groupId = input.gid ∧ r.requesterStablePubkey = c.clientPubkey ∧
      Given r.createdAt) ∨
    ∃ x ∈ since, JoinRequestRetired input.gid c.clientPubkey Given x

theorem stored_joinRequest {q : Queues} {record stored : JoinRequestRecord}
    (h : (q.storeJoinRequest record).1 = .ok stored) :
    record ∈ (q.storeJoinRequest record).2.joinRequests := by
  by_cases hadmits : CoordinatorOps.Admits record
      (q.joinRequests.filter (QueueOps.inGroup record.groupId))
  · exact (CoordinatorOps.mem_storeJoinRequest q record record hadmits).2.mpr (Or.inl rfl)
  · rw [CoordinatorOps.storeJoinRequest_refused q record hadmits] at h
    cases h

theorem fetched_group {A : CoordinatorAdapter V σ L} {init : σ × L} {events later : List Event}
    {n : ℕ} {c : Caller} {groups : List String}
    {consumed : Option (List ConsumedJoinRequestWithGroupRef)} {records : List JoinRequestRecord}
    (hcame : (poolAfter A init events).calls.length ≤ n)
    (h : answerTo A init (events ++ later) (.advance n) =
      some (.call c (.fetchManyPendingJoinRequests groups consumed),
        .replied (.ok (.joinRequests records))))
    {groupId : String} (hgroup : groupId ∈ groups) :
    ∃ fetch : JoinRequestFetch, groupId ∈ fetch.groupIds ∧ ∃ out ⊆ records,
      ∃ x ∈ performedSince A init events (later ++ [.advance n]),
        x.done = ⟨_, .storage (fetchCall fetch), .ok out⟩ := by
  obtain ⟨m, passed, behind, hm, hown, hreplies⟩ := replied_own h
  obtain rfl := Interleaving.Event.advance.inj hm
  rw [List.append_assoc, own_since events _ hcame] at hown
  obtain ⟨_, hfetched, hrecords⟩ := hreplies.map
  obtain rfl := Reply.joinRequests.inj hrecords
  have hperformed : ∀ done ∈ behind,
      ∃ x ∈ performedSince A init events (later ++ [.advance n]), x.done = done := by
    intro done hdone
    have hmem : done ∈ ofCall n (performedSince A init events (later ++ [.advance n])) :=
      hown ▸ List.mem_cons_of_mem _ hdone
    obtain ⟨x, hx, hsame⟩ := List.mem_map.mp hmem
    exact ⟨x, (List.mem_filter.mp hx).1, hsame⟩
  rcases replies_fetchJoinRequests A hfetched with hmany | heach
  · exact ⟨.many groups (consumed.getD []), hgroup, _, List.Subset.refl _, hperformed _ hmany⟩
  · obtain ⟨out, hout, hone⟩ := heach groupId hgroup
    exact ⟨.one groupId _, List.mem_singleton.mpr rfl, out, hout, hperformed _ hone⟩

theorem joinRequestsLast {A : CoordinatorAdapter V σ L} {limit : FetchLimit} {R : σ → Queues → Prop}
    (hS : KeepsQueues A.storage limit R) {init : σ × L} (hinit : ∃ q, R init.1 q)
    (hauthority : ∀ events, WithinAuthority A init events) : JoinRequestsLast A init := by
  intro events event later n c c' input reply groups consumed records hstored hcame hfetched hgroup
    since Given
  have hnow : Given c.now := Or.inl rfl
  have hrefreshed : ∀ x ∈ since, ∀ t, Refreshes input.gid c.clientPubkey t x → Given t :=
    fun x hx t ht => Or.inr ⟨x, hx, ht⟩
  have hsince : performedSince A init (events ++ [event]) (later ++ [.advance n]) = since := rfl
  clear_value Given since
  -- whatever loses the request retires it
  have hretired : ∀ x ∈ since, LosesRequest (input.gid, c.clientPubkey) Given x.done →
      JoinRequestRetired input.gid c.clientPubkey Given x := by
    rintro x hx ⟨o, ho, hlost⟩
    obtain ⟨first, behind, hsplit⟩ := List.append_of_mem hx
    have hallowed := authorised_since (hauthority _) (hsince.trans hsplit)
    rcases retired_of_requestLost hallowed ho hlost with ⟨t, hnot, hagain⟩ | hgone
    · exact absurd (hrefreshed x hx t hagain) hnot
    · exact hgone
  obtain ⟨-, β, op, -, hshared, record, hop⟩ := replied_since events event rfl hstored
  have hstart : ∃ q, R (poolAfter A init (events ++ [event])).shared.1 q ∧
      ∃ r ∈ q.joinRequests, requestKey r = (input.gid, c.clientPubkey) ∧ Given r.createdAt := by
    obtain ⟨q, hq⟩ := queues_after hS hinit events
    obtain ⟨rfl, hcall⟩ := Sigma.mk.inj hop
    obtain ⟨rfl, hanswer⟩ := Prod.mk.inj (eq_of_heq hcall)
    obtain ⟨hstep, hnext⟩ := hS.queues
      (.storeJoinRequest ⟨input.gid, c.clientPubkey, input.kpRef, c.now⟩) _ q hq
    have haccepted := (QueueOps.Answer.joinRequest.inj hstep).symm.trans hanswer
    refine ⟨_, hshared ▸ hnext, _, stored_joinRequest haccepted, rfl, hnow⟩
  obtain ⟨fetch, hnamed, out, hout, x, hx, hdone⟩ := fetched_group hcame hfetched hgroup
  rw [hsince] at hx
  obtain ⟨first, behind, hsplit⟩ := List.append_of_mem hx
  obtain ⟨before, event', rest, next, -, hfirst, -, -, hanswer⟩ :=
    performedSince_split (hsince.trans hsplit)
  rcases kept_since (LosesRequest _ Given) (request_kept hS A.rateLimiter _ Given)
      (events ++ [event]) before hstart with ⟨q, hq, r, hr, hkey, hgiven⟩ | ⟨y, hy, hlost⟩
  · obtain ⟨hgid, hrequester⟩ := Prod.mk.inj hkey
    by_cases hacked : leavesJoinRequests fetch.op r = true
    · refine Or.inr ⟨x, hx, hretired x hx ⟨fetch.op, ?_, Or.inr ⟨r, hkey, hgiven, hacked⟩⟩⟩
      rw [hdone]
      cases fetch <;> rfl
    · refine Or.inl ⟨r, hout (fetch_shows hS hq ?_ hr (hgid ▸ hnamed) hacked), hgid, hrequester,
        hgiven⟩
      rw [hdone] at hanswer
      exact hanswer.symm
  · have hin : y ∈ since := by
      rw [hsplit]
      exact List.mem_append_left _ (hfirst ▸ hy)
    exact Or.inr ⟨y, hin, hretired y hin hlost⟩

end Cordn.Server
