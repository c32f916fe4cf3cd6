import Cordn.Schedules
import Cordn.StorageContracts

/-!
# What a call may do

Under every interleaving a call performs no operation but those its request is
for: it publishes under its caller's key, acknowledges its caller's welcomes,
and removes packages only under refs that its caller has published. What it hands
out was put in by a call, and an error it ends with is one that the request
accounts for.
-/

set_option autoImplicit false

namespace Cordn.Server
open Adapter

variable {V σ L α β : Type}

def requestsOf : List Event → List (Caller × Request)
  | [] => []
  | .start (.call c request)::events => (c, request)::requestsOf events
  | _::events => requestsOf events

theorem mem_requestsOf {events : List Event} {c : Caller} {request : Request}
    (h : .start (.call c request) ∈ events) : (c, request) ∈ requestsOf events := by
  induction events with
  | nil => cases h
  | cons event events ih =>
    rcases List.mem_cons.mp h with rfl | hrest
    · exact List.mem_cons_self
    · cases event with
      | advance n => exact ih hrest
      | start job =>
        cases job with
        | call c' request' => exact List.mem_cons_of_mem _ (ih hrest)
        | cleanup maxAgeMs now => exact ih hrest

structure Past (V : Type) where
  requests : List (Caller × Request)
  log : List (Performed V)

@[simp] theorem requestsOf_advance (events : List Event) (n : ℕ) :
    requestsOf (events ++ [.advance n]) = requestsOf events := by
  induction events with
  | nil => rfl
  | cons event events ih =>
    cases event with
    | advance m => exact ih
    | start job =>
      cases job with
      | call c request => exact congrArg (List.cons (c, request)) ih
      | cleanup maxAgeMs now => exact ih

variable (A : CoordinatorAdapter V σ L) (P : Past V)

/-- A publish of `c` has passed its admission, and the storage has accepted the package. -/
def PutIn (c : Caller) (input : PublishKeyPackageInput) (event : NostrEvent)
    (r : PublishedKeyPackageRecord V) : Prop :=
  ∃ x ∈ P.log, x.request = .call c (.publishKeyPackage input (some event)) ∧
    (∃ admitted, admission A c.clientPubkey input (some event) = .ok admitted ∧
      r = incomingRecord A c input admitted) ∧
    ∃ accepted, x.done = ⟨_, .storage (.publishKeyPackage r), .ok accepted⟩

def HasPublished (clientPubkey kpRef : String) : Prop :=
  ∃ c input event r, PutIn A P c input event r ∧ c.clientPubkey = clientPubkey ∧
    r.keyPackageRef = kpRef

def SentWelcome (w : WelcomeQueueRecord) : Prop :=
  ∃ c input, (c, Request.storeWelcome input) ∈ P.requests ∧ ∃ bytes,
    A.externals.b64Decode input.welcome64 = some bytes ∧
      w = ⟨input.targetPk, input.kpRef, bytes, c.now, input.after⟩

def AskedToJoin (r : JoinRequestRecord) : Prop :=
  ∃ c input, (c, Request.storeJoinRequest input) ∈ P.requests ∧
    r = ⟨input.gid, c.clientPubkey, input.kpRef, c.now⟩ ∧
      HasPublished A P c.clientPubkey input.kpRef

def Posted (m : GroupMessageRecord) : Prop :=
  ∃ c input, (c, Request.postGroupMessage input) ∈ P.requests ∧ input.gid = m.groupId ∧
    A.externals.b64Decode input.msg64 = some m.opaqueMessage ∧ c.now = m.createdAt

def facts : Facts V where
  keyPackage r := ∃ c input event, PutIn A P c input event r ∧ c.clientPubkey = r.stablePubkey
  welcome := SentWelcome A P
  joinRequest := AskedToJoin A P
  message := Posted A P

/-- The storage operations that a request of `c` is for. -/
def Entitled (c : Caller) (request : Request) : StorageCall V α → Prop
  | .publishKeyPackage record => ∃ input event admitted,
    request = .publishKeyPackage input (some event) ∧
      admission A c.clientPubkey input (some event) = .ok admitted ∧
      record = incomingRecord A c input admitted ∧ record.stablePubkey = c.clientPubkey
  | .listKeyPackagesForIdentity pk =>
    pk = c.clientPubkey ∧ ∃ input event, request = .publishKeyPackage input event
  | .listAllKeyPackages => request = .listAvailableKeyPackages
  | .getKeyPackage ref => (∃ kpRefs, request = .removeKeyPackages kpRefs ∧ ref ∈ kpRefs) ∨
      ∃ input, request = .storeJoinRequest input ∧ input.kpRef = ref
  | .removeKeyPackage ref => HasPublished A P c.clientPubkey ref ∧
      ((∃ kpRefs, request = .removeKeyPackages kpRefs ∧ ref ∈ kpRefs) ∨
        ∃ input event, request = .publishKeyPackage input event)
  | .consumeKeyPackage id => request = .consumeKeyPackage id
  | .storeWelcome record => ∃ input bytes, request = .storeWelcome input ∧
      A.externals.b64Decode input.welcome64 = some bytes ∧
      record = ⟨input.targetPk, input.kpRef, bytes, c.now, input.after⟩
  | .fetchPendingWelcomes target consumed => target = c.clientPubkey ∧
      ∃ acks, request = .fetchPendingWelcomes acks ∧ consumed = acks.getD []
  | .storeJoinRequest record => HasPublished A P c.clientPubkey record.keyPackageRef ∧
      ∃ input, request = .storeJoinRequest input ∧
        record = ⟨input.gid, c.clientPubkey, input.kpRef, c.now⟩
  | .fetchPendingJoinRequests groupId consumed =>
    ∃ groupIds acks, request = .fetchManyPendingJoinRequests groupIds acks ∧
      groupId ∈ groupIds ∧
      consumed = (partitionConsumedJoinRequests (acks.getD [])).bucket groupId
  | .fetchManyPendingJoinRequests groupIds consumed =>
    ∃ acks, request = .fetchManyPendingJoinRequests groupIds acks ∧ consumed = acks.getD []
  | .appendGroupMessage params => ∃ input bytes, request = .postGroupMessage input ∧
      A.externals.b64Decode input.msg64 = some bytes ∧ params = ⟨input.gid, bytes, c.now⟩
  | .fetchManyGroupMessages groups => request = .fetchManyGroupMessages groups
  | .deleteExpiredWelcomes _ | .deleteExpiredJoinRequests _ => False

def Authorised : Job → ServerCall V α → Prop
  | .call c _, .check key now => key = c.clientPubkey ∧ now = c.limiterNow
  | .call c request, .storage op => (c, request) ∈ P.requests ∧ Entitled A P c request op
  | .call c request, .publishLive record => ∃ input bytes, request = .postGroupMessage input ∧
    A.externals.b64Decode input.msg64 = some bytes ∧ Appends ⟨input.gid, bytes, c.now⟩ record
  | .cleanup maxAgeMs now, .storage (.deleteExpiredWelcomes threshold) =>
    threshold = CoordinatorOps.threshold maxAgeMs now
  | .cleanup maxAgeMs now, .storage (.deleteExpiredJoinRequests threshold) =>
    threshold = CoordinatorOps.threshold maxAgeMs now
  | .cleanup _ _, _ => False

def Known (n : ℕ) (job : Job) (done : Answered (ServerCall V)) : Prop := ⟨n, job, done⟩ ∈ P.log

def authority (n : ℕ) (job : Job) : Contract (ServerCall V) where
  asks := Authorised A P job
  promises op answer := Known P n job ⟨_, op, answer⟩ ∧ (contract (facts A P)).promises op answer

variable {A} {P}

theorem PutIn.hasPublished {c : Caller} {input : PublishKeyPackageInput} {event : NostrEvent}
    {r : PublishedKeyPackageRecord V} (h : PutIn A P c input event r) {pk : String}
    (hclient : c.clientPubkey = pk) : HasPublished A P pk r.keyPackageRef :=
  ⟨c, input, event, r, h, hclient, rfl⟩

theorem asks_of_entitled {c : Caller} {request : Request} (hmem : (c, request) ∈ P.requests)
    {op : StorageCall V α} (h : Entitled A P c request op) : asks (facts A P) op := by
  cases op with
  | storeWelcome record =>
    obtain ⟨input, bytes, rfl, hbytes, rfl⟩ := h
    exact ⟨c, input, hmem, bytes, hbytes, rfl⟩
  | storeJoinRequest record =>
    obtain ⟨hown, input, rfl, rfl⟩ := h
    exact ⟨c, input, hmem, rfl, hown⟩
  | appendGroupMessage params =>
    obtain ⟨input, bytes, rfl, hbytes, rfl⟩ := h
    rintro m ⟨hgroup, hmessage, hcreated⟩
    exact ⟨c, input, hmem, hgroup.symm, hbytes.trans (congrArg some hmessage.symm), hcreated.symm⟩
  | _ => trivial

theorem putIn_of_known {n : ℕ} {job : Job} {record r : PublishedKeyPackageRecord V}
    (hop : Authorised A P job (.storage (.publishKeyPackage record)))
    (hdone : Known P n job ⟨_, .storage (.publishKeyPackage record), .ok r⟩) :
    (facts A P).keyPackage record := by
  cases job with
  | cleanup maxAgeMs now => cases hop
  | call c request =>
    obtain ⟨-, input, event, admitted, rfl, hadmitted, hrecord, hclient⟩ := hop
    exact ⟨c, input, event, ⟨_, hdone, rfl, ⟨admitted, hadmitted, hrecord⟩, r, rfl⟩,
      hclient.symm⟩

theorem machine_upholds_authority {S : CoordinatorStorage V σ} {limit : FetchLimit}
    {Kept : σ → Prop} {unique : Bool} {R : σ → QueueOps.Queues → Prop}
    {Holds : (GroupMessageRecord → Prop) → σ → Prop}
    (hS : Backed S limit Kept unique R Holds) (rateLimiter : RateLimiter L) (n : ℕ) (job : Job) :
    (machine S rateLimiter).Upholds (authority A P n job) (Known P n job)
      (fun state => Knows S Kept R Holds (facts A P) state.1) := by
  intro β op state h hop hdone
  have hfacts : ∀ record r, (⟨β, op, ((machine S rateLimiter).perform op state).1⟩ :
      Answered (ServerCall V)) = ⟨_, .storage (.publishKeyPackage record), .ok r⟩ →
      (facts A P).keyPackage record := by
    intro record r heq
    have hknown := heq ▸ hdone
    obtain ⟨rfl, hcall⟩ := Sigma.mk.inj heq
    obtain ⟨rfl, -⟩ := Prod.mk.inj (eq_of_heq hcall)
    exact putIn_of_known hop hknown
  have hasks : (contract (facts A P)).asks op := by
    cases op with
    | check key now => trivial
    | publishLive record => trivial
    | storage op =>
      cases job with
      | call c request => exact asks_of_entitled hop.1 hop.2
      | cleanup maxAgeMs now =>
        cases op with
        | deleteExpiredWelcomes | deleteExpiredJoinRequests => trivial
        | _ => cases hop
  obtain ⟨hpromise, hnext⟩ := machine_upholds hS rateLimiter (facts A P)
    (fun done => done = ⟨β, op, ((machine S rateLimiter).perform op state).1⟩)
    (fun record r heq => hfacts record r heq.symm) op state h hasks rfl
  exact ⟨⟨hdone, hpromise⟩, hnext⟩

variable (A) (P)

def NotOwn (Unknown : String → Prop) (c : Caller) (kpRef : String) (e : AdapterError) : Prop :=
  e = .unknownKeyPackageRef kpRef ∧ Unknown kpRef ∨ e = .unauthorizedKeyPackageRef kpRef ∧
    ∃ other, other ≠ c.clientPubkey ∧ HasPublished A P other kpRef

/-- Why a request of `c` may be refused behind the limiter, the storage aside. -/
def Refusable (Unknown : String → Prop) (c : Caller) : Request → AdapterError → Prop
  | .publishKeyPackage input event, e => admission A c.clientPubkey input event = .error e ∨
      e = .quotaExceeded ∧ 0 < A.keyPackageQuota.maxPerIdentity
  | .consumeKeyPackage id, e => requireNonEmpty id "id" = .error e ∨
      ∃ r, (facts A P).keyPackage r ∧ (r.keyPackageRef = id ∨ r.stablePubkey = id) ∧
        consumedKeyPackage A r = .error e
  | .removeKeyPackages kpRefs, e =>
    kpRefs.isEmpty = true ∧ e = .invalidInput "kp_refs must be non-empty" ∨
      ∃ kpRef ∈ kpRefs, NotOwn A P Unknown c kpRef e
  | .storeWelcome input, e => requireNonEmpty input.targetPk "target_pk" = .error e ∨
      requireNonEmpty input.kpRef "kp_ref" = .error e ∨
      requireNonEmpty input.welcome64 "welcome_64" = .error e ∨
      A.externals.b64Decode input.welcome64 = none ∧ e = .invalidWelcome
  | .storeJoinRequest input, e => requireNonEmpty input.gid "gid" = .error e ∨
      requireNonEmpty input.kpRef "kp_ref" = .error e ∨ NotOwn A P Unknown c input.kpRef e
  | .fetchManyPendingJoinRequests groups _, e => requireGroups groups = .error e
  | .postGroupMessage input, e => requireNonEmpty input.gid "gid" = .error e ∨
      requireNonEmpty input.msg64 "msg_64" = .error e ∨
      A.externals.b64Decode input.msg64 = none ∧ e = .invalidMessage
  | .fetchManyGroupMessages groups, e =>
    requireGroups groups = .error e ∨ requirePositiveCursors groups = .error e
  | .listAvailableKeyPackages, _ | .fetchPendingWelcomes _, _ => False

def RefusedWith (Unknown : String → Prop) (c : Caller) (request : Request) (e : AdapterError) :
    Prop :=
  (∃ error, e = .storage error) ∨ Refusable A P Unknown c request e

variable {A} {P} in
theorem RefusedWith.mono {Unknown Unknown' : String → Prop} {c : Caller} {request : Request}
    {e : AdapterError} (h : RefusedWith A P Unknown c request e)
    (hmono : ∀ kpRef, Unknown kpRef → Unknown' kpRef) : RefusedWith A P Unknown' c request e := by
  have hown : ∀ {kpRef}, NotOwn A P Unknown c kpRef e → NotOwn A P Unknown' c kpRef e :=
    fun h => h.imp_left fun ⟨he, hunknown⟩ => ⟨he, hmono _ hunknown⟩
  refine h.imp_right fun hrefusable => ?_
  cases request with
  | removeKeyPackages kpRefs =>
    exact hrefusable.imp_right fun ⟨kpRef, hmem, h⟩ => ⟨kpRef, hmem, hown h⟩
  | storeJoinRequest input => exact hrefusable.imp_right (Or.imp_right hown)
  | _ => exact hrefusable

def Unfound (n : ℕ) (c : Caller) (request : Request) (kpRef : String) : Prop :=
  Known P n (.call c request) ⟨_, .storage (.getKeyPackage kpRef), .ok none⟩

def Acts (n : ℕ) (c : Caller) (request : Request) (Q : α → Prop) (p : Handler V α) : Prop :=
  p.program.Meets (authority A P n (.call c request)) fun result =>
    (∀ a, result = .ok a → Q a) ∧
      ∀ e, result = .error e → RefusedWith A P (Unfound P n c request) c request e

def HandsOut (c : Caller) : Request → Reply → Prop
  | .consumeKeyPackage id, .consumed found => ∀ kp ∈ found, ∃ r, (facts A P).keyPackage r ∧
    (r.keyPackageRef = id ∨ r.stablePubkey = id) ∧ consumedKeyPackage A r = .ok kp
  | .listAvailableKeyPackages, .available keyPackages =>
    ∀ kp ∈ keyPackages, ∃ r, (facts A P).keyPackage r ∧
      kp = ⟨r.stablePubkey, r.keyPackageRef, r.isLastResort, r.publishedAt⟩
  | .removeKeyPackages kpRefs, .removed removed =>
    removed = kpRefs ∧ ∀ kpRef ∈ removed, HasPublished A P c.clientPubkey kpRef
  | .fetchPendingWelcomes consumed, .welcomes welcomes =>
    ∀ w ∈ welcomes, ∃ r, SentWelcome A P r ∧ r.targetStablePubkey = c.clientPubkey ∧
      ⟨r.keyPackageReference, r.createdAt⟩ ∉ consumed.getD [] ∧
      w = ⟨r.keyPackageReference, A.externals.b64Encode r.welcomeBytes, r.createdAt,
        r.joinAfterCursor⟩
  | .fetchManyPendingJoinRequests groups _, .joinRequests joinRequests =>
    ∀ r ∈ joinRequests, AskedToJoin A P r ∧ r.groupId ∈ groups
  | .fetchManyGroupMessages groups, .messages messages =>
    ∀ m ∈ messages, ∃ r, Posted A P r ∧ (∃ g ∈ groups, g.groupId = r.groupId) ∧
      m = ⟨r.cursor, r.groupId, A.externals.b64Encode r.opaqueMessage, r.createdAt⟩
  | .publishKeyPackage input _, .published output => output.kpRef = input.kpRef ∧
    output.publishedAt = c.now
  | .storeWelcome _, .storedAt createdAt => createdAt = c.now
  | .storeJoinRequest input, .storedAt createdAt =>
    createdAt = c.now ∧ HasPublished A P c.clientPubkey input.kpRef
  | .postGroupMessage input, .posted output => output.gid = input.gid ∧ output.createdAt = c.now
  | _, _ => False

variable {A} {P}

section Rules

variable {n : ℕ} {c : Caller} {request : Request} {Q : α → Prop} {Q' : β → Prop}

theorem acts_reply {result : Except AdapterError α} (hok : ∀ a, result = .ok a → Q a)
    (herror : ∀ e, result = .error e → Refusable A P (Unfound P n c request) c request e) :
    Acts A P n c request Q (Handler.reply result) :=
  ⟨hok, fun e he => Or.inr (herror e he)⟩

theorem acts_pure {a : α} (h : Q a) : Acts A P n c request Q (pure a) :=
  acts_reply (fun _ hb => Except.ok.inj hb ▸ h) fun _ he => by cases he

theorem acts_refused {e : AdapterError} (h : RefusedWith A P (Unfound P n c request) c request e) :
    Acts A P n c request Q (Handler.reply (.error e)) := by
  constructor
  · intro a ha
    cases ha
  · intro e' he
    exact Except.error.inj he ▸ h

theorem acts_error {e : AdapterError} (h : Refusable A P (Unfound P n c request) c request e) :
    Acts A P n c request Q (Handler.reply (.error e)) :=
  acts_refused (Or.inr h)

theorem Acts.andThen {p : Handler V α} {q : α → Handler V β} (hp : Acts A P n c request Q p)
    (hq : ∀ a, Q a → Acts A P n c request Q' (q a)) : Acts A P n c request Q' (p >>= q) := by
  refine Program.Meets.bind hp fun result ⟨hok, herror⟩ => ?_
  cases result with
  | error e => exact acts_refused (herror e rfl)
  | ok a => exact hq a (hok a rfl)

theorem acts_check {result : Except AdapterError α} {q : α → Handler V β}
    (herror : ∀ e, result = .error e → Refusable A P (Unfound P n c request) c request e)
    (hq : ∀ a, result = .ok a → Acts A P n c request Q' (q a)) :
    Acts A P n c request Q' (Handler.reply result >>= q) :=
  Acts.andThen (acts_reply (fun _ h => h) herror) hq

theorem acts_onStorage {op : StorageCall V α} (hmem : (c, request) ∈ P.requests)
    (h : Entitled A P c request op) : Acts A P n c request
      (fun a => promises (facts A P) op a ∧
        Known P n (.call c request) ⟨_, .storage op, .ok a⟩) (Handler.onStorage op) := by
  refine ⟨⟨hmem, h⟩, fun result ⟨hdone, hpromise⟩ => ⟨fun a ha => ?_, fun e he => ?_⟩⟩
  · cases result with
    | error e => cases ha
    | ok b =>
      obtain rfl := Except.ok.inj ha
      exact ⟨hpromise _ rfl, hdone⟩
  · cases result with
    | error e' => exact Or.inl ⟨e', (Except.error.inj he).symm⟩
    | ok b => cases he

theorem acts_then {op : StorageCall V α} {q : α → Handler V β} (hmem : (c, request) ∈ P.requests)
    (h : Entitled A P c request op)
    (hq : ∀ a, promises (facts A P) op a → Acts A P n c request Q' (q a)) :
    Acts A P n c request Q' (Handler.onStorage op >>= q) :=
  Acts.andThen (acts_onStorage hmem h) fun a ha => hq a ha.1

theorem acts_ite {passed : Prop} [Decidable passed] {p p' : Handler V α}
    (h : passed → Acts A P n c request Q p) (h' : ¬passed → Acts A P n c request Q p') :
    Acts A P n c request Q (if passed then p else p') := by
  split
  · exact h ‹_›
  · exact h' ‹_›

end Rules

section Tools

variable {n : ℕ} {c : Caller} {request : Request}

theorem acts_removeEach {input : PublishKeyPackageInput} {event : Option NostrEvent}
    (hmem : (c, Request.publishKeyPackage input event) ∈ P.requests)
    (records : List (PublishedKeyPackageRecord V))
    (h : ∀ r ∈ records, HasPublished A P c.clientPubkey r.keyPackageRef) :
    Acts A P n c (.publishKeyPackage input event) (fun _ => True) (removeEach records) := by
  induction records with
  | nil => exact acts_pure trivial
  | cons record records ih =>
    have hfirst := h record (by simp)
    refine acts_then hmem ⟨hfirst, Or.inr ⟨input, event, rfl⟩⟩ fun _ _ => ?_
    exact ih fun r hr => h r (List.mem_cons_of_mem _ hr)

theorem acts_enforceKeyPackageQuota {input : PublishKeyPackageInput} {event : Option NostrEvent}
    (hmem : (c, Request.publishKeyPackage input event) ∈ P.requests) (incoming : Bool) :
    Acts A P n c (.publishKeyPackage input event) (fun _ => True)
      (enforceKeyPackageQuota A c.clientPubkey incoming) := by
  refine acts_then hmem ⟨rfl, input, event, rfl⟩ fun records hrecords => ?_
  refine acts_ite (fun _ => ?_) fun _ => acts_ite (fun hfull => acts_error (Or.inr ⟨rfl, hfull.1⟩))
    fun _ => acts_pure trivial
  refine Acts.andThen (Q := fun _ => True) ?_ fun _ _ =>
    acts_ite (fun hfull => acts_error (Or.inr ⟨rfl, hfull.1⟩)) fun _ => acts_pure trivial
  refine acts_ite (fun _ => acts_removeEach hmem _ fun r hr => ?_) fun _ => acts_pure trivial
  obtain ⟨⟨c', input', event', hput, hclient⟩, hpk⟩ :=
    hrecords r (List.mem_filter.mp (List.mem_of_mem_take hr)).1
  exact hput.hasPublished (hclient.trans hpk)

theorem acts_publish {input : PublishKeyPackageInput} {event : Option NostrEvent}
    (hmem : (c, Request.publishKeyPackage input event) ∈ P.requests) :
    Acts A P n c (.publishKeyPackage input event)
      (fun output => output.kpRef = input.kpRef ∧ output.publishedAt = c.now)
      (publishKeyPackage A c input event) := by
  refine acts_check (fun e he => Or.inl he) fun admitted hadmitted => ?_
  obtain ⟨rfl, -, -, hsigner, hidentity⟩ := admission_checked hadmitted
  have hclient : admitted.2.1.credentialIdentity = c.clientPubkey := hidentity.trans hsigner
  have hquota : Acts A P n c (.publishKeyPackage input (some admitted.2.2)) (fun _ => True)
      (enforceKeyPackageQuota A admitted.2.1.credentialIdentity admitted.2.1.isLastResort) :=
    hclient ▸ acts_enforceKeyPackageQuota hmem admitted.2.1.isLastResort
  refine Acts.andThen hquota fun _ _ => ?_
  have hentitled : Entitled A P c (.publishKeyPackage input (some admitted.2.2))
      (.publishKeyPackage (incomingRecord A c input admitted) : StorageCall V _) :=
    ⟨input, admitted.2.2, admitted, rfl, hadmitted, rfl, hclient⟩
  refine acts_then hmem hentitled fun record hrecord => ?_
  obtain rfl : record = incomingRecord A c input admitted := hrecord
  exact acts_pure ⟨rfl, rfl⟩

theorem acts_ownKeyPackage (hmem : (c, request) ∈ P.requests) {kpRef : String}
    (h : Entitled A P c request (.getKeyPackage kpRef : StorageCall V _))
    (hrefused : ∀ e, NotOwn A P (Unfound P n c request) c kpRef e →
      Refusable A P (Unfound P n c request) c request e) :
    Acts A P n c request (fun _ => HasPublished A P c.clientPubkey kpRef)
      (ownKeyPackage c kpRef) := by
  refine Acts.andThen (acts_onStorage hmem h) fun found ⟨hfound, hdone⟩ => ?_
  cases found with
  | none => exact acts_error (hrefused _ (Or.inl ⟨rfl, hdone⟩))
  | some record =>
    obtain ⟨⟨c', input, event, hput, hclient⟩, href⟩ := hfound record rfl
    have hpublished : HasPublished A P record.stablePubkey kpRef :=
      href ▸ hput.hasPublished hclient
    exact acts_ite (fun hother => acts_error (hrefused _ (Or.inr ⟨rfl, _, hother, hpublished⟩)))
      fun howner => acts_pure (not_not.mp howner ▸ hpublished)

theorem acts_removeLoop {all : List String} (hmem : (c, Request.removeKeyPackages all) ∈ P.requests)
    (kpRefs : List String) (h : kpRefs ⊆ all) :
    Acts A P n c (.removeKeyPackages all) (fun removed => removed = kpRefs ∧
      ∀ kpRef ∈ removed, HasPublished A P c.clientPubkey kpRef) (removeLoop c kpRefs) := by
  induction kpRefs with
  | nil => exact acts_pure ⟨rfl, by simp⟩
  | cons kpRef kpRefs ih =>
    have href : kpRef ∈ all := h (by simp)
    refine Acts.andThen (acts_ownKeyPackage hmem (Or.inl ⟨all, rfl, href⟩)
      fun e he => Or.inr ⟨kpRef, href, he⟩) fun _ hown => ?_
    refine acts_then hmem ⟨hown, Or.inl ⟨all, rfl, href⟩⟩ fun gone hgone => ?_
    refine Acts.andThen (ih fun ref href => h (List.mem_cons_of_mem _ href))
      fun removed hremoved => acts_pure ?_
    obtain ⟨rfl, hall⟩ := hremoved
    have hfirst : (gone.map (fun r => r.keyPackageRef)).getD kpRef = kpRef := by
      cases gone with
      | none => rfl
      | some r => exact (hgone r rfl).2
    rw [hfirst]
    exact ⟨rfl, by simpa using ⟨hown, hall⟩⟩

theorem acts_consume {id : String} (hmem : (c, Request.consumeKeyPackage id) ∈ P.requests) :
    Acts A P n c (.consumeKeyPackage id) (fun found => ∀ kp ∈ found, ∃ r,
      (facts A P).keyPackage r ∧ (r.keyPackageRef = id ∨ r.stablePubkey = id) ∧
        consumedKeyPackage A r = .ok kp) (consumeKeyPackage A id) := by
  refine acts_check (fun e he => Or.inl he) fun _ _ => acts_then hmem rfl fun found hfound => ?_
  cases found with
  | none => exact acts_pure (by simp)
  | some r =>
    obtain ⟨hfact, hnames⟩ := hfound r rfl
    refine acts_reply (fun out hout kp hkp => ?_) fun e he => Or.inr ?_
    · cases hr : consumedKeyPackage A r with
      | error e =>
        rw [hr] at hout
        cases hout
      | ok kp' =>
        rw [hr] at hout
        obtain rfl := Except.ok.inj hout
        obtain rfl := Option.some.inj hkp
        exact ⟨r, hfact, hnames, hr⟩
    · refine ⟨r, hfact, hnames, ?_⟩
      cases hr : consumedKeyPackage A r with
      | error e' =>
        rw [hr] at he
        exact congrArg Except.error (Except.error.inj he)
      | ok kp =>
        rw [hr] at he
        cases he

theorem acts_removeKeyPackages {kpRefs : List String}
    (hmem : (c, Request.removeKeyPackages kpRefs) ∈ P.requests) :
    Acts A P n c (.removeKeyPackages kpRefs) (fun removed => removed = kpRefs ∧
      ∀ kpRef ∈ removed, HasPublished A P c.clientPubkey kpRef) (removeKeyPackages c kpRefs) := by
  refine acts_check (fun e he => Or.inl ?_) fun _ _ => acts_removeLoop hmem kpRefs fun _ h => h
  split at he
  · exact ⟨‹_›, (Except.error.inj he).symm⟩
  · cases he

theorem acts_list (hmem : (c, Request.listAvailableKeyPackages) ∈ P.requests) :
    Acts A P n c .listAvailableKeyPackages (fun keyPackages => ∀ kp ∈ keyPackages, ∃ r,
      (facts A P).keyPackage r ∧
        kp = ⟨r.stablePubkey, r.keyPackageRef, r.isLastResort, r.publishedAt⟩)
      listAvailableKeyPackages := by
  refine acts_then hmem rfl fun records hrecords => acts_pure fun kp hkp => ?_
  obtain ⟨r, hr, rfl⟩ := List.mem_map.mp hkp
  exact ⟨r, hrecords r hr, rfl⟩

theorem acts_fetchWelcomes {consumed : Option (List ConsumedWelcomeRef)}
    (hmem : (c, Request.fetchPendingWelcomes consumed) ∈ P.requests) :
    Acts A P n c (.fetchPendingWelcomes consumed) (fun welcomes => ∀ w ∈ welcomes, ∃ r,
      SentWelcome A P r ∧ r.targetStablePubkey = c.clientPubkey ∧
      ⟨r.keyPackageReference, r.createdAt⟩ ∉ consumed.getD [] ∧
      w = ⟨r.keyPackageReference, A.externals.b64Encode r.welcomeBytes, r.createdAt,
        r.joinAfterCursor⟩) (fetchPendingWelcomes A c consumed) := by
  refine acts_then hmem ⟨rfl, consumed, rfl, rfl⟩ fun records hrecords =>
    acts_pure fun w hw => ?_
  obtain ⟨r, hr, rfl⟩ := List.mem_map.mp hw
  obtain ⟨hsent, htarget, hpending⟩ := hrecords r hr
  exact ⟨r, hsent, htarget, hpending, rfl⟩

theorem acts_storeWelcome {input : StoreWelcomeInput}
    (hmem : (c, Request.storeWelcome input) ∈ P.requests) :
    Acts A P n c (.storeWelcome input) (fun createdAt => createdAt = c.now)
      (storeWelcome A c input) := by
  refine acts_check (fun e he => Or.inl he) fun _ _ => ?_
  refine acts_check (fun e he => Or.inr (Or.inl he)) fun _ _ => ?_
  refine acts_check (fun e he => Or.inr (Or.inr (Or.inl he))) fun _ _ => ?_
  cases hbytes : A.externals.b64Decode input.welcome64 with
  | none => exact acts_error (Or.inr (Or.inr (Or.inr ⟨hbytes, rfl⟩)))
  | some bytes =>
    exact acts_then hmem ⟨input, bytes, rfl, hbytes, rfl⟩ fun record hrecord =>
      acts_pure (congrArg WelcomeQueueRecord.createdAt hrecord)

theorem acts_storeJoinRequest {input : StoreJoinRequestInput}
    (hmem : (c, Request.storeJoinRequest input) ∈ P.requests) :
    Acts A P n c (.storeJoinRequest input) (fun createdAt => createdAt = c.now ∧
      HasPublished A P c.clientPubkey input.kpRef) (storeJoinRequest c input) := by
  refine acts_check (fun e he => Or.inl he) fun _ _ => ?_
  refine acts_check (fun e he => Or.inr (Or.inl he)) fun _ _ => ?_
  refine Acts.andThen (acts_ownKeyPackage hmem (Or.inr ⟨input, rfl, rfl⟩)
    fun e he => Or.inr (Or.inr he)) fun _ hown => ?_
  exact acts_then hmem ⟨hown, input, rfl, rfl⟩ fun record hrecord =>
    acts_pure ⟨congrArg JoinRequestRecord.createdAt hrecord, hown⟩

theorem acts_fetchEachGroup {groups : List String}
    {consumed : Option (List ConsumedJoinRequestWithGroupRef)}
    (hmem : (c, Request.fetchManyPendingJoinRequests groups consumed) ∈ P.requests)
    (groupIds : List String) (h : groupIds ⊆ groups) :
    Acts A P n c (.fetchManyPendingJoinRequests groups consumed)
      (fun records => ∀ r ∈ records, AskedToJoin A P r ∧ r.groupId ∈ groups)
      (fetchEachGroup (partitionConsumedJoinRequests (consumed.getD [])) groupIds) := by
  induction groupIds with
  | nil => exact acts_pure (by simp)
  | cons groupId groupIds ih =>
    have hnamed : groupId ∈ groups := h (by simp)
    refine acts_then hmem ⟨groups, consumed, rfl, hnamed, rfl⟩ fun out hout => ?_
    refine Acts.andThen (ih fun g hg => h (List.mem_cons_of_mem _ hg)) fun more hmore => ?_
    refine acts_pure fun r hr => ?_
    rcases List.mem_append.mp hr with hfirst | hrest
    · obtain ⟨hasked, rfl⟩ := hout r hfirst
      exact ⟨hasked, hnamed⟩
    · exact hmore r hrest

theorem acts_fetchJoinRequests {groups : List String}
    {consumed : Option (List ConsumedJoinRequestWithGroupRef)}
    (hmem : (c, Request.fetchManyPendingJoinRequests groups consumed) ∈ P.requests) :
    Acts A P n c (.fetchManyPendingJoinRequests groups consumed)
      (fun records => ∀ r ∈ records, AskedToJoin A P r ∧ r.groupId ∈ groups)
      (fetchManyPendingJoinRequests A groups consumed) := by
  refine acts_check (fun _ he => he) fun _ _ => ?_
  rw [fetchJoinRequests]
  cases A.storage.joinRequestLocking with
  | once =>
    have hentitled : Entitled A P c (.fetchManyPendingJoinRequests groups consumed)
        (.fetchManyPendingJoinRequests groups (consumed.getD []) : StorageCall V _) :=
      ⟨consumed, rfl, rfl⟩
    refine Program.Meets.mono (acts_onStorage hmem hentitled) ?_
    rintro result ⟨hok, herror⟩
    exact ⟨fun a ha => (hok a ha).1, herror⟩
  | perGroup => exact acts_fetchEachGroup hmem groups fun _ h => h

theorem acts_post {input : PostGroupMessageInput}
    (hmem : (c, Request.postGroupMessage input) ∈ P.requests) :
    Acts A P n c (.postGroupMessage input)
      (fun output => output.gid = input.gid ∧ output.createdAt = c.now)
      (postGroupMessage A c input) := by
  refine acts_check (fun e he => Or.inl he) fun _ _ => ?_
  refine acts_check (fun e he => Or.inr (Or.inl he)) fun _ _ => ?_
  cases hbytes : A.externals.b64Decode input.msg64 with
  | none => exact acts_error (Or.inr (Or.inr ⟨hbytes, rfl⟩))
  | some bytes =>
    refine acts_then hmem ⟨input, bytes, rfl, hbytes, rfl⟩ fun record hrecord => ?_
    refine ⟨⟨input, bytes, rfl, hbytes, hrecord⟩, fun _ _ => ?_⟩
    exact acts_pure ⟨hrecord.1, hrecord.2.2⟩

theorem acts_fetchMessages {groups : List FetchGroupMessagesInput}
    (hmem : (c, Request.fetchManyGroupMessages groups) ∈ P.requests) :
    Acts A P n c (.fetchManyGroupMessages groups) (fun messages => ∀ m ∈ messages, ∃ r,
      Posted A P r ∧ (∃ g ∈ groups, g.groupId = r.groupId) ∧
        m = ⟨r.cursor, r.groupId, A.externals.b64Encode r.opaqueMessage, r.createdAt⟩)
      (fetchManyGroupMessages A groups) := by
  refine acts_check (fun e he => Or.inl he) fun _ _ => ?_
  refine acts_check (fun e he => Or.inr he) fun _ _ => ?_
  refine acts_then hmem rfl fun records hrecords => acts_pure fun m hm => ?_
  obtain ⟨r, hr, rfl⟩ := List.mem_map.mp hm
  obtain ⟨hposted, hgroup⟩ := hrecords r hr
  exact ⟨r, hposted, hgroup, rfl⟩

theorem acts_handle (hmem : (c, request) ∈ P.requests) :
    Acts A P n c request (HandsOut A P c request) (handle A c request) := by
  cases request with
  | publishKeyPackage input event => exact (acts_publish hmem).andThen fun _ h => acts_pure h
  | consumeKeyPackage id => exact (acts_consume hmem).andThen fun _ h => acts_pure h
  | listAvailableKeyPackages => exact (acts_list hmem).andThen fun _ h => acts_pure h
  | removeKeyPackages kpRefs => exact (acts_removeKeyPackages hmem).andThen fun _ h => acts_pure h
  | fetchPendingWelcomes consumed =>
    exact (acts_fetchWelcomes hmem).andThen fun _ h => acts_pure h
  | storeWelcome input => exact (acts_storeWelcome hmem).andThen fun _ h => acts_pure h
  | storeJoinRequest input => exact (acts_storeJoinRequest hmem).andThen fun _ h => acts_pure h
  | fetchManyPendingJoinRequests groups consumed =>
    exact (acts_fetchJoinRequests hmem).andThen fun _ h => acts_pure h
  | postGroupMessage input => exact (acts_post hmem).andThen fun _ h => acts_pure h
  | fetchManyGroupMessages groups => exact (acts_fetchMessages hmem).andThen fun _ h => acts_pure h

end Tools

variable (A) (P) in
/-- How a job may end: a call with a reply that hands out what it may, with the limiter's
refusal or with one that the request accounts for. -/
def MayEnd (n : ℕ) : Job → Outcome → Prop
  | .call c request, .replied (.ok reply) => HandsOut A P c request reply
  | .call c request, .replied (.error e) =>
    e = .rateLimitExceeded ∨ RefusedWith A P (Unfound P n c request) c request e
  | _, _ => True

theorem acts_program (n : ℕ) (job : Job)
    (hmem : ∀ c request, job = .call c request → (c, request) ∈ P.requests) :
    (program A job).Meets (authority A P n job) (MayEnd A P n job) := by
  cases job with
  | cleanup maxAgeMs now => exact ⟨rfl, fun _ _ => ⟨rfl, fun _ _ => trivial⟩⟩
  | call c request =>
    refine ⟨⟨rfl, rfl⟩, fun passed _ => ?_⟩
    cases passed with
    | false => exact Or.inl rfl
    | true =>
      refine Program.Meets.bind (acts_handle (hmem c request rfl)) fun result ⟨hok, herror⟩ => ?_
      cases result with
      | ok reply => exact hok reply rfl
      | error e => exact Or.inr (herror e rfl)

section Moments

variable (A) (init : σ × L)

def past (events : List Event) : Past V := ⟨requestsOf events, performedSince A init [] events⟩

/-- No operation is performed but for a job that it is due to by then. -/
def WithinAuthority (events : List Event) : Prop :=
  ∀ first x behind, performedSince A init [] events = first ++ x::behind →
    Authorised A ⟨requestsOf events, first⟩ x.request x.done.2.1

/-- Call `n` has looked the ref up when no package was stored under it. -/
def Missing (events : List Event) (n : ℕ) (c : Caller) (request : Request) (kpRef : String) :
    Prop :=
  ∃ before later next, events = before ++ .advance n::later ∧
    Interleaving.pending (poolAfter A init before) (.advance n) =
      some (.call c request, ⟨_, .storage (.getKeyPackage kpRef), next⟩) ∧
    ∀ r ∈ KeyPackageOps.stored A.storage (poolAfter A init before).shared.1,
      r.keyPackageRef ≠ kpRef

def ErrorsAccountedFor (events : List Event) : Prop :=
  ∀ n c request e, answerTo A init events (.advance n) =
      some (.call c request, .replied (.error e)) →
    e = .rateLimitExceeded ∨
      RefusedWith A (past A init (events ++ [.advance n]))
        (Missing A init (events ++ [.advance n]) n c request) c request e

variable {A} {init} {limit : FetchLimit} {Kept : σ → Prop} {unique : Bool}
  {R : σ → QueueOps.Queues → Prop} {Holds : (GroupMessageRecord → Prop) → σ → Prop}
  (hS : Backed A.storage limit Kept unique R Holds)
  (hinit : ∀ G, Knows A.storage Kept R Holds G init.1)

include hS hinit

theorem sound_after (events : List Event) {P : Past V}
    (hrequests : ∀ c request, .start (.call c request) ∈ events → (c, request) ∈ P.requests)
    (hlog : performedSince A init [] events ⊆ P.log) :
    Interleaving.Sound (authority A P)
      (fun state => Knows A.storage Kept R Holds (facts A P) state.1) (MayEnd A P)
      (poolAfter A init events) :=
  Interleaving.Sound.run (machine_upholds_authority hS A.rateLimiter) events _
    (.new (hinit _)) (fun n job hjob => acts_program n job fun c request heq =>
      hrequests c request (heq ▸ hjob)) fun _ hx => hlog hx

theorem ends_as_it_may {events : List Event} {n : ℕ} {job : Job} {outcome : Outcome}
    (h : answerTo A init events (.advance n) = some (job, outcome)) :
    MayEnd A (past A init (events ++ [.advance n])) n job outcome := by
  have hlog : (past A init (events ++ [.advance n])).log =
      performedSince A init [] events ++ performedSince A init events [.advance n] :=
    performedSince_append [] events [.advance n]
  have hbehind := sound_after (P := past A init (events ++ [.advance n])) hS hinit events
    (fun c request hstart => mem_requestsOf (List.mem_append_left _ hstart))
    (hlog ▸ List.subset_append_left _ _)
  refine (hbehind.serve (machine_upholds_authority hS A.rateLimiter) (.advance n)
    (fun _ _ hstart => by cases hstart) fun x hx => ?_).2 n job outcome rfl h
  have hperformed : performedSince A init events [.advance n] = [x] := by
    rw [performedSince, Interleaving.performed_single, hx]
    rfl
  change x ∈ (past A init (events ++ [.advance n])).log
  rw [hlog, hperformed]
  exact List.mem_append_right _ (List.mem_singleton.mpr rfl)

theorem withinAuthority (events : List Event) : WithinAuthority A init events := by
  intro first x behind h
  obtain ⟨before, event, later, next, rfl, hfirst, rfl, hpending, -⟩ := performedSince_split h
  have hbefore := sound_after (P := ⟨requestsOf (before ++ .advance x.call::later), first⟩) hS
    hinit before (fun c request hstart => mem_requestsOf (List.mem_append_left _ hstart))
    (hfirst ▸ List.Subset.refl _)
  exact hbefore.asks hpending

omit hS hinit in
theorem authorised_since {events later : List Event}
    (h : WithinAuthority A init (events ++ later)) {first behind : List (Performed V)}
    {x : Performed V} (hx : performedSince A init events later = first ++ x::behind) :
    Authorised A ⟨requestsOf (events ++ later), performedSince A init [] events ++ first⟩ x.request
      x.done.2.1 := by
  refine h _ x behind ?_
  rw [performedSince_append, List.nil_append, hx, List.append_assoc]

omit hS hinit in
theorem authorised_at (h : ∀ events, WithinAuthority A init events) {events : List Event}
    {event : Event} {job : Job} {op : ServerCall V β} {next : β → Program (ServerCall V) Outcome}
    (hpending : Interleaving.pending (poolAfter A init events) event = some (job, ⟨β, op, next⟩)) :
    ∃ P, Authorised A P job op := by
  obtain ⟨n, -, hperformed⟩ := performed_pending hpending
  have hsingle : performedSince A init events [event] =
      [] ++ (⟨n, job, ⟨β, op, answered A init events op⟩⟩ : Performed V)::[] := hperformed
  exact ⟨_, authorised_since (h (events ++ [event])) hsingle⟩

theorem PutIn.requested {events : List Event} {c : Caller} {input : PublishKeyPackageInput}
    {event : NostrEvent} {r : PublishedKeyPackageRecord V}
    (h : PutIn A (past A init events) c input event r) :
    (c, Request.publishKeyPackage input (some event)) ∈ requestsOf events := by
  obtain ⟨⟨n, job, done⟩, hx, hjob, -, accepted, hdone⟩ := h
  obtain rfl : job = .call c (.publishKeyPackage input (some event)) := hjob
  obtain rfl : done = _ := hdone
  obtain ⟨first, behind, hsplit⟩ := List.append_of_mem hx
  exact (withinAuthority hS hinit events first _ behind hsplit).1

theorem missing_of_unfound {events : List Event} {n : ℕ} {c : Caller} {request : Request}
    {kpRef : String} (h : Unfound (past A init events) n c request kpRef) :
    Missing A init events n c request kpRef := by
  obtain ⟨first, behind, hsplit⟩ := List.append_of_mem h
  obtain ⟨before, event, later, next, rfl, -, rfl, hpending, hanswer⟩ := performedSince_split hsplit
  refine ⟨before, later, next, rfl, hpending, ?_⟩
  have hbefore := sound_after (P := past A init before) hS hinit before
    (fun c request hstart => mem_requestsOf hstart) (List.Subset.refl _)
  have hget := hS.shelf.get _ kpRef hbefore.shared.packages.kept
  have hnothing : .ok none = (A.storage.getKeyPackage kpRef (poolAfter A init before).shared.1).1 :=
    hanswer
  rw [hget] at hnothing
  intro r hr href
  have hnone := List.find?_eq_none.mp (Except.ok.inj hnothing).symm r hr
  simp [KeyPackageOps.hasRef, href] at hnone

theorem errorsAccountedFor (events : List Event) : ErrorsAccountedFor A init events := by
  intro n c request e h
  refine (ends_as_it_may hS hinit h).imp_right fun hrefused => ?_
  exact hrefused.mono fun kpRef hlookup => missing_of_unfound hS hinit hlookup

end Moments

/-- Alice and Bob publish at the same time, step by step in turn; then Bob is about to
take Alice's package. -/
def crossedPublishes : List Event :=
  [.start (.call (publishes alice alice64 true "a-1").1 (publishes alice alice64 true "a-1").2),
    .start (.call (publishes bob bob64 false "b-1").1 (publishes bob bob64 false "b-1").2),
    .advance 0, .advance 1, .advance 1, .advance 0, .advance 0, .advance 1,
    .start (.call (sampleCaller bob) (.consumeKeyPackage alice)), .advance 2]

def errorOf : Option (Job × Outcome) → Option AdapterError
  | some (_, .replied (.error e)) => some e
  | _ => none

/-- Bob removes Alice's package, and is about to be told that it is not his. -/
def foreignRemoval : List Event :=
  crossedPublishes ++ [.start (.call (sampleCaller bob) (.removeKeyPackages ["a-1"])), .advance 3]

example : errorOf (answerTo memoryAdapter (InMemory.InMemoryInner.default, ()) foreignRemoval
      (.advance 3)) = some (.unauthorizedKeyPackageRef "a-1") := by
  decide +kernel

end Cordn.Server
