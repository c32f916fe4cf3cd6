import Cordn.Adapter
import Cordn.KeyPackageShelf

/-!
# The adapter's calls on the shelf

What each call of a client does to the stored key packages. A publish first
evicts by ref, then decides on the quota, then inserts; every other call only
takes packages off the shelf.
-/

set_option autoImplicit false

namespace Cordn.Adapter
open Call KeyPackageOps

variable {V σ L : Type}

/-- Removal by ref, one ref after the other: each takes the first package with
that ref, whoever published it. -/
def evictAll (refs : List String) (l : KeyShelf V) : KeyShelf V :=
  refs.foldl (fun l x => l.eraseP (hasRef x)) l

/-- The refs a publish by `stablePubkey` evicts: those of its oldest last-resort
packages, when it already holds as many as the quota allows. -/
def evictedRefs (quota : KeyPackageQuotaConfig) (l : KeyShelf V) (stablePubkey : String)
    (incomingIsLastResort : Bool) : List String :=
  let existing := (l.filter (hasIdentity stablePubkey)).filter (fun r => r.isLastResort)
  let maxLastResort := quota.maxLastResortPerIdentity
  if incomingIsLastResort = true ∧ 0 < maxLastResort ∧ maxLastResort ≤ existing.length then
    (existing.take (existing.length - maxLastResort + 1)).map (fun r => r.keyPackageRef)
  else []

def overQuota (quota : KeyPackageQuotaConfig) (l : KeyShelf V) (stablePubkey : String)
    (incomingIsLastResort : Bool) : Bool :=
  let records := l.filter (hasIdentity stablePubkey)
  let existing := records.filter (fun r => r.isLastResort)
  if incomingIsLastResort then
    decide (0 < quota.maxPerIdentity ∧ quota.maxPerIdentity < records.length - existing.length +
      min existing.length (quota.maxLastResortPerIdentity-1) + 1)
  else decide (0 < quota.maxPerIdentity ∧ quota.maxPerIdentity ≤ records.length)

@[simp] theorem evictAll_nil (l : KeyShelf V) : evictAll [] l = l := rfl

@[simp] theorem evictAll_cons (x : String) (refs : List String) (l : KeyShelf V) :
    evictAll (x::refs) l = evictAll refs (l.eraseP (hasRef x)) := rfl

theorem evictAll_sublist (refs : List String) (l : KeyShelf V) : (evictAll refs l).Sublist l :=
  KeyedList.takeOut_sublist PublishedKeyPackageRecord.keyPackageRef refs l

theorem bind_ok {α β : Type} {p : Call σ α} {q : α → Call σ β} {s s' : σ} {a : α}
    (h : p s = (.ok a, s')) : (p >>= q) s = q a s' := by
  change andThen p q s = _
  rw [andThen, h]

theorem bind_error {α β : Type} {p : Call σ α} {q : α → Call σ β} {s s' : σ}
    {e : AdapterError} (h : p s = (.error e, s')) : (p >>= q) s = (.error e, s') := by
  change andThen p q s = _
  rw [andThen, h]

theorem onStorage_ok {α : Type} (op : Locked σ α) (s : σ) (a : α) (h : (op s).1 = .ok a) :
    onStorage op s = (.ok a, (op s).2) := by
  unfold onStorage
  split
  · rename_i heq
    rw [heq] at h
    simp at h
  · rename_i heq
    rw [heq] at h ⊢
    rw [Except.ok.inj h]

theorem onStorage_error {α : Type} (op : Locked σ α) (s : σ) (e : StorageError)
    (h : (op s).1 = .error e) : onStorage op s = (.error (.storage e), (op s).2) := by
  unfold onStorage
  split
  · rename_i heq
    rw [heq] at h ⊢
    rw [Except.error.inj h]
  · rename_i heq
    rw [heq] at h
    simp at h

theorem onStorage_state {α : Type} (op : Locked σ α) (s : σ) :
    (onStorage op s).2 = (op s).2 := by
  cases h : (op s).1 with
  | error e => rw [onStorage_error op s e h]
  | ok a => rw [onStorage_ok op s a h]

section Publish

variable {A : CoordinatorAdapter V σ L} {Kept : σ → Prop} {unique : Bool}

theorem removeEach_spec (hA : KeepsShelf A.storage Kept unique)
    (records : List (PublishedKeyPackageRecord V)) (s : σ) (hs : Kept s) :
    ∃ s', removeEach A records s = (.ok (), s') ∧ Kept s' ∧
      stored A.storage s' =
        evictAll (records.map (fun r => r.keyPackageRef)) (stored A.storage s) := by
  induction records generalizing s with
  | nil => exact ⟨s, rfl, hs, rfl⟩
  | cons r records ih =>
    obtain ⟨hres, hkept, hleft⟩ := hA.remove s r.keyPackageRef hs
    obtain ⟨s', hrun, hs', hafter⟩ := ih _ hkept
    refine ⟨s', ?_, hs', ?_⟩
    · rw [removeEach, bind_ok (onStorage_ok _ s _ hres), hrun]
    · rw [hafter, hleft, List.map_cons, evictAll_cons]

theorem evictLastResorts_spec (hA : KeepsShelf A.storage Kept unique) (c : String) (s : σ)
    (hs : Kept s) :
    ∃ s', evictLastResorts A (((stored A.storage s).filter (hasIdentity c)).filter
        (fun r => r.isLastResort)) s = (.ok (), s') ∧ Kept s' ∧
      stored A.storage s' =
        evictAll (evictedRefs A.keyPackageQuota (stored A.storage s) c true)
          (stored A.storage s) := by
  simp only [evictLastResorts, evictedRefs, true_and]
  split
  · exact removeEach_spec hA _ s hs
  · exact ⟨s, rfl, hs, rfl⟩

theorem enforceKeyPackageQuota_spec (hA : KeepsShelf A.storage Kept unique) (c : String)
    (incoming : Bool) (s : σ) (hs : Kept s) :
    ∃ s', enforceKeyPackageQuota A c incoming s =
        (if overQuota A.keyPackageQuota (stored A.storage s) c incoming then
          .error .quotaExceeded else .ok (), s') ∧ Kept s' ∧
      stored A.storage s' =
        evictAll (evictedRefs A.keyPackageQuota (stored A.storage s) c incoming)
          (stored A.storage s) := by
  have hlist := hA.identity s c hs
  have hrecords : onStorage (A.storage.listKeyPackagesForIdentity c) s =
      (.ok ((stored A.storage s).filter (hasIdentity c)), s) := by
    have hok := onStorage_ok _ s _ (congrArg Prod.fst hlist)
    rwa [hlist] at hok
  rw [enforceKeyPackageQuota, bind_ok hrecords]
  cases incoming with
  | true =>
    obtain ⟨s', hrun, hs', hafter⟩ := evictLastResorts_spec hA c s hs
    refine ⟨s', ?_, hs', hafter⟩
    simp only [if_true]
    rw [bind_ok hrun]
    simp only [overQuota, if_true, decide_eq_true_eq]
    split <;> rfl
  | false =>
    refine ⟨s, ?_, hs, by simp [evictedRefs]⟩
    simp only [overQuota, Bool.false_eq_true, if_false, decide_eq_true_eq]
    split <;> rfl

def incomingRecord (A : CoordinatorAdapter V σ L) (c : Caller) (input : PublishKeyPackageInput)
    (admitted : List UInt8 × MlsParse.ParsedKeyPackage × NostrEvent) :
    PublishedKeyPackageRecord V :=
  ⟨admitted.2.1.credentialIdentity, admitted.1, input.kpRef, admitted.2.1.isLastResort, c.now,
    eventValue A admitted.2.2⟩

def evictedBy (A : CoordinatorAdapter V σ L) (l : KeyShelf V)
    (r : PublishedKeyPackageRecord V) : List String :=
  evictedRefs A.keyPackageQuota l r.stablePubkey r.isLastResort

/-- An admitted publication that fails all the same, after its evictions. -/
def Stopped (A : CoordinatorAdapter V σ L) (unique : Bool) (l : KeyShelf V)
    (r : PublishedKeyPackageRecord V) : Prop :=
  overQuota A.keyPackageQuota l r.stablePubkey r.isLastResort = true ∨
    Refused unique r (evictAll (evictedBy A l r) l)

theorem admission_checked {clientPubkey : String}
    {input : PublishKeyPackageInput} {publicationEvent : Option NostrEvent}
    {admitted : List UInt8 × MlsParse.ParsedKeyPackage × NostrEvent}
    (h : admission A clientPubkey input publicationEvent = .ok admitted) :
    publicationEvent = some admitted.2.2 ∧ A.externals.b64Decode input.kp64 = some admitted.1 ∧
      MlsParse.parseKeyPackage admitted.1 = .ok admitted.2.1 ∧ admitted.2.2.pubkey = clientPubkey ∧
      admitted.2.1.credentialIdentity = admitted.2.2.pubkey := by
  obtain ⟨_, -, h⟩ := except_bind_ok h
  obtain ⟨_, -, h⟩ := except_bind_ok h
  cases hb : A.externals.b64Decode input.kp64 with
  | none => simp [hb] at h
  | some bytes =>
    cases hp : MlsParse.parseKeyPackage bytes with
    | error e => simp [hb, hp] at h
    | ok parsed =>
      cases publicationEvent with
      | none => simp [hb, hp] at h
      | some event =>
        simp only [hb, hp] at h
        split at h
        · simp at h
        · rename_i hsigner
          split at h
          · simp at h
          · rename_i hidentity
            obtain rfl := Except.ok.inj h
            exact ⟨rfl, rfl, hp, not_not.mp hsigner, not_not.mp hidentity⟩

theorem admission_identity {clientPubkey : String} {input : PublishKeyPackageInput}
    {event : Option NostrEvent} {admitted : List UInt8 × MlsParse.ParsedKeyPackage × NostrEvent}
    (h : admission A clientPubkey input event = .ok admitted) :
    admitted.2.1.credentialIdentity = clientPubkey := by
  obtain ⟨-, -, -, hsigner, hidentity⟩ := admission_checked h
  exact hidentity.trans hsigner

theorem publish_rejected (c : Caller) (input : PublishKeyPackageInput)
    (event : Option NostrEvent) (s : σ) (e : AdapterError)
    (h : admission A c.clientPubkey input event = .error e) :
    publishKeyPackage A c input event s = (.error e, s) := by
  have hreply : reply (admission A c.clientPubkey input event) s = (.error e, s) := by
    rw [h]
    rfl
  rw [publishKeyPackage, bind_error hreply]

theorem publish_evicted (hA : KeepsShelf A.storage Kept unique) (c : Caller)
    (input : PublishKeyPackageInput) (event : Option NostrEvent) (s : σ) (hs : Kept s)
    (admitted : List UInt8 × MlsParse.ParsedKeyPackage × NostrEvent)
    (h : admission A c.clientPubkey input event = .ok admitted) :
    ∃ m, Kept m ∧ stored A.storage m =
        evictAll (evictedBy A (stored A.storage s) (incomingRecord A c input admitted))
          (stored A.storage s) ∧
      (Stopped A unique (stored A.storage s) (incomingRecord A c input admitted) →
        ∃ e, publishKeyPackage A c input event s = (.error e, m)) ∧
      (¬Stopped A unique (stored A.storage s) (incomingRecord A c input admitted) →
        ¬Refused unique (incomingRecord A c input admitted) (stored A.storage m) ∧
        ∃ output, publishKeyPackage A c input event s =
          (.ok output, (A.storage.publishKeyPackage (incomingRecord A c input admitted) m).2)) := by
  have hreply : reply (admission A c.clientPubkey input event) s = (.ok admitted, s) := by
    rw [h]
    rfl
  rw [publishKeyPackage, bind_ok hreply]
  obtain ⟨m, hrun, hm, hevicted⟩ := enforceKeyPackageQuota_spec hA
    admitted.2.1.credentialIdentity admitted.2.1.isLastResort s hs
  refine ⟨m, hm, hevicted, ?_⟩
  by_cases hover : overQuota A.keyPackageQuota (stored A.storage s)
      admitted.2.1.credentialIdentity admitted.2.1.isLastResort = true
  · rw [if_pos hover] at hrun
    refine ⟨fun _ => ⟨_, bind_error hrun⟩, ?_⟩
    exact fun hn => absurd (Or.inl hover) hn
  · rw [if_neg hover] at hrun
    rw [bind_ok hrun]
    by_cases href : Refused unique (incomingRecord A c input admitted) (stored A.storage m)
    · obtain ⟨e, he⟩ := hA.refuse m _ hm href
      have hstop := onStorage_error _ m e (congrArg Prod.fst he)
      rw [he] at hstop
      refine ⟨fun _ => ⟨_, bind_error hstop⟩, ?_⟩
      rw [hevicted] at href
      exact fun hn => absurd (Or.inr href) hn
    · obtain ⟨hres, -, -⟩ := hA.accept m _ hm href
      constructor
      · rintro (ho | hr)
        · exact absurd ho hover
        · exact absurd (hevicted ▸ hr) href
      · exact fun _ => ⟨href, _, bind_ok (onStorage_ok _ m _ hres)⟩

theorem publish_admitted (hA : KeepsShelf A.storage Kept unique) (c : Caller)
    (input : PublishKeyPackageInput) (event : Option NostrEvent) (s : σ) (hs : Kept s)
    (admitted : List UInt8 × MlsParse.ParsedKeyPackage × NostrEvent)
    (h : admission A c.clientPubkey input event = .ok admitted) :
    ∃ result s', publishKeyPackage A c input event s = (result, s') ∧ Kept s' ∧
      (Stopped A unique (stored A.storage s) (incomingRecord A c input admitted) →
        (∃ e, result = .error e) ∧ stored A.storage s' =
          evictAll (evictedBy A (stored A.storage s) (incomingRecord A c input admitted))
            (stored A.storage s)) ∧
      (¬Stopped A unique (stored A.storage s) (incomingRecord A c input admitted) →
        (∃ output, result = .ok output) ∧ Inserted
          (evictAll (evictedBy A (stored A.storage s) (incomingRecord A c input admitted))
            (stored A.storage s))
          (incomingRecord A c input admitted) (stored A.storage s')) := by
  obtain ⟨m, hm, hevicted, hstop, hgo⟩ := publish_evicted hA c input event s hs admitted h
  by_cases hst : Stopped A unique (stored A.storage s) (incomingRecord A c input admitted)
  · obtain ⟨e, he⟩ := hstop hst
    exact ⟨_, m, he, hm, fun _ => ⟨⟨e, rfl⟩, hevicted⟩, fun hn => absurd hst hn⟩
  · obtain ⟨href, output, hok⟩ := hgo hst
    obtain ⟨-, hkept, hin⟩ := hA.accept m _ hm href
    rw [hevicted] at hin
    exact ⟨_, _, hok, hkept, fun hs => absurd hs hst, fun _ => ⟨⟨output, rfl⟩, hin⟩⟩

end Publish

section Taking

variable {A : CoordinatorAdapter V σ L} {Kept : σ → Prop} {unique : Bool}

def OnlyTakes {α : Type} (A : CoordinatorAdapter V σ L) (Kept : σ → Prop)
    (call : Call σ α) : Prop :=
  ∀ s, Kept s → Kept (call s).2 ∧ (stored A.storage (call s).2).Sublist (stored A.storage s)

theorem OnlyTakes.reply {α : Type} (result : Except AdapterError α) :
    OnlyTakes A Kept (reply result) :=
  fun _ hs => ⟨hs, List.Sublist.refl _⟩

theorem OnlyTakes.bind {α β : Type} {p : Call σ α} {q : α → Call σ β}
    (hp : OnlyTakes A Kept p) (hq : ∀ a, OnlyTakes A Kept (q a)) :
    OnlyTakes A Kept (p >>= q) := by
  intro s hs
  obtain ⟨hkept, hsub⟩ := hp s hs
  cases h : p s with
  | mk result m =>
    rw [h] at hkept hsub
    cases result with
    | error e =>
      rw [bind_error h]
      exact ⟨hkept, hsub⟩
    | ok a =>
      rw [bind_ok h]
      obtain ⟨hkept', hsub'⟩ := hq a m hkept
      exact ⟨hkept', hsub'.trans hsub⟩

theorem OnlyTakes.leaves {α : Type} {op : Locked σ α} (h : LeavesShelf A.storage Kept op) :
    OnlyTakes A Kept (onStorage op) := by
  intro s hs
  obtain ⟨hkept, heq⟩ := h s hs
  rw [onStorage_state]
  exact ⟨hkept, heq ▸ List.Sublist.refl _⟩

theorem OnlyTakes.get (hA : KeepsShelf A.storage Kept unique) (x : String) :
    OnlyTakes A Kept (onStorage (A.storage.getKeyPackage x)) := by
  apply OnlyTakes.leaves
  intro s hs
  rw [hA.get s x hs]
  exact ⟨hs, rfl⟩

theorem OnlyTakes.remove (hA : KeepsShelf A.storage Kept unique) (x : String) :
    OnlyTakes A Kept (onStorage (A.storage.removeKeyPackage x)) := by
  intro s hs
  obtain ⟨-, hkept, hleft⟩ := hA.remove s x hs
  rw [onStorage_state, hleft]
  exact ⟨hkept, List.eraseP_sublist⟩

theorem OnlyTakes.consume (hA : KeepsShelf A.storage Kept unique) (x : String) :
    OnlyTakes A Kept (onStorage (A.storage.consumeKeyPackage x)) := by
  intro s hs
  obtain ⟨-, hkept, hleft⟩ := hA.consume s x hs
  rw [onStorage_state]
  exact ⟨hkept, consumed_sublist hleft⟩

theorem ownKeyPackage_onlyTakes (hA : KeepsShelf A.storage Kept unique) (c : Caller)
    (x : String) : OnlyTakes A Kept (ownKeyPackage A c x) := by
  refine (OnlyTakes.get hA x).bind ?_
  intro found
  cases found with
  | none => exact OnlyTakes.reply _
  | some record =>
    dsimp only
    split <;> exact OnlyTakes.reply _

theorem removeLoop_onlyTakes (hA : KeepsShelf A.storage Kept unique) (c : Caller)
    (kpRefs : List String) : OnlyTakes A Kept (removeLoop A c kpRefs) := by
  induction kpRefs with
  | nil => exact OnlyTakes.reply _
  | cons x kpRefs ih =>
    refine (ownKeyPackage_onlyTakes hA c x).bind fun _ => ?_
    exact (OnlyTakes.remove hA x).bind fun _ => ih.bind fun _ => OnlyTakes.reply _

theorem consumeKeyPackage_onlyTakes (hA : KeepsShelf A.storage Kept unique) (x : String) :
    OnlyTakes A Kept (consumeKeyPackage A x) := by
  refine (OnlyTakes.reply _).bind fun _ => (OnlyTakes.consume hA x).bind ?_
  intro record
  cases record <;> exact OnlyTakes.reply _

theorem perform_onlyTakes (hA : KeepsShelf A.storage Kept unique) (c : Caller)
    (request : Request) (h : ∀ input event, request ≠ .publishKeyPackage input event) :
    OnlyTakes A Kept (perform A c request) := by
  cases request with
  | publishKeyPackage input event => exact absurd rfl (h input event)
  | consumeKeyPackage id =>
    exact (consumeKeyPackage_onlyTakes hA id).bind fun _ => OnlyTakes.reply _
  | listAvailableKeyPackages =>
    have hall : LeavesShelf A.storage Kept A.storage.listAllKeyPackages := by
      intro s hs
      rw [hA.all s hs]
      exact ⟨hs, rfl⟩
    exact ((OnlyTakes.leaves hall).bind fun _ => OnlyTakes.reply _).bind
      fun _ => OnlyTakes.reply _
  | removeKeyPackages kpRefs =>
    exact ((OnlyTakes.reply _).bind fun _ => removeLoop_onlyTakes hA c kpRefs).bind
      fun _ => OnlyTakes.reply _
  | fetchPendingWelcomes consumed =>
    exact ((OnlyTakes.leaves (hA.fetchPendingWelcomes _ _)).bind fun _ => OnlyTakes.reply _).bind
      fun _ => OnlyTakes.reply _
  | storeWelcome input =>
    refine OnlyTakes.bind ?_ fun _ => OnlyTakes.reply _
    refine (OnlyTakes.reply _).bind fun _ => (OnlyTakes.reply _).bind fun _ =>
      (OnlyTakes.reply _).bind fun _ => ?_
    split
    · exact OnlyTakes.reply _
    · exact (OnlyTakes.leaves (hA.storeWelcome _)).bind fun _ => OnlyTakes.reply _
  | storeJoinRequest input =>
    refine OnlyTakes.bind ?_ fun _ => OnlyTakes.reply _
    exact (OnlyTakes.reply _).bind fun _ => (OnlyTakes.reply _).bind fun _ =>
      (ownKeyPackage_onlyTakes hA c input.kpRef).bind fun _ =>
        (OnlyTakes.leaves (hA.storeJoinRequest _)).bind fun _ => OnlyTakes.reply _
  | fetchManyPendingJoinRequests groups consumed =>
    exact ((OnlyTakes.reply _).bind fun _ =>
      OnlyTakes.leaves (hA.fetchManyPendingJoinRequests _ _)).bind fun _ => OnlyTakes.reply _
  | postGroupMessage input =>
    refine OnlyTakes.bind ?_ fun _ => OnlyTakes.reply _
    refine (OnlyTakes.reply _).bind fun _ => (OnlyTakes.reply _).bind fun _ => ?_
    split
    · exact OnlyTakes.reply _
    · exact (OnlyTakes.leaves (hA.appendGroupMessage _)).bind fun _ => OnlyTakes.reply _
  | fetchManyGroupMessages groups =>
    refine OnlyTakes.bind ?_ fun _ => OnlyTakes.reply _
    exact (OnlyTakes.reply _).bind fun _ => (OnlyTakes.reply _).bind fun _ =>
      (OnlyTakes.leaves (hA.fetchManyGroupMessages _)).bind fun _ => OnlyTakes.reply _

end Taking

section Runs

variable {A : CoordinatorAdapter V σ L} {Kept : σ → Prop} {unique : Bool}

/-- The request puts `r` on the shelf `l`: it is an admitted publication that
nothing stops. -/
def Publishes (A : CoordinatorAdapter V σ L) (unique : Bool) (request : Caller × Request)
    (l : KeyShelf V) (r : PublishedKeyPackageRecord V) : Prop :=
  ∃ input event admitted, request.2 = .publishKeyPackage input event ∧
    admission A request.1.clientPubkey input event = .ok admitted ∧
    r = incomingRecord A request.1 input admitted ∧ ¬Stopped A unique l r

theorem withinRateLimit_limited {α : Type} (c : Caller) (call : Call σ α) (state : σ × L)
    (h : (A.rateLimiter.check c.clientPubkey c.limiterNow state.2).1 = false) :
    (withinRateLimit A c call state).1 = .error .rateLimitExceeded ∧
      (withinRateLimit A c call state).2.1 = state.1 := by
  unfold withinRateLimit
  split
  · exact ⟨rfl, rfl⟩
  · rename_i l hl
    rw [hl] at h
    simp at h

theorem withinRateLimit_passed {α : Type} (c : Caller) (call : Call σ α) (state : σ × L)
    (h : (A.rateLimiter.check c.clientPubkey c.limiterNow state.2).1 = true) :
    (withinRateLimit A c call state).1 = (call state.1).1 ∧
      (withinRateLimit A c call state).2.1 = (call state.1).2 := by
  unfold withinRateLimit
  split
  · rename_i l hl
    rw [hl] at h
    simp at h
  · exact ⟨rfl, rfl⟩

theorem withinRateLimit_cases {α : Type} (c : Caller) (call : Call σ α) (state : σ × L) :
    (withinRateLimit A c call state).2.1 = state.1 ∨
      withinRateLimit A c call state =
        ((call state.1).1, (call state.1).2, (A.rateLimiter.check c.clientPubkey c.limiterNow
          state.2).2) := by
  unfold withinRateLimit
  split
  · exact Or.inl rfl
  · rename_i h
    rw [h]
    exact Or.inr rfl

theorem perform_shelf (hA : KeepsShelf A.storage Kept unique) (request : Caller × Request)
    (s : σ) (hs : Kept s) :
    Kept (perform A request.1 request.2 s).2 ∧
      ((stored A.storage (perform A request.1 request.2 s).2).Sublist (stored A.storage s) ∨
        ∃ r, Publishes A unique request (stored A.storage s) r ∧
          Inserted (evictAll (evictedBy A (stored A.storage s) r) (stored A.storage s)) r
            (stored A.storage (perform A request.1 request.2 s).2)) := by
  obtain ⟨c, request⟩ := request
  by_cases hp : ∀ input event, request ≠ .publishKeyPackage input event
  · obtain ⟨hkept, hsub⟩ := perform_onlyTakes hA c request hp s hs
    exact ⟨hkept, Or.inl hsub⟩
  · simp only [not_forall, not_not] at hp
    obtain ⟨input, event, rfl⟩ := hp
    have hstate : (perform A c (.publishKeyPackage input event) s).2 =
        (publishKeyPackage A c input event s).2 := by
      cases h : publishKeyPackage A c input event s with
      | mk result m =>
        cases result with
        | error e => rw [perform, bind_error h]
        | ok output =>
          rw [perform, bind_ok h]
          rfl
    simp only [hstate]
    cases hadm : admission A c.clientPubkey input event with
    | error e =>
      rw [publish_rejected c input event s e hadm]
      exact ⟨hs, Or.inl (List.Sublist.refl _)⟩
    | ok admitted =>
      obtain ⟨result, s', hrun, hkept, hstop, hgo⟩ :=
        publish_admitted hA c input event s hs admitted hadm
      rw [hrun]
      by_cases hst : Stopped A unique (stored A.storage s) (incomingRecord A c input admitted)
      · refine ⟨hkept, Or.inl ?_⟩
        rw [(hstop hst).2]
        exact evictAll_sublist _ _
      · exact ⟨hkept, Or.inr ⟨_, ⟨input, event, admitted, rfl, hadm, rfl, hst⟩, (hgo hst).2⟩⟩

theorem step_shelf (hA : KeepsShelf A.storage Kept unique) (request : Caller × Request)
    (state : σ × L) (hs : Kept state.1) :
    Kept (step A request state).2.1 ∧
      ((stored A.storage (step A request state).2.1).Sublist (stored A.storage state.1) ∨
        ∃ r, Publishes A unique request (stored A.storage state.1) r ∧
          Inserted (evictAll (evictedBy A (stored A.storage state.1) r) (stored A.storage state.1))
            r (stored A.storage (step A request state).2.1)) := by
  rcases withinRateLimit_cases request.1 (perform A request.1 request.2) state with h | h
  · rw [step, h]
    exact ⟨hs, Or.inl (List.Sublist.refl _)⟩
  · rw [step, h]
    exact perform_shelf hA request state.1 hs

theorem run_kept (hA : KeepsShelf A.storage Kept unique) (requests : List (Caller × Request))
    (state : σ × L) (hs : Kept state.1) : Kept (Run.after (step A) requests state).1 :=
  Run.invariant (step A) (fun state => Kept state.1)
    (fun request state h => (step_shelf hA request state h).1) requests state hs

end Runs

end Cordn.Adapter
