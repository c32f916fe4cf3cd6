import Cordn.TakeByIdentity

/-!
# Calls in flight

The runtime has many threads and the storage lock is held for one operation at
a time. A publish, a removal and a take are cut here at these operations: a call
in flight stands before its next one, and any call may take the next step.
-/

set_option autoImplicit false

namespace Cordn.Adapter
open Call KeyPackageOps

variable {V σ L : Type}

inductive PackageRequest where
  | publishKeyPackage (input : PublishKeyPackageInput) (publicationEvent : Option NostrEvent)
  | consumeKeyPackage (id : String)
  | removeKeyPackages (kpRefs : List String)
  deriving DecidableEq, Repr

def PackageRequest.toRequest : PackageRequest → Request
  | .publishKeyPackage input event => .publishKeyPackage input event
  | .consumeKeyPackage id => .consumeKeyPackage id
  | .removeKeyPackages kpRefs => .removeKeyPackages kpRefs

/-- The storage operation a call stands before, with what it knows by then. -/
inductive Task (V : Type) where
  | list (record : PublishedKeyPackageRecord V)
  | evict (record : PublishedKeyPackageRecord V) (records : KeyShelf V)
      (next : PublishedKeyPackageRecord V) (oldest : List (PublishedKeyPackageRecord V))
  | insert (record : PublishedKeyPackageRecord V) (records : KeyShelf V)
  | check (kpRef : String) (kpRefs removed : List String)
  | remove (record : PublishedKeyPackageRecord V) (kpRef : String) (kpRefs removed : List String)
  | consume (id : String)
  | done (result : Except AdapterError Reply)

def oldestLastResorts (quota : KeyPackageQuotaConfig) (records : KeyShelf V)
    (incomingIsLastResort : Bool) : List (PublishedKeyPackageRecord V) :=
  let existing := records.filter (fun r => r.isLastResort)
  if incomingIsLastResort = true ∧ 0 < quota.maxLastResortPerIdentity ∧
      quota.maxLastResortPerIdentity ≤ existing.length then
    existing.take (existing.length - quota.maxLastResortPerIdentity + 1)
  else []

def exceedsQuota (quota : KeyPackageQuotaConfig) (records : KeyShelf V)
    (incomingIsLastResort : Bool) : Bool :=
  let existing := records.filter (fun r => r.isLastResort)
  if incomingIsLastResort then
    decide (0 < quota.maxPerIdentity ∧ quota.maxPerIdentity < records.length - existing.length +
      min existing.length (quota.maxLastResortPerIdentity-1) + 1)
  else decide (0 < quota.maxPerIdentity ∧ quota.maxPerIdentity ≤ records.length)

variable (A : CoordinatorAdapter V σ L)

/-- Behind a listing and some of its evictions: the next one, or the decision. -/
def evicting (record : PublishedKeyPackageRecord V) (records : KeyShelf V) :
    List (PublishedKeyPackageRecord V) → Task V
  | next::oldest => .evict record records next oldest
  | [] =>
    if exceedsQuota A.keyPackageQuota records record.isLastResort then
      .done (.error .quotaExceeded)
    else .insert record records

def removing (removed : List String) : List String → Task V
  | kpRef::kpRefs => .check kpRef kpRefs removed
  | [] => .done (.ok (.removed removed))

def start (c : Caller) : PackageRequest → Task V
  | .publishKeyPackage input event =>
    match admission A c.clientPubkey input event with
    | .error e => .done (.error e)
    | .ok admitted => .list (incomingRecord A c input admitted)
  | .consumeKeyPackage id =>
    match requireNonEmpty id "id" with
    | .error e => .done (.error e)
    | .ok _ => .consume id
  | .removeKeyPackages kpRefs =>
    if kpRefs.isEmpty then .done (.error (.invalidInput "kp_refs must be non-empty"))
    else removing [] kpRefs

def onward {α : Type} (next : α → Task V) : Except StorageError α × σ → Task V × σ
  | (.error e, s) => (.done (.error (.storage e)), s)
  | (.ok a, s) => (next a, s)

def advance (c : Caller) : Task V → σ → Task V × σ
  | .list record, s =>
    onward (fun records => evicting A record records
        (oldestLastResorts A.keyPackageQuota records record.isLastResort))
      (A.storage.listKeyPackagesForIdentity record.stablePubkey s)
  | .evict record records next oldest, s =>
    onward (fun _ => evicting A record records oldest)
      (A.storage.removeKeyPackage next.keyPackageRef s)
  | .insert record _, s =>
    onward (fun r => .done (.ok (.published ⟨r.keyPackageRef, r.isLastResort, r.publishedAt⟩)))
      (A.storage.publishKeyPackage record s)
  | .check kpRef kpRefs removed, s =>
    onward (fun found =>
        match found with
        | none => .done (.error (.unknownKeyPackageRef kpRef))
        | some record =>
          if record.stablePubkey ≠ c.clientPubkey then
            .done (.error (.unauthorizedKeyPackageRef kpRef))
          else .remove record kpRef kpRefs removed)
      (A.storage.getKeyPackage kpRef s)
  | .remove _ kpRef kpRefs removed, s =>
    onward (fun gone =>
        removing (removed ++ [(gone.map (fun r => r.keyPackageRef)).getD kpRef]) kpRefs)
      (A.storage.removeKeyPackage kpRef s)
  | .consume id, s =>
    onward (fun record =>
        match record with
        | none => .done (.ok (.consumed none))
        | some r => .done ((consumedKeyPackage A r).map (fun k => .consumed (some k))))
      (A.storage.consumeKeyPackage id s)
  | .done result, s => (.done result, s)

structure InFlight (V : Type) where
  caller : Caller
  request : PackageRequest
  task : Task V

/-- The store, the calls in the order they came, and the packages that removal
calls have deleted, each with the client that asked. -/
structure Server (V σ L : Type) where
  storage : σ
  limiter : L
  calls : List (InFlight V)
  deleted : List (String × PublishedKeyPackageRecord V)

inductive Event where
  | start (c : Caller) (request : PackageRequest)
  | advance (call : ℕ)
  deriving DecidableEq, Repr

def Task.result : Task V → Option (Except AdapterError Reply)
  | .done result => some result
  | _ => none

def deletedBy (call : InFlight V) (s : σ) : List (String × PublishedKeyPackageRecord V) :=
  match call.task with
  | .remove _ kpRef _ _ =>
    match (A.storage.removeKeyPackage kpRef s).1 with
    | .ok (some r) => [(call.caller.clientPubkey, r)]
    | _ => []
  | _ => []

def serve : Event → Server V σ L → Option (Except AdapterError Reply) × Server V σ L
  | .start c request, server =>
    match A.rateLimiter.check c.clientPubkey c.limiterNow server.limiter with
    | (false, l) => (some (.error .rateLimitExceeded), { server with limiter := l })
    | (true, l) =>
      let task := start A c request
      (task.result, { server with limiter := l, calls := server.calls ++ [⟨c, request, task⟩] })
  | .advance i, server =>
    match server.calls[i]? with
    | none => (none, server)
    | some call =>
      let (task, s) := advance A call.caller call.task server.storage
      (task.result, { server with
        storage := s
        calls := server.calls.set i { call with task := task }
        deleted := server.deleted ++ deletedBy A call server.storage })

def Server.new (init : σ) (l : L) : Server V σ L := ⟨init, l, [], []⟩

def storeRecord (record : PublishedKeyPackageRecord V) : Call σ Reply := do
  let r ← onStorage (A.storage.publishKeyPackage record)
  pure (.published ⟨r.keyPackageRef, r.isLastResort, r.publishedAt⟩)

def decideQuota (records : KeyShelf V) (incomingIsLastResort : Bool) : Call σ Unit :=
  reply (if exceedsQuota A.keyPackageQuota records incomingIsLastResort then
    .error .quotaExceeded else .ok ())

def resume (c : Caller) : Task V → Call σ Reply
  | .list record => do
    enforceKeyPackageQuota A record.stablePubkey record.isLastResort
    storeRecord A record
  | .evict record records next oldest => do
    removeEach A (next::oldest)
    decideQuota A records record.isLastResort
    storeRecord A record
  | .insert record _ => storeRecord A record
  | .check kpRef kpRefs removed => do
    let more ← removeLoop A c (kpRef::kpRefs)
    pure (.removed (removed ++ more))
  | .remove _ kpRef kpRefs removed => do
    let gone ← onStorage (A.storage.removeKeyPackage kpRef)
    let more ← removeLoop A c kpRefs
    pure (.removed (removed ++ (gone.map (fun r => r.keyPackageRef)).getD kpRef::more))
  | .consume id => do
    let record ← onStorage (A.storage.consumeKeyPackage id)
    match record with
    | none => pure (.consumed none)
    | some r => reply ((consumedKeyPackage A r).map (fun k => .consumed (some k)))
  | .done result => reply result

theorem call_bind_assoc {α β γ : Type} (p : Call σ α) (q : α → Call σ β) (r : β → Call σ γ) :
    (p >>= q) >>= r = p >>= fun a => q a >>= r := by
  funext s
  cases h : p s with
  | mk result m =>
    cases result with
    | error e => rw [bind_error (bind_error h), bind_error h]
    | ok a =>
      rw [bind_ok h]
      change andThen (p >>= q) r s = andThen (q a) r m
      rw [andThen, andThen, bind_ok h]

theorem call_pure_bind {α β : Type} (a : α) (q : α → Call σ β) : (pure a : Call σ α) >>= q = q a :=
  funext fun _ => bind_ok rfl

variable {A}

theorem resume_evicting (c : Caller) (record : PublishedKeyPackageRecord V) (records : KeyShelf V)
    (oldest : List (PublishedKeyPackageRecord V)) :
    resume A c (evicting A record records oldest) =
      removeEach A oldest >>= fun _ => decideQuota A records record.isLastResort >>= fun _ =>
        storeRecord A record := by
  cases oldest with
  | cons next oldest => rfl
  | nil =>
    change _ = pure () >>= _
    rw [call_pure_bind, decideQuota]
    by_cases hover : exceedsQuota A.keyPackageQuota records record.isLastResort = true
    · have hdone : evicting A record records [] = .done (.error .quotaExceeded) := if_pos hover
      rw [hdone, if_pos hover]
      rfl
    · have hinsert : evicting A record records [] = .insert record records := if_neg hover
      rw [hinsert, if_neg hover]
      rfl

theorem enforce_eq (c : String) (incoming : Bool) :
    enforceKeyPackageQuota A c incoming =
      onStorage (A.storage.listKeyPackagesForIdentity c) >>= fun records =>
        removeEach A (oldestLastResorts A.keyPackageQuota records incoming) >>= fun _ =>
          decideQuota A records incoming := by
  have hreply : ∀ passed : Prop, [Decidable passed] →
      (reply (if decide passed then .error .quotaExceeded else .ok ()) : Call σ Unit) =
        if passed then reply (.error .quotaExceeded) else pure () := by
    intro passed _
    by_cases h : passed
    · simp only [h, decide_true, if_true]
    · simp only [h, decide_false, Bool.false_eq_true, if_false]
      rfl
  unfold enforceKeyPackageQuota
  congr 1
  funext records
  cases incoming with
  | true =>
    simp only [decideQuota, exceedsQuota, if_true, hreply, evictLastResorts, oldestLastResorts,
      true_and]
    split
    · rfl
    · rw [call_pure_bind, removeEach, call_pure_bind]
  | false =>
    simp only [decideQuota, exceedsQuota, oldestLastResorts, Bool.false_eq_true, false_and,
      if_false, hreply]
    change _ = pure () >>= _
    rw [call_pure_bind]

theorem resume_removing (c : Caller) (removed kpRefs : List String) :
    resume A c (removing removed kpRefs) =
      removeLoop A c kpRefs >>= fun more => pure (.removed (removed ++ more)) := by
  cases kpRefs with
  | cons kpRef kpRefs => rfl
  | nil =>
    change _ = pure [] >>= _
    rw [call_pure_bind, List.append_nil]
    rfl

theorem resume_start (c : Caller) (request : PackageRequest) :
    resume A c (start A c request) = perform A c request.toRequest := by
  cases request with
  | publishKeyPackage input event =>
    change resume A c (start A c (.publishKeyPackage input event)) =
      publishKeyPackage A c input event >>= _
    rw [publishKeyPackage, call_bind_assoc, start]
    cases h : admission A c.clientPubkey input event with
    | error e => rfl
    | ok admitted =>
      change _ = pure admitted >>= _
      rw [call_pure_bind, call_bind_assoc]
      change enforceKeyPackageQuota A _ _ >>= _ = _
      congr 1
      funext _
      rw [storeRecord, call_bind_assoc]
      rfl
  | consumeKeyPackage id =>
    change resume A c (start A c (.consumeKeyPackage id)) = consumeKeyPackage A id >>= _
    rw [consumeKeyPackage, call_bind_assoc, start]
    cases h : requireNonEmpty id "id" with
    | error e => rfl
    | ok u =>
      change _ = pure u >>= _
      rw [call_pure_bind, call_bind_assoc]
      change onStorage _ >>= _ = _
      congr 1
      funext record
      cases record with
      | none => rfl
      | some r =>
        funext s
        change reply _ s = andThen (reply _) _ s
        cases consumedKeyPackage A r <;> rfl
  | removeKeyPackages kpRefs =>
    change resume A c (start A c (.removeKeyPackages kpRefs)) = removeKeyPackages A c kpRefs >>= _
    rw [removeKeyPackages, call_bind_assoc, start]
    split
    · rename_i hempty
      rfl
    · rename_i hne
      change _ = pure () >>= _
      rw [call_pure_bind, resume_removing]
      rfl

theorem resume_onward {α : Type} (c : Caller) (next : α → Task V) (op : Locked σ α) (s : σ) :
    resume A c (onward next (op s)).1 (onward next (op s)).2 =
      (onStorage op >>= fun a => resume A c (next a)) s := by
  cases h : op s with
  | mk result m =>
    cases result with
    | error e =>
      have herr := onStorage_error op s e (congrArg Prod.fst h)
      rw [bind_error herr, h]
      rfl
    | ok a =>
      have hok := onStorage_ok op s a (congrArg Prod.fst h)
      rw [bind_ok hok, h]
      rfl

theorem resume_advance (c : Caller) (task : Task V) (s : σ) :
    resume A c (advance A c task s).1 (advance A c task s).2 = resume A c task s := by
  cases task with
  | list record =>
    rw [advance, resume_onward, resume, enforce_eq, call_bind_assoc]
    simp only [resume_evicting, call_bind_assoc]
  | evict record records next oldest =>
    rw [advance, resume_onward, resume]
    simp only [resume_evicting, removeEach, call_bind_assoc]
  | insert record records =>
    rw [advance, resume_onward, resume, storeRecord]
    rfl
  | check kpRef kpRefs removed =>
    rw [advance, resume_onward, resume, removeLoop, ownKeyPackage, call_bind_assoc, call_bind_assoc]
    refine congrFun (congrArg (onStorage _ >>= ·) (funext ?_)) s
    intro found
    cases found with
    | none => rfl
    | some record =>
      by_cases hown : record.stablePubkey ≠ c.clientPubkey
      · simp only [if_pos hown]
        rfl
      · simp only [if_neg hown, resume, call_pure_bind, call_bind_assoc]
  | remove record kpRef kpRefs removed =>
    rw [advance, resume_onward, resume]
    simp only [resume_removing, List.append_assoc, List.singleton_append]
  | consume id =>
    rw [advance, resume_onward, resume]
    refine congrFun (congrArg (onStorage _ >>= ·) (funext ?_)) s
    intro record
    cases record <;> rfl
  | done result => rfl

variable (A) in
def advanceTimes (c : Caller) : ℕ → Task V → σ → Task V × σ
  | 0, task, s => (task, s)
  | n+1, task, s => advanceTimes c n (advance A c task s).1 (advance A c task s).2

theorem resume_advanceTimes (c : Caller) (n : ℕ) (task : Task V) (s : σ) :
    resume A c (advanceTimes A c n task s).1 (advanceTimes A c n task s).2 =
      resume A c task s := by
  induction n generalizing task s with
  | zero => rfl
  | succ n ih => rw [advanceTimes, ih, resume_advance]

def Finishes (A : CoordinatorAdapter V σ L) (c : Caller) (task : Task V) : Prop :=
  ∀ s, ∃ n result s', advanceTimes A c n task s = (.done result, s')

theorem Finishes.done (c : Caller) (result : Except AdapterError Reply) :
    Finishes A c (.done result) :=
  fun s => ⟨0, result, s, rfl⟩

theorem Finishes.onward {c : Caller} {task : Task V} {α : Type} (next : α → Task V)
    (op : Locked σ α) (h : ∀ s, advance A c task s = onward next (op s))
    (hnext : ∀ a, Finishes A c (next a)) : Finishes A c task := by
  intro s
  have hstep := h s
  cases hop : op s with
  | mk result m =>
    cases result with
    | error e =>
      refine ⟨1, .error (.storage e), m, ?_⟩
      rw [advanceTimes, hstep, hop]
      rfl
    | ok a =>
      obtain ⟨n, result, s', hrun⟩ := hnext a m
      refine ⟨n+1, result, s', ?_⟩
      rw [advanceTimes, hstep, hop]
      exact hrun

theorem finishes_evicting (c : Caller) (record : PublishedKeyPackageRecord V)
    (records : KeyShelf V) (oldest : List (PublishedKeyPackageRecord V)) :
    Finishes A c (evicting A record records oldest) := by
  induction oldest with
  | nil =>
    rw [evicting]
    split
    · exact Finishes.done c _
    · exact Finishes.onward _ _ (fun _ => rfl) (fun _ => Finishes.done c _)
  | cons next oldest ih => exact Finishes.onward _ _ (fun _ => rfl) (fun _ => ih)

theorem finishes_removing (c : Caller) (removed kpRefs : List String) :
    Finishes A c (removing removed kpRefs) := by
  induction kpRefs generalizing removed with
  | nil => exact Finishes.done c _
  | cons kpRef kpRefs ih =>
    refine Finishes.onward _ _ (fun _ => rfl) ?_
    intro found
    cases found with
    | none => exact Finishes.done c _
    | some record =>
      by_cases hown : record.stablePubkey ≠ c.clientPubkey
      · simp only [if_pos hown]
        exact Finishes.done c _
      · simp only [if_neg hown]
        exact Finishes.onward _ _ (fun _ => rfl) (fun _ => ih _)

theorem finishes_start (c : Caller) (request : PackageRequest) :
    Finishes A c (start A c request) := by
  cases request with
  | publishKeyPackage input event =>
    rw [start]
    split
    · exact Finishes.done c _
    · exact Finishes.onward _ _ (fun _ => rfl) (fun _ => finishes_evicting c _ _ _)
  | consumeKeyPackage id =>
    rw [start]
    split
    · exact Finishes.done c _
    · refine Finishes.onward _ _ (fun _ => rfl) ?_
      intro record
      cases record <;> exact Finishes.done c _
  | removeKeyPackages kpRefs =>
    rw [start]
    split
    · exact Finishes.done c _
    · exact finishes_removing c _ _

/-- Left alone, a call in flight ends as the adapter's function does. -/
theorem alone_performs (c : Caller) (request : PackageRequest) (s : σ) :
    ∃ n, advanceTimes A c n (start A c request) s =
      (.done (perform A c request.toRequest s).1, (perform A c request.toRequest s).2) := by
  obtain ⟨n, result, s', hrun⟩ := finishes_start c request s
  have hresume := resume_advanceTimes (A := A) c n (start A c request) s
  rw [hrun, resume_start] at hresume
  refine ⟨n, ?_⟩
  rw [hrun, ← hresume]
  rfl

section Shelf

variable {Kept : σ → Prop} {unique : Bool}

theorem onward_ok {α : Type} (next : α → Task V) (op : Locked σ α) (s : σ) (a : α)
    (h : (op s).1 = .ok a) : onward next (op s) = (next a, (op s).2) := by
  cases hop : op s with
  | mk result m =>
    rw [hop] at h
    obtain rfl : result = .ok a := h
    rfl

theorem advance_list (hA : KeepsShelf A.storage Kept unique) (c : Caller)
    (record : PublishedKeyPackageRecord V) (s : σ) (hs : Kept s) (records : KeyShelf V)
    (hrecords : records = (stored A.storage s).filter (hasIdentity record.stablePubkey)) :
    advance A c (.list record) s = (evicting A record records
      (oldestLastResorts A.keyPackageQuota records record.isLastResort), s) := by
  have hlist := hA.identity s record.stablePubkey hs
  rw [← hrecords] at hlist
  have hstep := onward_ok (fun records => evicting A record records
    (oldestLastResorts A.keyPackageQuota records record.isLastResort)) _ s _
    (congrArg Prod.fst hlist)
  rw [hlist] at hstep
  rw [advance, hlist, hstep]

theorem advance_evict (hA : KeepsShelf A.storage Kept unique) (c : Caller)
    (record next : PublishedKeyPackageRecord V) (records : KeyShelf V)
    (oldest : List (PublishedKeyPackageRecord V)) (s : σ) (hs : Kept s) :
    ∃ s', advance A c (.evict record records next oldest) s =
        (evicting A record records oldest, s') ∧ Kept s' ∧
      stored A.storage s' = (stored A.storage s).eraseP (hasRef next.keyPackageRef) := by
  obtain ⟨hres, hkept, hleft⟩ := hA.remove s next.keyPackageRef hs
  exact ⟨_, onward_ok _ _ s _ hres, hkept, hleft⟩

theorem advance_insert (hA : KeepsShelf A.storage Kept unique) (c : Caller)
    (record : PublishedKeyPackageRecord V) (records : KeyShelf V) (s : σ) (hs : Kept s)
    (hn : ¬Refused unique record (stored A.storage s)) :
    ∃ result s', advance A c (.insert record records) s = (.done (.ok result), s') ∧ Kept s' ∧
      Inserted (stored A.storage s) record (stored A.storage s') := by
  obtain ⟨hres, hkept, hin⟩ := hA.accept s record hs hn
  exact ⟨_, _, onward_ok _ _ s _ hres, hkept, hin⟩

theorem advance_refused (hA : KeepsShelf A.storage Kept unique) (c : Caller)
    (record : PublishedKeyPackageRecord V) (records : KeyShelf V) (s : σ) (hs : Kept s)
    (hn : Refused unique record (stored A.storage s)) :
    ∃ e, advance A c (.insert record records) s = (.done (.error e), s) := by
  obtain ⟨e, he⟩ := hA.refuse s record hs hn
  refine ⟨.storage e, ?_⟩
  rw [advance, he]
  rfl

theorem advance_check (hA : KeepsShelf A.storage Kept unique) (c : Caller) (kpRef : String)
    (kpRefs removed : List String) (s : σ) (hs : Kept s) :
    (∃ e, advance A c (.check kpRef kpRefs removed) s = (.done (.error e), s)) ∨
      ∃ record, withRef (stored A.storage s) kpRef = some record ∧
        record.stablePubkey = c.clientPubkey ∧
        advance A c (.check kpRef kpRefs removed) s =
          (.remove record kpRef kpRefs removed, s) := by
  rw [advance, hA.get s kpRef hs]
  cases hw : withRef (stored A.storage s) kpRef with
  | none => exact Or.inl ⟨_, rfl⟩
  | some record =>
    by_cases hown : record.stablePubkey ≠ c.clientPubkey
    · simp only [onward, if_pos hown]
      exact Or.inl ⟨_, rfl⟩
    · simp only [onward, if_neg hown]
      exact Or.inr ⟨record, rfl, not_not.mp hown, rfl⟩

theorem advance_remove (hA : KeepsShelf A.storage Kept unique) (c : Caller)
    (record : PublishedKeyPackageRecord V) (kpRef : String) (kpRefs removed : List String) (s : σ)
    (hs : Kept s) :
    ∃ removed' s', advance A c (.remove record kpRef kpRefs removed) s =
        (removing removed' kpRefs, s') ∧ Kept s' ∧
      stored A.storage s' = (stored A.storage s).eraseP (hasRef kpRef) := by
  obtain ⟨hres, hkept, hleft⟩ := hA.remove s kpRef hs
  exact ⟨_, _, onward_ok _ _ s _ hres, hkept, hleft⟩

theorem advance_consume (hA : KeepsShelf A.storage Kept unique) (c : Caller) (id : String) (s : σ)
    (hs : Kept s) :
    ∃ result s', advance A c (.consume id) s = (.done result, s') ∧ Kept s' ∧
      Consumed (stored A.storage s) (taken (stored A.storage s) id) (stored A.storage s') := by
  obtain ⟨hres, hkept, hleft⟩ := hA.consume s id hs
  have hstep : (advance A c (.consume id) s).2 = (A.storage.consumeKeyPackage id s).2 ∧
      ∃ result, (advance A c (.consume id) s).1 = .done result := by
    rw [advance, onward_ok _ _ s _ hres]
    cases taken (stored A.storage s) id <;> exact ⟨rfl, _, rfl⟩
  obtain ⟨hstate, result, htask⟩ := hstep
  exact ⟨result, _, Prod.ext htask hstate, hkept, hleft⟩

theorem advance_kept (hA : KeepsShelf A.storage Kept unique) (c : Caller) (task : Task V) (s : σ)
    (hs : Kept s) : Kept (advance A c task s).2 := by
  cases task with
  | list record =>
    rw [advance_list hA c record s hs _ rfl]
    exact hs
  | evict record records next oldest =>
    obtain ⟨s', hstep, hkept, -⟩ := advance_evict hA c record next records oldest s hs
    rw [hstep]
    exact hkept
  | insert record records =>
    by_cases href : Refused unique record (stored A.storage s)
    · obtain ⟨e, hstep⟩ := advance_refused hA c record records s hs href
      rw [hstep]
      exact hs
    · obtain ⟨result, s', hstep, hkept, -⟩ := advance_insert hA c record records s hs href
      rw [hstep]
      exact hkept
  | check kpRef kpRefs removed =>
    rcases advance_check hA c kpRef kpRefs removed s hs with ⟨e, hstep⟩ | ⟨r, -, -, hstep⟩ <;>
      rw [hstep] <;> exact hs
  | remove record kpRef kpRefs removed =>
    obtain ⟨removed', s', hstep, hkept, -⟩ := advance_remove hA c record kpRef kpRefs removed s hs
    rw [hstep]
    exact hkept
  | consume id =>
    obtain ⟨result, s', hstep, hkept, -⟩ := advance_consume hA c id s hs
    rw [hstep]
    exact hkept
  | done result => exact hs

end Shelf

def starts (clientPubkey : String) (request : PackageRequest) : Event :=
  .start (sampleCaller clientPubkey) request

def publication (clientPubkey identity64 : String) (lastResort : Bool) (kpRef : String) : Event :=
  starts clientPubkey (.publishKeyPackage ⟨kpRef, package64 identity64 lastResort⟩
    (some (sampleEvent clientPubkey)))

end Cordn.Adapter
