import Cordn.JoinRequestAcks

/-!
# The cap on pending join requests

No schema or type keeps a requester from being pending twice in a group, or a
group from overflowing: the lookup before each insert does. Both bounds hold in
every state, whatever was acknowledged or has expired, so a refresh always finds
one record to rewrite.
-/

set_option autoImplicit false

namespace Cordn.CoordinatorOps
open QueueOps

variable {V σ : Type}

/-- A group's queue is within the cap, of that group, and has each requester once. -/
structure WithinCap (groupId : String) (pending : List JoinRequestRecord) : Prop where
  length : pending.length ≤ maxPendingJoinRequestsPerGroup
  requesters : (pending.map JoinRequestRecord.requesterStablePubkey).Nodup
  own : ∀ r ∈ pending, r.groupId = groupId

def IsPending (record : JoinRequestRecord) (pending : List JoinRequestRecord) : Prop :=
  ∃ r ∈ pending, r.requesterStablePubkey = record.requesterStablePubkey

/-- What a store does to the pending requests: a requester's own one is rewritten
where it stands, a new one goes last, and at the cap it is refused. -/
structure StoresPending (S : CoordinatorStorage V σ) (s : σ) (record : JoinRequestRecord) :
    Prop where
  refreshed : IsPending record (pendingIn S s record.groupId) →
    (S.storeJoinRequest record s).1 = .ok record ∧
      pendingIn S (S.storeJoinRequest record s).2 record.groupId =
        (pendingIn S s record.groupId).map (fun r =>
          if r.requesterStablePubkey = record.requesterStablePubkey then record else r)
  entered : ¬IsPending record (pendingIn S s record.groupId) →
    (pendingIn S s record.groupId).length < maxPendingJoinRequestsPerGroup →
    (S.storeJoinRequest record s).1 = .ok record ∧
      pendingIn S (S.storeJoinRequest record s).2 record.groupId =
        pendingIn S s record.groupId ++ [record]
  refused : ¬IsPending record (pendingIn S s record.groupId) →
    ((∃ e, (S.storeJoinRequest record s).1 = .error e) ↔
      (pendingIn S s record.groupId).length = maxPendingJoinRequestsPerGroup)
  intact : ∀ e, (S.storeJoinRequest record s).1 = .error e →
    S.storeJoinRequest record s = (.error .tooManyPendingJoinRequests, s)
  others : ∀ g, g ≠ record.groupId →
    pendingIn S (S.storeJoinRequest record s).2 g = pendingIn S s g

def Spares (record : JoinRequestRecord) (op : StorageOp V) : Prop :=
  ∀ op', op = .queues op' → leavesJoinRequests op' record = false ∧
    ∀ record', op' = .storeJoinRequest record' → requestKey record' ≠ requestKey record

/-- Once stored, the request with its reference and time is what a served fetch
returns of its requester, until an operation retires or refreshes it. -/
def ShowsStored (S : CoordinatorStorage V σ) (limit : FetchLimit) (s : σ)
    (record : JoinRequestRecord) : Prop :=
  (S.storeJoinRequest record s).1 = .ok record → ∀ ops : List (StorageOp V),
    (∀ op ∈ ops, Spares record op) → ∀ fetch : JoinRequestFetch,
      Served limit fetch.op → record.groupId ∈ fetch.groupIds →
      joinRequestRef record ∉ fetch.acks →
      ∀ r, requestKey r = requestKey record →
        (r ∈ returned (QueueOps.step S fetch.op
          (Run.after (perform S) ops (S.storeJoinRequest record s).2)).1 ↔ r = record)

structure CapsJoinRequests (S : CoordinatorStorage V σ) (limit : FetchLimit) (s : σ) : Prop where
  within : ∀ groupId, WithinCap groupId (pendingIn S s groupId)
  stores : ∀ record, StoresPending S s record
  shows : ∀ record, ShowsStored S limit s record

def Capped (q : Queues) : Prop :=
  ∀ groupId, (q.joinRequests.filter (QueueOps.inGroup groupId)).length ≤
    maxPendingJoinRequestsPerGroup

theorem capped_empty : Capped Queues.empty := fun _ => Nat.zero_le _

theorem enters_capped (op : QueueOps.Op) (q : Queues) (h : Capped q) (groupId : String) :
    (q.joinRequests.filter (QueueOps.inGroup groupId)).length +
      (entersJoinRequests q op).countP (QueueOps.inGroup groupId) ≤
        maxPendingJoinRequestsPerGroup := by
  cases op with
  | storeJoinRequest record =>
    rw [entersJoinRequests]
    split
    · exact h groupId
    · rename_i henter
      rw [not_or, Nat.not_le] at henter
      rw [List.countP_singleton]
      split
      · rename_i hg
        obtain rfl : record.groupId = groupId := by simpa [QueueOps.inGroup] using hg
        exact Nat.succ_le_of_lt henter.2
      · exact h groupId
  | _ => exact h groupId

/-- Operations shorten a group's queue, but for the one request that enters below the cap. -/
theorem queueStep_capped (op : QueueOps.Op) (q : Queues) (h : Capped q) :
    Capped (queueStep op q).2 := by
  intro groupId
  have hsame : QueueOps.inGroup groupId ∘ refreshedBy op = QueueOps.inGroup groupId := by
    funext r
    simp [QueueOps.inGroup, refreshedBy_groupId]
  have hold := (List.filter_sublist (p := fun r => !leavesJoinRequests op r)
    (l := q.joinRequests.map (refreshedBy op))).countP_le (p := QueueOps.inGroup groupId)
  rw [List.countP_map, hsame, List.countP_eq_length_filter (l := q.joinRequests)] at hold
  rw [(queueStep_keepsOrder op q).joinRequests, ← List.countP_eq_length_filter,
    List.countP_append]
  exact (Nat.add_le_add_right hold _).trans (enters_capped op q h groupId)

theorem limitedStep_capped (limit : FetchLimit) (op : QueueOps.Op) (q : Queues) (h : Capped q) :
    Capped (limitedStep limit op q).2 := by
  rcases limitedStep_cases limit op q with he | ⟨_, _, _, -, -, he⟩
  · rw [he]
    exact queueStep_capped op q h
  · rwa [he]

theorem withinCap_filter (q : Queues) (h : Capped q) (groupId : String) :
    WithinCap groupId (q.joinRequests.filter (QueueOps.inGroup groupId)) where
  length := h groupId
  requesters := by
    have hkeys := (List.pairwise_map.mp q.distinct).sublist
      (List.filter_sublist (p := QueueOps.inGroup groupId))
    refine List.pairwise_map.mpr (List.Pairwise.imp_of_mem ?_ hkeys)
    intro a b ha hb hne he
    have hga : a.groupId = groupId := of_decide_eq_true (List.mem_filter.mp ha).2
    have hgb : b.groupId = groupId := of_decide_eq_true (List.mem_filter.mp hb).2
    exact hne (Prod.ext (hga.trans hgb.symm) he)
  own r hr := of_decide_eq_true (List.mem_filter.mp hr).2

theorem refresh_inGroup (record : JoinRequestRecord) (l : List JoinRequestRecord) :
    (l.map (refresh record)).filter (QueueOps.inGroup record.groupId) =
      (l.filter (QueueOps.inGroup record.groupId)).map (fun r =>
        if r.requesterStablePubkey = record.requesterStablePubkey then record else r) := by
  rw [List.filter_map, inGroup_refresh]
  apply List.map_congr_left
  intro r hr
  have hg : r.groupId = record.groupId := of_decide_eq_true (List.mem_filter.mp hr).2
  by_cases hq : r.requesterStablePubkey = record.requesterStablePubkey
  · rw [if_pos hq, refresh_same record r (Prod.ext hg hq)]
  · rw [if_neg hq, refresh_other record r (fun he => hq (congrArg Prod.snd he))]

theorem storeJoinRequest_others (q : Queues) (record : JoinRequestRecord) (g : String)
    (hg : g ≠ record.groupId) :
    (q.storeJoinRequest record).2.joinRequests.filter (QueueOps.inGroup g) =
      q.joinRequests.filter (QueueOps.inGroup g) := by
  rw [Queues.storeJoinRequest]
  split
  · simp only [Queues.refreshJoinRequest]
    rw [List.filter_map, inGroup_refresh]
    conv_rhs => rw [← List.map_id (q.joinRequests.filter (QueueOps.inGroup g))]
    apply List.map_congr_left
    intro r hr
    have hrg : r.groupId = g := of_decide_eq_true (List.mem_filter.mp hr).2
    exact refresh_other record r (fun he => hg (hrg.symm.trans (congrArg Prod.fst he)))
  · split
    · rfl
    · simp [Queues.pushJoinRequest, QueueOps.inGroup, Ne.symm hg]

theorem mem_returned (fetch : JoinRequestFetch) (q : Queues) (r : JoinRequestRecord)
    (hr : r ∈ returned (queueStep fetch.op q).1) : r ∈ q.joinRequests := by
  have hone : ∀ groupId consumed, r ∈ (q.fetchJoinRequests groupId consumed).1 →
      r ∈ q.joinRequests :=
    fun groupId consumed hr => List.mem_of_mem_filter (List.mem_of_mem_filter hr)
  cases fetch with
  | one groupId consumed => exact hone groupId consumed hr
  | many groupIds consumed =>
    change r ∈ (Queues.fetchManyJoinRequests consumed groupIds q).1 at hr
    rw [Sqlite.fetchMany_answer, List.mem_flatMap] at hr
    obtain ⟨groupId, -, hr⟩ := hr
    exact hone groupId _ hr

theorem returned_iff (fetch : JoinRequestFetch) (q : Queues) (record : JoinRequestRecord)
    (hrecord : record ∈ q.joinRequests) (hg : record.groupId ∈ fetch.groupIds)
    (hack : joinRequestRef record ∉ fetch.acks) (r : JoinRequestRecord)
    (hk : requestKey r = requestKey record) :
    r ∈ returned (queueStep fetch.op q).1 ↔ r = record := by
  constructor
  · exact fun hr => List.inj_on_of_nodup_map q.distinct (mem_returned fetch q r hr) hrecord hk
  · rintro rfl
    apply fetch_returned fetch q r _ hg
    rw [fetch_left, List.mem_filter]
    refine ⟨hrecord, ?_⟩
    rw [Bool.not_eq_true', Bool.eq_false_iff, ne_eq, leaves_fetch]
    exact fun hleaves => hack hleaves.2

theorem queuesAfter_spares (limit : FetchLimit) (record : JoinRequestRecord) (op : StorageOp V)
    (q : Queues) (hspares : Spares record op) (h : record ∈ q.joinRequests) :
    record ∈ (queuesAfter limit op q).joinRequests := by
  cases op with
  | queues op =>
    obtain ⟨hstays, hother⟩ := hspares op rfl
    have hsame : refreshedBy op record = record := by
      cases op with
      | storeJoinRequest record' => exact if_neg (fun he => hother record' rfl he.symm)
      | _ => rfl
    change record ∈ (limitedStep limit op q).2.joinRequests
    rcases limitedStep_cases limit op q with he | ⟨_, _, _, -, -, he⟩
    · rw [he, (queueStep_keepsOrder op q).joinRequests]
      apply List.mem_append_left
      exact List.mem_filter.mpr ⟨List.mem_map.mpr ⟨record, h, hsame⟩, by rw [hstays]; rfl⟩
    · rwa [he]
  | _ => exact h

section Backend

variable {S : CoordinatorStorage V σ} {limit : FetchLimit} {R : σ → Queues → Prop}

theorem storeJoinRequest_queues (hS : KeepsQueues S limit R) (s : σ) (q : Queues) (hR : R s q)
    (record : JoinRequestRecord) :
    (S.storeJoinRequest record s).1 = (q.storeJoinRequest record).1 ∧
      R (S.storeJoinRequest record s).2 (q.storeJoinRequest record).2 := by
  obtain ⟨hans, hnext⟩ := hS.queues (.storeJoinRequest record) s q hR
  exact ⟨QueueOps.Answer.joinRequest.inj hans, hnext⟩

theorem storesPending (hS : KeepsQueues S limit R) (s : σ) (q : Queues) (hR : R s q)
    (hcap : Capped q)
    (hintact : ∀ record s e, (S.storeJoinRequest record s).1 = .error e →
      S.storeJoinRequest record s = (.error .tooManyPendingJoinRequests, s))
    (record : JoinRequestRecord) : StoresPending S s record := by
  obtain ⟨hans, hnext⟩ := storeJoinRequest_queues hS s q hR record
  have hnew : ¬IsPending record (q.joinRequests.filter (QueueOps.inGroup record.groupId)) →
      requestKey record ∉ q.joinRequests.map requestKey :=
    fun hp hk => hp ((requested_inGroup record q.joinRequests).mpr hk)
  constructor
  · intro hp
    rw [pendingIn_eq hS s q hR] at hp
    rw [hans, pendingIn_eq hS _ _ hnext, pendingIn_eq hS s q hR, Queues.storeJoinRequest,
      dif_pos ((requested_inGroup record q.joinRequests).mp hp)]
    exact ⟨rfl, refresh_inGroup record q.joinRequests⟩
  · intro hp hroom
    rw [pendingIn_eq hS s q hR] at hp hroom
    rw [hans, pendingIn_eq hS _ _ hnext, pendingIn_eq hS s q hR, Queues.storeJoinRequest,
      dif_neg (hnew hp), if_neg (Nat.not_le.mpr hroom)]
    exact ⟨rfl, by simp [Queues.pushJoinRequest, QueueOps.inGroup]⟩
  · intro hp
    rw [pendingIn_eq hS s q hR] at hp ⊢
    rw [hans, Queues.storeJoinRequest, dif_neg (hnew hp)]
    have hle := hcap record.groupId
    split
    · rename_i hfull
      exact iff_of_true ⟨_, rfl⟩ (le_antisymm hle hfull)
    · rename_i hroom
      refine iff_of_false (by simp) (fun he => hroom he.ge)
  · exact hintact record s
  · intro g hg
    rw [pendingIn_eq hS _ _ hnext, pendingIn_eq hS s q hR, storeJoinRequest_others q record g hg]

theorem spared_stays (hS : KeepsQueues S limit R) (record : JoinRequestRecord)
    (ops : List (StorageOp V)) (hspares : ∀ op ∈ ops, Spares record op) (s : σ) (q : Queues)
    (hR : R s q) (h : record ∈ q.joinRequests) :
    ∃ q', R (Run.after (perform S) ops s) q' ∧ record ∈ q'.joinRequests := by
  induction ops generalizing s q with
  | nil => exact ⟨q, hR, h⟩
  | cons op ops ih =>
    have hop := queuesAfter_spares limit record op q (hspares op (by simp)) h
    exact ih (fun op' hop' => hspares op' (by simp [hop'])) _ _ (hS.perform op s q hR) hop

theorem showsStored (hS : KeepsQueues S limit R) (s : σ) (q : Queues) (hR : R s q)
    (record : JoinRequestRecord) : ShowsStored S limit s record := by
  intro hok ops hspares fetch hserved hg hack r hk
  obtain ⟨hans, hnext⟩ := storeJoinRequest_queues hS s q hR record
  have hadmits : Admits record (q.joinRequests.filter (QueueOps.inGroup record.groupId)) := by
    by_contra hrefused
    rw [hok, storeJoinRequest_refused q record hrefused] at hans
    simp at hans
  have hrecord := ((mem_storeJoinRequest q record record hadmits).2).mpr (Or.inl rfl)
  obtain ⟨q', hR', hstays⟩ := spared_stays hS record ops hspares _ _ hnext hrecord
  rw [(hS.queues fetch.op _ _ hR').1, limitedStep_served limit fetch.op q' hserved]
  exact returned_iff fetch q' record hstays hg hack r hk

theorem capsJoinRequests (hS : KeepsQueues S limit R) (init : σ) (hinit : R init Queues.empty)
    (hintact : ∀ record s e, (S.storeJoinRequest record s).1 = .error e →
      S.storeJoinRequest record s = (.error .tooManyPendingJoinRequests, s))
    (ops : List (StorageOp V)) : CapsJoinRequests S limit (Run.after (perform S) ops init) := by
  have hreach : ∃ q, R (Run.after (perform S) ops init) q ∧ Capped q := by
    refine Run.invariant (perform S) (fun s => ∃ q, R s q ∧ Capped q) ?_ ops init
      ⟨_, hinit, capped_empty⟩
    rintro op s ⟨q, hR, hcap⟩
    refine ⟨_, hS.perform op s q hR, ?_⟩
    cases op with
    | queues op => exact limitedStep_capped limit op q hcap
    | _ => exact hcap
  obtain ⟨q, hR, hcap⟩ := hreach
  constructor
  · intro groupId
    rw [pendingIn_eq hS _ q hR]
    exact withinCap_filter q hcap groupId
  · exact storesPending hS _ q hR hcap hintact
  · exact showsStored hS _ q hR

end Backend

theorem join_request_cap (json : Sqlite.SerdeJson V) (ops : List (StorageOp V)) :
    CapsJoinRequests (InMemory.storage : CoordinatorStorage V (InMemory.InMemoryInner V)) noLimit
        (Run.after (perform InMemory.storage) ops InMemory.InMemoryInner.default) ∧
      CapsJoinRequests (Sqlite.storage json) Sqlite.joinRequestLimit
        (Run.after (perform (Sqlite.storage json)) ops Sqlite.Database.new) :=
  ⟨capsJoinRequests inMemory_keepsQueues _ holdsQueues_default InMemory.storeJoinRequest_error ops,
    capsJoinRequests (sqlite_keepsQueues json) _ holdsQueues_new Sqlite.storeJoinRequest_error ops⟩

end Cordn.CoordinatorOps
