import Cordn.QueueOps

/-!
# The queues in the SQLite tables

Each table lists the abstract list of its kind by row id. The multi-group fetch
retires every acknowledged row first and reads all groups in one join.
-/

set_option autoImplicit false

namespace Cordn.Sqlite
open QueueOps SqlTable

variable {V : Type} (json : SerdeJson V)

structure HoldsQueues (db : Database) (q : Queues) : Prop where
  welcomes : db.welcomes.contents = q.welcomes
  joinRequests : db.joinRequests.contents = q.joinRequests

theorem consumesWelcome_any (target : String) (consumed : List ConsumedWelcomeRef)
    (r : WelcomeQueueRecord) :
    consumed.any (fun c => consumesWelcome target c r) = ackedWelcome target consumed r := by
  rw [ackedWelcome, Bool.eq_iff_iff, List.any_eq_true, decide_eq_true_eq]
  constructor
  · rintro ⟨⟨ref, at'⟩, hc, he⟩
    simp only [consumesWelcome, Bool.and_eq_true, decide_eq_true_eq] at he
    obtain ⟨⟨ht, rfl⟩, rfl⟩ := he
    exact ⟨ht, hc⟩
  · rintro ⟨ht, hc⟩
    exact ⟨_, hc, by simp [consumesWelcome, ht]⟩

theorem consumesJoinRequest_any (groupId : String) (consumed : List ConsumedJoinRequestRef)
    (r : JoinRequestRecord) :
    consumed.any (fun c => consumesJoinRequest groupId c r) =
      ackedJoinRequest groupId consumed r := by
  rw [ackedJoinRequest, Bool.eq_iff_iff, List.any_eq_true, decide_eq_true_eq]
  constructor
  · rintro ⟨⟨requester, at'⟩, hc, he⟩
    simp only [consumesJoinRequest, Bool.and_eq_true, decide_eq_true_eq] at he
    obtain ⟨⟨hg, rfl⟩, rfl⟩ := he
    exact ⟨hg, hc⟩
  · rintro ⟨hg, hc⟩
    exact ⟨_, hc, by simp [consumesJoinRequest, hg]⟩

theorem retire_contents (groupId : String) (consumed : List ConsumedJoinRequestRef)
    (t : SqlTable JoinRequestRecord) : (retire groupId consumed t).contents =
      t.contents.filter (fun r => !ackedJoinRequest groupId consumed r) := by
  simp only [retire, contents_deleteEach, consumesJoinRequest_any]

/-- The deletion batch leaves what the fetches one after the other leave. -/
theorem retireEach_contents (consumed : List ConsumedJoinRequestWithGroupRef)
    (groupIds : List String) (t : SqlTable JoinRequestRecord) (q : Queues)
    (h : t.contents = q.joinRequests) :
    (retireEach groupIds consumed t).contents =
      (Queues.fetchManyJoinRequests consumed groupIds q).2.joinRequests := by
  induction groupIds generalizing t q with
  | nil => exact h
  | cons groupId groupIds ih =>
    refine ih _ (q.fetchJoinRequests groupId (acksFor consumed groupId)).2 ?_
    simp only
    rw [partition_bucket, retire_contents, h]
    rfl

theorem fetchMany_answer (consumed : List ConsumedJoinRequestWithGroupRef)
    (groupIds : List String) (q : Queues) :
    (Queues.fetchManyJoinRequests consumed groupIds q).1 = groupIds.flatMap
      (fun groupId => (q.fetchJoinRequests groupId (acksFor consumed groupId)).1) := by
  induction groupIds generalizing q with
  | nil => rfl
  | cons groupId groupIds ih =>
    simp only [Queues.fetchManyJoinRequests, List.flatMap_cons, ih]
    congr 1
    apply List.flatMap_congr
    intro g _
    simp only [Queues.fetchJoinRequests, Queues.dropJoinRequests, List.filter_filter]
    apply List.filter_congr
    intro r _
    simp only [ackedJoinRequest_acksFor, leavesJoinRequests, QueueOps.inGroup]
    by_cases hg : r.groupId = g <;> by_cases hh : r.groupId = groupId <;> simp_all

theorem fetchMany_left_inGroup (consumed : List ConsumedJoinRequestWithGroupRef)
    (groupIds : List String) (q : Queues) (groupId : String) (hm : groupId ∈ groupIds) :
    (Queues.fetchManyJoinRequests consumed groupIds q).2.joinRequests.filter
        (QueueOps.inGroup groupId) =
      (q.fetchJoinRequests groupId (acksFor consumed groupId)).1 := by
  rw [fetchMany_left]
  simp only [Queues.fetchJoinRequests, Queues.dropJoinRequests, List.filter_filter]
  apply List.filter_congr
  intro r _
  simp only [ackedJoinRequest_acksFor, leavesJoinRequests, QueueOps.inGroup]
  by_cases hg : r.groupId = groupId <;> simp_all

theorem join_inGroups (t : SqlTable JoinRequestRecord) (groupIds : List String) :
    t.join groupIds.zipIdx (fun q r => decide (r.groupId = q.1)) joinRequestOrder =
      groupIds.flatMap (fun g => t.contents.filter (QueueOps.inGroup g)) := by
  have hrequests : groupIds.zipIdx.Pairwise
      (fun q q' => ∀ r r', (joinRequestOrder (q, r) (q', r')).isLE = true) := by
    apply (zipIdx_pairwise groupIds).imp
    intro q q' hq r r'
    simp [joinRequestOrder, compareLex, compareOn, Nat.compare_eq_lt.mpr hq]
  have hrows : ∀ q r r', joinRequestOrder (q, r) (q, r') = byId r r' := by
    intro q r r'
    simp [joinRequestOrder, compareLex, compareOn, byId]
  rw [join_selects _ _ _ _ byId hrequests hrows]
  conv_rhs => rw [← List.zipIdx_map_fst 0 groupIds, List.flatMap_map]
  simp only [select_byId]
  rfl

theorem fetchManyRequests_served (consumed : List ConsumedJoinRequestWithGroupRef)
    (groupIds : List String) (db : Database) (h : joinRequestLimit groupIds.length = none) :
    fetchManyPendingJoinRequests groupIds consumed db =
      (.ok ((retireEach groupIds consumed db.joinRequests).join groupIds.zipIdx
          (fun q r => decide (r.groupId = q.1)) joinRequestOrder),
        { db with joinRequests := retireEach groupIds consumed db.joinRequests }) := by
  rw [fetchManyPendingJoinRequests]
  split
  · rename_i hnil
    rw [List.isEmpty_iff.mp hnil]
    rfl
  · simp only [h]

theorem fetchManyRequests_refused (consumed : List ConsumedJoinRequestWithGroupRef)
    (groupIds : List String) (db : Database) (e : StorageError)
    (h : joinRequestLimit groupIds.length = some e) :
    fetchManyPendingJoinRequests groupIds consumed db = (.error e, db) := by
  rw [fetchManyPendingJoinRequests]
  split
  · rename_i hnil
    rw [List.isEmpty_iff.mp hnil] at h
    cases h
  · simp only [h]

theorem fetchMany_spec (consumed : List ConsumedJoinRequestWithGroupRef) (groupIds : List String)
    (db : Database) (q : Queues) (h : HoldsQueues db q)
    (hserved : joinRequestLimit groupIds.length = none) :
    (fetchManyPendingJoinRequests groupIds consumed db).1 =
        .ok (Queues.fetchManyJoinRequests consumed groupIds q).1 ∧
      HoldsQueues (fetchManyPendingJoinRequests groupIds consumed db).2
        (Queues.fetchManyJoinRequests consumed groupIds q).2 := by
  have hleft := retireEach_contents consumed groupIds db.joinRequests q h.joinRequests
  have hw : db.welcomes.contents =
      (Queues.fetchManyJoinRequests consumed groupIds q).2.welcomes := by
    rw [fetchMany_welcomes, h.welcomes]
  rw [fetchManyRequests_served consumed groupIds db hserved]
  refine ⟨?_, hw, hleft⟩
  change Except.ok (SqlTable.join _ groupIds.zipIdx _ joinRequestOrder) = _
  rw [join_inGroups, hleft, fetchMany_answer]
  apply congrArg
  apply List.flatMap_congr
  intro x hx
  exact fetchMany_left_inGroup consumed groupIds q x hx

theorem storeJoinRequest_spec (record : JoinRequestRecord) (db : Database) (q : Queues)
    (h : HoldsQueues db q) :
    (storeJoinRequest record db).1 = (q.storeJoinRequest record).1 ∧
      HoldsQueues (storeJoinRequest record db).2 (q.storeJoinRequest record).2 := by
  have hsame : ∀ r, sameRequest record r = decide (requestKey r = requestKey record) := by
    intro r
    simp [sameRequest, requestKey]
  have hiff : ((db.joinRequests.select (sameRequest record) SqlTable.byId).take 1).isEmpty = true ↔
      requestKey record ∉ q.joinRequests.map requestKey := by
    rw [List.isEmpty_iff, List.take_eq_nil_iff, select_byId, h.joinRequests,
      List.filter_eq_nil_iff]
    simp [hsame]
  have hcount : db.joinRequests.matching (inGroup record.groupId) =
      (q.joinRequests.filter (QueueOps.inGroup record.groupId)).length := by
    rw [matching, h.joinRequests, List.countP_eq_length_filter]
    rfl
  unfold storeJoinRequest Queues.storeJoinRequest
  by_cases hk : requestKey record ∈ q.joinRequests.map requestKey
  · rw [if_neg (fun he => hiff.mp he hk), dif_pos hk]
    refine ⟨rfl, h.welcomes, ?_⟩
    simp only [contents_update, h.joinRequests, Queues.refreshJoinRequest, hsame,
      decide_eq_true_eq]
    rfl
  · rw [if_pos (hiff.mpr hk), dif_neg hk, hcount]
    split
    · exact ⟨rfl, h⟩
    · refine ⟨rfl, h.welcomes, ?_⟩
      simp only [contents_insert, h.joinRequests, Queues.pushJoinRequest]

theorem storeJoinRequest_error (record : JoinRequestRecord) (db : Database) (e : StorageError)
    (h : (storeJoinRequest record db).1 = .error e) :
    storeJoinRequest record db = (.error .tooManyPendingJoinRequests, db) := by
  unfold storeJoinRequest at h ⊢
  split
  · rename_i hfree
    rw [if_pos hfree] at h
    split
    · rfl
    · rename_i hroom
      rw [if_neg hroom] at h
      simp at h
  · rename_i hrequested
    rw [if_neg hrequested] at h
    simp at h

def purged {α : Type} (createdAt : α → Int) (threshold : Int) (t : SqlTable α) : ℕ × SqlTable α :=
  if threshold ≤ 0 then (0, t)
  else (t.matching (fun r => decide (createdAt r < threshold)),
    t.delete (fun r => decide (createdAt r < threshold)))

theorem deleteExpiredWelcomes_eq (threshold : Int) (db : Database) :
    deleteExpiredWelcomes threshold db =
      (.ok (purged WelcomeQueueRecord.createdAt threshold db.welcomes).1,
        { db with welcomes := (purged WelcomeQueueRecord.createdAt threshold db.welcomes).2 }) := by
  rw [deleteExpiredWelcomes, purged]
  split <;> rfl

theorem deleteExpiredJoinRequests_eq (threshold : Int) (db : Database) :
    deleteExpiredJoinRequests threshold db =
      (.ok (purged JoinRequestRecord.createdAt threshold db.joinRequests).1,
        { db with joinRequests :=
            (purged JoinRequestRecord.createdAt threshold db.joinRequests).2 }) := by
  rw [deleteExpiredJoinRequests, purged]
  split <;> rfl

theorem purged_spec {α : Type} (createdAt : α → Int) (threshold : Int) (t : SqlTable α) :
    (purged createdAt threshold t).1 =
        t.contents.countP (fun r => expired threshold (createdAt r)) ∧
      (purged createdAt threshold t).2.contents =
        t.contents.filter (fun r => !expired threshold (createdAt r)) := by
  by_cases ht : threshold ≤ 0
  · obtain ⟨hcount, hkept⟩ := nothing_expires createdAt threshold ht t.contents
    rw [purged, if_pos ht, hcount, hkept]
    exact ⟨rfl, rfl⟩
  · simp only [purged, if_neg ht, expired_pos threshold ht]
    exact ⟨rfl, contents_delete t _⟩

theorem step_holdsQueues (op : Op) (db : Database) (q : Queues) (h : HoldsQueues db q) :
    (step (storage json) op db).1 = (limitedStep joinRequestLimit op q).1 ∧
      HoldsQueues (step (storage json) op db).2 (limitedStep joinRequestLimit op q).2 := by
  cases op with
  | storeWelcome record =>
    refine ⟨rfl, ?_, h.joinRequests⟩
    change (db.welcomes.insert record).contents = q.welcomes ++ [record]
    rw [contents_insert, h.welcomes]
  | fetchPendingWelcomes target consumed =>
    have hleft : (consumed.foldl (fun t c => t.delete (consumesWelcome target c))
        db.welcomes).contents = q.welcomes.filter (fun r => !ackedWelcome target consumed r) := by
      rw [contents_deleteEach, h.welcomes]
      simp only [consumesWelcome_any]
    refine ⟨?_, hleft, h.joinRequests⟩
    change Answer.welcomes (.ok (SqlTable.select _ _ SqlTable.byId)) = _
    rw [select_byId, hleft]
    rfl
  | deleteExpiredWelcomes threshold =>
    obtain ⟨hcount, hkept⟩ := purged_spec WelcomeQueueRecord.createdAt threshold db.welcomes
    change Answer.deleted (deleteExpiredWelcomes threshold db).1 = _ ∧
      HoldsQueues (deleteExpiredWelcomes threshold db).2 _
    rw [h.welcomes] at hcount hkept
    rw [deleteExpiredWelcomes_eq, hcount]
    exact ⟨rfl, hkept, h.joinRequests⟩
  | storeJoinRequest record =>
    obtain ⟨hres, hnext⟩ := storeJoinRequest_spec record db q h
    exact ⟨congrArg Answer.joinRequest hres, hnext⟩
  | fetchPendingJoinRequests groupId consumed =>
    have hleft : (retire groupId consumed db.joinRequests).contents =
        (q.fetchJoinRequests groupId consumed).2.joinRequests := by
      rw [retire_contents, h.joinRequests]
      rfl
    refine ⟨?_, h.welcomes, hleft⟩
    change Answer.joinRequests (.ok (SqlTable.select _ _ SqlTable.byId)) = _
    rw [select_byId, hleft]
    rfl
  | fetchManyPendingJoinRequests groupIds consumed =>
    change Answer.joinRequests (fetchManyPendingJoinRequests groupIds consumed db).1 = _ ∧
      HoldsQueues (fetchManyPendingJoinRequests groupIds consumed db).2 _
    cases hlimit : joinRequestLimit groupIds.length with
    | none =>
      obtain ⟨hres, hnext⟩ := fetchMany_spec consumed groupIds db q h hlimit
      rw [limitedStep_served joinRequestLimit (.fetchManyPendingJoinRequests groupIds consumed) q
        hlimit]
      exact ⟨congrArg Answer.joinRequests hres, hnext⟩
    | some e =>
      rw [fetchManyRequests_refused consumed groupIds db e hlimit]
      simp only [limitedStep, hlimit]
      exact ⟨trivial, h⟩
  | deleteExpiredJoinRequests threshold =>
    obtain ⟨hcount, hkept⟩ := purged_spec JoinRequestRecord.createdAt threshold db.joinRequests
    change Answer.deleted (deleteExpiredJoinRequests threshold db).1 = _ ∧
      HoldsQueues (deleteExpiredJoinRequests threshold db).2 _
    rw [h.joinRequests] at hcount hkept
    rw [deleteExpiredJoinRequests_eq, hcount]
    exact ⟨rfl, h.welcomes, hkept⟩

end Cordn.Sqlite
