import Cordn.QueueOps

/-!
# The queues in the in-memory maps

Each map holds the abstract list of its kind, split by key. An emptied key is
dropped, which no operation can see.
-/

set_option autoImplicit false

namespace Cordn.InMemory
open QueueOps IndexMap

variable {V : Type}

structure HoldsQueues (s : InMemoryInner V) (q : Queues) : Prop where
  welcomes : Holds WelcomeQueueRecord.targetStablePubkey s.welcomesByIdentity q.welcomes
  joinRequests : Holds JoinRequestRecord.groupId s.joinRequestsByGroup q.joinRequests

theorem welcomeConsumed_eq (consumed : List ConsumedWelcomeRef) (r : WelcomeQueueRecord) :
    welcomeConsumed consumed r =
      decide (ConsumedWelcomeRef.mk r.keyPackageReference r.createdAt ∈ consumed) := by
  rw [welcomeConsumed, Bool.eq_iff_iff, List.any_eq_true, decide_eq_true_eq]
  constructor
  · rintro ⟨⟨ref, at'⟩, hc, he⟩
    simp only [Bool.and_eq_true, decide_eq_true_eq] at he
    rwa [← he.1, ← he.2]
  · exact fun hc => ⟨_, hc, by simp⟩

theorem joinRequestConsumed_eq (consumed : List ConsumedJoinRequestRef) (r : JoinRequestRecord) :
    joinRequestConsumed consumed r =
      decide (ConsumedJoinRequestRef.mk r.requesterStablePubkey r.createdAt ∈ consumed) := by
  rw [joinRequestConsumed, Bool.eq_iff_iff, List.any_eq_true, decide_eq_true_eq]
  constructor
  · rintro ⟨⟨requester, at'⟩, hc, he⟩
    simp only [Bool.and_eq_true, decide_eq_true_eq] at he
    rwa [← he.1, ← he.2]
  · exact fun hc => ⟨_, hc, by simp⟩

theorem not_ackedWelcome (target : String) (consumed : List ConsumedWelcomeRef)
    (r : WelcomeQueueRecord) : (!ackedWelcome target consumed r) =
      (decide (r.targetStablePubkey ≠ target) || !welcomeConsumed consumed r) := by
  rw [welcomeConsumed_eq, ackedWelcome]
  by_cases h : r.targetStablePubkey = target <;> simp [h]

theorem not_ackedJoinRequest (groupId : String) (consumed : List ConsumedJoinRequestRef)
    (r : JoinRequestRecord) : (!ackedJoinRequest groupId consumed r) =
      (decide (r.groupId ≠ groupId) || !joinRequestConsumed consumed r) := by
  rw [joinRequestConsumed_eq, ackedJoinRequest]
  by_cases h : r.groupId = groupId <;> simp [h]

/-- The `retain` of a fetch, skipped when there is nothing to acknowledge. -/
theorem retain_unless_empty {α β : Type} (consumed : List β) (gone : List β → α → Bool)
    (hgone : ∀ a, gone [] a = false) (as : List α) :
    (if consumed.isEmpty then as else as.filter (fun a => !gone consumed a)) =
      as.filter (fun a => !gone consumed a) := by
  cases consumed with
  | nil => simp [hgone]
  | cons c cs => simp

theorem fetchPendingWelcomes_spec (target : String) (consumed : List ConsumedWelcomeRef)
    (s : InMemoryInner V) (q : Queues) (h : HoldsQueues s q) :
    (fetchPendingWelcomes target consumed s).1 =
        .ok ((q.dropWelcomes (ackedWelcome target consumed)).welcomes.filter
          (fun r => decide (r.targetStablePubkey = target))) ∧
      HoldsQueues (fetchPendingWelcomes target consumed s).2
        (q.dropWelcomes (ackedWelcome target consumed)) := by
  have hread : (q.dropWelcomes (ackedWelcome target consumed)).welcomes.filter
      (fun r => decide (r.targetStablePubkey = target)) =
      (s.welcomesByIdentity.bucket target).filter (fun r => !welcomeConsumed consumed r) := by
    rw [h.welcomes target, Queues.dropWelcomes, List.filter_filter, List.filter_filter]
    apply List.filter_congr
    intro r _
    rw [not_ackedWelcome]
    by_cases ht : r.targetStablePubkey = target <;> simp [ht]
  have hkept : (q.dropWelcomes (ackedWelcome target consumed)).welcomes =
      q.welcomes.filter (fun r => decide (r.targetStablePubkey ≠ target) ||
        !welcomeConsumed consumed r) := by
    simp only [Queues.dropWelcomes, not_ackedWelcome]
  rw [hread]
  unfold fetchPendingWelcomes
  cases hg : s.welcomesByIdentity.get? target with
  | none =>
    refine ⟨by simp [bucket, hg], ⟨?_, h.joinRequests⟩⟩
    rw [hkept, h.welcomes.putBack_absent target hg]
    exact h.welcomes
  | some records =>
    have hb : s.welcomesByIdentity.bucket target = records := by simp [bucket, hg]
    simp only [retain_unless_empty consumed welcomeConsumed (fun _ => rfl)]
    refine ⟨by rw [hb], ⟨?_, h.joinRequests⟩⟩
    rw [hkept, ← hb]
    exact h.welcomes.putBack target _

theorem fetchPendingJoinRequests_spec (groupId : String)
    (consumed : List ConsumedJoinRequestRef) (s : InMemoryInner V) (q : Queues)
    (h : HoldsQueues s q) :
    (fetchPendingJoinRequests groupId consumed s).1 =
        .ok (q.fetchJoinRequests groupId consumed).1 ∧
      HoldsQueues (fetchPendingJoinRequests groupId consumed s).2
        (q.fetchJoinRequests groupId consumed).2 := by
  have hread : (q.fetchJoinRequests groupId consumed).1 =
      (s.joinRequestsByGroup.bucket groupId).filter
        (fun r => !joinRequestConsumed consumed r) := by
    rw [h.joinRequests groupId, Queues.fetchJoinRequests, Queues.dropJoinRequests,
      List.filter_filter, List.filter_filter]
    apply List.filter_congr
    intro r _
    rw [not_ackedJoinRequest]
    by_cases hr : r.groupId = groupId <;> simp [hr, QueueOps.inGroup]
  have hkept : (q.fetchJoinRequests groupId consumed).2.joinRequests =
      q.joinRequests.filter (fun r => decide (r.groupId ≠ groupId) ||
        !joinRequestConsumed consumed r) := by
    simp only [Queues.fetchJoinRequests, Queues.dropJoinRequests, not_ackedJoinRequest]
  rw [hread]
  unfold fetchPendingJoinRequests
  cases hg : s.joinRequestsByGroup.get? groupId with
  | none =>
    refine ⟨by simp [bucket, hg], ⟨h.welcomes, ?_⟩⟩
    rw [hkept, h.joinRequests.putBack_absent groupId hg]
    exact h.joinRequests
  | some records =>
    have hb : s.joinRequestsByGroup.bucket groupId = records := by simp [bucket, hg]
    simp only [retain_unless_empty consumed joinRequestConsumed (fun _ => rfl)]
    refine ⟨by rw [hb], ⟨h.welcomes, ?_⟩⟩
    rw [hkept, ← hb]
    exact h.joinRequests.putBack groupId _

theorem fetchEachGroup_spec (consumed : List ConsumedJoinRequestWithGroupRef)
    (groupIds : List String)
    (s : InMemoryInner V) (q : Queues) (h : HoldsQueues s q) :
    (fetchEachGroup fetchPendingJoinRequests (partitionConsumedJoinRequests consumed)
        groupIds s).1 =
        .ok (Queues.fetchManyJoinRequests consumed groupIds q).1 ∧
      HoldsQueues (fetchEachGroup fetchPendingJoinRequests
        (partitionConsumedJoinRequests consumed) groupIds s).2
        (Queues.fetchManyJoinRequests consumed groupIds q).2 := by
  induction groupIds generalizing s q with
  | nil => exact ⟨rfl, h⟩
  | cons groupId groupIds ih =>
    have hacks : (partitionConsumedJoinRequests consumed).bucket groupId =
        acksFor consumed groupId := partition_bucket consumed groupId
    obtain ⟨hout, hnext⟩ := fetchPendingJoinRequests_spec groupId (acksFor consumed groupId) s q h
    obtain ⟨hmore, hend⟩ := ih _ _ hnext
    rw [fetchEachGroup, hacks]
    cases hf : fetchPendingJoinRequests groupId (acksFor consumed groupId) s with
    | mk res s' =>
      rw [hf] at hout hmore hend
      simp only at hout hmore hend
      subst hout
      simp only
      cases hr : fetchEachGroup fetchPendingJoinRequests
          (partitionConsumedJoinRequests consumed) groupIds s' with
      | mk res' s'' =>
        rw [hr] at hmore hend
        simp only at hmore hend
        subst hmore
        exact ⟨rfl, hend⟩

theorem requested_iff (s : InMemoryInner V) (q : Queues) (h : HoldsQueues s q)
    (record : JoinRequestRecord) :
    (s.joinRequestsByGroup.bucket record.groupId).any (sameRequester record) = true ↔
      requestKey record ∈ q.joinRequests.map requestKey := by
  rw [h.joinRequests, List.any_eq_true, ← requested_inGroup]
  simp only [sameRequester, decide_eq_true_eq]
  rfl

theorem modifyFirst_refreshed (q : Queues) (record : JoinRequestRecord) :
    modifyFirst (sameRequester record) (refreshed record)
        (q.joinRequests.filter (fun r => decide (r.groupId = record.groupId))) =
      (q.joinRequests.filter (fun r => decide (r.groupId = record.groupId))).map
        (refresh record) := by
  rw [modifyFirst_eq_map]
  · apply List.map_congr_left
    intro r hr
    have hg : r.groupId = record.groupId := by simpa using (List.mem_filter.mp hr).2
    by_cases hs : r.requesterStablePubkey = record.requesterStablePubkey <;>
      simp [refresh, requestKey, refreshed, sameRequester, hg, hs]
  · refine List.Pairwise.imp_of_mem ?_
      ((List.pairwise_map.mp q.distinct).sublist List.filter_sublist)
    intro a b ha hb hne hsame
    have hga : a.groupId = record.groupId := by simpa using (List.mem_filter.mp ha).2
    have hgb : b.groupId = record.groupId := by simpa using (List.mem_filter.mp hb).2
    simp only [sameRequester, decide_eq_true_eq] at hsame
    exact hne (by rw [requestKey, requestKey, hga, hgb, hsame.1, hsame.2])

theorem storeJoinRequest_spec (record : JoinRequestRecord) (s : InMemoryInner V) (q : Queues)
    (h : HoldsQueues s q) :
    (storeJoinRequest record s).1 = (q.storeJoinRequest record).1 ∧
      HoldsQueues (storeJoinRequest record s).2 (q.storeJoinRequest record).2 := by
  unfold storeJoinRequest Queues.storeJoinRequest
  have hiff := requested_iff s q h record
  by_cases hk : requestKey record ∈ q.joinRequests.map requestKey
  · rw [if_pos (hiff.mpr hk), dif_pos hk]
    refine ⟨rfl, h.welcomes, ?_⟩
    have hmap : q.joinRequests.map (refresh record) = q.joinRequests.map
        (fun r => if r.groupId = record.groupId then refresh record r else r) := by
      apply List.map_congr_left
      intro r _
      by_cases hg : r.groupId = record.groupId <;> simp [refresh, requestKey, hg]
    change Holds _ _ (q.joinRequests.map (refresh record))
    rw [hmap]
    refine h.joinRequests.adjust record.groupId (refresh record) ?_ ?_
    · exact fun r => congrArg Prod.fst (requestKey_refresh record r)
    · intro x
      rw [bucket_adjust _ _ _ _ rfl, h.joinRequests, modifyFirst_refreshed]
  · rw [if_neg (fun hs => hk (hiff.mp hs)), dif_neg hk]
    have hentered : ∀ x, (s.joinRequestsByGroup.upsert record.groupId (fun o => o.getD [])).bucket x
        = s.joinRequestsByGroup.bucket x := by
      intro x
      by_cases hx : x = record.groupId <;> simp [bucket, hx]
    have hholds : Holds JoinRequestRecord.groupId
        (s.joinRequestsByGroup.upsert record.groupId (fun o => o.getD [])) q.joinRequests :=
      fun x => (hentered x).trans (h.joinRequests x)
    have hcount := congrArg List.length (hholds record.groupId)
    simp only
    by_cases hfull : maxPendingJoinRequestsPerGroup ≤
        (q.joinRequests.filter (QueueOps.inGroup record.groupId)).length
    · rw [if_pos (hcount ▸ hfull), if_pos hfull]
      exact ⟨rfl, h.welcomes, hholds⟩
    · rw [if_neg (hcount ▸ hfull), if_neg hfull]
      exact ⟨rfl, h.welcomes, hholds.pushBack record⟩

/-- The entry a refused request opens was there already, the group being full. -/
theorem storeJoinRequest_error (record : JoinRequestRecord) (s : InMemoryInner V)
    (e : StorageError) (h : (storeJoinRequest record s).1 = .error e) :
    storeJoinRequest record s = (.error .tooManyPendingJoinRequests, s) := by
  unfold storeJoinRequest at h ⊢
  split
  · rename_i hrequested
    rw [if_pos hrequested] at h
    simp at h
  · rename_i hrequested
    rw [if_neg hrequested] at h
    dsimp only at h ⊢
    split
    · rename_i hfull
      cases hg : s.joinRequestsByGroup.get? record.groupId with
      | none => simp [bucket, hg, maxPendingJoinRequestsPerGroup] at hfull
      | some records => rw [upsert_stored _ _ _ records hg rfl]
    · rename_i hroom
      rw [if_neg hroom] at h
      simp at h

def swept {α : Type} (createdAt : α → Int) (threshold : Int) (m : IndexMap String (List α)) :
    ℕ × IndexMap String (List α) :=
  if threshold ≤ 0 then (0, m) else m.retainAll (fun r => decide (threshold ≤ createdAt r))

theorem deleteExpiredWelcomes_eq (threshold : Int) (s : InMemoryInner V) :
    deleteExpiredWelcomes threshold s =
      (.ok (swept WelcomeQueueRecord.createdAt threshold s.welcomesByIdentity).1,
        { s with welcomesByIdentity :=
            (swept WelcomeQueueRecord.createdAt threshold s.welcomesByIdentity).2 }) := by
  rw [deleteExpiredWelcomes, swept]
  split <;> rfl

theorem deleteExpiredJoinRequests_eq (threshold : Int) (s : InMemoryInner V) :
    deleteExpiredJoinRequests threshold s =
      (.ok (swept JoinRequestRecord.createdAt threshold s.joinRequestsByGroup).1,
        { s with joinRequestsByGroup :=
            (swept JoinRequestRecord.createdAt threshold s.joinRequestsByGroup).2 }) := by
  rw [deleteExpiredJoinRequests, swept]
  split <;> rfl

theorem contents_swept {α : Type} (createdAt : α → Int) (threshold : Int)
    (m : IndexMap String (List α)) : (swept createdAt threshold m).2.contents =
      m.contents.filter (fun r => !expired threshold (createdAt r)) := by
  by_cases ht : threshold ≤ 0
  · rw [swept, if_pos ht]
    exact (nothing_expires createdAt threshold ht _).2.symm
  · simp only [swept, if_neg ht, kept_pos threshold ht]
    exact contents_retainAll _ m

theorem swept_spec {α : Type} {key : α → String} {m : IndexMap String (List α)} {l : List α}
    (createdAt : α → Int) (threshold : Int) (h : Holds key m l) :
    (swept createdAt threshold m).1 = l.countP (fun r => expired threshold (createdAt r)) ∧
      Holds key (swept createdAt threshold m).2
        (l.filter (fun r => !expired threshold (createdAt r))) := by
  by_cases ht : threshold ≤ 0
  · obtain ⟨hcount, hkept⟩ := nothing_expires createdAt threshold ht l
    rw [swept, if_pos ht, hcount, hkept]
    exact ⟨rfl, h⟩
  · simp only [swept, if_neg ht, kept_pos threshold ht]
    refine ⟨?_, h.filter _ (fun k => bucket_retainAll _ m k)⟩
    rw [retainAll_count, h.perm.countP_eq]
    simp

theorem step_holdsQueues (op : Op) (s : InMemoryInner V) (q : Queues) (h : HoldsQueues s q) :
    (step storage op s).1 = (queueStep op q).1 ∧
      HoldsQueues (step storage op s).2 (queueStep op q).2 := by
  cases op with
  | storeWelcome record => exact ⟨rfl, h.welcomes.pushBack record, h.joinRequests⟩
  | fetchPendingWelcomes target consumed =>
    obtain ⟨hres, hnext⟩ := fetchPendingWelcomes_spec target consumed s q h
    exact ⟨congrArg Answer.welcomes hres, hnext⟩
  | deleteExpiredWelcomes threshold =>
    obtain ⟨hcount, hkept⟩ := swept_spec WelcomeQueueRecord.createdAt threshold h.welcomes
    change Answer.deleted (deleteExpiredWelcomes threshold s).1 = _ ∧
      HoldsQueues (deleteExpiredWelcomes threshold s).2 _
    rw [deleteExpiredWelcomes_eq, hcount]
    exact ⟨rfl, hkept, h.joinRequests⟩
  | storeJoinRequest record =>
    obtain ⟨hres, hnext⟩ := storeJoinRequest_spec record s q h
    exact ⟨congrArg Answer.joinRequest hres, hnext⟩
  | fetchPendingJoinRequests groupId consumed =>
    obtain ⟨hres, hnext⟩ := fetchPendingJoinRequests_spec groupId consumed s q h
    exact ⟨congrArg Answer.joinRequests hres, hnext⟩
  | fetchManyPendingJoinRequests groupIds consumed =>
    obtain ⟨hres, hnext⟩ := fetchEachGroup_spec consumed groupIds s q h
    exact ⟨congrArg Answer.joinRequests hres, hnext⟩
  | deleteExpiredJoinRequests threshold =>
    obtain ⟨hcount, hkept⟩ := swept_spec JoinRequestRecord.createdAt threshold h.joinRequests
    change Answer.deleted (deleteExpiredJoinRequests threshold s).1 = _ ∧
      HoldsQueues (deleteExpiredJoinRequests threshold s).2 _
    rw [deleteExpiredJoinRequests_eq, hcount]
    exact ⟨rfl, h.welcomes, hkept⟩

end Cordn.InMemory
