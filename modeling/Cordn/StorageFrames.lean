import Cordn.GroupLogOps
import Cordn.KeyPackageOps
import Cordn.QueueOps

/-!
# What an operation touches

Key packages, queues and messages stand in different maps and tables, and no
operation writes outside its own.
-/

set_option autoImplicit false

namespace Cordn

variable {V : Type}

namespace InMemory

theorem keyPackages_frame (op : KeyPackageOps.Op V) (s : InMemoryInner V) :
    ∃ kept, (KeyPackageOps.step storage op s).2 = { s with keyPackagesByIdentity := kept } := by
  cases op with
  | publish record => exact ⟨_, rfl⟩
  | get keyPackageRef => exact ⟨_, rfl⟩
  | list stablePubkey => exact ⟨_, rfl⟩
  | remove keyPackageRef =>
    change ∃ kept, (removeKeyPackage keyPackageRef s).2 = _
    rw [removeKeyPackage]
    split <;> exact ⟨_, rfl⟩
  | consume identifier =>
    change ∃ kept, (consumeKeyPackage identifier s).2 = _
    rw [consumeKeyPackage]
    split
    · split <;> exact ⟨_, rfl⟩
    · split <;> exact ⟨_, rfl⟩

theorem messages_frame (op : GroupLogOps.Op) (s : InMemoryInner V) :
    ∃ groups, (GroupLogOps.step storage op s).2 = { s with groups := groups } := by
  cases op <;> exact ⟨_, rfl⟩

theorem fetchEachGroup_frame (consumedByGroup : IndexMap String (List ConsumedJoinRequestRef))
    (groupIds : List String) (s : InMemoryInner V) :
    ∃ joinRequests, (fetchEachGroup fetchPendingJoinRequests consumedByGroup groupIds s).2 =
      { s with joinRequestsByGroup := joinRequests } := by
  induction groupIds generalizing s with
  | nil => exact ⟨_, rfl⟩
  | cons groupId groupIds ih =>
    have hfetch : ∃ out joinRequests,
        fetchPendingJoinRequests groupId (consumedByGroup.bucket groupId) s =
          (.ok out, { s with joinRequestsByGroup := joinRequests }) := by
      rw [fetchPendingJoinRequests]
      split <;> exact ⟨_, _, rfl⟩
    obtain ⟨out, joinRequests, hfetch⟩ := hfetch
    obtain ⟨joinRequests', hrest⟩ := ih { s with joinRequestsByGroup := joinRequests }
    refine ⟨joinRequests', ?_⟩
    simp only [fetchEachGroup, hfetch]
    split
    · rename_i hmore
      rwa [hmore] at hrest
    · rename_i hmore
      rwa [hmore] at hrest

theorem queues_frame (op : QueueOps.Op) (s : InMemoryInner V) :
    ∃ welcomes joinRequests, (QueueOps.step storage op s).2 =
      { s with welcomesByIdentity := welcomes, joinRequestsByGroup := joinRequests } := by
  cases op with
  | storeWelcome record => exact ⟨_, _, rfl⟩
  | fetchPendingWelcomes target consumed =>
    change ∃ welcomes joinRequests, (fetchPendingWelcomes target consumed s).2 = _
    rw [fetchPendingWelcomes]
    split <;> exact ⟨_, _, rfl⟩
  | deleteExpiredWelcomes threshold =>
    change ∃ welcomes joinRequests, (deleteExpiredWelcomes threshold s).2 = _
    rw [deleteExpiredWelcomes]
    split <;> exact ⟨_, _, rfl⟩
  | storeJoinRequest record =>
    change ∃ welcomes joinRequests, (storeJoinRequest record s).2 = _
    rw [storeJoinRequest]
    split
    · exact ⟨_, _, rfl⟩
    · dsimp only
      split <;> exact ⟨_, _, rfl⟩
  | fetchPendingJoinRequests groupId consumed =>
    change ∃ welcomes joinRequests, (fetchPendingJoinRequests groupId consumed s).2 = _
    rw [fetchPendingJoinRequests]
    split <;> exact ⟨_, _, rfl⟩
  | fetchManyPendingJoinRequests groupIds consumed =>
    obtain ⟨joinRequests, h⟩ :=
      fetchEachGroup_frame (partitionConsumedJoinRequests consumed) groupIds s
    exact ⟨_, _, h⟩
  | deleteExpiredJoinRequests threshold =>
    change ∃ welcomes joinRequests, (deleteExpiredJoinRequests threshold s).2 = _
    rw [deleteExpiredJoinRequests]
    split <;> exact ⟨_, _, rfl⟩

end InMemory

namespace Sqlite

theorem keyPackages_frame (json : SerdeJson V) (op : KeyPackageOps.Op V) (db : Database) :
    ∃ keyPackages, (KeyPackageOps.step (storage json) op db).2 =
      { db with keyPackages := keyPackages } := by
  cases op with
  | publish record =>
    change ∃ keyPackages, (publishKeyPackage json record db).2 = _
    rw [publishKeyPackage]
    split
    · exact ⟨_, rfl⟩
    · split <;> exact ⟨_, rfl⟩
  | get keyPackageRef => exact ⟨_, rfl⟩
  | list stablePubkey => exact ⟨_, rfl⟩
  | remove keyPackageRef =>
    change ∃ keyPackages, (removeKeyPackage json keyPackageRef db).2 = _
    rw [removeKeyPackage]
    split <;> exact ⟨_, rfl⟩
  | consume identifier =>
    change ∃ keyPackages, (consumeKeyPackage json identifier db).2 = _
    rw [consumeKeyPackage]
    split
    · exact ⟨_, rfl⟩
    · split <;> exact ⟨_, rfl⟩
    · split
      · exact ⟨_, rfl⟩
      · split <;> exact ⟨_, rfl⟩
      · exact ⟨_, rfl⟩

theorem messages_frame (json : SerdeJson V) (op : GroupLogOps.Op) (db : Database) :
    ∃ routing messages, (GroupLogOps.step (storage json) op db).2 =
      { db with groupRouting := routing, groupMessages := messages } := by
  cases op with
  | append params =>
    change ∃ routing messages, (appendGroupMessage params db).2 = _
    simp only [appendGroupMessage]
    split
    · exact ⟨_, _, rfl⟩
    · split <;> exact ⟨_, _, rfl⟩
  | fetch groupId afterCursor => exact ⟨_, _, rfl⟩
  | fetchMany groups =>
    change ∃ routing messages, (fetchManyGroupMessages groups db).2 = _
    rw [fetchManyGroupMessages]
    split
    · exact ⟨_, _, rfl⟩
    · split <;> exact ⟨_, _, rfl⟩

theorem queues_frame (json : SerdeJson V) (op : QueueOps.Op) (db : Database) :
    ∃ welcomes joinRequests, (QueueOps.step (storage json) op db).2 =
      { db with welcomes := welcomes, joinRequests := joinRequests } := by
  cases op with
  | storeWelcome record => exact ⟨_, _, rfl⟩
  | fetchPendingWelcomes target consumed => exact ⟨_, _, rfl⟩
  | deleteExpiredWelcomes threshold =>
    change ∃ welcomes joinRequests, (deleteExpiredWelcomes threshold db).2 = _
    rw [deleteExpiredWelcomes]
    split <;> exact ⟨_, _, rfl⟩
  | storeJoinRequest record =>
    change ∃ welcomes joinRequests, (storeJoinRequest record db).2 = _
    rw [storeJoinRequest]
    split
    · split <;> exact ⟨_, _, rfl⟩
    · exact ⟨_, _, rfl⟩
  | fetchPendingJoinRequests groupId consumed => exact ⟨_, _, rfl⟩
  | fetchManyPendingJoinRequests groupIds consumed =>
    change ∃ welcomes joinRequests, (fetchManyPendingJoinRequests groupIds consumed db).2 = _
    rw [fetchManyPendingJoinRequests]
    split
    · exact ⟨_, _, rfl⟩
    · simp only
      split <;> exact ⟨_, _, rfl⟩
  | deleteExpiredJoinRequests threshold =>
    change ∃ welcomes joinRequests, (deleteExpiredJoinRequests threshold db).2 = _
    rw [deleteExpiredJoinRequests]
    split <;> exact ⟨_, _, rfl⟩

end Sqlite

end Cordn
