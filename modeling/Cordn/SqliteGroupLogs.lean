import Mathlib.Order.Bounds.Defs
import Cordn.GroupLogOps

/-!
# Group logs in the SQLite tables

The message table lists the abstract log by row id, and the routing table holds
for each group that has messages how many it has. The two tables are written
together, so the unique index is never violated.
-/

set_option autoImplicit false

namespace Cordn.Sqlite
open GroupLogOps SqlTable

variable {V : Type} (json : SerdeJson V)

structure HoldsLog (db : Database) (log : MessageLog) : Prop where
  messages : db.groupMessages.contents = log.records
  routing : ∀ g, db.groupRouting.get? g =
    if log.count g = 0 then none else some (log.count g:Int)

theorem HoldsLog.new : HoldsLog Database.new MessageLog.empty := ⟨rfl, fun _ => rfl⟩

def storedMessages (db : Database) (g : String) : List GroupMessageRecord :=
  DenseLog.part GroupMessageRecord.groupId g db.groupMessages.contents

/-- `last_message_cursor` is the greatest stored cursor of its group and the
number of its messages. -/
def RoutingExact (db : Database) : Prop :=
  ∀ g, match db.groupRouting.get? g with
    | none => storedMessages db g = []
    | some last => last = ((storedMessages db g).length:Int) ∧
      IsGreatest {c | ∃ r ∈ storedMessages db g, r.cursor = c} last

theorem HoldsLog.routingExact {db : Database} {log : MessageLog} (h : HoldsLog db log) :
    RoutingExact db := by
  intro g
  have hstored : storedMessages db g = log.messages g := by
    rw [storedMessages, h.messages]
    rfl
  rw [hstored, h.routing g]
  by_cases hc : log.count g = 0
  · rw [if_pos hc]
    exact List.length_eq_zero_iff.mp hc
  · rw [if_neg hc]
    refine ⟨rfl, ?_, ?_⟩
    · cases hl : (log.messages g).getLast? with
      | none => exact absurd (by simp [MessageLog.count, List.getLast?_eq_none_iff.mp hl]) hc
      | some r => exact ⟨r, List.mem_of_getLast? hl, (messages_numbered log g).last r hl⟩
    · rintro c ⟨r, hr, rfl⟩
      exact (cursor_bounds log g r hr).2

theorem routing_count {db : Database} {log : MessageLog} (h : HoldsLog db log) (g : String) :
    (db.groupRouting.get? g).getD 0 = (log.count g:Int) := by
  rw [h.routing g]
  split
  · rename_i hc
    simp [hc]
  · rfl

theorem append_spec {db : Database} {log : MessageLog} (h : HoldsLog db log)
    (params : AppendGroupMessageParams) (hroom : Room (.append params) log) :
    (appendGroupMessage params db).1 = .ok (log.next params) ∧
      HoldsLog (appendGroupMessage params db).2 (log.append params) := by
  have hcursor : wrappingAdd ((db.groupRouting.get? params.groupId).getD 0) 1 =
      (log.count params.groupId:Int)+1 := by
    simp only [Room] at hroom
    rw [routing_count h]
    exact wrappingAdd_of_small _ _ (by omega) (by omega)
  have hfree : db.groupMessages.contents.any (fun r => decide (r.groupId = params.groupId) &&
      decide (r.cursor = (log.count params.groupId:Int)+1)) = false := by
    rw [h.messages, List.any_eq_false]
    intro r hr hd
    simp only [Bool.and_eq_true, decide_eq_true_eq] at hd
    have hb := cursor_bounds log params.groupId r ((DenseLog.mem_part _ _ _ _).mpr ⟨hr, hd.1⟩)
    omega
  have hpos : ¬ (log.count params.groupId:Int)+1 ≤ 0 := by omega
  simp only [appendGroupMessage, hcursor, if_neg hpos, insertUnique, hfree, Bool.false_eq_true,
    if_false]
  refine ⟨rfl, ?_, ?_⟩
  · rw [contents_insert, h.messages]
    rfl
  · intro g
    rw [IndexMap.get?_insert, count_append, h.routing]
    by_cases hg : params.groupId = g
    · subst hg
      simp
    · simp [hg, Ne.symm hg]

theorem matches_pairwise {db : Database} {log : MessageLog} (h : HoldsLog db log) (g : String)
    (afterCursor : Int) :
    (db.groupMessages.contents.filter (fun m => decide (m.groupId = g) &&
      decide (afterCursor < m.cursor))).Pairwise (fun a b => a.cursor < b.cursor) := by
  rw [h.messages]
  refine ((messages_numbered log g).pairwise).sublist ?_
  rw [MessageLog.messages, DenseLog.part]
  exact List.monotone_filter_right _ (fun r hr => by simp_all)

theorem matches_eq {db : Database} {log : MessageLog} (h : HoldsLog db log) (g : String)
    (afterCursor : Option Int) :
    db.groupMessages.contents.filter (fun m => decide (m.groupId = g) &&
      decide (afterCursor.getD 0 < m.cursor)) = log.fetch g afterCursor := by
  rw [h.messages, fetch_eq, MessageLog.messages, DenseLog.part, List.filter_filter]
  simp only [Bool.and_comm]

theorem isLE_cursor {a b : Int} (h : a < b) : (compare a b).isLE = true := by
  rw [compare_lt_iff_lt.mpr h]
  rfl

theorem fetch_spec {db : Database} {log : MessageLog} (h : HoldsLog db log) (g : String)
    (afterCursor : Option Int) :
    (fetchGroupMessages g afterCursor db).1 = .ok (log.fetch g afterCursor) := by
  rw [← matches_eq h]
  have hsorted := (matches_pairwise h g (afterCursor.getD 0)).imp isLE_cursor
  exact congrArg Except.ok (select_of_pairwise _ _
    (fun a b : GroupMessageRecord => compare a.cursor b.cursor) hsorted)

theorem fetchMany_selects (groups : List FetchGroupMessagesInput) (db : Database)
    (h : messageLimit groups.length = none) :
    fetchManyGroupMessages groups db = (.ok (groups.flatMap (fun q =>
      db.groupMessages.select (fun m => decide (m.groupId = q.groupId) &&
        decide (q.afterCursor.getD 0 < m.cursor)) byCursor)), db) := by
  rw [fetchManyGroupMessages]
  split
  · rename_i he
    rw [List.isEmpty_iff.mp he]
    rfl
  · have hrequests : groups.zipIdx.Pairwise
        (fun q q' => ∀ r r', (groupMessageOrder (q, r) (q', r')).isLE = true) := by
      apply (zipIdx_pairwise groups).imp
      intro q q' hq r r'
      simp [groupMessageOrder, compareLex, compareOn, Nat.compare_eq_lt.mpr hq]
    have hrows : ∀ q r r', groupMessageOrder (q, r) (q, r') = byCursor r r' := by
      intro q r r'
      simp [groupMessageOrder, compareLex, compareOn, byCursor]
    simp only [h]
    rw [join_selects _ _ _ _ byCursor hrequests hrows]
    conv_rhs => rw [← List.zipIdx_map_fst 0 groups, List.flatMap_map]

theorem fetchManyMessages_refused (groups : List FetchGroupMessagesInput) (db : Database)
    (e : StorageError) (h : messageLimit groups.length = some e) :
    fetchManyGroupMessages groups db = (.error e, db) := by
  rw [fetchManyGroupMessages]
  split
  · rename_i hnil
    rw [List.isEmpty_iff.mp hnil] at h
    cases h
  · simp only [h]

theorem fetchManyMessages_spec {db : Database} {log : MessageLog} (h : HoldsLog db log)
    (groups : List FetchGroupMessagesInput) (hserved : messageLimit groups.length = none) :
    fetchManyGroupMessages groups db = (.ok (log.fetchMany groups), db) := by
  have hone : ∀ q : FetchGroupMessagesInput, db.groupMessages.select (fun m =>
      decide (m.groupId = q.groupId) && decide (q.afterCursor.getD 0 < m.cursor)) byCursor =
      log.fetch q.groupId q.afterCursor :=
    fun q => Except.ok.inj (fetch_spec h q.groupId q.afterCursor)
  rw [fetchMany_selects groups db hserved]
  simp only [hone, MessageLog.fetchMany]

theorem step_holdsLog (op : Op) (db : Database) (log : MessageLog) (h : HoldsLog db log)
    (hroom : Room op log) :
    (step (storage json) op db).1 = within messageLimit op (logStep op log).1 ∧
      HoldsLog (step (storage json) op db).2 (logStep op log).2 := by
  cases op with
  | append params =>
    obtain ⟨hres, hnext⟩ := append_spec h params hroom
    exact ⟨congrArg Answer.appended hres, hnext⟩
  | fetch g c => exact ⟨congrArg Answer.fetched (fetch_spec h g c), h⟩
  | fetchMany gs =>
    change Answer.fetched (fetchManyGroupMessages gs db).1 = _ ∧
      HoldsLog (fetchManyGroupMessages gs db).2 log
    cases hlimit : messageLimit gs.length with
    | none =>
      rw [fetchManyMessages_spec h gs hlimit, within_served messageLimit (.fetchMany gs) _ hlimit]
      exact ⟨rfl, h⟩
    | some e =>
      rw [fetchManyMessages_refused gs db e hlimit]
      simp only [within, hlimit]
      exact ⟨trivial, h⟩

end Cordn.Sqlite
