import Cordn.CoordinatorOps
import Cordn.SqliteGroupLogs

/-!
# Each group's log on its own

Both backends keep the messages of all groups together. What they answer about a
group is a function of that group's log alone, and only an append to the group
changes its log. Cursors may be as large as their type allows.
-/

set_option autoImplicit false

namespace Cordn.CoordinatorOps

variable {V σ L : Type}

/-- The log of one group as a machine: append a message, read above a cursor. -/
structure LogMachine (L : Type) where
  append : AppendGroupMessageParams → L → Except StorageError GroupMessageRecord × L
  read : Option Int → L → List GroupMessageRecord

def NoMessage (op : StorageOp V) : Prop := ∀ op', op ≠ .messages op'

structure SplitsLogs (S : CoordinatorStorage V σ) (limit : FetchLimit) (I : σ → Prop)
    (M : LogMachine L) (logOf : σ → String → L) : Prop where
  append_answer : ∀ params s, I s →
    (S.appendGroupMessage params s).1 = (M.append params (logOf s params.groupId)).1
  append_log : ∀ params s g, I s → logOf (S.appendGroupMessage params s).2 g =
    if g = params.groupId then (M.append params (logOf s params.groupId)).2 else logOf s g
  fetch : ∀ g afterCursor s, I s →
    S.fetchGroupMessages g afterCursor s = (.ok (M.read afterCursor (logOf s g)), s)
  fetchMany : ∀ groups s, I s → limit groups.length = none →
    S.fetchManyGroupMessages groups s =
      (.ok (groups.flatMap (fun q => M.read q.afterCursor (logOf s q.groupId))), s)
  own : ∀ g afterCursor s, I s → ∀ m ∈ M.read afterCursor (logOf s g), m.groupId = g
  invariant : ∀ op s, I s → I (perform S op s).2
  frame : ∀ op s, NoMessage op → logOf (perform S op s).2 = logOf s

section InMemory
open InMemory IndexMap

def inMemoryLog : LogMachine (Option GroupLog) where
  append params stored :=
    let log := stored.getD .new
    let record : GroupMessageRecord :=
      ⟨log.nextCursor, params.groupId, params.opaqueMessage, params.createdAt⟩
    (.ok record, some ⟨wrappingAdd log.nextCursor 1, log.messages ++ [record]⟩)
  read afterCursor stored :=
    ((stored.map GroupLog.messages).getD []).filter
      (fun m => decide (afterCursor.getD 0 < m.cursor))

def OwnMessages (s : InMemoryInner V) : Prop :=
  ∀ g log, s.groups.get? g = some log → ∀ m ∈ log.messages, m.groupId = g

theorem OwnMessages.append (params : AppendGroupMessageParams) (s : InMemoryInner V)
    (h : OwnMessages s) : OwnMessages (appendGroupMessage params s).2 := by
  intro g log hg m hm
  simp only [appendGroupMessage, get?_insert] at hg
  split at hg
  · rename_i he
    obtain rfl := Option.some.inj hg
    rcases List.mem_append.mp hm with hm | hm
    · cases hs : s.groups.get? params.groupId with
      | none => simp [hs, GroupLog.new] at hm
      | some log =>
        rw [hs, Option.getD_some] at hm
        rw [he]
        exact h _ log hs m hm
    · rw [List.mem_singleton.mp hm, he]
  · exact h g log hg m hm

theorem inMemory_perform_groups (op : StorageOp V) (s : InMemoryInner V) (h : NoMessage op) :
    (perform storage op s).2.groups = s.groups := by
  cases op with
  | keyPackages op =>
    obtain ⟨kept, he⟩ := InMemory.keyPackages_frame op s
    exact (congrArg InMemoryInner.groups he :)
  | listAllKeyPackages => rfl
  | queues op =>
    obtain ⟨welcomes, joinRequests, he⟩ := InMemory.queues_frame op s
    exact (congrArg InMemoryInner.groups he :)
  | messages op => exact absurd rfl (h op)

theorem inMemory_splitsLogs :
    SplitsLogs (InMemory.storage : CoordinatorStorage V (InMemoryInner V)) noLimit OwnMessages
      inMemoryLog (fun s g => s.groups.get? g) where
  append_answer params s _ := rfl
  append_log params s g _ := by
    by_cases hg : g = params.groupId
    · subst hg
      rw [if_pos rfl]
      exact (get?_insert _ _ _ _).trans (if_pos rfl)
    · rw [if_neg hg]
      exact (get?_insert _ _ _ _).trans (if_neg hg)
  fetch g afterCursor s _ := rfl
  fetchMany groups s _ _ := rfl
  own g afterCursor s h m hm := by
    obtain ⟨hm, -⟩ := List.mem_filter.mp hm
    cases hs : s.groups.get? g with
    | none => simp [hs] at hm
    | some log =>
      rw [hs, Option.map_some, Option.getD_some] at hm
      exact h g log hs m hm
  invariant op s h := by
    cases op with
    | messages op =>
      cases op with
      | append params => exact h.append params s
      | fetch g afterCursor => exact h
      | fetchMany groups => exact h
    | keyPackages op =>
      rw [OwnMessages, inMemory_perform_groups _ s (by simp [NoMessage])]
      exact h
    | listAllKeyPackages => exact h
    | queues op =>
      rw [OwnMessages, inMemory_perform_groups _ s (by simp [NoMessage])]
      exact h
  frame op s h := by rw [inMemory_perform_groups op s h]

end InMemory

section Sqlite
open Sqlite SqlTable

structure GroupRows where
  messages : List GroupMessageRecord
  lastMessageCursor : Option Int
  deriving DecidableEq, Repr

def sqliteLog : LogMachine GroupRows where
  append params stored :=
    let cursor := wrappingAdd (stored.lastMessageCursor.getD 0) 1
    if cursor ≤ 0 then (.error (.backend "Unable to allocate per-group message cursor"), stored)
    else if stored.messages.any (fun m => decide (m.cursor = cursor)) then
      (.error (.backend
        "UNIQUE constraint failed: group_messages.group_id, group_messages.cursor"), stored)
    else
      let record : GroupMessageRecord :=
        ⟨cursor, params.groupId, params.opaqueMessage, params.createdAt⟩
      (.ok record, ⟨stored.messages ++ [record], some cursor⟩)
  read afterCursor stored := orderBy (fun a b : GroupMessageRecord => compare a.cursor b.cursor)
    (stored.messages.filter (fun m => decide (afterCursor.getD 0 < m.cursor)))

def groupRows (db : Database) (g : String) : GroupRows :=
  ⟨storedMessages db g, db.groupRouting.get? g⟩

theorem sqlite_read (db : Database) (g : String) (afterCursor : Option Int) :
    db.groupMessages.select (fun m => decide (m.groupId = g) &&
      decide (afterCursor.getD 0 < m.cursor)) byCursor =
      sqliteLog.read afterCursor (groupRows db g) := by
  refine (select_eq _ _ (fun a b : GroupMessageRecord => compare a.cursor b.cursor)).trans ?_
  simp only [sqliteLog, groupRows, storedMessages, DenseLog.part, List.filter_filter,
    Bool.and_comm]

theorem any_cursor (db : Database) (g : String) (cursor : Int) :
    db.groupMessages.contents.any (fun r => decide (r.groupId = g) && decide (r.cursor = cursor)) =
      (storedMessages db g).any (fun m => decide (m.cursor = cursor)) := by
  rw [storedMessages, DenseLog.part, List.any_filter]

/-- A refused append leaves the tables and the log as they are; an accepted one
adds the same record to both. -/
theorem sqlite_append (params : AppendGroupMessageParams) (db : Database) :
    (∃ e, appendGroupMessage params db = (.error e, db) ∧
      sqliteLog.append params (groupRows db params.groupId) =
        (.error e, groupRows db params.groupId)) ∨
    ∃ record messages, record.groupId = params.groupId ∧
      messages.contents = db.groupMessages.contents ++ [record] ∧
      appendGroupMessage params db = (.ok record, { db with
        groupMessages := messages
        groupRouting := db.groupRouting.insert params.groupId record.cursor }) ∧
      sqliteLog.append params (groupRows db params.groupId) =
        (.ok record, ⟨storedMessages db params.groupId ++ [record], some record.cursor⟩) := by
  have hany := any_cursor db params.groupId
    (wrappingAdd ((db.groupRouting.get? params.groupId).getD 0) 1)
  simp only [appendGroupMessage, insertUnique, sqliteLog, groupRows, hany]
  by_cases hpos : wrappingAdd ((db.groupRouting.get? params.groupId).getD 0) 1 ≤ 0
  · rw [if_pos hpos, if_pos hpos]
    exact Or.inl ⟨_, rfl, rfl⟩
  · rw [if_neg hpos, if_neg hpos]
    by_cases hused : (storedMessages db params.groupId).any (fun m => decide (m.cursor =
        wrappingAdd ((db.groupRouting.get? params.groupId).getD 0) 1)) = true
    · rw [if_pos hused, if_pos hused]
      exact Or.inl ⟨_, rfl, rfl⟩
    · rw [if_neg hused, if_neg hused]
      exact Or.inr ⟨_, _, rfl, contents_insert _ _, rfl, rfl⟩

theorem sqlite_perform_rows (json : SerdeJson V) (op : StorageOp V) (db : Database)
    (h : NoMessage op) : groupRows (perform (storage json) op db).2 = groupRows db := by
  cases op with
  | keyPackages op =>
    obtain ⟨keyPackages, he⟩ := Sqlite.keyPackages_frame json op db
    exact (congrArg groupRows he :)
  | listAllKeyPackages => rfl
  | queues op =>
    obtain ⟨welcomes, joinRequests, he⟩ := Sqlite.queues_frame json op db
    exact (congrArg groupRows he :)
  | messages op => exact absurd rfl (h op)

theorem sqlite_splitsLogs (json : SerdeJson V) :
    SplitsLogs (Sqlite.storage json) messageLimit (fun _ => True) sqliteLog groupRows where
  append_answer params db _ := by
    rcases sqlite_append params db with ⟨e, hdb, hlog⟩ | ⟨record, messages, -, -, hdb, hlog⟩
    · exact (congrArg Prod.fst hdb).trans (congrArg Prod.fst hlog).symm
    · exact (congrArg Prod.fst hdb).trans (congrArg Prod.fst hlog).symm
  append_log params db g _ := by
    change groupRows (appendGroupMessage params db).2 g = _
    rcases sqlite_append params db with ⟨e, hdb, hlog⟩ | ⟨record, messages, hg, hm, hdb, hlog⟩
    · rw [hdb, hlog]
      split
      · rename_i he
        rw [he]
      · rfl
    · rw [hdb, hlog]
      simp only [groupRows, storedMessages, hm, DenseLog.part_snoc, hg, IndexMap.get?_insert]
      by_cases he : g = params.groupId
      · simp [he]
      · simp [he, Ne.symm he]
  fetch g afterCursor db _ := Prod.ext (congrArg Except.ok (sqlite_read db g afterCursor)) rfl
  fetchMany groups db _ hserved := by
    refine (fetchMany_selects groups db hserved).trans ?_
    simp only [sqlite_read]
  own g afterCursor db _ m hm := by
    have hmem := (orderBy_perm _ _).mem_iff.mp hm
    exact ((DenseLog.mem_part _ _ _ _).mp (List.mem_filter.mp hmem).1).2
  invariant _ _ _ := trivial
  frame op db h := sqlite_perform_rows json op db h

end Sqlite

end Cordn.CoordinatorOps
