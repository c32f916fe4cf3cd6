import Cordn.Lib.DenseLog
import Cordn.Lib.Run
import Cordn.InMemory
import Cordn.Sqlite

/-!
# Group logs as one machine

The three log operations of either backend and the abstract log both are
measured against: all messages in the order they were appended, each group's
numbered from one without gaps.
-/

set_option autoImplicit false

namespace Cordn.GroupLogOps
open DenseLog

inductive Op where
  | append (params : AppendGroupMessageParams)
  | fetch (groupId : String) (afterCursor : Option Int)
  | fetchMany (groups : List FetchGroupMessagesInput)
  deriving DecidableEq, Repr

inductive Answer where
  | appended (result : Except StorageError GroupMessageRecord)
  | fetched (result : Except StorageError (List GroupMessageRecord))

def step {V σ : Type} (S : CoordinatorStorage V σ) : Op → σ → Answer × σ
  | .append params, s => (S.appendGroupMessage params s).map .appended id
  | .fetch groupId afterCursor, s => (S.fetchGroupMessages groupId afterCursor s).map .fetched id
  | .fetchMany groups, s => (S.fetchManyGroupMessages groups s).map .fetched id

structure MessageLog where
  records : List GroupMessageRecord
  dense : Dense GroupMessageRecord.groupId GroupMessageRecord.cursor records

def MessageLog.empty : MessageLog := ⟨[], dense_nil _ _⟩

def MessageLog.messages (log : MessageLog) (groupId : String) : List GroupMessageRecord :=
  part GroupMessageRecord.groupId groupId log.records

def MessageLog.count (log : MessageLog) (groupId : String) : ℕ := (log.messages groupId).length

def MessageLog.next (log : MessageLog) (params : AppendGroupMessageParams) : GroupMessageRecord :=
  ⟨(log.count params.groupId:Int)+1, params.groupId, params.opaqueMessage, params.createdAt⟩

def MessageLog.append (log : MessageLog) (params : AppendGroupMessageParams) : MessageLog :=
  ⟨log.records ++ [log.next params], log.dense.snoc _ rfl⟩

def above (afterCursor : Option Int) (r : GroupMessageRecord) : Bool :=
  match afterCursor with
  | none => true
  | some c => decide (c < r.cursor)

def MessageLog.fetch (log : MessageLog) (groupId : String) (afterCursor : Option Int) :
    List GroupMessageRecord :=
  (log.messages groupId).filter (above afterCursor)

def MessageLog.fetchMany (log : MessageLog) (groups : List FetchGroupMessagesInput) :
    List GroupMessageRecord :=
  groups.flatMap (fun g => log.fetch g.groupId g.afterCursor)

def logStep : Op → MessageLog → Answer × MessageLog
  | .append params, log => (.appended (.ok (log.next params)), log.append params)
  | .fetch groupId afterCursor, log => (.fetched (.ok (log.fetch groupId afterCursor)), log)
  | .fetchMany groups, log => (.fetched (.ok (log.fetchMany groups)), log)

def Served (limit : FetchLimit) : Op → Prop
  | .fetchMany groups => limit groups.length = none
  | _ => True

def within (limit : FetchLimit) : Op → Answer → Answer
  | .fetchMany groups, answer =>
    match limit groups.length with
    | some e => .fetched (.error e)
    | none => answer
  | _, answer => answer

theorem within_served (limit : FetchLimit) (op : Op) (answer : Answer) (h : Served limit op) :
    within limit op answer = answer := by
  cases op with
  | fetchMany groups =>
    simp only [Served] at h
    simp only [within, h]
  | _ => rfl

theorem within_noLimit (op : Op) (answer : Answer) : within noLimit op answer = answer := by
  cases op <;> rfl

/-- A group holds fewer than 2^63-1 messages, the one being appended included. -/
def Room : Op → MessageLog → Prop
  | .append params, log => (log.count params.groupId:Int) + 1 < 2^63-1
  | _, _ => True

def appendsTo (groupId : String) : List Op → List AppendGroupMessageParams
  | [] => []
  | .append params::ops =>
    if params.groupId = groupId then params::appendsTo groupId ops else appendsTo groupId ops
  | _::ops => appendsTo groupId ops

/-- A group's messages carry the payloads and times of its appends and the
cursors one, two, three and so on. -/
def numbered (groupId : String) (appends : List AppendGroupMessageParams) :
    List GroupMessageRecord :=
  appends.mapIdx (fun i params => ⟨(i:Int)+1, groupId, params.opaqueMessage, params.createdAt⟩)

def expected (history : List Op) : Op → Answer
  | .append params => .appended (.ok ⟨((appendsTo params.groupId history).length:Int)+1,
      params.groupId, params.opaqueMessage, params.createdAt⟩)
  | .fetch groupId afterCursor =>
    .fetched (.ok ((numbered groupId (appendsTo groupId history)).filter (above afterCursor)))
  | .fetchMany groups => .fetched (.ok (groups.flatMap (fun g =>
      (numbered g.groupId (appendsTo g.groupId history)).filter (above g.afterCursor))))

def historyStep (op : Op) (history : List Op) : Answer × List Op :=
  (expected history op, history ++ [op])

theorem numbered_snoc (groupId : String) (appends : List AppendGroupMessageParams)
    (params : AppendGroupMessageParams) : numbered groupId (appends ++ [params]) =
      numbered groupId appends ++
        [⟨(appends.length:Int)+1, groupId, params.opaqueMessage, params.createdAt⟩] := by
  simp [numbered, List.mapIdx_append]

theorem appendsTo_append (groupId : String) (ops ops' : List Op) :
    appendsTo groupId (ops ++ ops') = appendsTo groupId ops ++ appendsTo groupId ops' := by
  induction ops with
  | nil => rfl
  | cons op ops ih =>
    cases op with
    | append params => by_cases h : params.groupId = groupId <;> simp [appendsTo, h, ih]
    | fetch g c => exact ih
    | fetchMany gs => exact ih

@[simp] theorem messages_empty (groupId : String) : MessageLog.empty.messages groupId = [] := rfl

@[simp] theorem messages_append (log : MessageLog) (params : AppendGroupMessageParams)
    (groupId : String) : (log.append params).messages groupId =
      log.messages groupId ++ if params.groupId = groupId then [log.next params] else [] :=
  part_snoc _ groupId log.records (log.next params)

theorem count_append (log : MessageLog) (params : AppendGroupMessageParams) (groupId : String) :
    (log.append params).count groupId =
      log.count groupId + if params.groupId = groupId then 1 else 0 := by
  rw [MessageLog.count, messages_append, List.length_append, MessageLog.count]
  split <;> rfl

theorem messages_numbered (log : MessageLog) (groupId : String) :
    Numbered GroupMessageRecord.cursor (log.messages groupId) :=
  log.dense groupId

theorem cursor_bounds (log : MessageLog) (groupId : String) (r : GroupMessageRecord)
    (hr : r ∈ log.messages groupId) : 1 ≤ r.cursor ∧ r.cursor ≤ log.count groupId :=
  (messages_numbered log groupId).bounds r hr

/-- A stored cursor is positive, so no cursor and cursor zero ask for the same. -/
theorem fetch_eq (log : MessageLog) (groupId : String) (afterCursor : Option Int) :
    log.fetch groupId afterCursor = (log.messages groupId).filter
      (fun r => decide (afterCursor.getD 0 < r.cursor)) := by
  apply List.filter_congr
  intro r hr
  have hpos := (cursor_bounds log groupId r hr).1
  cases afterCursor with
  | none =>
    symm
    simp only [above, Option.getD_none, decide_eq_true_eq]
    omega
  | some c => rfl

def FollowsHistory (log : MessageLog) (history : List Op) : Prop :=
  ∀ g, log.messages g = numbered g (appendsTo g history)

theorem logStep_history (op : Op) (log : MessageLog) (history : List Op)
    (h : FollowsHistory log history) :
    (logStep op log).1 = (historyStep op history).1 ∧
      FollowsHistory (logStep op log).2 (historyStep op history).2 := by
  have hcount : ∀ g, log.count g = (appendsTo g history).length := by
    intro g
    rw [MessageLog.count, h g, numbered, List.length_mapIdx]
  have hfetch : ∀ g c, log.fetch g c = (numbered g (appendsTo g history)).filter (above c) :=
    fun g c => by rw [MessageLog.fetch, h g]
  cases op with
  | append params =>
    refine ⟨by simp only [logStep, historyStep, expected, MessageLog.next, hcount], ?_⟩
    intro g
    simp only [logStep, historyStep, messages_append, appendsTo_append, h g]
    by_cases hg : params.groupId = g
    · rw [if_pos hg, appendsTo, if_pos hg, appendsTo, numbered_snoc, MessageLog.next, hcount, hg]
    · rw [if_neg hg, appendsTo, if_neg hg, appendsTo, List.append_nil, List.append_nil]
  | fetch g c =>
    refine ⟨by simp only [logStep, historyStep, expected, hfetch], ?_⟩
    intro g'
    simp [logStep, historyStep, appendsTo_append, appendsTo, h g']
  | fetchMany gs =>
    refine ⟨by simp only [logStep, historyStep, expected, MessageLog.fetchMany, hfetch], ?_⟩
    intro g'
    simp [logStep, historyStep, appendsTo_append, appendsTo, h g']

theorem room_along (ops : List Op) (log : MessageLog)
    (h : ∀ g, (log.count g:Int) + (appendsTo g ops).length < 2^63-1) :
    Run.Along Room logStep ops log := by
  induction ops generalizing log with
  | nil => trivial
  | cons op ops ih =>
    cases op with
    | append params =>
      constructor
      · have hp := h params.groupId
        rw [appendsTo, if_pos rfl, List.length_cons] at hp
        simp only [Room]
        omega
      · apply ih
        intro g
        have hg := h g
        simp only [logStep, count_append]
        by_cases he : params.groupId = g
        · rw [appendsTo, if_pos he, List.length_cons] at hg
          rw [if_pos he]
          omega
        · rw [appendsTo, if_neg he] at hg
          rw [if_neg he]
          omega
    | fetch g c => exact ⟨trivial, ih log h⟩
    | fetchMany gs => exact ⟨trivial, ih log h⟩

end Cordn.GroupLogOps
