import Cordn.Lib.Resumption
import Cordn.SessionStreams

/-!
# Going on where a stream broke off

A client that lost its stream asks again for what lies above the last message it
got of each group. Under serialized posts the calls of such a client, however
many and however they end, together write each group's log from its first cursor
on, in order, without a gap and nothing twice.
-/

set_option autoImplicit false

namespace Cordn.Coordinator
open IndexMap Watermark GroupLogOps Resumption

variable {V σ : Type}

def Session.writtenTo (g : String) (x : Session) : List Adapter.GroupMessage :=
  x.written.filter (fun m => decide (m.gid = g))

def Session.resumed (x : Session) : List FetchGroupMessagesInput :=
  x.groups.map (fun q =>
    ⟨q.groupId, lastSeen Adapter.GroupMessage.cursor q.afterCursor (x.writtenTo q.groupId)⟩)

/-- Calls of which each goes on where the one before left off. -/
def Resuming (calls : List Session) : Prop :=
  calls.IsChain (fun x y => y.groups = x.resumed)

def wireLog (externals : Adapter.Externals V) (appended : List GroupMessageRecord) (g : String) :
    List Adapter.GroupMessage :=
  (DenseLog.part GroupMessageRecord.groupId g appended).map (wireMessage externals)

def wireLogAfter (externals : Adapter.Externals V) (appended : List GroupMessageRecord)
    (q : FetchGroupMessagesInput) : List Adapter.GroupMessage :=
  (wireLog externals appended q.groupId).filter
    (beyond Adapter.GroupMessage.cursor q.afterCursor)

theorem part_append {records records' : List GroupMessageRecord} (g : String) :
    DenseLog.part GroupMessageRecord.groupId g (records ++ records') =
      DenseLog.part GroupMessageRecord.groupId g records ++
        DenseLog.part GroupMessageRecord.groupId g records' := List.filter_append _ _

theorem requested_eq {groups : List FetchGroupMessagesInput} (hd : DistinctGroups groups)
    {q : FetchGroupMessagesInput} (hq : q ∈ groups) (r : GroupMessageRecord)
    (hr : r.groupId = q.groupId) : requested groups r = above q.afterCursor r := by
  rw [Bool.eq_iff_iff, requested, List.any_eq_true]
  constructor
  · rintro ⟨x, hx, hasked⟩
    obtain ⟨hid, habove⟩ := Bool.and_eq_true_iff.mp hasked
    obtain rfl := List.inj_on_of_nodup_map hd hx hq ((of_decide_eq_true hid).trans hr)
    exact habove
  · intro habove
    exact ⟨q, hq, by simp [hr, habove]⟩

theorem part_storedFor {groups : List FetchGroupMessagesInput} (hd : DistinctGroups groups)
    {q : FetchGroupMessagesInput} (hq : q ∈ groups) (records : List GroupMessageRecord) :
    DenseLog.part GroupMessageRecord.groupId q.groupId (storedFor records groups) =
      (DenseLog.part GroupMessageRecord.groupId q.groupId records).filter
        (above q.afterCursor) := by
  have hother : ∀ x : FetchGroupMessagesInput, x.groupId ≠ q.groupId →
      DenseLog.part GroupMessageRecord.groupId q.groupId
        ((DenseLog.part GroupMessageRecord.groupId x.groupId records).filter
          (above x.afterCursor)) = [] := by
    intro x hne
    refine List.filter_eq_nil_iff.mpr fun r hr => ?_
    obtain ⟨-, hid⟩ := (DenseLog.mem_part _ _ _ _).mp (List.mem_filter.mp hr).1
    simpa [hid] using hne
  have hown : DenseLog.part GroupMessageRecord.groupId q.groupId
      ((DenseLog.part GroupMessageRecord.groupId q.groupId records).filter
        (above q.afterCursor)) =
      (DenseLog.part GroupMessageRecord.groupId q.groupId records).filter
        (above q.afterCursor) := by
    refine List.filter_eq_self.mpr fun r hr => ?_
    simp [((DenseLog.mem_part _ _ _ _).mp (List.mem_filter.mp hr).1).2]
  induction groups with
  | nil => cases hq
  | cons x groups ih =>
    obtain ⟨hx, hrest⟩ := List.nodup_cons.mp hd
    have hcons : storedFor records (x::groups) =
        (DenseLog.part GroupMessageRecord.groupId x.groupId records).filter
          (above x.afterCursor) ++ storedFor records groups := List.flatMap_cons
    rw [hcons, part_append]
    rcases List.mem_cons.mp hq with rfl | hmem
    · have hnone : DenseLog.part GroupMessageRecord.groupId q.groupId
          (storedFor records groups) = [] := by
        refine List.filter_eq_nil_iff.mpr fun r hr => ?_
        obtain ⟨y, hy, hasked⟩ := List.any_eq_true.mp ((mem_storedFor _ _ _).mp hr).2
        have hid := of_decide_eq_true (Bool.and_eq_true_iff.mp hasked).1
        simp only [decide_eq_true_eq]
        rintro he
        exact hx (List.mem_map.mpr ⟨y, hy, hid.trans he⟩)
      rw [hown, hnone, List.append_nil]
    · have hne : x.groupId ≠ q.groupId := by
        rintro he
        exact hx (List.mem_map.mpr ⟨q, hmem, he.symm⟩)
      rw [hother x hne, List.nil_append, ih hrest hmem]

theorem part_streamFrom {groups : List FetchGroupMessagesInput} (hd : DistinctGroups groups)
    {q : FetchGroupMessagesInput} (hq : q ∈ groups) (appended : List GroupMessageRecord)
    (fetchedAt : ℕ) :
    DenseLog.part GroupMessageRecord.groupId q.groupId (streamFrom appended fetchedAt groups) =
      (DenseLog.part GroupMessageRecord.groupId q.groupId appended).filter
        (above q.afterCursor) := by
  have hlater : DenseLog.part GroupMessageRecord.groupId q.groupId
      ((appended.drop fetchedAt).filter (requested groups)) =
      (DenseLog.part GroupMessageRecord.groupId q.groupId (appended.drop fetchedAt)).filter
        (above q.afterCursor) := by
    rw [DenseLog.part, DenseLog.part, List.filter_filter, List.filter_filter]
    refine List.filter_congr fun r _ => ?_
    by_cases hr : r.groupId = q.groupId
    · simp [hr, requested_eq hd hq r hr]
    · simp [hr]
  rw [streamFrom, part_append, part_storedFor hd hq, hlater, ← List.filter_append, ← part_append,
    List.take_append_drop]

theorem wireLogAfter_eq (externals : Adapter.Externals V) (appended : List GroupMessageRecord)
    (q : FetchGroupMessagesInput) : wireLogAfter externals appended q =
      ((DenseLog.part GroupMessageRecord.groupId q.groupId appended).filter
        (above q.afterCursor)).map (wireMessage externals) := by
  rw [wireLogAfter, wireLog, List.filter_map]
  refine congrArg _ (List.filter_congr fun r _ => ?_)
  cases q.afterCursor <;> rfl

theorem filter_wire (externals : Adapter.Externals V) (records : List GroupMessageRecord)
    (g : String) :
    (records.map (wireMessage externals)).filter (fun m => decide (m.gid = g)) =
      (DenseLog.part GroupMessageRecord.groupId g records).map (wireMessage externals) := by
  rw [List.filter_map]
  rfl

theorem wireLog_sorted {externals : Adapter.Externals V} {appended : List GroupMessageRecord}
    (h : DenseRecords appended) (g : String) :
    (wireLog externals appended g).Pairwise (fun a b => a.cursor < b.cursor) :=
  List.pairwise_map.mpr ((h g).pairwise)

variable {externals : Adapter.Externals V} {s : System σ}

theorem Accounted.group {x : Session} (h : Accounted externals s x) (hd : DistinctGroups x.groups)
    {q : FetchGroupMessagesInput} (hq : q ∈ x.groups) :
    x.writtenTo q.groupId <+: wireLogAfter externals s.appended q := by
  obtain ⟨fetchedAt, -, hwithin⟩ := h
  rw [wireLogAfter_eq, ← part_streamFrom hd hq s.appended fetchedAt, ← filter_wire]
  exact hwithin.filter _

theorem resumed_distinct {x : Session} (hd : DistinctGroups x.groups) :
    DistinctGroups x.resumed := by
  rw [DistinctGroups, Session.resumed, List.map_map]
  exact hd

theorem mem_resumed {x : Session} {q : FetchGroupMessagesInput} (hq : q ∈ x.groups) :
    ⟨q.groupId, lastSeen Adapter.GroupMessage.cursor q.afterCursor (x.writtenTo q.groupId)⟩ ∈
      x.resumed := List.mem_map.mpr ⟨q, hq, rfl⟩

theorem pieces_of_calls (calls : List Session) (x : Session) (hresuming : Resuming (x::calls))
    (hall : ∀ y ∈ x::calls, DistinctGroups y.groups → Accounted externals s y)
    (hd : DistinctGroups x.groups) (q : FetchGroupMessagesInput) (hq : q ∈ x.groups) :
    Pieces Adapter.GroupMessage.cursor (wireLog externals s.appended q.groupId) q.afterCursor
      ((x::calls).map (Session.writtenTo q.groupId)) := by
  induction calls generalizing x q with
  | nil => exact ⟨(hall x (by simp) hd).group hd hq, trivial⟩
  | cons y calls ih =>
    obtain ⟨hnext, hrest⟩ := List.isChain_cons_cons.mp hresuming
    refine ⟨(hall x (by simp) hd).group hd hq, ?_⟩
    exact ih y hrest (fun z hz => hall z (List.mem_cons_of_mem _ hz))
      (hnext ▸ resumed_distinct hd) _ (hnext.symm ▸ mem_resumed hq)

theorem last_request (calls : List Session) (x last : Session)
    (hresuming : Resuming (x::calls ++ [last])) (q : FetchGroupMessagesInput)
    (hq : q ∈ x.groups) (hd : DistinctGroups x.groups) :
    DistinctGroups last.groups ∧
      ⟨q.groupId, ((x::calls).map (Session.writtenTo q.groupId)).foldl
        (lastSeen Adapter.GroupMessage.cursor) q.afterCursor⟩ ∈ last.groups := by
  induction calls generalizing x q with
  | nil =>
    obtain ⟨hnext, -⟩ := List.isChain_cons_cons.mp hresuming
    exact ⟨hnext ▸ resumed_distinct hd, hnext.symm ▸ mem_resumed hq⟩
  | cons y calls ih =>
    obtain ⟨hnext, hrest⟩ := List.isChain_cons_cons.mp hresuming
    exact ih y hrest _ (hnext.symm ▸ mem_resumed hq) (hnext ▸ resumed_distinct hd)

theorem requirePositiveCursors_iff (groups : List FetchGroupMessagesInput) :
    Adapter.requirePositiveCursors groups = .ok () ↔
      ∀ q ∈ groups, ∀ c ∈ q.afterCursor, 0 < c := by
  induction groups with
  | nil => simp [Adapter.requirePositiveCursors, pure, Except.pure]
  | cons q groups ih =>
    have hcons : Adapter.requirePositiveCursors (q::groups) =
        (Adapter.requirePositiveCursor q.afterCursor "after").bind
          (fun _ => Adapter.requirePositiveCursors groups) := List.forM_cons
    rw [hcons, List.forall_mem_cons, ← ih, Adapter.requirePositiveCursor]
    cases hq : q.afterCursor with
    | none => simp [Except.bind]
    | some c =>
      by_cases hc : c ≤ 0
      · simp [hc, Except.bind]
      · simp [hc, Except.bind, not_le.mp hc]

theorem subscribeChecks_iff (groups : List FetchGroupMessagesInput) :
    subscribeChecks groups = .ok () ↔
      groups ≠ [] ∧ ∀ q ∈ groups, ∀ c ∈ q.afterCursor, 0 < c := by
  rw [← requirePositiveCursors_iff, subscribeChecks, Adapter.requireGroups]
  cases groups with
  | nil => simp [bind, Except.bind]
  | cons q groups => simp [bind, Except.bind]

def AllChecked (t : Streaming σ) : Prop :=
  ∀ id x, t.sessions.get? id = some x → subscribeChecks x.groups = .ok ()

theorem run_allChecked {S : CoordinatorStorage V σ} (storage : σ) (events : List StreamEvent)
    (t : Streaming σ)
    (hrun : Run.run (streamStep S externals) events (Streaming.init storage) = some t) :
    AllChecked t := by
  refine Run.run_invariant (streamStep S externals) AllChecked ?_ events _ t ?_ hrun
  · intro event t t' ht hstep id y hy
    rcases streams_sessions (streamStep_streams hstep) id y hy with ⟨hok, -⟩ | ⟨x, hx, hgroups, -⟩
    · exact hok
    · exact hgroups ▸ ht id x hx
  · intro id x hx
    simp [Streaming.init] at hx

theorem Accounted.positive {x : Session} (h : Accounted externals s x)
    (hdense : DenseRecords s.appended) (m : Adapter.GroupMessage) (hm : m ∈ x.written) :
    0 < m.cursor := by
  obtain ⟨fetchedAt, -, hwithin⟩ := h
  obtain ⟨r, hr, rfl⟩ := List.mem_map.mp (hwithin.subset hm)
  have hstored : r ∈ s.appended := by
    rcases List.mem_append.mp hr with hr | hr
    · exact List.mem_of_mem_take ((mem_storedFor _ _ _).mp hr).1
    · exact List.mem_of_mem_drop (List.mem_filter.mp hr).1
  exact Int.lt_of_lt_of_le Int.zero_lt_one (dense_cursor_pos hdense r hstored)

theorem resumed_accepted {x : Session} (h : Accounted externals s x)
    (hdense : DenseRecords s.appended) (hok : subscribeChecks x.groups = .ok ()) :
    subscribeChecks x.resumed = .ok () := by
  obtain ⟨hne, hpositive⟩ := (subscribeChecks_iff _).mp hok
  refine (subscribeChecks_iff _).mpr ⟨by simpa [Session.resumed] using hne, ?_⟩
  intro q' hq' c hc
  obtain ⟨q, hq, rfl⟩ := List.mem_map.mp hq'
  rcases List.eq_nil_or_concat' (x.writtenTo q.groupId) with hnil | ⟨front, m, hfront⟩
  · rw [hnil, lastSeen_nil] at hc
    exact hpositive q hq c hc
  · rw [hfront, lastSeen_snoc] at hc
    obtain rfl := Option.some.inj hc
    have hm : m ∈ x.writtenTo q.groupId := by simp [hfront]
    exact h.positive hdense m (List.mem_filter.mp hm).1

/-- In every run of serialized posts, for calls that resume one another. -/
structure ResumesExactly (S : CoordinatorStorage V σ) (externals : Adapter.Externals V)
    (storage : σ) : Prop where
  once : ∀ events t calls x q,
    Run.Every SerializedPosts (streamStep S externals) events (Streaming.init storage) →
    Run.run (streamStep S externals) events (Streaming.init storage) = some t →
    (∀ y ∈ x::calls, ∃ id, t.sessions.get? id = some y) → Resuming (x::calls) →
    DistinctGroups x.groups → q ∈ x.groups →
    (x::calls).flatMap (Session.writtenTo q.groupId) <+:
      wireLogAfter externals t.system.appended q
  /-- Once the last call received all of its channel, the calls wrote the whole log. -/
  whole : ∀ events t calls x id last q,
    Run.Every SerializedPosts (streamStep S externals) events (Streaming.init storage) →
    Run.run (streamStep S externals) events (Streaming.init storage) = some t →
    (∀ y ∈ x::calls, ∃ id, t.sessions.get? id = some y) → Resuming (x::calls) →
    DistinctGroups x.groups → q ∈ x.groups → (x::calls).getLast? = some last →
    t.sessions.get? id = some last → last.phase = .streaming → t.system.posting = [] →
    last.received = (channel t.system id).length →
    (x::calls).flatMap (Session.writtenTo q.groupId) =
      wireLogAfter externals t.system.appended q
  /-- A request that resumes a call passes the checks. -/
  accepted : ∀ events t id x,
    Run.Every SerializedPosts (streamStep S externals) events (Streaming.init storage) →
    Run.run (streamStep S externals) events (Streaming.init storage) = some t →
    t.sessions.get? id = some x → DistinctGroups x.groups →
    subscribeChecks x.resumed = .ok ()

theorem writtenTo_drained {t : Streaming σ} {R : σ → MessageLog → Prop}
    (h : InAccount R externals t) (id : ℕ) (x : Session) (hx : t.sessions.get? id = some x)
    (hd : DistinctGroups x.groups) (hphase : x.phase = .streaming)
    (hidle : t.system.posting = []) (hall : x.received = (channel t.system id).length)
    (q : FetchGroupMessagesInput) (hq : q ∈ x.groups) :
    x.writtenTo q.groupId = wireLogAfter externals t.system.appended q := by
  obtain ⟨fetchedAt, -, hwritten⟩ := accounted_drained h id x hx hd hphase hidle hall
  rw [wireLogAfter_eq, ← part_streamFrom hd hq t.system.appended fetchedAt, ← filter_wire,
    ← hwritten]
  rfl

theorem resumesExactly {S : CoordinatorStorage V σ} {limit : FetchLimit} {R : σ → MessageLog → Prop}
    (hS : KeepsLog S limit R) (externals : Adapter.Externals V) (storage : σ)
    (h : R storage MessageLog.empty) : ResumesExactly S externals storage where
  once events t calls x q hserial hrun hcalls hresuming hd hq := by
    have hin := run_inAccount hS storage h events t hserial hrun
    have hpieces := pieces_of_calls calls x hresuming (fun y hy hdy => by
      obtain ⟨id, hid⟩ := hcalls y hy
      exact hin.accounted id y hid hdy) hd q hq
    have hsorted : (wireLog externals t.system.appended q.groupId).Pairwise
        (fun a b => a.cursor < b.cursor) :=
      wireLog_sorted (dense_appended hin.delivering.consistent) q.groupId
    rw [List.flatMap_def]
    exact hpieces.flatten hsorted
  whole events t calls x id last q hserial hrun hcalls hresuming hd hq hlast hid hphase hidle
      hall := by
    have hin := run_inAccount hS storage h events t hserial hrun
    have hpieces := pieces_of_calls calls x hresuming (fun y hy hdy => by
      obtain ⟨id, hid⟩ := hcalls y hy
      exact hin.accounted id y hid hdy) hd q hq
    have hsorted : (wireLog externals t.system.appended q.groupId).Pairwise
        (fun a b => a.cursor < b.cursor) :=
      wireLog_sorted (dense_appended hin.delivering.consistent) q.groupId
    rcases List.eq_nil_or_concat' calls with rfl | ⟨front, last', rfl⟩
    · obtain rfl := Option.some.inj hlast
      simpa using writtenTo_drained hin id x hid hd hphase hidle hall q hq
    · rw [← List.cons_append, List.getLast?_concat] at hlast
      obtain rfl := Option.some.inj hlast
      obtain ⟨hdlast, hrequest⟩ := last_request front x last' hresuming q hq hd
      have hdrained := writtenTo_drained hin id last' hid hdlast hphase hidle hall _ hrequest
      rw [← List.cons_append, List.map_append, List.map_singleton] at hpieces
      rw [List.flatMap_def, ← List.cons_append, List.map_append, List.map_singleton]
      exact hpieces.flatten_eq hsorted hdrained
  accepted events t id x hserial hrun hx hd := by
    have hin := run_inAccount hS storage h events t hserial hrun
    exact resumed_accepted (hin.accounted id x hx hd)
      (dense_appended hin.delivering.consistent) (run_allChecked storage events t hrun id x hx)

theorem resumed_streams (json : Sqlite.SerdeJson V) (externals : Adapter.Externals V) :
    ResumesExactly (InMemory.storage : CoordinatorStorage V (InMemory.InMemoryInner V)) externals
        InMemory.InMemoryInner.default ∧
      ResumesExactly (Sqlite.storage json) externals Sqlite.Database.new :=
  ⟨resumesExactly inMemory_keepsLog externals _ InMemory.HoldsLog.default,
    resumesExactly (sqlite_keepsLog json) externals _ Sqlite.HoldsLog.new⟩

/-- A call is dropped behind its first message, and another one goes on from there. -/
def resumedStream : List StreamEvent :=
  [.coordinator (.append ⟨"g", [1, 2, 3], 100⟩),
    .coordinator (.publishLive ⟨1, "g", [1, 2, 3], 100⟩), .subscribe [⟨"g", none⟩],
    .turn 1 .fetchBacklog, .turn 1 .start, .turn 1 (.receive true),
    .coordinator (.append ⟨"g", [4, 5, 6], 200⟩),
    .coordinator (.publishLive ⟨2, "g", [4, 5, 6], 200⟩), .turn 1 .cancel,
    .subscribe [⟨"g", some 1⟩], .turn 2 .fetchBacklog, .turn 2 .start, .turn 2 (.receive true)]

theorem resumedStream_runs : (memoryRun resumedStream).isSome = true := by decide +kernel

def droppedCall : Session :=
  ⟨[⟨"g", none⟩], .cancelled, 1, [⟨1, "g", "AQID", 100⟩], true, false, true⟩

def resumingCall : Session :=
  ⟨[⟨"g", some 1⟩], .streaming, 1, [⟨2, "g", "BAUG", 200⟩], true, false, true⟩

theorem resumed_streams_sample :
    [droppedCall, resumingCall].flatMap (Session.writtenTo "g") =
      wireLogAfter Adapter.sampleExternals
        ((memoryRun resumedStream).get resumedStream_runs).system.appended ⟨"g", none⟩ :=
  (resumed_streams Adapter.jsonText Adapter.sampleExternals).1.whole resumedStream _ [resumingCall]
    droppedCall 2 resumingCall ⟨"g", none⟩ (by decide +kernel)
    (Option.some_get resumedStream_runs).symm
    (List.forall_mem_cons.mpr ⟨⟨1, by decide +kernel⟩,
      List.forall_mem_singleton.mpr ⟨2, by decide +kernel⟩⟩)
    (.cons_cons (by decide +kernel) (.singleton _)) (List.nodup_singleton _) List.mem_cons_self rfl
    (by decide +kernel) rfl (by decide +kernel) (by decide +kernel)

end Cordn.Coordinator
