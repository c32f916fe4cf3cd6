import Cordn.CoordinatorHistory

/-!
# The stream of a multi-group subscription under serialized posts

As long as no post starts before the one before it is done, messages are
published in the order they were appended. A subscription's channel then holds
its backlog and, behind it, every later message it asked for.
-/

set_option autoImplicit false

namespace Cordn.Coordinator
open IndexMap Watermark GroupLogOps

abbrev DenseRecords (records : List GroupMessageRecord) : Prop :=
  DenseLog.Dense GroupMessageRecord.groupId GroupMessageRecord.cursor records

theorem dense_cursor_pos {records : List GroupMessageRecord} (h : DenseRecords records)
    (r : GroupMessageRecord) (hr : r ∈ records) : 1 ≤ r.cursor :=
  ((h r.groupId).bounds r ((DenseLog.mem_part _ _ _ _).mpr ⟨hr, rfl⟩)).1

theorem above_iff (afterCursor : Option Int) (r : GroupMessageRecord) (h : 1 ≤ r.cursor) :
    above afterCursor r = true ↔ afterCursor.getD 0 < r.cursor := by
  cases afterCursor with
  | none =>
    simp only [above, Option.getD_none, true_iff]
    omega
  | some c => simp [above]

theorem requested_iff {groups : List FetchGroupMessagesInput} (hd : DistinctGroups groups)
    (r : GroupMessageRecord) (h : 1 ≤ r.cursor) :
    requested groups r = true ↔
      r.groupId ∈ (cursorsOf groups).keys ∧ startOf groups r.groupId < r.cursor := by
  simp only [requested, List.any_eq_true, Bool.and_eq_true, decide_eq_true_eq, mem_groupIds,
    above_iff _ r h]
  constructor
  · rintro ⟨x, hx, hid, hlt⟩
    exact ⟨⟨x, hx, hid⟩, by rwa [← hid, startOf_distinct hd x hx]⟩
  · rintro ⟨⟨x, hx, hid⟩, hlt⟩
    exact ⟨x, hx, hid, by rwa [← hid, startOf_distinct hd x hx] at hlt⟩

theorem storedFor_increasing {records : List GroupMessageRecord} (h : DenseRecords records)
    {groups : List FetchGroupMessagesInput} (hd : DistinctGroups groups) :
    Increasing GroupMessageRecord.groupId GroupMessageRecord.cursor (storedFor records groups) := by
  rw [Increasing, storedFor, List.pairwise_flatMap]
  constructor
  · intro x _
    exact (h.pairwise.sublist List.filter_sublist).sublist List.filter_sublist
  · apply (List.pairwise_map.mp hd).imp
    intro x y hne a ha b hb hkey
    have hax := ((DenseLog.mem_part _ _ _ _).mp (List.mem_filter.mp ha).1).2
    have hby := ((DenseLog.mem_part _ _ _ _).mp (List.mem_filter.mp hb).1).2
    exact absurd (hax.symm.trans (hkey.trans hby)) hne

theorem passed_storedFor {records : List GroupMessageRecord} (h : DenseRecords records)
    {groups : List FetchGroupMessagesInput} (hd : DistinctGroups groups) :
    passed groups (storedFor records groups) = storedFor records groups := by
  rw [passed, passing_increasing _ _ (storedFor_increasing h hd)]
  apply List.filter_eq_self.mpr
  intro r hr
  obtain ⟨hmem, hreq⟩ := (mem_storedFor _ _ _).mp hr
  simpa using ((requested_iff hd r (dense_cursor_pos h r hmem)).mp hreq).2

theorem reached_stored {records : List GroupMessageRecord} (h : DenseRecords records)
    {groups : List FetchGroupMessagesInput} (hd : DistinctGroups groups)
    (r : GroupMessageRecord) (hr : r ∈ records) (hg : r.groupId ∈ (cursorsOf groups).keys) :
    r.cursor ≤ reached groups (storedFor records groups) r.groupId := by
  by_cases hlt : startOf groups r.groupId < r.cursor
  · apply num_le_marks
    exact (mem_storedFor _ _ _).mpr
      ⟨hr, (requested_iff hd r (dense_cursor_pos h r hr)).mpr ⟨hg, hlt⟩⟩
  · exact (not_lt.mp hlt).trans (le_marks _ _ _)

theorem reached_lt_iff (groups : List FetchGroupMessagesInput)
    (stream : List GroupMessageRecord) (r : GroupMessageRecord)
    (h : ∀ b ∈ stream, b.groupId = r.groupId → b.cursor < r.cursor) :
    reached groups stream r.groupId < r.cursor ↔ startOf groups r.groupId < r.cursor := by
  constructor
  · exact fun hlt => lt_of_le_of_lt (le_marks _ _ _) hlt
  · intro hlt
    have hle : reached groups stream r.groupId ≤ r.cursor-1 := by
      apply marks_le
      · omega
      · intro b hb hkey
        have hb' := h b hb hkey
        omega
    omega

variable {V σ : Type}

theorem dense_appended {R : σ → MessageLog → Prop} {s : System σ} (hc : Consistent R s) :
    DenseRecords s.appended := by
  obtain ⟨log, -, hlog⟩ := hc.log
  exact hlog ▸ log.dense

theorem appended_nodup {R : σ → MessageLog → Prop} {s : System σ} (hc : Consistent R s) :
    s.appended.Nodup := by
  apply (dense_appended hc).pairwise.imp
  rintro a b hlt rfl
  exact lt_irrefl _ (hlt rfl)

def Serialized : Event → System σ → Prop
  | .append _, s => s.posting = []
  | _, _ => True

instance : (event : Event) → (s : System σ) → Decidable (Serialized event s)
  | .append _, s => inferInstanceAs (Decidable (s.posting = []))
  | .publishLive _, _ | .subscribe _, _ | .register _, _ | .fetchBacklog _, _ | .finish _, _
  | .unsubscribe _, _ => .isTrue trivial

/-- Messages were published in the order they were appended, all but the last. -/
structure InOrder (s : System σ) : Prop where
  history : s.published ++ s.posting = s.appended
  single : s.posting.length ≤ 1

theorem step_inOrder {S : CoordinatorStorage V σ} {limit : FetchLimit} {R : σ → MessageLog → Prop}
    (hS : KeepsLog S limit R) (event : Event) (s s' : System σ) (hc : Consistent R s)
    (h : InOrder s) (hserial : Serialized event s) (hstep : step S event s = some s') :
    InOrder s' := by
  rcases step_history event s s' hstep with ⟨params, rfl, hroom, rfl⟩ | ⟨r, rfl, hr, rfl⟩ |
    ⟨hposting, hpublished, happended⟩
  · obtain ⟨log, storage, -, -, hrun⟩ := append_eq hS hc params hroom
    have hnone : s.posting = [] := hserial
    have hhistory := h.history
    rw [hnone, List.append_nil] at hhistory
    rw [hrun]
    exact ⟨by simp [hnone, hhistory], by simp [hnone]⟩
  · have honly : s.posting = [r] := by
      have hsingle := h.single
      match hp : s.posting with
      | [] => simp [hp] at hr
      | [x] =>
        rw [hp, List.mem_singleton] at hr
        rw [hr]
      | x::y::rest => simp [hp] at hsingle
    have hhistory := h.history
    rw [honly] at hhistory
    exact ⟨by simp [publish, honly, hhistory], by simp [publish, honly]⟩
  · exact ⟨by rw [hposting, hpublished, happended, h.history], by rw [hposting]; exact h.single⟩

theorem run_inOrder {S : CoordinatorStorage V σ} {limit : FetchLimit} {R : σ → MessageLog → Prop}
    (hS : KeepsLog S limit R) (storage : σ) (h : R storage MessageLog.empty) (events : List Event)
    (s : System σ) (hserial : Run.Every Serialized (step S) events (System.init storage))
    (hrun : Run.run (step S) events (System.init storage) = some s) :
    Consistent R s ∧ InOrder s := by
  refine Run.every_invariant (step S) Serialized (fun s => Consistent R s ∧ InOrder s) ?_ events
    _ s ⟨Consistent.init storage h, rfl, Nat.zero_le _⟩ hserial hrun
  rintro event s s' ⟨hc, ho⟩ hok hstep
  exact ⟨step_consistent hS event s s' hc hstep, step_inOrder hS event s s' hc ho hok hstep⟩

/-- What a subscription streams: what it asked for of the messages stored at its
backlog fetch, then what it asked for of those appended later. -/
def streamOf (appended : List GroupMessageRecord) (w : Subscription) : List GroupMessageRecord :=
  storedFor (appended.take w.fetchedAt) w.groups ++
    (appended.drop w.fetchedAt).filter (requested w.groups)

theorem passing_live {appended : List GroupMessageRecord} (hdense : DenseRecords appended)
    (w : Subscription) (hd : DistinctGroups w.groups) (horder : w.registeredAt ≤ w.fetchedAt)
    (hfetched : w.fetchedAt ≤ appended.length) :
    passing GroupMessageRecord.groupId GroupMessageRecord.cursor
        (reached w.groups (backlogOf appended w)) (liveOf appended w) =
      (appended.drop w.fetchedAt).filter (requested w.groups) := by
  have hsplit := List.take_append_drop w.fetchedAt appended
  have hstored : DenseRecords (appended.take w.fetchedAt) := by
    rw [← hsplit] at hdense
    exact hdense.of_prefix
  have hincreasing : Increasing GroupMessageRecord.groupId GroupMessageRecord.cursor
      (liveOf appended w) :=
    (hdense.pairwise.sublist (List.drop_sublist _ _)).sublist List.filter_sublist
  have hdrop : appended.drop w.registeredAt =
      (appended.take w.fetchedAt).drop w.registeredAt ++ appended.drop w.fetchedAt := by
    conv_lhs => rw [← hsplit]
    apply List.drop_append_of_le_length
    rw [List.length_take]
    omega
  rw [passing_increasing _ _ hincreasing, liveOf, List.filter_filter, hdrop, List.filter_append]
  have hold : ((appended.take w.fetchedAt).drop w.registeredAt).filter (fun r =>
      decide (reached w.groups (backlogOf appended w) r.groupId < r.cursor) &&
        decide (r.groupId ∈ w.groupIds)) = [] := by
    apply List.filter_eq_nil_iff.mpr
    intro r hr
    simp only [Bool.and_eq_true, decide_eq_true_eq, not_and]
    intro hlt hg
    have hle := reached_stored hstored hd r (List.mem_of_mem_drop hr) hg
    exact absurd hlt (not_lt.mpr hle)
  rw [hold, List.nil_append]
  apply List.filter_congr
  intro r hr
  have hpos := dense_cursor_pos hdense r (List.mem_of_mem_drop hr)
  have hbehind : ∀ b ∈ backlogOf appended w, b.groupId = r.groupId → b.cursor < r.cursor := by
    intro b hb hkey
    have hpair := hdense.pairwise
    rw [← hsplit, List.pairwise_append] at hpair
    exact hpair.2.2 b ((mem_storedFor _ _ _).mp hb).1 r hr hkey
  rw [Bool.eq_iff_iff, requested_iff hd r hpos]
  simp only [Bool.and_eq_true, decide_eq_true_eq, reached_lt_iff w.groups _ r hbehind]
  exact and_comm

theorem channel_eq {R : σ → MessageLog → Prop} {s : System σ} (hc : Consistent R s)
    (ho : InOrder s) (hidle : s.posting = []) (id : ℕ) (w : Subscription)
    (hw : s.subscriptions.get? id = some w) (hmany : w.many = true) (hopen : w.stage = .opened)
    (hd : DistinctGroups w.groups) : channel s id = streamOf s.appended w := by
  obtain ⟨sub, hsub, hf⟩ := hc.subscribers id w hw
  have hdense := dense_appended hc
  have hpublished : s.published = s.appended := by
    rw [← ho.history, hidle, List.append_nil]
  have ht := hf.tracks
  simp only [Tracks, hmany, hopen] at ht
  rw [channel, hsub, Option.map_some, Option.getD_some, ht.sender, passed, passing_append,
    hpublished, passing_live hdense w hd hf.order hf.fetchedAt, streamOf]
  congr 1
  apply passed_storedFor _ hd
  rw [← List.take_append_drop w.fetchedAt s.appended] at hdense
  exact hdense.of_prefix

/-- In every run of serialized posts the channel of an open multi-group
subscription holds, whenever no post is in flight, exactly what it asked for. -/
structure StreamsExactly (S : CoordinatorStorage V σ) (storage : σ) : Prop where
  stream : ∀ events s id w, Run.Every Serialized (step S) events (System.init storage) →
    Run.run (step S) events (System.init storage) = some s → s.posting = [] →
    s.subscriptions.get? id = some w → w.many = true → w.stage = .opened →
    DistinctGroups w.groups → channel s id = streamOf s.appended w
  /-- The history is what the backend stores. -/
  history : ∀ events s g, Run.run (step S) events (System.init storage) = some s →
    (S.fetchGroupMessages g none s.storage).1 =
      .ok (DenseLog.part GroupMessageRecord.groupId g s.appended)

theorem stored_history {S : CoordinatorStorage V σ} {limit : FetchLimit} {R : σ → MessageLog → Prop}
    (hS : KeepsLog S limit R) {s : System σ} (hc : Consistent R s) (g : String) :
    (S.fetchGroupMessages g none s.storage).1 =
      .ok (DenseLog.part GroupMessageRecord.groupId g s.appended) := by
  obtain ⟨log, hR, hlog⟩ := hc.log
  rw [← hlog]
  exact fetch_all hS hR g

theorem streamsExactly {S : CoordinatorStorage V σ} {limit : FetchLimit} {R : σ → MessageLog → Prop}
    (hS : KeepsLog S limit R) (storage : σ) (h : R storage MessageLog.empty) :
    StreamsExactly S storage where
  stream events s id w hserial hrun hidle hw hmany hopen hd := by
    obtain ⟨hc, ho⟩ := run_inOrder hS storage h events s hserial hrun
    exact channel_eq hc ho hidle id w hw hmany hopen hd
  history events s g hrun := stored_history hS (run_consistent hS storage h events s hrun) g

theorem serialized_streams (json : Sqlite.SerdeJson V) :
    StreamsExactly (InMemory.storage : CoordinatorStorage V (InMemory.InMemoryInner V))
        InMemory.InMemoryInner.default ∧
      StreamsExactly (Sqlite.storage json) Sqlite.Database.new :=
  ⟨streamsExactly inMemory_keepsLog _ InMemory.HoldsLog.default,
    streamsExactly (sqlite_keepsLog json) _ Sqlite.HoldsLog.new⟩

example : ((Run.run (step (InMemory.storage : CoordinatorStorage Bool _))
      [.append ⟨"g", [1], 0⟩, .publishLive ⟨1, "g", [1], 0⟩,
        .register [⟨"h", none⟩, ⟨"g", none⟩], .append ⟨"g", [2], 0⟩, .fetchBacklog 1, .finish 1,
        .publishLive ⟨2, "g", [2], 0⟩, .append ⟨"h", [3], 0⟩, .publishLive ⟨1, "h", [3], 0⟩]
      (System.init InMemory.InMemoryInner.default)).map (fun s => channel s 1)) =
    some [⟨1, "g", [1], 0⟩, ⟨2, "g", [2], 0⟩, ⟨1, "h", [3], 0⟩] := by
  decide +kernel

end Cordn.Coordinator
