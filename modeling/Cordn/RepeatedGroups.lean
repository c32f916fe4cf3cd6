import Cordn.ChannelOrder

/-!
# Requests that name a group twice

The table of watermarks keeps the last cursor given for a group, the backlog is
fetched for every entry. The first entry with anything to fetch lifts the
group's watermark to the end of its log, so nothing below that entry's cursor
reaches the channel, whatever the last entry asked for.
-/

set_option autoImplicit false

namespace Cordn.Coordinator
open IndexMap Watermark GroupLogOps

variable {V σ : Type}

/-- No message was published since the subscription registered, and none appended
since it fetched. -/
def Undisturbed (s : System σ) (w : Subscription) : Prop :=
  w.registeredAt = s.published.length ∧ w.fetchedAt = s.appended.length

def ReceivesAbove (S : CoordinatorStorage V σ) (s : System σ) (id : ℕ)
    (groups : List FetchGroupMessagesInput) (g : String) : Prop :=
  ∃ messages, (S.fetchGroupMessages g none s.storage).1 = .ok messages ∧
    (channel s id).filter (fun r => decide (r.groupId = g)) =
      messages.filter (fun r => decide (effectiveCursor groups g < r.cursor)) ∧
    messages.Pairwise (fun a b => a.cursor < b.cursor)

/-- The first entry for the group that finds anything to fetch among `n` messages
asks as far back as the last entry for it does. -/
def AsksBack (groups : List FetchGroupMessagesInput) (g : String) (n : ℕ) : Prop :=
  ∀ q, groups.find? (fun q => decide (q.groupId = g) && decide (q.afterCursor.getD 0 < (n:Int))) =
    some q → q.afterCursor.getD 0 ≤ max (effectiveCursor groups g) 0

def StoredAsksBack (S : CoordinatorStorage V σ) (s : System σ)
    (groups : List FetchGroupMessagesInput) (g : String) : Prop :=
  ∃ messages, (S.fetchGroupMessages g none s.storage).1 = .ok messages ∧
    AsksBack groups g messages.length

theorem storedFor_group {records : List GroupMessageRecord} (h : DenseRecords records)
    (groups : List FetchGroupMessagesInput) (g : String) :
    (storedFor records groups).filter (fun r => decide (r.groupId = g)) =
      ((groups.filter (fun q => decide (q.groupId = g))).map
        (fun q => q.afterCursor.getD 0)).flatMap (fun c =>
          (DenseLog.part GroupMessageRecord.groupId g records).filter
            (fun r => decide (c < r.cursor))) := by
  induction groups with
  | nil => rfl
  | cons q groups ih =>
    have hcons : storedFor records (q::groups) =
        (DenseLog.part GroupMessageRecord.groupId q.groupId records).filter
          (above q.afterCursor) ++ storedFor records groups := List.flatMap_cons
    rw [hcons, List.filter_append, ih]
    by_cases hq : q.groupId = g
    · rw [List.filter_cons_of_pos (by simpa using hq), List.map_cons, List.flatMap_cons, hq,
        List.filter_filter]
      congr 1
      apply List.filter_congr
      intro r hr
      obtain ⟨hmem, hid⟩ := (DenseLog.mem_part _ _ _ _).mp hr
      rw [Bool.eq_iff_iff, Bool.and_eq_true, above_iff _ r (dense_cursor_pos h r hmem)]
      simp [hid]
    · rw [List.filter_cons_of_neg (by simpa using hq)]
      have hnone : ((DenseLog.part GroupMessageRecord.groupId q.groupId records).filter
          (above q.afterCursor)).filter (fun r => decide (r.groupId = g)) = [] := by
        rw [List.filter_eq_nil_iff]
        intro r hr
        obtain ⟨-, hid⟩ := (DenseLog.mem_part _ _ _ _).mp (List.mem_filter.mp hr).1
        simpa [hid] using hq
      rw [hnone, List.nil_append]

theorem any_above {messages : List GroupMessageRecord}
    (h : DenseLog.Numbered GroupMessageRecord.cursor messages) (hne : messages ≠ []) (c : Int) :
    messages.any (fun r => decide (c < r.cursor)) = decide (c < (messages.length:Int)) := by
  rw [Bool.eq_iff_iff, List.any_eq_true, decide_eq_true_eq]
  constructor
  · rintro ⟨r, hr, hlt⟩
    exact lt_of_lt_of_le (of_decide_eq_true hlt) (h.bounds r hr).2
  · intro hlt
    refine ⟨messages.getLast hne, List.getLast_mem hne, ?_⟩
    rw [h.last _ (List.getLast?_eq_some_getLast hne)]
    exact decide_eq_true hlt

/-- Of a group with messages the first entry that finds one is served, from its own
cursor or the last one, whichever is later. -/
theorem passed_group {records : List GroupMessageRecord} (h : DenseRecords records)
    (groups : List FetchGroupMessagesInput) (g : String)
    (hne : DenseLog.part GroupMessageRecord.groupId g records ≠ []) :
    (passed groups (storedFor records groups)).filter (fun r => decide (r.groupId = g)) =
      match groups.find? (fun q => decide (q.groupId = g) && decide (q.afterCursor.getD 0 <
          ((DenseLog.part GroupMessageRecord.groupId g records).length:Int))) with
      | none => []
      | some q => (DenseLog.part GroupMessageRecord.groupId g records).filter
          (fun r => decide (max (q.afterCursor.getD 0) (startOf groups g) < r.cursor)) := by
  have hkey : ∀ r ∈ DenseLog.part GroupMessageRecord.groupId g records, r.groupId = g :=
    fun r hr => ((DenseLog.mem_part _ _ _ _).mp hr).2
  rw [passed, passing_filter, storedFor_group h,
    passing_rounds (startOf groups) _ g hkey (h g).pairwise]
  simp only [any_above (h g) hne, List.find?_map, List.find?_filter, Function.comp_def]
  simp only [Bool.decide_and, decide_eq_true_eq]
  cases groups.find? (fun q => decide (q.groupId = g) && decide (q.afterCursor.getD 0 <
    ((DenseLog.part GroupMessageRecord.groupId g records).length:Int))) <;> rfl

theorem filter_max_iff {messages : List GroupMessageRecord}
    (h : DenseLog.Numbered GroupMessageRecord.cursor messages) (start c : Int)
    (hc : c < (messages.length:Int)) :
    messages.filter (fun r => decide (max c start < r.cursor)) =
      messages.filter (fun r => decide (start < r.cursor)) ↔ c ≤ max start 0 := by
  constructor
  · intro he
    by_contra hlt
    have hlt : start < c ∧ 0 < c := by simpa [max_lt_iff] using hlt
    have hi : (c-1).toNat < messages.length := by omega
    have hnum := h.getElem (c-1).toNat hi
    have hnum : (messages[(c-1).toNat]).cursor = c := by omega
    have hin : messages[(c-1).toNat] ∈ messages.filter (fun r => decide (start < r.cursor)) :=
      List.mem_filter.mpr ⟨List.getElem_mem hi, by rw [hnum]; exact decide_eq_true hlt.1⟩
    rw [← he, List.mem_filter, hnum] at hin
    have hle := of_decide_eq_true hin.2
    exact absurd (le_max_left c start) (not_le.mpr hle)
  · intro hle
    apply List.filter_congr
    intro r hr
    have hpos := (h.bounds r hr).1
    rw [decide_eq_decide]
    omega

theorem effectiveCursor_listed (groups : List FetchGroupMessagesInput) (g : String)
    (hg : ∃ q ∈ groups, q.groupId = g) :
    ∃ q ∈ groups, q.groupId = g ∧ effectiveCursor groups g = q.afterCursor.getD 0 := by
  cases hf : groups.reverse.find? (fun q => decide (q.groupId = g)) with
  | none =>
    obtain ⟨q, hq, hid⟩ := hg
    have hnot := List.find?_eq_none.mp hf q (List.mem_reverse.mpr hq)
    simp [hid] at hnot
  | some q =>
    refine ⟨q, List.mem_reverse.mp (List.mem_of_find?_eq_some hf), ?_, ?_⟩
    · simpa using List.find?_some hf
    · rw [effectiveCursor, hf, Option.map_some, Option.getD_some]

theorem passed_group_iff {records : List GroupMessageRecord} (h : DenseRecords records)
    (groups : List FetchGroupMessagesInput) (g : String) (hg : ∃ q ∈ groups, q.groupId = g) :
    (passed groups (storedFor records groups)).filter (fun r => decide (r.groupId = g)) =
      (DenseLog.part GroupMessageRecord.groupId g records).filter
        (fun r => decide (effectiveCursor groups g < r.cursor)) ↔
    AsksBack groups g (DenseLog.part GroupMessageRecord.groupId g records).length := by
  by_cases hne : DenseLog.part GroupMessageRecord.groupId g records = []
  · have hnone : (passed groups (storedFor records groups)).filter
        (fun r => decide (r.groupId = g)) = [] := by
      rw [List.filter_eq_nil_iff]
      intro r hr hid
      have hstored := (mem_storedFor _ _ _).mp (passing_subset _ _ hr)
      have hpart := (DenseLog.mem_part GroupMessageRecord.groupId g records r).mpr
        ⟨hstored.1, of_decide_eq_true hid⟩
      simp [hne] at hpart
    rw [hnone, hne]
    refine iff_of_true rfl (fun q hq => ?_)
    have hlow := List.find?_some hq
    rw [Bool.and_eq_true, decide_eq_true_eq, decide_eq_true_eq] at hlow
    exact le_max_of_le_right hlow.2.le
  · rw [passed_group h groups g hne, AsksBack]
    cases hf : groups.find? (fun q => decide (q.groupId = g) && decide (q.afterCursor.getD 0 <
        ((DenseLog.part GroupMessageRecord.groupId g records).length:Int))) with
    | none =>
      refine iff_of_true ?_ (by simp)
      symm
      rw [List.filter_eq_nil_iff]
      intro r hr
      obtain ⟨q, hq, hid, he⟩ := effectiveCursor_listed groups g hg
      have hhigh := List.find?_eq_none.mp hf q hq
      have hbound := ((h g).bounds r hr).2
      simp only [hid, decide_true, Bool.true_and, decide_eq_true_eq, not_lt] at hhigh
      rw [decide_eq_true_eq, he, not_lt]
      exact hbound.trans hhigh
    | some q =>
      have hlow := List.find?_some hf
      rw [Bool.and_eq_true, decide_eq_true_eq, decide_eq_true_eq] at hlow
      simp only [startOf_effective, Option.some.injEq, forall_eq']
      exact filter_max_iff (h g) _ _ hlow.2

section Steps

variable {S : CoordinatorStorage V σ}
  {limit : FetchLimit} {R : σ → MessageLog → Prop} (hS : KeepsLog S limit R)
include hS

theorem run_subscribeMany {s : System σ} (hc : Consistent R s)
    (groups : List FetchGroupMessagesInput) (hserved : limit groups.length = none) :
    ∃ s', Run.run (step S) [.register groups, .fetchBacklog s.registry.nextId,
        .finish s.registry.nextId] s = some s' ∧
      ∃ w, s'.subscriptions.get? s.registry.nextId = some w ∧ w.many = true ∧
        w.groups = groups ∧ w.stage = .opened ∧ Undisturbed s' w := by
  let w : Subscription := ⟨true, groups, .registered, s.published.length, s.appended.length⟩
  let backlog := storedFor s.appended groups
  let w' : Subscription := { w with stage := .fetched backlog, fetchedAt := s.appended.length }
  have hc₁ := step_consistent hS (.register groups) s (register groups s) hc rfl
  have hw : (register groups s).subscriptions.get? s.registry.nextId = some w :=
    (get?_insert _ _ _ _).trans (if_pos rfl)
  obtain ⟨storage, -, ⟨-, hrun⟩ | ⟨hrefused, -⟩⟩ := fetchBacklog_eq hS hc₁ s.registry.nextId w
  · have hw' : (fetchBacklog S s.registry.nextId w (register groups s)).subscriptions.get?
        s.registry.nextId = some w' := by
      rw [hrun]
      exact (get?_insert _ _ _ _).trans (if_pos rfl)
    have hsteps : Run.run (step S) [.register groups, .fetchBacklog s.registry.nextId,
        .finish s.registry.nextId] s = some (finish s.registry.nextId w' backlog
          (fetchBacklog S s.registry.nextId w (register groups s))) := by
      simp [Run.run, step, hw, hw', w, w']
    refine ⟨_, hsteps, { w' with stage := .opened },
      (get?_insert _ _ _ _).trans (if_pos rfl), rfl, rfl, rfl, ?_⟩
    rw [hrun]
    exact ⟨rfl, rfl⟩
  · exact absurd hserved hrefused

theorem run_subscribeMany_refused {s : System σ} (hc : Consistent R s)
    (groups : List FetchGroupMessagesInput) (hrefused : limit groups.length ≠ none) :
    ∃ s', Run.run (step S) [.register groups, .fetchBacklog s.registry.nextId] s = some s' ∧
      s'.subscriptions.get? s.registry.nextId = none := by
  let w : Subscription := ⟨true, groups, .registered, s.published.length, s.appended.length⟩
  have hc₁ := step_consistent hS (.register groups) s (register groups s) hc rfl
  have hw : (register groups s).subscriptions.get? s.registry.nextId = some w :=
    (get?_insert _ _ _ _).trans (if_pos rfl)
  obtain ⟨storage, -, ⟨hserved, -⟩ | ⟨-, hrun⟩⟩ := fetchBacklog_eq hS hc₁ s.registry.nextId w
  · exact absurd hserved hrefused
  · refine ⟨fetchBacklog S s.registry.nextId w (register groups s), ?_, ?_⟩
    · simp [Run.run, step, hw, w]
    · rw [hrun]
      exact (get?_shiftRemove _ _ _).trans (if_pos rfl)

theorem receivesAbove_iff {s : System σ} (hc : Consistent R s) (id : ℕ) (w : Subscription)
    (hw : s.subscriptions.get? id = some w) (hmany : w.many = true) (hopen : w.stage = .opened)
    (hquiet : Undisturbed s w) (g : String) (hg : ∃ q ∈ w.groups, q.groupId = g) :
    ReceivesAbove S s id w.groups g ↔ StoredAsksBack S s w.groups g := by
  have hdense := dense_appended hc
  have hstream : stream s w = storedFor s.appended w.groups := by
    rw [stream, liveOf, backlogOf, hquiet.1, hquiet.2, List.drop_length, List.take_length,
      List.filter_nil, List.append_nil]
  rw [ReceivesAbove, StoredAsksBack, channel_passed hc id w hw hmany hopen, hstream,
    stored_history hS hc g]
  simp only [Except.ok.injEq, exists_eq_left', passed_group_iff hdense w.groups g hg,
    (hdense g).pairwise, and_true]

end Steps

/-- Every call within the limit goes through, and where no post comes in between, each
group of the request is received exactly when the log asks back far enough. -/
structure ReceivesRequested (S : CoordinatorStorage V σ) (limit : FetchLimit) (storage : σ) :
    Prop where
  returns : ∀ events s groups, Run.run (step S) events (System.init storage) = some s →
    limit groups.length = none →
    ∃ s', Run.run (step S) [.register groups, .fetchBacklog s.registry.nextId,
        .finish s.registry.nextId] s = some s' ∧
      ∃ w, s'.subscriptions.get? s.registry.nextId = some w ∧ w.many = true ∧
        w.groups = groups ∧ w.stage = .opened ∧ Undisturbed s' w
  refused : ∀ events s groups, Run.run (step S) events (System.init storage) = some s →
    limit groups.length ≠ none →
    ∃ s', Run.run (step S) [.register groups, .fetchBacklog s.registry.nextId] s = some s' ∧
      s'.subscriptions.get? s.registry.nextId = none
  received : ∀ events s id w, Run.run (step S) events (System.init storage) = some s →
    s.subscriptions.get? id = some w → w.many = true → w.stage = .opened → Undisturbed s w →
    ((∀ q ∈ w.groups, ReceivesAbove S s id w.groups q.groupId) ↔
      ∀ q ∈ w.groups, StoredAsksBack S s w.groups q.groupId)

theorem receivesRequested {S : CoordinatorStorage V σ}
    {limit : FetchLimit} {R : σ → MessageLog → Prop}
    (hS : KeepsLog S limit R) (storage : σ) (h : R storage MessageLog.empty) :
    ReceivesRequested S limit storage where
  returns events s groups hrun hserved :=
    run_subscribeMany hS (run_consistent hS storage h events s hrun) groups hserved
  refused events s groups hrun hrefused :=
    run_subscribeMany_refused hS (run_consistent hS storage h events s hrun) groups hrefused
  received events s id w hrun hw hmany hopen hquiet := by
    have hc := run_consistent hS storage h events s hrun
    refine forall₂_congr (fun q hq => ?_)
    exact receivesAbove_iff hS hc id w hw hmany hopen hquiet q.groupId ⟨q, hq, rfl⟩

theorem repeated_groups (json : Sqlite.SerdeJson V) :
    ReceivesRequested (InMemory.storage : CoordinatorStorage V (InMemory.InMemoryInner V))
        noLimit InMemory.InMemoryInner.default ∧
      ReceivesRequested (Sqlite.storage json) Sqlite.messageLimit Sqlite.Database.new :=
  ⟨receivesRequested inMemory_keepsLog _ InMemory.HoldsLog.default,
    receivesRequested (sqlite_keepsLog json) _ Sqlite.HoldsLog.new⟩

def naming : List Event :=
  [.append ⟨"g", [1], 0⟩, .publishLive ⟨1, "g", [1], 0⟩, .append ⟨"g", [2], 0⟩,
    .publishLive ⟨2, "g", [2], 0⟩, .register [⟨"g", some 1⟩, ⟨"g", none⟩], .fetchBacklog 1,
    .finish 1]

def namingSubscription : Subscription :=
  ⟨true, [⟨"g", some 1⟩, ⟨"g", none⟩], .opened, 2, 2⟩

/-- The last entry asks for both messages; the channel has the second only. -/
theorem first_message_skipped :
    ∃ s, Run.run (step (InMemory.storage : CoordinatorStorage Bool _)) naming
        (System.init InMemory.InMemoryInner.default) = some s ∧
      s.subscriptions.get? 1 = some namingSubscription ∧ Undisturbed s namingSubscription ∧
      effectiveCursor namingSubscription.groups "g" = 0 ∧ channel s 1 = [⟨2, "g", [2], 0⟩] ∧
      ¬ReceivesAbove (InMemory.storage : CoordinatorStorage Bool _) s 1
        namingSubscription.groups "g" := by
  obtain ⟨s, hs⟩ := Option.isSome_iff_exists.mp (show (Run.run
    (step (InMemory.storage : CoordinatorStorage Bool _)) naming
    (System.init InMemory.InMemoryInner.default)).isSome = true by decide +kernel)
  have hrun : (Run.run (step (InMemory.storage : CoordinatorStorage Bool _)) naming
      (System.init InMemory.InMemoryInner.default)).map (fun s => ((s.published.length,
        s.appended.length), s.subscriptions.get? 1, channel s 1,
        ((InMemory.storage : CoordinatorStorage Bool _).fetchGroupMessages "g" none
          s.storage).1)) =
      some ((2, 2), some namingSubscription, [⟨2, "g", [2], 0⟩],
        .ok [⟨1, "g", [1], 0⟩, ⟨2, "g", [2], 0⟩]) := by
    decide +kernel
  rw [hs, Option.map_some, Option.some.injEq] at hrun
  obtain ⟨⟨hpublished, happended⟩, hget, hchannel, hfetch⟩ : (_ ∧ _) ∧ _ ∧ _ ∧ _ := by
    simpa only [Prod.mk.injEq] using hrun
  refine ⟨s, hs, hget, ⟨hpublished.symm, happended.symm⟩, by decide, hchannel, ?_⟩
  rintro ⟨messages, hmessages, hreceived, -⟩
  obtain rfl := Except.ok.inj (hfetch.symm.trans hmessages)
  rw [hchannel] at hreceived
  revert hreceived
  decide

end Cordn.Coordinator
