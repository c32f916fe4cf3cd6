import Cordn.ConcurrentPosts

/-!
# What a multi-group channel carries

Posts may race and a request may name a group twice. Messages can then be lost,
but the channel is never out of order: the watermarks alone see to that.
-/

set_option autoImplicit false

namespace Cordn.Coordinator
open IndexMap Watermark GroupLogOps

variable {V σ : Type}

/-- The `after_cursor` of the last entry for the group; none given counts as zero. -/
def effectiveCursor (groups : List FetchGroupMessagesInput) (g : String) : Int :=
  ((groups.reverse.find? (fun x => decide (x.groupId = g))).map
    (fun x => x.afterCursor.getD 0)).getD 0

theorem startOf_effective (groups : List FetchGroupMessagesInput) :
    startOf groups = effectiveCursor groups := by
  funext g
  rw [startOf, cursorsOf, cursorsOf_get?, effectiveCursor]
  simp

/-- The channel is a part of the backlog followed by a part of what was published
live since the registration, and what was fetched is not sent again. -/
structure BacklogFirst (s : System σ) (w : Subscription) (channel : List GroupMessageRecord) :
    Prop where
  split : ∃ replayed live, channel = replayed ++ live ∧
    replayed.Sublist (backlogOf s.appended w) ∧ live.Sublist (liveOf s.published w) ∧
    ∀ r ∈ live, r ∉ backlogOf s.appended w
  /-- The backlog is the one the call fetched. -/
  fetched : ∀ backlog, w.stage = .fetched backlog → backlog = backlogOf s.appended w

structure WellOrdered (S : CoordinatorStorage V σ) (s : System σ) (w : Subscription)
    (channel : List GroupMessageRecord) : Prop where
  requested : ∀ r ∈ channel, ∃ x ∈ w.groups, x.groupId = r.groupId
  stored : ∀ r ∈ channel, ∃ messages,
    (S.fetchGroupMessages r.groupId none s.storage).1 = .ok messages ∧ r ∈ messages ∧
      ∀ r' ∈ messages, r'.cursor = r.cursor → r' = r
  increasing : channel.Pairwise (fun a b => a.groupId = b.groupId → a.cursor < b.cursor)
  above : ∀ r ∈ channel, effectiveCursor w.groups r.groupId < r.cursor
  backlogFirst : BacklogFirst s w channel

theorem mem_groups (s : System σ) (w : Subscription) (r : GroupMessageRecord)
    (hr : r ∈ stream s w) : ∃ x ∈ w.groups, x.groupId = r.groupId := by
  rcases List.mem_append.mp hr with hr | hr
  · have hasked := ((mem_storedFor _ _ _).mp hr).2
    obtain ⟨x, hx, hid⟩ := List.any_eq_true.mp hasked
    rw [Bool.and_eq_true, decide_eq_true_eq] at hid
    exact ⟨x, hx, hid.1⟩
  · have hid := (List.mem_filter.mp hr).2
    exact (mem_groupIds _ _).mp (of_decide_eq_true hid)

theorem stored_unique {S : CoordinatorStorage V σ} {limit : FetchLimit} {R : σ → MessageLog → Prop}
    (hS : KeepsLog S limit R) {s : System σ} (hc : Consistent R s) (r : GroupMessageRecord)
    (hr : r ∈ s.appended) : ∃ messages,
      (S.fetchGroupMessages r.groupId none s.storage).1 = .ok messages ∧ r ∈ messages ∧
        ∀ r' ∈ messages, r'.cursor = r.cursor → r' = r := by
  refine ⟨_, stored_history hS hc r.groupId, (DenseLog.mem_part _ _ _ _).mpr ⟨hr, rfl⟩, ?_⟩
  intro r' hr' hcursor
  obtain ⟨hmem, hgroup⟩ := (DenseLog.mem_part _ _ _ _).mp hr'
  exact (dense_appended hc).inj r' r hmem hr hgroup hcursor

theorem passed_stream (s : System σ) (w : Subscription) :
    ∃ replayed live, passed w.groups (stream s w) = replayed ++ live ∧
      replayed.Sublist (backlogOf s.appended w) ∧ live.Sublist (liveOf s.published w) ∧
      ∀ r ∈ live, r ∉ backlogOf s.appended w := by
  refine ⟨_, _, passing_append _ _ _, passing_sublist _ _, passing_sublist _ _, ?_⟩
  intro r hr hfetched
  have hlt := lt_of_passing _ _ r hr
  exact absurd (num_le_marks _ _ r hfetched) (not_le.mpr hlt)

theorem channel_empty {R : σ → MessageLog → Prop} {s : System σ} (hc : Consistent R s) (id : ℕ)
    (w : Subscription) (hw : s.subscriptions.get? id = some w) (hmany : w.many = true)
    (hstage : w.stage ≠ .opened) : channel s id = [] ∧
      ∀ backlog, w.stage = .fetched backlog → backlog = backlogOf s.appended w := by
  obtain ⟨sub, hsub, hf⟩ := hc.subscribers id w hw
  have ht := hf.tracks
  rw [channel, hsub, Option.map_some, Option.getD_some]
  cases hst : w.stage with
  | registered =>
    simp only [Tracks, hmany, hst] at ht
    exact ⟨ht.sender, by simp⟩
  | fetched b =>
    simp only [Tracks, hmany, hst] at ht
    refine ⟨ht.2.sender, ?_⟩
    rintro backlog hb
    injection hb with hb
    exact hb ▸ ht.1
  | opened => exact absurd hst hstage

theorem wellOrdered {S : CoordinatorStorage V σ} {limit : FetchLimit} {R : σ → MessageLog → Prop}
    (hS : KeepsLog S limit R) {s : System σ} (hc : Consistent R s) (id : ℕ) (w : Subscription)
    (hw : s.subscriptions.get? id = some w) (hmany : w.many = true) :
    WellOrdered S s w (channel s id) := by
  by_cases hstage : w.stage = .opened
  · rw [channel_passed hc id w hw hmany hstage]
    have hin : ∀ r ∈ passed w.groups (stream s w), r ∈ stream s w :=
      fun r hr => passing_subset _ _ hr
    constructor
    · exact fun r hr => mem_groups s w r (hin r hr)
    · exact fun r hr => stored_unique hS hc r (stream_subset hc w (hin r hr))
    · exact increasing_passing _ _
    · intro r hr
      rw [← startOf_effective]
      exact lt_of_passing _ _ r hr
    · exact ⟨passed_stream s w, by simp [hstage]⟩
  · obtain ⟨hempty, hfetched⟩ := channel_empty hc id w hw hmany hstage
    rw [hempty]
    refine ⟨by simp, by simp, List.Pairwise.nil, by simp, ⟨[], [], rfl, ?_, ?_, by simp⟩, hfetched⟩
    · exact List.nil_sublist _
    · exact List.nil_sublist _

def ChannelsWellOrdered (S : CoordinatorStorage V σ) (storage : σ) : Prop :=
  ∀ events s id w, Run.run (step S) events (System.init storage) = some s →
    s.subscriptions.get? id = some w → w.many = true → WellOrdered S s w (channel s id)

theorem channels_well_ordered (json : Sqlite.SerdeJson V) :
    ChannelsWellOrdered (InMemory.storage : CoordinatorStorage V (InMemory.InMemoryInner V))
        InMemory.InMemoryInner.default ∧
      ChannelsWellOrdered (Sqlite.storage json) Sqlite.Database.new := by
  constructor
  · intro events s id w hrun hw hmany
    exact wellOrdered inMemory_keepsLog
      (run_consistent inMemory_keepsLog _ InMemory.HoldsLog.default events s hrun) id w hw hmany
  · intro events s id w hrun hw hmany
    exact wellOrdered (sqlite_keepsLog json)
      (run_consistent (sqlite_keepsLog json) _ Sqlite.HoldsLog.new events s hrun) id w hw hmany

end Cordn.Coordinator
