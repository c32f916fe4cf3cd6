import Cordn.Sessions
import Cordn.TakeByIdentity

/-!
# What a streaming call writes under serialized posts

As long as no post starts before the one before it is done, a call writes the
messages it asked for in order, without a gap and none twice, whenever it starts
and however it ends. A call that received all of its channel between posts has
written all of them.
-/

set_option autoImplicit false

namespace Cordn.Coordinator
open IndexMap Watermark GroupLogOps

variable {V σ : Type}

/-- What a request asks for of the messages stored first, then of the later ones. -/
def streamFrom (appended : List GroupMessageRecord) (fetchedAt : ℕ)
    (groups : List FetchGroupMessagesInput) : List GroupMessageRecord :=
  storedFor (appended.take fetchedAt) groups ++ (appended.drop fetchedAt).filter (requested groups)

theorem streamFrom_grows {appended appended' : List GroupMessageRecord} {fetchedAt : ℕ}
    (hle : fetchedAt ≤ appended.length) (h : appended <+: appended')
    (groups : List FetchGroupMessagesInput) :
    streamFrom appended fetchedAt groups <+: streamFrom appended' fetchedAt groups := by
  obtain ⟨more, rfl⟩ := h
  rw [streamFrom, streamFrom, List.take_append_of_le_length hle,
    List.drop_append_of_le_length hle, List.filter_append, ← List.append_assoc]
  exact List.prefix_append _ _

theorem passed_all {appended : List GroupMessageRecord} (hdense : DenseRecords appended)
    (w : Subscription) (hd : DistinctGroups w.groups) (horder : w.registeredAt ≤ w.fetchedAt)
    (hfetched : w.fetchedAt ≤ appended.length) :
    passed w.groups (backlogOf appended w ++ liveOf appended w) =
      streamFrom appended w.fetchedAt w.groups := by
  have hstored : DenseRecords (appended.take w.fetchedAt) := by
    rw [← List.take_append_drop w.fetchedAt appended] at hdense
    exact hdense.of_prefix
  rw [passed, passing_append, passing_live hdense w hd horder hfetched, streamFrom]
  exact congrArg (· ++ _) (passed_storedFor hstored hd)

theorem channel_within {R : σ → MessageLog → Prop} {s : System σ} (hc : Consistent R s)
    (ho : InOrder s) (id : ℕ) (w : Subscription) (hw : s.subscriptions.get? id = some w)
    (hmany : w.many = true) (hopen : w.stage = .opened) (hd : DistinctGroups w.groups) :
    w.fetchedAt ≤ s.appended.length ∧
      channel s id <+: streamFrom s.appended w.fetchedAt w.groups := by
  obtain ⟨sub, -, hf⟩ := hc.subscribers id w hw
  have hlive : liveOf s.published w <+: liveOf s.appended w := by
    rw [liveOf, liveOf, ← ho.history, List.drop_append_of_le_length hf.registeredAt,
      List.filter_append]
    exact List.prefix_append _ _
  refine ⟨hf.fetchedAt, ?_⟩
  rw [channel_passed hc id w hw hmany hopen, ← passed_all (dense_appended hc) w hd hf.order
    hf.fetchedAt, stream]
  exact passed_grows w.groups ((List.prefix_append_right_inj _).mpr hlive)

def Accounted (externals : Adapter.Externals V) (s : System σ) (x : Session) : Prop :=
  ∃ fetchedAt ≤ s.appended.length,
    x.written <+: (streamFrom s.appended fetchedAt x.groups).map (wireMessage externals)

theorem Accounted.grows {externals : Adapter.Externals V} {s s' : System σ} {x y : Session}
    (h : Accounted externals s x) (happended : s.appended <+: s'.appended)
    (hgroups : y.groups = x.groups) (hwritten : y.written = x.written) :
    Accounted externals s' y := by
  obtain ⟨fetchedAt, hle, hwithin⟩ := h
  refine ⟨fetchedAt, hle.trans happended.length_le, ?_⟩
  rw [hgroups, hwritten]
  exact hwithin.trans ((streamFrom_grows hle happended x.groups).map _)

theorem accounted_nil (externals : Adapter.Externals V) (s : System σ) (x : Session)
    (hwritten : x.written = []) : Accounted externals s x :=
  ⟨0, Nat.zero_le _, hwritten ▸ List.nil_prefix⟩

section Runs

variable {S : CoordinatorStorage V σ}
  {limit : FetchLimit} {R : σ → MessageLog → Prop} (hS : KeepsLog S limit R)
  {externals : Adapter.Externals V}

theorem accounted_running {t : Streaming σ} (h : Delivering R externals t)
    (ho : InOrder t.system) (id : ℕ) (x : Session) (hx : t.sessions.get? id = some x)
    (hrunning : x.phase.Running) (hd : DistinctGroups x.groups) :
    Accounted externals t.system x := by
  obtain ⟨w, hw, hmany, hgroups, hopen⟩ := (h.stand id x hx).running hrunning
  obtain ⟨hle, hwithin⟩ := channel_within h.consistent ho id w hw hmany hopen (hgroups ▸ hd)
  exact ⟨w.fetchedAt, hle, ((h.wrote id x hx).running hrunning).trans (hgroups ▸ hwithin.map _)⟩

theorem streams_sessions {event : StreamEvent} {t t' : Streaming σ}
    (hstep : Streams S externals t event t') (id : ℕ) (y : Session)
    (hy : t'.sessions.get? id = some y) :
    (subscribeChecks y.groups = .ok () ∧ y.written = []) ∨
      ∃ x, t.sessions.get? id = some x ∧ y.groups = x.groups ∧
        (y.phase.Running ∨ y.written = x.written) := by
  have hinsert : ∀ (id' : ℕ) (x z : Session), t.sessions.get? id' = some x →
      (t.sessions.insert id' z).get? id = some y → z.groups = x.groups →
      z.phase.Running ∨ z.written = x.written →
      ∃ x, t.sessions.get? id = some x ∧ y.groups = x.groups ∧
        (y.phase.Running ∨ y.written = x.written) := by
    intro id' x z hx hz hgroups hkept
    rw [get?_insert] at hz
    split at hz
    · rename_i he
      obtain rfl := Option.some.inj hz
      exact ⟨x, he ▸ hx, hgroups, hkept⟩
    · exact ⟨y, hz, rfl, Or.inr rfl⟩
  cases hstep with
  | coordinator | refused | fetched | waits => exact Or.inr ⟨y, hy, rfl, Or.inr rfl⟩
  | subscribe groups hok =>
    rw [get?_insert] at hy
    split at hy
    · obtain rfl := Option.some.inj hy
      exact Or.inl ⟨hok, rfl⟩
    · exact Or.inr ⟨y, hy, rfl, Or.inr rfl⟩
  | receive id' x record accepted hx hphase hrecord =>
    obtain ⟨hgroups, hrunning⟩ := receive_keeps externals (some record) accepted x hphase
    exact Or.inr (hinsert id' x _ hx hy hgroups (Or.inl hrunning))
  | drained id' x accepted hx hphase hgone =>
    exact Or.inr (hinsert id' x _ hx hy rfl (Or.inr rfl))
  | failed id' x | start id' x | leaves id' x | deactivate id' x | close id' x =>
    exact Or.inr (hinsert id' x _ ‹_› hy rfl (Or.inr rfl))
  | ends id' x turn phase system hx => exact Or.inr (hinsert id' x _ hx hy rfl (Or.inr rfl))

def SerializedPosts : StreamEvent → Streaming σ → Prop
  | .coordinator event, t => Serialized event t.system
  | _, _ => True

instance : (event : StreamEvent) → (t : Streaming σ) → Decidable (SerializedPosts event t)
  | .coordinator event, t => inferInstanceAs (Decidable (Serialized event t.system))
  | .subscribe _, _ | .turn _ _, _ => .isTrue trivial

structure InAccount (R : σ → MessageLog → Prop) (externals : Adapter.Externals V)
    (t : Streaming σ) : Prop where
  delivering : Delivering R externals t
  inOrder : InOrder t.system
  accounted : ∀ id x, t.sessions.get? id = some x → DistinctGroups x.groups →
    Accounted externals t.system x

include hS in
theorem streams_inAccount {event : StreamEvent} {t t' : Streaming σ} (h : InAccount R externals t)
    (hserial : SerializedPosts event t) (hstep : Streams S externals t event t') :
    InAccount R externals t' := by
  have hdelivering := streams_delivering hS h.delivering hstep
  have happended : t.system.appended <+: t'.system.appended := by
    rcases streams_system hstep with hsame | ⟨e, he, -⟩
    · exact hsame ▸ List.prefix_refl _
    · exact step_appended he
  have horder : InOrder t'.system := by
    rcases streams_system hstep with hsame | ⟨e, he, happend⟩
    · exact hsame ▸ h.inOrder
    · refine step_inOrder hS e t.system t'.system h.delivering.consistent h.inOrder ?_ he
      cases e with
      | append params =>
        obtain rfl := happend params rfl
        exact hserial
      | _ => trivial
  refine ⟨hdelivering, horder, fun id y hy hd => ?_⟩
  rcases streams_sessions hstep id y hy with ⟨-, hnil⟩ | ⟨x, hx, hgroups, hrunning | hwritten⟩
  · exact accounted_nil externals _ y hnil
  · exact accounted_running hdelivering horder id y hy hrunning hd
  · exact (h.accounted id x hx (hgroups ▸ hd)).grows happended hgroups hwritten

include hS in
theorem run_inAccount (storage : σ) (h : R storage MessageLog.empty) (events : List StreamEvent)
    (t : Streaming σ)
    (hserial : Run.Every SerializedPosts (streamStep S externals) events (Streaming.init storage))
    (hrun : Run.run (streamStep S externals) events (Streaming.init storage) = some t) :
    InAccount R externals t := by
  refine Run.every_invariant (streamStep S externals) SerializedPosts (InAccount R externals)
    (fun event t t' ht hok hstep => streams_inAccount hS ht hok (streamStep_streams hstep)) events
    _ t ⟨Delivering.init externals storage h, ⟨rfl, Nat.zero_le _⟩, fun id x hx => ?_⟩ hserial hrun
  simp [Streaming.init] at hx

theorem accounted_drained {t : Streaming σ} (h : InAccount R externals t) (id : ℕ) (x : Session)
    (hx : t.sessions.get? id = some x) (hd : DistinctGroups x.groups)
    (hphase : x.phase = .streaming) (hidle : t.system.posting = [])
    (hall : x.received = (channel t.system id).length) :
    ∃ fetchedAt ≤ t.system.appended.length,
      x.written =
        (streamFrom t.system.appended fetchedAt x.groups).map (wireMessage externals) := by
  have hdelivering := h.delivering
  obtain ⟨w, hw, hmany, hgroups, hopen⟩ := (hdelivering.stand id x hx).running (Or.inl hphase)
  obtain ⟨hle, -⟩ := channel_within hdelivering.consistent h.inOrder id w hw hmany hopen
    (hgroups ▸ hd)
  have hchannel := channel_eq hdelivering.consistent h.inOrder hidle id w hw hmany hopen
    (hgroups ▸ hd)
  refine ⟨w.fetchedAt, hle, ?_⟩
  rw [((hdelivering.wrote id x hx).streaming hphase).2, hall, List.take_length, hchannel, streamOf,
    hgroups, streamFrom]

end Runs

/-- In every run of serialized posts. -/
structure WritesInOrder (S : CoordinatorStorage V σ) (externals : Adapter.Externals V)
    (storage : σ) : Prop where
  beginning : ∀ events t id x,
    Run.Every SerializedPosts (streamStep S externals) events (Streaming.init storage) →
    Run.run (streamStep S externals) events (Streaming.init storage) = some t →
    t.sessions.get? id = some x → DistinctGroups x.groups → Accounted externals t.system x
  /-- Between posts a call that received its whole channel has written all of it. -/
  whole : ∀ events t id x,
    Run.Every SerializedPosts (streamStep S externals) events (Streaming.init storage) →
    Run.run (streamStep S externals) events (Streaming.init storage) = some t →
    t.sessions.get? id = some x → DistinctGroups x.groups → x.phase = .streaming →
    t.system.posting = [] → x.received = (channel t.system id).length →
    ∃ fetchedAt ≤ t.system.appended.length,
      x.written = (streamFrom t.system.appended fetchedAt x.groups).map (wireMessage externals)
  /-- The history is what the backend stores. -/
  history : ∀ events t g,
    Run.run (streamStep S externals) events (Streaming.init storage) = some t →
    (S.fetchGroupMessages g none t.system.storage).1 =
      .ok (DenseLog.part GroupMessageRecord.groupId g t.system.appended)

theorem run_delivering {S : CoordinatorStorage V σ} {limit : FetchLimit} {R : σ → MessageLog → Prop}
    (hS : KeepsLog S limit R) (externals : Adapter.Externals V) (storage : σ)
    (h : R storage MessageLog.empty) (events : List StreamEvent) (t : Streaming σ)
    (hrun : Run.run (streamStep S externals) events (Streaming.init storage) = some t) :
    Delivering R externals t :=
  Run.run_invariant (streamStep S externals) (Delivering R externals)
    (fun _ _ _ ht hstep => streams_delivering hS ht (streamStep_streams hstep)) events _ t
    (Delivering.init externals storage h) hrun

theorem writesInOrder {S : CoordinatorStorage V σ} {limit : FetchLimit} {R : σ → MessageLog → Prop}
    (hS : KeepsLog S limit R) (externals : Adapter.Externals V) (storage : σ)
    (h : R storage MessageLog.empty) : WritesInOrder S externals storage where
  beginning events t id x hserial hrun hx hd :=
    (run_inAccount hS storage h events t hserial hrun).accounted id x hx hd
  whole events t id x hserial hrun hx hd hphase hidle hall :=
    accounted_drained (run_inAccount hS storage h events t hserial hrun) id x hx hd hphase hidle
      hall
  history events t g hrun :=
    stored_history hS (run_delivering hS externals storage h events t hrun).consistent g

theorem streams_written_in_order (json : Sqlite.SerdeJson V) (externals : Adapter.Externals V) :
    WritesInOrder (InMemory.storage : CoordinatorStorage V (InMemory.InMemoryInner V)) externals
        InMemory.InMemoryInner.default ∧
      WritesInOrder (Sqlite.storage json) externals Sqlite.Database.new :=
  ⟨writesInOrder inMemory_keepsLog externals _ InMemory.HoldsLog.default,
    writesInOrder (sqlite_keepsLog json) externals _ Sqlite.HoldsLog.new⟩

/-- The second message is posted between the backlog fetch and the start of a call, and
both are passed on. -/
def streamedPosts : List StreamEvent :=
  [.coordinator (.append ⟨"g", [1, 2, 3], 100⟩),
    .coordinator (.publishLive ⟨1, "g", [1, 2, 3], 100⟩), .subscribe [⟨"g", none⟩],
    .turn 1 .fetchBacklog, .coordinator (.append ⟨"g", [4, 5, 6], 200⟩),
    .coordinator (.publishLive ⟨2, "g", [4, 5, 6], 200⟩), .turn 1 .start, .turn 1 (.receive true),
    .turn 1 (.receive true)]

def memoryRun (events : List StreamEvent) : Option (Streaming (InMemory.InMemoryInner String)) :=
  Run.run (streamStep InMemory.storage Adapter.sampleExternals) events
    (Streaming.init InMemory.InMemoryInner.default)

theorem streamedPosts_runs : (memoryRun streamedPosts).isSome = true := by decide +kernel

theorem streams_written_in_order_sample :
    ∃ fetchedAt ≤ ((memoryRun streamedPosts).get streamedPosts_runs).system.appended.length,
      [⟨1, "g", "AQID", 100⟩, ⟨2, "g", "BAUG", 200⟩] =
        (streamFrom ((memoryRun streamedPosts).get streamedPosts_runs).system.appended fetchedAt
          [⟨"g", none⟩]).map (wireMessage Adapter.sampleExternals) :=
  (streams_written_in_order Adapter.jsonText Adapter.sampleExternals).1.whole streamedPosts _ 1
    ⟨[⟨"g", none⟩], .streaming, 2, [⟨1, "g", "AQID", 100⟩, ⟨2, "g", "BAUG", 200⟩], true, false,
      true⟩
    (by decide +kernel) (Option.some_get streamedPosts_runs).symm (by decide +kernel)
    (List.nodup_singleton _) rfl (by decide +kernel) (by decide +kernel)

end Cordn.Coordinator
