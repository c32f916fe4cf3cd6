import Mathlib.Data.List.Induction
import Cordn.GroupLogParity
import Cordn.SeparateLogs
import Cordn.ServerRetention

/-!
# What a fetch of messages returns

Whatever calls are in flight together, a fetch returns the messages that posts have
appended by then, in their order and with what was posted, and a poster is told the
place of its message among the group's.
-/

set_option autoImplicit false

namespace Cordn.Server
open Adapter DenseLog GroupLogOps
open CoordinatorOps (StorageOp NoMessage)
open Interleaving (ofCall)

variable {V σ L α β : Type}

structure Logs (S : CoordinatorStorage V σ) (limit : FetchLimit) (R : σ → MessageLog → Prop) :
    Prop where
  keeps : KeepsLog S limit R
  frame : ∀ op s log, NoMessage op → R s log → R (CoordinatorOps.perform S op s).2 log

theorem inMemory_logs :
    Logs (InMemory.storage : CoordinatorStorage V (InMemory.InMemoryInner V)) noLimit
      InMemory.HoldsLog where
  keeps := inMemory_keepsLog
  frame op s log hop h := by
    intro g
    rw [CoordinatorOps.inMemory_perform_groups op s hop]
    exact h g

theorem sqlite_logs (json : Sqlite.SerdeJson V) :
    Logs (Sqlite.storage json) Sqlite.messageLimit Sqlite.HoldsLog where
  keeps := sqlite_keepsLog json
  frame op db log hop h := by
    cases op with
    | keyPackages op =>
      obtain ⟨keyPackages, he⟩ := Sqlite.keyPackages_frame json op db
      refine ⟨?_, ?_⟩
      · exact ((congrArg (fun db => db.groupMessages.contents) he) :).trans h.messages
      · intro g
        exact ((congrArg (fun db => db.groupRouting.get? g) he) :).trans (h.routing g)
    | listAllKeyPackages => exact h
    | queues op =>
      obtain ⟨welcomes, joinRequests, he⟩ := Sqlite.queues_frame json op db
      refine ⟨?_, ?_⟩
      · exact ((congrArg (fun db => db.groupMessages.contents) he) :).trans h.messages
      · intro g
        exact ((congrArg (fun db => db.groupRouting.get? g) he) :).trans (h.routing g)
    | messages op => exact absurd rfl (hop op)

def messageOf (A : CoordinatorAdapter V σ L) (r : GroupMessageRecord) : GroupMessage :=
  ⟨r.cursor, r.groupId, A.externals.b64Encode r.opaqueMessage, r.createdAt⟩

def appendedRecord : Answered (ServerCall V) → Option GroupMessageRecord
  | ⟨_, .storage (.appendGroupMessage _), .ok record⟩ => some record
  | _ => none

/-- As it was posted, under the cursor that the storage has answered. -/
def postedMessage (A : CoordinatorAdapter V σ L) (groupId : String) :
    Job → GroupMessageRecord → Option GroupMessage
  | .call c (.postGroupMessage input), record =>
    if input.gid = groupId then (A.externals.b64Decode input.msg64).map
      (fun bytes => ⟨record.cursor, input.gid, A.externals.b64Encode bytes, c.now⟩)
    else none
  | _, _ => none

def appendedMessage (A : CoordinatorAdapter V σ L) (groupId : String) (x : Performed V) :
    Option GroupMessage :=
  (appendedRecord x.done).bind (postedMessage A groupId x.request)

def appended (A : CoordinatorAdapter V σ L) (groupId : String) (log : List (Performed V)) :
    List GroupMessage :=
  log.filterMap (appendedMessage A groupId)

section Runs

variable {A : CoordinatorAdapter V σ L} {limit : FetchLimit} {R : σ → MessageLog → Prop}
  {init : σ × L}

theorem posts_of_appends {P : Past V} {job : Job} {params : AppendGroupMessageParams}
    (h : Authorised A P job (.storage (.appendGroupMessage params))) :
    ∃ c input bytes, job = .call c (.postGroupMessage input) ∧
      A.externals.b64Decode input.msg64 = some bytes ∧ params = ⟨input.gid, bytes, c.now⟩ := by
  cases job with
  | cleanup maxAgeMs now => cases h
  | call c request =>
    obtain ⟨-, input, bytes, rfl, hbytes, rfl⟩ := h
    exact ⟨c, input, bytes, rfl, hbytes, rfl⟩

structure LogsAppended (A : CoordinatorAdapter V σ L) (R : σ → MessageLog → Prop)
    (init : σ × L) (events : List Event) (log : MessageLog) : Prop where
  holds : R (poolAfter A init events).shared.1 log
  messages : ∀ g, (log.messages g).map (messageOf A) =
    appended A g (performedSince A init [] events)
  count : ∀ g, log.count g ≤ events.length

theorem LogsAppended.length {events : List Event} {log : MessageLog}
    (h : LogsAppended A R init events log) (g : String) :
    (appended A g (performedSince A init [] events)).length = log.count g := by
  rw [← h.messages, List.length_map]
  rfl

theorem LogsAppended.room {events : List Event} {log : MessageLog}
    (h : LogsAppended A R init events log) (hroom : (events.length:Int)+1 < 2^63-1)
    (params : AppendGroupMessageParams) : Room (.append params) log := by
  have hcount := h.count params.groupId
  simp only [Room]
  omega

theorem logs_perform (hS : Logs A.storage limit R) (op : ServerCall V β) (state : σ × L)
    (log : MessageLog) (h : R state.1 log)
    (hother : ∀ params, (⟨β, op⟩ : Σ β : Type, ServerCall V β) ≠
      ⟨_, .storage (.appendGroupMessage params)⟩) :
    R ((machine A.storage A.rateLimiter).perform op state).2.1 log := by
  cases op with
  | check key now => exact h
  | publishLive record => exact h
  | storage op =>
    change R (op.perform A.storage state.1).2 log
    cases op with
    | appendGroupMessage params => exact absurd rfl (hother params)
    | fetchManyGroupMessages groups =>
      exact (hS.keeps.step (.fetchMany groups) state.1 log h trivial).2
    | _ =>
      rw [perform_request]
      exact hS.frame _ state.1 log (fun op => by simp [StorageCall.request]) h

theorem appendedRecord_other {op : ServerCall V β} {answer : β}
    (hother : ∀ params, (⟨β, op⟩ : Σ β : Type, ServerCall V β) ≠
      ⟨_, .storage (.appendGroupMessage params)⟩) :
    appendedRecord ⟨β, op, answer⟩ = none := by
  cases op with
  | check key now => rfl
  | publishLive record => rfl
  | storage op =>
    cases op with
    | appendGroupMessage params => exact absurd rfl (hother params)
    | _ => rfl

theorem LogsAppended.snoc (hS : Logs A.storage limit R)
    (hauthority : ∀ events, WithinAuthority A init events) {events : List Event}
    {log : MessageLog} (h : LogsAppended A R init events log)
    (hroom : (events.length:Int)+1 < 2^63-1) (event : Event) :
    ∃ log, LogsAppended A R init (events ++ [event]) log := by
  have hcount : ∀ g, log.count g ≤ (events ++ [event]).length := fun g =>
    (h.count g).trans (by simp)
  have hsnoc : ∀ g, appended A g (performedSince A init [] (events ++ [event])) =
      appended A g (performedSince A init [] events) ++
        appended A g (performedSince A init events [event]) := by
    intro g
    rw [performedSince_append, List.nil_append, appended, List.filterMap_append]
    rfl
  cases hpending : Interleaving.pending (poolAfter A init events) event with
  | none =>
    obtain ⟨-, hquiet, hsame⟩ := quiet_at hpending
    refine ⟨log, hsame ▸ h.holds, fun g => ?_, hcount⟩
    rw [hsnoc, hquiet, h.messages]
    exact (List.append_nil _).symm
  | some x =>
    obtain ⟨job, β, op, next⟩ := x
    obtain ⟨n, -, hperformed⟩ := performed_pending hpending
    have hshared := shared_after_pending hpending
    by_cases hother : ∀ params, (⟨β, op⟩ : Σ β : Type, ServerCall V β) ≠
        ⟨_, .storage (.appendGroupMessage params)⟩
    · refine ⟨log, hshared ▸ logs_perform hS op _ log h.holds hother, fun g => ?_, hcount⟩
      rw [hsnoc, hperformed, h.messages]
      simp [appended, appendedMessage, appendedRecord_other hother]
    · push Not at hother
      obtain ⟨params, hop⟩ := hother
      obtain ⟨rfl, hop⟩ := Sigma.mk.inj hop
      obtain rfl := eq_of_heq hop
      obtain ⟨P, hallowed⟩ := authorised_at hauthority hpending
      obtain ⟨c, input, bytes, rfl, hbytes, rfl⟩ := posts_of_appends hallowed
      obtain ⟨hstep, hnext⟩ := hS.keeps.step _ _ log h.holds
        (h.room hroom ⟨input.gid, bytes, c.now⟩)
      have hanswer : answered A init events (.storage (.appendGroupMessage
          ⟨input.gid, bytes, c.now⟩)) = .ok (log.next ⟨input.gid, bytes, c.now⟩) :=
        GroupLogOps.Answer.appended.inj hstep
      refine ⟨log.append ⟨input.gid, bytes, c.now⟩, hshared ▸ hnext, fun g => ?_, fun g => ?_⟩
      · rw [hsnoc, hperformed, hanswer, messages_append, List.map_append, h.messages]
        refine congrArg _ ?_
        by_cases hg : input.gid = g
        · simp [appended, appendedMessage, appendedRecord, postedMessage, hg, hbytes, messageOf,
            MessageLog.next]
        · simp [appended, appendedMessage, appendedRecord, postedMessage, hg]
      · have hold := h.count g
        rw [MessageLog.count, messages_append, List.length_append, List.length_append]
        refine Nat.add_le_add hold ?_
        split <;> simp

theorem logsAppended (hS : Logs A.storage limit R) (hinit : R init.1 MessageLog.empty)
    (hauthority : ∀ events, WithinAuthority A init events) (events : List Event)
    (hmany : (events.length:Int) < 2^63-1) : ∃ log, LogsAppended A R init events log := by
  induction events using List.reverseRecOn with
  | nil => exact ⟨MessageLog.empty, hinit, fun _ => rfl, fun _ => Nat.le_refl _⟩
  | append_singleton events event ih =>
    rw [List.length_append, List.length_singleton] at hmany
    push_cast at hmany
    obtain ⟨log, hlog⟩ := ih (by omega)
    exact hlog.snoc hS hauthority hmany event

end Runs

/-- The messages of a group are numbered as they are appended, a post that is answered has
appended its message under the cursor it is told, and a fetch that is answered returns the
messages appended by then to each of its groups above its cursor. -/
structure MessagesExact (A : CoordinatorAdapter V σ L) (init : σ × L) (events : List Event) :
    Prop where
  numbered : ∀ g, Numbered GroupMessage.cursor (appended A g (performedSince A init [] events))
  posted : ∀ n c input output, answerTo A init events (.advance n) =
      some (.call c (.postGroupMessage input), .replied (.ok (.posted output))) →
    ∃ first x behind bytes, performedSince A init [] events = first ++ x::behind ∧ x.call = n ∧
      A.externals.b64Decode input.msg64 = some bytes ∧ appendedMessage A input.gid x =
        some ⟨output.cursor, input.gid, A.externals.b64Encode bytes, c.now⟩ ∧
      output = ⟨((appended A input.gid first).length:Int)+1, input.gid, c.now⟩
  fetched : ∀ n c groups messages, answerTo A init events (.advance n) =
      some (.call c (.fetchManyGroupMessages groups), .replied (.ok (.messages messages))) →
    messages = groups.flatMap (fun g =>
      (appended A g.groupId (performedSince A init [] events)).filter
        (fun m => decide (g.afterCursor.getD 0 < m.cursor)))

section Exact

variable {A : CoordinatorAdapter V σ L} {limit : FetchLimit} {R : σ → MessageLog → Prop}
  {init : σ × L} (hS : Logs A.storage limit R) (hinit : R init.1 MessageLog.empty)
  (hauthority : ∀ events, WithinAuthority A init events)

include hS hinit hauthority

theorem posted_exact {events : List Event} (hmany : (events.length:Int)+1 < 2^63-1) {n : ℕ}
    {c : Caller} {input : PostGroupMessageInput} {output : PostGroupMessageOutput}
    (h : answerTo A init events (.advance n) =
      some (.call c (.postGroupMessage input), .replied (.ok (.posted output)))) :
    ∃ first x behind bytes, performedSince A init [] events = first ++ x::behind ∧ x.call = n ∧
      A.externals.b64Decode input.msg64 = some bytes ∧ appendedMessage A input.gid x =
        some ⟨output.cursor, input.gid, A.externals.b64Encode bytes, c.now⟩ ∧
      output = ⟨((appended A input.gid first).length:Int)+1, input.gid, c.now⟩ := by
  obtain ⟨m, passed, behind, hm, hown, hreplies⟩ := replied_own h
  obtain rfl := Interleaving.Event.advance.inj hm
  obtain ⟨_, hposted, houtput⟩ := hreplies.map
  obtain rfl := Reply.posted.inj houtput
  obtain ⟨bytes, record, hbytes, rfl, rfl⟩ := replies_post A hposted
  obtain ⟨β, op, next, -, hlast⟩ := last_own h
  -- the append lies before the step that reaches the subscribers
  rw [hlast] at hown
  have hbefore : ofCall n (performedSince A init [] events) =
      [⟨_, .check c.clientPubkey c.limiterNow, passed⟩,
        ⟨_, .storage (.appendGroupMessage ⟨input.gid, bytes, c.now⟩), .ok record⟩] :=
    List.dropLast_concat.symm.trans (congrArg List.dropLast hown)
  obtain ⟨⟨m, job, done⟩, hown, hdone⟩ :=
    List.mem_map.mp (hbefore ▸ List.mem_cons_of_mem _ List.mem_cons_self)
  obtain ⟨hx, hcall⟩ := List.mem_filter.mp hown
  obtain rfl : m = n := of_decide_eq_true hcall
  obtain rfl : done = _ := hdone
  obtain ⟨first, behind, hsplit⟩ := List.append_of_mem hx
  have hallowed := hauthority events first _ behind hsplit
  obtain ⟨c', input', bytes', rfl, hbytes', hparams⟩ := posts_of_appends hallowed
  obtain ⟨hgroup, hmessage, hnow⟩ := AppendGroupMessageParams.mk.inj hparams
  -- where it was performed, the log held what had been appended by then
  obtain ⟨before, event, rest, next, rfl, rfl, -, -, hanswer⟩ := performedSince_split hsplit
  have hshort : (before.length:Int)+1 < 2^63-1 := by
    rw [List.length_append] at hmany
    push_cast at hmany
    omega
  obtain ⟨log, hlog⟩ := logsAppended hS hinit hauthority before (by omega)
  obtain ⟨hstep, -⟩ := hS.keeps.step _ _ log hlog.holds
    (hlog.room hshort ⟨input.gid, bytes, c.now⟩)
  have hnext : record = log.next ⟨input.gid, bytes, c.now⟩ :=
    Except.ok.inj (hanswer.trans (GroupLogOps.Answer.appended.inj hstep))
  refine ⟨_, _, behind, bytes, hsplit, rfl, hbytes, ?_, ?_⟩
  · simp [appendedMessage, appendedRecord, postedMessage, ← hgroup, hbytes', ← hmessage, ← hnow]
  · rw [hlog.length, hnext]
    rfl

theorem messagesExact (events : List Event) (hmany : (events.length:Int)+1 < 2^63-1) :
    MessagesExact A init events := by
  obtain ⟨log, hlog⟩ := logsAppended hS hinit hauthority events (by omega)
  constructor
  · intro g
    have hnumbered := messages_numbered log g
    rw [← hlog.messages, Numbered, List.map_map, List.length_map]
    exact hnumbered
  · exact fun n c input output h => posted_exact hS hinit hauthority hmany h
  · intro n c groups messages hfetched
    obtain ⟨-, β, op, -, -, records, hop, hreply⟩ := replied_since events _ rfl hfetched
    obtain ⟨rfl, hcall⟩ := Sigma.mk.inj hop
    obtain ⟨rfl, hanswer⟩ := Prod.mk.inj (eq_of_heq hcall)
    obtain rfl := Reply.messages.inj hreply
    have hrecords : log.fetchMany groups = records := by
      have hstep := (hS.keeps.step (.fetchMany groups) _ log hlog.holds trivial).1
      rw [within] at hstep
      split at hstep
      · cases hanswer.symm.trans (GroupLogOps.Answer.fetched.inj hstep)
      · exact (Except.ok.inj (hanswer.symm.trans (GroupLogOps.Answer.fetched.inj hstep))).symm
    rw [← hrecords, MessageLog.fetchMany, List.map_flatMap]
    refine List.flatMap_congr fun g _ => ?_
    rw [fetch_eq, ← hlog.messages, List.filter_map]
    rfl

end Exact

theorem messages_exact (json : Sqlite.SerdeJson V) (hj : json.RoundTrips)
    (rateLimiter : RateLimiter L) (quota : KeyPackageQuotaConfig) (externals : Externals V) (l : L)
    (events : List Event) (hmany : (events.length:Int)+1 < 2^63-1) :
    MessagesExact ⟨InMemory.storage, rateLimiter, quota, externals⟩
        (InMemory.InMemoryInner.default, l) events ∧
      MessagesExact ⟨Sqlite.storage json, rateLimiter, quota, externals⟩
        (Sqlite.Database.new, l) events :=
  ⟨messagesExact inMemory_logs InMemory.HoldsLog.default
      (withinAuthority inMemory_backed inMemory_knows) events hmany,
    messagesExact (sqlite_logs json) Sqlite.HoldsLog.new
      (withinAuthority (sqlite_backed hj) (sqlite_knows hj)) events hmany⟩

/-- Bob's post starts behind Alice's and overtakes it; both are appended, and neither has
been answered. -/
def crossedPosts : List Event :=
  [.start (.call (sampleCaller alice) (.postGroupMessage ⟨"AQID", "g"⟩)),
    .start (.call (sampleCaller bob) (.postGroupMessage ⟨"BAUG", "g"⟩)),
    .advance 0, .advance 1, .advance 1, .advance 0]

example : appended memoryAdapter "g"
      (performedSince memoryAdapter (InMemory.InMemoryInner.default, ()) [] crossedPosts) =
    [⟨1, "g", "BAUG", 1700000001⟩, ⟨2, "g", "AQID", 1700000001⟩] := by
  decide +kernel

theorem messages_exact_sample :
    MessagesExact memoryAdapter (InMemory.InMemoryInner.default, ()) crossedPosts ∧
      MessagesExact sqliteAdapter (Sqlite.Database.new, ()) crossedPosts :=
  messages_exact jsonText jsonText_roundTrips unlimited ⟨10, 1⟩ sampleExternals () crossedPosts
    (by decide)

end Cordn.Server
