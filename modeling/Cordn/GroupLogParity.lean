import Cordn.InMemoryGroupLogs
import Cordn.SqliteGroupLogs

/-!
# Correctness of the group logs

Both backends answer as the history of appends prescribes, but for the fetches that
bind more variables than SQLite takes, and a client that polls from the last cursor
it saw reads the whole log once, in order.
-/

set_option autoImplicit false

namespace Cordn.GroupLogOps
open InMemory Sqlite DenseLog

variable {V σ : Type}

structure KeepsLog (S : CoordinatorStorage V σ) (limit : FetchLimit) (R : σ → MessageLog → Prop) :
    Prop where
  step : ∀ op s log, R s log → Room op log →
    (step S op s).1 = within limit op (logStep op log).1 ∧ R (step S op s).2 (logStep op log).2

theorem inMemory_keepsLog :
    KeepsLog (InMemory.storage : CoordinatorStorage V (InMemoryInner V)) noLimit
      InMemory.HoldsLog where
  step op s log h hroom := by
    rw [within_noLimit]
    exact InMemory.step_holdsLog op s log h hroom

theorem sqlite_keepsLog (json : SerdeJson V) :
    KeepsLog (Sqlite.storage json) Sqlite.messageLimit Sqlite.HoldsLog :=
  ⟨Sqlite.step_holdsLog json⟩

structure Poller where
  received : List GroupMessageRecord
  lastCursor : Option Int

def Poller.new : Poller := ⟨[], none⟩

def Poller.receive (p : Poller) : Except StorageError (List GroupMessageRecord) → Poller
  | .error _ => p
  | .ok records =>
    ⟨p.received ++ records, (records.getLast?.map GroupMessageRecord.cursor).or p.lastCursor⟩

inductive Event where
  | op (op : Op)
  | poll
  deriving DecidableEq, Repr

def pollStep (S : CoordinatorStorage V σ) (g : String) : Event → σ × Poller → Unit × σ × Poller
  | .op op, (s, p) => ((), (step S op s).2, p)
  | .poll, (s, p) =>
    let (result, s) := S.fetchGroupMessages g p.lastCursor s
    ((), s, p.receive result)

def opsOf : List Event → List Op
  | [] => []
  | .op op::events => op::opsOf events
  | .poll::events => opsOf events

structure Seen (g : String) (p : Poller) (log : MessageLog) (n : ℕ) : Prop where
  received : p.received = (log.messages g).take n
  lastCursor : p.lastCursor = if n = 0 then none else some (n:Int)
  within : n ≤ log.count g

theorem Seen.fetch {g : String} {p : Poller} {log : MessageLog} {n : ℕ} (h : Seen g p log n) :
    log.fetch g p.lastCursor = (log.messages g).drop n := by
  rw [fetch_eq, h.lastCursor, ← (messages_numbered log g).filter_above n]
  by_cases hn : n = 0 <;> simp [hn]

theorem Seen.poll {g : String} {p : Poller} {log : MessageLog} {n : ℕ} (h : Seen g p log n) :
    Seen g (p.receive (.ok (log.fetch g p.lastCursor))) log (log.count g) := by
  rw [h.fetch]
  refine ⟨?_, ?_, le_refl _⟩
  · simp [Poller.receive, h.received, MessageLog.count]
  · simp only [Poller.receive]
    by_cases hd : n = log.count g
    · have hnil : (log.messages g).drop n = [] := List.drop_eq_nil_of_le (by
        rw [hd, MessageLog.count])
      rw [hnil, h.lastCursor, hd]
      rfl
    · have hlt : n < (log.messages g).length := by
        have hw := h.within
        rw [MessageLog.count] at hd hw
        omega
      obtain ⟨r, hr⟩ : ∃ r, (log.messages g).getLast? = some r := by
        cases hl : (log.messages g).getLast? with
        | none => simp [List.getLast?_eq_none_iff.mp hl] at hlt
        | some r => exact ⟨r, rfl⟩
      have hlast : ((log.messages g).drop n).getLast? = some r := by
        rw [List.getLast?_drop, if_neg (by omega), hr]
      rw [hlast, Option.map_some, Option.some_or, (messages_numbered log g).last r hr,
        if_neg (by rw [MessageLog.count]; omega), MessageLog.count]

theorem Seen.append {g : String} {p : Poller} {log : MessageLog} {n : ℕ} (h : Seen g p log n)
    (op : Op) : Seen g p (logStep op log).2 n := by
  cases op with
  | append params =>
    refine ⟨?_, h.lastCursor, ?_⟩
    · have hw := h.within
      rw [MessageLog.count] at hw
      rw [h.received, logStep, messages_append, List.take_append_of_le_length hw]
    · rw [logStep, count_append]
      exact Nat.le_add_right_of_le h.within
  | fetch g c => exact h
  | fetchMany gs => exact h

theorem poll_run {S : CoordinatorStorage V σ} {limit : FetchLimit} {R : σ → MessageLog → Prop}
    (hS : KeepsLog S limit R) (g : String) (events : List Event) (s : σ) (p : Poller)
    (log : MessageLog) (n : ℕ)
    (hR : R s log) (hp : Seen g p log n) (hroom : Run.Along Room logStep (opsOf events) log) :
    R (Run.after (pollStep S g) events (s, p)).1 (Run.after logStep (opsOf events) log) ∧
      ∃ m, Seen g (Run.after (pollStep S g) events (s, p)).2
        (Run.after logStep (opsOf events) log) m := by
  induction events generalizing s p log n with
  | nil => exact ⟨hR, n, hp⟩
  | cons event events ih =>
    cases event with
    | op op =>
      have hnext := (hS.step op s log hR hroom.1).2
      exact ih _ _ _ n hnext (hp.append op) hroom.2
    | poll =>
      obtain ⟨hres, hnext⟩ := hS.step (.fetch g p.lastCursor) s log hR trivial
      have hpoll : (S.fetchGroupMessages g p.lastCursor s).1 =
          .ok (log.fetch g p.lastCursor) := Answer.fetched.inj hres
      have hseen := hp.poll
      rw [← hpoll] at hseen
      exact ih _ _ _ _ hnext hseen hroom

/-- After any run that ends with a poll the client has received the group's
whole log, every message once and in order. -/
def PollsWholeLog (S : CoordinatorStorage V σ) (init : σ) : Prop :=
  ∀ (g : String) (events : List Event),
    (∀ g', ((appendsTo g' (opsOf events)).length:Int) < 2^63-1) →
    (Run.after (pollStep S g) (events ++ [.poll]) (init, Poller.new)).2.received =
      numbered g (appendsTo g (opsOf events))

theorem followsHistory_after (ops : List Op) :
    Run.answers logStep ops MessageLog.empty = Run.answers historyStep ops [] ∧
      FollowsHistory (Run.after logStep ops MessageLog.empty) (Run.after historyStep ops []) :=
  Run.simulation logStep historyStep FollowsHistory (fun _ _ => True)
    (fun op log history h _ => logStep_history op log history h) ops _ [] (fun _ => rfl)
    (Run.along_true _ _ _)

theorem history_after (ops history : List Op) :
    Run.after historyStep ops history = history ++ ops := by
  induction ops generalizing history with
  | nil => simp [Run.after]
  | cons op ops ih => simp [Run.after, historyStep, ih]

theorem room_empty (ops : List Op) (h : ∀ g, ((appendsTo g ops).length:Int) < 2^63-1) :
    Run.Along Room logStep ops MessageLog.empty := by
  apply room_along
  intro g
  simpa [MessageLog.count] using h g

theorem KeepsLog.polls {S : CoordinatorStorage V σ} {limit : FetchLimit}
    {R : σ → MessageLog → Prop} (hS : KeepsLog S limit R) (init : σ)
    (hR : R init MessageLog.empty) : PollsWholeLog S init := by
  intro g events hroom
  obtain ⟨hend, m, hseen⟩ := poll_run hS g events init Poller.new MessageLog.empty 0 hR
    ⟨rfl, rfl, Nat.zero_le _⟩ (room_empty _ hroom)
  have hlog := (followsHistory_after (opsOf events)).2 g
  rw [history_after, List.nil_append] at hlog
  rw [Run.after_append]
  obtain ⟨hres, -⟩ := hS.step (.fetch g _) _ _ hend trivial
  have hpoll := Answer.fetched.inj hres
  have hreceived := hseen.poll.received
  rw [← hpoll, MessageLog.count, List.take_length, hlog] at hreceived
  exact hreceived

def limitedHistory (limit : FetchLimit) (op : Op) (history : List Op) : Answer × List Op :=
  (historyStep op history).map (within limit op) id

theorem KeepsLog.answers {S : CoordinatorStorage V σ} {limit : FetchLimit}
    {R : σ → MessageLog → Prop} (hS : KeepsLog S limit R) (ops : List Op) (init : σ)
    (hR : R init MessageLog.empty) (hroom : Run.Along Room logStep ops MessageLog.empty) :
    Run.answers (GroupLogOps.step S) ops init = Run.answers (limitedHistory limit) ops [] ∧
      R (Run.after (GroupLogOps.step S) ops init) (Run.after logStep ops MessageLog.empty) := by
  let limited : Op → MessageLog → Answer × MessageLog :=
    fun op log => (logStep op log).map (within limit op) id
  have hlog : ∀ (ops : List Op) (log : MessageLog), Run.Along Room limited ops log ↔
      Run.Along Room logStep ops log :=
    fun ops log => Run.along_part limited logStep id (fun _ _ => rfl) Room ops log
  have hbackend := Run.simulation (GroupLogOps.step S) limited R Room hS.step ops init
    MessageLog.empty hR ((hlog ops _).mpr hroom)
  have hhistory := Run.simulation limited (limitedHistory limit) FollowsHistory (fun _ _ => True)
    (fun op log history h _ => by
      obtain ⟨hanswer, hnext⟩ := logStep_history op log history h
      exact ⟨congrArg (within limit op) hanswer, hnext⟩)
    ops MessageLog.empty [] (fun _ => rfl) (Run.along_true _ _ _)
  have hend : Run.after limited ops MessageLog.empty = Run.after logStep ops MessageLog.empty :=
    Run.after_congr limited logStep (fun _ _ => rfl) ops _
  exact ⟨hbackend.1.trans hhistory.1, hend ▸ hbackend.2⟩

theorem limitedHistory_served (limit : FetchLimit) (ops : List Op) (history : List Op)
    (h : ∀ op ∈ ops, Served limit op) :
    Run.answers (limitedHistory limit) ops history = Run.answers historyStep ops history := by
  induction ops generalizing history with
  | nil => rfl
  | cons op ops ih =>
    obtain ⟨hop, hops⟩ := List.forall_mem_cons.mp h
    rw [Run.answers, Run.answers, limitedHistory, Prod.map_fst, within_served limit op _ hop]
    exact congrArg _ (ih _ hops)

/-- The backend answers the operations as the history prescribes and serves a
polling client the whole log. A fetch above the limit is all it turns down. -/
structure FollowsLog (S : CoordinatorStorage V σ) (limit : FetchLimit) (init : σ)
    (ops : List Op) : Prop where
  answers : Run.answers (step S) ops init = Run.answers (limitedHistory limit) ops []
  served : (∀ op ∈ ops, Served limit op) →
    Run.answers (step S) ops init = Run.answers historyStep ops []
  polls : PollsWholeLog S init

theorem KeepsLog.follows {S : CoordinatorStorage V σ} {limit : FetchLimit}
    {R : σ → MessageLog → Prop} (hS : KeepsLog S limit R) (ops : List Op) (init : σ)
    (hR : R init MessageLog.empty) (hroom : Run.Along Room logStep ops MessageLog.empty) :
    FollowsLog S limit init ops where
  answers := (hS.answers ops init hR hroom).1
  served h := (hS.answers ops init hR hroom).1.trans (limitedHistory_served limit ops [] h)
  polls := hS.polls init hR

structure LogsCorrect (json : SerdeJson V) (ops : List Op) : Prop where
  inMemory : FollowsLog (InMemory.storage : CoordinatorStorage V (InMemoryInner V)) noLimit
    InMemoryInner.default ops
  sqlite : FollowsLog (Sqlite.storage json) messageLimit Database.new ops
  parity : (∀ op ∈ ops, Served messageLimit op) →
    Run.answers (step (InMemory.storage : CoordinatorStorage V (InMemoryInner V))) ops
      InMemoryInner.default = Run.answers (step (Sqlite.storage json)) ops Database.new
  nextCursor : NextCursorExact (Run.after
    (step (InMemory.storage : CoordinatorStorage V (InMemoryInner V))) ops InMemoryInner.default)
  lastMessageCursor : RoutingExact (Run.after (step (Sqlite.storage json)) ops Database.new)

theorem noLimit_served (op : Op) : Served noLimit op := by
  cases op <;> trivial

/-- The logs are correct on every run. The SQLite backend answers a fetch of
more than 10922 entries with an error. -/
theorem group_logs_correct (json : SerdeJson V) (ops : List Op)
    (hroom : ∀ g, ((appendsTo g ops).length:Int) < 2^63-1) : LogsCorrect json ops := by
  have hlog := room_empty ops hroom
  have hm := inMemory_keepsLog.follows ops (InMemoryInner.default : InMemoryInner V)
    InMemory.HoldsLog.default hlog
  have hs := (sqlite_keepsLog json).follows ops Database.new Sqlite.HoldsLog.new hlog
  exact {
    inMemory := hm
    sqlite := hs
    parity := fun h => (hm.served (fun op _ => noLimit_served op)).trans (hs.served h).symm
    nextCursor := (inMemory_keepsLog.answers ops (InMemoryInner.default : InMemoryInner V)
      InMemory.HoldsLog.default hlog).2.nextCursorExact
    lastMessageCursor := ((sqlite_keepsLog json).answers ops Database.new Sqlite.HoldsLog.new
      hlog).2.routingExact }

theorem answers_above (groups : List FetchGroupMessagesInput) (h : 10922 < groups.length) :
    Run.answers (step (InMemory.storage : CoordinatorStorage Bool (InMemoryInner Bool)))
        [.fetchMany groups] InMemoryInner.default = [.fetched (.ok [])] ∧
      Run.answers (step (Sqlite.storage jsonBool)) [.fetchMany groups] Database.new =
        [.fetched (.error (.backend "too many SQL variables"))] := by
  have hlog := room_empty [.fetchMany groups] (fun g => by simp [appendsTo])
  have hrefused : messageLimit groups.length = some (.backend "too many SQL variables") := by
    rw [messageLimit, prepareError, if_neg]
    rw [maxVariableNumber]
    omega
  rw [(inMemory_keepsLog.answers _ _ InMemory.HoldsLog.default hlog).1,
    ((sqlite_keepsLog jsonBool).answers _ _ Sqlite.HoldsLog.new hlog).1]
  constructor
  · simp [Run.answers, limitedHistory, historyStep, within, noLimit, expected, appendsTo,
      numbered]
  · simp only [Run.answers, limitedHistory, Prod.map_fst, within, hrefused]

def wideFetch : List FetchGroupMessagesInput := List.replicate 10923 ⟨"g", none⟩

theorem wideFetch_unserved :
    Run.answers (step (InMemory.storage : CoordinatorStorage Bool (InMemoryInner Bool)))
        [.fetchMany wideFetch] InMemoryInner.default = [.fetched (.ok [])] ∧
      Run.answers (step (Sqlite.storage jsonBool)) [.fetchMany wideFetch] Database.new =
        [.fetched (.error (.backend "too many SQL variables"))] :=
  answers_above wideFetch (by rw [wideFetch, List.length_replicate]; decide)

def sampleOps : List Op :=
  [.append ⟨"g", [1], 5⟩, .append ⟨"h", [2], 6⟩, .append ⟨"g", [3], 7⟩, .fetch "g" (some 1),
    .fetchMany [⟨"g", none⟩, ⟨"h", none⟩, ⟨"g", some 1⟩]]

theorem sampleOps_room (g : String) : ((appendsTo g sampleOps).length:Int) < 2^63-1 := by
  have hlen : (appendsTo g sampleOps).length ≤ 3 := by
    simp only [sampleOps, appendsTo]
    split <;> split <;> simp
  omega

theorem group_logs_correct_sample : LogsCorrect jsonBool sampleOps :=
  group_logs_correct jsonBool sampleOps sampleOps_room

end Cordn.GroupLogOps
