import Cordn.SeparateLogs

/-!
# Tenant isolation

What a welcome target or a group gets to see of a run does not change when every
operation on other keys is erased from the run and the multi-group fetches keep
only what they ask of the key.
-/

set_option autoImplicit false

namespace Cordn.CoordinatorOps
open QueueOps

variable {V σ L : Type}

inductive Key where
  | target (stablePubkey : String)
  | group (groupId : String)
  deriving DecidableEq, Repr

def Key.ofTarget (x : Key) (stablePubkey : String) : Bool := decide (x = .target stablePubkey)

def Key.ofGroup (x : Key) (groupId : String) : Bool := decide (x = .group groupId)

def restrictQueues (x : Key) : QueueOps.Op → Option QueueOps.Op
  | .storeWelcome record =>
    if x.ofTarget record.targetStablePubkey then some (.storeWelcome record) else none
  | .fetchPendingWelcomes target consumed =>
    if x.ofTarget target then some (.fetchPendingWelcomes target consumed) else none
  | .deleteExpiredWelcomes threshold => some (.deleteExpiredWelcomes threshold)
  | .storeJoinRequest record =>
    if x.ofGroup record.groupId then some (.storeJoinRequest record) else none
  | .fetchPendingJoinRequests groupId consumed =>
    if x.ofGroup groupId then some (.fetchPendingJoinRequests groupId consumed) else none
  | .fetchManyPendingJoinRequests groupIds consumed => some (.fetchManyPendingJoinRequests
      (groupIds.filter x.ofGroup) (consumed.filter (fun c => x.ofGroup c.groupId)))
  | .deleteExpiredJoinRequests threshold => some (.deleteExpiredJoinRequests threshold)

def restrictMessages (x : Key) : GroupLogOps.Op → Option GroupLogOps.Op
  | .append params => if x.ofGroup params.groupId then some (.append params) else none
  | .fetch groupId afterCursor =>
    if x.ofGroup groupId then some (.fetch groupId afterCursor) else none
  | .fetchMany groups => some (.fetchMany (groups.filter (fun q => x.ofGroup q.groupId)))

/-- Operations on other keys are erased, multi-group fetches are restricted and
the cleanups stay. -/
def restrict (x : Key) : StorageOp V → Option (StorageOp V)
  | .queues op => (restrictQueues x op).map .queues
  | .messages op => (restrictMessages x op).map .messages
  | _ => none

/-- The result as it concerns the key: that of an operation on the key, or the
key's records in that of a multi-group fetch. A cleanup counts over all keys. -/
def concerningQueues (x : Key) : QueueOps.Op → QueueOps.Answer → Option QueueOps.Answer
  | .storeWelcome record, a => if x.ofTarget record.targetStablePubkey then some a else none
  | .fetchPendingWelcomes target _, a => if x.ofTarget target then some a else none
  | .storeJoinRequest record, a => if x.ofGroup record.groupId then some a else none
  | .fetchPendingJoinRequests groupId _, a => if x.ofGroup groupId then some a else none
  | .fetchManyPendingJoinRequests _ _, .joinRequests (.ok records) =>
    some (.joinRequests (.ok (records.filter (fun r => x.ofGroup r.groupId))))
  | .fetchManyPendingJoinRequests _ _, a => some a
  | _, _ => none

def concerningMessages (x : Key) : GroupLogOps.Op → GroupLogOps.Answer → Option GroupLogOps.Answer
  | .append params, a => if x.ofGroup params.groupId then some a else none
  | .fetch groupId _, a => if x.ofGroup groupId then some a else none
  | .fetchMany _, .fetched (.ok records) =>
    some (.fetched (.ok (records.filter (fun r => x.ofGroup r.groupId))))
  | .fetchMany _, a => some a

def concerning (x : Key) : StorageOp V → Answer V → Option (Answer V)
  | .queues op, .queues a => (concerningQueues x op a).map .queues
  | .messages op, .messages a => (concerningMessages x op a).map .messages
  | _, _ => none

section Own

variable {α β : Type}

theorem filter_own {own gone gone' : α → Bool} {l l' : List α} (h : l.filter own = l'.filter own)
    (hg : ∀ a, own a = true → gone a = gone' a) :
    (l.filter (fun a => !gone a)).filter own = (l'.filter (fun a => !gone' a)).filter own := by
  have hswap : ∀ (g : α → Bool) (l : List α),
      (l.filter (fun a => !g a)).filter own = (l.filter own).filter (fun a => !g a) := by
    intro g l
    rw [List.filter_filter, List.filter_filter]
    simp only [Bool.and_comm]
  rw [hswap, hswap, h]
  apply List.filter_congr
  intro a ha
  rw [hg a (List.mem_filter.mp ha).2]

theorem flatMap_own {own : α → Bool} {f f' : α → List β} (l : List α)
    (hothers : ∀ a, own a = false → f a = []) (hown : ∀ a, own a = true → f a = f' a) :
    l.flatMap f = (l.filter own).flatMap f' := by
  induction l with
  | nil => rfl
  | cons a l ih =>
    rw [List.flatMap_cons, ih]
    by_cases ha : own a = true
    · rw [List.filter_cons_of_pos ha, List.flatMap_cons, hown a ha]
    · rw [List.filter_cons_of_neg ha, hothers a (Bool.eq_false_iff.mpr ha), List.nil_append]

end Own

theorem ofGroup_eq {x : Key} {g g' : String} (h : x.ofGroup g = true) :
    x.ofGroup g' = decide (g' = g) := by
  obtain rfl := of_decide_eq_true h
  simp [Key.ofGroup, eq_comm]

theorem ofTarget_eq {x : Key} {t t' : String} (h : x.ofTarget t = true) :
    x.ofTarget t' = decide (t' = t) := by
  obtain rfl := of_decide_eq_true h
  simp [Key.ofTarget, eq_comm]

structure SameQueues (x : Key) (q q' : Queues) : Prop where
  welcomes : q.welcomes.filter (fun r => x.ofTarget r.targetStablePubkey) =
    q'.welcomes.filter (fun r => x.ofTarget r.targetStablePubkey)
  joinRequests : q.joinRequests.filter (fun r => x.ofGroup r.groupId) =
    q'.joinRequests.filter (fun r => x.ofGroup r.groupId)

structure SameEffect (x : Key) (op op' : QueueOps.Op) : Prop where
  leavesWelcomes : ∀ r, x.ofTarget r.targetStablePubkey = true →
    leavesWelcomes op r = leavesWelcomes op' r
  entersWelcomes : (entersWelcomes op).filter (fun r => x.ofTarget r.targetStablePubkey) =
    (entersWelcomes op').filter (fun r => x.ofTarget r.targetStablePubkey)
  leavesJoinRequests : ∀ r, x.ofGroup r.groupId = true →
    leavesJoinRequests op r = leavesJoinRequests op' r
  refreshedBy : ∀ r, x.ofGroup r.groupId = true → refreshedBy op r = refreshedBy op' r
  entersJoinRequests : ∀ q q', SameQueues x q q' →
    (entersJoinRequests q op).filter (fun r => x.ofGroup r.groupId) =
      (entersJoinRequests q' op').filter (fun r => x.ofGroup r.groupId)

theorem SameEffect.refl_of (x : Key) (op : QueueOps.Op)
    (h : ∀ q q', SameQueues x q q' →
      (QueueOps.entersJoinRequests q op).filter (fun r => x.ofGroup r.groupId) =
        (QueueOps.entersJoinRequests q' op).filter (fun r => x.ofGroup r.groupId)) :
    SameEffect x op op :=
  ⟨fun _ _ => rfl, rfl, fun _ _ => rfl, fun _ _ => rfl, h⟩

theorem SameEffect.step {x : Key} {op op' : QueueOps.Op} (h : SameEffect x op op')
    {q q' : Queues} (hq : SameQueues x q q') :
    SameQueues x (queueStep op q).2 (queueStep op' q').2 := by
  have hop := queueStep_keepsOrder op q
  have hop' := queueStep_keepsOrder op' q'
  constructor
  · rw [hop.welcomes, hop'.welcomes, List.filter_append, List.filter_append, h.entersWelcomes,
      filter_own hq.welcomes h.leavesWelcomes]
  · have hmap : (q.joinRequests.map (QueueOps.refreshedBy op)).filter
        (fun r => x.ofGroup r.groupId) =
        (q'.joinRequests.map (QueueOps.refreshedBy op')).filter (fun r => x.ofGroup r.groupId) := by
      simp only [List.filter_map, Function.comp_def, refreshedBy_groupId, hq.joinRequests]
      apply List.map_congr_left
      intro r hr
      exact h.refreshedBy r (List.mem_filter.mp hr).2
    rw [hop.joinRequests, hop'.joinRequests, List.filter_append, List.filter_append,
      h.entersJoinRequests q q' hq, filter_own hmap h.leavesJoinRequests]

def idle : QueueOps.Op := .deleteExpiredWelcomes 0

theorem queueStep_idle (q : Queues) : (queueStep idle q).2 = q := by
  have hkept := (nothing_expires WelcomeQueueRecord.createdAt 0 le_rfl q.welcomes).2
  simp only [idle, queueStep, Queues.dropWelcomes, hkept]

theorem idle_leavesWelcomes (r : WelcomeQueueRecord) : leavesWelcomes idle r = false := by
  simp [idle, leavesWelcomes, expired]

theorem requests_eq {x : Key} {q q' : Queues} (h : SameQueues x q q') {g : String}
    (hg : x.ofGroup g = true) :
    q.joinRequests.filter (QueueOps.inGroup g) = q'.joinRequests.filter (QueueOps.inGroup g) := by
  have hsame := h.joinRequests
  simp only [ofGroup_eq hg] at hsame
  exact hsame

theorem mem_requestKeys (record : JoinRequestRecord) (l : List JoinRequestRecord) :
    requestKey record ∈ l.map requestKey ↔
      requestKey record ∈ (l.filter (QueueOps.inGroup record.groupId)).map requestKey := by
  simp only [List.mem_map, List.mem_filter, QueueOps.inGroup, decide_eq_true_eq]
  constructor
  · rintro ⟨r, hr, he⟩
    exact ⟨r, ⟨hr, congrArg Prod.fst he⟩, he⟩
  · rintro ⟨r, ⟨hr, -⟩, he⟩
    exact ⟨r, hr, he⟩

theorem restrict_sameEffect (x : Key) (op : QueueOps.Op) :
    SameEffect x op ((restrictQueues x op).getD idle) := by
  cases op with
  | storeWelcome record =>
    by_cases hx : x.ofTarget record.targetStablePubkey = true
    · rw [restrictQueues, if_pos hx]
      exact .refl_of x _ (fun _ _ _ => rfl)
    · rw [restrictQueues, if_neg hx, Option.getD_none]
      refine ⟨fun r _ => (idle_leavesWelcomes r).symm, ?_, fun _ _ => rfl, fun _ _ => rfl,
        fun _ _ _ => rfl⟩
      simp [entersWelcomes, idle, hx]
  | fetchPendingWelcomes target consumed =>
    by_cases hx : x.ofTarget target = true
    · rw [restrictQueues, if_pos hx]
      exact .refl_of x _ (fun _ _ _ => rfl)
    · rw [restrictQueues, if_neg hx, Option.getD_none]
      refine ⟨fun r hr => ?_, rfl, fun _ _ => rfl, fun _ _ => rfl, fun _ _ _ => rfl⟩
      rw [idle_leavesWelcomes]
      have hne : r.targetStablePubkey ≠ target := fun he => hx (he ▸ hr)
      simp [leavesWelcomes, ackedWelcome, hne]
  | deleteExpiredWelcomes threshold => exact .refl_of x _ (fun _ _ _ => rfl)
  | storeJoinRequest record =>
    by_cases hx : x.ofGroup record.groupId = true
    · rw [restrictQueues, if_pos hx]
      refine .refl_of x _ (fun q q' hq => ?_)
      simp only [entersJoinRequests, mem_requestKeys record q.joinRequests,
        mem_requestKeys record q'.joinRequests, requests_eq hq hx]
    · rw [restrictQueues, if_neg hx, Option.getD_none]
      refine ⟨fun r _ => (idle_leavesWelcomes r).symm, rfl, fun _ _ => rfl, fun r hr => ?_,
        fun q q' _ => ?_⟩
      · have hne : requestKey r ≠ requestKey record := by
          intro he
          injection he with hg
          exact hx (hg ▸ hr)
        simp [refreshedBy, refresh, hne, idle]
      · simp only [entersJoinRequests, idle]
        split <;> simp [hx]
  | fetchPendingJoinRequests groupId consumed =>
    by_cases hx : x.ofGroup groupId = true
    · rw [restrictQueues, if_pos hx]
      exact .refl_of x _ (fun _ _ _ => rfl)
    · rw [restrictQueues, if_neg hx, Option.getD_none]
      refine ⟨fun r _ => (idle_leavesWelcomes r).symm, rfl, fun r hr => ?_, fun _ _ => rfl,
        fun _ _ _ => rfl⟩
      have hne : r.groupId ≠ groupId := fun he => hx (he ▸ hr)
      simp [leavesJoinRequests, ackedJoinRequest, hne, idle]
  | fetchManyPendingJoinRequests groupIds consumed =>
    refine ⟨fun _ _ => rfl, rfl, fun r hr => ?_, fun _ _ => rfl, fun _ _ _ => rfl⟩
    simp [restrictQueues, leavesJoinRequests, List.mem_filter, hr]
  | deleteExpiredJoinRequests threshold => exact .refl_of x _ (fun _ _ _ => rfl)

theorem sameQueues_erased {x : Key} {op : QueueOps.Op} {q q' : Queues} (h : SameQueues x q q')
    (hop : restrictQueues x op = none) : SameQueues x (queueStep op q).2 q' := by
  have hstep := (restrict_sameEffect x op).step h
  rwa [hop, Option.getD_none, queueStep_idle] at hstep

theorem sameQueues_kept {x : Key} {op op' : QueueOps.Op} {q q' : Queues} (h : SameQueues x q q')
    (hop : restrictQueues x op = some op') :
    SameQueues x (queueStep op q).2 (queueStep op' q').2 := by
  have hstep := (restrict_sameEffect x op).step h
  rwa [hop, Option.getD_some] at hstep

theorem concerning_erased {x : Key} {op : QueueOps.Op} (hop : restrictQueues x op = none)
    (a : QueueOps.Answer) : concerningQueues x op a = none := by
  cases op with
  | storeWelcome record => simpa [restrictQueues, concerningQueues] using hop
  | fetchPendingWelcomes target consumed => simpa [restrictQueues, concerningQueues] using hop
  | deleteExpiredWelcomes threshold => rfl
  | storeJoinRequest record => simpa [restrictQueues, concerningQueues] using hop
  | fetchPendingJoinRequests groupId consumed =>
    simpa [restrictQueues, concerningQueues] using hop
  | fetchManyPendingJoinRequests groupIds consumed => simp [restrictQueues] at hop
  | deleteExpiredJoinRequests threshold => rfl

theorem storeJoinRequest_answer {x : Key} {q q' : Queues} (h : SameQueues x q q')
    {record : JoinRequestRecord} (hx : x.ofGroup record.groupId = true) :
    (q.storeJoinRequest record).1 = (q'.storeJoinRequest record).1 := by
  have hkeys : (requestKey record ∈ q.joinRequests.map requestKey) =
      (requestKey record ∈ q'.joinRequests.map requestKey) := by
    rw [mem_requestKeys record q.joinRequests, mem_requestKeys record q'.joinRequests,
      requests_eq h hx]
  rw [Queues.storeJoinRequest, Queues.storeJoinRequest]
  by_cases hk : requestKey record ∈ q'.joinRequests.map requestKey
  · rw [dif_pos (hkeys ▸ hk), dif_pos hk]
  · rw [dif_neg (hkeys ▸ hk), dif_neg hk, requests_eq h hx]
    split <;> rfl

theorem fetchMany_own {x : Key} {q q' : Queues} (h : SameQueues x q q') (groupIds : List String)
    (consumed : List ConsumedJoinRequestWithGroupRef) :
    ((Queues.fetchManyJoinRequests consumed groupIds q).1).filter (fun r => x.ofGroup r.groupId) =
      ((Queues.fetchManyJoinRequests (consumed.filter (fun c => x.ofGroup c.groupId))
        (groupIds.filter x.ofGroup) q').1).filter (fun r => x.ofGroup r.groupId) := by
  rw [Sqlite.fetchMany_answer, Sqlite.fetchMany_answer, List.filter_flatMap, List.filter_flatMap]
  apply flatMap_own
  · intro g hg
    apply List.filter_eq_nil_iff.mpr
    intro r hr
    have hgroup := (List.mem_filter.mp hr).2
    simp only [QueueOps.inGroup, decide_eq_true_eq] at hgroup
    rw [hgroup, hg]
    simp
  · intro g hg
    have hacks : acksFor (consumed.filter (fun c => x.ofGroup c.groupId)) g =
        acksFor consumed g := by
      rw [acksFor, acksFor, List.filter_filter]
      congr 1
      apply List.filter_congr
      intro c _
      simp [ofGroup_eq hg]
    have hkeep : restrictQueues x (.fetchPendingJoinRequests g (acksFor consumed g)) =
        some (.fetchPendingJoinRequests g (acksFor consumed g)) := if_pos hg
    have hsame := requests_eq (sameQueues_kept h hkeep) hg
    rw [hacks]
    exact congrArg (List.filter (fun r => x.ofGroup r.groupId)) hsame

theorem concerning_kept {x : Key} {op op' : QueueOps.Op} {q q' : Queues} (h : SameQueues x q q')
    (hop : restrictQueues x op = some op') :
    concerningQueues x op (queueStep op q).1 = concerningQueues x op' (queueStep op' q').1 := by
  have hnext := sameQueues_kept h hop
  cases op with
  | storeWelcome record =>
    simp only [restrictQueues, Option.ite_none_right_eq_some, Option.some.injEq] at hop
    obtain ⟨hx, rfl⟩ := hop
    rfl
  | fetchPendingWelcomes target consumed =>
    simp only [restrictQueues, Option.ite_none_right_eq_some, Option.some.injEq] at hop
    obtain ⟨hx, rfl⟩ := hop
    have hsame := hnext.welcomes
    simp only [ofTarget_eq hx] at hsame
    simp only [concerningQueues, if_pos hx]
    exact congrArg (fun records => some (QueueOps.Answer.welcomes (.ok records))) hsame
  | deleteExpiredWelcomes threshold =>
    obtain rfl := Option.some.inj hop
    rfl
  | storeJoinRequest record =>
    simp only [restrictQueues, Option.ite_none_right_eq_some, Option.some.injEq] at hop
    obtain ⟨hx, rfl⟩ := hop
    simp only [concerningQueues, if_pos hx]
    exact congrArg (fun r => some (QueueOps.Answer.joinRequest r)) (storeJoinRequest_answer h hx)
  | fetchPendingJoinRequests groupId consumed =>
    simp only [restrictQueues, Option.ite_none_right_eq_some, Option.some.injEq] at hop
    obtain ⟨hx, rfl⟩ := hop
    have hsame := requests_eq hnext hx
    simp only [concerningQueues, if_pos hx]
    exact congrArg (fun records => some (QueueOps.Answer.joinRequests (.ok records))) hsame
  | fetchManyPendingJoinRequests groupIds consumed =>
    obtain rfl := Option.some.inj hop
    exact congrArg (fun records => some (QueueOps.Answer.joinRequests (.ok records)))
      (fetchMany_own h groupIds consumed)
  | deleteExpiredJoinRequests threshold =>
    obtain rfl := Option.some.inj hop
    rfl

structure Related (R : σ → Queues → Prop) (I : σ → Prop) (logOf : σ → String → L) (x : Key)
    (s t : σ) : Prop where
  queues : ∃ q q', R s q ∧ R t q' ∧ SameQueues x q q'
  left : I s
  right : I t
  logs : ∀ g, x.ofGroup g = true → logOf s g = logOf t g

section Backend

variable {S : CoordinatorStorage V σ} {limit logLimit : FetchLimit} {R : σ → Queues → Prop}
  {I : σ → Prop} {M : LogMachine L} {logOf : σ → String → L} {x : Key} {s t : σ}

theorem perform_fetch (hL : SplitsLogs S logLimit I M logOf) (g : String) (afterCursor : Option Int)
    (hs : I s) : perform S (.messages (.fetch g afterCursor)) s =
      (.messages (.fetched (.ok (M.read afterCursor (logOf s g)))), s) := by
  rw [perform, GroupLogOps.step, hL.fetch g afterCursor s hs]
  rfl

theorem perform_fetchMany (hL : SplitsLogs S logLimit I M logOf)
    (groups : List FetchGroupMessagesInput) (hs : I s) (hserved : logLimit groups.length = none) :
    perform S (.messages (.fetchMany groups)) s =
      (.messages (.fetched (.ok (groups.flatMap
        (fun q => M.read q.afterCursor (logOf s q.groupId))))), s) := by
  rw [perform, GroupLogOps.step, hL.fetchMany groups s hs hserved]
  rfl

theorem readMany_own (hL : SplitsLogs S logLimit I M logOf) (h : Related R I logOf x s t)
    (groups : List FetchGroupMessagesInput) :
    (groups.flatMap (fun q => M.read q.afterCursor (logOf s q.groupId))).filter
        (fun r => x.ofGroup r.groupId) =
      ((groups.filter (fun q => x.ofGroup q.groupId)).flatMap
        (fun q => M.read q.afterCursor (logOf t q.groupId))).filter
          (fun r => x.ofGroup r.groupId) := by
  rw [List.filter_flatMap, List.filter_flatMap]
  apply flatMap_own
  · intro q hq
    apply List.filter_eq_nil_iff.mpr
    intro m hm
    rw [hL.own q.groupId q.afterCursor s h.left m hm, hq]
    simp
  · intro q hq
    rw [h.logs q.groupId hq]

theorem Related.noMessage (hL : SplitsLogs S logLimit I M logOf) (h : Related R I logOf x s t)
    {op : StorageOp V} (hop : NoMessage op) {q q' : Queues} (hq : R (perform S op s).2 q)
    (hq' : R t q') (hsame : SameQueues x q q') : Related R I logOf x (perform S op s).2 t := by
  refine ⟨⟨q, q', hq, hq', hsame⟩, hL.invariant op s h.left, h.right, ?_⟩
  rw [hL.frame op s hop]
  exact h.logs

theorem Related.erase (hQ : KeepsQueues S limit R) (hL : SplitsLogs S logLimit I M logOf)
    (h : Related R I logOf x s t) (op : StorageOp V) (hserved : Serves limit logLimit op)
    (hop : restrict x op = none) :
    (∀ a, concerning x op a = none) ∧ Related R I logOf x (perform S op s).2 t := by
  obtain ⟨q, q', hq, hq', hsame⟩ := h.queues
  cases op with
  | keyPackages op =>
    exact ⟨fun _ => rfl, h.noMessage hL (by simp [NoMessage]) (hQ.keyPackages op s q hq) hq' hsame⟩
  | listAllKeyPackages =>
    exact ⟨fun _ => rfl,
      h.noMessage hL (by simp [NoMessage]) (hQ.listAllKeyPackages s q hq) hq' hsame⟩
  | queues op =>
    have hnone : restrictQueues x op = none := by simpa [restrict] using hop
    constructor
    · intro a
      cases a <;> simp [concerning, concerning_erased hnone]
    · have hnext := (hQ.queues op s q hq).2
      rw [limitedStep_served limit op q hserved] at hnext
      exact h.noMessage hL (by simp [NoMessage]) hnext hq' (sameQueues_erased hsame hnone)
  | messages op =>
    have hnone : restrictMessages x op = none := by simpa [restrict] using hop
    cases op with
    | append params =>
      have hx : x.ofGroup params.groupId = false := by simpa [restrictMessages] using hnone
      constructor
      · intro a
        cases a <;> simp [concerning, concerningMessages, hx]
      · have hnext := hQ.messages (.append params) s q hq
        refine ⟨⟨q, q', hnext, hq', hsame⟩, hL.invariant _ s h.left, h.right, ?_⟩
        intro g hg
        have hne : g ≠ params.groupId := by
          rintro rfl
          simp [hx] at hg
        exact ((hL.append_log params s g h.left).trans (if_neg hne)).trans (h.logs g hg)
    | fetch g afterCursor =>
      have hx : x.ofGroup g = false := by simpa [restrictMessages] using hnone
      constructor
      · intro a
        cases a <;> simp [concerning, concerningMessages, hx]
      · rw [perform_fetch hL g afterCursor h.left]
        exact h
    | fetchMany groups => simp [restrictMessages] at hnone

theorem Related.keep (hQ : KeepsQueues S limit R) (hL : SplitsLogs S logLimit I M logOf)
    (h : Related R I logOf x s t) (op op' : StorageOp V) (hserved : Serves limit logLimit op)
    (hserved' : Serves limit logLimit op') (hop : restrict x op = some op') :
    concerning x op (perform S op s).1 = concerning x op' (perform S op' t).1 ∧
      Related R I logOf x (perform S op s).2 (perform S op' t).2 := by
  obtain ⟨q, q', hq, hq', hsame⟩ := h.queues
  cases op with
  | keyPackages op => simp [restrict] at hop
  | listAllKeyPackages => simp [restrict] at hop
  | queues op =>
    obtain ⟨op', hkept, rfl⟩ := Option.map_eq_some_iff.mp hop
    obtain ⟨hans, hnext⟩ := hQ.queues op s q hq
    obtain ⟨hans', hnext'⟩ := hQ.queues op' t q' hq'
    rw [limitedStep_served limit op q hserved] at hans hnext
    rw [limitedStep_served limit op' q' hserved'] at hans' hnext'
    constructor
    · change (concerningQueues x op (QueueOps.step S op s).1).map _ =
        (concerningQueues x op' (QueueOps.step S op' t).1).map _
      rw [hans, hans', concerning_kept hsame hkept]
    · refine ⟨⟨_, _, hnext, hnext', sameQueues_kept hsame hkept⟩, hL.invariant _ s h.left,
        hL.invariant _ t h.right, ?_⟩
      rw [hL.frame _ s (by simp [NoMessage]), hL.frame _ t (by simp [NoMessage])]
      exact h.logs
  | messages op =>
    obtain ⟨op', hkept, rfl⟩ := Option.map_eq_some_iff.mp hop
    cases op with
    | append params =>
      simp only [restrictMessages, Option.ite_none_right_eq_some, Option.some.injEq] at hkept
      obtain ⟨hx, rfl⟩ := hkept
      constructor
      · have hans : (S.appendGroupMessage params s).1 = (S.appendGroupMessage params t).1 := by
          rw [hL.append_answer params s h.left, hL.append_answer params t h.right,
            h.logs _ hx]
        change ((concerningMessages x (.append params)
            (.appended (S.appendGroupMessage params s).1)).map _ : Option (Answer V)) =
          (concerningMessages x (.append params)
            (.appended (S.appendGroupMessage params t).1)).map _
        rw [hans]
      · have hnext := hQ.messages (.append params) s q hq
        have hnext' := hQ.messages (.append params) t q' hq'
        refine ⟨⟨q, q', hnext, hnext', hsame⟩, hL.invariant _ s h.left, hL.invariant _ t h.right,
          ?_⟩
        intro g hg
        have hs := hL.append_log params s g h.left
        have ht := hL.append_log params t g h.right
        rw [h.logs _ hx, h.logs g hg] at hs
        exact hs.trans ht.symm
    | fetch g afterCursor =>
      simp only [restrictMessages, Option.ite_none_right_eq_some, Option.some.injEq] at hkept
      obtain ⟨hx, rfl⟩ := hkept
      rw [perform_fetch hL g afterCursor h.left, perform_fetch hL g afterCursor h.right,
        h.logs g hx]
      exact ⟨rfl, h⟩
    | fetchMany groups =>
      obtain rfl := Option.some.inj hkept
      rw [perform_fetchMany hL groups h.left hserved, perform_fetchMany hL _ h.right hserved']
      refine ⟨?_, h⟩
      simp only [concerning, concerningMessages, readMany_own hL h groups]

theorem serves_restrict (hlimit : ServesSmaller limit) (hlog : ServesSmaller logLimit)
    {op op' : StorageOp V} (h : Serves limit logLimit op) (hop : restrict x op = some op') :
    Serves limit logLimit op' := by
  cases op with
  | keyPackages op => simp [restrict] at hop
  | listAllKeyPackages => simp [restrict] at hop
  | queues op =>
    obtain ⟨op', hkept, rfl⟩ := Option.map_eq_some_iff.mp hop
    cases op with
    | fetchManyPendingJoinRequests groupIds consumed =>
      obtain rfl := Option.some.inj hkept
      exact hlimit _ _ (List.length_filter_le _ _) h
    | deleteExpiredWelcomes threshold =>
      obtain rfl := Option.some.inj hkept
      exact h
    | deleteExpiredJoinRequests threshold =>
      obtain rfl := Option.some.inj hkept
      exact h
    | _ =>
      simp only [restrictQueues, Option.ite_none_right_eq_some, Option.some.injEq] at hkept
      obtain ⟨-, rfl⟩ := hkept
      exact h
  | messages op =>
    obtain ⟨op', hkept, rfl⟩ := Option.map_eq_some_iff.mp hop
    cases op with
    | fetchMany groups =>
      obtain rfl := Option.some.inj hkept
      exact hlog _ _ (List.length_filter_le _ _) h
    | _ =>
      simp only [restrictMessages, Option.ite_none_right_eq_some, Option.some.injEq] at hkept
      obtain ⟨-, rfl⟩ := hkept
      exact h

theorem isolates (hQ : KeepsQueues S limit R) (hL : SplitsLogs S logLimit I M logOf)
    (hlimit : ServesSmaller limit) (hlog : ServesSmaller logLimit) (init : σ)
    (hinit : R init Queues.empty) (hI : I init) (x : Key) (ops : List (StorageOp V))
    (hops : ∀ op ∈ ops, Serves limit logLimit op) :
    Run.observations (perform S) (concerning x) ops init =
      Run.observations (perform S) (concerning x) (ops.filterMap (restrict x)) init :=
  Run.observations_filterMap _ _ _ _ _ (Serves limit logLimit) (Related R I logOf x)
    (fun op _ _ hserved h hop => h.erase hQ hL op hserved hop)
    (fun op op' _ _ hserved h hop =>
      h.keep hQ hL op op' hserved (serves_restrict hlimit hlog hserved hop) hop)
    ops init init hops ⟨⟨_, _, hinit, hinit, rfl, rfl⟩, hI, hI, fun _ _ => rfl⟩

end Backend

theorem noLimit_servesSmaller : ServesSmaller noLimit := fun _ _ _ _ => rfl

theorem prepareError_eq_none (placeholders : ℕ) :
    Sqlite.prepareError placeholders = none ↔ placeholders ≤ Sqlite.maxVariableNumber := by
  simp [Sqlite.prepareError]

theorem joinRequestLimit_servesSmaller : ServesSmaller Sqlite.joinRequestLimit := by
  intro m n hle h
  rw [Sqlite.joinRequestLimit, prepareError_eq_none] at h ⊢
  omega

theorem messageLimit_servesSmaller : ServesSmaller Sqlite.messageLimit := by
  intro m n hle h
  rw [Sqlite.messageLimit, prepareError_eq_none] at h ⊢
  omega

theorem serves_noLimit (op : StorageOp V) : Serves noLimit noLimit op := by
  cases op with
  | queues op => cases op <;> trivial
  | messages op => cases op <;> trivial
  | _ => trivial

/-- An admin of "g" and of other groups acknowledges alice's request to join "g". -/
def adminRun (others : List String) : List (StorageOp Bool) :=
  [.queues (.storeJoinRequest ⟨"g", "alice", "kp", 100⟩),
    .queues (.fetchManyPendingJoinRequests ("g"::others) [⟨"g", "alice", 100⟩]),
    .queues (.fetchPendingJoinRequests "g" [])]

theorem adminRun_kept (others : List String) (h : ∀ g ∈ others, g ≠ "g") :
    (adminRun others).filterMap (restrict (.group "g")) = adminRun [] := by
  have hgroups : ("g"::others).filter (Key.group "g").ofGroup = ["g"] := by
    rw [List.filter_cons_of_pos (by decide), List.filter_eq_nil_iff.mpr]
    intro g hg
    simpa [Key.ofGroup] using (h g hg).symm
  simp only [adminRun, List.filterMap_cons, restrict, restrictQueues, hgroups]
  rfl

/-- SQLite turns a fetch above the limit down and keeps the request, which the
restricted fetch retires. -/
theorem adminRun_seen (others : List String) (h : 16383 ≤ others.length)
    (hothers : ∀ g ∈ others, g ≠ "g") :
    Run.observations (perform (Sqlite.storage Sqlite.jsonBool)) (concerning (.group "g"))
        (adminRun others) Sqlite.Database.new =
      [.queues (.joinRequest (.ok ⟨"g", "alice", "kp", 100⟩)),
        .queues (.joinRequests (.error (.backend "too many SQL variables"))),
        .queues (.joinRequests (.ok [⟨"g", "alice", "kp", 100⟩]))] ∧
    Run.observations (perform (Sqlite.storage Sqlite.jsonBool)) (concerning (.group "g"))
        ((adminRun others).filterMap (restrict (.group "g"))) Sqlite.Database.new =
      [.queues (.joinRequest (.ok ⟨"g", "alice", "kp", 100⟩)),
        .queues (.joinRequests (.ok [])), .queues (.joinRequests (.ok []))] := by
  constructor
  · have hrefused : Sqlite.joinRequestLimit ("g"::others).length =
        some (.backend "too many SQL variables") := by
      rw [Sqlite.joinRequestLimit, Sqlite.prepareError, if_neg]
      rw [List.length_cons, Sqlite.maxVariableNumber]
      omega
    simp only [adminRun, Run.observations, perform, QueueOps.step, Sqlite.storage,
      Sqlite.fetchManyRequests_refused _ _ _ _ hrefused]
    rfl
  · rw [adminRun_kept others hothers]
    rfl

def manyOthers : List String := List.replicate 16383 "h"

end Cordn.CoordinatorOps
