import Cordn.InMemoryQueues
import Cordn.SqliteQueues

/-!
# Parity of the queue backends

Both backends simulate the abstract queues, in which records keep their order
and leave only when acknowledged or expired. A fetch that binds more variables than
SQLite takes is turned down there and retires nothing.
-/

set_option autoImplicit false

namespace Cordn.QueueOps
open InMemory Sqlite

variable {V : Type}

theorem limitedStep_answers (limit : FetchLimit) (ops : List Op) (q : Queues)
    (h : ∀ op ∈ ops, Served limit op) :
    Run.answers (limitedStep limit) ops q = Run.answers queueStep ops q := by
  induction ops generalizing q with
  | nil => rfl
  | cons op ops ih =>
    obtain ⟨hop, hops⟩ := List.forall_mem_cons.mp h
    rw [Run.answers, Run.answers, limitedStep_served limit op q hop, ih _ hops]

/-- The two backends answer every queue operation alike, and both as the
abstract queues do. A multi-group fetch answers with the groups' single fetches,
one after the other. The SQLite backend turns down the fetches that bind too many
variables, and only these. -/
theorem queue_parity (json : SerdeJson V) (ops : List Op) :
    Run.answers (step (InMemory.storage : CoordinatorStorage V (InMemoryInner V))) ops
        InMemoryInner.default = Run.answers queueStep ops Queues.empty ∧
    Run.answers (step (Sqlite.storage json)) ops Database.new =
      Run.answers (limitedStep joinRequestLimit) ops Queues.empty ∧
    ((∀ op ∈ ops, Served joinRequestLimit op) →
      Run.answers (step (Sqlite.storage json)) ops Database.new =
          Run.answers queueStep ops Queues.empty ∧
        Run.answers (step (InMemory.storage : CoordinatorStorage V (InMemoryInner V))) ops
            InMemoryInner.default =
          Run.answers (step (Sqlite.storage json)) ops Database.new) ∧
    (∀ op, KeepsOrder op (Run.after queueStep ops Queues.empty)) ∧
    ∀ groupIds consumed,
      (Queues.fetchManyJoinRequests consumed groupIds (Run.after queueStep ops Queues.empty)).1 =
        groupIds.flatMap (fun groupId =>
          ((Run.after queueStep ops Queues.empty).fetchJoinRequests groupId
            (acksFor consumed groupId)).1) := by
  have hm := (Run.simulation (step InMemory.storage) queueStep InMemory.HoldsQueues
    (fun _ _ => True) (fun op s q h _ => InMemory.step_holdsQueues op s q h) ops
    (InMemoryInner.default : InMemoryInner V) Queues.empty
    ⟨IndexMap.Holds.empty _, IndexMap.Holds.empty _⟩ (Run.along_true _ _ _)).1
  have hs := (Run.simulation (step (Sqlite.storage json)) (limitedStep joinRequestLimit)
    Sqlite.HoldsQueues (fun _ _ => True) (fun op db q h _ => Sqlite.step_holdsQueues json op db q h)
    ops Database.new Queues.empty ⟨rfl, rfl⟩ (Run.along_true _ _ _)).1
  refine ⟨hm, hs, ?_, fun op => queueStep_keepsOrder op _,
    fun groupIds consumed => fetchMany_answer consumed groupIds _⟩
  intro hserved
  rw [hm, hs, limitedStep_answers joinRequestLimit ops Queues.empty hserved]
  exact ⟨rfl, rfl⟩

/-- One fetch names "g" twice and acknowledges alice's request to join it. -/
def refetched : List Op :=
  [.storeJoinRequest ⟨"g", "alice", "kp", 100⟩, .storeJoinRequest ⟨"h", "alice", "kp", 101⟩,
    .fetchManyPendingJoinRequests ["g", "h", "g"] [⟨"g", "alice", 100⟩]]

theorem queue_parity_sample :
    Run.answers (step (InMemory.storage : CoordinatorStorage Bool (InMemoryInner Bool))) refetched
        InMemoryInner.default =
      Run.answers (step (Sqlite.storage jsonBool)) refetched Database.new :=
  ((queue_parity jsonBool refetched).2.2.1 (by simp [refetched, Served]; decide)).2

end Cordn.QueueOps
