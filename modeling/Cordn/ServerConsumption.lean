import Mathlib.Data.List.Induction
import Cordn.ServerPackages
import Cordn.StoreReplies

/-!
# A one-time package is handed out once

Whatever calls are in flight together, the clients that are handed a one-time
package are no more than the publishes of it that have been acknowledged.
-/

set_option autoImplicit false

namespace Cordn.Server
open Adapter KeyPackageOps

variable {V σ L α β : Type}

structure OneTime where
  pk : String
  kpRef : String
  publishedAt : Int
  deriving DecidableEq, Repr

def OneTime.is (k : OneTime) (r : PublishedKeyPackageRecord V) : Bool :=
  decide (r.stablePubkey = k.pk ∧ r.keyPackageRef = k.kpRef ∧ r.publishedAt = k.publishedAt ∧
    r.isLastResort = false)

theorem count_inserted {l l' : KeyShelf V} {r : PublishedKeyPackageRecord V} (h : Inserted l r l')
    (p : PublishedKeyPackageRecord V → Bool) :
    l'.countP p = l.countP p + (some r).toList.countP p := by
  obtain ⟨before, behind, rfl, rfl⟩ := h
  rw [List.countP_append, List.countP_append, List.countP_cons, Option.toList_some,
    List.countP_singleton, Nat.add_assoc]

theorem ShelfStep.count {l l' : KeyShelf V} {done : Answered (ServerCall V)}
    (h : ShelfStep l done l')
    (k : OneTime) : l'.countP k.is + (handed done).toList.countP k.is ≤
      l.countP k.is + (shelved done).toList.countP k.is := by
  cases h with
  | publish r h => exact (count_inserted h k.is).le
  | remove ref => exact List.Sublist.countP_le List.eraseP_sublist
  | consume id h =>
    change _ + (taken l id).toList.countP k.is ≤ _
    cases htaken : taken l id with
    | none =>
      rw [htaken] at h
      exact (h ▸ Nat.le_refl _ : l'.countP k.is ≤ l.countP k.is)
    | some r =>
      simp only [htaken, Consumed] at h
      split at h
      · rename_i hlast
        have hnot : k.is r = false := by simp [OneTime.is, hlast]
        simp [h, hnot, shelved]
      · exact (count_inserted h k.is).ge
  | other _ hhanded hshelved => rw [hhanded, hshelved]

def handsOut (k : OneTime) : Option (Job × Outcome) → Bool
  | some (.call _ (.consumeKeyPackage _), .replied (.ok (.consumed (some kp)))) =>
    decide (kp.pk = k.pk ∧ kp.kpRef = k.kpRef ∧ kp.publishedAt = k.publishedAt ∧
      kp.lastResort = false)
  | _ => false

def acknowledges (k : OneTime) : Option (Job × Outcome) → Bool
  | some (.call c (.publishKeyPackage _ _), .replied (.ok (.published output))) =>
    decide (c.clientPubkey = k.pk ∧ output.kpRef = k.kpRef ∧ output.publishedAt = k.publishedAt ∧
      output.lastResort = false)
  | _ => false

/-- No package is handed out more often than it was published. -/
def HandedOutOnce (A : CoordinatorAdapter V σ L) (init : σ × L) : Prop :=
  ∀ (events : List Event) (k : OneTime),
    (Run.answers (serve A) events (Interleaving.Pool.new init)).countP (handsOut k) ≤
      (Run.answers (serve A) events (Interleaving.Pool.new init)).countP (acknowledges k)

section Runs

variable {A : CoordinatorAdapter V σ L} {init : σ × L}

theorem consumedReply_some {r : PublishedKeyPackageRecord V} {kp : ConsumedKeyPackage}
    (h : consumedReply A (some r) = .ok (some kp)) : kp.pk = r.stablePubkey ∧
      kp.kpRef = r.keyPackageRef ∧ kp.lastResort = r.isLastResort ∧
      kp.publishedAt = r.publishedAt := by
  rw [consumedReply, consumedKeyPackage] at h
  split at h
  · cases h
  · obtain rfl := Option.some.inj (Except.ok.inj h)
    exact ⟨rfl, rfl, rfl, rfl⟩

theorem handed_since {events : List Event} {event : Event} {job : Job} {op : ServerCall V β}
    {next : β → Program (ServerCall V) Outcome}
    (hpending : Interleaving.pending (poolAfter A init events) event = some (job, ⟨β, op, next⟩))
    (k : OneTime) : [answerTo A init events event].countP (handsOut k) ≤
      (handed ⟨β, op, ((machine A.storage A.rateLimiter).perform op
        (poolAfter A init events).shared).1⟩).toList.countP k.is := by
  by_cases h : handsOut k (answerTo A init events event) = true
  · rw [List.countP_singleton, if_pos h]
    unfold handsOut at h
    split at h
    · rename_i c id kp hanswer
      obtain ⟨γ, op', next', hsame, found, keyPackage, hop, hout, hreply⟩ :=
        replied_at events event rfl hanswer
      obtain ⟨rfl, hcall⟩ := Prod.mk.inj (Option.some.inj (hpending.symm.trans hsame))
      obtain ⟨rfl, hcall⟩ := Sigma.mk.inj hcall
      obtain ⟨rfl, -⟩ := Prod.mk.inj (eq_of_heq hcall)
      obtain rfl := Reply.consumed.inj hreply
      refine (congrArg (fun done => (handed done).toList.countP k.is) hop).ge.trans' ?_
      cases found with
      | none => cases hout
      | some r =>
        obtain ⟨hpk, href, hlast, hat⟩ := consumedReply_some hout
        rw [decide_eq_true_eq, hpk, href, hlast, hat] at h
        simp [handed, OneTime.is, h]
    · cases h
  · rw [List.countP_singleton, if_neg h]
    exact Nat.zero_le _

theorem acknowledged_since {limit : FetchLimit} {Kept : σ → Prop} {unique : Bool}
    {R : σ → QueueOps.Queues → Prop} {Holds : (GroupMessageRecord → Prop) → σ → Prop}
    (hS : Backed A.storage limit Kept unique R Holds)
    (hauthority : ∀ events, WithinAuthority A init events) {events : List Event} {event : Event}
    (hkept : Kept (poolAfter A init events).shared.1) {job : Job} {op : ServerCall V β}
    {next : β → Program (ServerCall V) Outcome}
    (hpending : Interleaving.pending (poolAfter A init events) event = some (job, ⟨β, op, next⟩))
    (k : OneTime) :
    (shelved ⟨β, op, ((machine A.storage A.rateLimiter).perform op
        (poolAfter A init events).shared).1⟩).toList.countP k.is ≤
      [answerTo A init events event].countP (acknowledges k) := by
  cases op with
  | check key now => exact Nat.zero_le _
  | publishLive record => exact Nat.zero_le _
  | storage op =>
    cases op with
    | publishKeyPackage record =>
      obtain ⟨P, hallowed⟩ := authorised_at hauthority hpending
      cases job with
      | cleanup maxAgeMs now => cases hallowed
      | call c request =>
        obtain ⟨-, input, publication, admitted, rfl, -, -, hclient⟩ := hallowed
        obtain ⟨outcome, hanswer, htold⟩ := told_at hpending rfl trivial
        by_cases hrefused : Refused unique record
            (stored A.storage (poolAfter A init events).shared.1)
        · obtain ⟨e, he⟩ := hS.shelf.refuse _ _ hkept hrefused
          have hnone : shelved (⟨_, .storage (.publishKeyPackage record),
              ((machine A.storage A.rateLimiter).perform (.storage (.publishKeyPackage record))
                (poolAfter A init events).shared).1⟩ : Answered (ServerCall V)) = none :=
            congrArg (fun x => shelved ⟨_, .storage (.publishKeyPackage record), x.1⟩) he
          rw [hnone]
          exact Nat.zero_le _
        · obtain ⟨hres, -⟩ := hS.shelf.accept _ _ hkept hrefused
          have htold' : outcome = .replied (.ok (.published ⟨record.keyPackageRef,
              record.isLastResort, record.publishedAt⟩)) :=
            htold.trans (congrArg (fun answer : Except StorageError
              (PublishedKeyPackageRecord V) => Outcome.replied ((answer.mapError
                AdapterError.storage).map fun r =>
                  .published ⟨r.keyPackageRef, r.isLastResort, r.publishedAt⟩)) hres)
          have hshelved : shelved (⟨_, .storage (.publishKeyPackage record),
              ((machine A.storage A.rateLimiter).perform (.storage (.publishKeyPackage record))
                (poolAfter A init events).shared).1⟩ : Answered (ServerCall V)) = some record :=
            congrArg (fun answer => shelved ⟨_, .storage (.publishKeyPackage record), answer⟩) hres
          rw [hshelved, show answerTo A init events event = _ from hanswer, htold']
          simp [OneTime.is, acknowledges, hclient]
    | _ => exact Nat.zero_le _

end Runs

theorem handedOutOnce {A : CoordinatorAdapter V σ L} {limit : FetchLimit} {Kept : σ → Prop}
    {unique : Bool} {R : σ → QueueOps.Queues → Prop}
    {Holds : (GroupMessageRecord → Prop) → σ → Prop}
    (hS : Backed A.storage limit Kept unique R Holds) {init : σ × L} (hinit : Kept init.1)
    (hempty : stored A.storage init.1 = [])
    (hauthority : ∀ events, WithinAuthority A init events) : HandedOutOnce A init := by
  intro events k
  have hall : (stored A.storage (poolAfter A init events).shared.1).countP k.is +
      (Run.answers (serve A) events (Interleaving.Pool.new init)).countP (handsOut k) ≤
        (Run.answers (serve A) events (Interleaving.Pool.new init)).countP (acknowledges k) := by
    induction events using List.reverseRecOn with
    | nil => simp [poolAfter, Run.after, Run.answers, Interleaving.Pool.new, hempty]
    | append_singleton events event ih =>
      rw [Run.answers_append, List.countP_append, List.countP_append]
      change _ + (_ + [answerTo A init events event].countP (handsOut k)) ≤
        _ + [answerTo A init events event].countP (acknowledges k)
      have hkept := shelf_after hS hinit events
      cases hpending : Interleaving.pending (poolAfter A init events) event with
      | none =>
        obtain ⟨hnone, -, hsame⟩ := quiet_at hpending
        rw [hnone, hsame]
        simpa [handsOut, acknowledges] using ih
      | some x =>
        obtain ⟨job, β, op, next⟩ := x
        have hcount := (shelf_step hS A.rateLimiter op _ hkept).2.count k
        have hacknowledged := acknowledged_since hS hauthority hkept hpending k
        have hhanded := handed_since hpending k
        rw [shared_after_pending hpending]
        omega
  omega

end Cordn.Server
