import Cordn.Schedules

/-!
# What is put in is acknowledged at once

The operation that puts a package, a welcome or a join request in is the last of its
call: the event that performs it is the one that replies, with what the storage has
answered. A post is no such call, as it goes on to the subscribers.
-/

set_option autoImplicit false

namespace Cordn.Server
open Adapter

variable {V σ L α β : Type}

def PutsIn : (β : Type) → ServerCall V β → Prop
  | _, .storage (.publishKeyPackage _) | _, .storage (.storeWelcome _)
  | _, .storage (.storeJoinRequest _) => True
  | _, _ => False

/-- What the storage answers to such an operation, as the client is told. -/
def ToldAs : (β : Type) → ServerCall V β → β → Outcome → Prop
  | _, .storage (.publishKeyPackage _), answer, outcome =>
    outcome = .replied ((answer.mapError AdapterError.storage).map
      fun r => .published ⟨r.keyPackageRef, r.isLastResort, r.publishedAt⟩)
  | _, .storage (.storeWelcome _), answer, outcome =>
    outcome = .replied ((answer.mapError AdapterError.storage).map fun r => .storedAt r.createdAt)
  | _, .storage (.storeJoinRequest _), answer, outcome =>
    outcome = .replied ((answer.mapError AdapterError.storage).map fun r => .storedAt r.createdAt)
  | _, _, _, _ => True

/-- Behind an operation that puts a record in, the handler is over, with a result `P`. -/
def Handler.Ends (P : (γ : Type) → ServerCall V γ → γ → Except AdapterError α → Prop)
    (p : Handler V α) : Prop :=
  Program.Ends PutsIn P p.program

abbrev Handler.PutsNothing (p : Handler V α) : Prop := p.Ends fun _ _ _ _ => False

section Rules

variable {P : (γ : Type) → ServerCall V γ → γ → Except AdapterError α → Prop}
  {Q : (γ : Type) → ServerCall V γ → γ → Except AdapterError β → Prop}

theorem ends_reply (result : Except AdapterError α) : (Handler.reply result).Ends P := trivial

theorem ends_reads {op : StorageCall V α} (h : ¬PutsIn _ (.storage op)) :
    (Handler.onStorage op).Ends P :=
  fun _ => ⟨fun hputs => absurd hputs h, trivial⟩

theorem ends_storage {op : StorageCall V α}
    (h : ∀ answer, P _ (.storage op) answer (answer.mapError AdapterError.storage)) :
    (Handler.onStorage op).Ends P :=
  fun answer => ⟨fun _ => ⟨_, rfl, h answer⟩, trivial⟩

theorem Handler.Ends.behind {p : Handler V α} (hp : p.PutsNothing) {q : α → Handler V β}
    (hq : ∀ a, (q a).Ends Q) : (p >>= q).Ends Q := by
  refine Program.Ends.bind hp fun result => ?_
  cases result with
  | error e => exact ends_reply _
  | ok a => exact hq a

theorem Handler.Ends.map {p : Handler V α} (hp : p.Ends P) (f : α → β)
    (hQ : ∀ γ op answer result, P γ op answer result → Q γ op answer (result.map f)) :
    (p >>= fun a => pure (f a)).Ends Q := by
  have hmap : (p >>= fun a => pure (f a) : Handler V β).program =
      (p.program >>= fun result => .done (result.map f)) := by
    refine congrArg (Program.bind p.program) (funext fun result => ?_)
    cases result with
    | error e => rfl
    | ok a => rfl
  rw [Handler.Ends, hmap]
  exact Program.Ends.map hp _ hQ

theorem Handler.Ends.ite {passed : Prop} [Decidable passed] {p p' : Handler V α} (h : p.Ends P)
    (h' : p'.Ends P) : (if passed then p else p').Ends P := by
  split
  · exact h
  · exact h'

end Rules

variable (A : CoordinatorAdapter V σ L)

theorem removeEach_putsNothing (records : List (PublishedKeyPackageRecord V)) :
    (removeEach records).PutsNothing := by
  induction records with
  | nil => exact ends_reply _
  | cons record records ih => exact Handler.Ends.behind (ends_reads id) fun _ => ih

theorem enforceKeyPackageQuota_putsNothing (stablePubkey : String) (incoming : Bool) :
    (enforceKeyPackageQuota A stablePubkey incoming).PutsNothing := by
  refine Handler.Ends.behind (ends_reads id) fun records => ?_
  refine Handler.Ends.ite ?_ ((ends_reply _).ite (ends_reply _))
  refine Handler.Ends.behind ?_ fun _ => (ends_reply _).ite (ends_reply _)
  exact (removeEach_putsNothing _).ite (ends_reply _)

theorem ownKeyPackage_putsNothing (c : Caller) (kpRef : String) :
    (ownKeyPackage c kpRef : Handler V Unit).PutsNothing := by
  refine Handler.Ends.behind (ends_reads id) fun found => ?_
  cases found with
  | none => exact ends_reply _
  | some record => exact (ends_reply _).ite (ends_reply _)

def HandlerTold (f : α → Reply) (γ : Type) (op : ServerCall V γ) (answer : γ)
    (result : Except AdapterError α) : Prop :=
  ToldAs γ op answer (.replied (result.map f))

theorem ends_told {op : StorageCall V α} {g : α → β} {f : β → Reply}
    (h : ∀ answer, ToldAs _ (.storage op) answer
      (.replied ((answer.mapError AdapterError.storage).map fun a => f (g a)))) :
    (Handler.onStorage op >>= fun a => pure (g a)).Ends (HandlerTold f) := by
  refine Handler.Ends.map (P := HandlerTold fun a => f (g a)) (ends_storage h) g ?_
  intro γ op answer result htold
  cases result with
  | error e => exact htold
  | ok a => exact htold

theorem ends_publish (c : Caller) (input : PublishKeyPackageInput) (event : Option NostrEvent) :
    (publishKeyPackage A c input event).Ends (HandlerTold .published) := by
  refine Handler.Ends.behind (ends_reply _) fun admitted =>
    Handler.Ends.behind (enforceKeyPackageQuota_putsNothing A _ _) fun _ => ends_told ?_
  exact fun answer => rfl

theorem ends_storeWelcome (c : Caller) (input : StoreWelcomeInput) :
    (storeWelcome A c input).Ends (HandlerTold .storedAt) := by
  refine Handler.Ends.behind (ends_reply _) fun _ => Handler.Ends.behind (ends_reply _) fun _ =>
    Handler.Ends.behind (ends_reply _) fun _ => ?_
  cases A.externals.b64Decode input.welcome64 with
  | none => exact ends_reply _
  | some bytes =>
    refine ends_told ?_
    exact fun answer => rfl

theorem ends_storeJoinRequest (c : Caller) (input : StoreJoinRequestInput) :
    (storeJoinRequest c input : Handler V Int).Ends (HandlerTold .storedAt) := by
  refine Handler.Ends.behind (ends_reply _) fun _ => Handler.Ends.behind (ends_reply _) fun _ =>
    Handler.Ends.behind (ownKeyPackage_putsNothing c _) fun _ => ends_told ?_
  exact fun answer => rfl

def putsOne : Job → Bool
  | .call _ (.publishKeyPackage _ _) | .call _ (.storeWelcome _)
  | .call _ (.storeJoinRequest _) => true
  | _ => false

theorem ends_handle (c : Caller) (request : Request) (h : putsOne (.call c request) = true) :
    (handle A c request).Ends (fun γ op answer result => ToldAs γ op answer (.replied result)) := by
  cases request with
  | publishKeyPackage input event =>
    exact (ends_publish A c input event).map _ fun _ _ _ _ htold => htold
  | storeWelcome input => exact (ends_storeWelcome A c input).map _ fun _ _ _ _ htold => htold
  | storeJoinRequest input =>
    exact (ends_storeJoinRequest c input).map _ fun _ _ _ _ htold => htold
  | _ => cases h

def LastOf (job : Job) : (β : Type) → ServerCall V β → Prop :=
  if putsOne job then PutsIn else fun _ _ => False

theorem ends_program (job : Job) : (program A job).Ends (LastOf job) ToldAs := by
  cases hputs : putsOne job with
  | false =>
    rw [LastOf, if_neg (by simp [hputs])]
    exact Program.ends_never (fun _ _ => id) _
  | true =>
    rw [LastOf, if_pos hputs]
    cases job with
    | cleanup maxAgeMs now => cases hputs
    | call c request =>
      refine fun passed => ⟨False.elim, ?_⟩
      cases passed with
      | false => trivial
      | true =>
        exact Program.Ends.map (ends_handle A c request hputs) Outcome.replied
          fun _ _ _ _ htold => htold

variable {A}

theorem told_at {init : σ × L} {events : List Event} {event : Event} {job : Job}
    {op : ServerCall V β} {next : β → Program (ServerCall V) Outcome}
    (hpending : Interleaving.pending (poolAfter A init events) event = some (job, ⟨β, op, next⟩))
    (hputs : putsOne job = true) (hop : PutsIn β op) :
    ∃ outcome, answerTo A init events event = some (job, outcome) ∧
      ToldAs β op ((machine A.storage A.rateLimiter).perform op
        (poolAfter A init events).shared).1 outcome := by
  have hending : Interleaving.Ending LastOf (fun _ => ToldAs)
      (Interleaving.Pool.new init : Pool V σ L) := by
    simp [Interleaving.Ending, Interleaving.Pool.new]
  obtain ⟨-, hanswer⟩ := (hending.run (M := machine A.storage A.rateLimiter) (ends_program A)
    events).serve (ends_program A) event
  refine hanswer job β op next hpending ?_
  rw [LastOf, if_pos hputs]
  exact hop

end Cordn.Server
