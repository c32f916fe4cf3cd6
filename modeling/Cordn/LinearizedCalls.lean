import Cordn.Schedules

/-!
# Calls that take effect at once

A tool whose call performs one storage operation takes effect at that operation:
whatever else is in flight, the call's reply and what it does to the storage are
those of the adapter's function run by itself at that point. Calls of several
operations take part with each operation on its own.
-/

set_option autoImplicit false

namespace Cordn.Server
open Adapter

variable {V σ L α β : Type} (A : CoordinatorAdapter V σ L)

/-- A publish, a removal and a join request take several storage operations, a post goes
to the subscribers behind its append, and a fetch of join requests may lock once for
each group. -/
def singleOp : Request → Bool
  | .publishKeyPackage _ _ | .removeKeyPackages _ | .storeJoinRequest _
  | .postGroupMessage _ => false
  | .fetchManyPendingJoinRequests _ _ => decide (A.storage.joinRequestLocking = .once)
  | _ => true

def Handler.Atomic (p : Handler V α) : Prop := Program.Atomic p.program

theorem atomic_reply (result : Except AdapterError α) :
    (Handler.reply (V := V) result).Atomic := trivial

theorem atomic_storage (op : StorageCall V α) : (Handler.onStorage op).Atomic :=
  fun result => ⟨result.mapError AdapterError.storage, rfl⟩

theorem Handler.Atomic.check {result : Except AdapterError α} {q : α → Handler V β}
    (hq : ∀ a, (q a).Atomic) : (Handler.reply result >>= q).Atomic := by
  cases result with
  | error e => trivial
  | ok a => exact hq a

theorem Handler.Atomic.andThen {p : Handler V α} (hp : p.Atomic) {q : α → Handler V β}
    (hq : ∀ a, ∃ result, q a = Handler.reply result) : (p >>= q).Atomic := by
  refine Program.Atomic.bind hp fun result => ?_
  cases result with
  | error e => exact ⟨.error e, rfl⟩
  | ok a => exact hq a

theorem is_reply (a : α) : ∃ result, (pure a : Handler V α) = Handler.reply result :=
  ⟨.ok a, rfl⟩

theorem atomic_consume (id : String) : (consumeKeyPackage A id).Atomic := by
  refine Handler.Atomic.check fun _ => (atomic_storage _).andThen fun record => ?_
  cases record with
  | none => exact is_reply none
  | some r => exact ⟨_, rfl⟩

theorem atomic_storeWelcome (c : Caller) (input : StoreWelcomeInput) :
    (storeWelcome A c input).Atomic := by
  refine Handler.Atomic.check fun _ => Handler.Atomic.check fun _ => Handler.Atomic.check
    fun _ => ?_
  cases A.externals.b64Decode input.welcome64 with
  | none => exact atomic_reply _
  | some bytes => exact (atomic_storage _).andThen fun _ => is_reply _

theorem atomic_handle (c : Caller) (request : Request) (h : singleOp A request = true) :
    (handle A c request).Atomic := by
  cases request with
  | publishKeyPackage | removeKeyPackages | storeJoinRequest | postGroupMessage => cases h
  | consumeKeyPackage id => exact (atomic_consume A id).andThen fun _ => is_reply _
  | listAvailableKeyPackages =>
    exact ((atomic_storage _).andThen fun _ => is_reply _).andThen fun _ => is_reply _
  | fetchPendingWelcomes consumed =>
    exact ((atomic_storage _).andThen fun _ => is_reply _).andThen fun _ => is_reply _
  | storeWelcome input => exact (atomic_storeWelcome A c input).andThen fun _ => is_reply _
  | fetchManyPendingJoinRequests groups consumed =>
    refine Handler.Atomic.andThen (Handler.Atomic.check fun _ => ?_) fun _ => is_reply _
    rw [fetchJoinRequests, of_decide_eq_true h]
    exact atomic_storage _
  | fetchManyGroupMessages groups =>
    refine Handler.Atomic.andThen ?_ fun _ => is_reply _
    exact Handler.Atomic.check fun _ => Handler.Atomic.check fun _ =>
      (atomic_storage _).andThen fun _ => is_reply _

/-- What took effect: a whole call with its reply, or one operation of another call. -/
inductive Effect (V : Type) where
  | call (c : Caller) (request : Request) (result : Except AdapterError Reply)
  | operation (op : Σ α, StorageCall V α)

def Effect.reply : Effect V → Option (Caller × Request × Except AdapterError Reply)
  | .call c request result => some (c, request, result)
  | .operation _ => none

def replied : Option (Job × Outcome) → Option (Caller × Request × Except AdapterError Reply)
  | some (.call c request, .replied result) =>
    if singleOp A request then some (c, request, result) else none
  | _ => none

def operation (event : Event) (pool : Pool V σ L) : Option (Σ α, StorageCall V α) :=
  match Interleaving.pending pool event with
  | some (_, ⟨_, .storage op, _⟩) => some ⟨_, op⟩
  | _ => none

def effects (event : Event) (pool : Pool V σ L) : List (Effect V) :=
  match replied A (serve A event pool).1 with
  | some (c, request, result) => [.call c request result]
  | none => (operation event pool).toList.map .operation

def history : List Event → Pool V σ L → List (Effect V)
  | [], _ => []
  | event::events, pool => effects A event pool ++ history events (serve A event pool).2

/-- The effects lead from one storage to the other, one after the other, and each call
is refused by the limiter or does what it does by itself. -/
def Explains : List (Effect V) → σ → σ → Prop
  | [], s, s' => s = s'
  | .call c request result::effects, s, s' =>
    (result = .error .rateLimitExceeded ∧ Explains effects s s') ∨
      (result = (Adapter.perform A c request s).1 ∧
        Explains effects (Adapter.perform A c request s).2 s')
  | .operation op::effects, s, s' => Explains effects (op.2.perform A.storage s).2 s'

theorem Explains.append {first behind : List (Effect V)} {s m s' : σ}
    (h : Explains A first s m) (h' : Explains A behind m s') :
    Explains A (first ++ behind) s s' := by
  induction first generalizing s with
  | nil => exact h ▸ h'
  | cons effect first ih =>
    cases effect with
    | call c request result =>
      rcases h with ⟨hrefused, hrest⟩ | ⟨hresult, hrest⟩
      · exact Or.inl ⟨hrefused, ih hrest⟩
      · exact Or.inr ⟨hresult, ih hrest⟩
    | operation op => exact ih h

def behindLimiter (c : Caller) (request : Request) : Program (ServerCall V) Outcome :=
  (handle A c request).program >>= fun result => .done (.replied result)

def InStage (job : Job) (p : Program (ServerCall V) Outcome) : Prop :=
  ∀ c request, job = .call c request → singleOp A request = true →
    p = program A job ∨ p = behindLimiter A c request ∨ ∃ outcome, p = .done outcome

def AllInStage (pool : Pool V σ L) : Prop := ∀ call ∈ pool.calls, InStage A call.1 call.2

theorem atomic_behindLimiter (c : Caller) (request : Request) (h : singleOp A request = true) :
    Program.Atomic (behindLimiter A c request) :=
  Program.Atomic.bind (atomic_handle A c request h) fun result => ⟨.replied result, rfl⟩

theorem behindLimiter_alone (c : Caller) (request : Request) (s : σ) (l : L) :
    Program.alone (machine A.storage A.rateLimiter) (behindLimiter A c request) (s, l) =
      (.replied (Adapter.perform A c request s).1, ((Adapter.perform A c request s).2, l)) := by
  have hruns := runs_handle (A := A) c request s l
  rw [behindLimiter, Program.alone_bind, hruns]
  rfl

variable {A}

theorem program_next {c : Caller} {request : Request} {op : ServerCall V β}
    {next : β → Program (ServerCall V) Outcome}
    (h : Program.call op next = program A (.call c request)) (state : σ × L) :
    (next ((machine A.storage A.rateLimiter).perform op state).1 = behindLimiter A c request ∨
      next ((machine A.storage A.rateLimiter).perform op state).1 =
        .done (.replied (.error .rateLimitExceeded))) ∧
      ((machine A.storage A.rateLimiter).perform op state).2.1 = state.1 := by
  simp only [program, Program.call.injEq] at h
  obtain ⟨rfl, hop, hnext⟩ := h
  obtain rfl := eq_of_heq hop
  obtain rfl := eq_of_heq hnext
  refine ⟨?_, rfl⟩
  cases hpassed : ((machine A.storage A.rateLimiter).perform
      (.check c.clientPubkey c.limiterNow) state).1 with
  | true => exact Or.inl rfl
  | false => exact Or.inr rfl

theorem InStage.next {job : Job} {op : ServerCall V β}
    {next : β → Program (ServerCall V) Outcome} (h : InStage A job (.call op next))
    (state : σ × L) :
    InStage A job (next ((machine A.storage A.rateLimiter).perform op state).1) := by
  intro c request hjob hsingle
  rcases h c request hjob hsingle with hprogram | hbehind | ⟨outcome, hdone⟩
  · subst hjob
    rcases (program_next hprogram state).1 with hnext | hnext
    · exact Or.inr (Or.inl hnext)
    · exact Or.inr (Or.inr ⟨_, hnext⟩)
  · have hatomic := atomic_behindLimiter A c request hsingle
    rw [← hbehind] at hatomic
    exact Or.inr (Or.inr ⟨_, (hatomic.next _ state).1⟩)
  · cases hdone

theorem InStage.reply {c : Caller} {request : Request} {op : ServerCall V β}
    {next : β → Program (ServerCall V) Outcome} (h : InStage A (.call c request) (.call op next))
    (hsingle : singleOp A request = true) (s : σ) (l : L) (result : Except AdapterError Reply)
    (hresult : next ((machine A.storage A.rateLimiter).perform op (s, l)).1 =
      .done (.replied result)) :
    (result = .error .rateLimitExceeded ∧
        ((machine A.storage A.rateLimiter).perform op (s, l)).2.1 = s) ∨
      (result = (Adapter.perform A c request s).1 ∧
        ((machine A.storage A.rateLimiter).perform op (s, l)).2.1 =
          (Adapter.perform A c request s).2) := by
  have halone := behindLimiter_alone A c request s l
  rcases h c request rfl hsingle with hprogram | hbehind | ⟨outcome, hdone⟩
  · obtain ⟨hnext | hnext, hstay⟩ := program_next hprogram (s, l)
    · rw [← hnext, hresult, Program.alone] at halone
      obtain ⟨hreply, hstate⟩ := Prod.mk.inj halone
      exact Or.inr ⟨Outcome.replied.inj hreply, hstay.trans (congrArg Prod.fst hstate)⟩
    · rw [hnext] at hresult
      exact Or.inl ⟨(Outcome.replied.inj (Program.done.inj hresult)).symm, hstay⟩
  · have hatomic := atomic_behindLimiter A c request hsingle
    rw [← hbehind] at hatomic halone
    obtain ⟨hnext, hstate⟩ := hatomic.next (machine A.storage A.rateLimiter) (s, l)
    rw [hresult, halone] at hnext
    rw [hstate, halone]
    exact Or.inr ⟨Outcome.replied.inj (Program.done.inj hnext), rfl⟩
  · cases hdone

theorem replied_eq {answer : Option (Job × Outcome)} {c : Caller} {request : Request}
    {result : Except AdapterError Reply} (h : replied A answer = some (c, request, result)) :
    answer = some (.call c request, .replied result) ∧ singleOp A request = true := by
  unfold replied at h
  split at h
  · split at h
    · rename_i hsingle
      obtain ⟨rfl, rfl, rfl⟩ : _ ∧ _ ∧ _ := by simpa using h
      exact ⟨rfl, hsingle⟩
    · cases h
  · cases h

theorem serve_effects (event : Event) (pool : Pool V σ L) (h : AllInStage A pool) :
    Explains A (effects A event pool) pool.shared.1 (serve A event pool).2.shared.1 ∧
      AllInStage A (serve A event pool).2 := by
  cases event with
  | start job =>
    have hnone : (serve A (.start job) pool).1 = none := by
      simp [serve, Interleaving.serve, program_pending]
    refine ⟨?_, fun call hcall => ?_⟩
    · rw [effects, hnone]
      exact rfl
    · rcases List.mem_append.mp hcall with hold | hnew
      · exact h call hold
      · obtain rfl := List.mem_singleton.mp hnew
        rintro c request rfl -
        exact Or.inl rfl
  | advance n =>
    cases hpending : Interleaving.pending pool (.advance n) with
    | none =>
      have hserve : serve A (.advance n) pool = (none, pool) := by
        simp [serve, Interleaving.serve, hpending]
      rw [effects, operation, hpending, hserve]
      exact ⟨rfl, h⟩
    | some x =>
      obtain ⟨job, γ, op, next⟩ := x
      have hstage := h _ (List.mem_of_getElem? (Interleaving.pending_advance hpending))
      have hserve : serve A (.advance n) pool =
          ((next ((machine A.storage A.rateLimiter).perform op pool.shared).1).result.map
              (Prod.mk job),
            ⟨((machine A.storage A.rateLimiter).perform op pool.shared).2, pool.calls.set n
              (job, next ((machine A.storage A.rateLimiter).perform op pool.shared).1)⟩) := by
        simp [serve, Interleaving.serve, hpending]
      refine ⟨?_, fun call hcall => ?_⟩
      · rw [effects, hserve]
        split
        · rename_i c request result hreply
          obtain ⟨hanswer, hsingle⟩ := replied_eq hreply
          obtain ⟨rfl, hresult⟩ := Interleaving.result_eq_some hanswer
          rcases hstage.reply hsingle pool.shared.1 pool.shared.2 result hresult with
            ⟨hrefused, hstay⟩ | ⟨hreply, hmove⟩
          · exact Or.inl ⟨hrefused, hstay.symm⟩
          · exact Or.inr ⟨hreply, hmove.symm⟩
        · rw [operation, hpending]
          cases op with
          | check key now => exact rfl
          | storage op => exact rfl
          | publishLive record => exact rfl
      · rw [hserve] at hcall
        rcases List.mem_or_eq_of_mem_set hcall with hold | rfl
        · exact h call hold
        · exact hstage.next pool.shared

variable (A)

/-- In every schedule the history explains the storage, and it holds the reply to every
call of a single operation. -/
structure Linearized (events : List Event) (s : σ) (l : L) : Prop where
  explains : Explains A (history A events (Interleaving.Pool.new (s, l))) s
    (Run.after (serve A) events (Interleaving.Pool.new (s, l))).shared.1
  replies : (Run.answers (serve A) events (Interleaving.Pool.new (s, l))).filterMap (replied A) =
    (history A events (Interleaving.Pool.new (s, l))).filterMap Effect.reply

theorem history_replies (events : List Event) (pool : Pool V σ L) :
    (Run.answers (serve A) events pool).filterMap (replied A) =
      (history A events pool).filterMap Effect.reply := by
  induction events generalizing pool with
  | nil => rfl
  | cons event events ih =>
    rw [Run.answers, history, List.filterMap_append, ← ih, effects, List.filterMap_cons]
    cases hreply : replied A (serve A event pool).1 with
    | some x => rfl
    | none =>
      cases operation event pool with
      | none => rfl
      | some op => rfl

theorem explains_run (events : List Event) (pool : Pool V σ L) (h : AllInStage A pool) :
    Explains A (history A events pool) pool.shared.1
      (Run.after (serve A) events pool).shared.1 := by
  induction events generalizing pool with
  | nil => exact rfl
  | cons event events ih =>
    obtain ⟨hfirst, hnext⟩ := serve_effects event pool h
    exact hfirst.append A (ih _ hnext)

end Cordn.Server
