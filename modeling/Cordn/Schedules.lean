import Cordn.ServerCalls

/-!
# Moments of a schedule

The server behind a list of events, what an event is answered with there, and the
operations that later events perform. What one operation keeps or retires, the
operations of a whole schedule keep or retire.
-/

set_option autoImplicit false

namespace Cordn.Server
open Adapter
open Interleaving (ofCall)

variable {V σ L α β : Type}

abbrev Performed (V : Type) := Interleaving.Performed Job (ServerCall V)

section Moments

variable (A : CoordinatorAdapter V σ L) (init : σ × L)

def poolAfter (events : List Event) : Pool V σ L :=
  Run.after (serve A) events (Interleaving.Pool.new init)

def answerTo (events : List Event) (event : Event) : Option (Job × Outcome) :=
  (serve A event (poolAfter A init events)).1

def performedSince (events later : List Event) : List (Performed V) :=
  Interleaving.performed (machine A.storage A.rateLimiter) (program A) later
    (poolAfter A init events)

def answered (events : List Event) (op : ServerCall V β) : β :=
  ((machine A.storage A.rateLimiter).perform op (poolAfter A init events).shared).1

variable {A} {init}

theorem poolAfter_append (events later : List Event) :
    poolAfter A init (events ++ later) = Run.after (serve A) later (poolAfter A init events) :=
  Run.after_append (serve A) events later _

theorem performedSince_append (events later behind : List Event) :
    performedSince A init events (later ++ behind) =
      performedSince A init events later ++ performedSince A init (events ++ later) behind := by
  rw [performedSince, Interleaving.performed_append, performedSince, performedSince,
    poolAfter_append]
  exact rfl

theorem performedSince_split {events later : List Event} {first behind : List (Performed V)}
    {x : Performed V} (h : performedSince A init events later = first ++ x::behind) :
    ∃ before event rest next, later = before ++ event::rest ∧
      performedSince A init events before = first ∧ event = .advance x.call ∧
      Interleaving.pending (poolAfter A init (events ++ before)) event =
        some (x.request, ⟨x.done.1, x.done.2.1, next⟩) ∧
      x.done.2.2 = answered A init (events ++ before) x.done.2.1 := by
  obtain ⟨before, event, rest, hlater, hfirst, hx⟩ := Interleaving.performed_split _ _ h
  have hpool : Run.after (Interleaving.serve (machine A.storage A.rateLimiter) (program A)) before
      (poolAfter A init events) = poolAfter A init (events ++ before) :=
    (poolAfter_append events before).symm
  rw [hpool] at hx
  obtain ⟨hcall, next, hpending, hanswer⟩ := Interleaving.performs_some _ hx
  exact ⟨before, event, rest, next, hlater, hfirst, hcall, hpending, hanswer⟩

/-- What every operation keeps or retires, seen behind one event and again behind later ones. -/
theorem kept_since {P : σ × L → Prop} (Retires : Answered (ServerCall V) → Prop)
    (hstep : ∀ {β : Type} (op : ServerCall V β) state, P state →
      P ((machine A.storage A.rateLimiter).perform op state).2 ∨
        Retires ⟨β, op, ((machine A.storage A.rateLimiter).perform op state).1⟩)
    (events later : List Event) (h : P (poolAfter A init events).shared) :
    P (poolAfter A init (events ++ later)).shared ∨
      ∃ x ∈ performedSince A init events later, Retires x.done := by
  rw [poolAfter_append]
  exact Interleaving.kept_or_retired (machine A.storage A.rateLimiter) (program A) hstep later _ h

theorem kept_after {P : σ × L → Prop}
    (hstep : ∀ {β : Type} (op : ServerCall V β) state, P state →
      P ((machine A.storage A.rateLimiter).perform op state).2)
    (hinit : P init) (events : List Event) : P (poolAfter A init events).shared := by
  have hkeeps : ∀ {β : Type} (op : ServerCall V β) state, P state →
      P ((machine A.storage A.rateLimiter).perform op state).2 ∨ False :=
    fun op state h => Or.inl (hstep op state h)
  rcases kept_since (fun _ => False) hkeeps [] events hinit with hkept | ⟨_, _, hnone⟩
  · exact hkept
  · cases hnone

theorem performed_pending {events : List Event} {event : Event} {job : Job} {op : ServerCall V β}
    {next : β → Program (ServerCall V) Outcome}
    (h : Interleaving.pending (poolAfter A init events) event = some (job, ⟨β, op, next⟩)) :
    ∃ n, event = .advance n ∧ performedSince A init events [event] =
      [⟨n, job, ⟨β, op, answered A init events op⟩⟩] := by
  obtain ⟨n, rfl⟩ := Interleaving.pending_event h
  refine ⟨n, rfl, (Interleaving.performed_single _ _ _ _).trans ?_⟩
  rw [Interleaving.performs_pending _ h]
  rfl

theorem shared_after_pending {events : List Event} {event : Event} {job : Job} {op : ServerCall V β}
    {next : β → Program (ServerCall V) Outcome}
    (h : Interleaving.pending (poolAfter A init events) event = some (job, ⟨β, op, next⟩)) :
    (poolAfter A init (events ++ [event])).shared =
      ((machine A.storage A.rateLimiter).perform op (poolAfter A init events).shared).2 := by
  obtain ⟨n, rfl⟩ := Interleaving.pending_event h
  rw [poolAfter_append]
  simp [Run.after, serve, Interleaving.serve, h]

theorem program_pending (job : Job) : (program A job).result = none := by
  cases job <;> rfl

theorem quiet_at {events : List Event} {event : Event}
    (h : Interleaving.pending (poolAfter A init events) event = none) :
    answerTo A init events event = none ∧ performedSince A init events [event] = [] ∧
      (poolAfter A init (events ++ [event])).shared = (poolAfter A init events).shared := by
  have hperforms : performedSince A init events [event] = [] := by
    refine (Interleaving.performed_single _ _ _ _).trans ?_
    cases event with
    | start job => rfl
    | advance n => simp [Interleaving.performs, h]
  refine ⟨?_, hperforms, ?_⟩
  · cases event with
    | start job => simp [answerTo, serve, Interleaving.serve, program_pending]
    | advance n => simp [answerTo, serve, Interleaving.serve, h]
  · rw [poolAfter_append]
    cases event with
    | start job => rfl
    | advance n => simp [Run.after, serve, Interleaving.serve, h]

variable (A) (init) in
theorem traced (events : List Event) :
    Interleaving.Traced (program A) (performedSince A init [] events) (poolAfter A init events) :=
  (Interleaving.Traced.new (program A) init).run events

theorem replied_by {events : List Event} {event : Event} {job : Job} {outcome : Outcome}
    (h : answerTo A init events event = some (job, outcome)) :
    ∃ n, event = .advance n ∧ (program A job).Leads
      (ofCall n (performedSince A init [] (events ++ [event]))) (.done outcome) := by
  cases event with
  | start job' => simp [answerTo, serve, Interleaving.serve, program_pending] at h
  | advance n =>
    refine ⟨n, rfl, ?_⟩
    have hleads := (traced A init events).result h
    rw [performedSince_append, List.nil_append, performedSince.eq_1 A init events,
      Interleaving.performed_single]
    exact hleads

theorem own_since (events later : List Event) {n : ℕ}
    (hn : (poolAfter A init events).calls.length ≤ n) :
    ofCall n (performedSince A init [] (events ++ later)) =
      ofCall n (performedSince A init events later) := by
  rw [performedSince_append, Interleaving.ofCall_append, Interleaving.ofCall_later]
  · rfl
  · exact fun x hx => ((traced A init events).within x hx).trans_le hn

end Moments

end Cordn.Server
