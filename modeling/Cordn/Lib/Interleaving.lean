import Cordn.Lib.Program
import Cordn.Lib.Run
import Mathlib.Data.List.Forall2

/-!
# Programs in flight over one shared state

Any number of calls run at once. Each follows the program of its request and
performs one operation at a time on the state they share; which call goes on is
up to the schedule. The rules here carry a contract, and what each operation
keeps or retires, through every schedule, and link two machines that serve the
same requests.
-/

set_option autoImplicit false

universe u

variable {ι : Type} {F : Type → Type u} {α σ τ : Type}

namespace Interleaving

/-- The shared state, and the calls in the order they came. -/
structure Pool (ι : Type) (F : Type → Type u) (α σ : Type) where
  shared : σ
  calls : List (ι × Program F α)

inductive Event (ι : Type) where
  | start (request : ι)
  | advance (call : ℕ)
  deriving DecidableEq, Repr

structure Performed (ι : Type) (F : Type → Type u) where
  call : ℕ
  request : ι
  done : Answered F

def ofCall (n : ℕ) (log : List (Performed ι F)) : List (Answered F) :=
  (log.filter (fun x => decide (x.call = n))).map Performed.done

def Pool.new (s : σ) : Pool ι F α σ := ⟨s, []⟩

def pending (pool : Pool ι F α σ) : Event ι → Option (ι × Σ β : Type, F β × (β → Program F α))
  | .start _ => none
  | .advance n =>
    match pool.calls[n]? with
    | some (i, .call op next) => some (i, ⟨_, op, next⟩)
    | _ => none

section Serve

variable (M : Machine F σ) (program : ι → Program F α)

/-- An event is answered with the request that it completes, and the result. -/
def serve (event : Event ι) (pool : Pool ι F α σ) : Option (ι × α) × Pool ι F α σ :=
  match event, pending pool event with
  | .start i, _ =>
    ((program i).result.map (Prod.mk i), ⟨pool.shared, pool.calls ++ [(i, program i)]⟩)
  | .advance n, some (i, ⟨_, op, next⟩) =>
    ((next (M.perform op pool.shared).1).result.map (Prod.mk i),
      ⟨(M.perform op pool.shared).2, pool.calls.set n (i, next (M.perform op pool.shared).1)⟩)
  | .advance _, none => (none, pool)

def performs : Event ι → Pool ι F α σ → Option (Performed ι F)
  | .start _, _ => none
  | .advance n, pool => (pending pool (.advance n)).map fun x =>
    ⟨n, x.1, ⟨x.2.1, x.2.2.1, (M.perform x.2.2.1 pool.shared).1⟩⟩

def performed : List (Event ι) → Pool ι F α σ → List (Performed ι F)
  | [], _ => []
  | event::events, pool =>
    (performs M event pool).toList ++ performed events (serve M program event pool).2

theorem pending_advance {pool : Pool ι F α σ} {n : ℕ} {i : ι} {β : Type} {op : F β}
    {next : β → Program F α} (h : pending pool (.advance n) = some (i, ⟨β, op, next⟩)) :
    pool.calls[n]? = some (i, .call op next) := by
  simp only [pending] at h
  split at h
  · rename_i hcall
    obtain ⟨rfl, hop⟩ := Prod.mk.inj (Option.some.inj h)
    obtain ⟨rfl, hop⟩ := Sigma.mk.inj hop
    obtain ⟨rfl, rfl⟩ := Prod.mk.inj (eq_of_heq hop)
    exact hcall
  · cases h

theorem pending_event {pool : Pool ι F α σ} {event : Event ι} {x}
    (h : pending pool event = some x) : ∃ n, event = .advance n := by
  cases event with
  | start i => cases h
  | advance n => exact ⟨n, rfl⟩

theorem performs_some {pool : Pool ι F α σ} {event : Event ι} {x : Performed ι F}
    (h : performs M event pool = some x) : event = .advance x.call ∧ ∃ next,
      pending pool event = some (x.request, ⟨x.done.1, x.done.2.1, next⟩) ∧
        x.done.2.2 = (M.perform x.done.2.1 pool.shared).1 := by
  cases event with
  | start i => cases h
  | advance n =>
    obtain ⟨⟨i, β, op, next⟩, hpending, rfl⟩ := Option.map_eq_some_iff.mp h
    exact ⟨rfl, next, hpending, rfl⟩

theorem performs_pending {pool : Pool ι F α σ} {n : ℕ} {i : ι} {β : Type} {op : F β}
    {next : β → Program F α} (h : pending pool (.advance n) = some (i, ⟨β, op, next⟩)) :
    performs M (.advance n) pool = some ⟨n, i, ⟨β, op, (M.perform op pool.shared).1⟩⟩ := by
  rw [performs, h]
  rfl

theorem performed_single (event : Event ι) (pool : Pool ι F α σ) :
    performed M program [event] pool = (performs M event pool).toList :=
  List.append_nil _

theorem performed_append (first behind : List (Event ι)) (pool : Pool ι F α σ) :
    performed M program (first ++ behind) pool = performed M program first pool ++
      performed M program behind (Run.after (serve M program) first pool) := by
  induction first generalizing pool with
  | nil => rfl
  | cons event first ih =>
    rw [List.cons_append, performed, ih, performed, List.append_assoc]
    rfl

theorem performed_split {events : List (Event ι)} {pool : Pool ι F α σ}
    {first behind : List (Performed ι F)} {x : Performed ι F}
    (h : performed M program events pool = first ++ x::behind) :
    ∃ before event later, events = before ++ event::later ∧
      performed M program before pool = first ∧
      performs M event (Run.after (serve M program) before pool) = some x := by
  induction events generalizing pool first with
  | nil => simp [performed] at h
  | cons event events ih =>
    rw [performed] at h
    cases hperforms : performs M event pool with
    | none =>
      rw [hperforms] at h
      obtain ⟨before, event', later, rfl, hbefore, hx⟩ := ih h
      refine ⟨event::before, event', later, rfl, ?_, hx⟩
      rw [performed, hperforms, hbefore]
      rfl
    | some y =>
      rw [hperforms] at h
      cases first with
      | nil =>
        obtain ⟨rfl, -⟩ := List.cons.inj h
        exact ⟨[], event, events, rfl, rfl, hperforms⟩
      | cons z first =>
        obtain ⟨rfl, hrest⟩ := List.cons.inj h
        obtain ⟨before, event', later, rfl, hbefore, hx⟩ := ih hrest
        refine ⟨event::before, event', later, rfl, ?_, hx⟩
        rw [performed, hperforms, hbefore]
        rfl

/-- What every operation keeps or retires is still there, or an operation performed has
retired it. -/
theorem kept_or_retired {P : σ → Prop} {Retires : Answered F → Prop}
    (hstep : ∀ {β : Type} (op : F β) s, P s →
      P (M.perform op s).2 ∨ Retires ⟨β, op, (M.perform op s).1⟩)
    (events : List (Event ι)) (pool : Pool ι F α σ) (h : P pool.shared) :
    P (Run.after (serve M program) events pool).shared ∨
      ∃ x ∈ performed M program events pool, Retires x.done := by
  induction events generalizing pool with
  | nil => exact Or.inl h
  | cons event events ih =>
    rw [Run.after, performed]
    have hnext : P (serve M program event pool).2.shared ∨
        ∃ x ∈ (performs M event pool).toList, Retires x.done := by
      cases event with
      | start i => exact Or.inl h
      | advance n =>
        cases hpending : pending pool (.advance n) with
        | none => exact Or.inl (by simpa [serve, hpending] using h)
        | some x =>
          obtain ⟨i, β, op, next⟩ := x
          rw [performs_pending M hpending]
          refine (hstep op pool.shared h).imp (fun hkept => ?_) fun hgone => ?_
          · simpa [serve, hpending] using hkept
          · exact ⟨_, List.mem_singleton.mpr rfl, hgone⟩
    rcases hnext with hkept | ⟨x, hx, hgone⟩
    · refine (ih _ hkept).imp_right ?_
      rintro ⟨x, hx, hgone⟩
      exact ⟨x, List.mem_append_right _ hx, hgone⟩
    · exact Or.inr ⟨x, List.mem_append_left _ hx, hgone⟩

theorem result_eq_some {p : Program F α} {i j : ι} {a : α}
    (h : p.result.map (Prod.mk i) = some (j, a)) : i = j ∧ p = .done a := by
  cases p with
  | done b =>
    obtain ⟨rfl, rfl⟩ := Prod.mk.inj (Option.some.inj h)
    exact ⟨rfl, rfl⟩
  | call op next => cases h

theorem getElem?_concat_some {A : Type*} {l : List A} {a b : A} {n : ℕ}
    (h : (l ++ [a])[n]? = some b) : l[n]? = some b ∨ n = l.length ∧ a = b := by
  rcases Nat.lt_or_ge n l.length with hold | hnew
  · exact Or.inl (by rwa [List.getElem?_append_left hold] at h)
  · rw [List.getElem?_append_right hnew, List.getElem?_singleton] at h
    split at h
    · exact Or.inr ⟨by omega, Option.some.inj h⟩
    · cases h

/-- Each call has come from its program to where it stands by what it has performed. -/
structure Traced (log : List (Performed ι F)) (pool : Pool ι F α σ) : Prop where
  calls : ∀ n i p, pool.calls[n]? = some (i, p) → (program i).Leads (ofCall n log) p
  within : ∀ x ∈ log, x.call < pool.calls.length

theorem Traced.new (s : σ) : Traced program [] (Pool.new s : Pool ι F α σ) :=
  ⟨by simp [Pool.new], by simp⟩

theorem ofCall_later {n : ℕ} {log : List (Performed ι F)} (h : ∀ x ∈ log, x.call < n) :
    ofCall n log = [] := by
  rw [ofCall, List.map_eq_nil_iff, List.filter_eq_nil_iff]
  intro x hx
  simpa using Nat.ne_of_lt (h x hx)

theorem ofCall_append (n : ℕ) (log more : List (Performed ι F)) :
    ofCall n (log ++ more) = ofCall n log ++ ofCall n more := by
  simp [ofCall]

variable {M} {program}

theorem Traced.serve {log : List (Performed ι F)} {pool : Pool ι F α σ}
    (h : Traced program log pool) (event : Event ι) :
    Traced program (log ++ (performs M event pool).toList) (serve M program event pool).2 := by
  cases event with
  | start i =>
    rw [performs, Option.toList_none, List.append_nil]
    constructor
    · intro n j p hcall
      change (pool.calls ++ [(i, program i)])[n]? = _ at hcall
      rcases getElem?_concat_some hcall with hold | ⟨rfl, hnew⟩
      · exact h.calls n j p hold
      · obtain ⟨rfl, rfl⟩ := Prod.mk.inj hnew
        rw [ofCall_later h.within]
        exact .here _
    · intro x hx
      change _ < (pool.calls ++ [(i, program i)]).length
      rw [List.length_append, List.length_singleton]
      exact Nat.lt_succ_of_lt (h.within x hx)
  | advance m =>
    cases hpending : pending pool (.advance m) with
    | none => simpa [Interleaving.serve, performs, hpending] using h
    | some x =>
      obtain ⟨i, β, op, next⟩ := x
      have hat := pending_advance hpending
      rw [performs_pending M hpending]
      simp only [Interleaving.serve, hpending, Option.toList_some]
      constructor
      · intro n j p hcall
        rw [ofCall_append]
        by_cases hn : m = n
        · subst hn
          rw [List.getElem?_set_self (List.getElem?_eq_some_iff.mp hat).1] at hcall
          obtain ⟨rfl, rfl⟩ := Prod.mk.inj (Option.some.inj hcall)
          have hlast := (h.calls m i _ hat).snoc (M.perform op pool.shared).1
          simpa [ofCall] using hlast
        · rw [List.getElem?_set_ne hn] at hcall
          simpa [ofCall, hn] using h.calls n j p hcall
      · intro x hx
        rw [List.length_set]
        rcases List.mem_append.mp hx with hold | hnew
        · exact h.within x hold
        · obtain rfl := List.mem_singleton.mp hnew
          exact (List.getElem?_eq_some_iff.mp hat).1

theorem Traced.run {log : List (Performed ι F)} {pool : Pool ι F α σ}
    (h : Traced program log pool) (events : List (Event ι)) :
    Traced program (log ++ performed M program events pool)
      (Run.after (Interleaving.serve M program) events pool) := by
  induction events generalizing log pool with
  | nil => simpa [performed, Run.after] using h
  | cons event events ih =>
    rw [performed, ← List.append_assoc]
    exact ih (h.serve event)

theorem Traced.result {log : List (Performed ι F)} {pool : Pool ι F α σ}
    (h : Traced program log pool) {n : ℕ} {i : ι} {a : α}
    (hresult : (Interleaving.serve M program (.advance n) pool).1 = some (i, a)) :
    (program i).Leads (ofCall n (log ++ (performs M (.advance n) pool).toList)) (.done a) := by
  have hnext := (h.serve (M := M) (.advance n)).calls n i (.done a)
  cases hpending : pending pool (.advance n) with
  | none => simp [Interleaving.serve, hpending] at hresult
  | some x =>
    obtain ⟨j, β, op, next⟩ := x
    have hat := (List.getElem?_eq_some_iff.mp (pending_advance hpending)).1
    simp only [Interleaving.serve, hpending] at hresult hnext
    obtain ⟨rfl, hdone⟩ := result_eq_some hresult
    exact hnext (by rw [List.getElem?_set_self hat, hdone])

end Serve

section Contracts

variable {M : Machine F σ} {program : ι → Program F α} {C : ℕ → ι → Contract F}
  {Known : ℕ → ι → Answered F → Prop} {I : σ → Prop} {Q : ℕ → ι → α → Prop}

/-- The state is as it should be, and what is left of each call keeps its contract. -/
structure Sound (C : ℕ → ι → Contract F) (I : σ → Prop) (Q : ℕ → ι → α → Prop)
    (pool : Pool ι F α σ) : Prop where
  shared : I pool.shared
  calls : ∀ n i (p : Program F α), pool.calls[n]? = some (i, p) → p.Meets (C n i) (Q n i)

theorem Sound.new {s : σ} (h : I s) : Sound C I Q (Pool.new s : Pool ι F α σ) :=
  ⟨h, by simp [Pool.new]⟩

theorem Sound.asks {pool : Pool ι F α σ} (h : Sound C I Q pool) {n : ℕ} {i : ι}
    {β : Type} {op : F β} {next : β → Program F α}
    (hpending : pending pool (.advance n) = some (i, ⟨β, op, next⟩)) : (C n i).asks op :=
  (h.calls n _ _ (pending_advance hpending)).1

variable (hM : ∀ n i, M.Upholds (C n i) (Known n i) I)

include hM

theorem Sound.serve {pool : Pool ι F α σ} (h : Sound C I Q pool) (event : Event ι)
    (hp : ∀ n i, event = .start i → (program i).Meets (C n i) (Q n i))
    (hknown : ∀ x, performs M event pool = some x → Known x.call x.request x.done) :
    Sound C I Q (serve M program event pool).2 ∧ ∀ n i a, event = .advance n →
      (serve M program event pool).1 = some (i, a) → Q n i a := by
  cases event with
  | start i =>
    refine ⟨⟨h.shared, fun n j p hcall => ?_⟩, by simp⟩
    change (pool.calls ++ [(i, program i)])[n]? = _ at hcall
    rcases getElem?_concat_some hcall with hold | ⟨-, hnew⟩
    · exact h.calls n j p hold
    · obtain ⟨rfl, rfl⟩ := Prod.mk.inj hnew
      exact hp n i rfl
  | advance n =>
    cases hpending : pending pool (.advance n) with
    | none => simp [Interleaving.serve, hpending, h]
    | some x =>
      obtain ⟨i, β, op, next⟩ := x
      have hat := pending_advance hpending
      obtain ⟨hasks, hnext⟩ := h.calls n i _ hat
      obtain ⟨hpromise, hkept⟩ := hM n i op pool.shared h.shared hasks
        (hknown _ (performs_pending M hpending))
      have hmeets := hnext _ hpromise
      simp only [Interleaving.serve, hpending]
      refine ⟨⟨hkept, fun m j p hcall => ?_⟩, fun m j a hm hresult => ?_⟩
      · by_cases hn : n = m
        · subst hn
          rw [List.getElem?_set_self (List.getElem?_eq_some_iff.mp hat).1] at hcall
          obtain ⟨rfl, rfl⟩ := Prod.mk.inj (Option.some.inj hcall)
          exact hmeets
        · rw [List.getElem?_set_ne hn] at hcall
          exact h.calls m j p hcall
      · obtain rfl := Event.advance.inj hm
        obtain ⟨rfl, hdone⟩ := result_eq_some hresult
        rw [hdone] at hmeets
        exact hmeets

theorem Sound.run (events : List (Event ι)) (pool : Pool ι F α σ) (h : Sound C I Q pool)
    (hp : ∀ n i, .start i ∈ events → (program i).Meets (C n i) (Q n i))
    (hknown : ∀ x ∈ performed M program events pool, Known x.call x.request x.done) :
    Sound C I Q (Run.after (Interleaving.serve M program) events pool) := by
  induction events generalizing pool with
  | nil => exact h
  | cons event events ih =>
    obtain ⟨hnext, -⟩ := h.serve hM event (fun n i hi => hp n i (by simp [hi])) fun x hx =>
      hknown x (by simp [performed, hx])
    exact ih _ hnext (fun n i hi => hp n i (List.mem_cons_of_mem _ hi)) fun x hx =>
      hknown x (List.mem_append_right _ hx)

end Contracts

section Ending

variable {M : Machine F σ} {program : ι → Program F α} {Last : ι → (β : Type) → F β → Prop}
  {P : ι → (β : Type) → F β → β → α → Prop}

def Ending (Last : ι → (β : Type) → F β → Prop) (P : ι → (β : Type) → F β → β → α → Prop)
    (pool : Pool ι F α σ) : Prop :=
  ∀ call ∈ pool.calls, call.2.Ends (Last call.1) (P call.1)

theorem Ending.serve (hp : ∀ i, (program i).Ends (Last i) (P i)) {pool : Pool ι F α σ}
    (h : Ending Last P pool) (event : Event ι) :
    Ending Last P (serve M program event pool).2 ∧
      ∀ i β op next, pending pool event = some (i, ⟨β, op, next⟩) → Last i β op →
        ∃ a, (serve M program event pool).1 = some (i, a) ∧
          P i β op (M.perform op pool.shared).1 a := by
  cases event with
  | start i =>
    refine ⟨fun call hcall => ?_, by simp [pending]⟩
    rcases List.mem_append.mp hcall with hold | hnew
    · exact h call hold
    · obtain rfl := List.mem_singleton.mp hnew
      exact hp i
  | advance n =>
    cases hpending : pending pool (.advance n) with
    | none => simp [Interleaving.serve, hpending, h]
    | some x =>
      obtain ⟨i, β, op, next⟩ := x
      have hmem := List.mem_of_getElem? (pending_advance hpending)
      have hends := h _ hmem (M.perform op pool.shared).1
      simp only [Interleaving.serve, hpending]
      constructor
      · intro call hcall
        rcases List.mem_or_eq_of_mem_set hcall with hold | rfl
        · exact h call hold
        · exact hends.2
      · intro j γ op' next' hsame hlast
        obtain ⟨rfl, hop⟩ := Prod.mk.inj (Option.some.inj hsame)
        obtain ⟨rfl, hop⟩ := Sigma.mk.inj hop
        obtain ⟨rfl, rfl⟩ := Prod.mk.inj (eq_of_heq hop)
        obtain ⟨a, ha, hP⟩ := hends.1 hlast
        exact ⟨a, by rw [ha]; rfl, hP⟩

theorem Ending.run (hp : ∀ i, (program i).Ends (Last i) (P i)) {pool : Pool ι F α σ}
    (h : Ending Last P pool) (events : List (Event ι)) :
    Ending Last P (Run.after (Interleaving.serve M program) events pool) :=
  Run.invariant (Interleaving.serve M program) (Ending Last P)
    (fun event _ hpool => (hpool.serve hp event).1) events pool h

end Ending

section Linked

variable {M : Machine F σ} {N : Machine F τ} {program program' : ι → Program F α}
  {Paired : (β : Type) → F β → F β → Prop} {Agree : (β : Type) → F β → β → β → Prop}
  {R : σ → τ → Prop} {Q : ι → α → α → Prop}

def SameCall (Paired : (β : Type) → F β → F β → Prop) (Agree : (β : Type) → F β → β → β → Prop)
    (Q : ι → α → α → Prop) (c d : ι × Program F α) : Prop :=
  c.1 = d.1 ∧ Program.Alike Paired Agree (Q c.1) c.2 d.2

def SameResult (Q : ι → α → α → Prop) (x y : ι × α) : Prop := x.1 = y.1 ∧ Q x.1 x.2 y.2

structure Linked (Paired : (β : Type) → F β → F β → Prop)
    (Agree : (β : Type) → F β → β → β → Prop) (R : σ → τ → Prop) (Q : ι → α → α → Prop)
    (pool : Pool ι F α σ) (pool' : Pool ι F α τ) : Prop where
  shared : R pool.shared pool'.shared
  calls : List.Forall₂ (SameCall Paired Agree Q) pool.calls pool'.calls

def Admissible (fit : ι → Prop) (ok : (β : Type) → F β → τ → Prop) (event : Event ι)
    (pool : Pool ι F α τ) : Prop :=
  (∀ i, event = .start i → fit i) ∧
    ∀ i β op next, pending pool event = some (i, ⟨β, op, next⟩) → ok β op pool.shared

def startsFit (fit : ι → Prop) : Event ι → Prop
  | .start i => fit i
  | .advance _ => True

instance (fit : ι → Prop) [DecidablePred fit] : (event : Event ι) → Decidable (startsFit fit event)
  | .start i => inferInstanceAs (Decidable (fit i))
  | .advance _ => .isTrue trivial

instance (fit : ι → Prop) [DecidablePred fit] (ok : (β : Type) → F β → τ → Prop)
    [∀ β op t, Decidable (ok β op t)] (event : Event ι) (pool : Pool ι F α τ) :
    Decidable (Admissible fit ok event pool) :=
  decidable_of_iff (startsFit fit event ∧ ∀ x ∈ pending pool event, ok x.2.1 x.2.2.1 pool.shared)
    ⟨fun ⟨hfit, h⟩ => ⟨fun _ hi => by subst hi; exact hfit, fun _ _ _ _ hx => h _ hx⟩,
      fun ⟨hfit, h⟩ => ⟨by
        cases event with
        | start i => exact hfit i rfl
        | advance n => trivial, fun _ hx => h _ _ _ _ hx⟩⟩

theorem forall₂_getElem? {A B : Type*} {P : A → B → Prop} {l : List A} {l' : List B}
    (h : List.Forall₂ P l l') (n : ℕ) : Option.Rel P l[n]? l'[n]? := by
  induction h generalizing n with
  | nil => exact .none
  | cons hP _ ih =>
    cases n with
    | zero => exact .some hP
    | succ n => exact ih n

theorem forall₂_set {A B : Type*} {P : A → B → Prop} {l : List A} {l' : List B}
    (h : List.Forall₂ P l l') (n : ℕ) {a : A} {b : B} (hab : P a b) :
    List.Forall₂ P (l.set n a) (l'.set n b) := by
  induction h generalizing n with
  | nil => exact .nil
  | cons hP hrest ih =>
    cases n with
    | zero => exact .cons hab hrest
    | succ n => exact .cons hP (ih n)

theorem alike_result {i : ι} {p q : Program F α} (h : Program.Alike Paired Agree (Q i) p q) :
    Option.Rel (SameResult Q) (p.result.map (Prod.mk i)) (q.result.map (Prod.mk i)) := by
  cases h with
  | done h => exact .some ⟨rfl, h⟩
  | call hop h => exact .none

theorem pending_alike {pool : Pool ι F α σ} {pool' : Pool ι F α τ}
    (h : List.Forall₂ (SameCall Paired Agree Q) pool.calls pool'.calls) (n : ℕ) :
    (pending pool (.advance n) = none ∧ pending pool' (.advance n) = none) ∨
      ∃ i β op op' next next', pending pool (.advance n) = some (i, ⟨β, op, next⟩) ∧
        pending pool' (.advance n) = some (i, ⟨β, op', next'⟩) ∧ Paired β op op' ∧
        ∀ x y, Agree β op' x y → Program.Alike Paired Agree (Q i) (next x) (next' y) := by
  have hcalls := forall₂_getElem? h n
  simp only [pending]
  generalize pool.calls[n]? = c at hcalls ⊢
  generalize pool'.calls[n]? = d at hcalls ⊢
  cases hcalls with
  | none => exact Or.inl ⟨rfl, rfl⟩
  | some hsame =>
    rename_i c d
    obtain ⟨i, p⟩ := c
    obtain ⟨j, q⟩ := d
    obtain ⟨hi, halike⟩ := hsame
    obtain rfl : i = j := hi
    cases halike with
    | done _ => exact Or.inl ⟨rfl, rfl⟩
    | call hop hnext => exact Or.inr ⟨i, _, _, _, _, _, rfl, rfl, hop, hnext⟩

variable {fit : ι → Prop} {ok : (β : Type) → F β → τ → Prop}
  (hM : ∀ β op op' s t, R s t → Paired β op op' → ok β op' t →
    Agree β op' (M.perform op s).1 (N.perform op' t).1 ∧
      R (M.perform op s).2 (N.perform op' t).2)
  (hp : ∀ i, fit i → Program.Alike Paired Agree (Q i) (program i) (program' i))

include hM hp

theorem Linked.serve (event : Event ι) (pool : Pool ι F α σ) (pool' : Pool ι F α τ)
    (h : Linked Paired Agree R Q pool pool') (hok : Admissible fit ok event pool') :
    Option.Rel (SameResult Q) (serve M program event pool).1 (serve N program' event pool').1 ∧
      Linked Paired Agree R Q (serve M program event pool).2
        (serve N program' event pool').2 := by
  cases event with
  | start i =>
    have halike := hp i (hok.1 i rfl)
    exact ⟨alike_result halike, h.shared,
      List.rel_append h.calls (.cons ⟨rfl, halike⟩ .nil)⟩
  | advance n =>
    rcases pending_alike h.calls n with ⟨hnone, hnone'⟩ |
      ⟨i, β, op, op', next, next', hsome, hsome', hop, hnext⟩
    · simp only [Interleaving.serve, hnone, hnone']
      exact ⟨.none, h⟩
    · obtain ⟨hagree, hR⟩ := hM β op op' pool.shared pool'.shared h.shared hop
        (hok.2 i β op' next' hsome')
      simp only [Interleaving.serve, hsome, hsome']
      exact ⟨alike_result (hnext _ _ hagree), hR,
        forall₂_set h.calls n ⟨rfl, hnext _ _ hagree⟩⟩

/-- Whatever the schedule, the two machines give results alike. -/
theorem Linked.run (events : List (Event ι)) (pool : Pool ι F α σ) (pool' : Pool ι F α τ)
    (h : Linked Paired Agree R Q pool pool')
    (hok : Run.Along (Admissible fit ok) (Interleaving.serve N program') events pool') :
    List.Forall₂ (Option.Rel (SameResult Q))
        (Run.answers (Interleaving.serve M program) events pool)
        (Run.answers (Interleaving.serve N program') events pool') ∧
      Linked Paired Agree R Q (Run.after (Interleaving.serve M program) events pool)
        (Run.after (Interleaving.serve N program') events pool') :=
  Run.simulation_rel _ _ (Linked Paired Agree R Q) _ (Admissible fit ok)
    (fun event pool pool' h hok => h.serve hM hp event pool pool' hok) events pool pool' h hok

end Linked

end Interleaving
