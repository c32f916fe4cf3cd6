import Mathlib.Tactic.Common

/-!
# Programs over the operations of a machine

A program ends with a value, or performs one operation and goes on with its
answer. A machine answers the operations on a state. What a program may perform
and rely on is a contract; a machine that upholds it keeps an invariant.
-/

set_option autoImplicit false

universe u

inductive Program (F : Type → Type u) (α : Type) : Type (max 1 u) where
  | done (a : α)
  | call {β : Type} (op : F β) (next : β → Program F α)

abbrev Answered (F : Type → Type u) : Type (max 1 u) := Σ β : Type, F β × β

structure Machine (F : Type → Type u) (σ : Type) where
  perform : {β : Type} → F β → σ → β × σ

/-- What an operation asks of the one who performs it, and what its answer promises. -/
structure Contract (F : Type → Type u) where
  asks : {β : Type} → F β → Prop
  promises : {β : Type} → F β → β → Prop

/-- The machine keeps `I` and its promises, to those who perform what is asked. Of the
answers that it gives, something may be known. -/
def Machine.Upholds {F : Type → Type u} {σ : Type} (M : Machine F σ) (C : Contract F)
    (Known : Answered F → Prop) (I : σ → Prop) : Prop :=
  ∀ {β : Type} (op : F β) (s : σ), I s → C.asks op → Known ⟨β, op, (M.perform op s).1⟩ →
    C.promises op (M.perform op s).1 ∧ I (M.perform op s).2

namespace Program

variable {F : Type → Type u} {α β σ τ : Type}

def bind : Program F α → (α → Program F β) → Program F β
  | done a, q => q a
  | call op next, q => call op (fun b => (next b).bind q)

instance : Monad (Program F) where
  pure := done
  bind := bind

def result : Program F α → Option α
  | done a => some a
  | call _ _ => none

def alone (M : Machine F σ) : Program F α → σ → α × σ
  | done a, s => (a, s)
  | call op next, s => alone M (next (M.perform op s).1) (M.perform op s).2

@[simp] theorem done_bind (a : α) (q : α → Program F β) : done a >>= q = q a := rfl

theorem alone_bind (M : Machine F σ) (p : Program F α) (q : α → Program F β) (s : σ) :
    alone M (p >>= q) s = alone M (q (alone M p s).1) (alone M p s).2 := by
  induction p generalizing s with
  | done a => rfl
  | call op next ih => exact ih _ _

/-- It performs what is asked, relies on what is promised, and ends with a `Q`. -/
def Meets (C : Contract F) (Q : α → Prop) : Program F α → Prop
  | done a => Q a
  | call op next => C.asks op ∧ ∀ b, C.promises op b → (next b).Meets C Q

theorem Meets.bind {C : Contract F} {Q : α → Prop} {Q' : β → Prop} {p : Program F α}
    {q : α → Program F β} (hp : p.Meets C Q) (hq : ∀ a, Q a → (q a).Meets C Q') :
    (p >>= q).Meets C Q' := by
  induction p with
  | done a => exact hq a hp
  | call op next ih => exact ⟨hp.1, fun b hb => ih b (hp.2 b hb)⟩

theorem Meets.mono {C : Contract F} {Q Q' : α → Prop} {p : Program F α} (hp : p.Meets C Q)
    (h : ∀ a, Q a → Q' a) : p.Meets C Q' := by
  induction p with
  | done a => exact h a hp
  | call op next ih => exact ⟨hp.1, fun b hb => ih b (hp.2 b hb)⟩

inductive Leads : Program F α → List (Answered F) → Program F α → Prop where
  | here (p : Program F α) : Leads p [] p
  | call {β : Type} (op : F β) (next : β → Program F α) (answer : β)
      {trace : List (Answered F)} {q : Program F α} (h : Leads (next answer) trace q) :
      Leads (call op next) (⟨β, op, answer⟩::trace) q

theorem Leads.snoc {p : Program F α} {trace : List (Answered F)} {op : F β}
    {next : β → Program F α} (h : Leads p trace (.call op next)) (answer : β) :
    Leads p (trace ++ [⟨β, op, answer⟩]) (next answer) := by
  generalize hq : Program.call op next = q at h
  induction h with
  | here =>
    subst hq
    exact .call op next answer (.here _)
  | call op' next' answer' _ ih => exact .call op' next' answer' (ih hq)

theorem leads_done {a : α} {trace : List (Answered F)} {q : Program F α}
    (h : Leads (done a) trace q) : trace = [] ∧ q = done a := by
  cases h
  exact ⟨rfl, rfl⟩

theorem leads_call {op : F β} {next : β → Program F α} {trace : List (Answered F)} {a : α}
    (h : Leads (.call op next) trace (done a)) :
    ∃ answer behind, trace = ⟨β, op, answer⟩::behind ∧ Leads (next answer) behind (done a) := by
  cases h with
  | call op next answer hbehind => exact ⟨answer, _, rfl, hbehind⟩

theorem Leads.split {p : Program F α} {q : α → Program F β} {trace : List (Answered F)} {b : β}
    (h : Leads (p >>= q) trace (done b)) :
    ∃ first behind a, trace = first ++ behind ∧ Leads p first (done a) ∧
      Leads (q a) behind (done b) := by
  induction p generalizing trace with
  | done a => exact ⟨[], trace, a, rfl, .here _, h⟩
  | call op next ih =>
    obtain ⟨answer, rest, rfl, hrest⟩ := leads_call h
    obtain ⟨first, behind, a, rfl, hfirst, hbehind⟩ := ih answer hrest
    exact ⟨_, behind, a, rfl, .call op next answer hfirst, hbehind⟩

/-- Programs that perform operations in pairs, whatever answers alike they get, and end
with results alike. -/
inductive Alike (Paired : (β : Type) → F β → F β → Prop)
    (Agree : (β : Type) → F β → β → β → Prop) (Q : α → α → Prop) :
    Program F α → Program F α → Prop where
  | done {a b : α} (h : Q a b) : Alike Paired Agree Q (done a) (done b)
  | call {β : Type} {op op' : F β} {next next' : β → Program F α}
      (hop : Paired β op op')
      (h : ∀ x y, Agree β op' x y → Alike Paired Agree Q (next x) (next' y)) :
      Alike Paired Agree Q (call op next) (call op' next')

variable {Paired : (β : Type) → F β → F β → Prop} {Agree : (β : Type) → F β → β → β → Prop}

theorem Alike.bind {Q : α → α → Prop} {Q' : β → β → Prop} {p p' : Program F α}
    {q q' : α → Program F β} (hp : Alike Paired Agree Q p p')
    (hq : ∀ a b, Q a b → Alike Paired Agree Q' (q a) (q' b)) :
    Alike Paired Agree Q' (p >>= q) (p' >>= q') := by
  induction hp with
  | done h => exact hq _ _ h
  | call hop _ ih => exact .call hop ih

def Atomic : Program F α → Prop
  | done _ => True
  | call _ next => ∀ b, ∃ a, next b = done a

theorem Atomic.bind {p : Program F α} (h : Atomic p) {q : α → Program F β}
    (hq : ∀ a, ∃ b, q a = done b) : Atomic (p >>= q) := by
  cases p with
  | done a =>
    obtain ⟨b, hb⟩ := hq a
    rw [done_bind, hb]
    trivial
  | call op next =>
    intro answer
    obtain ⟨a, ha⟩ := h answer
    obtain ⟨b, hb⟩ := hq a
    refine ⟨b, ?_⟩
    change (next answer >>= q) = done b
    rw [ha, done_bind, hb]

theorem Atomic.next {γ : Type} {op : F γ} {next : γ → Program F α} (h : Atomic (call op next))
    (M : Machine F σ) (s : σ) :
    next (M.perform op s).1 = done (alone M (call op next) s).1 ∧
      (M.perform op s).2 = (alone M (call op next) s).2 := by
  obtain ⟨a, ha⟩ := h (M.perform op s).1
  rw [alone, ha]
  exact ⟨rfl, rfl⟩

/-- Behind a `Last` operation the program is over, with a result that follows from the
answer. -/
def Ends (Last : (β : Type) → F β → Prop) (P : (β : Type) → F β → β → α → Prop) :
    Program F α → Prop
  | done _ => True
  | call op next => ∀ b, (Last _ op → ∃ a, next b = done a ∧ P _ op b a) ∧ (next b).Ends Last P

variable {Last : (β : Type) → F β → Prop}

theorem Ends.bind {P : (γ : Type) → F γ → γ → β → Prop} {p : Program F α} {q : α → Program F β}
    (hp : p.Ends Last (fun _ _ _ _ => False)) (hq : ∀ a, (q a).Ends Last P) :
    (p >>= q).Ends Last P := by
  induction p with
  | done a => exact hq a
  | call op next ih =>
    refine fun b => ⟨fun hlast => ?_, ih b (hp b).2⟩
    obtain ⟨_, _, hnone⟩ := (hp b).1 hlast
    cases hnone

theorem Ends.map {P : (γ : Type) → F γ → γ → α → Prop} {P' : (γ : Type) → F γ → γ → β → Prop}
    {p : Program F α} (hp : p.Ends Last P) (f : α → β)
    (hP : ∀ γ op b a, P γ op b a → P' γ op b (f a)) :
    (p >>= fun a => done (f a)).Ends Last P' := by
  induction p with
  | done a => trivial
  | call op next ih =>
    refine fun b => ⟨fun hlast => ?_, ih b (hp b).2⟩
    obtain ⟨a, ha, hresult⟩ := (hp b).1 hlast
    refine ⟨f a, ?_, hP _ op b a hresult⟩
    change (next b >>= fun a => done (f a)) = done (f a)
    rw [ha, done_bind]

theorem ends_never (h : ∀ γ op, ¬Last γ op) {P : (γ : Type) → F γ → γ → α → Prop}
    (p : Program F α) : p.Ends Last P := by
  induction p with
  | done a => trivial
  | call op next ih => exact fun b => ⟨fun hlast => absurd hlast (h _ op), ih b⟩

end Program
