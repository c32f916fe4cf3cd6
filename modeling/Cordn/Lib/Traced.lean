import Cordn.Lib.Reader

/-!
# Executions that record what they do

An execution lists its operations in order and returns a value, fails with an
error, panics, or does not end within the rounds its loops are given. It settles
a result when every operation on the way is safe and the result is what it ends
with; this composes along the execution, and for readers along the buffer.
-/

set_option autoImplicit false

inductive Outcome (ε α : Type) where
  | returned (a : α)
  | failed (e : ε)
  | panicked
  | unfinished
  deriving DecidableEq, Repr

structure Traced (ω ε α : Type) where
  trace : List ω
  outcome : Outcome ε α
  deriving DecidableEq, Repr

namespace Traced

variable {ω ε β α γ : Type}

def value (a : α) : Traced ω ε α := ⟨[], .returned a⟩

def fail (e : ε) : Traced ω ε α := ⟨[], .failed e⟩

def unfinished : Traced ω ε α := ⟨[], .unfinished⟩

def note (op : ω) : Traced ω ε Unit := ⟨[op], .returned ()⟩

def perform (op : ω) (result : Option α) : Traced ω ε α :=
  ⟨[op], match result with
    | none => .panicked
    | some a => .returned a⟩

def ofExcept : Except ε α → Traced ω ε α
  | .error e => fail e
  | .ok a => value a

def andThen (x : Traced ω ε α) (f : α → Traced ω ε γ) : Traced ω ε γ :=
  match x.outcome with
  | .returned a => ⟨x.trace ++ (f a).trace, (f a).outcome⟩
  | .failed e => ⟨x.trace, .failed e⟩
  | .panicked => ⟨x.trace, .panicked⟩
  | .unfinished => ⟨x.trace, .unfinished⟩

instance : Monad (Traced ω ε) where
  pure := value
  bind := andThen

/-- Every operation is safe, and the execution ends with the result. -/
structure Settles (safe : ω → Prop) (x : Traced ω ε α) (result : Except ε α) : Prop where
  safe : ∀ op ∈ x.trace, safe op
  outcome : x.outcome = (ofExcept result : Traced ω ε α).outcome

variable {safe : ω → Prop}

theorem settles_value (a : α) : Settles safe (value a : Traced ω ε α) (.ok a) :=
  ⟨by simp [value], rfl⟩

theorem settles_fail (e : ε) : Settles safe (fail e : Traced ω ε α) (.error e) :=
  ⟨by simp [fail], rfl⟩

theorem settles_note {op : ω} (h : safe op) : Settles safe (note op : Traced ω ε Unit) (.ok ()) :=
  ⟨by simp [note, h], rfl⟩

theorem settles_perform {op : ω} (h : safe op) (a : α) :
    Settles safe (perform op (some a) : Traced ω ε α) (.ok a) :=
  ⟨by simp [perform, h], rfl⟩

theorem settles_ofExcept (result : Except ε α) :
    Settles safe (ofExcept result : Traced ω ε α) result := by
  cases result with
  | error e => exact settles_fail e
  | ok a => exact settles_value a

theorem Settles.error {x : Traced ω ε α} {e : ε} (h : Settles safe x (.error e))
    (f : α → Traced ω ε γ) : Settles safe (x >>= f) (.error e) := by
  have hx : x.outcome = .failed e := h.outcome
  have hbind : x >>= f = ⟨x.trace, .failed e⟩ := by
    change andThen x f = _
    simp only [andThen, hx]
  rw [hbind]
  exact ⟨h.safe, rfl⟩

theorem Settles.ok {x : Traced ω ε α} {a : α} (h : Settles safe x (.ok a))
    {f : α → Traced ω ε γ} {result : Except ε γ} (hf : Settles safe (f a) result) :
    Settles safe (x >>= f) result := by
  have hx : x.outcome = .returned a := h.outcome
  have hbind : x >>= f = ⟨x.trace ++ (f a).trace, (f a).outcome⟩ := by
    change andThen x f = _
    simp only [andThen, hx]
  rw [hbind]
  refine ⟨?_, hf.outcome⟩
  intro op hop
  rcases List.mem_append.mp hop with hin | hin
  · exact h.safe op hin
  · exact hf.safe op hin

end Traced

def TracedReader (ω ε β α : Type) := List β → ℕ → Traced ω ε (α × ℕ)

namespace TracedReader
open Reader Traced

variable {ω ε β α γ : Type}

def value (a : α) : TracedReader ω ε β α := fun _ i => Traced.value (a, i)

def andThen (p : TracedReader ω ε β α) (q : α → TracedReader ω ε β γ) : TracedReader ω ε β γ :=
  fun buf i => p buf i >>= fun read => q read.1 buf read.2

instance : Monad (TracedReader ω ε β) where
  pure := value
  bind := andThen

def lift (x : Traced ω ε α) : TracedReader ω ε β α :=
  fun _ i => x >>= fun a => Traced.value (a, i)

def require (condition : Bool) (e : ε) : TracedReader ω ε β Unit :=
  lift (ofExcept (if condition then .ok () else .error e))

def times (p : TracedReader ω ε β α) : ℕ → TracedReader ω ε β (List α)
  | 0 => value []
  | n+1 => andThen p (fun a => andThen (times p n) (fun as => value (a::as)))

/-- On buffers of up to `bound` items the reader safely reads what `q` reads. -/
def Follows (safe : ω → Prop) (bound : ℕ) (p : TracedReader ω ε β α) (q : Reader ε β α) : Prop :=
  ∀ buf i, buf.length ≤ bound → i ≤ buf.length → Settles safe (p buf i) (q buf i)

variable {safe : ω → Prop} {bound : ℕ}

theorem follows_value (a : α) :
    Follows safe bound (value a : TracedReader ω ε β α) (Reader.value a) :=
  fun _ i _ _ => settles_value (a, i)

theorem follows_lift {x : Traced ω ε α} {result : Except ε α} (h : Settles safe x result) :
    Follows safe bound (lift x : TracedReader ω ε β α) (Reader.check result) := by
  intro buf i _ _
  cases result with
  | error e => exact h.error _
  | ok a => exact h.ok (settles_value (a, i))

theorem follows_require (condition : Bool) (e : ε) :
    Follows safe bound (require condition e : TracedReader ω ε β Unit)
      (Reader.require condition e) :=
  follows_lift (settles_ofExcept _)

theorem Follows.mono {p : TracedReader ω ε β α} {q : Reader ε β α} {less : ℕ}
    (h : Follows safe bound p q) (hless : less ≤ bound) : Follows safe less p q :=
  fun buf i hbuf hi => h buf i (Nat.le_trans hbuf hless) hi

theorem Follows.andThen_read {p : TracedReader ω ε β α} {p' : Reader ε β α}
    {G : List β → α → Prop} {q : α → TracedReader ω ε β γ} {q' : α → Reader ε β γ}
    (hp : Follows safe bound p p') (hreads : Reads p' G)
    (hq : ∀ x a, G x a → x.length ≤ bound → Follows safe bound (q a) (q' a)) :
    Follows safe bound (TracedReader.andThen p q) (Reader.andThen p' q') := by
  intro buf i hbuf hi
  have hfirst := hp buf i hbuf hi
  rw [Reader.andThen]
  cases hread : p' buf i with
  | error e =>
    rw [hread] at hfirst
    exact hfirst.error _
  | ok read =>
    rw [hread] at hfirst
    obtain ⟨x, hx, hd, hj⟩ := (hreads buf i hi read.1 read.2).mp hread
    have hnext := Reads.next_le hi hd hj
    exact hfirst.ok (hq x read.1 hx (by omega) buf read.2 hbuf hnext)

theorem Follows.andThen {p : TracedReader ω ε β α} {p' : Reader ε β α} {G : List β → α → Prop}
    {q : α → TracedReader ω ε β γ} {q' : α → Reader ε β γ} (hp : Follows safe bound p p')
    (hreads : Reads p' G) (hq : ∀ a, Follows safe bound (q a) (q' a)) :
    Follows safe bound (TracedReader.andThen p q) (Reader.andThen p' q') :=
  hp.andThen_read hreads (fun _ a _ _ => hq a)

theorem Follows.bind {p : TracedReader ω ε β α} {p' : Reader ε β α} {G : List β → α → Prop}
    {q : α → TracedReader ω ε β γ} {q' : α → Reader ε β γ} (hp : Follows safe bound p p')
    (hreads : Reads p' G) (hq : ∀ a, Follows safe bound (q a) (q' a)) :
    Follows safe bound (p >>= q) (p' >>= q') :=
  hp.andThen hreads hq

theorem Follows.bind_read {p : TracedReader ω ε β α} {p' : Reader ε β α}
    {G : List β → α → Prop} {q : α → TracedReader ω ε β γ} {q' : α → Reader ε β γ}
    (hp : Follows safe bound p p') (hreads : Reads p' G)
    (hq : ∀ x a, G x a → x.length ≤ bound → Follows safe bound (q a) (q' a)) :
    Follows safe bound (p >>= q) (p' >>= q') :=
  hp.andThen_read hreads hq

theorem follows_times {p : TracedReader ω ε β α} {p' : Reader ε β α} {G : List β → α → Prop}
    (hp : Follows safe bound p p') (hreads : Reads p' G) (n : ℕ) :
    Follows safe bound (times p n) (Reader.times p' n) := by
  induction n with
  | zero => exact follows_value []
  | succ n ih =>
    exact hp.andThen hreads (fun a => ih.andThen (reads_times hreads n)
      (fun as => follows_value (a::as)))

end TracedReader
