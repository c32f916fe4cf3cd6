import Mathlib.Data.List.Basic
import Mathlib.Tactic.Common

/-!
# Readers over a buffer and the languages they read

A reader looks at a buffer from an offset on and returns a value with the
offset behind what it has read. It reads a language when it succeeds exactly on
the words of the language, whatever follows them. Such readers compose, and a
language that a reader reads is unambiguous.
-/

set_option autoImplicit false

def Reader (ε β α : Type) := List β → ℕ → Except ε (α × ℕ)

namespace Reader

variable {ε β α γ : Type}

def value (a : α) : Reader ε β α := fun _ i => .ok (a, i)

def andThen (p : Reader ε β α) (q : α → Reader ε β γ) : Reader ε β γ := fun buf i =>
  match p buf i with
  | .error e => .error e
  | .ok (a, j) => q a buf j

instance : Monad (Reader ε β) where
  pure := value
  bind := andThen

def check (result : Except ε α) : Reader ε β α := fun _ i =>
  match result with
  | .error e => .error e
  | .ok a => .ok (a, i)

def require (condition : Bool) (e : ε) : Reader ε β Unit :=
  check (if condition then .ok () else .error e)

def times (p : Reader ε β α) : ℕ → Reader ε β (List α)
  | 0 => value []
  | n+1 => andThen p (fun a => andThen (times p n) (fun as => value (a::as)))

/-- Read items up to the end of the buffer and stop at the first hit. -/
def scanFrom (item : Reader ε β α) (hit : α → Except ε Bool) (buf : List β) :
    ℕ → ℕ → Except ε Bool
  | 0, _ => .ok false
  | fuel+1, i =>
    if i < buf.length then
      match item buf i with
      | .error e => .error e
      | .ok (a, j) =>
        match hit a with
        | .error e => .error e
        | .ok true => .ok true
        | .ok false => scanFrom item hit buf fuel j
    else .ok false

def scan (item : Reader ε β α) (hit : α → Except ε Bool) (buf : List β) : Except ε Bool :=
  scanFrom item hit buf buf.length 0

/-- Reader `p` succeeds exactly on the words of `G`, with their values. -/
def Reads (p : Reader ε β α) (G : List β → α → Prop) : Prop :=
  ∀ buf i, i ≤ buf.length → ∀ a j, p buf i = .ok (a, j) ↔
    ∃ x, G x a ∧ buf.drop i = x ++ buf.drop j ∧ j = i+x.length

theorem drop_split {buf : List β} {i : ℕ} (hi : i ≤ buf.length) {x c : List β}
    (h : buf.drop i = x ++ c) : i+x.length ≤ buf.length ∧ buf.drop (i+x.length) = c := by
  have hlen := congrArg List.length h
  rw [List.length_drop, List.length_append] at hlen
  refine ⟨by omega, ?_⟩
  rw [← List.drop_drop, h, List.drop_left]

theorem Reads.next_le {buf : List β} {i j : ℕ} (hi : i ≤ buf.length) {x : List β}
    (h : buf.drop i = x ++ buf.drop j) (hj : j = i+x.length) : j ≤ buf.length :=
  hj ▸ (drop_split hi h).1

theorem Reads.read {p : Reader ε β α} {G : List β → α → Prop} (h : Reads p G) {buf : List β}
    {i : ℕ} (hi : i ≤ buf.length) {x c : List β} {a : α} (hx : G x a)
    (hd : buf.drop i = x ++ c) : p buf i = .ok (a, i+x.length) :=
  (h buf i hi a _).mpr ⟨x, hx, by rw [(drop_split hi hd).2, hd], rfl⟩

theorem Reads.congr {p : Reader ε β α} {G H : List β → α → Prop} (h : Reads p G)
    (hGH : ∀ x a, G x a ↔ H x a) : Reads p H := by
  intro buf i hi a j
  simp only [h buf i hi a j, hGH]

theorem Reads.unambiguous {p : Reader ε β α} {G : List β → α → Prop} (h : Reads p G)
    {x y c d : List β} {a b : α} (hx : G x a) (hy : G y b) (he : x ++ c = y ++ d) :
    x = y ∧ a = b ∧ c = d := by
  have hpx : p (x ++ c) 0 = .ok (a, 0+x.length) := h.read (Nat.zero_le _) hx rfl
  have hpy : p (x ++ c) 0 = .ok (b, 0+y.length) := h.read (Nat.zero_le _) hy he
  rw [hpx] at hpy
  simp only [Except.ok.injEq, Prod.mk.injEq, Nat.zero_add] at hpy
  obtain ⟨hxy, hcd⟩ := List.append_inj he hpy.2
  exact ⟨hxy, hpy.1, hcd⟩

theorem reads_value (a : α) : Reads (value a : Reader ε β α) (fun x b => x = [] ∧ b = a) := by
  intro buf i _ b j
  simp only [value, Except.ok.injEq, Prod.mk.injEq]
  constructor
  · rintro ⟨rfl, rfl⟩
    exact ⟨[], ⟨rfl, rfl⟩, rfl, rfl⟩
  · rintro ⟨x, ⟨rfl, rfl⟩, -, rfl⟩
    exact ⟨rfl, rfl⟩

theorem reads_check (result : Except ε α) :
    Reads (check result : Reader ε β α) (fun x a => x = [] ∧ result = .ok a) := by
  intro buf i _ a j
  cases result with
  | error e => simp [check]
  | ok b =>
    simp only [check, Except.ok.injEq, Prod.mk.injEq]
    constructor
    · rintro ⟨rfl, rfl⟩
      exact ⟨[], ⟨rfl, rfl⟩, rfl, rfl⟩
    · rintro ⟨x, ⟨rfl, rfl⟩, -, rfl⟩
      exact ⟨rfl, rfl⟩

theorem reads_require (condition : Bool) (e : ε) :
    Reads (require condition e : Reader ε β Unit) (fun x _ => x = [] ∧ condition = true) := by
  refine (reads_check _).congr ?_
  intro x a
  cases condition <;> simp

theorem Reads.andThen {p : Reader ε β α} {q : α → Reader ε β γ} {G : List β → α → Prop}
    {H : α → List β → γ → Prop} (hp : Reads p G) (hq : ∀ a, Reads (q a) (H a)) :
    Reads (Reader.andThen p q)
      (fun z c => ∃ x a y, z = x ++ y ∧ G x a ∧ H a y c) := by
  intro buf i hi c k
  constructor
  · intro h
    unfold Reader.andThen at h
    cases hpi : p buf i with
    | error e => simp [hpi] at h
    | ok r =>
      rw [hpi] at h
      obtain ⟨x, hx, hdx, hjx⟩ := (hp buf i hi r.1 r.2).mp hpi
      have hj := Reads.next_le hi hdx hjx
      obtain ⟨y, hy, hdy, hky⟩ := (hq r.1 buf r.2 hj c k).mp h
      refine ⟨x ++ y, ⟨x, r.1, y, rfl, hx, hy⟩, by rw [hdx, hdy, List.append_assoc], ?_⟩
      rw [hky, hjx, List.length_append, Nat.add_assoc]
  · rintro ⟨z, ⟨x, a, y, rfl, hx, hy⟩, hd, rfl⟩
    rw [List.append_assoc] at hd
    obtain ⟨hj, hdrop⟩ := drop_split hi hd
    rw [List.length_append, ← Nat.add_assoc] at hd ⊢
    rw [Reader.andThen, hp.read hi hx hd]
    exact (hq a).read hj hy hdrop

theorem Reads.bind {p : Reader ε β α} {q : α → Reader ε β γ} {G : List β → α → Prop}
    {H : α → List β → γ → Prop} (hp : Reads p G) (hq : ∀ a, Reads (q a) (H a)) :
    Reads (p >>= q) (fun z c => ∃ x a y, z = x ++ y ∧ G x a ∧ H a y c) :=
  hp.andThen hq

theorem reads_pure (a : α) : Reads (pure a : Reader ε β α) (fun x b => x = [] ∧ b = a) :=
  reads_value a

inductive Items (G : List β → α → Prop) : List β → List α → Prop where
  | nil : Items G [] []
  | cons (x : List β) (a : α) (ys : List β) (as : List α) :
      G x a → Items G ys as → Items G (x ++ ys) (a::as)

theorem reads_times {p : Reader ε β α} {G : List β → α → Prop} (hp : Reads p G) (n : ℕ) :
    Reads (times p n) (fun z as => Items G z as ∧ as.length = n) := by
  induction n with
  | zero =>
    refine (reads_value _).congr ?_
    intro x as
    constructor
    · rintro ⟨rfl, rfl⟩
      exact ⟨.nil, rfl⟩
    · rintro ⟨hi, hl⟩
      obtain rfl := List.length_eq_zero_iff.mp hl
      cases hi
      exact ⟨rfl, rfl⟩
  | succ n ih =>
    refine (hp.andThen (fun a => ih.andThen (fun as => reads_value (a::as)))).congr ?_
    intro z as
    constructor
    · rintro ⟨x, a, y, rfl, hx, ys, bs, w, rfl, ⟨hi, rfl⟩, rfl, rfl⟩
      exact ⟨by simpa using Items.cons x a ys bs hx hi, rfl⟩
    · rintro ⟨hi, hl⟩
      cases hi with
      | nil => simp at hl
      | cons x a ys bs hx hi =>
        exact ⟨x, a, ys, rfl, hx, ys, bs, [], by simp, ⟨hi, by simpa using hl⟩, rfl, rfl⟩

theorem Items.of_append {p : Reader ε β α} {G : List β → α → Prop} (hp : Reads p G)
    (hne : ∀ x a, G x a → x ≠ []) {x : List β} {as : List α} (hx : Items G x as) {rest : List β}
    {cs : List α} (h : Items G (x ++ rest) cs) : ∃ bs, cs = as ++ bs ∧ Items G rest bs := by
  induction hx generalizing cs with
  | nil => exact ⟨cs, rfl, h⟩
  | cons x a ys as hx has ih =>
    rw [List.append_assoc] at h
    generalize hz : x ++ (ys ++ rest) = z at h
    cases h with
    | nil => exact absurd (List.append_eq_nil_iff.mp hz).1 (hne x a hx)
    | cons y b zs ds hy hds =>
      obtain ⟨rfl, rfl, rfl⟩ := hp.unambiguous hx hy hz
      obtain ⟨bs, rfl, hbs⟩ := ih hds
      exact ⟨bs, rfl, hbs⟩

theorem Reads.take {p : Reader ε β α} {G : List β → α → Prop} (h : Reads p G) {buf : List β}
    {i j n : ℕ} (hi : i ≤ buf.length) {a : α} (hr : p buf i = .ok (a, j)) (hn : j ≤ n) :
    p (buf.take n) i = .ok (a, j) := by
  obtain ⟨x, hx, hd, rfl⟩ := (h buf i hi a j).mp hr
  have hroom := (drop_split hi hd).1
  have hcut : (buf.take n).drop i = x ++ (buf.drop (i+x.length)).take (n-i-x.length) := by
    have hfront : x.take (n-i) = x := List.take_of_length_le (by omega)
    rw [List.drop_take, hd, List.take_append, hfront]
  exact h.read (by rw [List.length_take]; omega) hx hcut

/-- A reader that succeeds fails with `e` on the buffer cut off within what it read. -/
def DetectsCut (e : ε) (p : Reader ε β α) : Prop :=
  ∀ buf i, i ≤ buf.length → ∀ a j, p buf i = .ok (a, j) → ∀ n, i ≤ n → n < j →
    p (buf.take n) i = .error e

theorem detectsCut_value (e : ε) (a : α) : DetectsCut e (value a : Reader ε β α) := by
  intro buf i _ b j h n hi hn
  simp only [value, Except.ok.injEq, Prod.mk.injEq] at h
  omega

theorem detectsCut_check (e : ε) (result : Except ε α) :
    DetectsCut e (check result : Reader ε β α) := by
  intro buf i _ a j h n hi hn
  cases result with
  | error _ => simp [check] at h
  | ok b =>
    simp only [check, Except.ok.injEq, Prod.mk.injEq] at h
    omega

theorem DetectsCut.andThen {e : ε} {p : Reader ε β α} {q : α → Reader ε β γ}
    {G : List β → α → Prop} (hreads : Reads p G) (hp : DetectsCut e p)
    (hq : ∀ a, DetectsCut e (q a)) : DetectsCut e (Reader.andThen p q) := by
  intro buf i hi c k h n hin hnk
  rw [Reader.andThen] at h ⊢
  cases hpi : p buf i with
  | error e' => simp [hpi] at h
  | ok r =>
    rw [hpi] at h
    by_cases hcut : n < r.2
    · rw [hp buf i hi r.1 r.2 hpi n hin hcut]
    · obtain ⟨x, -, hd, hj⟩ := (hreads buf i hi r.1 r.2).mp hpi
      rw [hreads.take hi hpi (by omega)]
      exact hq r.1 buf r.2 (Reads.next_le hi hd hj) c k h n (by omega) hnk

theorem DetectsCut.bind {e : ε} {p : Reader ε β α} {q : α → Reader ε β γ}
    {G : List β → α → Prop} (hreads : Reads p G) (hp : DetectsCut e p)
    (hq : ∀ a, DetectsCut e (q a)) : DetectsCut e (p >>= q) :=
  hp.andThen hreads hq

theorem detectsCut_times {e : ε} {p : Reader ε β α} {G : List β → α → Prop} (hreads : Reads p G)
    (hp : DetectsCut e p) (n : ℕ) : DetectsCut e (times p n) := by
  induction n with
  | zero => exact detectsCut_value e []
  | succ n ih =>
    exact hp.andThen hreads (fun a => ih.andThen (reads_times hreads n)
      (fun as => detectsCut_value e (a::as)))

/-- What a scan sees: items without a hit up to the end, or up to the first hit. -/
inductive Scanned (G : List β → α → Prop) (hit : α → Except ε Bool) : List β → Bool → Prop where
  | done : Scanned G hit [] false
  | skip (x : List β) (a : α) (ys : List β) (b : Bool) :
      G x a → hit a = .ok false → Scanned G hit ys b → Scanned G hit (x ++ ys) b
  | found (x : List β) (a : α) (ys : List β) :
      G x a → hit a = .ok true → Scanned G hit (x ++ ys) true

theorem scanFrom_iff {item : Reader ε β α} {G : List β → α → Prop} (hp : Reads item G)
    (hne : ∀ x a, G x a → x ≠ []) (hit : α → Except ε Bool) (buf : List β) (fuel i : ℕ)
    (hi : i ≤ buf.length) (hf : buf.length ≤ i+fuel) (b : Bool) :
    scanFrom item hit buf fuel i = .ok b ↔ Scanned G hit (buf.drop i) b := by
  induction fuel generalizing i with
  | zero =>
    have hnil : buf.drop i = [] := List.drop_eq_nil_of_le hf
    rw [hnil, scanFrom, Except.ok.injEq]
    constructor
    · rintro rfl
      exact .done
    · intro h
      generalize hz : ([] : List β) = z at h
      cases h with
      | done => rfl
      | skip x a ys b hx =>
        exact absurd (List.append_eq_nil_iff.mp hz.symm).1 (hne x a hx)
      | found x a ys hx =>
        exact absurd (List.append_eq_nil_iff.mp hz.symm).1 (hne x a hx)
  | succ fuel ih =>
    rw [scanFrom]
    by_cases hlt : i < buf.length
    · rw [if_pos hlt]
      constructor
      · intro h
        cases hr : item buf i with
        | error e => simp [hr] at h
        | ok r =>
          obtain ⟨x, hx, hd, hj⟩ := (hp buf i hi r.1 r.2).mp hr
          have hjl := Reads.next_le hi hd hj
          have hpos := List.length_pos_iff.mpr (hne x r.1 hx)
          simp only [hr] at h
          rw [hd]
          cases hh : hit r.1 with
          | error e => simp [hh] at h
          | ok stop =>
            cases stop with
            | true =>
              simp only [hh, Except.ok.injEq] at h
              exact h ▸ .found x r.1 _ hx hh
            | false =>
              simp only [hh] at h
              exact .skip x r.1 _ b hx hh ((ih r.2 hjl (by omega)).mp h)
      · intro h
        generalize hz : buf.drop i = z at h
        cases h with
        | done =>
          have hlen := congrArg List.length hz
          simp only [List.length_drop, List.length_nil] at hlen
          omega
        | skip x a ys b hx hh hs =>
          obtain ⟨hjl, hdrop⟩ := drop_split hi hz
          have hpos := List.length_pos_iff.mpr (hne x a hx)
          rw [hp.read hi hx hz]
          simp only [hh]
          exact (ih _ hjl (by omega)).mpr (hdrop ▸ hs)
        | found x a ys hx hh =>
          rw [hp.read hi hx hz]
          simp only [hh]
    · have hnil : buf.drop i = [] := List.drop_eq_nil_of_le (by omega)
      rw [if_neg hlt, hnil, Except.ok.injEq]
      constructor
      · rintro rfl
        exact .done
      · intro h
        generalize hz : ([] : List β) = z at h
        cases h with
        | done => rfl
        | skip x a ys b hx =>
          exact absurd (List.append_eq_nil_iff.mp hz.symm).1 (hne x a hx)
        | found x a ys hx =>
          exact absurd (List.append_eq_nil_iff.mp hz.symm).1 (hne x a hx)

theorem scan_iff {item : Reader ε β α} {G : List β → α → Prop} (hp : Reads item G)
    (hne : ∀ x a, G x a → x ≠ []) (hit : α → Except ε Bool) (buf : List β) (b : Bool) :
    scan item hit buf = .ok b ↔ Scanned G hit buf b := by
  have h := scanFrom_iff hp hne hit buf buf.length 0 (Nat.zero_le _) (by omega) b
  rwa [List.drop_zero] at h

theorem scanned_false {G : List β → α → Prop} {hit : α → Except ε Bool} {buf : List β} :
    Scanned G hit buf false ↔ ∃ as, Items G buf as ∧ ∀ a ∈ as, hit a = .ok false := by
  constructor
  · intro h
    generalize hb : false = b at h
    induction h with
    | done => exact ⟨[], .nil, by simp⟩
    | skip x a ys b hx hh hs ih =>
      subst hb
      obtain ⟨as, has, hall⟩ := ih rfl
      exact ⟨a::as, .cons x a ys as hx has, by simpa [hh] using hall⟩
    | found => simp at hb
  · rintro ⟨as, has, hall⟩
    induction has with
    | nil => exact .done
    | cons x a ys as hx has ih =>
      exact .skip x a ys false hx (hall a (by simp)) (ih (fun c hc => hall c (by simp [hc])))

theorem scanned_true {G : List β → α → Prop} {hit : α → Except ε Bool} {buf : List β} :
    Scanned G hit buf true ↔ ∃ x as y a rest, buf = x ++ (y ++ rest) ∧ Items G x as ∧
      (∀ c ∈ as, hit c = .ok false) ∧ G y a ∧ hit a = .ok true := by
  constructor
  · intro h
    generalize hb : true = b at h
    induction h with
    | done => simp at hb
    | skip x a ys b hx hh hs ih =>
      obtain ⟨x', as, y, a', rest, rfl, has, hall, hy, ha'⟩ := ih hb
      exact ⟨x ++ x', a::as, y, a', rest, by simp, .cons x a x' as hx has,
        by simpa [hh] using hall, hy, ha'⟩
    | found x a ys hx hh => exact ⟨[], [], x, a, ys, rfl, .nil, by simp, hx, hh⟩
  · rintro ⟨x, as, y, a, rest, rfl, has, hall, hy, ha⟩
    induction has with
    | nil => exact .found y a rest hy ha
    | cons x c ys as hx has ih =>
      rw [List.append_assoc]
      exact .skip x c _ true hx (hall c (by simp)) (ih (fun c hc => hall c (by simp [hc])))

end Reader
