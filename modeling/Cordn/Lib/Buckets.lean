import Cordn.Lib.IndexMap
import Mathlib.Algebra.GroupWithZero.Nat
import Mathlib.Data.List.Count
import Mathlib.Data.List.Perm.Basic

/-!
# A map of vectors and the one list it splits

A bucket map files every element under its key. Reading the buckets one after
the other gives the contents. The results say how the usual in-place edits of
one bucket act on the contents, and when such a map holds exactly the elements
of one list, each key's elements in that list's order.
-/

set_option autoImplicit false

namespace IndexMap

variable {κ α : Type*} [DecidableEq κ]

def bucket (m : IndexMap κ (List α)) (k : κ) : List α := (m.get? k).getD []

def contents (m : IndexMap κ (List α)) : List α := m.values.flatten

def pushBack (m : IndexMap κ (List α)) (k : κ) (a : α) : IndexMap κ (List α) :=
  m.upsert k (fun o => o.getD [] ++ [a])

/-- Write a bucket back and drop its key when nothing is left in it. -/
def putBack (m : IndexMap κ (List α)) (k : κ) (as : List α) : IndexMap κ (List α) :=
  if as.isEmpty then (m.insert k as).shiftRemove k else m.insert k as

/-- Keep only some elements of every bucket and drop the keys that emptied;
also how many elements went. -/
def retainAll (keep : α → Bool) (m : IndexMap κ (List α)) : ℕ × IndexMap κ (List α) :=
  let kept := m.mapValues (fun _ as => as.filter keep)
  let emptyKeys := (kept.entries.filter (fun e => e.2.isEmpty)).map Prod.fst
  ((m.values.map (fun as => as.length - (as.filter keep).length)).sum,
    emptyKeys.foldl shiftRemove kept)

def position (p : α → Bool) : List α → Option (ℕ × α)
  | [] => none
  | a::as => if p a then some (0, a) else (position p as).map (fun x => (x.1+1, x.2))

def modifyFirst (p : α → Bool) (f : α → α) : List α → List α
  | [] => []
  | a::as => if p a then f a::as else a::modifyFirst p f as

/-- Every element lies under its own key. -/
def Keyed (key : α → κ) (m : IndexMap κ (List α)) : Prop :=
  ∀ k, ∀ a ∈ m.bucket k, key a = k

/-- The map holds the elements of `l`, each key's elements in the order of `l`. -/
def Holds (key : α → κ) (m : IndexMap κ (List α)) (l : List α) : Prop :=
  ∀ k, m.bucket k = l.filter (fun a => decide (key a = k))

@[simp] theorem bucket_empty (k : κ) : (empty : IndexMap κ (List α)).bucket k = [] := rfl

@[simp] theorem bucket_pushBack (m : IndexMap κ (List α)) (k x : κ) (a : α) :
    (m.pushBack k a).bucket x = if x = k then m.bucket k ++ [a] else m.bucket x := by
  by_cases h : x = k <;> simp [bucket, pushBack, h]

@[simp] theorem bucket_insert (m : IndexMap κ (List α)) (k x : κ) (as : List α) :
    (m.insert k as).bucket x = if x = k then as else m.bucket x := by
  by_cases h : x = k <;> simp [bucket, h]

@[simp] theorem bucket_shiftRemove (m : IndexMap κ (List α)) (k x : κ) :
    (m.shiftRemove k).bucket x = if x = k then [] else m.bucket x := by
  by_cases h : x = k <;> simp [bucket, h]

@[simp] theorem bucket_putBack (m : IndexMap κ (List α)) (k x : κ) (as : List α) :
    (m.putBack k as).bucket x = if x = k then as else m.bucket x := by
  unfold putBack
  split
  · rename_i h
    have he : as = [] := List.isEmpty_iff.mp h
    by_cases hx : x = k <;> simp [hx, he]
  · simp

@[simp] theorem bucket_adjust (m : IndexMap κ (List α)) (k x : κ) (f : List α → List α)
    (hf : f [] = []) :
    (m.adjust k f).bucket x = if x = k then f (m.bucket k) else m.bucket x := by
  by_cases h : x = k
  · subst h
    cases hm : m.get? x <;> simp [bucket, hm, hf]
  · simp [bucket, h]

theorem bucket_mapValues (m : IndexMap κ (List α)) (f : List α → List α) (hf : f [] = [])
    (k : κ) : (m.mapValues (fun _ => f)).bucket k = f (m.bucket k) := by
  cases hm : m.get? k <;> simp [bucket, hm, hf]

theorem bucket_removeKeys (ks : List κ) (m : IndexMap κ (List α)) (k : κ)
    (h : ∀ x ∈ ks, m.bucket x = []) :
    (ks.foldl shiftRemove m).bucket k = m.bucket k := by
  induction ks generalizing m with
  | nil => rfl
  | cons x ks ih =>
    have hx : m.bucket x = [] := h x (by simp)
    have hs : ∀ y, (m.shiftRemove x).bucket y = m.bucket y := by
      intro y
      by_cases hy : y = x <;> simp [hy, hx]
    rw [List.foldl_cons, ih _ (fun y hy => by rw [hs]; exact h y (by simp [hy])), hs]

theorem bucket_emptied (m : IndexMap κ (List α)) (x : κ)
    (h : x ∈ (m.entries.filter (fun e => e.2.isEmpty)).map Prod.fst) : m.bucket x = [] := by
  obtain ⟨e, he, rfl⟩ := List.mem_map.mp h
  obtain ⟨he, hempty⟩ := List.mem_filter.mp he
  have hg := (get?_eq_some_iff m e.1 e.2).mpr he
  rw [bucket, hg, Option.getD_some]
  exact List.isEmpty_iff.mp hempty

theorem bucket_retainAll (keep : α → Bool) (m : IndexMap κ (List α)) (k : κ) :
    (m.retainAll keep).2.bucket k = (m.bucket k).filter keep := by
  have hkept := bucket_mapValues m (List.filter keep) (by simp) k
  rw [← hkept]
  exact bucket_removeKeys _ _ k (bucket_emptied _)

theorem flatten_without (es : List (κ × List α)) (x : κ)
    (h : ∀ e ∈ es, e.1 = x → e.2 = []) :
    ((es.filter (fun e => decide (e.1 ≠ x))).map Prod.snd).flatten =
      (es.map Prod.snd).flatten := by
  induction es with
  | nil => rfl
  | cons e es ih =>
    have hrest := ih (fun e' he' => h e' (List.mem_cons_of_mem e he'))
    by_cases hkey : e.1 = x
    · have hnil := h e (by simp) hkey
      simpa [hkey, hnil] using hrest
    · simpa [hkey] using hrest

theorem contents_removeKeys (ks : List κ) (m : IndexMap κ (List α))
    (h : ∀ x ∈ ks, m.bucket x = []) : (ks.foldl shiftRemove m).contents = m.contents := by
  induction ks generalizing m with
  | nil => rfl
  | cons x ks ih =>
    have hone : (m.shiftRemove x).contents = m.contents := by
      apply flatten_without
      rintro e he rfl
      have hempty := h e.1 (by simp)
      rwa [bucket, (get?_eq_some_iff m e.1 e.2).mpr he, Option.getD_some] at hempty
    have hs : ∀ y ∈ ks, (m.shiftRemove x).bucket y = [] := by
      intro y hy
      by_cases hyx : y = x
      · simp [hyx]
      · simp [hyx, h y (by simp [hy])]
    rw [List.foldl_cons, ih _ hs, hone]

theorem contents_retainAll (keep : α → Bool) (m : IndexMap κ (List α)) :
    (m.retainAll keep).2.contents = m.contents.filter keep := by
  have hmapped : (m.mapValues (fun _ as => as.filter keep)).contents = m.contents.filter keep := by
    simp [contents, values, mapValues, List.filter_flatten, Function.comp_def]
  rw [← hmapped]
  exact contents_removeKeys _ _ (bucket_emptied _)

theorem retainAll_count (keep : α → Bool) (m : IndexMap κ (List α)) :
    (m.retainAll keep).1 = m.contents.countP (fun a => !keep a) := by
  have hone : ∀ as : List α,
      as.length - (as.filter keep).length = as.countP (fun a => !keep a) := by
    intro as
    rw [as.length_eq_countP_add_countP keep, List.countP_eq_length_filter]
    simp [List.countP_eq_length_filter]
  simp only [retainAll, hone, contents, List.countP_flatten]

theorem split_of_get? (m : IndexMap κ (List α)) (k : κ) (as : List α) (h : m.get? k = some as) :
    ∃ pre post, m.entries = pre ++ (k, as)::post :=
  List.append_of_mem ((get?_eq_some_iff m k as).mp h)

omit [DecidableEq κ] in
theorem split_keys (m : IndexMap κ (List α)) (k : κ) (as : List α)
    (pre post : List (κ × List α)) (h : m.entries = pre ++ (k, as)::post) :
    (∀ e ∈ pre, e.1 ≠ k) ∧ ∀ e ∈ post, e.1 ≠ k := by
  have hn := m.nodup
  rw [h, List.map_append, List.map_cons, List.nodup_append] at hn
  obtain ⟨-, hc, hd⟩ := hn
  constructor
  · intro e he hk
    exact hd e.1 (List.mem_map_of_mem he) k (by simp) hk
  · intro e he hk
    have hm : e.1 ∈ post.map Prod.fst := List.mem_map_of_mem he
    rw [hk] at hm
    exact (List.nodup_cons.mp hc).1 hm

theorem split_get? (m : IndexMap κ (List α)) (k : κ) (as : List α)
    (pre post : List (κ × List α)) (h : m.entries = pre ++ (k, as)::post) :
    m.get? k = some as :=
  (get?_eq_some_iff m k as).mpr (by simp [h])

theorem split_bucket (m : IndexMap κ (List α)) (k : κ) (as : List α)
    (pre post : List (κ × List α)) (h : m.entries = pre ++ (k, as)::post) :
    m.bucket k = as := by
  rw [bucket, split_get? m k as pre post h, Option.getD_some]

theorem alter_split (k : κ) (f : Option (List α) → List α) (as : List α)
    (pre post : List (κ × List α)) (h : ∀ e ∈ pre, e.1 ≠ k) :
    alter k f (pre ++ (k, as)::post) = pre ++ (k, f (some as))::post := by
  induction pre with
  | nil => simp [alter]
  | cons e pre ih =>
    have he : e.1 ≠ k := h e (by simp)
    simp only [List.cons_append, alter, he, if_false]
    rw [ih (fun x hx => h x (by simp [hx]))]

theorem alter_absent (k : κ) (f : Option (List α) → List α) (es : List (κ × List α))
    (h : ∀ e ∈ es, e.1 ≠ k) : alter k f es = es ++ [(k, f none)] := by
  induction es with
  | nil => rfl
  | cons e es ih =>
    have he : e.1 ≠ k := h e (by simp)
    simp only [List.cons_append, alter, he, if_false]
    rw [ih (fun x hx => h x (by simp [hx]))]

omit [DecidableEq κ] in
theorem contents_split (m : IndexMap κ (List α)) (k : κ) (as : List α)
    (pre post : List (κ × List α)) (h : m.entries = pre ++ (k, as)::post) :
    m.contents = (pre.map Prod.snd).flatten ++ as ++ (post.map Prod.snd).flatten := by
  simp [contents, values, h]

theorem contents_putBack (m : IndexMap κ (List α)) (k : κ) (as bs : List α)
    (pre post : List (κ × List α)) (h : m.entries = pre ++ (k, as)::post) :
    (m.putBack k bs).contents =
      (pre.map Prod.snd).flatten ++ bs ++ (post.map Prod.snd).flatten := by
  obtain ⟨hpre, hpost⟩ := split_keys m k as pre post h
  have hi : (m.insert k bs).entries = pre ++ (k, bs)::post := by
    simp only [insert, upsert, h]
    exact alter_split k _ as pre post hpre
  unfold putBack
  split
  · rename_i he
    have hb : bs = [] := List.isEmpty_iff.mp he
    have hf : ∀ es : List (κ × List α), (∀ e ∈ es, e.1 ≠ k) →
        es.filter (fun e => decide (e.1 ≠ k)) = es :=
      fun es hes => List.filter_eq_self.mpr (fun e he => by simpa using hes e he)
    simp only [contents, values, shiftRemove, hi, List.filter_append, hf pre hpre,
      List.filter_cons, hf post hpost]
    simp [hb]
  · simp [contents, values, hi]

/-- A push goes behind the last element of its bucket, or to the very end. -/
theorem contents_pushBack (m : IndexMap κ (List α)) (k : κ) (a : α) :
    ∃ before behind, m.contents = before ++ behind ∧
      (m.pushBack k a).contents = before ++ a::behind := by
  cases hm : m.get? k with
  | none =>
    have hk : ∀ e ∈ m.entries, e.1 ≠ k := by
      intro e he hk
      have hs := (get?_isSome_iff m k).mpr (List.mem_map.mpr ⟨e, he, hk⟩)
      simp [hm] at hs
    refine ⟨m.contents, [], by simp, ?_⟩
    simp [contents, values, pushBack, upsert, alter_absent k _ m.entries hk]
  | some as =>
    obtain ⟨pre, post, h⟩ := split_of_get? m k as hm
    refine ⟨_, _, contents_split m k as pre post h, ?_⟩
    simp [contents, values, pushBack, upsert, h,
      alter_split k _ as pre post (split_keys m k as pre post h).1]

theorem contents_pushBack_perm (m : IndexMap κ (List α)) (k : κ) (a : α) :
    (m.pushBack k a).contents.Perm (a::m.contents) := by
  obtain ⟨before, behind, hm, hp⟩ := contents_pushBack m k a
  rw [hm, hp]
  exact List.perm_middle

theorem position_eq_none (p : α → Bool) (as : List α) :
    position p as = none ↔ ∀ a ∈ as, p a = false := by
  induction as with
  | nil => simp [position]
  | cons a as ih =>
    cases hp : p a <;> simp [position, hp, ih]

theorem position_split (p : α → Bool) (as : List α) (i : ℕ) (a : α)
    (h : position p as = some (i, a)) :
    ∃ xs ys, as = xs ++ a::ys ∧ xs.length = i ∧ p a = true ∧ ∀ x ∈ xs, p x = false := by
  induction as generalizing i with
  | nil => simp [position] at h
  | cons b as ih =>
    cases hp : p b with
    | true =>
      simp only [position, hp, if_true, Option.some.injEq, Prod.mk.injEq] at h
      obtain ⟨rfl, rfl⟩ := h
      exact ⟨[], as, rfl, rfl, hp, by simp⟩
    | false =>
      simp only [position, hp, Bool.false_eq_true, if_false, Option.map_eq_some_iff] at h
      obtain ⟨⟨j, c⟩, hj, he⟩ := h
      simp only [Prod.mk.injEq] at he
      obtain ⟨rfl, rfl⟩ := he
      obtain ⟨xs, ys, rfl, rfl, hc, hxs⟩ := ih j hj
      exact ⟨b::xs, ys, rfl, rfl, hc, by simpa [hp] using hxs⟩

theorem modifyFirst_eq_map (p : α → Bool) (f : α → α) (as : List α)
    (h : as.Pairwise (fun a b => ¬(p a = true ∧ p b = true))) :
    modifyFirst p f as = as.map (fun a => if p a then f a else a) := by
  induction as with
  | nil => rfl
  | cons a as ih =>
    obtain ⟨ha, has⟩ := List.pairwise_cons.mp h
    cases hp : p a with
    | false => simp [modifyFirst, hp, ih has]
    | true =>
      have hrest : as.map (fun b => if p b then f b else b) = as := by
        conv_rhs => rw [← List.map_id as]
        apply List.map_congr_left
        intro b hb
        have hpb : ¬ p b = true := fun hpb => ha b hb ⟨hp, hpb⟩
        simp [hpb]
      simp [modifyFirst, hp, hrest]

theorem keyed_empty (key : α → κ) : Keyed key (empty : IndexMap κ (List α)) := by
  intro k a ha
  simp at ha

theorem keyed_pushBack (key : α → κ) (m : IndexMap κ (List α)) (a : α) (h : Keyed key m) :
    Keyed key (m.pushBack (key a) a) := by
  intro k b hb
  rw [bucket_pushBack] at hb
  split at hb
  · rename_i hk
    rcases List.mem_append.mp hb with hm | hm
    · rw [hk]
      exact h _ b hm
    · rw [List.mem_singleton.mp hm, hk]
  · exact h k b hb

theorem keyed_putBack (key : α → κ) (m : IndexMap κ (List α)) (k : κ) (as : List α)
    (h : Keyed key m) (has : ∀ a ∈ as, a ∈ m.bucket k) : Keyed key (m.putBack k as) := by
  intro x a ha
  rw [bucket_putBack] at ha
  split at ha
  · rename_i hx
    rw [hx]
    exact h k a (has a ha)
  · exact h x a ha

theorem keyed_split (key : α → κ) (m : IndexMap κ (List α)) (k : κ) (as : List α)
    (pre post : List (κ × List α)) (h : Keyed key m) (hs : m.entries = pre ++ (k, as)::post) :
    (∀ a ∈ (pre.map Prod.snd).flatten, key a ≠ k) ∧ (∀ a ∈ as, key a = k) ∧
      ∀ a ∈ (post.map Prod.snd).flatten, key a ≠ k := by
  obtain ⟨hpre, hpost⟩ := split_keys m k as pre post hs
  have hown : ∀ e ∈ m.entries, ∀ a ∈ e.2, key a = e.1 := by
    intro e he a ha
    apply h
    rw [bucket, (get?_eq_some_iff m e.1 e.2).mpr he, Option.getD_some]
    exact ha
  rw [hs] at hown
  refine ⟨?_, hown (k, as) (by simp), ?_⟩
  · intro a ha
    obtain ⟨bs, hbs, hab⟩ := List.mem_flatten.mp ha
    obtain ⟨e, he, rfl⟩ := List.mem_map.mp hbs
    rw [hown e (by simp [he]) a hab]
    exact hpre e he
  · intro a ha
    obtain ⟨bs, hbs, hab⟩ := List.mem_flatten.mp ha
    obtain ⟨e, he, rfl⟩ := List.mem_map.mp hbs
    rw [hown e (by simp [he]) a hab]
    exact hpost e he

theorem contents_filter (key : α → κ) (m : IndexMap κ (List α)) (h : Keyed key m) (k : κ) :
    m.contents.filter (fun a => decide (key a = k)) = m.bucket k := by
  cases hm : m.get? k with
  | none =>
    rw [bucket, hm, Option.getD_none, List.filter_eq_nil_iff]
    intro a ha hk
    obtain ⟨bs, hbs, hab⟩ := List.mem_flatten.mp ha
    obtain ⟨e, he, rfl⟩ := List.mem_map.mp hbs
    have hg : m.get? e.1 = some e.2 := (get?_eq_some_iff m e.1 e.2).mpr he
    have hka : key a = e.1 := h e.1 a (by rw [bucket, hg, Option.getD_some]; exact hab)
    rw [decide_eq_true_eq, hka] at hk
    rw [hk, hm] at hg
    simp at hg
  | some as =>
    obtain ⟨pre, post, hs⟩ := split_of_get? m k as hm
    obtain ⟨hpre, has, hpost⟩ := keyed_split key m k as pre post h hs
    rw [contents_split m k as pre post hs, List.filter_append, List.filter_append,
      List.filter_eq_nil_iff.mpr (by simpa using hpre),
      List.filter_eq_self.mpr (by simpa using has),
      List.filter_eq_nil_iff.mpr (by simpa using hpost), bucket, hm]
    simp

theorem Holds.keyed {key : α → κ} {m : IndexMap κ (List α)} {l : List α} (h : Holds key m l) :
    Keyed key m := by
  intro k a ha
  rw [h k] at ha
  simpa using (List.mem_filter.mp ha).2

theorem Holds.empty (key : α → κ) : Holds key (empty : IndexMap κ (List α)) [] := by
  intro k
  simp

theorem Holds.pushBack {key : α → κ} {m : IndexMap κ (List α)} {l : List α} (h : Holds key m l)
    (a : α) : Holds key (m.pushBack (key a) a) (l ++ [a]) := by
  intro k
  rw [bucket_pushBack, List.filter_append]
  split
  · rename_i hk
    simp [hk, h (key a)]
  · rename_i hk
    simp [h k, Ne.symm hk]

theorem Holds.putBack {key : α → κ} {m : IndexMap κ (List α)} {l : List α} (h : Holds key m l)
    (k : κ) (p : α → Bool) :
    Holds key (m.putBack k ((m.bucket k).filter p))
      (l.filter (fun a => decide (key a ≠ k) || p a)) := by
  intro x
  rw [bucket_putBack, List.filter_filter]
  split
  · rename_i hx
    rw [h, List.filter_filter, hx]
    apply List.filter_congr
    intro a _
    by_cases ha : key a = k <;> simp [ha]
  · rename_i hx
    rw [h]
    apply List.filter_congr
    intro a _
    by_cases ha : key a = x <;> simp [ha, hx]

theorem Holds.putBack_absent {key : α → κ} {m : IndexMap κ (List α)} {l : List α}
    (h : Holds key m l) (k : κ) (hk : m.get? k = none) (p : α → Bool) :
    l.filter (fun a => decide (key a ≠ k) || p a) = l := by
  have hb : l.filter (fun a => decide (key a = k)) = [] := by
    rw [← h k, bucket, hk, Option.getD_none]
  apply List.filter_eq_self.mpr
  intro a ha
  have hak := List.filter_eq_nil_iff.mp hb a ha
  simp only [decide_eq_true_eq] at hak
  simp [hak]

theorem Holds.filter {key : α → κ} {m m' : IndexMap κ (List α)} {l : List α}
    (h : Holds key m l) (keep : α → Bool) (hm : ∀ k, m'.bucket k = (m.bucket k).filter keep) :
    Holds key m' (l.filter keep) := by
  intro k
  rw [hm, h, List.filter_comm]

theorem Holds.adjust {key : α → κ} {m m' : IndexMap κ (List α)} {l : List α}
    (h : Holds key m l) (k : κ) (f : α → α) (hf : ∀ a, key (f a) = key a)
    (hm : ∀ x, m'.bucket x = if x = k then (m.bucket k).map f else m.bucket x) :
    Holds key m' (l.map (fun a => if key a = k then f a else a)) := by
  intro x
  rw [hm, List.filter_map]
  split
  · rename_i hx
    have hkeys : l.filter ((fun a => decide (key a = x)) ∘ fun a => if key a = k then f a else a) =
        l.filter (fun a => decide (key a = k)) := by
      apply List.filter_congr
      intro a _
      by_cases ha : key a = k <;> simp [ha, hf, hx]
    rw [h, hkeys]
    apply List.map_congr_left
    intro a ha
    rw [if_pos (by simpa using (List.mem_filter.mp ha).2)]
  · rename_i hx
    have hkeys : l.filter ((fun a => decide (key a = x)) ∘ fun a => if key a = k then f a else a) =
        l.filter (fun a => decide (key a = x)) := by
      apply List.filter_congr
      intro a _
      by_cases ha : key a = k <;> simp [ha, hf]
    rw [h, hkeys]
    conv_lhs => rw [← List.map_id (l.filter _)]
    apply List.map_congr_left
    intro a ha
    have hax : key a = x := by simpa using (List.mem_filter.mp ha).2
    rw [if_neg (by rw [hax]; exact hx), id]

theorem Holds.perm {key : α → κ} {m : IndexMap κ (List α)} {l : List α} (h : Holds key m l) :
    m.contents.Perm l := by
  classical
  rw [List.perm_iff_count]
  intro a
  have hc : ∀ as : List α, as.count a = (as.filter (fun b => decide (key b = key a))).count a :=
    fun as => (List.count_filter (by simp)).symm
  rw [hc m.contents, hc l, contents_filter key m h.keyed, h]

theorem length_holding [DecidableEq α] (m : IndexMap κ (List α)) (a : α) (ks : List κ)
    (hks : ks.Nodup) (h : ∀ k, a ∈ m.bucket k ↔ k ∈ ks) :
    (m.entries.filter (fun e => decide (a ∈ e.2))).length = ks.length := by
  have hnodup : ((m.entries.filter (fun e => decide (a ∈ e.2))).map Prod.fst).Nodup :=
    m.nodup.sublist (List.filter_sublist.map _)
  have hmem : ∀ k, k ∈ (m.entries.filter (fun e => decide (a ∈ e.2))).map Prod.fst ↔ k ∈ ks := by
    intro k
    rw [← h k, List.mem_map]
    constructor
    · rintro ⟨e, he, rfl⟩
      obtain ⟨hmem, ha⟩ := List.mem_filter.mp he
      rw [bucket, (get?_eq_some_iff m e.1 e.2).mpr hmem, Option.getD_some]
      exact of_decide_eq_true ha
    · intro ha
      cases hg : m.get? k with
      | none => simp [bucket, hg] at ha
      | some as =>
        rw [bucket, hg, Option.getD_some] at ha
        exact ⟨(k, as), List.mem_filter.mpr
          ⟨(get?_eq_some_iff m k as).mp hg, decide_eq_true ha⟩, rfl⟩
  rw [← ((List.perm_ext_iff_of_nodup hnodup hks).mpr hmem).length_eq, List.length_map]

def Filled (m : IndexMap κ (List α)) : Prop := ∀ e ∈ m.entries, e.2 ≠ []

omit [DecidableEq κ] in
theorem filled_empty : Filled (empty : IndexMap κ (List α)) := by
  simp [Filled, empty]

theorem alter_filled (k : κ) (f : Option (List α) → List α) (es : List (κ × List α))
    (hf : ∀ o, f o ≠ []) (h : ∀ e ∈ es, e.2 ≠ []) : ∀ e ∈ alter k f es, e.2 ≠ [] := by
  induction es with
  | nil => simp [alter, hf]
  | cons x es ih =>
    have hes : ∀ e ∈ alter k f es, e.2 ≠ [] := ih (fun e he => h e (by simp [he]))
    intro e he
    by_cases hx : x.1 = k
    · rw [alter, if_pos hx] at he
      rcases List.mem_cons.mp he with rfl | he
      · exact hf _
      · exact h e (by simp [he])
    · rw [alter, if_neg hx] at he
      rcases List.mem_cons.mp he with rfl | he
      · exact h e (by simp)
      · exact hes e he

theorem Filled.pushBack {m : IndexMap κ (List α)} (h : Filled m) (k : κ) (a : α) :
    Filled (m.pushBack k a) :=
  alter_filled k _ _ (by simp) h

theorem Filled.putBack {m : IndexMap κ (List α)} (h : Filled m) (k : κ) (as : List α) :
    Filled (m.putBack k as) := by
  unfold IndexMap.putBack
  split
  · intro e he
    obtain ⟨hmem, hk⟩ := List.mem_filter.mp he
    have hne : e.1 ≠ k := by simpa using hk
    have hg := (get?_eq_some_iff (m.insert k as) e.1 e.2).mpr hmem
    rw [get?_insert, if_neg hne] at hg
    exact h e ((get?_eq_some_iff m e.1 e.2).mp hg)
  · rename_i has
    exact alter_filled k _ _ (fun _ => by simpa using has) h

/-- A push lands at the end of the contents exactly when its key is new or the
last element lies under it. -/
theorem contents_pushBack_last {key : α → κ} {m : IndexMap κ (List α)} (hk : Keyed key m)
    (hf : Filled m) (a : α) :
    (m.pushBack (key a) a).contents = m.contents ++ [a] ↔
      ((∃ b ∈ m.contents, key b = key a) → ∃ b ∈ m.contents.getLast?, key b = key a) := by
  cases hm : m.get? (key a) with
  | none =>
    have habsent : ∀ e ∈ m.entries, e.1 ≠ key a := by
      intro e he hek
      have hs := (get?_isSome_iff m (key a)).mpr (List.mem_map.mpr ⟨e, he, hek⟩)
      simp [hm] at hs
    refine iff_of_true ?_ ?_
    · simp [contents, values, pushBack, upsert, alter_absent (key a) _ m.entries habsent]
    · rintro ⟨b, hb, hba⟩
      have hbucket := contents_filter key m hk (key a)
      rw [bucket, hm, Option.getD_none, List.filter_eq_nil_iff] at hbucket
      exact absurd hba (by simpa using hbucket b hb)
  | some as =>
    obtain ⟨pre, post, hs⟩ := split_of_get? m (key a) as hm
    obtain ⟨-, has, hpost⟩ := keyed_split key m (key a) as pre post hk hs
    have hpush : (m.pushBack (key a) a).contents =
        (pre.map Prod.snd).flatten ++ as ++ a::(post.map Prod.snd).flatten := by
      simp [contents, values, pushBack, upsert, hs,
        alter_split (key a) _ as pre post (split_keys m (key a) as pre post hs).1]
    have hne : as ≠ [] := hf (key a, as) (by simp [hs])
    obtain ⟨front, last, rfl⟩ := (List.eq_nil_or_concat as).resolve_left hne
    rw [hpush, contents_split m (key a) _ pre post hs]
    generalize (post.map Prod.snd).flatten = behind at hpost ⊢
    cases behind with
    | nil =>
      refine iff_of_true (by simp) (fun _ => ⟨last, by simp, has last (by simp)⟩)
    | cons b behind =>
      refine iff_of_false ?_ ?_
      · intro heq
        simp only [List.append_assoc, List.append_cancel_left_eq, List.cons_append,
          List.cons.injEq] at heq
        exact hpost b (by simp) (by rw [← heq.1])
      · intro h
        obtain ⟨c, hc, hca⟩ := h ⟨last, by simp, has last (by simp)⟩
        rw [List.getLast?_append_of_ne_nil _ (by simp)] at hc
        exact hpost c (List.mem_of_getLast? hc) hca

end IndexMap
