import Cordn.KeyPackageOps

/-!
# Key packages in the SQLite table

The table holds one row for each package in order of publication. The three-key
ORDER BY of the consume statement puts the oldest regular package of an
identity first and, when it has none, its newest last-resort package.
-/

set_option autoImplicit false

namespace Cordn.Sqlite
open KeyPackageOps SqlTable

variable {V : Type} (json : SerdeJson V)

def text (v : V) : String :=
  match json.toString v with
  | .ok t => t
  | .error _ => ""

def rowOf (r : PublishedKeyPackageRecord V) : KeyPackageRow :=
  ⟨r.stablePubkey, r.keyPackageRef, r.keyPackageBytes, if r.isLastResort then 1 else 0,
    r.publishedAt, text json r.publicationEvent⟩

def Represents (db : Database) (l : KeyShelf V) : Prop :=
  db.keyPackages.contents = l.map (rowOf json) ∧ UniqueRefs l

variable {json}

theorem SerdeJson.RoundTrips.toString_eq (hj : json.RoundTrips) (v : V) :
    json.toString v = .ok (text json v) := by
  obtain ⟨t, ht, -⟩ := hj v
  simp [text, ht]

theorem SerdeJson.RoundTrips.row (hj : json.RoundTrips) (r : PublishedKeyPackageRecord V) :
    rowToKeyPackage json (rowOf json r) = .ok r := by
  obtain ⟨t, ht, hf⟩ := hj r.publicationEvent
  have htext : text json r.publicationEvent = t := by simp [text, ht]
  have hflag : decide ((if r.isLastResort then (1:Int) else 0) ≠ 0) = r.isLastResort := by
    cases r.isLastResort <;> rfl
  simp only [rowToKeyPackage, rowOf, htext, hf, hflag]

theorem SerdeJson.RoundTrips.rows (hj : json.RoundTrips) (l : KeyShelf V) :
    (l.map (rowOf json)).mapM (rowToKeyPackage json) = .ok l := by
  induction l with
  | nil => rfl
  | cons r l ih =>
    rw [List.map_cons, List.mapM_cons, hj.row, ih]
    rfl

theorem SerdeJson.RoundTrips.query (hj : json.RoundTrips) (rows : List KeyPackageRow)
    (o : Option (PublishedKeyPackageRecord V)) (h : rows.head? = o.map (rowOf json)) :
    queryRow json rows = .ok o := by
  cases o with
  | none => simp [queryRow, h]
  | some r =>
    rw [Option.map_some] at h
    simp only [queryRow, h, hj.row]
    rfl

theorem hasRef_rowOf (x : String) (r : PublishedKeyPackageRecord V) :
    hasRef x (rowOf json r) = KeyPackageOps.hasRef x r := rfl

theorem hasIdentity_rowOf (x : String) (r : PublishedKeyPackageRecord V) :
    hasIdentity x (rowOf json r) = KeyPackageOps.hasIdentity x r := rfl

theorem filter_rows (l : KeyShelf V) (p : KeyPackageRow → Bool)
    (q : PublishedKeyPackageRecord V → Bool) (h : ∀ r, p (rowOf json r) = q r) :
    (l.map (rowOf json)).filter p = (l.filter q).map (rowOf json) := by
  rw [List.filter_map]
  have hpq : p ∘ rowOf json = q := funext h
  rw [hpq]

theorem select_identity {db : Database} {l : KeyShelf V}
    (h : db.keyPackages.contents = l.map (rowOf json)) (x : String) :
    db.keyPackages.select (hasIdentity x) byId =
      (l.filter (KeyPackageOps.hasIdentity x)).map (rowOf json) := by
  rw [select_byId, h, filter_rows l _ _ (hasIdentity_rowOf x)]

theorem selectByRef_head {db : Database} {l : KeyShelf V}
    (h : db.keyPackages.contents = l.map (rowOf json)) (x : String) :
    (selectByRef x db).head? = (withRef l x).map (rowOf json) := by
  rw [selectByRef, List.head?_take, if_neg (by decide), select_byId, h,
    filter_rows l _ _ (hasRef_rowOf x), List.head?_map, List.head?_filter, withRef]

theorem deleteByRef_contents {db : Database} {l : KeyShelf V}
    (h : db.keyPackages.contents = l.map (rowOf json)) (x : String) :
    (deleteByRef x db).keyPackages.contents = (without l x).map (rowOf json) := by
  change (db.keyPackages.delete (hasRef x)).contents = _
  rw [contents_delete, h, without,
    filter_rows l (fun r => !hasRef x r) (fun r => !KeyPackageOps.hasRef x r)
      (fun r => by rw [hasRef_rowOf])]

instance : Std.TransCmp consumeOrder := by
  unfold consumeOrder
  have : Std.TransCmp (fun a b => compareOn (caseId 1) b a) := Std.TransCmp.opposite
  infer_instance

theorem consumeOrder_regular_first (a b : ℕ × KeyPackageRow) (ha : a.2.isLastResort = 0)
    (hb : b.2.isLastResort = 1) : consumeOrder a b = .lt := by
  have hflag : compare (0:Int) 1 = .lt := rfl
  simp [consumeOrder, compareLex, compareOn, ha, hb, hflag]

theorem consumeOrder_regular (a b : ℕ × KeyPackageRow) (ha : a.2.isLastResort = 0)
    (hb : b.2.isLastResort = 0) (h : a.1 < b.1) : consumeOrder a b = .lt := by
  have hid : compare (some a.1) (some b.1) = .lt := Nat.compare_eq_lt.mpr h
  simp [consumeOrder, compareLex, compareOn, caseId, ha, hb, hid]

theorem consumeOrder_lastResort (a b : ℕ × KeyPackageRow) (ha : a.2.isLastResort = 1)
    (hb : b.2.isLastResort = 1) (h : b.1 < a.1) : consumeOrder a b = .lt := by
  have hid : compare (some b.1) (some a.1) = .lt := Nat.compare_eq_lt.mpr h
  simp [consumeOrder, compareLex, compareOn, caseId, ha, hb, hid]

/-- Rows in id order, sorted for a consume: the first regular row leads, and
without one the last row does. -/
theorem consumeOrder_head (rows : List (ℕ × KeyPackageRow))
    (hs : rows.Pairwise (fun a b => a.1 < b.1))
    (hflag : ∀ r ∈ rows, r.2.isLastResort = 0 ∨ r.2.isLastResort = 1) :
    (orderBy consumeOrder rows).head? =
      (rows.find? (fun r => decide (r.2.isLastResort = 0))).or rows.getLast? := by
  cases hf : rows.find? (fun r => decide (r.2.isLastResort = 0)) with
  | some a =>
    obtain ⟨ha, xs, ys, rfl, hxs⟩ := List.find?_eq_some_iff_append.mp hf
    rw [Option.some_or]
    apply orderBy_head consumeOrder _ a (by simp)
    intro b hb hne
    have ha0 : a.2.isLastResort = 0 := by simpa using ha
    rcases hflag b hb with h0 | h1
    · apply consumeOrder_regular a b ha0 h0
      rcases List.mem_append.mp hb with hx | hy
      · have hx0 := hxs b hx
        simp [h0] at hx0
      · rcases List.mem_cons.mp hy with hba | hy
        · exact absurd hba hne
        · exact List.rel_of_pairwise_cons (List.pairwise_append.mp hs).2.1 hy
    · exact consumeOrder_regular_first a b ha0 h1
  | none =>
    have hall : ∀ r ∈ rows, r.2.isLastResort = 1 := by
      intro r hr
      have hn := List.find?_eq_none.mp hf r hr
      rcases hflag r hr with h0 | h1
      · simp [h0] at hn
      · exact h1
    rw [Option.none_or]
    cases hl : rows.getLast? with
    | none => simp [List.getLast?_eq_none_iff.mp hl, orderBy]
    | some a =>
      obtain ⟨xs, rfl⟩ := List.getLast?_eq_some_iff.mp hl
      apply orderBy_head consumeOrder _ a (by simp)
      intro b hb hne
      apply consumeOrder_lastResort a b (hall a (by simp)) (hall b hb)
      rcases List.mem_append.mp hb with hx | hy
      · exact (List.pairwise_append.mp hs).2.2 b hx a (by simp)
      · exact absurd (List.mem_singleton.mp hy) hne

theorem selectForConsume_head {db : Database} {l : KeyShelf V}
    (h : db.keyPackages.contents = l.map (rowOf json)) (x : String) :
    (selectForConsume x db).head? =
      ((oldestRegular l x).or (newestLastResort l x)).map (rowOf json) := by
  have hrows : (db.keyPackages.rows.filter (fun r => hasIdentity x r.2)).map Prod.snd =
      (l.filter (KeyPackageOps.hasIdentity x)).map (rowOf json) := by
    rw [← select_identity h x, select_byId, SqlTable.contents, List.filter_map]
    rfl
  have hflag : ∀ r ∈ db.keyPackages.rows.filter (fun r => hasIdentity x r.2),
      r.2.isLastResort = 0 ∨ r.2.isLastResort = 1 := by
    intro r hr
    have hm : r.2 ∈ (l.filter (KeyPackageOps.hasIdentity x)).map (rowOf json) :=
      hrows ▸ List.mem_map_of_mem hr
    obtain ⟨q, -, hq⟩ := List.mem_map.mp hm
    cases hl : q.isLastResort <;> simp [← hq, rowOf, hl]
  rw [selectForConsume, List.head?_take, if_neg (by decide), select, List.head?_map,
    consumeOrder_head _ (db.keyPackages.sorted.sublist List.filter_sublist) hflag]
  have hfind : ((db.keyPackages.rows.filter (fun r => hasIdentity x r.2)).find?
      (fun r => decide (r.2.isLastResort = 0))).map Prod.snd =
      (oldestRegular l x).map (rowOf json) := by
    have hm := congrArg (List.find? (fun r : KeyPackageRow => decide (r.isLastResort = 0))) hrows
    rw [List.find?_map, List.find?_map] at hm
    rw [oldestRegular_filter]
    refine Eq.trans hm (congrArg (fun p => Option.map (rowOf json) (List.find? p _)) ?_)
    funext r
    cases hl : r.isLastResort <;> simp [rowOf, hl]
  rw [Option.map_or, hfind, Option.map_or]
  cases ho : oldestRegular l x with
  | some r => simp
  | none =>
    rw [oldestRegular_filter] at ho
    have hall : (l.filter (KeyPackageOps.hasIdentity x)).filter (fun r => r.isLastResort) =
        l.filter (KeyPackageOps.hasIdentity x) := by
      apply List.filter_eq_self.mpr
      intro r hr
      simpa using List.find?_eq_none.mp ho r hr
    rw [newestLastResort_filter, hall, ← List.getLast?_map, ← List.getLast?_map, hrows]

theorem stored_eq (hj : json.RoundTrips) {db : Database} {l : KeyShelf V}
    (h : db.keyPackages.contents = l.map (rowOf json)) : stored (storage json) db = l := by
  have hall : ((storage json).listAllKeyPackages db).1 = .ok l := by
    have hrows := hj.rows l
    rw [← h] at hrows
    change (db.keyPackages.select (fun _ => true) byId).mapM (rowToKeyPackage json) = .ok l
    rw [select_byId, List.filter_true, hrows]
  rw [stored, hall]

theorem publish_conflict (hj : json.RoundTrips) {db : Database} {l : KeyShelf V}
    (h : db.keyPackages.contents = l.map (rowOf json)) (record r : PublishedKeyPackageRecord V)
    (hr : r ∈ l) (href : r.keyPackageRef = record.keyPackageRef) :
    publishKeyPackage json record db =
      (.error (.backend "UNIQUE constraint failed: key_packages.key_package_ref"), db) := by
  have hc : db.keyPackages.contents.any (hasRef record.keyPackageRef) = true := by
    rw [h, List.any_map, List.any_eq_true]
    exact ⟨r, hr, by simp [hasRef, rowOf, href]⟩
  simp only [publishKeyPackage, hj.toString_eq, insertUnique, hc, if_true]

theorem publish_fresh (hj : json.RoundTrips) {db : Database} {l : KeyShelf V}
    (h : db.keyPackages.contents = l.map (rowOf json)) (record : PublishedKeyPackageRecord V)
    (hf : Fresh (.publish record) l) :
    publishKeyPackage json record db =
      (.ok record, { db with keyPackages := db.keyPackages.insert (rowOf json record) }) := by
  have hc : db.keyPackages.contents.any (hasRef record.keyPackageRef) = false := by
    rw [h, List.any_map, List.any_eq_false]
    intro r hr hd
    exact hf r hr (of_decide_eq_true hd)
  simp only [publishKeyPackage, hj.toString_eq, insertUnique, hc, Bool.false_eq_true, if_false]
  rfl

theorem publish_spec (hj : json.RoundTrips) {db : Database} {l : KeyShelf V}
    (h : Represents json db l) (record : PublishedKeyPackageRecord V) :
    ((publishKeyPackage json record db).1 = .ok record ∧
      Represents json (publishKeyPackage json record db).2 (l ++ [record])) ∨
    ((∃ e, (publishKeyPackage json record db).1 = .error e) ∧
      (publishKeyPackage json record db).2 = db) := by
  by_cases hf : Fresh (.publish record) l
  · left
    rw [publish_fresh hj h.1 record hf]
    refine ⟨rfl, ?_, h.2.publish record hf⟩
    simp [h.1]
  · right
    simp only [Fresh, not_forall, not_not] at hf
    obtain ⟨r, hr, href⟩ := hf
    rw [publish_conflict hj h.1 record r hr href]
    exact ⟨⟨_, rfl⟩, rfl⟩

theorem get_result (hj : json.RoundTrips) {db : Database} {l : KeyShelf V}
    (h : db.keyPackages.contents = l.map (rowOf json)) (x : String) :
    getKeyPackage json x db = (.ok (withRef l x), db) := by
  rw [getKeyPackage, hj.query _ _ (selectByRef_head h x)]

theorem remove_result (hj : json.RoundTrips) {db : Database} {l : KeyShelf V}
    (h : db.keyPackages.contents = l.map (rowOf json)) (x : String) :
    (removeKeyPackage json x db).1 = .ok (withRef l x) ∧
      (removeKeyPackage json x db).2.keyPackages.contents = (without l x).map (rowOf json) := by
  unfold removeKeyPackage
  rw [hj.query _ _ (selectByRef_head h x)]
  cases hw : withRef l x with
  | none => exact ⟨rfl, by rw [without_absent hw]; exact h⟩
  | some r => exact ⟨rfl, deleteByRef_contents h x⟩

theorem consume_result (hj : json.RoundTrips) {db : Database} {l : KeyShelf V}
    (h : db.keyPackages.contents = l.map (rowOf json)) (x : String) :
    (consumeKeyPackage json x db).1 = .ok (taken l x) ∧
      (consumeKeyPackage json x db).2.keyPackages.contents =
        (leftBehind l (taken l x)).map (rowOf json) := by
  unfold consumeKeyPackage
  rw [hj.query _ _ (selectByRef_head h x), hj.query _ _ (selectForConsume_head h x)]
  cases hw : withRef l x with
  | some r =>
    have hx : r.keyPackageRef = x := by
      simpa [KeyPackageOps.hasRef] using List.find?_some hw
    have ht : taken l x = some r := by simp [taken, hw]
    rw [ht]
    cases hl : r.isLastResort with
    | true => simp [leftBehind, hl, h]
    | false => simpa [leftBehind, hl, hx] using deleteByRef_contents h x
  | none =>
    have ht : taken l x = (oldestRegular l x).or (newestLastResort l x) := by simp [taken, hw]
    rw [ht]
    cases ho : (oldestRegular l x).or (newestLastResort l x) with
    | none => exact ⟨rfl, h⟩
    | some r =>
      cases hl : r.isLastResort with
      | true => simp [leftBehind, hl, h]
      | false => simpa [leftBehind, hl] using deleteByRef_contents h r.keyPackageRef

theorem step_represents (hj : json.RoundTrips) (op : Op V) (db : Database) (l : KeyShelf V)
    (h : Represents json db l) (hf : Fresh op l) :
    (step (storage json) op db).1 = (shelfStep op l).1 ∧
      Represents json (step (storage json) op db).2 (shelfStep op l).2 := by
  obtain ⟨hl, hu⟩ := h
  cases op with
  | publish record =>
    have hp := publish_fresh hj hl record hf
    refine ⟨congrArg (fun r : _ × Database => Answer.published r.1) hp, ?_, hu.publish record hf⟩
    change (publishKeyPackage json record db).2.keyPackages.contents = _
    rw [hp]
    simp [shelfStep, hl]
  | get x =>
    have hg := get_result hj hl x
    refine ⟨congrArg (fun r : _ × Database => Answer.found r.1) hg, ?_, hu⟩
    change (getKeyPackage json x db).2.keyPackages.contents = _
    rw [hg]
    exact hl
  | list x =>
    refine ⟨?_, hl, hu⟩
    change Answer.listed ((db.keyPackages.select (hasIdentity x) byId).mapM
      (rowToKeyPackage json)) = _
    rw [select_identity hl, hj.rows]
    rfl
  | remove x =>
    obtain ⟨hres, hleft⟩ := remove_result hj hl x
    exact ⟨congrArg Answer.found hres, hleft, hu.without x⟩
  | consume x =>
    obtain ⟨hres, hleft⟩ := consume_result hj hl x
    exact ⟨congrArg Answer.found hres, hleft, hu.leftBehind _⟩

end Cordn.Sqlite
