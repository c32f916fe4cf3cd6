import Cordn.RefUniqueness
import Cordn.TakeByIdentity

/-!
# A one-time package is destroyed only if delivered

Storage commits the deletion before the adapter reads the event. SQLite's own read
fails inside the transaction, which keeps the row; the adapter's read comes too late.
-/

set_option autoImplicit false

namespace Cordn.Adapter
open Call KeyPackageOps

variable {V σ L ρ : Type}

/-- A backend's consume: what it resolves an identifier to, and how it reads that. -/
structure Shelf (V σ ρ : Type) where
  packages : σ → List ρ
  chosen : String → σ → Option ρ
  read : ρ → Except StorageError (PublishedKeyPackageRecord V)
  regular : ρ → Bool

def Carries (A : CoordinatorAdapter V σ L) (S : Shelf V σ ρ) (r : ρ)
    (kp : ConsumedKeyPackage) : Prop :=
  ∃ record, S.read r = .ok record ∧ kp.pk = record.stablePubkey ∧
    kp.kpRef = record.keyPackageRef ∧ kp.lastResort = record.isLastResort ∧
    kp.publishedAt = record.publishedAt ∧
    A.externals.fromValue record.publicationEvent = .ok kp.event

structure DestroysDelivered [DecidableEq ρ] (A : CoordinatorAdapter V σ L) (S : Shelf V σ ρ)
    (c : Caller) (x : String) (state : σ × L) : Prop where
  kept : ∀ e, (take A c x state).1 = .error e → (take A c x state).2.1 = state.1
  delivered : ∀ r ∈ (S.packages state.1 : Multiset ρ) - S.packages (take A c x state).2.1,
    S.regular r = true → ∃ kp, (take A c x state).1 = .ok (some kp) ∧ Carries A S r kp

/-- The call reaches storage, which resolves the identifier to a regular package that
it can read and whose event is no Nostr event. -/
def Loses (A : CoordinatorAdapter V σ L) (S : Shelf V σ ρ) (c : Caller) (x : String)
    (state : σ × L) : Prop :=
  (A.rateLimiter.check c.clientPubkey c.limiterNow state.2).1 = true ∧ x ≠ "" ∧
  ∃ r record e, S.chosen x state.1 = some r ∧ S.read r = .ok record ∧ S.regular r = true ∧
    A.externals.fromValue record.publicationEvent = .error e

structure Consumes (storage : CoordinatorStorage V σ) (S : Shelf V σ ρ) (Kept : σ → Prop) :
    Prop where
  flag : ∀ r record, S.read r = .ok record → S.regular r = !record.isLastResort
  absent : ∀ x s, Kept s → S.chosen x s = none → storage.consumeKeyPackage x s = (.ok none, s)
  unread : ∀ x s r e, Kept s → S.chosen x s = some r → S.read r = .error e →
    storage.consumeKeyPackage x s = (.error e, s)
  lastResort : ∀ x s r record, Kept s → S.chosen x s = some r → S.read r = .ok record →
    S.regular r = false → storage.consumeKeyPackage x s = (.ok (some record), s)
  regular : ∀ x s r record, Kept s → S.chosen x s = some r → S.read r = .ok record →
    S.regular r = true → (storage.consumeKeyPackage x s).1 = .ok (some record) ∧
      ∃ before behind, S.packages s = before ++ r::behind ∧
        S.packages (storage.consumeKeyPackage x s).2 = before ++ behind

def memoryShelf : Shelf V (InMemory.InMemoryInner V) (PublishedKeyPackageRecord V) where
  packages s := s.keyPackagesByIdentity.contents
  chosen x s := InMemory.resolved s.keyPackagesByIdentity x
  read r := .ok r
  regular r := !r.isLastResort

theorem memory_consumes : Consumes (InMemory.storage (V := V)) memoryShelf (fun _ => True) where
  flag r record h := by
    rw [← Except.ok.inj h]
    rfl
  absent x s _ h := by
    obtain ⟨hres, heff⟩ := InMemory.consume_resolved x s
    change InMemory.resolved s.keyPackagesByIdentity x = none at h
    rw [h] at hres heff
    exact Prod.ext hres heff
  unread x s r e _ _ h := by simp [memoryShelf] at h
  lastResort x s r record _ h hread hr := by
    obtain ⟨hres, heff⟩ := InMemory.consume_resolved x s
    obtain rfl := Except.ok.inj hread
    change InMemory.resolved s.keyPackagesByIdentity x = some r at h
    have hlast : r.isLastResort = true := by simpa [memoryShelf] using hr
    simp only [h, hlast, if_true] at hres heff
    exact Prod.ext hres heff
  regular x s r record _ h hread hr := by
    obtain ⟨hres, heff⟩ := InMemory.consume_resolved x s
    obtain rfl := Except.ok.inj hread
    change InMemory.resolved s.keyPackagesByIdentity x = some r at h
    have hlast : r.isLastResort = false := by simpa [memoryShelf] using hr
    simp only [h, hlast, Bool.false_eq_true, if_false] at hres heff
    obtain ⟨before, behind, hbefore, hafter⟩ := removed_inserted heff
    exact ⟨hres, before, behind, hafter, hbefore⟩

def tableShelf (json : Sqlite.SerdeJson V) : Shelf V Sqlite.Database Sqlite.KeyPackageRow where
  packages db := db.keyPackages.contents
  chosen x db := (Sqlite.selectByRef x db).head?.or (Sqlite.selectForConsume x db).head?
  read := Sqlite.rowToKeyPackage json
  regular row := decide (row.isLastResort = 0)

theorem table_flag (json : Sqlite.SerdeJson V) (row : Sqlite.KeyPackageRow)
    (record : PublishedKeyPackageRecord V) (h : Sqlite.rowToKeyPackage json row = .ok record) :
    record.isLastResort = decide (row.isLastResort ≠ 0) := by
  unfold Sqlite.rowToKeyPackage at h
  split at h
  · simp at h
  · rw [← Except.ok.inj h]

theorem selectByRef_mem (x : String) (db : Sqlite.Database) (row : Sqlite.KeyPackageRow)
    (h : (Sqlite.selectByRef x db).head? = some row) :
    row ∈ db.keyPackages.contents ∧ row.keyPackageRef = x := by
  have hm := List.mem_of_mem_take (List.mem_of_head? h)
  rw [SqlTable.mem_select] at hm
  exact ⟨hm.1, by simpa [Sqlite.hasRef] using hm.2⟩

theorem selectForConsume_mem (x : String) (db : Sqlite.Database) (row : Sqlite.KeyPackageRow)
    (h : (Sqlite.selectForConsume x db).head? = some row) : row ∈ db.keyPackages.contents := by
  have hm := List.mem_of_mem_take (List.mem_of_head? h)
  rw [SqlTable.mem_select] at hm
  exact hm.1

theorem deleteByRef_split {db : Sqlite.Database} (h : DistinctRows db)
    (row : Sqlite.KeyPackageRow) (hrow : row ∈ db.keyPackages.contents) :
    ∃ before behind, db.keyPackages.contents = before ++ row::behind ∧
      (Sqlite.deleteByRef row.keyPackageRef db).keyPackages.contents = before ++ behind := by
  obtain ⟨before, behind, hsplit⟩ := List.append_of_mem hrow
  refine ⟨before, behind, hsplit, ?_⟩
  rw [Sqlite.deleteByRef, SqlTable.contents_delete, hsplit]
  rw [DistinctRows, hsplit] at h
  exact KeyedList.filter_split Sqlite.KeyPackageRow.keyPackageRef before behind row h

theorem table_consume (json : Sqlite.SerdeJson V) (x : String) (db : Sqlite.Database) :
    Sqlite.consumeKeyPackage json x db =
      match (tableShelf json).chosen x db with
      | none => (.ok none, db)
      | some row =>
        match Sqlite.rowToKeyPackage json row with
        | .error e => (.error e, db)
        | .ok record => (.ok (some record),
            if record.isLastResort then db else Sqlite.deleteByRef row.keyPackageRef db) := by
  have hchosen : (tableShelf json).chosen x db =
      (Sqlite.selectByRef x db).head?.or (Sqlite.selectForConsume x db).head? := rfl
  unfold Sqlite.consumeKeyPackage Sqlite.queryRow
  rw [hchosen]
  cases hr : (Sqlite.selectByRef x db).head? with
  | some row =>
    have href := (selectByRef_mem x db row hr).2
    rw [Option.some_or]
    cases hd : Sqlite.rowToKeyPackage json row with
    | error e => simp [hd, Except.map]
    | ok record => cases hl : record.isLastResort <;> simp [hd, Except.map, hl, href]
  | none =>
    rw [Option.none_or]
    cases hc : (Sqlite.selectForConsume x db).head? with
    | none => simp
    | some row =>
      cases hd : Sqlite.rowToKeyPackage json row with
      | error e => simp [hd, Except.map]
      | ok record =>
        have href := rowToKeyPackage_ref json row record hd
        cases hl : record.isLastResort <;> simp [hd, Except.map, hl, href]

theorem table_chosen_mem (json : Sqlite.SerdeJson V) (x : String) (db : Sqlite.Database)
    (row : Sqlite.KeyPackageRow) (h : (tableShelf json).chosen x db = some row) :
    row ∈ db.keyPackages.contents := by
  simp only [tableShelf, Option.or_eq_some_iff] at h
  rcases h with h | ⟨-, h⟩
  · exact (selectByRef_mem x db row h).1
  · exact selectForConsume_mem x db row h

theorem table_consumes (json : Sqlite.SerdeJson V) :
    Consumes (Sqlite.storage json) (tableShelf json) DistinctRows where
  flag row record h := by
    rw [table_flag json row record h]
    simp [tableShelf]
  absent x db _ h := by
    change Sqlite.consumeKeyPackage json x db = _
    rw [table_consume, h]
  unread x db row e _ h hread := by
    change Sqlite.consumeKeyPackage json x db = _
    rw [table_consume, h]
    change Sqlite.rowToKeyPackage json row = .error e at hread
    simp only [hread]
  lastResort x db row record _ h hread hr := by
    change Sqlite.consumeKeyPackage json x db = _
    rw [table_consume, h]
    change Sqlite.rowToKeyPackage json row = .ok record at hread
    have hlast : record.isLastResort = true := by
      rw [table_flag json row record hread]
      simpa [tableShelf] using hr
    simp only [hread, hlast, if_true]
  regular x db row record hd h hread hr := by
    change (Sqlite.consumeKeyPackage json x db).1 = _ ∧ ∃ before behind, _ ∧
      (Sqlite.consumeKeyPackage json x db).2.keyPackages.contents = _
    rw [table_consume, h]
    change Sqlite.rowToKeyPackage json row = .ok record at hread
    have hlast : record.isLastResort = false := by
      rw [table_flag json row record hread]
      simpa [tableShelf] using hr
    simp only [hread, hlast, Bool.false_eq_true, if_false, true_and]
    exact deleteByRef_split hd row (table_chosen_mem json x db row h)

section Call

variable [DecidableEq ρ] {A : CoordinatorAdapter V σ L} {S : Shelf V σ ρ} {Kept : σ → Prop}

theorem consumeKeyPackage_eq (x : String) (hx : x ≠ "") (s : σ) :
    consumeKeyPackage A x s =
      match A.storage.consumeKeyPackage x s with
      | (.error e, s') => (.error (.storage e), s')
      | (.ok none, s') => (.ok none, s')
      | (.ok (some r), s') => ((consumedKeyPackage A r).map some, s') := by
  have hne : requireNonEmpty x "id" = .ok () := if_neg (by simpa using hx)
  have hreply : reply (requireNonEmpty x "id") s = (.ok (), s) := by
    rw [hne]
    rfl
  rw [consumeKeyPackage, bind_ok hreply]
  cases hc : A.storage.consumeKeyPackage x s with
  | mk result s' =>
    have hfst : (A.storage.consumeKeyPackage x s).1 = result := congrArg Prod.fst hc
    have hsnd : (A.storage.consumeKeyPackage x s).2 = s' := congrArg Prod.snd hc
    cases result with
    | error e => rw [bind_error (onStorage_error _ s e hfst), hsnd]
    | ok found =>
      rw [bind_ok (onStorage_ok _ s found hfst), hsnd]
      cases found with
      | none => rfl
      | some r => rfl

omit [DecidableEq ρ] in
theorem consumedKeyPackage_carries {r : ρ} {record : PublishedKeyPackageRecord V}
    (hread : S.read r = .ok record) {kp : ConsumedKeyPackage}
    (h : consumedKeyPackage A record = .ok kp) : Carries A S r kp := by
  unfold consumedKeyPackage at h
  split at h
  · simp at h
  · rename_i event hevent
    obtain rfl := Except.ok.inj h
    exact ⟨record, hread, rfl, rfl, rfl, rfl, hevent⟩

theorem DestroysDelivered.of_unchanged {c : Caller} {x : String} {state : σ × L}
    (h : (take A c x state).2.1 = state.1) : DestroysDelivered A S c x state where
  kept _ _ := h
  delivered r hr := by
    have hcount := Multiset.count_pos.mpr hr
    rw [h, Multiset.count_sub, Nat.sub_self] at hcount
    exact absurd hcount (Nat.lt_irrefl 0)

theorem take_stopped (c : Caller) (x : String) (state : σ × L)
    (h : ¬((A.rateLimiter.check c.clientPubkey c.limiterNow state.2).1 = true ∧ x ≠ "")) :
    (take A c x state).2.1 = state.1 := by
  cases hlimit : (A.rateLimiter.check c.clientPubkey c.limiterNow state.2).1 with
  | false => exact (withinRateLimit_limited c _ state hlimit).2
  | true =>
    have hx : x = "" := by
      by_contra hx
      exact h ⟨hlimit, hx⟩
    have hempty : reply (requireNonEmpty x "id") state.1 =
        (.error (.invalidInput ("id" ++ " must be non-empty")), state.1) := by
      rw [hx]
      rfl
    rw [take, (withinRateLimit_passed c _ state hlimit).2, consumeKeyPackage, bind_error hempty]

omit [DecidableEq ρ] in
theorem split_ne {before behind : List ρ} {r : ρ} : before ++ r::behind ≠ before ++ behind := by
  intro h
  have hlength := congrArg List.length h
  simp at hlength

theorem take_regular (hS : Consumes A.storage S Kept) (c : Caller) (x : String) (state : σ × L)
    (hs : Kept state.1)
    (hlimit : (A.rateLimiter.check c.clientPubkey c.limiterNow state.2).1 = true) (hx : x ≠ "")
    (r : ρ) (record : PublishedKeyPackageRecord V) (hr : S.chosen x state.1 = some r)
    (hread : S.read r = .ok record) (hregular : S.regular r = true) :
    DestroysDelivered A S c x state ↔
      ∃ event, A.externals.fromValue record.publicationEvent = .ok event := by
  obtain ⟨hres, hstate⟩ : (take A c x state).1 = _ ∧ (take A c x state).2.1 = _ :=
    withinRateLimit_passed c (consumeKeyPackage A x) state hlimit
  obtain ⟨hok, before, behind, hbefore, hafter⟩ :=
    hS.regular x state.1 r record hs hr hread hregular
  have hcall : consumeKeyPackage A x state.1 = ((consumedKeyPackage A record).map some,
      (A.storage.consumeKeyPackage x state.1).2) := by
    rw [consumeKeyPackage_eq x hx]
    generalize A.storage.consumeKeyPackage x state.1 = reached at hok
    obtain ⟨result, s'⟩ := reached
    obtain rfl : result = .ok (some record) := hok
    rfl
  rw [hcall] at hres hstate
  cases hevent : A.externals.fromValue record.publicationEvent with
  | error e =>
    refine iff_of_false ?_ (by simp)
    intro h
    have herror : consumedKeyPackage A record =
        .error (.invalidInput ("corrupt publication event: " ++ e)) := by
      rw [consumedKeyPackage, hevent]
    rw [herror] at hres
    have hsame := congrArg S.packages (h.kept _ hres)
    rw [hstate, hafter, hbefore] at hsame
    exact split_ne hsame.symm
  | ok event =>
    refine iff_of_true ?_ ⟨event, rfl⟩
    have hkp : consumedKeyPackage A record = .ok ⟨record.stablePubkey, record.keyPackageRef,
        record.isLastResort, record.publishedAt, event⟩ := by
      rw [consumedKeyPackage, hevent]
    rw [hkp] at hres
    refine ⟨fun e he => ?_, fun q hq _ => ⟨_, hres, ?_⟩⟩
    · rw [hres] at he
      simp [Except.map] at he
    · have hgone : (S.packages state.1 : Multiset ρ) - S.packages (take A c x state).2.1 = {r} := by
        have hmiddle : ((before ++ r::behind : List ρ) : Multiset ρ) =
            {r} + ((before ++ behind : List ρ) : Multiset ρ) := by
          rw [Multiset.coe_eq_coe.mpr List.perm_middle]
          rfl
        rw [hstate, hafter, hbefore, hmiddle, Multiset.add_sub_cancel_right]
      rw [hgone, Multiset.mem_singleton] at hq
      rw [hq]
      exact consumedKeyPackage_carries hread hkp

theorem destroysDelivered_iff (hS : Consumes A.storage S Kept) (c : Caller) (x : String)
    (state : σ × L) (hs : Kept state.1) :
    DestroysDelivered A S c x state ↔ ¬Loses A S c x state := by
  by_cases hreach : (A.rateLimiter.check c.clientPubkey c.limiterNow state.2).1 = true ∧ x ≠ ""
  · obtain ⟨hlimit, hx⟩ := hreach
    obtain ⟨-, hstate⟩ : _ ∧ (take A c x state).2.1 = _ :=
      withinRateLimit_passed c (consumeKeyPackage A x) state hlimit
    rw [consumeKeyPackage_eq x hx] at hstate
    cases hr : S.chosen x state.1 with
    | none =>
      rw [hS.absent x state.1 hs hr] at hstate
      exact iff_of_true (.of_unchanged hstate) (by simp [Loses, hr])
    | some r =>
      cases hread : S.read r with
      | error e =>
        rw [hS.unread x state.1 r e hs hr hread] at hstate
        exact iff_of_true (.of_unchanged hstate) (by simp [Loses, hr, hread])
      | ok record =>
        cases hregular : S.regular r with
        | false =>
          rw [hS.lastResort x state.1 r record hs hr hread hregular] at hstate
          exact iff_of_true (.of_unchanged hstate) (by simp [Loses, hr, hregular])
        | true =>
          rw [take_regular hS c x state hs hlimit hx r record hr hread hregular]
          cases hevent : A.externals.fromValue record.publicationEvent with
          | error e =>
            refine iff_of_false (by simp) (not_not.mpr ⟨hlimit, hx, r, record, e, hr, hread, ?_⟩)
            exact ⟨hregular, hevent⟩
          | ok event => simp [Loses, hr, hread, hevent]
  · exact iff_of_true (.of_unchanged (take_stopped c x state hreach))
      (fun h => hreach ⟨h.1, h.2.1⟩)

end Call

/-- A take loses a package exactly when storage hands out a regular one whose event
the adapter cannot read; on SQLite from every table without repeated refs. -/
theorem destroys_delivered [DecidableEq V] (json : Sqlite.SerdeJson V)
    (rateLimiter : RateLimiter L) (quota : KeyPackageQuotaConfig) (externals : Externals V)
    (c : Caller) (x : String) (s : InMemory.InMemoryInner V) (db : Sqlite.Database)
    (hdb : DistinctRows db) (l : L) :
    (DestroysDelivered ⟨InMemory.storage, rateLimiter, quota, externals⟩ memoryShelf c x (s, l) ↔
        ¬Loses ⟨InMemory.storage, rateLimiter, quota, externals⟩ memoryShelf c x (s, l)) ∧
      (DestroysDelivered ⟨Sqlite.storage json, rateLimiter, quota, externals⟩ (tableShelf json) c x
          (db, l) ↔
        ¬Loses ⟨Sqlite.storage json, rateLimiter, quota, externals⟩ (tableShelf json) c x
          (db, l)) :=
  ⟨destroysDelivered_iff (A := ⟨InMemory.storage, rateLimiter, quota, externals⟩) memory_consumes
      c x (s, l) trivial,
    destroysDelivered_iff (A := ⟨Sqlite.storage json, rateLimiter, quota, externals⟩)
      (table_consumes json) c x (db, l) hdb⟩

/-- A one-time package of Alice's stored with the JSON value `null` as its event. -/
def nullEvent : PublishedKeyPackageRecord String := ⟨alice, [1], "a-1", false, 0, "null"⟩

def nullMemory : InMemory.InMemoryInner String :=
  (InMemory.publishKeyPackage nullEvent InMemory.InMemoryInner.default).2

def nullTable : Sqlite.Database :=
  (Sqlite.publishKeyPackage jsonText nullEvent Sqlite.Database.new).2

theorem destroys_delivered_sample :
    (DestroysDelivered memoryAdapter memoryShelf (sampleCaller bob) alice (nullMemory, ()) ↔
        ¬Loses memoryAdapter memoryShelf (sampleCaller bob) alice (nullMemory, ())) ∧
      (DestroysDelivered sqliteAdapter (tableShelf jsonText) (sampleCaller bob) alice
          (nullTable, ()) ↔
        ¬Loses sqliteAdapter (tableShelf jsonText) (sampleCaller bob) alice (nullTable, ())) :=
  destroys_delivered jsonText unlimited ⟨10, 1⟩ sampleExternals (sampleCaller bob) alice nullMemory
    nullTable (by unfold DistinctRows; decide +kernel) ()

/-- Bob's take answers with an error, and the package is gone. -/
theorem package_lost :
    ((take memoryAdapter (sampleCaller bob) alice (nullMemory, ())).1 =
        .error (.invalidInput
          "corrupt publication event: invalid type: null, expected struct NostrEvent") ∧
      (take memoryAdapter (sampleCaller bob) alice
        (nullMemory, ())).2.1.keyPackagesByIdentity.contents = [] ∧
      ¬DestroysDelivered memoryAdapter memoryShelf (sampleCaller bob) alice (nullMemory, ())) ∧
    (take sqliteAdapter (sampleCaller bob) alice (nullTable, ())).1 =
        .error (.invalidInput
          "corrupt publication event: invalid type: null, expected struct NostrEvent") ∧
      (take sqliteAdapter (sampleCaller bob) alice (nullTable, ())).2.1.keyPackages.contents = [] ∧
      ¬DestroysDelivered sqliteAdapter (tableShelf jsonText) (sampleCaller bob) alice
        (nullTable, ()) := by
  have hmemory : (take memoryAdapter (sampleCaller bob) alice (nullMemory, ())).1 =
      .error (.invalidInput
        "corrupt publication event: invalid type: null, expected struct NostrEvent") ∧
      (take memoryAdapter (sampleCaller bob) alice
        (nullMemory, ())).2.1.keyPackagesByIdentity.contents = [] ∧
      nullMemory.keyPackagesByIdentity.contents ≠ [] := by
    decide +kernel
  have hsqlite : (take sqliteAdapter (sampleCaller bob) alice (nullTable, ())).1 =
      .error (.invalidInput
        "corrupt publication event: invalid type: null, expected struct NostrEvent") ∧
      (take sqliteAdapter (sampleCaller bob) alice (nullTable, ())).2.1.keyPackages.contents = [] ∧
      nullTable.keyPackages.contents ≠ [] := by
    decide +kernel
  obtain ⟨herror, hgone, hstored⟩ := hmemory
  obtain ⟨herror', hgone', hstored'⟩ := hsqlite
  refine ⟨⟨herror, hgone, ?_⟩, herror', hgone', ?_⟩
  · intro h
    rw [h.kept _ herror] at hgone
    exact hstored hgone
  · intro h
    rw [h.kept _ herror'] at hgone'
    exact hstored' hgone'

end Cordn.Adapter
