import Cordn.ConsumeDelivery

/-!
# A batch of removals

The call checks and deletes ref by ref, each in a storage call of its own. A ref that
fails its check stops the batch behind the deletions before it.
-/

set_option autoImplicit false

namespace Cordn.Adapter
open Call KeyPackageOps KeyedList

variable {V σ L ρ : Type}

structure Stock (V σ ρ : Type) where
  packages : σ → List ρ
  ref : ρ → String
  owner : ρ → String
  read : ρ → Except StorageError (PublishedKeyPackageRecord V)

def Stock.first (S : Stock V σ ρ) (x : String) (s : σ) : Option ρ :=
  (S.packages s).find? (hasKey S.ref x)

/-- One package of `c` has gone for each ref: the first one with it, in the order of the refs. -/
structure TookOut (S : Stock V σ ρ) (c : String) (refs : List String) (before after : List ρ) :
    Prop where
  left : after = takeOut S.ref refs before
  gone : ∃ gone, gone.map S.ref = refs ∧ (∀ r ∈ gone, S.owner r = c) ∧
    before.Perm (gone ++ after)

/-- The check of `x` fails: no package carries it, its row cannot be read, or it is another's. -/
def StopsAt (S : Stock V σ ρ) (c x : String) (s : σ) (e : AdapterError) : Prop :=
  match S.first x s with
  | none => e = .unknownKeyPackageRef x
  | some r =>
    match S.read r with
    | .error err => e = .storage err
    | .ok _ => S.owner r ≠ c ∧ e = .unauthorizedKeyPackageRef x

def removeBatch (A : CoordinatorAdapter V σ L) (c : Caller) (kpRefs : List String) :
    σ × L → Except AdapterError (List String) × (σ × L) :=
  withinRateLimit A c (removeKeyPackages A c kpRefs)

structure RemovesInOrder (A : CoordinatorAdapter V σ L) (S : Stock V σ ρ) (c : Caller)
    (refs : List String) (state : σ × L) : Prop where
  done : ∀ out, (removeBatch A c refs state).1 = .ok out →
    out = refs ∧ TookOut S c.clientPubkey refs (S.packages state.1)
      (S.packages (removeBatch A c refs state).2.1)
  stopped : ∀ e, (removeBatch A c refs state).1 = .error e →
    ((removeBatch A c refs state).2.1 = state.1 ∧
        ((A.rateLimiter.check c.clientPubkey c.limiterNow state.2).1 = false ∨ refs = [])) ∨
      ∃ pre x post, refs = pre ++ x::post ∧
        TookOut S c.clientPubkey pre (S.packages state.1)
          (S.packages (removeBatch A c refs state).2.1) ∧
        StopsAt S c.clientPubkey x (removeBatch A c refs state).2.1 e
  /-- Where refs are distinct, a batch that succeeds names none twice, and exactly the
  packages it lists are gone. -/
  exactly : ((S.packages state.1).map S.ref).Nodup → ∀ out,
    (removeBatch A c refs state).1 = .ok out → refs.Nodup ∧
      S.packages (removeBatch A c refs state).2.1 =
        (S.packages state.1).filter (fun r => decide (S.ref r ∉ refs))

structure RemovesByRef (storage : CoordinatorStorage V σ) (S : Stock V σ ρ) (Kept : σ → Prop) :
    Prop where
  named : ∀ r record, S.read r = .ok record →
    record.keyPackageRef = S.ref r ∧ record.stablePubkey = S.owner r
  absent : ∀ x s, Kept s → S.first x s = none → storage.getKeyPackage x s = (.ok none, s)
  unread : ∀ x s r e, Kept s → S.first x s = some r → S.read r = .error e →
    storage.getKeyPackage x s = (.error e, s)
  found : ∀ x s r record, Kept s → S.first x s = some r → S.read r = .ok record →
    storage.getKeyPackage x s = (.ok (some record), s)
  remove : ∀ x s r record, Kept s → S.first x s = some r → S.read r = .ok record →
    (storage.removeKeyPackage x s).1 = .ok (some record) ∧
      Kept (storage.removeKeyPackage x s).2 ∧
      S.packages (storage.removeKeyPackage x s).2 = (S.packages s).eraseP (hasKey S.ref x)

def memoryStock : Stock V (InMemory.InMemoryInner V) (PublishedKeyPackageRecord V) where
  packages s := s.keyPackagesByIdentity.contents
  ref := PublishedKeyPackageRecord.keyPackageRef
  owner := PublishedKeyPackageRecord.stablePubkey
  read r := .ok r

theorem memory_first (x : String) (s : InMemory.InMemoryInner V) :
    memoryStock.first x s = withRef s.keyPackagesByIdentity.contents x := rfl

theorem memory_removes : RemovesByRef (InMemory.storage (V := V)) memoryStock (fun _ => True) where
  named r record h := by
    rw [← Except.ok.inj h]
    exact ⟨rfl, rfl⟩
  absent x s _ h := by
    rw [memory_first] at h
    exact (InMemory.get_result x s).trans (by rw [h])
  unread x s r e _ _ h := by simp [memoryStock] at h
  found x s r record _ h hread := by
    obtain rfl := Except.ok.inj hread
    rw [memory_first] at h
    exact (InMemory.get_result x s).trans (by rw [h])
  remove x s r record _ h hread := by
    obtain rfl := Except.ok.inj hread
    rw [memory_first] at h
    exact ⟨(InMemory.remove_result x s).trans (by rw [h]), trivial, InMemory.remove_contents x s⟩

def tableStock (json : Sqlite.SerdeJson V) : Stock V Sqlite.Database Sqlite.KeyPackageRow where
  packages db := db.keyPackages.contents
  ref := Sqlite.KeyPackageRow.keyPackageRef
  owner := Sqlite.KeyPackageRow.stablePubkey
  read := Sqlite.rowToKeyPackage json

theorem table_first (json : Sqlite.SerdeJson V) (x : String) (db : Sqlite.Database) :
    (Sqlite.selectByRef x db).head? = (tableStock json).first x db := by
  rw [Sqlite.selectByRef, List.head?_take, if_neg (by decide), SqlTable.select_byId]
  exact List.head?_filter

theorem table_query (json : Sqlite.SerdeJson V) (x : String) (db : Sqlite.Database) :
    Sqlite.queryRow json (Sqlite.selectByRef x db) =
      match (tableStock json).first x db with
      | none => .ok none
      | some row => (Sqlite.rowToKeyPackage json row).map some := by
  have hhead := table_first json x db
  cases hfirst : (tableStock json).first x db with
  | none => simp only [Sqlite.queryRow, hhead, hfirst]
  | some row => simp only [Sqlite.queryRow, hhead, hfirst]

theorem table_removes (json : Sqlite.SerdeJson V) :
    RemovesByRef (Sqlite.storage json) (tableStock json) DistinctRows where
  named row record h := by
    refine ⟨rowToKeyPackage_ref json row record h, ?_⟩
    change Sqlite.rowToKeyPackage json row = .ok record at h
    unfold Sqlite.rowToKeyPackage at h
    split at h
    · simp at h
    · rw [← Except.ok.inj h]
      rfl
  absent x db _ h := by
    change (Sqlite.queryRow json (Sqlite.selectByRef x db), db) = _
    rw [table_query, h]
  unread x db row e _ h hread := by
    change (Sqlite.queryRow json (Sqlite.selectByRef x db), db) = _
    change Sqlite.rowToKeyPackage json row = .error e at hread
    simp only [table_query, h, hread, Except.map]
  found x db row record _ h hread := by
    change (Sqlite.queryRow json (Sqlite.selectByRef x db), db) = _
    change Sqlite.rowToKeyPackage json row = .ok record at hread
    simp only [table_query, h, hread, Except.map]
  remove x db row record hd h hread := by
    change Sqlite.rowToKeyPackage json row = .ok record at hread
    have hremove : Sqlite.removeKeyPackage json x db =
        (.ok (some record), Sqlite.deleteByRef x db) := by
      simp only [Sqlite.removeKeyPackage, table_query, h, hread, Except.map]
    change (Sqlite.removeKeyPackage json x db).1 = _ ∧
      DistinctRows (Sqlite.removeKeyPackage json x db).2 ∧
      (Sqlite.removeKeyPackage json x db).2.keyPackages.contents = _
    rw [hremove]
    refine ⟨rfl, hd.deleteByRef x, ?_⟩
    rw [Sqlite.deleteByRef, SqlTable.contents_delete]
    exact (eraseP_eq_filter Sqlite.KeyPackageRow.keyPackageRef _ hd x).symm

section Loop

variable {A : CoordinatorAdapter V σ L} {S : Stock V σ ρ} {Kept : σ → Prop}

theorem TookOut.nil (S : Stock V σ ρ) (c : String) (l : List ρ) : TookOut S c [] l l :=
  ⟨rfl, [], rfl, by simp, List.Perm.refl _⟩

theorem TookOut.cons {c x : String} {refs : List String} {before after : List ρ} {r : ρ}
    (hr : before.find? (hasKey S.ref x) = some r) (hown : S.owner r = c)
    (h : TookOut S c refs (before.eraseP (hasKey S.ref x)) after) :
    TookOut S c (x::refs) before after := by
  obtain ⟨hx, xs, ys, rfl, hxs⟩ := List.find?_eq_some_iff_append.mp hr
  have herase : (xs ++ r::ys).eraseP (hasKey S.ref x) = xs ++ ys := by
    rw [List.eraseP_append_right _ (by simpa using hxs), List.eraseP_cons_of_pos hx]
  obtain ⟨gone, hgone, howned, hperm⟩ := h.gone
  refine ⟨h.left, r::gone, ?_, ?_, ?_⟩
  · rw [List.map_cons, hgone]
    have href : S.ref r = x := by simpa [hasKey] using hx
    rw [href]
  · intro q hq
    rcases List.mem_cons.mp hq with rfl | hq
    · exact hown
    · exact howned q hq
  · rw [herase] at hperm
    exact List.perm_middle.trans (hperm.cons r)

theorem TookOut.distinct {c : String} {refs : List String} {before after : List ρ}
    (h : TookOut S c refs before after) (hd : (before.map S.ref).Nodup) :
    refs.Nodup ∧ after = before.filter (fun r => decide (S.ref r ∉ refs)) := by
  obtain ⟨gone, hgone, -, hperm⟩ := h.gone
  refine ⟨?_, h.left.trans (takeOut_eq_filter S.ref refs before hd)⟩
  have hall : ((gone ++ after).map S.ref).Nodup := (hperm.map S.ref).nodup_iff.mp hd
  rw [List.map_append, List.nodup_append, hgone] at hall
  exact hall.1

theorem ownKeyPackage_spec (hS : RemovesByRef A.storage S Kept) (c : Caller) (x : String) (s : σ)
    (hs : Kept s) :
    (∃ r record, S.first x s = some r ∧ S.read r = .ok record ∧ S.owner r = c.clientPubkey ∧
        ownKeyPackage A c x s = (.ok (), s)) ∨
      ∃ e, StopsAt S c.clientPubkey x s e ∧ ownKeyPackage A c x s = (.error e, s) := by
  cases hr : S.first x s with
  | none =>
    have hget := hS.absent x s hs hr
    have hok := onStorage_ok _ s _ (congrArg Prod.fst hget)
    rw [hget] at hok
    refine Or.inr ⟨.unknownKeyPackageRef x, by simp [StopsAt, hr], ?_⟩
    rw [ownKeyPackage, bind_ok hok]
    rfl
  | some r =>
    cases hread : S.read r with
    | error err =>
      have hget := hS.unread x s r err hs hr hread
      have herr := onStorage_error _ s _ (congrArg Prod.fst hget)
      rw [hget] at herr
      refine Or.inr ⟨.storage err, by simp [StopsAt, hr, hread], ?_⟩
      rw [ownKeyPackage, bind_error herr]
    | ok record =>
      have hget := hS.found x s r record hs hr hread
      have hok := onStorage_ok _ s _ (congrArg Prod.fst hget)
      rw [hget] at hok
      rw [ownKeyPackage, bind_ok hok]
      have howner := (hS.named r record hread).2
      by_cases hown : S.owner r = c.clientPubkey
      · refine Or.inl ⟨r, record, rfl, hread, hown, ?_⟩
        dsimp only
        rw [if_neg (not_not.mpr (howner.trans hown))]
        rfl
      · refine Or.inr ⟨.unauthorizedKeyPackageRef x, by simp [StopsAt, hr, hread, hown], ?_⟩
        dsimp only
        rw [if_pos (howner ▸ hown)]
        rfl

theorem removeLoop_spec (hS : RemovesByRef A.storage S Kept) (c : Caller) (refs : List String)
    (s : σ) (hs : Kept s) :
    ∃ result s', removeLoop A c refs s = (result, s') ∧
      ((result = .ok refs ∧ TookOut S c.clientPubkey refs (S.packages s) (S.packages s')) ∨
        ∃ e pre x post, result = .error e ∧ refs = pre ++ x::post ∧
          TookOut S c.clientPubkey pre (S.packages s) (S.packages s') ∧
          StopsAt S c.clientPubkey x s' e) := by
  induction refs generalizing s with
  | nil => exact ⟨.ok [], s, rfl, Or.inl ⟨rfl, TookOut.nil S _ _⟩⟩
  | cons x refs ih =>
    rcases ownKeyPackage_spec hS c x s hs with
      ⟨r, record, hr, hread, hown, hcheck⟩ | ⟨e, he, hcheck⟩
    · obtain ⟨hgone, hkept, hleft⟩ := hS.remove x s r record hs hr hread
      obtain ⟨result, s', hrun, hcases⟩ := ih _ hkept
      have hx : record.keyPackageRef = x := by
        rw [(hS.named r record hread).1]
        simpa [hasKey] using List.find?_some hr
      have hloop : removeLoop A c (x::refs) s = (removeLoop A c refs >>= fun removed =>
          pure (((some record).map (fun r => r.keyPackageRef)).getD x::removed))
            (A.storage.removeKeyPackage x s).2 := by
        rw [removeLoop, bind_ok hcheck, bind_ok (onStorage_ok _ s _ hgone)]
      rw [hleft] at hcases
      rcases hcases with ⟨rfl, htook⟩ | ⟨e, pre, y, post, rfl, rfl, htook, hstop⟩
      · refine ⟨.ok (x::refs), s', ?_, Or.inl ⟨rfl, htook.cons hr hown⟩⟩
        rw [hloop, bind_ok hrun, Option.map_some, Option.getD_some, hx]
        rfl
      · refine ⟨.error e, s', ?_, Or.inr ⟨e, x::pre, y, post, rfl, rfl, htook.cons hr hown, hstop⟩⟩
        rw [hloop, bind_error hrun]
    · refine ⟨.error e, s, ?_, Or.inr ⟨e, [], x, refs, rfl, rfl, TookOut.nil S _ _, he⟩⟩
      rw [removeLoop, bind_error hcheck]

theorem removeBatch_spec (hS : RemovesByRef A.storage S Kept) (c : Caller) (refs : List String)
    (state : σ × L) (hs : Kept state.1) :
    ((∃ e, (removeBatch A c refs state).1 = .error e) ∧
      (removeBatch A c refs state).2.1 = state.1 ∧
      ((A.rateLimiter.check c.clientPubkey c.limiterNow state.2).1 = false ∨ refs = [])) ∨
    ((removeBatch A c refs state).1 = .ok refs ∧
      TookOut S c.clientPubkey refs (S.packages state.1)
        (S.packages (removeBatch A c refs state).2.1)) ∨
    ∃ e pre x post, (removeBatch A c refs state).1 = .error e ∧ refs = pre ++ x::post ∧
      TookOut S c.clientPubkey pre (S.packages state.1)
        (S.packages (removeBatch A c refs state).2.1) ∧
      StopsAt S c.clientPubkey x (removeBatch A c refs state).2.1 e := by
  cases hlimit : (A.rateLimiter.check c.clientPubkey c.limiterNow state.2).1 with
  | false =>
    obtain ⟨hres, hstate⟩ := withinRateLimit_limited c (removeKeyPackages A c refs) state hlimit
    exact Or.inl ⟨⟨_, hres⟩, hstate, Or.inl rfl⟩
  | true =>
    obtain ⟨hres, hstate⟩ := withinRateLimit_passed c (removeKeyPackages A c refs) state hlimit
    rw [removeBatch, hres, hstate]
    cases refs with
    | nil => exact Or.inl ⟨⟨_, rfl⟩, rfl, Or.inr rfl⟩
    | cons x refs =>
      obtain ⟨result, s', hrun, hcases⟩ := removeLoop_spec hS c (x::refs) state.1 hs
      have hcall : removeKeyPackages A c (x::refs) state.1 = (result, s') := by
        rw [removeKeyPackages, ← hrun]
        rfl
      rw [hcall]
      exact Or.inr hcases

theorem removesInOrder (hS : RemovesByRef A.storage S Kept) (c : Caller) (refs : List String)
    (state : σ × L) (hs : Kept state.1) : RemovesInOrder A S c refs state := by
  have hcases := removeBatch_spec hS c refs state hs
  refine ⟨?_, ?_, ?_⟩
  · intro out hout
    rcases hcases with ⟨⟨e, he⟩, -⟩ | ⟨hok, htook⟩ | ⟨e, -, -, -, he, -⟩
    · simp [he] at hout
    · rw [hok] at hout
      exact ⟨(Except.ok.inj hout).symm, htook⟩
    · simp [he] at hout
  · intro e he
    rcases hcases with ⟨-, hstopped⟩ | ⟨hok, -⟩ | ⟨e', pre, x, post, he', hrefs, htook, hstop⟩
    · exact Or.inl hstopped
    · simp [hok] at he
    · rw [he'] at he
      obtain rfl := Except.error.inj he
      exact Or.inr ⟨pre, x, post, hrefs, htook, hstop⟩
  · intro hd out hout
    rcases hcases with ⟨⟨e, he⟩, -⟩ | ⟨-, htook⟩ | ⟨e, -, -, -, he, -⟩
    · simp [he] at hout
    · exact htook.distinct hd
    · simp [he] at hout

end Loop

/-- A batch removes what it lists in order; one that fails has removed what it lists before
the first ref whose check fails. -/
theorem batch_removal (json : Sqlite.SerdeJson V) (rateLimiter : RateLimiter L)
    (quota : KeyPackageQuotaConfig) (externals : Externals V) (c : Caller) (refs : List String)
    (s : InMemory.InMemoryInner V) (db : Sqlite.Database) (hdb : DistinctRows db) (l : L) :
    RemovesInOrder ⟨InMemory.storage, rateLimiter, quota, externals⟩ memoryStock c refs (s, l) ∧
      RemovesInOrder ⟨Sqlite.storage json, rateLimiter, quota, externals⟩ (tableStock json) c refs
        (db, l) :=
  ⟨removesInOrder (A := ⟨InMemory.storage, rateLimiter, quota, externals⟩) memory_removes c refs
      (s, l) trivial,
    removesInOrder (A := ⟨Sqlite.storage json, rateLimiter, quota, externals⟩)
      (table_removes json) c refs (db, l) hdb⟩

theorem batch_removal_sample :
    RemovesInOrder memoryAdapter memoryStock (sampleCaller alice) ["a-1", "a-2"]
        (nullMemory, ()) ∧
      RemovesInOrder sqliteAdapter (tableStock jsonText) (sampleCaller alice) ["a-1", "a-2"]
        (nullTable, ()) :=
  batch_removal jsonText unlimited ⟨10, 1⟩ sampleExternals (sampleCaller alice) ["a-1", "a-2"]
    nullMemory nullTable (by unfold DistinctRows; decide +kernel) ()

/-- Alice lists her package and an unknown ref: the call fails, and her package is gone. -/
theorem batch_half_done :
    (nullMemory.keyPackagesByIdentity.contents.map (fun r => r.keyPackageRef) = ["a-1"] ∧
      (removeBatch memoryAdapter (sampleCaller alice) ["a-1", "a-2"] (nullMemory, ())).1 =
        .error (.unknownKeyPackageRef "a-2") ∧
      (removeBatch memoryAdapter (sampleCaller alice) ["a-1", "a-2"]
        (nullMemory, ())).2.1.keyPackagesByIdentity.contents = []) ∧
    nullTable.keyPackages.contents.map (fun r => r.keyPackageRef) = ["a-1"] ∧
      (removeBatch sqliteAdapter (sampleCaller alice) ["a-1", "a-2"] (nullTable, ())).1 =
        .error (.unknownKeyPackageRef "a-2") ∧
      (removeBatch sqliteAdapter (sampleCaller alice) ["a-1", "a-2"]
        (nullTable, ())).2.1.keyPackages.contents = [] := by
  decide +kernel

end Cordn.Adapter
