import Cordn.AdapterKeyPackages

/-!
# Taking a package by the owner's pubkey

A take reads its identifier as a ref first and as an identity only when no
stored package carries it as its ref. Any client may publish under any non-empty
ref, another client's pubkey included.
-/

set_option autoImplicit false

namespace Cordn.Adapter
open Call KeyPackageOps

variable {V σ L : Type}

def RefStored (l : KeyShelf V) (x : String) : Prop := ∃ r ∈ l, r.keyPackageRef = x

/-- A take reaches `x`'s own packages, and only those that carry `x` as their
ref as long as there are any. -/
def Reaches (l : KeyShelf V) (x pk ref : String) : Prop :=
  (RefStored l x ∧ ref = x) ∨ (¬RefStored l x ∧ pk = x)

def take (A : CoordinatorAdapter V σ L) (c : Caller) (x : String) :
    σ × L → Except AdapterError (Option ConsumedKeyPackage) × (σ × L) :=
  withinRateLimit A c (consumeKeyPackage A x)

def SparesRef (x : String) (request : Caller × Request) : Prop :=
  ∀ input event, request.2 = .publishKeyPackage input event → input.kpRef ≠ x

/-- What a take by `x` hands out and removes, in every state a run reaches. -/
structure TakesByIdentity (A : CoordinatorAdapter V σ L) (init : σ) : Prop where
  answer : ∀ requests l c x kp,
    (take A c x (Run.after (step A) requests (init, l))).1 = .ok (some kp) →
    Reaches (stored A.storage (Run.after (step A) requests (init, l)).1) x kp.pk kp.kpRef
  /-- At most one package leaves, a one-time one that the take reaches. -/
  effect : ∀ requests l c x,
    stored A.storage (take A c x (Run.after (step A) requests (init, l))).2.1 =
        stored A.storage (Run.after (step A) requests (init, l)).1 ∨
      ∃ r, Inserted (stored A.storage (take A c x (Run.after (step A) requests (init, l))).2.1) r
          (stored A.storage (Run.after (step A) requests (init, l)).1) ∧
        r.isLastResort = false ∧
        Reaches (stored A.storage (Run.after (step A) requests (init, l)).1) x r.stablePubkey
          r.keyPackageRef
  /-- No request but a publish under `x` itself makes a take by `x` reach another's. -/
  spared : ∀ requests l x request, SparesRef x request →
    ¬RefStored (stored A.storage (Run.after (step A) requests (init, l)).1) x →
    ¬RefStored (stored A.storage
      (step A request (Run.after (step A) requests (init, l))).2.1) x
  /-- After a run without such a publish every take by `x` is answered with `x`'s own. -/
  unhijacked : ∀ requests l c x kp, (∀ request ∈ requests, SparesRef x request) →
    (take A c x (Run.after (step A) requests (init, l))).1 = .ok (some kp) → kp.pk = x

theorem withRef_none_iff (l : KeyShelf V) (x : String) : withRef l x = none ↔ ¬RefStored l x := by
  simp [withRef, hasRef, RefStored]

theorem taken_reaches {l : KeyShelf V} {x : String} {r : PublishedKeyPackageRecord V}
    (h : taken l x = some r) : Reaches l x r.stablePubkey r.keyPackageRef := by
  simp only [taken, Option.or_eq_some_iff] at h
  rcases h with h | ⟨hn, h⟩
  · have hx : r.keyPackageRef = x := by simpa [hasRef] using List.find?_some h
    exact Or.inl ⟨⟨r, List.mem_of_find?_eq_some h, hx⟩, hx⟩
  · refine Or.inr ⟨(withRef_none_iff l x).mp hn, ?_⟩
    rcases h with h | ⟨-, h⟩
    · have hx := List.find?_some h
      simp only [hasIdentity, Bool.and_eq_true, decide_eq_true_eq] at hx
      exact hx.1
    · have hx := (List.mem_filter.mp (List.mem_of_getLast? h)).2
      simp only [hasIdentity, Bool.and_eq_true, decide_eq_true_eq] at hx
      exact hx.1

theorem consumed_named (A : CoordinatorAdapter V σ L) {r : PublishedKeyPackageRecord V}
    {kp : ConsumedKeyPackage} (h : consumedKeyPackage A r = .ok kp) :
    kp.pk = r.stablePubkey ∧ kp.kpRef = r.keyPackageRef := by
  unfold consumedKeyPackage at h
  split at h
  · simp at h
  · rw [← Except.ok.inj h]
    exact ⟨rfl, rfl⟩

section Backend

variable {A : CoordinatorAdapter V σ L} {Kept : σ → Prop} {unique : Bool}

theorem consumeKeyPackage_spec (hA : KeepsShelf A.storage Kept unique) (x : String) (s : σ)
    (hs : Kept s) :
    (∀ kp, (consumeKeyPackage A x s).1 = .ok (some kp) →
      Reaches (stored A.storage s) x kp.pk kp.kpRef) ∧
    (stored A.storage (consumeKeyPackage A x s).2 = stored A.storage s ∨
      ∃ r, Inserted (stored A.storage (consumeKeyPackage A x s).2) r (stored A.storage s) ∧
        r.isLastResort = false ∧
        Reaches (stored A.storage s) x r.stablePubkey r.keyPackageRef) := by
  cases hne : requireNonEmpty x "id" with
  | error e =>
    have hreply : reply (requireNonEmpty x "id") s = (.error e, s) := by
      rw [hne]
      rfl
    rw [consumeKeyPackage, bind_error hreply]
    exact ⟨by simp, Or.inl rfl⟩
  | ok u =>
    have hreply : reply (requireNonEmpty x "id") s = (.ok u, s) := by
      rw [hne]
      rfl
    obtain ⟨hres, -, hleft⟩ := hA.consume s x hs
    rw [consumeKeyPackage, bind_ok hreply, bind_ok (onStorage_ok _ s _ hres)]
    cases ht : taken (stored A.storage s) x with
    | none =>
      rw [ht] at hleft
      exact ⟨by simp [pure, reply], Or.inl hleft⟩
    | some r =>
      have hr := taken_reaches ht
      rw [ht] at hleft
      constructor
      · intro kp hkp
        change (consumedKeyPackage A r).map some = .ok (some kp) at hkp
        cases hk : consumedKeyPackage A r with
        | error e => simp [hk, Except.map] at hkp
        | ok k =>
          simp only [hk, Except.map, Except.ok.injEq, Option.some.injEq] at hkp
          obtain ⟨hpk, href⟩ := consumed_named A (hkp ▸ hk)
          rwa [hpk, href]
      · simp only [Consumed] at hleft
        split at hleft
        · exact Or.inl hleft
        · rename_i hlast
          exact Or.inr ⟨r, hleft, by simpa using hlast, hr⟩

theorem step_spares (hA : KeepsShelf A.storage Kept unique) (x : String)
    (request : Caller × Request) (state : σ × L) (hs : Kept state.1)
    (hspare : SparesRef x request) (hn : ¬RefStored (stored A.storage state.1) x) :
    ¬RefStored (stored A.storage (step A request state).2.1) x := by
  rintro ⟨q, hq, hx⟩
  obtain ⟨-, hsub | ⟨r, ⟨input, event, admitted, hreq, -, hr, -⟩, hin⟩⟩ :=
    step_shelf hA request state hs
  · exact hn ⟨q, hsub.subset hq, hx⟩
  · obtain ⟨before, behind, hbefore, hafter⟩ := hin
    have hold : ∀ p ∈ before ++ behind, p.keyPackageRef ≠ x := by
      intro p hp hpx
      rw [← hbefore] at hp
      exact hn ⟨p, (evictAll_sublist _ _).subset hp, hpx⟩
    rw [hafter, List.mem_append, List.mem_cons] at hq
    rcases hq with hq | rfl | hq
    · exact hold q (List.mem_append_left _ hq) hx
    · rw [hr] at hx
      exact hspare input event hreq hx
    · exact hold q (List.mem_append_right _ hq) hx

theorem run_spares (hA : KeepsShelf A.storage Kept unique) (x : String)
    (requests : List (Caller × Request)) (state : σ × L) (hs : Kept state.1)
    (hspare : ∀ request ∈ requests, SparesRef x request)
    (hn : ¬RefStored (stored A.storage state.1) x) :
    ¬RefStored (stored A.storage (Run.after (step A) requests state).1) x := by
  induction requests generalizing state with
  | nil => exact hn
  | cons request requests ih =>
    apply ih _ (step_shelf hA request state hs).1
    · exact fun q hq => hspare q (List.mem_cons_of_mem _ hq)
    · exact step_spares hA x request state hs (hspare request (by simp)) hn

theorem take_answer (hA : KeepsShelf A.storage Kept unique) (c : Caller) (x : String)
    (state : σ × L) (hs : Kept state.1) (kp : ConsumedKeyPackage)
    (h : (take A c x state).1 = .ok (some kp)) :
    Reaches (stored A.storage state.1) x kp.pk kp.kpRef := by
  unfold take withinRateLimit at h
  split at h
  · simp at h
  · exact (consumeKeyPackage_spec hA x _ hs).1 kp h

theorem takesByIdentity (hA : KeepsShelf A.storage Kept unique) (init : σ) (hi : Kept init)
    (he : stored A.storage init = []) : TakesByIdentity A init where
  answer requests l c x kp h :=
    take_answer hA c x _ (run_kept hA requests (init, l) hi) kp h
  effect requests l c x := by
    have hkept := run_kept hA requests (init, l) hi
    rcases withinRateLimit_cases c (consumeKeyPackage A x)
      (Run.after (step A) requests (init, l)) with h | h
    · rw [take, h]
      exact Or.inl rfl
    · rw [take, h]
      exact (consumeKeyPackage_spec hA x _ hkept).2
  spared requests l x request hspare hn :=
    step_spares hA x request _ (run_kept hA requests (init, l) hi) hspare hn
  unhijacked requests l c x kp hspare h := by
    have hn := run_spares hA x requests (init, l) hi hspare (by simp [he, RefStored])
    rcases take_answer hA c x _ (run_kept hA requests (init, l) hi) kp h with ⟨hr, -⟩ | ⟨-, hpk⟩
    · exact absurd hr hn
    · exact hpk

end Backend

def sextet (c : UInt8) : Option ℕ :=
  let n := c.toNat
  if 65 ≤ n ∧ n ≤ 90 then some (n-65)
  else if 97 ≤ n ∧ n ≤ 122 then some (n-71)
  else if 48 ≤ n ∧ n ≤ 57 then some (n+4)
  else if n = 43 then some 62
  else if n = 47 then some 63
  else none

def decodeQuads : List UInt8 → Option (List UInt8)
  | [] => some []
  | [a, b, 61, 61] => do
    let x ← sextet a
    let y ← sextet b
    if y % 16 = 0 then some [.ofNat (x*4 + y/16)] else none
  | [a, b, c, 61] => do
    let x ← sextet a
    let y ← sextet b
    let z ← sextet c
    if z % 4 = 0 then some [.ofNat (x*4 + y/16), .ofNat (y%16*16 + z/4)] else none
  | a::b::c::d::rest => do
    let x ← sextet a
    let y ← sextet b
    let z ← sextet c
    let w ← sextet d
    let bytes ← decodeQuads rest
    some (.ofNat (x*4 + y/16)::.ofNat (y%16*16 + z/4)::.ofNat (z%4*64 + w)::bytes)
  | _ => none

def alphabet : List Char :=
  "ABCDEFGHIJKLMNOPQRSTUVWXYZabcdefghijklmnopqrstuvwxyz0123456789+/".toList

def encodeTriples : List UInt8 → List Char
  | [] => []
  | [a] =>
    let n := a.toNat
    [alphabet.getD (n/4) '=', alphabet.getD (n%4*16) '=', '=', '=']
  | [a, b] =>
    let n := a.toNat*256 + b.toNat
    [alphabet.getD (n/1024) '=', alphabet.getD (n/16%64) '=', alphabet.getD (n%16*4) '=', '=']
  | a::b::c::rest =>
    let n := (a.toNat*256 + b.toNat)*256 + c.toNat
    alphabet.getD (n/262144) '='::alphabet.getD (n/4096%64) '='::
      alphabet.getD (n/64%64) '='::alphabet.getD (n%64) '='::encodeTriples rest

def eventText (e : NostrEvent) : String :=
  "\x7b\"content\":\"" ++ e.content ++ "\",\"created_at\":" ++ toString e.createdAt ++
    ",\"id\":\"" ++ e.id ++ "\",\"kind\":" ++ toString e.kind ++ ",\"pubkey\":\"" ++ e.pubkey ++
    "\",\"sig\":\"" ++ e.sig ++ "\",\"tags\":[]\x7d"

def alice : String := "aaaaaaaaaaaaaaaaaaaaaaaaaaaaaaaaaaaaaaaaaaaaaaaaaaaaaaaaaaaaaaaa"

def bob : String := "bbbbbbbbbbbbbbbbbbbbbbbbbbbbbbbbbbbbbbbbbbbbbbbbbbbbbbbbbbbbbbbb"

def sampleEvent (pubkey : String) : NostrEvent :=
  ⟨"00000000000000000000000000000000000000000000000000000000000000e1", pubkey, 1700000000, 443, [],
    "", "5161"⟩

def sampleExternals : Externals String where
  b64Decode text := decodeQuads text.toByteArray.data.toList
  b64Encode bytes := String.ofList (encodeTriples bytes)
  toValue event := .ok (eventText event)
  null := "null"
  fromValue text := if text = eventText (sampleEvent alice) then .ok (sampleEvent alice)
    else if text = eventText (sampleEvent bob) then .ok (sampleEvent bob)
    else .error "invalid type: null, expected struct NostrEvent"

def jsonText : Sqlite.SerdeJson String := ⟨.ok, .ok⟩

theorem jsonText_roundTrips : jsonText.RoundTrips := fun v => ⟨v, rfl, rfl⟩

def unlimited : RateLimiter Unit := ⟨fun _ _ l => (true, l)⟩

def memoryAdapter : CoordinatorAdapter String (InMemory.InMemoryInner String) Unit :=
  ⟨InMemory.storage, unlimited, ⟨10, 1⟩, sampleExternals⟩

def sqliteAdapter : CoordinatorAdapter String Sqlite.Database Unit :=
  ⟨Sqlite.storage jsonText, unlimited, ⟨10, 1⟩, sampleExternals⟩

/-- A key package with an identity of 64 characters, with or without the
last-resort marker, in base64. -/
def package64 (identity64 : String) (lastResort : Bool) : String :=
  "AAEAAQAAAAABQEB" ++ identity64 ++ "AAAAAAABAAAAAAAAAAAAAAAAAAAAAAAA" ++
    (if lastResort then "BwAGBAMABAAA" else "AAA=")

def alice64 : String :=
  "hYWFhYWFhYWFhYWFhYWFhYWFhYWFhYWFhYWFhYWFhYWFhYWFhYWFhYWFhYWFhYWFhYWFhYWFhYWFhYWFhYWFh"

def bob64 : String :=
  "iYmJiYmJiYmJiYmJiYmJiYmJiYmJiYmJiYmJiYmJiYmJiYmJiYmJiYmJiYmJiYmJiYmJiYmJiYmJiYmJiYmJi"

def sampleCaller (clientPubkey : String) : Caller := ⟨clientPubkey, 0, 1700000001⟩

def publishes (clientPubkey identity64 : String) (lastResort : Bool) (kpRef : String) :
    Caller × Request :=
  (sampleCaller clientPubkey,
    .publishKeyPackage ⟨kpRef, package64 identity64 lastResort⟩ (some (sampleEvent clientPubkey)))

/-- A take by `x` answers with `x`'s packages, and with another's only where that
one was published under `x` as its ref. -/
theorem take_by_identity (json : Sqlite.SerdeJson V) (hj : json.RoundTrips)
    (rateLimiter : RateLimiter L) (quota : KeyPackageQuotaConfig) (externals : Externals V) :
    TakesByIdentity ⟨InMemory.storage, rateLimiter, quota, externals⟩
        InMemory.InMemoryInner.default ∧
      TakesByIdentity ⟨Sqlite.storage json, rateLimiter, quota, externals⟩ Sqlite.Database.new :=
  ⟨takesByIdentity inMemory_keepsShelf _ (IndexMap.keyed_empty _) rfl,
    takesByIdentity (sqlite_keepsShelf hj) _ ⟨[], rfl, by simp [UniqueRefs]⟩
      (Sqlite.stored_eq hj rfl)⟩

theorem take_by_identity_sample :
    TakesByIdentity memoryAdapter InMemory.InMemoryInner.default ∧
      TakesByIdentity sqliteAdapter Sqlite.Database.new :=
  take_by_identity jsonText jsonText_roundTrips unlimited ⟨10, 1⟩ sampleExternals

/-- Alice publishes a package of her own, then Bob one with her pubkey as its ref. -/
def hijack : List (Caller × Request) :=
  [publishes alice alice64 false "a-1", publishes bob bob64 false alice]

def takeAfterHijack (A : CoordinatorAdapter V σ Unit) (init : σ) :
    Except AdapterError (Option ConsumedKeyPackage) × (σ × Unit) :=
  take A (sampleCaller bob) alice (Run.after (step A) hijack (init, ()))

/-- A take by Alice's pubkey is answered with Bob's package, which is deleted. -/
theorem take_hijacked :
    (takeAfterHijack memoryAdapter InMemory.InMemoryInner.default).1 =
        .ok (some ⟨bob, alice, false, 1700000001, sampleEvent bob⟩) ∧
      (stored memoryAdapter.storage
          (takeAfterHijack memoryAdapter InMemory.InMemoryInner.default).2.1).map
        (fun r => r.stablePubkey) = [alice] ∧
      (takeAfterHijack sqliteAdapter Sqlite.Database.new).1 =
        .ok (some ⟨bob, alice, false, 1700000001, sampleEvent bob⟩) ∧
      (stored sqliteAdapter.storage
          (takeAfterHijack sqliteAdapter Sqlite.Database.new).2.1).map
        (fun r => r.stablePubkey) = [alice] ∧
      bob ≠ alice := by
  decide +kernel

end Cordn.Adapter
