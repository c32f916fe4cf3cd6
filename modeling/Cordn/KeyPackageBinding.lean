import Cordn.TakeByIdentity

/-!
# Stored packages are bound to their publishers

Every package on the shelf came from an admitted publication of the client it
names: its bytes parse to that client and to the stored flag, and its event is
the one that client sent.
-/

set_option autoImplicit false

namespace Cordn.Adapter
open Call KeyPackageOps MlsParse

variable {V σ L : Type}

/-- The events sent with the publications come back from their JSON values. -/
def EventsRoundTrip (externals : Externals V) (requests : List (Caller × Request)) : Prop :=
  ∀ c input event, (c, Request.publishKeyPackage input (some event)) ∈ requests →
    ∃ v, externals.toValue event = .ok v ∧ externals.fromValue v = .ok event

/-- The record `r` is the publication of `event` by `c`, with every binding checked. -/
structure Binding (A : CoordinatorAdapter V σ L) (c : Caller) (input : PublishKeyPackageInput)
    (event : NostrEvent) (r : PublishedKeyPackageRecord V) : Prop where
  bytes : A.externals.b64Decode input.kp64 = some r.keyPackageBytes
  parses : ∃ parsed, parseKeyPackage r.keyPackageBytes = .ok parsed ∧
    parsed.credentialIdentity = r.stablePubkey ∧ parsed.isLastResort = r.isLastResort
  signer : event.pubkey = r.stablePubkey
  caller : c.clientPubkey = r.stablePubkey
  ref : r.keyPackageRef = input.kpRef
  publishedAt : r.publishedAt = c.now
  decodes : A.externals.fromValue r.publicationEvent = .ok event

def corrupt (e : String) : AdapterError := .invalidInput ("corrupt publication event: " ++ e)

/-- What holds of the packages stored, and taken, behind a run of requests. -/
structure BindsPackages (A : CoordinatorAdapter V σ L) (requests : List (Caller × Request))
    (state : σ × L) : Prop where
  stored : ∀ r ∈ stored A.storage state.1, ∃ c input event,
    (c, Request.publishKeyPackage input (some event)) ∈ requests ∧ Binding A c input event r
  /-- A take hands out a client's own publication, with its event. -/
  taken : ∀ c x kp, (take A c x state).1 = .ok (some kp) → ∃ c' input r,
    (c', Request.publishKeyPackage input (some kp.event)) ∈ requests ∧
      r ∈ KeyPackageOps.stored A.storage state.1 ∧ Binding A c' input kp.event r ∧
      kp = ⟨r.stablePubkey, r.keyPackageRef, r.isLastResort, r.publishedAt, kp.event⟩ ∧
      kp.event.pubkey = kp.pk ∧ c'.clientPubkey = kp.pk
  uncorrupted : ∀ c x e, (take A c x state).1 ≠ .error (corrupt e)

theorem admitted_bound {A : CoordinatorAdapter V σ L} {c : Caller}
    {input : PublishKeyPackageInput} {event : Option NostrEvent}
    {admitted : List UInt8 × ParsedKeyPackage × NostrEvent}
    (h : admission A c.clientPubkey input event = .ok admitted)
    (hx : ∃ v, A.externals.toValue admitted.2.2 = .ok v ∧
      A.externals.fromValue v = .ok admitted.2.2) :
    Binding A c input admitted.2.2 (incomingRecord A c input admitted) := by
  obtain ⟨-, hbytes, hparse, hsigner, hidentity⟩ := admission_checked h
  obtain ⟨v, hto, hfrom⟩ := hx
  have hvalue : eventValue A admitted.2.2 = v := by simp [eventValue, hto]
  exact {
    bytes := hbytes
    parses := ⟨admitted.2.1, hparse, rfl, rfl⟩
    signer := hidentity.symm
    caller := hsigner.symm.trans hidentity.symm
    ref := rfl
    publishedAt := rfl
    decodes := by
      change A.externals.fromValue (eventValue A admitted.2.2) = _
      rw [hvalue, hfrom] }

section Backend

variable {A : CoordinatorAdapter V σ L} {Kept : σ → Prop} {unique : Bool}

theorem step_published (hA : KeepsShelf A.storage Kept unique) (request : Caller × Request)
    (state : σ × L) (hs : Kept state.1) :
    ∀ r ∈ stored A.storage (step A request state).2.1, r ∈ stored A.storage state.1 ∨
      Publishes A unique request (stored A.storage state.1) r := by
  intro r hr
  obtain ⟨-, hsub | ⟨p, hp, hin⟩⟩ := step_shelf hA request state hs
  · exact Or.inl (hsub.subset hr)
  · obtain ⟨before, behind, hbefore, hafter⟩ := hin
    rw [hafter, List.mem_append, List.mem_cons] at hr
    have hold : ∀ q ∈ before ++ behind, q ∈ stored A.storage state.1 := by
      intro q hq
      rw [← hbefore] at hq
      exact (evictAll_sublist _ _).subset hq
    rcases hr with hr | rfl | hr
    · exact Or.inl (hold r (List.mem_append_left _ hr))
    · exact Or.inr hp
    · exact Or.inl (hold r (List.mem_append_right _ hr))

theorem run_published (hA : KeepsShelf A.storage Kept unique)
    (requests : List (Caller × Request)) (state : σ × L) (hs : Kept state.1) :
    ∀ r ∈ stored A.storage (Run.after (step A) requests state).1, r ∈ stored A.storage state.1 ∨
      ∃ request ∈ requests, ∃ l, Publishes A unique request l r := by
  induction requests generalizing state with
  | nil => exact fun r hr => Or.inl hr
  | cons request requests ih =>
    intro r hr
    rcases ih _ (step_shelf hA request state hs).1 r hr with hm | ⟨q, hq, hp⟩
    · rcases step_published hA request state hs r hm with hold | hp
      · exact Or.inl hold
      · exact Or.inr ⟨request, List.mem_cons_self, _, hp⟩
    · exact Or.inr ⟨q, List.mem_cons_of_mem _ hq, hp⟩

theorem consumeKeyPackage_answer (hA : KeepsShelf A.storage Kept unique) (x : String) (s : σ)
    (hs : Kept s) :
    (consumeKeyPackage A x s).1 = .error (.invalidInput "id must be non-empty") ∨
      (consumeKeyPackage A x s).1 = .ok none ∨
      ∃ r ∈ stored A.storage s,
        (consumeKeyPackage A x s).1 = (consumedKeyPackage A r).map some := by
  by_cases hx : x.isEmpty = true
  · have hreply : reply (requireNonEmpty x "id") s =
        (.error (.invalidInput "id must be non-empty"), s) := by
      rw [requireNonEmpty, if_pos hx]
      rfl
    rw [consumeKeyPackage, bind_error hreply]
    exact Or.inl rfl
  · have hreply : reply (requireNonEmpty x "id") s = (.ok (), s) := by
      rw [requireNonEmpty, if_neg hx]
      rfl
    obtain ⟨hres, -, -⟩ := hA.consume s x hs
    rw [consumeKeyPackage, bind_ok hreply, bind_ok (onStorage_ok _ s _ hres)]
    cases ht : KeyPackageOps.taken (stored A.storage s) x with
    | none => exact Or.inr (Or.inl rfl)
    | some r => exact Or.inr (Or.inr ⟨r, taken_mem ht, rfl⟩)

theorem consumed_of_decodes {r : PublishedKeyPackageRecord V} {event : NostrEvent}
    (h : A.externals.fromValue r.publicationEvent = .ok event) :
    consumedKeyPackage A r =
      .ok ⟨r.stablePubkey, r.keyPackageRef, r.isLastResort, r.publishedAt, event⟩ := by
  simp [consumedKeyPackage, h]

theorem corrupt_ne (e : String) : AdapterError.invalidInput "id must be non-empty" ≠ corrupt e := by
  intro heq
  have htext := AdapterError.invalidInput.inj heq
  have hlist := congrArg String.toList htext
  rw [String.toList_append] at hlist
  exact absurd (congrArg List.head? hlist) (by simp)

theorem bindsPackages (hA : KeepsShelf A.storage Kept unique) (init : σ) (hi : Kept init)
    (he : stored A.storage init = []) (requests : List (Caller × Request)) (l : L)
    (hx : EventsRoundTrip A.externals requests) :
    BindsPackages A requests (Run.after (step A) requests (init, l)) := by
  have hkept := run_kept hA requests (init, l) hi
  generalize hstate : Run.after (step A) requests (init, l) = state at hkept
  have hbound : ∀ r ∈ stored A.storage state.1, ∃ c input event,
      (c, Request.publishKeyPackage input (some event)) ∈ requests ∧
        Binding A c input event r := by
    intro r hr
    rw [← hstate] at hr
    rcases run_published hA requests (init, l) hi r hr with hm | ⟨⟨c, request⟩, hq, _, hp⟩
    · rw [he] at hm
      simp at hm
    · obtain ⟨input, event, admitted, rfl, hadm, rfl, -⟩ := hp
      have hevent := (admission_checked hadm).1
      rw [hevent] at hq
      exact ⟨c, input, admitted.2.2, hq, admitted_bound hadm (hx c input _ hq)⟩
  have htake : ∀ c x, (take A c x state).1 = .error .rateLimitExceeded ∨
      (take A c x state).1 = .error (.invalidInput "id must be non-empty") ∨
      (take A c x state).1 = .ok none ∨
      ∃ r ∈ stored A.storage state.1, (take A c x state).1 = (consumedKeyPackage A r).map some := by
    intro c x
    unfold take withinRateLimit
    split
    · exact Or.inl rfl
    · exact Or.inr (consumeKeyPackage_answer hA x state.1 hkept)
  refine ⟨hbound, ?_, ?_⟩
  · intro c x kp hkp
    rcases htake c x with h | h | h | ⟨r, hr, h⟩
    · simp [h] at hkp
    · simp [h] at hkp
    · simp [h] at hkp
    · obtain ⟨c', input, event, hq, hb⟩ := hbound r hr
      rw [h, consumed_of_decodes hb.decodes] at hkp
      simp only [Except.map, Except.ok.injEq, Option.some.injEq] at hkp
      subst hkp
      exact ⟨c', input, r, hq, hr, hb, rfl, hb.signer, hb.caller⟩
  · intro c x e herr
    rcases htake c x with h | h | h | ⟨r, hr, h⟩
    · rw [h] at herr
      simp [corrupt] at herr
    · rw [h, Except.error.injEq] at herr
      exact corrupt_ne e herr
    · simp [h] at herr
    · obtain ⟨c', input, event, hq, hb⟩ := hbound r hr
      rw [h, consumed_of_decodes hb.decodes] at herr
      simp [Except.map] at herr

end Backend

theorem packages_bound (json : Sqlite.SerdeJson V) (hj : json.RoundTrips)
    (rateLimiter : RateLimiter L) (quota : KeyPackageQuotaConfig) (externals : Externals V)
    (requests : List (Caller × Request)) (l : L) (hx : EventsRoundTrip externals requests) :
    BindsPackages ⟨InMemory.storage, rateLimiter, quota, externals⟩ requests
        (Run.after (step ⟨InMemory.storage, rateLimiter, quota, externals⟩) requests
          (InMemory.InMemoryInner.default, l)) ∧
      BindsPackages ⟨Sqlite.storage json, rateLimiter, quota, externals⟩ requests
        (Run.after (step ⟨Sqlite.storage json, rateLimiter, quota, externals⟩) requests
          (Sqlite.Database.new, l)) :=
  ⟨bindsPackages inMemory_keepsShelf InMemory.InMemoryInner.default (IndexMap.keyed_empty _) rfl
      requests l hx,
    bindsPackages (sqlite_keepsShelf hj) _ ⟨[], rfl, by simp [UniqueRefs]⟩
      (Sqlite.stored_eq hj rfl) requests l hx⟩

def twoPublishers : List (Caller × Request) :=
  [publishes alice alice64 true "a-1", publishes bob bob64 false "b-1"]

theorem twoPublishers_roundTrip : EventsRoundTrip sampleExternals twoPublishers := by
  intro c input event h
  refine ⟨eventText event, rfl, ?_⟩
  simp only [twoPublishers, publishes, List.mem_cons, Prod.mk.injEq,
    Request.publishKeyPackage.injEq, Option.some.injEq, List.not_mem_nil, or_false] at h
  rcases h with ⟨-, -, rfl⟩ | ⟨-, -, rfl⟩ <;> decide +kernel

theorem packages_bound_sample :
    BindsPackages memoryAdapter twoPublishers
        (Run.after (step memoryAdapter) twoPublishers (InMemory.InMemoryInner.default, ())) ∧
      BindsPackages sqliteAdapter twoPublishers
        (Run.after (step sqliteAdapter) twoPublishers (Sqlite.Database.new, ())) :=
  packages_bound jsonText jsonText_roundTrips unlimited ⟨10, 1⟩ sampleExternals twoPublishers ()
    twoPublishers_roundTrip

end Cordn.Adapter
