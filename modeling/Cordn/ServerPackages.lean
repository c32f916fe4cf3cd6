import Cordn.ServerRetention

/-!
# A published package stays

Once a client hears that its package is published, every later listing shows it
until a client that has published under its ref removes or evicts that package, or
a consume hands it out.
-/

set_option autoImplicit false

namespace Cordn.Server
open Adapter KeyPackageOps

variable {V σ L α β : Type}

def handed : Answered (ServerCall V) → Option (PublishedKeyPackageRecord V)
  | ⟨_, .storage (.consumeKeyPackage _), .ok found⟩ => found
  | _ => none

def shelved : Answered (ServerCall V) → Option (PublishedKeyPackageRecord V)
  | ⟨_, .storage (.publishKeyPackage record), .ok _⟩ => some record
  | _ => none

inductive ShelfStep (l : KeyShelf V) : Answered (ServerCall V) → KeyShelf V → Prop where
  | publish (r : PublishedKeyPackageRecord V) {l' : KeyShelf V} (h : Inserted l r l') :
      ShelfStep l ⟨_, .storage (.publishKeyPackage r), .ok r⟩ l'
  | remove (ref : String) :
      ShelfStep l ⟨_, .storage (.removeKeyPackage ref), .ok (withRef l ref)⟩ (l.eraseP (hasRef ref))
  | consume (id : String) {l' : KeyShelf V} (h : Consumed l (taken l id) l') :
      ShelfStep l ⟨_, .storage (.consumeKeyPackage id), .ok (taken l id)⟩ l'
  | other (done : Answered (ServerCall V)) (hhanded : handed done = none)
      (hshelved : shelved done = none) : ShelfStep l done l

section Shelf

variable {S : CoordinatorStorage V σ} {limit : FetchLimit} {Kept : σ → Prop} {unique : Bool}
  {R : σ → QueueOps.Queues → Prop} {Holds : (GroupMessageRecord → Prop) → σ → Prop}
  (hS : Backed S limit Kept unique R Holds) (rateLimiter : RateLimiter L)

include hS

theorem shelf_step (op : ServerCall V β) (state : σ × L) (hkept : Kept state.1) :
    Kept ((machine S rateLimiter).perform op state).2.1 ∧
      ShelfStep (stored S state.1) ⟨β, op, ((machine S rateLimiter).perform op state).1⟩
        (stored S ((machine S rateLimiter).perform op state).2.1) := by
  have hleaves : ∀ {α : Type} {op : Locked σ α}, LeavesShelf S Kept op →
      ∀ done : Answered (ServerCall V), handed done = none → shelved done = none →
      Kept (op state.1).2 ∧ ShelfStep (stored S state.1) done (stored S (op state.1).2) := by
    intro α op hop done hhanded hshelved
    obtain ⟨hnext, hsame⟩ := hop state.1 hkept
    exact ⟨hnext, hsame ▸ .other done hhanded hshelved⟩
  cases op with
  | check key now => exact ⟨hkept, .other _ rfl rfl⟩
  | publishLive record => exact ⟨hkept, .other _ rfl rfl⟩
  | storage op =>
    change Kept (op.perform S state.1).2 ∧ ShelfStep (stored S state.1)
      ⟨_, .storage op, (op.perform S state.1).1⟩ (stored S (op.perform S state.1).2)
    cases op with
    | publishKeyPackage record =>
      rw [StorageCall.perform]
      by_cases hrefused : Refused unique record (stored S state.1)
      · obtain ⟨e, he⟩ := hS.shelf.refuse state.1 record hkept hrefused
        rw [he]
        exact ⟨hkept, .other _ rfl rfl⟩
      · obtain ⟨hres, hnext, hinserted⟩ := hS.shelf.accept state.1 record hkept hrefused
        rw [hres]
        exact ⟨hnext, .publish record hinserted⟩
    | listKeyPackagesForIdentity pk =>
      rw [StorageCall.perform, hS.shelf.identity state.1 pk hkept]
      exact ⟨hkept, .other _ rfl rfl⟩
    | listAllKeyPackages =>
      rw [StorageCall.perform, hS.shelf.all state.1 hkept]
      exact ⟨hkept, .other _ rfl rfl⟩
    | getKeyPackage ref =>
      rw [StorageCall.perform, hS.shelf.get state.1 ref hkept]
      exact ⟨hkept, .other _ rfl rfl⟩
    | removeKeyPackage ref =>
      obtain ⟨hres, hnext, hleft⟩ := hS.shelf.remove state.1 ref hkept
      rw [StorageCall.perform, hres, hleft]
      exact ⟨hnext, .remove ref⟩
    | consumeKeyPackage id =>
      obtain ⟨hres, hnext, hleft⟩ := hS.shelf.consume state.1 id hkept
      rw [StorageCall.perform, hres]
      exact ⟨hnext, .consume id hleft⟩
    | storeWelcome record => exact hleaves (hS.shelf.storeWelcome record) _ rfl rfl
    | fetchPendingWelcomes target consumed =>
      exact hleaves (hS.shelf.fetchPendingWelcomes target consumed) _ rfl rfl
    | deleteExpiredWelcomes threshold =>
      exact hleaves (hS.deleteExpiredWelcomes threshold) _ rfl rfl
    | storeJoinRequest record => exact hleaves (hS.shelf.storeJoinRequest record) _ rfl rfl
    | fetchPendingJoinRequests groupId consumed =>
      exact hleaves (hS.fetchPendingJoinRequests groupId consumed) _ rfl rfl
    | fetchManyPendingJoinRequests groupIds consumed =>
      exact hleaves (hS.shelf.fetchManyPendingJoinRequests groupIds consumed) _ rfl rfl
    | deleteExpiredJoinRequests threshold =>
      exact hleaves (hS.deleteExpiredJoinRequests threshold) _ rfl rfl
    | appendGroupMessage params => exact hleaves (hS.shelf.appendGroupMessage params) _ rfl rfl
    | fetchManyGroupMessages groups =>
      exact hleaves (hS.shelf.fetchManyGroupMessages groups) _ rfl rfl

end Shelf

def PackageLost (r : PublishedKeyPackageRecord V) : Answered (ServerCall V) → Prop
  | ⟨_, .storage (.removeKeyPackage ref), answer⟩ =>
    answer = .ok (some r) ∧ ref = r.keyPackageRef
  | ⟨_, .storage (.consumeKeyPackage id), answer⟩ => answer = .ok (some r) ∧
    (id = r.keyPackageRef ∨ id = r.stablePubkey) ∧ r.isLastResort = false
  | _ => False

theorem mem_of_inserted {l l' : KeyShelf V} {r q : PublishedKeyPackageRecord V}
    (h : Inserted l r l') : q ∈ l' ↔ q = r ∨ q ∈ l := by
  obtain ⟨before, behind, rfl, rfl⟩ := h
  simp only [List.mem_append, List.mem_cons]
  exact or_left_comm

theorem mem_of_removed {l : KeyShelf V} {r : PublishedKeyPackageRecord V} (hr : r ∈ l)
    (x : String) : r ∈ l.eraseP (hasRef x) ∨ withRef l x = some r := by
  induction l with
  | nil => cases hr
  | cons q l ih =>
    by_cases hq : hasRef x q = true
    · rw [List.eraseP_cons_of_pos hq, withRef, List.find?_cons_of_pos hq]
      exact (List.mem_cons.mp hr).symm.imp_right fun hsame => congrArg some hsame.symm
    · rw [List.eraseP_cons_of_neg hq, withRef, List.find?_cons_of_neg hq]
      rcases List.mem_cons.mp hr with rfl | hrest
      · exact Or.inl List.mem_cons_self
      · exact (ih hrest).imp_left (List.mem_cons_of_mem _)

theorem mem_of_consumed {l l' : KeyShelf V} {x : String} (h : Consumed l (taken l x) l')
    {r : PublishedKeyPackageRecord V} (hr : r ∈ l) :
    r ∈ l' ∨ taken l x = some r ∧ r.isLastResort = false := by
  cases htaken : taken l x with
  | none =>
    rw [htaken] at h
    exact Or.inl (h ▸ hr)
  | some gone =>
    simp only [htaken, Consumed] at h
    split at h
    · exact Or.inl (h ▸ hr)
    · rename_i hregular
      rcases (mem_of_inserted h).mp hr with rfl | hleft
      · exact Or.inr ⟨rfl, by simpa using hregular⟩
      · exact Or.inl hleft

theorem ShelfStep.keeps {l l' : KeyShelf V} {done : Answered (ServerCall V)}
    (h : ShelfStep l done l') {r : PublishedKeyPackageRecord V} (hr : r ∈ l) :
    r ∈ l' ∨ PackageLost r done := by
  cases h with
  | publish record h => exact Or.inl ((mem_of_inserted h).mpr (Or.inr hr))
  | remove ref =>
    refine (mem_of_removed hr ref).imp_right fun hgone => ⟨congrArg Except.ok hgone, ?_⟩
    exact (withRef_names hgone).2.symm
  | consume id h =>
    refine (mem_of_consumed h hr).imp_right fun ⟨hgone, hregular⟩ => ?_
    exact ⟨congrArg Except.ok hgone, (taken_names hgone).imp Eq.symm Eq.symm, hregular⟩
  | other _ _ _ => exact Or.inl hr

theorem shelf_after {A : CoordinatorAdapter V σ L} {limit : FetchLimit} {Kept : σ → Prop}
    {unique : Bool} {R : σ → QueueOps.Queues → Prop}
    {Holds : (GroupMessageRecord → Prop) → σ → Prop}
    (hS : Backed A.storage limit Kept unique R Holds) {init : σ × L} (hinit : Kept init.1)
    (events : List Event) : Kept (poolAfter A init events).shared.1 :=
  kept_after (P := fun state => Kept state.1)
    (fun op state h => (shelf_step hS A.rateLimiter op state h).1) hinit events

/-- The package was removed or evicted by a client that has published under its ref, or
it is a one-time package and was handed out by a consume that names it. -/
def PackageRetired (A : CoordinatorAdapter V σ L) (P : Past V) (r : PublishedKeyPackageRecord V) :
    Performed V → Prop
  | ⟨_, .call c (.removeKeyPackages kpRefs), ⟨_, .storage (.removeKeyPackage _), answer⟩⟩ =>
    answer = .ok (some r) ∧ r.keyPackageRef ∈ kpRefs ∧
      HasPublished A P c.clientPubkey r.keyPackageRef
  | ⟨_, .call c (.publishKeyPackage _ _), ⟨_, .storage (.removeKeyPackage _), answer⟩⟩ =>
    answer = .ok (some r) ∧ HasPublished A P c.clientPubkey r.keyPackageRef
  | ⟨_, .call _ (.consumeKeyPackage id), ⟨_, .storage (.consumeKeyPackage _), answer⟩⟩ =>
    answer = .ok (some r) ∧ (id = r.keyPackageRef ∨ id = r.stablePubkey) ∧ r.isLastResort = false
  | _ => False

theorem packageRetired_of_lost {A : CoordinatorAdapter V σ L} {P : Past V} {x : Performed V}
    (h : Authorised A P x.request x.done.2.1) {r : PublishedKeyPackageRecord V}
    (hlost : PackageLost r x.done) : PackageRetired A P r x := by
  obtain ⟨n, job, β, op, answer⟩ := x
  cases op with
  | check key now => cases hlost
  | publishLive record => cases hlost
  | storage op =>
    cases job with
    | cleanup maxAgeMs now =>
      cases op with
      | removeKeyPackage | consumeKeyPackage => cases h
      | _ => cases hlost
    | call c request =>
      obtain ⟨-, hentitled⟩ := h
      cases op with
      | removeKeyPackage ref =>
        obtain ⟨hanswer, hsame⟩ := hlost
        obtain rfl : ref = r.keyPackageRef := hsame
        obtain ⟨hpublished, ⟨kpRefs, rfl, hmem⟩ | ⟨input, event, rfl⟩⟩ := hentitled
        · exact ⟨hanswer, hmem, hpublished⟩
        · exact ⟨hanswer, hpublished⟩
      | consumeKeyPackage id =>
        obtain rfl : request = .consumeKeyPackage id := hentitled
        exact hlost
      | _ => cases hlost

/-- A package whose publish a reply has acknowledged is in every later listing, with what
was published, unless it has been removed, evicted or handed out. -/
def PackagesLast (A : CoordinatorAdapter V σ L) (init : σ × L) : Prop :=
  ∀ (events : List Event) (event : Event) (later : List Event) (listing : Event) (c c' : Caller)
    (input : PublishKeyPackageInput) (publication : Option NostrEvent) (reply : Reply)
    (available : List AvailableKeyPackage),
  answerTo A init events event =
    some (.call c (.publishKeyPackage input publication), .replied (.ok reply)) →
  answerTo A init (events ++ [event] ++ later) listing =
    some (.call c' .listAvailableKeyPackages, .replied (.ok (.available available))) →
  ∃ admitted, admission A c.clientPubkey input publication = .ok admitted ∧
    (⟨c.clientPubkey, input.kpRef, admitted.2.1.isLastResort, c.now⟩ ∈ available ∨
      ∃ first x behind, performedSince A init (events ++ [event]) later = first ++ x::behind ∧
        PackageRetired A ⟨requestsOf (events ++ [event] ++ later),
          performedSince A init [] (events ++ [event]) ++ first⟩ (incomingRecord A c input admitted)
          x)

theorem packagesLast {A : CoordinatorAdapter V σ L} {limit : FetchLimit} {Kept : σ → Prop}
    {unique : Bool} {R : σ → QueueOps.Queues → Prop}
    {Holds : (GroupMessageRecord → Prop) → σ → Prop}
    (hS : Backed A.storage limit Kept unique R Holds) {init : σ × L} (hinit : Kept init.1)
    (hauthority : ∀ events, WithinAuthority A init events) : PackagesLast A init := by
  intro events event later listing c c' input publication reply available hpublished hlisted
  obtain ⟨-, β, op, -, hshared, admitted, record, hadmitted, hop⟩ :=
    replied_since events event rfl hpublished
  refine ⟨admitted, hadmitted, ?_⟩
  obtain ⟨-, -, -, hsigner, hidentity⟩ := admission_checked hadmitted
  have hclient : admitted.2.1.credentialIdentity = c.clientPubkey := hidentity.trans hsigner
  have hstart : Kept (poolAfter A init (events ++ [event])).shared.1 ∧
      incomingRecord A c input admitted ∈
        stored A.storage (poolAfter A init (events ++ [event])).shared.1 := by
    have hkept := shelf_after hS hinit events
    obtain ⟨rfl, hcall⟩ := Sigma.mk.inj hop
    obtain ⟨rfl, hanswer⟩ := Prod.mk.inj (eq_of_heq hcall)
    by_cases hrefused : Refused unique (incomingRecord A c input admitted)
        (stored A.storage (poolAfter A init events).shared.1)
    · obtain ⟨e, he⟩ := hS.shelf.refuse _ _ hkept hrefused
      cases (congrArg Prod.fst he).symm.trans hanswer
    · obtain ⟨-, hnext, hinserted⟩ := hS.shelf.accept _ _ hkept hrefused
      rw [hshared]
      exact ⟨hnext, (mem_of_inserted hinserted).mpr (Or.inl rfl)⟩
  have hstep : ∀ {γ : Type} (op : ServerCall V γ) (state : σ × L),
      Kept state.1 ∧ incomingRecord A c input admitted ∈ stored A.storage state.1 →
      (Kept ((machine A.storage A.rateLimiter).perform op state).2.1 ∧
        incomingRecord A c input admitted ∈
          stored A.storage ((machine A.storage A.rateLimiter).perform op state).2.1) ∨
        PackageLost (incomingRecord A c input admitted)
          ⟨γ, op, ((machine A.storage A.rateLimiter).perform op state).1⟩ := by
    intro γ op state ⟨hkept, hin⟩
    obtain ⟨hnext, hshelf⟩ := shelf_step hS A.rateLimiter op state hkept
    exact (hshelf.keeps hin).imp_left fun h => ⟨hnext, h⟩
  rcases kept_since _ hstep (events ++ [event]) later hstart with
    ⟨hkept, hstored⟩ | ⟨x, hx, hlost⟩
  · obtain ⟨-, γ, op', -, -, records, hop', hreply⟩ := replied_since _ listing rfl hlisted
    obtain ⟨rfl, hcall⟩ := Sigma.mk.inj hop'
    obtain ⟨rfl, hanswer⟩ := Prod.mk.inj (eq_of_heq hcall)
    obtain rfl := Reply.available.inj hreply
    have hall := congrArg Prod.fst (hS.shelf.all _ hkept)
    have hrecords := Except.ok.inj (hanswer.symm.trans hall)
    refine Or.inl (List.mem_map.mpr ⟨_, hrecords ▸ hstored, ?_⟩)
    rw [incomingRecord, hclient]
  · obtain ⟨first, behind, hsplit⟩ := List.append_of_mem hx
    have hallowed := authorised_since (hauthority _) hsplit
    exact Or.inr ⟨first, x, behind, hsplit, packageRetired_of_lost hallowed hlost⟩

end Cordn.Server
