import Cordn.Authority
import Cordn.KeyPackageBinding

/-!
# Where what is handed out comes from

Under every interleaving of the server's calls, whatever a call hands out was
put in by a call of the client it names, for the one who gets it: a package and
its event by their publisher, a welcome for the client that fetches it, a join
request by a requester that had published the package it names, a message by a
post to its group.
-/

set_option autoImplicit false

namespace Cordn.Server
open Adapter

variable {V σ L : Type} (A : CoordinatorAdapter V σ L) (P : Past V)

def FromPublisher (kp : ConsumedKeyPackage) : Prop :=
  ∃ c input r, PutIn A P c input kp.event r ∧ Binding A c input kp.event r ∧
    kp = ⟨r.stablePubkey, r.keyPackageRef, r.isLastResort, r.publishedAt, kp.event⟩

variable {A} {P}

theorem fromPublisher {c : Caller} {input : PublishKeyPackageInput} {event : NostrEvent}
    {r : PublishedKeyPackageRecord V} {kp : ConsumedKeyPackage}
    (hx : ∃ v, A.externals.toValue event = .ok v ∧ A.externals.fromValue v = .ok event)
    (hput : PutIn A P c input event r) (hout : consumedKeyPackage A r = .ok kp) :
    FromPublisher A P kp := by
  obtain ⟨-, -, -, ⟨admitted, hadmitted, hrecord⟩, -⟩ := id hput
  obtain ⟨hevent, -⟩ := admission_checked hadmitted
  obtain rfl := Option.some.inj hevent
  have hbound : Binding A c input admitted.2.2 r := hrecord ▸ admitted_bound hadmitted hx
  rw [consumed_of_decodes hbound.decodes] at hout
  obtain rfl := Except.ok.inj hout
  exact ⟨c, input, r, hput, hbound, rfl⟩

variable (A) in
/-- What a client is handed was put in by the client it names, and for the one who gets it. -/
def HandsOutSent (init : σ × L) (events : List Event) : Prop :=
  ∀ n c request reply, answerTo A init events (.advance n) =
      some (.call c request, .replied (.ok reply)) →
    HandsOut A (past A init (events ++ [.advance n])) c request reply ∧
      ∀ kp, reply = .consumed (some kp) →
        FromPublisher A (past A init (events ++ [.advance n])) kp

theorem handsOutSent {init : σ × L} {limit : FetchLimit} {Kept : σ → Prop} {unique : Bool}
    {R : σ → QueueOps.Queues → Prop} {Holds : (GroupMessageRecord → Prop) → σ → Prop}
    (hS : Backed A.storage limit Kept unique R Holds)
    (hinit : ∀ G, Knows A.storage Kept R Holds G init.1) (events : List Event)
    (hx : EventsRoundTrip A.externals (requestsOf events)) : HandsOutSent A init events := by
  intro n c request reply h
  have hhands : HandsOut A (past A init (events ++ [.advance n])) c request reply :=
    ends_as_it_may hS hinit h
  refine ⟨hhands, fun kp hkp => ?_⟩
  subst hkp
  cases request with
  | consumeKeyPackage id =>
    obtain ⟨r, ⟨c', input, event, hput, -⟩, -, hout⟩ := hhands kp rfl
    have hrequested := hput.requested hS hinit
    exact fromPublisher (hx c' input event (requestsOf_advance events n ▸ hrequested)) hput hout
  | _ => cases hhands

theorem provenance (json : Sqlite.SerdeJson V) (hj : json.RoundTrips)
    (rateLimiter : RateLimiter L) (quota : KeyPackageQuotaConfig) (externals : Externals V)
    (events : List Event) (l : L) (hx : EventsRoundTrip externals (requestsOf events)) :
    HandsOutSent ⟨InMemory.storage, rateLimiter, quota, externals⟩
        (InMemory.InMemoryInner.default, l) events ∧
      HandsOutSent ⟨Sqlite.storage json, rateLimiter, quota, externals⟩
        (Sqlite.Database.new, l) events :=
  ⟨handsOutSent inMemory_backed inMemory_knows events hx,
    handsOutSent (sqlite_backed hj) (sqlite_knows hj) events hx⟩

theorem crossedPublishes_roundTrip :
    EventsRoundTrip sampleExternals (requestsOf crossedPublishes) := by
  intro c input event h
  refine ⟨eventText event, rfl, ?_⟩
  simp only [crossedPublishes, requestsOf, publishes, List.mem_cons, Prod.mk.injEq,
    Request.publishKeyPackage.injEq, Option.some.injEq, reduceCtorEq, and_false,
    List.not_mem_nil, or_false] at h
  rcases h with ⟨-, -, rfl⟩ | ⟨-, -, rfl⟩ <;> decide +kernel

theorem provenance_sample :
    HandsOutSent memoryAdapter (InMemory.InMemoryInner.default, ()) crossedPublishes ∧
      HandsOutSent sqliteAdapter (Sqlite.Database.new, ()) crossedPublishes :=
  provenance jsonText jsonText_roundTrips unlimited ⟨10, 1⟩ sampleExternals crossedPublishes ()
    crossedPublishes_roundTrip

end Cordn.Server
