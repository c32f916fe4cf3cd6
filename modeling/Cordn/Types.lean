import Mathlib.Algebra.Group.Int.Defs
import Mathlib.Algebra.Group.Nat.Defs

/-!
# Domain records of the coordinator storage layer

MLS payloads are raw bytes. Keys, refs and group ids are strings compared for
equality only. Timestamps and cursors are the source's 64-bit integers, read as
integers; where they can wrap the wrapping is written out. The publication
event is opaque JSON, an arbitrary type `V` here.
-/

set_option autoImplicit false

namespace Cordn

structure PublishedKeyPackageRecord (V : Type) where
  stablePubkey : String
  keyPackageBytes : List UInt8
  keyPackageRef : String
  isLastResort : Bool
  publishedAt : Int
  publicationEvent : V
  deriving DecidableEq, Repr

structure WelcomeQueueRecord where
  targetStablePubkey : String
  keyPackageReference : String
  welcomeBytes : List UInt8
  createdAt : Int
  joinAfterCursor : Option Int
  deriving DecidableEq, Repr

structure ConsumedWelcomeRef where
  keyPackageReference : String
  createdAt : Int
  deriving DecidableEq, Repr

structure JoinRequestRecord where
  groupId : String
  requesterStablePubkey : String
  keyPackageRef : String
  createdAt : Int
  deriving DecidableEq, Repr

structure ConsumedJoinRequestRef where
  requesterStablePubkey : String
  createdAt : Int
  deriving DecidableEq, Repr

structure ConsumedJoinRequestWithGroupRef where
  groupId : String
  requesterStablePubkey : String
  createdAt : Int
  deriving DecidableEq, Repr

structure GroupMessageRecord where
  cursor : Int
  groupId : String
  opaqueMessage : List UInt8
  createdAt : Int
  deriving DecidableEq, Repr

structure FetchGroupMessagesInput where
  groupId : String
  afterCursor : Option Int
  deriving DecidableEq, Repr

/-- The sum of two 64-bit integers as the release profile computes it. -/
def wrappingAdd (a b : Int) : Int := (a+b).bmod (2^64)

def wrappingSub (a b : Int) : Int := (a-b).bmod (2^64)

def wrappingMul (a b : Int) : Int := (a*b).bmod (2^64)

theorem wrappingAdd_of_small (a b : Int) (hl : -2^63 ≤ a+b) (hu : a+b < 2^63) :
    wrappingAdd a b = a+b :=
  Int.bmod_eq_of_le (by omega) (by omega)

theorem wrappingSub_of_small (a b : Int) (hl : -2^63 ≤ a-b) (hu : a-b < 2^63) :
    wrappingSub a b = a-b :=
  Int.bmod_eq_of_le (by omega) (by omega)

theorem wrappingSub_self (a : Int) : wrappingSub a a = 0 := by
  simp [wrappingSub]

/-- Wrapping only shortens the way from an earlier time to a later one. -/
theorem wrappingSub_le (a b : Int) (h : b ≤ a) : wrappingSub a b ≤ a-b := by
  rw [wrappingSub, Int.bmod_def]
  split <;> omega

end Cordn
