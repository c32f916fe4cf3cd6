import Cordn.MlsParse
import Mathlib.Algebra.Group.Nat.Defs

/-!
# The documented layout of a key package

Key packages as data, with the length prefix chosen for every field, and the
bytes they are written as. A value carries the bounds its prefixes need and the
completeness of its nested sequences.
-/

set_option autoImplicit false

namespace Cordn.MlsParse

def u16Bytes (v : UInt16) : List UInt8 := [UInt8.ofNat (v.toNat/256), UInt8.ofNat (v.toNat%256)]

inductive PrefixSize where
  | one
  | two
  | four
  deriving DecidableEq, Repr

/-- Lengths that fit behind the two size bits. -/
def PrefixSize.bound : PrefixSize → ℕ
  | one => 2^6
  | two => 2^14
  | four => 2^30

def lengthPrefix : PrefixSize → ℕ → List UInt8
  | .one, n => [UInt8.ofNat n]
  | .two, n => [UInt8.ofNat (64+n/2^8), UInt8.ofNat (n%2^8)]
  | .four, n => [UInt8.ofNat (128+n/2^24), UInt8.ofNat (n/2^16%2^8), UInt8.ofNat (n/2^8%2^8),
      UInt8.ofNat (n%2^8)]

structure Field where
  size : PrefixSize
  content : List UInt8
  fits : content.length < size.bound

def Field.encode (f : Field) : List UInt8 := lengthPrefix f.size f.content.length ++ f.content

/-- A `u16` and a field: an extension, or a component of a dictionary. -/
structure Tagged where
  tag : UInt16
  data : Field

def Tagged.encode (t : Tagged) : List UInt8 := u16Bytes t.tag ++ t.data.encode

def Tagged.content (t : Tagged) : UInt16 × List UInt8 := (t.tag, t.data.content)

def Sequence (bytes : List UInt8) (ts : List Tagged) : Prop := bytes = ts.flatMap Tagged.encode

structure Dictionary where
  field : Field
  components : List Tagged
  complete : Sequence field.content components

def Tagged.IsMarker (c : Tagged) : Prop :=
  c.tag = lastResortKeyPackageComponentId ∧ c.data.content = []

instance (c : Tagged) : Decidable c.IsMarker := by
  unfold Tagged.IsMarker
  infer_instance

/-- A dictionary extension holds exactly one well-formed dictionary. -/
def Tagged.WellFormed (e : Tagged) : Prop :=
  e.tag = appDataDictionaryExtensionType → ∃ d : Dictionary, e.data.content = d.field.encode

def Tagged.Marks (e : Tagged) : Prop :=
  e.tag = appDataDictionaryExtensionType ∧
    ∃ d : Dictionary, e.data.content = d.field.encode ∧ ∃ c ∈ d.components, c.IsMarker

/-- A BasicCredential, whose identity field is UTF-8. -/
structure Credential where
  identity : Field
  credentialIdentity : String
  utf8 : fromUtf8 identity.content = .ok credentialIdentity

def Credential.encode (c : Credential) : List UInt8 := u16Bytes 1 ++ c.identity.encode

structure LeafNode where
  hpkePub : Field
  sigPub : Field
  credential : Credential
  capabilities : List Field
  five : capabilities.length = 5
  lifetime : List UInt8
  sixteen : lifetime.length = 16
  extensions : Field
  signature : Field

def LeafNode.encode (n : LeafNode) : List UInt8 :=
  n.hpkePub.encode ++ (n.sigPub.encode ++ (n.credential.encode ++
    (n.capabilities.flatMap Field.encode ++ ([1] ++ (n.lifetime ++
      (n.extensions.encode ++ n.signature.encode))))))

structure RawKeyPackage where
  cipherSuite : UInt16
  initKey : Field
  leafNode : LeafNode
  extensions : Field
  signature : Field

def RawKeyPackage.encode (k : RawKeyPackage) : List UInt8 :=
  u16Bytes 1 ++ (u16Bytes k.cipherSuite ++ (k.initKey.encode ++ (k.leafNode.encode ++
    (k.extensions.encode ++ k.signature.encode))))

structure KeyPackage extends RawKeyPackage where
  extensionList : List Tagged
  complete : Sequence extensions.content extensionList
  wellFormed : ∀ e ∈ extensionList, e.WellFormed

def RawKeyPackage.credentialIdentity (k : RawKeyPackage) : String :=
  k.leafNode.credential.credentialIdentity

def KeyPackage.IsLastResort (k : KeyPackage) : Prop := ∃ e ∈ k.extensionList, e.Marks

end Cordn.MlsParse
