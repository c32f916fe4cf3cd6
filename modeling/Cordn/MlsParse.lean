import Cordn.Lib.Reader

/-!
# The key-package parser

The walker that reads the credential identity and the last-resort marker out of
an MLS key package. Every length prefix has one, two or four bytes, told by the
top two bits of the first. Offsets are natural numbers.
-/

set_option autoImplicit false

namespace Cordn.MlsParse
open Reader

def appDataDictionaryExtensionType : UInt16 := 0x0006

def lastResortKeyPackageComponentId : UInt16 := 0x0004

inductive MlsParseError where
  | unexpectedEof
  | unsupportedVersion (version : UInt16)
  | unsupportedCredential (credType : UInt16)
  | unexpectedLeafNodeSource (source : UInt8)
  | unsupportedLengthPrefix
  | invalidAppDataDictionary
  | invalidIdentity
  | trailingData
  deriving DecidableEq, Repr

structure ParsedKeyPackage where
  credentialIdentity : String
  cipherSuite : UInt16
  isLastResort : Bool
  deriving DecidableEq, Repr

/-- A read of the cursor: the bytes and the position, which it advances. -/
abbrev Cursor (α : Type) := Reader MlsParseError UInt8 α

def u16FromBeBytes (high low : UInt8) : UInt16 := UInt16.ofNat (high.toNat*256 + low.toNat)

def u8 : Cursor UInt8 := fun b i =>
  match b[i]? with
  | none => .error .unexpectedEof
  | some v => .ok (v, i+1)

def u16 : Cursor UInt16 := fun b i =>
  match b[i]?, b[i+1]? with
  | some high, some low => .ok (u16FromBeBytes high low, i+2)
  | _, _ => .error .unexpectedEof

def skip (n : ℕ) : Cursor Unit := fun b i =>
  if b.length < i+n then .error .unexpectedEof else .ok ((), i+n)

def readVarBytes : Cursor (List UInt8) := fun buf offset =>
  match buf[offset]? with
  | none => .error .unexpectedEof
  | some first =>
    let lead := first >>> 6
    if lead = 0b11 then .error .unsupportedLengthPrefix
    else
      let lengthFieldSize := 1 <<< lead.toNat
      if buf.length < offset+lengthFieldSize then .error .unexpectedEof
      else
        let length := (List.range' 1 (lengthFieldSize-1)).foldl
          (fun length k => length <<< 8 ||| (buf.getD (offset+k) 0).toNat)
          (first &&& 0x3f).toNat
        let start := offset+lengthFieldSize
        let stop := start+length
        if buf.length < stop then .error .unexpectedEof
        else .ok ((buf.drop start).take length, stop)

def taggedBytes : Cursor (UInt16 × List UInt8) := do
  let tag ← u16
  let data ← readVarBytes
  pure (tag, data)

def isLastResortExtension (extensionData : List UInt8) : Except MlsParseError Bool :=
  match readVarBytes extensionData 0 with
  | .error e => .error e
  | .ok (dictionary, stop) =>
    if stop ≠ extensionData.length then .error .invalidAppDataDictionary
    else scan taggedBytes (fun component =>
      .ok (component.1 == lastResortKeyPackageComponentId && component.2.isEmpty)) dictionary

def detectLastResort (extensions : List UInt8) : Except MlsParseError Bool :=
  scan taggedBytes (fun extension =>
    if extension.1 = appDataDictionaryExtensionType then isLastResortExtension extension.2
    else .ok false) extensions

def fromUtf8 (bytes : List UInt8) : Except MlsParseError String :=
  match String.fromUTF8? bytes.toByteArray with
  | none => .error .invalidIdentity
  | some s => .ok s

def credential : Cursor String := do
  let credType ← u16
  require (credType = 1) (.unsupportedCredential credType)
  let identityBytes ← readVarBytes
  check (fromUtf8 identityBytes)

def leafNode : Cursor String := do
  let _hpkePub ← readVarBytes
  let _sigPub ← readVarBytes
  let credentialIdentity ← credential
  -- capabilities: versions, ciphersuites, extensions, proposals, credentials
  let _ ← times readVarBytes 5
  let source ← u8
  require (source = 1) (.unexpectedLeafNodeSource source)
  -- lifetime: not_before, not_after
  skip 16
  let _lnExtensions ← readVarBytes
  let _lnSignature ← readVarBytes
  pure credentialIdentity

def keyPackage : Cursor ParsedKeyPackage := do
  let version ← u16
  require (version = 1) (.unsupportedVersion version)
  let cipherSuite ← u16
  let _initKey ← readVarBytes
  let credentialIdentity ← leafNode
  let kpExtensions ← readVarBytes
  let isLastResort ← check (detectLastResort kpExtensions)
  let _signature ← readVarBytes
  pure ⟨credentialIdentity, cipherSuite, isLastResort⟩

def parseKeyPackage (bytes : List UInt8) : Except MlsParseError ParsedKeyPackage :=
  match keyPackage bytes 0 with
  | .error e => .error e
  | .ok (parsed, i) => if (bytes.drop i).isEmpty then .ok parsed else .error .trailingData

end Cordn.MlsParse
