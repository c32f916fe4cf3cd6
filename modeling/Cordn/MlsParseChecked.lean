import Cordn.MlsParseReads
import Cordn.Lib.Traced

/-!
# The parser with its arithmetic and its accesses

The walker once more, written down to every sum, shift, index and slice of the
source over a `usize` of `w` bits, with the offsets it stands at, the lengths it
decodes and the rounds of its loops. It panics where the source does in a build
that checks arithmetic.
-/

set_option autoImplicit false

namespace Cordn.MlsParse.Checked
open Traced

inductive Access where
  /-- `left + right` -/
  | add (left right : ℕ)
  /-- `value << amount` -/
  | shiftLeft (value amount : ℕ)
  /-- `buf[i]` of a slice of this size -/
  | index (size i : ℕ)
  /-- `&buf[start..stop]` -/
  | slice (size start stop : ℕ)
  /-- A cursor or an offset stands at `i` in a slice of this size. -/
  | offset (size i : ℕ)
  /-- A length is decoded. -/
  | length (n : ℕ)
  /-- A loop goes on from `i` to `next`. -/
  | again (i next : ℕ)
  deriving DecidableEq, Repr

def Access.Safe (w : ℕ) : Access → Prop
  | add left right => left+right < 2^w
  | shiftLeft value amount => amount < w ∧ value*2^amount < 2^w
  | index size i => i < size
  | slice size start stop => start ≤ stop ∧ stop ≤ size
  | offset size i => i ≤ size
  | length n => n < 2^30
  | again i next => i+3 ≤ next

abbrev Exec (α : Type) := Traced Access MlsParseError α

abbrev Walker (α : Type) := TracedReader Access MlsParseError UInt8 α

section

variable (w : ℕ)

def add (left right : ℕ) : Exec ℕ :=
  perform (.add left right) (if left+right < 2^w then some (left+right) else none)

def shiftLeft (value amount : ℕ) : Exec ℕ :=
  perform (.shiftLeft value amount) (if amount < w then some (value <<< amount % 2^w) else none)

def index (buf : List UInt8) (i : ℕ) : Exec UInt8 := perform (.index buf.length i) buf[i]?

def slice (buf : List UInt8) (start stop : ℕ) : Exec (List UInt8) :=
  perform (.slice buf.length start stop)
    (if start ≤ stop ∧ stop ≤ buf.length then some ((buf.drop start).take (stop-start)) else none)

/-- `get` of an index or of a range, which does not panic. -/
def okOrEof {α : Type} : Option α → Exec α
  | none => fail .unexpectedEof
  | some a => Traced.value a

def getRange (buf : List UInt8) (start stop : ℕ) : Option (List UInt8) :=
  if start ≤ stop ∧ stop ≤ buf.length then some ((buf.drop start).take (stop-start)) else none

def u8 : Walker UInt8 := fun b i => do
  let v ← okOrEof b[i]?
  let next ← add w i 1
  note (.offset b.length next)
  pure (v, next)

def u16 : Walker UInt16 := fun b i => do
  let stop ← add w i 2
  let v ← okOrEof (getRange b i stop)
  let next ← add w i 2
  note (.offset b.length next)
  let high ← index v 0
  let low ← index v 1
  pure (u16FromBeBytes high low, next)

def skip (n : ℕ) : Walker Unit := fun b i => do
  let stop ← add w i n
  if b.length < stop then fail .unexpectedEof
  else
    let next ← add w i n
    note (.offset b.length next)
    pure ((), next)

def remaining : Walker (List UInt8) := fun b i => do
  let rest ← slice b i b.length
  pure (rest, i)

def readLength (buf : List UInt8) (offset : ℕ) : List ℕ → ℕ → Exec ℕ
  | [], length => pure length
  | k::ks, length => do
    let shifted ← shiftLeft w length 8
    let i ← add w offset k
    let byte ← index buf i
    readLength buf offset ks (shifted ||| byte.toNat)

def readVarBytes : Walker (List UInt8) := fun buf offset => do
  note (.offset buf.length offset)
  let first ← okOrEof buf[offset]?
  let lead := first >>> 6
  if lead = 0b11 then fail .unsupportedLengthPrefix
  else
    let lengthFieldSize ← shiftLeft w 1 lead.toNat
    let limit ← add w offset lengthFieldSize
    if buf.length < limit then fail .unexpectedEof
    else
      let length ← readLength w buf offset (List.range' 1 (lengthFieldSize-1))
        (first &&& 0x3f).toNat
      note (.length length)
      let start ← add w offset lengthFieldSize
      let stop ← add w start length
      if buf.length < stop then fail .unexpectedEof
      else
        let data ← slice buf start stop
        note (.offset buf.length stop)
        pure (data, stop)

def readTagged : Walker (UInt16 × List UInt8) := fun buf i => do
  let high ← okOrEof buf[i]?
  let second ← add w i 1
  let low ← okOrEof buf[second]?
  let behind ← add w i 2
  let (data, next) ← readVarBytes w buf behind
  pure ((u16FromBeBytes high low, data), next)

/-- A loop over tagged fields, for so many rounds. -/
def walk (hit : UInt16 × List UInt8 → Exec Bool) (buf : List UInt8) : ℕ → ℕ → Exec Bool
  | 0, _ => unfinished
  | rounds+1, i => do
    note (.offset buf.length i)
    if i < buf.length then
      let (tagged, next) ← readTagged w buf i
      let found ← hit tagged
      if found then pure true
      else
        note (.again i next)
        walk hit buf rounds next
    else pure false

variable (rounds : ℕ)

def isLastResortExtension (extensionData : List UInt8) : Exec Bool := do
  let (dictionary, stop) ← readVarBytes w extensionData 0
  if stop ≠ extensionData.length then fail .invalidAppDataDictionary
  else
    walk w (fun component =>
        pure (component.1 == lastResortKeyPackageComponentId && component.2.isEmpty))
      dictionary rounds 0

def detectLastResort (extensions : List UInt8) : Exec Bool :=
  walk w (fun extension =>
    if extension.1 = appDataDictionaryExtensionType then
      isLastResortExtension w rounds extension.2
    else pure false) extensions rounds 0

def credential : Walker String := do
  let credType ← u16 w
  TracedReader.require (credType = 1) (.unsupportedCredential credType)
  let identityBytes ← readVarBytes w
  TracedReader.lift (ofExcept (fromUtf8 identityBytes))

def leafNode : Walker String := do
  let _hpkePub ← readVarBytes w
  let _sigPub ← readVarBytes w
  let credentialIdentity ← credential w
  -- capabilities: versions, ciphersuites, extensions, proposals, credentials
  let _ ← TracedReader.times (readVarBytes w) 5
  let source ← u8 w
  TracedReader.require (source = 1) (.unexpectedLeafNodeSource source)
  -- lifetime: not_before, not_after
  skip w 16
  let _lnExtensions ← readVarBytes w
  let _lnSignature ← readVarBytes w
  pure credentialIdentity

def keyPackage : Walker ParsedKeyPackage := do
  let version ← u16 w
  TracedReader.require (version = 1) (.unsupportedVersion version)
  let cipherSuite ← u16 w
  let _initKey ← readVarBytes w
  let credentialIdentity ← leafNode w
  let kpExtensions ← readVarBytes w
  let isLastResort ← TracedReader.lift (detectLastResort w rounds kpExtensions)
  let _signature ← readVarBytes w
  pure ⟨credentialIdentity, cipherSuite, isLastResort⟩

def parseKeyPackage (bytes : List UInt8) : Exec ParsedKeyPackage := do
  let (parsed, i) ← keyPackage w rounds bytes 0
  let (rest, _) ← remaining bytes i
  if rest.isEmpty then pure parsed else fail .trailingData

end

end Cordn.MlsParse.Checked
