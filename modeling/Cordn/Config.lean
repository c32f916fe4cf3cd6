import Cordn.RateLimit

/-!
# The server configuration

What the server reads from its environment. A variable that is unset or blank
takes its default; numbers are 64-bit, and what they are multiplied into wraps.
`usize` has 64 bits.
-/

set_option autoImplicit false

namespace Cordn.Config
open RateLimit (RateLimitConfig)
open Adapter (KeyPackageQuotaConfig)

inductive StorageBackend where
  | memory
  | sqlite
  deriving DecidableEq, Repr

inductive Synchronous where
  | normal
  | full
  deriving DecidableEq, Repr

structure StorageConfig where
  backend : StorageBackend
  sqlitePath : Option String
  sqliteSynchronous : Synchronous
  deriving DecidableEq, Repr

structure AbuseProtectionConfig where
  rateLimit : RateLimitConfig
  keyPackageQuota : KeyPackageQuotaConfig
  logRejections : Bool
  deriving DecidableEq, Repr

structure ServerConfig where
  privateKeyHex : Option String
  relayUrls : List String
  serverName : String
  serverAbout : Option String
  serverWebsite : Option String
  isAnnounced : Bool
  storage : StorageConfig
  abuseProtection : AbuseProtectionConfig
  /-- Max age in ms for welcome/join-request cleanup. `0` keeps forever. -/
  maxAgeMs : Int
  deriving DecidableEq, Repr

inductive ConfigError where
  | invalidBoolean (name : String)
  | invalidInteger (name : String)
  | invalidStorageBackend
  | invalidSqliteSynchronous
  deriving DecidableEq, Repr

def ConfigError.message : ConfigError → String
  | invalidBoolean name => "Invalid boolean environment variable: " ++ name
  | invalidInteger name => "Invalid integer environment variable: " ++ name
  | invalidStorageBackend =>
    "Invalid storage backend in CORDN_STORAGE_BACKEND: expected 'memory' or 'sqlite'"
  | invalidSqliteSynchronous => "Invalid CORDN_SQLITE_SYNCHRONOUS: expected 'normal' or 'full'"

def defaultRelayUrls : List String := ["wss://relay.contextvm.org"]

def ServerConfig.default : ServerConfig where
  privateKeyHex := none
  relayUrls := defaultRelayUrls
  serverName := "cordn-server"
  serverAbout := none
  serverWebsite := none
  isAnnounced := false
  storage := ⟨.memory, none, .normal⟩
  abuseProtection := ⟨⟨true, 500, 160, 3600000⟩, ⟨50, 1⟩, true⟩
  maxAgeMs := 30*86400000

/-- The Unicode property `White_Space`. -/
def isWhiteSpace (c : Char) : Bool :=
  let n := c.toNat
  decide (0x9 ≤ n ∧ n ≤ 0xd ∨ n = 0x20 ∨ n = 0x85 ∨ n = 0xa0 ∨ n = 0x1680 ∨
    0x2000 ≤ n ∧ n ≤ 0x200a ∨ n = 0x2028 ∨ n = 0x2029 ∨ n = 0x202f ∨ n = 0x205f ∨ n = 0x3000)

def trim (s : String) : String :=
  String.ofList (((s.toList.dropWhile isWhiteSpace).reverse.dropWhile isWhiteSpace).reverse)

def toAsciiLowercase (s : String) : String := String.ofList (s.toList.map Char.toLower)

def split (separator : Char) (s : String) : List String :=
  (s.toList.splitOn separator).map String.ofList

def parseDigits (digits : List Char) : Option ℕ :=
  if digits.isEmpty || !digits.all Char.isDigit then none
  else some (digits.foldl (fun n c => n*10 + (c.toNat-48)) 0)

def parseInteger (s : String) : Option Int :=
  match s.toList with
  | '+'::digits => (parseDigits digits).map Int.ofNat
  | '-'::digits => (parseDigits digits).map (fun n => -Int.ofNat n)
  | digits => (parseDigits digits).map Int.ofNat

def parseI64 (s : String) : Option Int :=
  (parseInteger s).filter (fun v => decide (-2^63 ≤ v ∧ v < 2^63))

abbrev Env := IndexMap String String

section

variable (env : Env)

def optString (name : String) : Option String :=
  ((env.get? name).map trim).filter (fun s => decide (s ≠ ""))

def optBool (name : String) : Except ConfigError (Option Bool) :=
  match optString env name with
  | none => .ok none
  | some raw =>
    if raw = "true" ∨ raw = "1" then .ok (some true)
    else if raw = "false" ∨ raw = "0" then .ok (some false)
    else .error (.invalidBoolean name)

def posInt (name : String) (default : Int) : Except ConfigError Int :=
  match optString env name with
  | none => .ok default
  | some raw =>
    match (parseI64 raw).filter (fun v => decide (0 ≤ v)) with
    | some v => .ok v
    | none => .error (.invalidInteger name)

def Synchronous.fromConfig (s : String) : Option Synchronous :=
  let lower := toAsciiLowercase (trim s)
  if lower = "normal" then some .normal
  else if lower = "full" then some .full
  else none

def readRelayUrls : List String :=
  match optString env "CORDN_RELAY_URLS" with
  | some raw =>
    let urls := ((split ',' raw).map trim).filter (fun s => decide (s ≠ ""))
    if urls.isEmpty then defaultRelayUrls else urls
  | none => defaultRelayUrls

def readStorage : Except ConfigError StorageConfig :=
  let backend := (optString env "CORDN_STORAGE_BACKEND").getD "memory"
  if backend = "memory" then .ok ⟨.memory, none, .normal⟩
  else if backend = "sqlite" then do
    let sqliteSynchronous ← match optString env "CORDN_SQLITE_SYNCHRONOUS" with
      | none => .ok .normal
      | some raw =>
        match Synchronous.fromConfig raw with
        | some synchronous => .ok synchronous
        | none => .error .invalidSqliteSynchronous
    pure ⟨.sqlite, some ((optString env "CORDN_SQLITE_PATH").getD "./cordn.sqlite"),
      sqliteSynchronous⟩
  else .error .invalidStorageBackend

def readRateLimit : Except ConfigError RateLimitConfig := do
  let enabled ← optBool env "CORDN_RATE_LIMIT_ENABLED"
  let refillPerMinute ← posInt env "CORDN_RATE_LIMIT_REFILL_PER_MINUTE" 500
  let burst ← posInt env "CORDN_RATE_LIMIT_BURST" 160
  let idleTtlSeconds ← posInt env "CORDN_RATE_LIMIT_IDLE_TTL_SECONDS" 3600
  pure ⟨enabled.getD true, refillPerMinute, burst, wrappingMul idleTtlSeconds 1000⟩

def readKeyPackageQuota : Except ConfigError KeyPackageQuotaConfig := do
  let maxPerIdentity ← posInt env "CORDN_MAX_KEY_PACKAGES_PER_IDENTITY" 50
  let maxLastResortPerIdentity ←
    posInt env "CORDN_MAX_LAST_RESORT_KEY_PACKAGES_PER_IDENTITY" 1
  pure ⟨maxPerIdentity.toNat, maxLastResortPerIdentity.toNat⟩

def readServerConfig : Except ConfigError ServerConfig := do
  let isAnnounced ← optBool env "CORDN_ANNOUNCED"
  let storage ← readStorage env
  let rateLimit ← readRateLimit env
  let keyPackageQuota ← readKeyPackageQuota env
  let logRejections ← optBool env "CORDN_LOG_ABUSE_REJECTIONS"
  let maxAgeDays ← posInt env "CORDN_MAX_AGE_DAYS" 30
  pure {
    privateKeyHex := optString env "CORDN_SERVER_PRIVATE_KEY"
    relayUrls := readRelayUrls env
    serverName := (optString env "CORDN_SERVER_NAME").getD "cordn-server"
    serverAbout := optString env "CORDN_SERVER_ABOUT"
    serverWebsite := optString env "CORDN_SERVER_WEBSITE"
    isAnnounced := isAnnounced.getD false
    storage := storage
    abuseProtection := ⟨rateLimit, keyPackageQuota, logRejections.getD true⟩
    maxAgeMs := wrappingMul maxAgeDays 86400000 }

end

example : readServerConfig IndexMap.empty = .ok .default := rfl

end Cordn.Config
