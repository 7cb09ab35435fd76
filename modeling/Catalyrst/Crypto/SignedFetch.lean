import Mathlib
import Catalyrst.Crypto.AuthChain
import Catalyrst.Lib.JsonText
import Catalyrst.Lib.Numeral
import Catalyrst.Lib.Utf8

/-!
# Signed fetches

A request carries an auth chain in its headers, whose last payload joins the method, the
path, a timestamp and the metadata with colons. The older payload is lower-cased as a whole,
the newer one only up to the timestamp. JSON parsing comes from a library and is a parameter.
-/

namespace Catalyrst.Crypto

open Catalyrst.Lib.Numeral (parseI64)

/-- The names `x-identity-auth-chain-<i>`, `x-identity-timestamp`, `x-identity-metadata` and
`x-original-path`. -/
inductive HeaderName where
  | authChain (index : ℕ)
  | timestamp
  | metadata
  | originalPath
  deriving DecidableEq

abbrev HeaderMap := HeaderName → Option Bytes

/-- `serde_json::Value`. -/
inductive Json where
  | null
  | bool (b : Bool)
  | number (digits : Text)
  | string (s : Text)
  | array (items : List Json)
  | object (fields : List (Text × Json))

def Json.kind : Json → Lib.JsonText.Kind
  | .null => .null
  | .bool _ => .boolean
  | .number _ => .number
  | .string _ => .string
  | .array _ => .array
  | .object _ => .object

structure FetchEnv extends CryptoEnv where
  /-- The error text, or the link. -/
  linkFromStr : Text → Except Text AuthLink
  fromStr : Text → Option Json

structure FetchLink where
  kind : AuthLinkType
  payload : Text
  signature : Text
  deriving DecidableEq

structure FetchChain where
  links : List FetchLink
  signer : Text
  deriving DecidableEq

inductive AuthChainError where
  | malformedChain (detail : Text)
  /-- Malformed too, with the text of the cause. -/
  | refusedChain (cause : AuthError)
  | insufficientLinks
  | missingTimestamp
  | expired (signedAt now windowSecs : ℤ)
  | invalidSignature (cause : AuthError)
  | eipNotImplemented
  | invalidTimestamp (timestamp : Text)
  | catalystUnavailable (detail : String)
  /-- No error of the source: the code has panicked. -/
  | panicked
  deriving DecidableEq

/-! ### Headers -/

/-- `HeaderValue::to_str`: visible ASCII and tabs only. -/
def toStr (value : Bytes) : Option Text :=
  if value.all fun b => 32 ≤ b ∧ b < 127 ∨ b = 9 then some (value.map fun b => Char.ofNat b.toNat)
  else none

def headerStr (headers : HeaderMap) (name : HeaderName) : Option Text :=
  (headers name).bind toStr

def signedFetchPath (headers : HeaderMap) (fallback : Text) : Text :=
  match headerStr headers .originalPath with
  | some raw =>
    let stripped := raw.takeWhile (· ≠ '?')
    if fallback.isSuffixOf stripped then stripped else fallback
  | none => fallback

def metadataRaw (headers : HeaderMap) : Text :=
  (headerStr headers .metadata).getD [Lib.JsonText.openBrace, Lib.JsonText.closeBrace]

def signedAtSecs (timestamp : Text) : Except AuthChainError ℤ :=
  match parseI64 timestamp with
  | some ms => .ok (ms.tdiv 1000)
  | none => .error (.invalidTimestamp timestamp)

def assertWithinWindow (signedAt now windowSecs : ℤ) : Except AuthChainError Unit :=
  if windowSecs < |now - signedAt| then .error (.expired signedAt now windowSecs) else .ok ()

def mapAuthError : AuthError → AuthChainError
  | .ephemeralExpired expirationMs nowMs => .expired (expirationMs.tdiv 1000) (nowMs.tdiv 1000) 0
  | .eip1654NotImplemented => .eipNotImplemented
  | .eip1654ValidationFailed detail => .catalystUnavailable detail
  | .recoveryFailed detail => .invalidSignature (.recoveryFailed detail)
  | .signerMismatch index expected actual => .invalidSignature (.signerMismatch index expected actual)
  | .finalAuthorityMismatch expected actual =>
    .invalidSignature (.finalAuthorityMismatch expected actual)
  | .eip1654Rejected contract => .invalidSignature (.eip1654Rejected contract)
  | cause => .refusedChain cause

section Fetch

variable (env : FetchEnv)

/-! ### The chain -/

def checkLink (link : AuthLink) (index : ℕ) : Except AuthChainError Unit :=
  if link.linkType = .signer then
    if index ≠ 0 then
      .error (.malformedChain ("SIGNER link at non-zero index ".toList ++ (toString index).toList))
    else .ok ()
  else if index = 0 then .error (.malformedChain "first link must be SIGNER".toList)
  else if link.signature.getD [] = [] then
    .error (.malformedChain ("missing signature on link ".toList ++ (toString index).toList))
  else .ok ()

/-- The text of a parse error, cut to 64 bytes; `String::truncate` panics within a character. -/
def parseError (detail : Text) : AuthChainError :=
  match Lib.Utf8.truncate 64 detail with
  | some cut => .malformedChain cut
  | none => .panicked

/-- The loop over the headers from `index` on, at most `n` of them. -/
def extractLinks (headers : HeaderMap) : ℕ → ℕ → Except AuthChainError (List FetchLink)
  | 0, _ => .ok []
  | n + 1, index =>
    match headerStr headers (.authChain index) with
    | none => .ok []
    | some raw => do
      let link ← (env.linkFromStr raw).mapError parseError
      checkLink link index
      let rest ← extractLinks headers n (index + 1)
      return ⟨link.linkType, link.payload, link.signature.getD []⟩ :: rest

def extractAuthChain (headers : HeaderMap) : Except AuthChainError FetchChain := do
  let links ← extractLinks env headers maxAuthChainLinks 0
  if (headerStr headers (.authChain maxAuthChainLinks)).isSome then
    throw (.malformedChain ("exceeds max length of ".toList ++ (toString maxAuthChainLinks).toList))
  match links with
  | first :: second :: rest =>
    return ⟨first :: second :: rest, env.toLowercase first.payload⟩
  | _ => throw .insufficientLinks

def toCryptoChain (chain : FetchChain) : AuthChain :=
  chain.links.map fun link =>
    ⟨link.kind, link.payload, if link.signature = [] then none else some link.signature⟩

/-! ### The payloads -/

def joinPayload (method path timestamp metadata : Text) : Text :=
  method ++ ':' :: (path ++ ':' :: (timestamp ++ ':' :: metadata))

def buildLegacyPayload (method path timestamp metadata : Text) : Text :=
  env.toLowercase (joinPayload method path timestamp metadata)

def buildPayloadV6 (method path timestamp metadata : Text) : Text :=
  joinPayload (env.toLowercase method) (env.toLowercase path) timestamp metadata

/-- The address of the signer. -/
def validateSignatureWith (chain : FetchChain) (payload timestamp : Text) (expirationSecs now : ℤ)
    (validator : Option Eip1654Validator) : Except AuthChainError Text := do
  let signedAt ← signedAtSecs timestamp
  assertWithinWindow signedAt now expirationSecs
  (verifyAuthChainAsync env.toCryptoEnv (toCryptoChain chain) payload (now * 1000) validator).mapError
    mapAuthError
  return env.toLowercase chain.signer

/-! ### The older payload -/

def verifySignedFetchMeta (headers : HeaderMap) (method path : Text) (toleranceSecs now : ℤ)
    (validator : Option Eip1654Validator) : Except AuthChainError (Text × Json) := do
  let path := signedFetchPath headers path
  let chain ← extractAuthChain env headers
  let some ts := headerStr headers .timestamp | throw .missingTimestamp
  let payload := buildLegacyPayload env method path ts (metadataRaw headers)
  let signer ← validateSignatureWith env chain payload ts toleranceSecs now validator
  return (signer, (env.fromStr (metadataRaw headers)).getD .null)

/-! ### The gates over the metadata -/

def truncateDetail (value : Text) : Text :=
  if 64 < value.length then value.take 64 ++ "...".toList else value

/-- `char::is_whitespace`, or the zero-width no-break space. -/
def isTrimmed (c : Char) : Bool :=
  9 ≤ c.toNat ∧ c.toNat ≤ 13 ∨ 0x2000 ≤ c.toNat ∧ c.toNat ≤ 0x200a ∨
    c.toNat ∈ [0x20, 0x85, 0xa0, 0x1680, 0x2028, 0x2029, 0x202f, 0x205f, 0x3000, 0xfeff]

def jsTrim (value : Text) : Text :=
  ((value.dropWhile isTrimmed).reverse.dropWhile isTrimmed).reverse

def isCanonical (value : Text) : Bool := value = env.toLowercase (jsTrim value)

structure SignerGate where
  rejected : List Text

def SignerGate.permits (gate : SignerGate) : Json → Bool
  | .object fields =>
    match fields.lookup ['s', 'i', 'g', 'n', 'e', 'r'] with
    | none => true
    | some (.string signer) => isCanonical env signer && !gate.rejected.contains signer
    | some _ => false
  | _ => true

def parseMetadata (raw : Text) : Except AuthChainError Json :=
  match env.fromStr raw with
  | some .null => .ok (.object [])
  | some (.object fields) => .ok (.object fields)
  | _ => .error (.malformedChain
    ("invalid chain metadata: \x22".toList ++ truncateDetail raw ++ "\x22".toList))

def assertCanonicalMetadataKeys (keys : List Text) : Except AuthChainError Unit :=
  match keys.find? fun declared => [] ∈ declared.splitOn '.' with
  | some declared => .error (.malformedChain ("canonical metadata key has an empty path segment: \x22".toList
      ++ truncateDetail declared ++ "\x22".toList))
  | none => .ok ()

mutual

def objectsToInspect : Json → List (List (Text × Json))
  | .array items => objectsToInspectAll items
  | .object fields => [fields]
  | _ => []

def objectsToInspectAll : List Json → List (List (Text × Json))
  | [] => []
  | item :: items => objectsToInspect item ++ objectsToInspectAll items

end

/-- The value under a segment, unless it is spelled otherwise or twice. -/
def deliveredUnder (segment : Text) (fields : List (Text × Json)) : Except AuthChainError (List Json) :=
  match fields.filter fun (key, _) => env.toLowercase key = env.toLowercase segment with
  | [] => .ok []
  | [(key, value)] =>
    if key = segment then .ok [value]
    else .error (.malformedChain ("invalid chain metadata: expected \x22".toList ++ truncateDetail segment
      ++ "\x22, got \x22".toList ++ truncateDetail key ++ "\x22".toList))
  | delivered => .error (.malformedChain ("invalid chain metadata: \x22".toList ++ truncateDetail segment
      ++ "\x22 delivered under ".toList ++ (toString delivered.length).toList ++ " spellings".toList))

/-- The loop over the segments of one declared path. -/
def assertSegments : List Text → List Json → Except AuthChainError Unit
  | [], _ => .ok ()
  | segment :: segments, containers => do
    let next ← (objectsToInspectAll containers).mapM (deliveredUnder env segment)
    if next.flatten.isEmpty then return ()
    assertSegments segments next.flatten

def assertLegacyMetadataKeys (metadata : Json) (keys : List Text) : Except AuthChainError Unit :=
  keys.forM fun declared => assertSegments env (declared.splitOn '.') [metadata]

/-! ### The newer payload -/

def verifySignedFetchMetaWithLegacyFallback (headers : HeaderMap) (method path : Text)
    (toleranceSecs now : ℤ) (validator : Option Eip1654Validator) (canonicalMetadataKeys : List Text)
    (gate : Option SignerGate) : Except AuthChainError (Text × Json) := do
  assertCanonicalMetadataKeys canonicalMetadataKeys
  let path := signedFetchPath headers path
  let chain ← extractAuthChain env headers
  let some ts := headerStr headers .timestamp | throw .missingTimestamp
  let signedAt ← signedAtSecs ts
  assertWithinWindow signedAt now toleranceSecs
  let metadata ← parseMetadata env (metadataRaw headers)
  if gate.any fun gate => !gate.permits env metadata then
    throw (.malformedChain ("invalid metadata content: \x22".toList ++ truncateDetail (metadataRaw headers)
      ++ "\x22".toList))
  let payload := buildPayloadV6 env method path ts (metadataRaw headers)
  match validateSignatureWith env chain payload ts toleranceSecs now validator with
  | .ok signer => return (signer, metadata)
  | .error (.invalidSignature cause) =>
    if canonicalMetadataKeys = [] then throw (.invalidSignature cause)
    assertLegacyMetadataKeys env metadata canonicalMetadataKeys
    let legacy := buildLegacyPayload env method path ts (metadataRaw headers)
    let signer ← validateSignatureWith env chain legacy ts toleranceSecs now validator
    return (signer, metadata)
  | .error cause => throw cause

end Fetch

end Catalyrst.Crypto
