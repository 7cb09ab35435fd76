import Catalyrst.Lib.Instances

/-!
# Auth chains

A chain of links hands an authority on: the first link names the signer, and every later
link is signed by the authority so far and names the next one. The walk along the chain
exists twice in the source, once with and once without smart-contract wallets. Signature
recovery, hashing, date parsing and lower-casing come from libraries and are parameters.
-/

namespace Catalyrst.Crypto

abbrev Text := List Char

abbrev Bytes := List UInt8

def utf8 (s : Text) : Bytes := s.flatMap String.utf8EncodeChar

theorem utf8_inj {s t : Text} (h : utf8 s = utf8 t) : s = t := by
  have hencode : s.utf8Encode = t.utf8Encode := congrArg List.toByteArray h
  exact String.ofList_injective (String.toByteArray_inj.mp hencode)

theorem utf8_append (s t : Text) : utf8 (s ++ t) = utf8 s ++ utf8 t := List.flatMap_append

inductive AuthLinkType where
  | signer
  | ecdsaEphemeral
  | ecdsaSignedEntity
  | ecdsaEip1654Ephemeral
  | ecdsaEip1654SignedEntity
  deriving DecidableEq

def AuthLinkType.isEip1654 : AuthLinkType → Bool
  | .ecdsaEip1654Ephemeral | .ecdsaEip1654SignedEntity => true
  | .signer | .ecdsaEphemeral | .ecdsaSignedEntity => false

structure AuthLink where
  linkType : AuthLinkType
  payload : Text
  signature : Option Text
  deriving DecidableEq

abbrev AuthChain := List AuthLink

def maxAuthChainLinks : ℕ := 10
def maxAuthLinkFieldLen : ℕ := 100000

inductive AuthError where
  | tooLong (links : ℕ)
  | malformedChain (detail : String)
  | missingSignature (linkType : AuthLinkType) (index : ℕ)
  | recoveryFailed (detail : String)
  | signerMismatch (index : ℕ) (expected actual : Text)
  | ephemeralExpired (expirationMs nowMs : ℤ)
  | invalidEphemeralPayload (detail : String)
  /-- The text that is not a date. -/
  | invalidExpiration (text : Text)
  | finalAuthorityMismatch (expected actual : Text)
  | eip1654NotImplemented
  | eip1654ValidationFailed (detail : String)
  | eip1654Rejected (contract : Text)
  deriving DecidableEq

/-- The contract, the hash and the signature. -/
abbrev Eip1654Validator := Text → Bytes → Bytes → Except AuthError Bool

structure CryptoEnv where
  toLowercase : Text → Text
  recoverAddress : Bytes → Text → Except AuthError Text
  keccak256 : Bytes → Bytes
  eip191HashMessage : Bytes → Bytes
  /-- Both in milliseconds. -/
  parseRfc3339 : Text → Option ℤ
  parseNaive : String → Text → Option ℤ

/-! ### The shape of a chain -/

def AuthLink.withinLimits (link : AuthLink) : Bool :=
  (utf8 link.payload).length ≤ maxAuthLinkFieldLen ∧
    ∀ s ∈ link.signature, (utf8 s).length ≤ maxAuthLinkFieldLen

def isValidAuthChain (chain : AuthChain) : Bool :=
  if chain = [] then false
  else if maxAuthChainLinks < chain.length then false
  else chain.zipIdx.all fun (link, i) =>
    !(i = 0 ∧ link.linkType ≠ .signer) && !(link.linkType = .signer ∧ i ≠ 0) && link.withinLimits

/-! ### Ephemeral links -/

def isHexDigit (c : Char) : Bool :=
  '0' ≤ c ∧ c ≤ '9' ∨ 'a' ≤ c ∧ c ≤ 'f' ∨ 'A' ≤ c ∧ c ≤ 'F'

def isEthAddress (value : Text) : Bool :=
  (utf8 value).length = 42 ∧ ['0', 'x'].isPrefixOf value ∧ (value.drop 2).all isHexDigit

def ephemeralPrefix : Text :=
  ['E', 'p', 'h', 'e', 'm', 'e', 'r', 'a', 'l', ' ', 'a', 'd', 'd', 'r', 'e', 's', 's', ':', ' ']

def expirationPrefix : Text := ['E', 'x', 'p', 'i', 'r', 'a', 't', 'i', 'o', 'n', ':', ' ']

section Walk

variable (env : CryptoEnv)

def parseExpiration (s : Text) : Except AuthError ℤ :=
  match env.parseRfc3339 s with
  | some ms => .ok ms
  | none =>
    match ["%Y-%m-%dT%H:%M:%S%.f", "%Y-%m-%dT%H:%M:%S"].findSome? fun fmt => env.parseNaive fmt s with
    | some ms => .ok ms
    | none => .error (.invalidExpiration s)

/-- The message without carriage returns, the ephemeral address and when it expires. -/
def parseEphemeralPayload (payload : Text) : Except AuthError (Text × Text × ℤ) :=
  let message := payload.filter (· ≠ '\r')
  match message.splitOn '\n' with
  | _ :: second :: third :: _ =>
    if ephemeralPrefix.isPrefixOf second ∧ expirationPrefix.isPrefixOf third then
      let ephemeralAddress := second.drop ephemeralPrefix.length
      if isEthAddress ephemeralAddress then
        (parseExpiration env (third.drop expirationPrefix.length)).map fun expiration =>
          (message, ephemeralAddress, expiration)
      else .error (.invalidEphemeralPayload "invalid ephemeral address format")
    else .error (.invalidEphemeralPayload
      "Expected 3 lines with 'Ephemeral address: ' on line 2 and 'Expiration: ' on line 3")
  | _ => .error (.invalidEphemeralPayload
      "Expected 3 lines with 'Ephemeral address: ' on line 2 and 'Expiration: ' on line 3")

/-! ### Signatures -/

def hexValue (b : UInt8) : Option UInt8 :=
  if 48 ≤ b ∧ b ≤ 57 then some (b - 48)
  else if 97 ≤ b ∧ b ≤ 102 then some (b - 87)
  else if 65 ≤ b ∧ b ≤ 70 then some (b - 55)
  else none

def badHexDigit (b : UInt8) : AuthError :=
  .recoveryFailed (if b < 128 then "Hex decode: invalid digit found in string"
    else "Non-ASCII signature hex")

def decodePairs : Bytes → Except AuthError Bytes
  | hi :: lo :: rest =>
    match hexValue hi, hexValue lo with
    | none, _ => .error (badHexDigit hi)
    | some _, none => .error (badHexDigit lo)
    | some h, some l => (decodePairs rest).map fun bytes => (16 * h + l) :: bytes
  | _ => .ok []

def decodeHexSignature (s : Text) : Except AuthError Bytes :=
  let digits := utf8 (if ['0', 'x'].isPrefixOf s then s.drop 2 else s)
  if digits.length % 2 = 1 then .error (.recoveryFailed "Odd-length signature hex")
  else decodePairs digits

def requireSignature (link : AuthLink) (index : ℕ) : Except AuthError Text :=
  match link.signature with
  | some sig => if sig ≠ [] then .ok sig else .error (.missingSignature link.linkType index)
  | none => .error (.missingSignature link.linkType index)

def checkAddressMatch (expected actual : Text) (index : ℕ) : Except AuthError Unit :=
  if env.toLowercase expected ≠ env.toLowercase actual then
    .error (.signerMismatch index (env.toLowercase expected) (env.toLowercase actual))
  else .ok ()

/-- First the hash itself, then the prefixed one. -/
def verifyEip1654 (validator : Eip1654Validator) (contract : Text) (message signature : Bytes) :
    Except AuthError Bool := do
  if ← validator contract (env.keccak256 message) signature then return true
  validator contract (env.eip191HashMessage message) signature

/-! ### The two walks -/

/-- One link of `verify_auth_chain_async`: from an authority to the next. -/
def advanceAsync (validator : Option Eip1654Validator) (nowMs : ℤ) (authority : Text)
    (link : AuthLink) (index : ℕ) : Except AuthError Text :=
  match link.linkType with
  | .signer => .ok link.payload
  | .ecdsaSignedEntity => do
    let signature ← requireSignature link index
    let recovered ← env.recoverAddress (utf8 link.payload) signature
    checkAddressMatch env authority recovered index
    return link.payload
  | .ecdsaEphemeral => do
    let signature ← requireSignature link index
    let (message, ephemeralAddress, expirationMs) ← parseEphemeralPayload env link.payload
    if expirationMs ≤ nowMs then throw (.ephemeralExpired expirationMs nowMs)
    let recovered ← env.recoverAddress (utf8 message) signature
    checkAddressMatch env authority recovered index
    return ephemeralAddress
  | .ecdsaEip1654Ephemeral =>
    match validator with
    | none => .error .eip1654NotImplemented
    | some validator => do
      let signature ← requireSignature link index
      let (message, ephemeralAddress, expirationMs) ← parseEphemeralPayload env link.payload
      if expirationMs ≤ nowMs then throw (.ephemeralExpired expirationMs nowMs)
      let sigBytes ← decodeHexSignature signature
      let valid ← verifyEip1654 env validator authority (utf8 message) sigBytes
      if !valid then throw (.eip1654Rejected authority)
      return ephemeralAddress
  | .ecdsaEip1654SignedEntity =>
    match validator with
    | none => .error .eip1654NotImplemented
    | some validator => do
      let signature ← requireSignature link index
      let sigBytes ← decodeHexSignature signature
      let valid ← verifyEip1654 env validator authority (utf8 link.payload) sigBytes
      if !valid then throw (.eip1654Rejected authority)
      return link.payload

/-- One link of `verify_chain_inner`. -/
def advanceInner (nowMs : ℤ) (authority : Text) (link : AuthLink) (index : ℕ) :
    Except AuthError Text :=
  match link.linkType with
  | .signer => .ok link.payload
  | .ecdsaSignedEntity => do
    let signature ← requireSignature link index
    let recovered ← env.recoverAddress (utf8 link.payload) signature
    checkAddressMatch env authority recovered index
    return link.payload
  | .ecdsaEphemeral => do
    let signature ← requireSignature link index
    let (message, ephemeralAddress, expirationMs) ← parseEphemeralPayload env link.payload
    if expirationMs ≤ nowMs then throw (.ephemeralExpired expirationMs nowMs)
    let recovered ← env.recoverAddress (utf8 message) signature
    checkAddressMatch env authority recovered index
    return ephemeralAddress
  | .ecdsaEip1654Ephemeral | .ecdsaEip1654SignedEntity => .error .eip1654NotImplemented

/-- The loop over the links from `index` on. -/
def walk (advance : Text → AuthLink → ℕ → Except AuthError Text) :
    Text → ℕ → List AuthLink → Except AuthError Text
  | authority, _, [] => .ok authority
  | authority, index, link :: links =>
    (advance authority link index).bind fun next => walk advance next (index + 1) links

def verifyWith (advance : Text → AuthLink → ℕ → Except AuthError Text) (chain : AuthChain)
    (expected : Text) : Except AuthError Unit :=
  if maxAuthChainLinks < chain.length then .error (.tooLong chain.length)
  else if !isValidAuthChain chain then .error (.malformedChain "invalid chain structure")
  else
    (walk advance [] 0 chain).bind fun authority =>
      if authority ≠ expected then .error (.finalAuthorityMismatch expected authority) else .ok ()

def verifyAuthChainAsync (chain : AuthChain) (expected : Text) (nowMs : ℤ)
    (validator : Option Eip1654Validator) : Except AuthError Unit :=
  verifyWith (advanceAsync env validator nowMs) chain expected

def verifyAuthChain (chain : AuthChain) (expected : Text) (nowMs : ℤ) : Except AuthError Unit :=
  verifyWith (advanceInner env nowMs) chain expected

end Walk

end Catalyrst.Crypto
