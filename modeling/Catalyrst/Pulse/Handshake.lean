import Catalyrst.Crypto.AuthChain
import Catalyrst.Lib.Numeral
import Catalyrst.Pulse.Server

/-!
# Signed handshakes (`handshake.rs`)

The auth chain of a handshake arrives as a bag of headers: the links under numbered
keys, a timestamp and some metadata. The last link signs the payload of a `connect`
request at that timestamp, which has to be near the server's clock. The JSON decoding
and the verification of the signatures are parameters.
-/

namespace Catalyrst.Pulse
open Catalyrst.Lib Catalyrst.Lib.Texts
open Catalyrst.Lib.Numeral (parseI64)
open Catalyrst.Crypto (AuthLink AuthChain)

def MAX_TIMESTAMP_SKEW_MS : ℤ := 60000

structure HandshakeEnv where
  toLowercase : Text → Text
  /-- The bytes as UTF-8, and as a JSON object of strings. -/
  parseHeaders : Bytes → Option (OrdMap Text Text)
  /-- The value of a header as the JSON of a link. -/
  parseLink : Text → Option AuthLink
  /-- `verify_auth_chain` for a payload at a wall-clock time; an error is its text. -/
  verifyAuthChain : AuthChain → Text → ℤ → Except Text Unit

inductive HandshakeError where
  | invalidJson
  | noAuthChain
  | staleTimestamp
  | invalidAuthChain (e : Text)

def HandshakeError.message : HandshakeError → Text
  | .invalidJson => "Invalid auth chain JSON".toList
  | .noAuthChain => "No x-identity-auth-chain-* headers found.".toList
  | .staleTimestamp => "timestamp outside ±60000ms skew window".toList
  | .invalidAuthChain e => e

/-! ### Numbers -/

def parseDigits (t : Text) : Option ℕ :=
  if t ≠ [] ∧ t.all Char.isDigit then
    some (t.foldl (fun n c => n * 10 + (c.toNat - '0'.toNat)) 0)
  else none

/-- `str::parse::<u32>`: a leading `+` is allowed. -/
def parseU32 (t : Text) : Option ℕ :=
  (parseDigits (if t.head? = some '+' then t.tail else t)).filter fun n => decide (n < 4294967296)

/-! ### The header bag -/

/-- `x-identity-`. -/
def IDENTITY_HEADER : Text := ['x', '-', 'i', 'd', 'e', 'n', 't', 'i', 't', 'y', '-']

/-- `x-identity-auth-chain-`. -/
def AUTH_CHAIN_HEADER : Text :=
  IDENTITY_HEADER ++ ['a', 'u', 't', 'h', '-', 'c', 'h', 'a', 'i', 'n', '-']

/-- `x-identity-timestamp`. -/
def TIMESTAMP_HEADER : Text :=
  IDENTITY_HEADER ++ ['t', 'i', 'm', 'e', 's', 't', 'a', 'm', 'p']

/-- `x-identity-metadata`. -/
def METADATA_HEADER : Text := IDENTITY_HEADER ++ ['m', 'e', 't', 'a', 'd', 'a', 't', 'a']

structure HeaderBag where
  indexed : List (ℕ × AuthLink)
  timestamp : Text
  metadata : Text

namespace HandshakeEnv

variable (env : HandshakeEnv)

/-- One header. A numbered key whose number does not parse is passed over. -/
def readHeader (bag : HeaderBag) (header : Text × Text) : Except HandshakeError HeaderBag :=
  let lk := env.toLowercase header.1
  match lk.dropPrefix? AUTH_CHAIN_HEADER with
  | some suffix =>
    match parseU32 suffix with
    | some idx =>
      match env.parseLink header.2 with
      | some link => .ok { bag with indexed := bag.indexed ++ [(idx, link)] }
      | none => .error .invalidJson
    | none => .ok bag
  | none =>
    if lk = TIMESTAMP_HEADER then .ok { bag with timestamp := header.2 }
    else if lk = METADATA_HEADER then .ok { bag with metadata := header.2 }
    else .ok bag

/-- The chain in the order of its numbers, the timestamp and the metadata. -/
def parseHeaderBag (headers : OrdMap Text Text) :
    Except HandshakeError (AuthChain × Text × Text) :=
  match headers.toList.foldlM env.readHeader ⟨[], [], []⟩ with
  | .error e => .error e
  | .ok bag =>
    if bag.indexed = [] then .error .noAuthChain
    else .ok ((bag.indexed.insertionSort fun a b => a.1 ≤ b.1).map Prod.snd, bag.timestamp,
      bag.metadata)

def buildSignedFetchPayload (method path timestamp metadata : Text) : Text :=
  env.toLowercase method ++ ':' :: env.toLowercase path ++ ':' :: timestamp ++ ':' :: metadata

def signerAddress (chain : AuthChain) : Option Text :=
  (chain.head?.filter fun l => decide (l.linkType = .signer)).map fun l =>
    env.toLowercase (trim l.payload)

/-- The last link and the signatures, once the timestamp is near enough. -/
def verifyChain (chain : AuthChain) (timestamp metadata : Text) (nowMs : ℤ) :
    Except HandshakeError VerifiedHandshake :=
  let expectedPayload := env.buildSignedFetchPayload ['c', 'o', 'n', 'n', 'e', 'c', 't'] ['/']
    timestamp metadata
  match chain.getLast? with
  | none => .error .noAuthChain
  | some last =>
    if last.payload ≠ expectedPayload then
      .error (.invalidAuthChain
        ("Final link rejected by policy: expected connect payload, got '".toList ++ last.payload ++
          [Char.ofNat 39]))
    else
      match env.verifyAuthChain chain expectedPayload nowMs with
      | .error e => .error (.invalidAuthChain e)
      | .ok () =>
        match env.signerAddress chain with
        | none => .error (.invalidAuthChain "First link must be SIGNER".toList)
        | some userAddress => .ok ⟨userAddress, timestamp⟩

def verifyHandshakeBytes (authChain : Bytes) (nowMs : ℤ) :
    Except HandshakeError VerifiedHandshake :=
  match env.parseHeaders authChain with
  | none => .error .invalidJson
  | some headers =>
    match env.parseHeaderBag headers with
    | .error e => .error e
    | .ok (chain, timestamp, metadata) =>
      match parseI64 timestamp with
      | none => .error .staleTimestamp
      | some tsMs =>
        if MAX_TIMESTAMP_SKEW_MS < |nowMs - tsMs| then .error .staleTimestamp
        else env.verifyChain chain timestamp metadata nowMs

/-- The environment of a server that verifies its handshakes so. -/
def toEnv : Env where
  toLowercase := env.toLowercase
  verifyHandshake authChain nowMs :=
    (env.verifyHandshakeBytes authChain nowMs).mapError HandshakeError.message

end HandshakeEnv

end Catalyrst.Pulse
