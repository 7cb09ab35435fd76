import Catalyrst.Lib.OrdMap
import Catalyrst.Lib.Texts
import Catalyrst.Pulse.Messages

/-!
# Admission and rate limits (`hardening.rs`)

Bans, handshake replays and attempts, the pre-authentication budget and the two
token-bucket limiters.
-/

namespace Catalyrst.Pulse
open Catalyrst.Lib Catalyrst.Lib.Texts

inductive DisconnectReason where
  | graceful
  | authTimeout
  | authFailed
  | duplicateSession
  | banned
  | serverFull
  | preAuthIpLimitExhausted
  | preAuthBudgetExhausted
  | inputRateExceeded
  | discreteEventRateExceeded
  | invalidInputField
  | invalidEmoteField
  | invalidTeleportField
  | handshakeReplayRejected
  | invalidHandshakeField
  | packetCorrupted
  deriving DecidableEq

/-! ### Bans -/

structure BanList where
  banned : List Text

namespace BanList

def new : BanList := ⟨[]⟩

variable (toLowercase : Text → Text)

def normalize (wallet : Text) : Text :=
  let trimmed := trim wallet
  if eqIgnoreAsciiCase (trimmed.take 2) ['0', 'x'] then toLowercase trimmed
  else toLowercase ('0' :: 'x' :: trimmed)

def isBanned (bans : BanList) (wallet : Text) : Bool :=
  decide (normalize toLowercase wallet ∈ bans.banned)

end BanList

/-! ### Handshake replays and attempts -/

structure HandshakeReplayPolicy where
  enabled : Bool
  ttlMs : U32
  maxEntries : ℕ
  /-- Wallet and timestamp of the handshakes admitted, with the time of admission. -/
  seen : List ((Text × Text) × U32)

namespace HandshakeReplayPolicy

def new (enabled : Bool) (ttlMs : U32) (maxEntries : ℕ) : HandshakeReplayPolicy :=
  ⟨enabled, ttlMs, maxEntries, []⟩

def isEnabled (policy : HandshakeReplayPolicy) : Bool := policy.enabled && decide (0 < policy.ttlMs)

/-- `now.wrapping_sub(inserted_at) < ttl_ms`. -/
def fresh (policy : HandshakeReplayPolicy) (now insertedAt : U32) : Bool :=
  decide (now - insertedAt < policy.ttlMs)

def lookup (policy : HandshakeReplayPolicy) (key : Text × Text) : Option U32 :=
  (policy.seen.find? fun e => decide (e.1 = key)).map Prod.snd

def sweepExpired (policy : HandshakeReplayPolicy) (now : U32) : HandshakeReplayPolicy :=
  { policy with seen := policy.seen.filter fun e => policy.fresh now e.2 }

/-- An entry with the least time of admission goes. -/
def evictOldest (policy : HandshakeReplayPolicy) : HandshakeReplayPolicy :=
  match policy.seen.argmin Prod.snd with
  | none => policy
  | some oldest => { policy with seen := policy.seen.filter fun e => decide (e.1 ≠ oldest.1) }

def insert (policy : HandshakeReplayPolicy) (key : Text × Text) (now : U32) :
    HandshakeReplayPolicy :=
  { policy with seen := (key, now) :: policy.seen.filter fun e => decide (e.1 ≠ key) }

def tryAdmit (toLowercase : Text → Text) (policy : HandshakeReplayPolicy) (now : U32)
    (wallet timestamp : Text) : Bool × HandshakeReplayPolicy :=
  if !policy.isEnabled then (true, policy)
  else
    let key := (toLowercase wallet, timestamp)
    if (policy.lookup key).any (policy.fresh now) then (false, policy)
    else
      let policy := if policy.maxEntries / 2 ≤ policy.seen.length then policy.sweepExpired now
        else policy
      let policy := if policy.maxEntries ≤ policy.seen.length then policy.evictOldest else policy
      (true, policy.insert key now)

end HandshakeReplayPolicy

/-- `HandshakeAttemptPolicy::try_record_attempt`; a limit of zero disables it. -/
def tryRecordAttempt (maxAttempts attempts : ℕ) : Option ℕ :=
  if maxAttempts = 0 then some attempts
  else if maxAttempts ≤ attempts then none
  else some (attempts + 1)

/-! ### The pre-authentication budget -/

inductive AdmitResult where
  | ok
  | ipLimitExhausted
  | budgetExhausted
  deriving DecidableEq

structure PreAuthAdmission where
  perIpCap : ℤ
  globalBudget : ℤ
  perIpCounts : OrdMap Text ℤ
  ipByPendingPeer : OrdMap U32 Text
  inFlight : ℤ

namespace PreAuthAdmission

def new (perIpCap globalBudget : ℤ) : PreAuthAdmission := ⟨perIpCap, globalBudget, ∅, ∅, 0⟩

def tryAdmit (a : PreAuthAdmission) (peer : U32) (ip : Text) : AdmitResult × PreAuthAdmission :=
  let perIp := a.perIpCounts[ip]?.getD 0
  if 0 < a.perIpCap ∧ a.perIpCap ≤ perIp then (.ipLimitExhausted, a)
  else if 0 < a.globalBudget ∧ a.globalBudget ≤ a.inFlight then (.budgetExhausted, a)
  else (.ok, { a with
    perIpCounts := a.perIpCounts.insert ip (perIp + 1)
    ipByPendingPeer := a.ipByPendingPeer.insert peer ip
    inFlight := a.inFlight + 1 })

/-- `release_on_promotion` and `release_on_disconnect` do the same. -/
def release (a : PreAuthAdmission) (peer : U32) : PreAuthAdmission :=
  match a.ipByPendingPeer[peer]? with
  | none => a
  | some ip =>
    let perIpCounts := match a.perIpCounts[ip]? with
      | none => a.perIpCounts
      | some c => if c ≤ 1 then a.perIpCounts.erase ip else a.perIpCounts.insert ip (c - 1)
    { a with
      perIpCounts := perIpCounts
      ipByPendingPeer := a.ipByPendingPeer.erase peer
      inFlight := a.inFlight - 1 }

end PreAuthAdmission

/-! ### Token buckets -/

structure Bucket where
  tokens : ℕ
  lastRefillMs : U32

/-- A bucket that was never charged; a refill time of zero says so. -/
def Bucket.default : Bucket := ⟨0, 0⟩

structure BucketParams where
  burst : ℕ
  refillIntervalMs : ℕ

namespace BucketParams

def isEnabled (p : BucketParams) : Bool := decide (0 < p.refillIntervalMs ∧ 0 < p.burst)

/-- A first charge fills the bucket; later ones add the tokens earned since. -/
def refill (p : BucketParams) (b : Bucket) (now : U32) : Bucket :=
  if b.lastRefillMs = 0 then ⟨p.burst, if now = 0 then 1 else now⟩
  else
    let refills := (now - b.lastRefillMs).val / p.refillIntervalMs
    if refills = 0 then b
    else ⟨min (min (b.tokens + refills) 4294967295) p.burst,
      b.lastRefillMs + Fin.ofNat 4294967296 (refills * p.refillIntervalMs)⟩

/-- Whether a token was there, and the bucket after. -/
def charge (p : BucketParams) (b : Bucket) (now : U32) : Bool × Bucket :=
  let b := p.refill b now
  if b.tokens = 0 then (false, b) else (true, { b with tokens := b.tokens - 1 })

/-- `BucketParams::new`: at least a millisecond between refills. -/
def perSecond (rate burst : ℕ) : BucketParams :=
  ⟨min burst 255, if rate = 0 then 0 else max (1000 / rate) 1⟩

/-- `CorruptedPacketLimiter::new`. -/
def perMinute (rate burst : ℕ) : BucketParams :=
  ⟨min burst 255, if rate = 0 then 0 else 60000 / rate⟩

end BucketParams

structure CorruptedPacketLimiter where
  params : BucketParams
  peers : OrdMap U32 Bucket

namespace CorruptedPacketLimiter

def registerAndCheckExhausted (l : CorruptedPacketLimiter) (peer now : U32) :
    Bool × CorruptedPacketLimiter :=
  if !l.params.isEnabled then (false, l)
  else
    let r := l.params.charge (l.peers[peer]?.getD Bucket.default) now
    (!r.1, { l with peers := l.peers.insert peer r.2 })

def release (l : CorruptedPacketLimiter) (peer : U32) : CorruptedPacketLimiter :=
  { l with peers := l.peers.erase peer }

end CorruptedPacketLimiter

inductive Limited where
  | input
  | discrete
  deriving DecidableEq

structure PeerBuckets where
  input : Bucket
  discrete : Bucket

namespace PeerBuckets

def bucket (b : PeerBuckets) : Limited → Bucket
  | .input => b.input
  | .discrete => b.discrete

def setBucket (b : PeerBuckets) (kind : Limited) (bucket : Bucket) : PeerBuckets :=
  match kind with
  | .input => { b with input := bucket }
  | .discrete => { b with discrete := bucket }

end PeerBuckets

structure GameplayRateLimiter where
  input : BucketParams
  discrete : BucketParams
  peers : OrdMap U32 PeerBuckets

namespace GameplayRateLimiter

def buckets (l : GameplayRateLimiter) (peer : U32) : PeerBuckets :=
  l.peers[peer]?.getD ⟨Bucket.default, Bucket.default⟩

def params (l : GameplayRateLimiter) : Limited → BucketParams
  | .input => l.input
  | .discrete => l.discrete

def tryAccept (l : GameplayRateLimiter) (kind : Limited) (peer now : U32) :
    Bool × GameplayRateLimiter :=
  if !(l.params kind).isEnabled then (true, l)
  else
    let b := l.buckets peer
    let r := (l.params kind).charge (b.bucket kind) now
    (r.1, { l with peers := l.peers.insert peer (b.setBucket kind r.2) })

def tryAcceptInput (l : GameplayRateLimiter) (peer now : U32) : Bool × GameplayRateLimiter :=
  l.tryAccept .input peer now

def tryAcceptDiscrete (l : GameplayRateLimiter) (peer now : U32) : Bool × GameplayRateLimiter :=
  l.tryAccept .discrete peer now

def release (l : GameplayRateLimiter) (peer : U32) : GameplayRateLimiter :=
  { l with peers := l.peers.erase peer }

end GameplayRateLimiter

end Catalyrst.Pulse
