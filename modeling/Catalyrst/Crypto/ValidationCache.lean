import Catalyrst.Crypto.AuthChain

/-!
# The validation cache (`validation_cache.rs`)

Concurrent calls of `validate_signature` share a cache of answers and a map of the calls in
flight. A call that finds another one in flight waits on its `Notify`; the registering call
wakes those who wait when it is through. Between any two steps other calls may run, and a
call may be dropped while it awaits. A `Notify` is named by the call that made it.
-/

namespace Catalyrst.Crypto

structure CacheEnv where
  toLowercase : Text → Text
  sha256 : Bytes → Bytes

structure CacheConfig where
  successTtl : ℕ
  failureTtl : ℕ
  maxEntries : ℕ

structure ValidationArgs where
  contractAddress : Text
  hash : Bytes
  signature : Bytes
  deriving DecidableEq

structure CacheKey where
  contractAddress : Text
  hashDigest : Bytes
  sigDigest : Bytes
  deriving DecidableEq

def CacheKey.new (env : CacheEnv) (args : ValidationArgs) : CacheKey where
  contractAddress := env.toLowercase args.contractAddress
  hashDigest := env.sha256 args.hash
  sigDigest := env.sha256 args.signature

structure CacheEntry where
  result : Bool
  createdAt : ℕ
  ttl : ℕ
  deriving DecidableEq

def CacheEntry.isExpired (now : ℕ) (entry : CacheEntry) : Bool := entry.ttl < now - entry.createdAt

abbrev Cache := AList fun _ : CacheKey => CacheEntry

abbrev Answer := Except AuthError Bool

/-- Where a call stands: the step it takes next, or what it waits for. -/
inductive Phase where
  | cacheRead
  | lookup
  /-- The `Notify` was cloned out of the map; the wait has not begun. -/
  | found (owner : ℕ)
  | waiting (owner : ℕ)
  | woken
  | register
  /-- Awaits the inner validator. -/
  | calling
  | insert (result : Answer)
  | deregister (result : Answer)
  | notify (result : Answer)
  | returned (result : Answer)
  | dropped
  deriving DecidableEq

structure Validation where
  args : ValidationArgs
  phase : Phase
  deriving DecidableEq

/-- `answers` is not in the program: what the inner validator answered, and to which call. -/
structure ValidationCache where
  cache : Cache
  insertionOrder : List CacheKey
  inFlight : AList fun _ : CacheKey => ℕ
  calls : List Validation
  now : ℕ
  answers : List (ValidationArgs × Answer)

namespace ValidationCache

def new : ValidationCache where
  cache := ∅
  insertionOrder := []
  inFlight := ∅
  calls := []
  now := 0
  answers := []

/-! ### The cache -/

def cached (s : ValidationCache) (key : CacheKey) : Option Bool :=
  match s.cache.lookup key with
  | some entry => if entry.isExpired s.now then none else some entry.result
  | none => none

/-- The loop of `evict_oldest`. -/
def evictExpired (now : ℕ) : List CacheKey → Cache → List CacheKey × Cache
  | [], map => ([], map)
  | key :: order, map =>
    match map.lookup key with
    | some entry =>
      if entry.isExpired now then evictExpired now order (map.erase key) else (key :: order, map)
    | none => evictExpired now order map

def evictOldest (config : CacheConfig) (s : ValidationCache) : ValidationCache :=
  let (order, map) := evictExpired s.now s.insertionOrder s.cache
  match order with
  | key :: rest =>
    if config.maxEntries ≤ map.entries.length then
      { s with cache := map.erase key, insertionOrder := rest }
    else { s with cache := map, insertionOrder := order }
  | [] => { s with cache := map, insertionOrder := order }

def insert (config : CacheConfig) (s : ValidationCache) (key : CacheKey) (result : Bool) :
    ValidationCache :=
  let s := if config.maxEntries ≤ s.cache.entries.length then s.evictOldest config else s
  let ttl := if result then config.successTtl else config.failureTtl
  { s with
    cache := s.cache.insert key ⟨result, s.now, ttl⟩
    insertionOrder := s.insertionOrder ++ [key] }

/-- Only `Ok(true)` is worth a place in the cache. -/
def keep (config : CacheConfig) (s : ValidationCache) (key : CacheKey) : Answer → ValidationCache
  | .ok true => s.insert config key true
  | .ok false => s
  | .error _ => s

/-! ### Calls and their steps -/

inductive Step where
  | spawn (args : ValidationArgs)
  | advance (i : ℕ)
  | inner (i : ℕ) (answer : Answer)
  | drop (i : ℕ)
  | clear
  | elapse (duration : ℕ)

def moveTo (s : ValidationCache) (i : ℕ) (call : Validation) (phase : Phase) : ValidationCache :=
  { s with calls := s.calls.set i { call with phase := phase } }

/-- `notify_waiters` of the `Notify` that the call `i` made. -/
def notifyWaiters (s : ValidationCache) (i : ℕ) : ValidationCache :=
  { s with calls := s.calls.map fun c =>
      if c.phase = .waiting i then { c with phase := .woken } else c }

section Steps

variable (env : CacheEnv) (config : CacheConfig)

/-- One step of `validate_signature`; `none` where the call awaits or is over. -/
def validateSignature (s : ValidationCache) (i : ℕ) (call : Validation) : Option ValidationCache :=
  let key := CacheKey.new env call.args
  match call.phase with
  | .cacheRead =>
    match s.cached key with
    | some result => some (s.moveTo i call (.returned (.ok result)))
    | none => some (s.moveTo i call .lookup)
  | .lookup =>
    match s.inFlight.lookup key with
    | some owner => some (s.moveTo i call (.found owner))
    | none => some (s.moveTo i call .register)
  | .found owner => some (s.moveTo i call (.waiting owner))
  | .waiting _ => none
  | .woken =>
    match s.cached key with
    | some result => some (s.moveTo i call (.returned (.ok result)))
    | none => some (s.moveTo i call .register)
  | .register => some ({ s with inFlight := s.inFlight.insert key i }.moveTo i call .calling)
  | .calling => none
  | .insert result => some ((s.keep config key result).moveTo i call (.deregister result))
  | .deregister result =>
    some ({ s with inFlight := s.inFlight.erase key }.moveTo i call (.notify result))
  | .notify result => some ((s.notifyWaiters i).moveTo i call (.returned result))
  | .returned _ => none
  | .dropped => none

def step (s : ValidationCache) : Step → Option ValidationCache
  | .spawn args => some { s with calls := s.calls ++ [⟨args, .cacheRead⟩] }
  | .advance i => s.calls[i]?.bind fun call => validateSignature env config s i call
  | .inner i answer => s.calls[i]?.bind fun call =>
    if call.phase = .calling then
      some ({ s with answers := s.answers ++ [(call.args, answer)] }.moveTo i call (.insert answer))
    else none
  -- a future is dropped at one of its awaits
  | .drop i => s.calls[i]?.bind fun call =>
    match call.phase with
    | .waiting _ | .woken | .calling => some (s.moveTo i call .dropped)
    | _ => none
  | .clear => some { s with cache := ∅, insertionOrder := [], inFlight := ∅ }
  | .elapse duration => some { s with now := s.now + duration }

end Steps

end ValidationCache

end Catalyrst.Crypto
