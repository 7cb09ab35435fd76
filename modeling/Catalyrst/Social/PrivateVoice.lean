import Mathlib
import Catalyrst.Lib.Instances
import Catalyrst.Lib.Locks
import Catalyrst.Lib.Machine

/-!
# Private calls

A pending call is a row that lapses when it is older than the expiration window; a sweep
removes lapsed rows later. Starting a call takes a lock for each participant, looks for a
row of either that has not lapsed, and inserts its own, which fails where a lapsed row of the same
caller or callee has not been swept. The row carries the time at which
the transaction began, which may be long before it got its locks.
-/

namespace Catalyrst.Social

open Catalyrst.Lib

abbrev Text := List Char

abbrev Address := Text

/-- A row of `private_voice_chats`; times are in microseconds. -/
structure PrivateVoiceChat where
  id : ℕ
  callerAddress : Address
  calleeAddress : Address
  createdAt : ℤ
  deriving DecidableEq

namespace PrivateVoiceChat

def participants (c : PrivateVoiceChat) : List Address := [c.callerAddress, c.calleeAddress]

/-- `caller_address = ANY($1) OR callee_address = ANY($1)`. -/
def involves (c : PrivateVoiceChat) (addresses : List Address) : Bool :=
  c.callerAddress ∈ addresses ∨ c.calleeAddress ∈ addresses

end PrivateVoiceChat

/-- `now() - expiration_ms * interval '1 millisecond'`. -/
def cutoff (expirationMs now : ℤ) : ℤ := now - expirationMs * 1000

def areUsersBeingCalledOrCallingSomeone (chats : List PrivateVoiceChat) (addresses : List Address)
    (expirationMs now : ℤ) : Bool :=
  chats.any fun c => cutoff expirationMs now ≤ c.createdAt ∧ c.involves addresses

def getPrivateVoiceChat (chats : List PrivateVoiceChat) (id : ℕ) : Option PrivateVoiceChat :=
  chats.find? fun c => c.id = id

def deletePrivateVoiceChat (chats : List PrivateVoiceChat) (id : ℕ) : List PrivateVoiceChat :=
  chats.filter fun c => c.id ≠ id

/-- The `INSERT` fails: ids, callers and callees are unique, lapsed rows included, and nobody calls
themselves. -/
def insertFails (chats : List PrivateVoiceChat) (chat : PrivateVoiceChat) : Bool :=
  decide (chat.callerAddress = chat.calleeAddress) ||
    chats.any fun c => decide (c.id = chat.id ∨ c.callerAddress = chat.callerAddress ∨
      c.calleeAddress = chat.calleeAddress)

/-- The rows that are removed, the oldest first, and those that stay. -/
def expirePrivateVoiceChats (chats : List PrivateVoiceChat) (expirationMs now : ℤ) (limit : ℕ) :
    List PrivateVoiceChat × List PrivateVoiceChat :=
  let lapsed := chats.filter fun c => c.createdAt < cutoff expirationMs now
  let ids := ((lapsed.mergeSort fun c d => c.createdAt ≤ d.createdAt).take limit).map
    PrivateVoiceChat.id
  (chats.filter fun c => c.id ∈ ids, chats.filter fun c => c.id ∉ ids)

/-! ### Starting a call, step by step -/

inductive StartStage where
  /-- To lock these participants. -/
  | locking (pending : List Address)
  /-- Both are free. -/
  | free
  | inserted (chat : PrivateVoiceChat)

/-- A transaction of `start_private_voice_chat_if_free`. -/
structure StartTx where
  caller : Address
  callee : Address
  /-- `now()`, fixed when the transaction began. -/
  now : ℤ
  stage : StartStage

def StartTx.participants (tx : StartTx) : List Address := [tx.caller, tx.callee]

structure CallStore where
  clock : ℤ
  /-- The committed rows. -/
  chats : List PrivateVoiceChat
  txs : ℕ → Option StartTx
  locks : Locks ℤ ℕ

inductive CallAction where
  | tick (elapsed : ℕ)
  | begin (tx : ℕ) (caller callee : Address)
  | lock (tx : ℕ)
  | check (tx : ℕ)
  | insert (tx : ℕ) (id : ℕ)
  | commit (tx : ℕ)
  | rollback (tx : ℕ)
  | delete (id : ℕ)
  | expire (limit : ℕ)

/-- `private-voice:<participant>`. -/
def lockName (participant : Address) : Text :=
  ['p', 'r', 'i', 'v', 'a', 't', 'e', '-', 'v', 'o', 'i', 'c', 'e', ':'] ++ participant

namespace CallStore

def new : CallStore := ⟨0, [], fun _ => none, fun _ => none⟩

/-- A transaction ends and lets go of its locks. -/
def finish (s : CallStore) (tx : ℕ) : CallStore :=
  { s with txs := Function.update s.txs tx none, locks := s.locks.releaseAll tx }

def setStage (s : CallStore) (i : ℕ) (tx : StartTx) (stage : StartStage) : CallStore :=
  { s with txs := Function.update s.txs i (some { tx with stage := stage }) }

variable (lower : Text → Text) (hashtext : Text → ℤ) (expirationMs : ℤ)

def step (s : CallStore) : CallAction → Option CallStore
  | .tick elapsed => some { s with clock := s.clock + elapsed }
  | .begin i caller callee =>
    match s.txs i with
    | some _ => none
    | none =>
      let caller := lower caller
      let callee := lower callee
      -- the locks are taken in sorted order
      let pending := if callee < caller then [callee, caller] else [caller, callee]
      some { s with txs := Function.update s.txs i (some ⟨caller, callee, s.clock, .locking pending⟩) }
  | .lock i =>
    (s.txs i).bind fun tx =>
      match tx.stage with
      | .locking (p :: pending) =>
        (s.locks.take (hashtext (lockName p)) i).map fun locks =>
          { s.setStage i tx (.locking pending) with locks := locks }
      | _ => none
  | .check i =>
    (s.txs i).bind fun tx =>
      match tx.stage with
      | .locking [] =>
        if areUsersBeingCalledOrCallingSomeone s.chats tx.participants expirationMs tx.now then
          some (s.finish i)
        else some (s.setStage i tx .free)
      | _ => none
  | .insert i id =>
    (s.txs i).bind fun tx =>
      match tx.stage with
      | .free =>
        let chat := ⟨id, tx.caller, tx.callee, tx.now⟩
        if insertFails s.chats chat then some (s.finish i)
        else some (s.setStage i tx (.inserted chat))
      | _ => none
  | .commit i =>
    (s.txs i).bind fun tx =>
      match tx.stage with
      -- an insert waits for the rows that other transactions have inserted and not yet committed
      | .inserted chat =>
        if insertFails s.chats chat then some (s.finish i)
        else some { s.finish i with chats := s.chats ++ [chat] }
      | _ => none
  | .rollback i => (s.txs i).map fun _ => s.finish i
  | .delete id => some { s with chats := deletePrivateVoiceChat s.chats id }
  | .expire limit =>
    some { s with chats := (expirePrivateVoiceChats s.chats expirationMs s.clock limit).2 }

end CallStore

end Catalyrst.Social
