import Mathlib
import Catalyrst.Lib.Instances
import Catalyrst.Lib.Machine

/-!
# Friendships and blocks

A pair of users has at most one friendship; what they do is appended to its history, and a
flag says whether it is active. A call looks at the blocks and at the last action first, and
writes in a transaction of its own, so other calls may come between its steps. Addresses are
in normal form, and times are those at which transactions began.
-/

namespace Catalyrst.Social.Friends

abbrev Address := List Char

inductive Action where
  | request
  | accept
  | cancel
  | reject
  | delete
  | block
  deriving DecidableEq

def Action.impliesActive (a : Action) : Bool := a = .accept

structure Friendship where
  id : ℕ
  addressRequester : Address
  addressRequested : Address
  isActive : Bool
  deriving DecidableEq

/-- Either user may have made the first request. -/
def Friendship.between (f : Friendship) (a b : Address) : Bool :=
  (f.addressRequester = a ∧ f.addressRequested = b) ∨ (f.addressRequester = b ∧ f.addressRequested = a)

/-- A row of `friendship_actions`. -/
structure ActionRow where
  friendshipId : ℕ
  action : Action
  actingUser : Address
  timestamp : ℤ
  deriving DecidableEq

/-- `blocks` holds the blocker and the blocked. -/
structure Store where
  friendships : List Friendship
  actions : List ActionRow
  blocks : List (Address × Address)
  deriving DecidableEq

/-- A friendship without actions has the defaults of both columns. -/
structure LastAction where
  friendshipId : ℕ
  action : Option Action
  actingUser : Address
  isActive : Bool
  deriving DecidableEq

inductive DbError where
  /-- After a violated constraint every further statement of the transaction fails. -/
  | transactionAborted
  deriving DecidableEq

/-! ### Statements -/

/-- `ORDER BY timestamp DESC LIMIT 1`. -/
def latest : List ActionRow → Option ActionRow
  | [] => none
  | r :: rows =>
    match latest rows with
    | none => some r
    | some l => if l.timestamp < r.timestamp then some r else some l

namespace Store

def historyOf (s : Store) (id : ℕ) : List ActionRow := s.actions.filter fun r => r.friendshipId = id

def lastFriendshipAction (s : Store) (a b : Address) : Option LastAction :=
  (s.friendships.find? fun f => f.between a b).map fun f =>
    let last := latest (s.historyOf f.id)
    ⟨f.id, last.map ActionRow.action, (last.map ActionRow.actingUser).getD [], f.isActive⟩

def isFriendshipBlocked (s : Store) (a b : Address) : Bool := (a, b) ∈ s.blocks ∨ (b, a) ∈ s.blocks

def blockUser (s : Store) (blocker blocked : Address) : Store :=
  if (blocker, blocked) ∈ s.blocks then s else { s with blocks := s.blocks ++ [(blocker, blocked)] }

def unblockUser (s : Store) (blocker blocked : Address) : Store :=
  { s with blocks := s.blocks.filter fun row => row ≠ (blocker, blocked) }

def setActive (s : Store) (id : ℕ) (isActive : Bool) : Store :=
  let rows := s.friendships.map fun f => if f.id = id then { f with isActive := isActive } else f
  { s with friendships := rows }

def record (s : Store) (row : ActionRow) : Store := { s with actions := s.actions ++ [row] }

/-- The transaction. `fresh` is the identifier it draws and `now` the time at which it began.
The unordered pair is unique; the lookup after a violation runs in the same transaction. -/
def applyFriendshipAction (s : Store) (actingUser other : Address) (action : Action)
    (isActive : Bool) (existing : Option ℕ) (fresh : ℕ) (now : ℤ) : Except DbError (Store × ℕ) :=
  match existing with
  | some id => .ok ((s.setActive id isActive).record ⟨id, action, actingUser, now⟩, id)
  | none =>
    if s.friendships.any fun f => f.id = fresh ∨ f.between actingUser other then
      .error .transactionAborted
    else
      let rows := s.friendships ++ [⟨fresh, actingUser, other, isActive⟩]
      let t : Store := { s with friendships := rows }
      .ok (t.record ⟨fresh, action, actingUser, now⟩, fresh)

end Store

/-! ### Transitions -/

def transitionValid (from_ : Option Action) : Action → Bool
  | .request => from_ ∈ [some .cancel, some .reject, some .delete, none]
  | .accept => from_ ∈ [some Action.request]
  | .cancel => from_ ∈ [some Action.request]
  | .reject => from_ ∈ [some Action.request]
  | .delete => from_ ∈ [some Action.accept, some .block]
  | .block =>
    from_ ∈ [some .request, some .cancel, some .reject, some .delete, some .accept, none]

def userActionValid (actingUser : Address) (newAction : Action) (newUser : Address)
    (last : Option LastAction) : Bool :=
  if ¬ transitionValid (last.bind LastAction.action) newAction then false
  else
    match last with
    | none => ¬ (newAction = .request ∧ actingUser = newUser)
    | some last =>
      if last.actingUser = actingUser then ¬ (newAction = .accept ∨ newAction = .reject)
      else newAction ≠ .cancel

/-! ### Calls -/

/-- What a user can ask for in `upsert_friendship`. -/
inductive Upsert where
  | request
  | accept
  | reject
  | delete
  | cancel
  deriving DecidableEq

def Upsert.action : Upsert → Action
  | .request => .request
  | .accept => .accept
  | .reject => .reject
  | .delete => .delete
  | .cancel => .cancel

inductive Call where
  | upsertFriendship (me other : Address) (upsert : Upsert)
  | blockUser (me other : Address)
  | unblockUser (me other : Address)
  deriving DecidableEq

inductive Progress where
  | ready (call : Call)
  /-- No block was found. -/
  | unblocked (me other : Address) (upsert : Upsert)
  /-- The block is inserted. -/
  | blocking (me other : Address)
  /-- The block is deleted. -/
  | unblocking (me other : Address)
  /-- The friendship is read; what is left is the transaction. -/
  | applying (me other : Address) (action : Action) (existing : Option ℕ)
  | finished
  deriving DecidableEq

structure System where
  store : Store
  calls : List Progress
  deriving DecidableEq

inductive Event where
  | start (call : Call)
  /-- The next step of a call; the last two are what its transaction would draw and when it
  began. -/
  | statement (index fresh : ℕ) (now : ℤ)

/-- The last action decides whether there is a friendship to write to. -/
def applyToExisting (s : Store) (me other : Address) (action : Action) : Progress :=
  match s.lastFriendshipAction me other with
  | some last => .applying me other action (some last.friendshipId)
  | none => .finished

def advance (s : Store) (fresh : ℕ) (now : ℤ) : Progress → Option (Store × Progress)
  | .ready (.upsertFriendship me other upsert) =>
    if other = [] ∨ other = me then some (s, .finished)
    else if s.isFriendshipBlocked me other then some (s, .finished)
    else some (s, .unblocked me other upsert)
  | .unblocked me other upsert =>
    let last := s.lastFriendshipAction me other
    if userActionValid me upsert.action other last then
      some (s, .applying me other upsert.action (last.map LastAction.friendshipId))
    else some (s, .finished)
  | .ready (.blockUser me other) =>
    if other = me then some (s, .finished)
    else some (s.blockUser me other, .blocking me other)
  | .blocking me other => some (s, applyToExisting s me other .block)
  | .ready (.unblockUser me other) => some (s.unblockUser me other, .unblocking me other)
  | .unblocking me other => some (s, applyToExisting s me other .delete)
  | .applying me other action existing =>
    match s.applyFriendshipAction me other action action.impliesActive existing fresh now with
    | .ok (t, _) => some (t, .finished)
    | .error _ => some (s, .finished)
  | .finished => none

def System.step (y : System) : Event → Option System
  | .start call => some { y with calls := y.calls ++ [.ready call] }
  | .statement index fresh now => do
    let progress ← y.calls[index]?
    let (store, next) ← advance y.store fresh now progress
    return ⟨store, y.calls.set index next⟩

end Catalyrst.Social.Friends
