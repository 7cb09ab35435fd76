import Mathlib
import Catalyrst.Lib.Instances
import Catalyrst.Lib.Machine

/-!
# Favourites and votes

Signed actions on places are logged once under the hash of their signature and then written
to the rows of the signer, whatever was logged; the counters of the place are recomputed from
the rows. Each of the functions runs several statements, which are steps of their own when
calls run concurrently.
-/

namespace Catalyrst.Places

abbrev Text := List Char

def toLowercase (s : Text) : Text := s.map Char.toLower

/-- The columns of `place` that are counted. -/
structure Counters where
  favorites : ℕ
  likes : ℕ
  dislikes : ℕ
  deriving DecidableEq

/-- A row of `signed_actions_places`. -/
structure SignedActionRow where
  signatureHash : ℕ
  signer : Text
  placeId : Text
  actionType : String
  signedAt : ℤ
  deriving DecidableEq

/-- Rows are keyed by the user and the entity. -/
structure Store where
  place : Text → Option Counters
  userFavorites : List (Text × Text)
  userLikes : List ((Text × Text) × Bool)
  signedActions : List SignedActionRow

/-! ### Statements -/

namespace Store

def insertFavorite (s : Store) (user entity : Text) : Store :=
  if (user, entity) ∈ s.userFavorites then s
  else { s with userFavorites := s.userFavorites ++ [(user, entity)] }

def deleteFavorite (s : Store) (user entity : Text) : Store :=
  let rows := s.userFavorites.filter fun (u, e) => ¬ (toLowercase u = user ∧ e = entity)
  { s with userFavorites := rows }

def writeFavorite (s : Store) (user entity : Text) (favorite : Bool) : Store :=
  if favorite then s.insertFavorite user entity else s.deleteFavorite user entity

def countFavorites (s : Store) (entity : Text) : ℕ := s.userFavorites.countP fun (_, e) => e = entity

/-- An update of a place that is not there changes nothing. -/
def storeFavorites (s : Store) (entity : Text) (count : ℕ) : Store :=
  let counters := (s.place entity).map fun c => { c with favorites := count }
  { s with place := Function.update s.place entity counters }

def upsertLike (s : Store) (user entity : Text) (value : Bool) : Store :=
  let rows :=
    if s.userLikes.any fun (key, _) => key = (user, entity)
    then s.userLikes.map fun (key, b) => if key = (user, entity) then (key, value) else (key, b)
    else s.userLikes ++ [((user, entity), value)]
  { s with userLikes := rows }

def deleteLike (s : Store) (user entity : Text) : Store :=
  let rows := s.userLikes.filter fun ((u, e), _) => ¬ (toLowercase u = user ∧ e = entity)
  { s with userLikes := rows }

def writeLike (s : Store) (user entity : Text) : Option Bool → Store
  | none => s.deleteLike user entity
  | some value => s.upsertLike user entity value

def countLikes (s : Store) (entity : Text) (value : Bool) : ℕ :=
  s.userLikes.countP fun ((_, e), b) => e = entity ∧ b = value

/-- The update that counts. -/
def storeLikes (s : Store) (entity : Text) : Store :=
  let counters := (s.place entity).map fun c =>
    { c with likes := s.countLikes entity true, dislikes := s.countLikes entity false }
  { s with place := Function.update s.place entity counters }

/-- Whether the row is new, and the store with it. -/
def recordSignedAction (s : Store) (row : SignedActionRow) : Bool × Store :=
  if s.signedActions.any fun r => r.signatureHash = row.signatureHash then (false, s)
  else (true, { s with signedActions := s.signedActions ++ [row] })

end Store

/-! ### Actions in sequence -/

inductive PlaceAction where
  | favorite (add : Bool)
  | vote (score : ℤ)
  deriving DecidableEq

structure SignedPlaceAction where
  action : PlaceAction
  signer : Text
  placeId : Text
  signedAt : ℤ
  signatureHash : ℕ
  deriving DecidableEq

inductive ApiError where
  | notFound (placeId : Text)
  deriving DecidableEq

/-- The count and whether it is a favourite now. -/
def setFavorite (s : Store) (entity user : Text) (favorite : Bool) : Store × ℕ × Bool :=
  let s := s.writeFavorite (toLowercase user) entity favorite
  let count := s.countFavorites entity
  (s.storeFavorites entity count, count, favorite)

/-- The counts and what the user's vote is now. -/
def setLike (s : Store) (entity user : Text) (like : Option Bool) : Store × ℕ × ℕ × Bool × Bool :=
  let s := s.writeLike (toLowercase user) entity like
  let s := s.storeLikes entity
  (s, s.countLikes entity true, s.countLikes entity false, like == some true, like == some false)

def likeRequest (score : ℤ) : Option Bool :=
  if 0 < score then some true else if score < 0 then some false else none

def applyFavorite (s : Store) (a : SignedPlaceAction) (add : Bool) :
    Except ApiError (Store × Bool × ℕ × Bool) :=
  if (s.place a.placeId).isNone then .error (.notFound a.placeId)
  else
    let actionType := if add then "favorite" else "unfavorite"
    let (fresh, s) :=
      s.recordSignedAction ⟨a.signatureHash, toLowercase a.signer, a.placeId, actionType, a.signedAt⟩
    let (s, count, favorite) := setFavorite s a.placeId a.signer add
    .ok (s, fresh, count, favorite)

def applyVote (s : Store) (a : SignedPlaceAction) (score : ℤ) :
    Except ApiError (Store × Bool × ℕ × ℕ × Bool × Bool) :=
  if (s.place a.placeId).isNone then .error (.notFound a.placeId)
  else
    let like := likeRequest score
    let actionType := match like with
      | some true => "vote_up"
      | some false => "vote_down"
      | none => "vote_withdraw"
    let (fresh, s) :=
      s.recordSignedAction ⟨a.signatureHash, toLowercase a.signer, a.placeId, actionType, a.signedAt⟩
    let (s, likes, dislikes, userLike, userDislike) := setLike s a.placeId a.signer like
    .ok (s, fresh, likes, dislikes, userLike, userDislike)

/-- The store after an action; one that is refused leaves it as it was. -/
def Store.apply (s : Store) (a : SignedPlaceAction) : Store :=
  match a.action with
  | .favorite add =>
    match applyFavorite s a add with
    | .ok (t, _) => t
    | .error _ => s
  | .vote score =>
    match applyVote s a score with
    | .ok (t, _) => t
    | .error _ => s

def Store.applyAll (s : Store) (actions : List SignedPlaceAction) : Store := actions.foldl Store.apply s

/-! ### Concurrent calls -/

inductive Call where
  | favorite (entity user : Text) (add : Bool)
  | like (entity user : Text) (request : Option Bool)
  deriving DecidableEq

/-- How far a call has come. -/
inductive Progress where
  | ready (call : Call)
  /-- The row is written. -/
  | wrote (call : Call)
  /-- The favourites of the entity are counted. -/
  | counted (entity : Text) (count : ℕ)
  | finished
  deriving DecidableEq

structure System where
  store : Store
  calls : List Progress

inductive Event where
  | start (call : Call)
  /-- The next statement of a call. -/
  | statement (index : ℕ)

/-- One statement of `set_favorite` or `set_like`. -/
def advance (s : Store) : Progress → Option (Store × Progress)
  | .ready (.favorite entity user add) =>
    some (s.writeFavorite (toLowercase user) entity add, .wrote (.favorite entity user add))
  | .wrote (.favorite entity _ _) => some (s, .counted entity (s.countFavorites entity))
  | .counted entity count => some (s.storeFavorites entity count, .finished)
  | .ready (.like entity user request) =>
    some (s.writeLike (toLowercase user) entity request, .wrote (.like entity user request))
  | .wrote (.like entity _ _) => some (s.storeLikes entity, .finished)
  | .finished => none

def System.step (y : System) : Event → Option System
  | .start call => some { y with calls := y.calls ++ [.ready call] }
  | .statement index => do
    let progress ← y.calls[index]?
    let (store, next) ← advance y.store progress
    return ⟨store, y.calls.set index next⟩

end Catalyrst.Places
