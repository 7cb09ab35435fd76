import Mathlib
import Catalyrst.Crypto.AuthChain
import Catalyrst.Lib.Texts

/-!
# Federated messages

The community and place messages that the gossip consumers accept, the bytes each of them is
encoded to, and the bytes that a signature is made over. SHA-256 is a parameter.
-/

namespace Catalyrst.Fed

open Catalyrst.Crypto Catalyrst.Lib.Texts

/-- The messages of the communities first, then those of the places. -/
inductive PrimaryType where
  | communityCreate
  | communityUpdate
  | communityDelete
  | communityJoin
  | communityLeave
  | communityRole
  | communityBan
  | communityUnban
  | communityPlacesAdd
  | communityPlaceRemove
  | communityPost
  | communityPostDelete
  | communityPostLike
  | communityPostUnlike
  | communityRequestStatusUpdate
  | placeFavorite
  | placeVote
  | placeReport
  deriving DecidableEq

def PrimaryType.text : PrimaryType → Text
  | .communityCreate =>
    ['C', 'o', 'm', 'm', 'u', 'n', 'i', 't', 'y', 'C', 'r', 'e', 'a', 't', 'e']
  | .communityUpdate =>
    ['C', 'o', 'm', 'm', 'u', 'n', 'i', 't', 'y', 'U', 'p', 'd', 'a', 't', 'e']
  | .communityDelete =>
    ['C', 'o', 'm', 'm', 'u', 'n', 'i', 't', 'y', 'D', 'e', 'l', 'e', 't', 'e']
  | .communityJoin =>
    ['C', 'o', 'm', 'm', 'u', 'n', 'i', 't', 'y', 'J', 'o', 'i', 'n']
  | .communityLeave =>
    ['C', 'o', 'm', 'm', 'u', 'n', 'i', 't', 'y', 'L', 'e', 'a', 'v', 'e']
  | .communityRole =>
    ['C', 'o', 'm', 'm', 'u', 'n', 'i', 't', 'y', 'R', 'o', 'l', 'e']
  | .communityBan =>
    ['C', 'o', 'm', 'm', 'u', 'n', 'i', 't', 'y', 'B', 'a', 'n']
  | .communityUnban =>
    ['C', 'o', 'm', 'm', 'u', 'n', 'i', 't', 'y', 'U', 'n', 'b', 'a', 'n']
  | .communityPlacesAdd =>
    ['C', 'o', 'm', 'm', 'u', 'n', 'i', 't', 'y', 'P', 'l', 'a', 'c', 'e', 's', 'A', 'd',
     'd']
  | .communityPlaceRemove =>
    ['C', 'o', 'm', 'm', 'u', 'n', 'i', 't', 'y', 'P', 'l', 'a', 'c', 'e', 'R', 'e', 'm',
     'o', 'v', 'e']
  | .communityPost =>
    ['C', 'o', 'm', 'm', 'u', 'n', 'i', 't', 'y', 'P', 'o', 's', 't']
  | .communityPostDelete =>
    ['C', 'o', 'm', 'm', 'u', 'n', 'i', 't', 'y', 'P', 'o', 's', 't', 'D', 'e', 'l', 'e',
     't', 'e']
  | .communityPostLike =>
    ['C', 'o', 'm', 'm', 'u', 'n', 'i', 't', 'y', 'P', 'o', 's', 't', 'L', 'i', 'k', 'e']
  | .communityPostUnlike =>
    ['C', 'o', 'm', 'm', 'u', 'n', 'i', 't', 'y', 'P', 'o', 's', 't', 'U', 'n', 'l', 'i',
     'k', 'e']
  | .communityRequestStatusUpdate =>
    ['C', 'o', 'm', 'm', 'u', 'n', 'i', 't', 'y', 'R', 'e', 'q', 'u', 'e', 's', 't', 'S',
     't', 'a', 't', 'u', 's', 'U', 'p', 'd', 'a', 't', 'e']
  | .placeFavorite =>
    ['P', 'l', 'a', 'c', 'e', 'F', 'a', 'v', 'o', 'r', 'i', 't', 'e']
  | .placeVote =>
    ['P', 'l', 'a', 'c', 'e', 'V', 'o', 't', 'e']
  | .placeReport =>
    ['P', 'l', 'a', 'c', 'e', 'R', 'e', 'p', 'o', 'r', 't']

inductive PlaceFavoriteAction where
  | add
  | remove
  deriving DecidableEq

def PlaceFavoriteAction.byte : PlaceFavoriteAction → UInt8
  | .add => 1
  | .remove => 0

inductive PlaceReportReason where
  | spam
  | harassment
  | nsfw
  | other
  deriving DecidableEq

def PlaceReportReason.byte : PlaceReportReason → UInt8
  | .spam => 1
  | .harassment => 2
  | .nsfw => 3
  | .other => 4

inductive Message where
  | communityCreate (name description : Text) (isPrivate unlisted : Bool) (flags : List Text)
  | communityUpdate (communityId : Text) (name description : Option Text)
    (isPrivate unlisted : Option Bool)
  | communityDelete (communityId : Text)
  | communityJoin (communityId : Text)
  | communityLeave (communityId member : Text)
  | communityRole (communityId target role : Text)
  | communityBan (communityId target : Text) (reason : Option Text)
  | communityUnban (communityId target : Text)
  | communityPlacesAdd (communityId : Text) (placeIds : List Text)
  | communityPlaceRemove (communityId placeId : Text)
  | communityPost (communityId contentHash : Text)
  | communityPostDelete (communityId postId : Text)
  | communityPostLike (communityId postId : Text)
  | communityPostUnlike (communityId postId : Text)
  | communityRequestStatusUpdate (communityId requestId status : Text)
  | placeFavorite (placeId : Text) (action : PlaceFavoriteAction) (signedAt : Int64)
  | placeVote (placeId : Text) (score : Int8) (signedAt : Int64)
  | placeReport (placeId : Text) (reason : PlaceReportReason) (signedAt : Int64)

def Message.primaryType : Message → PrimaryType
  | .communityCreate .. => .communityCreate
  | .communityUpdate .. => .communityUpdate
  | .communityDelete .. => .communityDelete
  | .communityJoin .. => .communityJoin
  | .communityLeave .. => .communityLeave
  | .communityRole .. => .communityRole
  | .communityBan .. => .communityBan
  | .communityUnban .. => .communityUnban
  | .communityPlacesAdd .. => .communityPlacesAdd
  | .communityPlaceRemove .. => .communityPlaceRemove
  | .communityPost .. => .communityPost
  | .communityPostDelete .. => .communityPostDelete
  | .communityPostLike .. => .communityPostLike
  | .communityPostUnlike .. => .communityPostUnlike
  | .communityRequestStatusUpdate .. => .communityRequestStatusUpdate
  | .placeFavorite .. => .placeFavorite
  | .placeVote .. => .placeVote
  | .placeReport .. => .placeReport

/-! ### Encoding -/

def ec (s : Text) : Bytes := utf8 s ++ [0]

/-- The type and texts, each followed by a zero byte. -/
def encodeTexts (type : PrimaryType) (fields : List Text) : Bytes := (type.text :: fields).flatMap ec

def flagByte (b : Bool) : UInt8 := if b then 1 else 0

/-- `to_be_bytes` of a 64-bit word. -/
def toBeBytes (x : BitVec 64) : Bytes :=
  (List.range 8).map fun i => UInt8.ofBitVec (x.extractLsb' (8 * (7 - i)) 8)

theorem toBeBytes_length (x : BitVec 64) : (toBeBytes x).length = 8 := by
  simp [toBeBytes]

theorem toBeBytes_inj {x y : BitVec 64} (h : toBeBytes x = toBeBytes y) : x = y := by
  refine BitVec.eq_of_getLsbD_eq fun i hi => ?_
  have hbyte : x.extractLsb' (8 * (i / 8)) 8 = y.extractLsb' (8 * (i / 8)) 8 := by
    have hget := congrArg (fun l => l[7 - i / 8]?) h
    have hlt : 7 - i / 8 < 8 := by omega
    have hback : 7 - (7 - i / 8) = i / 8 := by omega
    simp only [toBeBytes, List.getElem?_map, List.getElem?_range hlt, Option.map_some,
      Option.some.injEq, UInt8.ofBitVec.injEq, hback] at hget
    exact hget
  have hbit := congrArg (fun b => b.getLsbD (i % 8)) hbyte
  have hsum : 8 * (i / 8) + i % 8 = i := Nat.div_add_mod i 8
  simpa [BitVec.getLsbD_extractLsb', hsum, Nat.mod_lt] using hbit

/-- The type, then the place without a zero byte, one byte and the time. -/
def encodePlace (type : PrimaryType) (placeId : Text) (byte : UInt8) (signedAt : Int64) : Bytes :=
  ec type.text ++ utf8 placeId ++ [byte] ++ toBeBytes signedAt.toBitVec

def Message.encodeStruct : Message → Bytes
  | .communityCreate name description isPrivate unlisted flags =>
    encodeTexts .communityCreate [name, description] ++ [flagByte isPrivate, flagByte unlisted] ++
      flags.flatMap ec
  | .communityUpdate communityId name description isPrivate unlisted =>
    encodeTexts .communityUpdate [communityId, name.getD [], description.getD []] ++
      [flagByte (isPrivate.getD false), flagByte (unlisted.getD false)]
  | .communityDelete communityId => encodeTexts .communityDelete [communityId]
  | .communityJoin communityId => encodeTexts .communityJoin [communityId]
  | .communityLeave communityId member => encodeTexts .communityLeave [communityId, member]
  | .communityRole communityId target role => encodeTexts .communityRole [communityId, target, role]
  | .communityBan communityId target reason =>
    encodeTexts .communityBan [communityId, target, reason.getD []]
  | .communityUnban communityId target => encodeTexts .communityUnban [communityId, target]
  | .communityPlacesAdd communityId placeIds =>
    encodeTexts .communityPlacesAdd (communityId :: placeIds)
  | .communityPlaceRemove communityId placeId =>
    encodeTexts .communityPlaceRemove [communityId, placeId]
  | .communityPost communityId contentHash => encodeTexts .communityPost [communityId, contentHash]
  | .communityPostDelete communityId postId => encodeTexts .communityPostDelete [communityId, postId]
  | .communityPostLike communityId postId => encodeTexts .communityPostLike [communityId, postId]
  | .communityPostUnlike communityId postId => encodeTexts .communityPostUnlike [communityId, postId]
  | .communityRequestStatusUpdate communityId requestId status =>
    encodeTexts .communityRequestStatusUpdate [communityId, requestId, status]
  | .placeFavorite placeId action signedAt =>
    encodePlace .placeFavorite placeId action.byte signedAt
  | .placeVote placeId score signedAt => encodePlace .placeVote placeId score.toUInt8 signedAt
  | .placeReport placeId reason signedAt => encodePlace .placeReport placeId reason.byte signedAt

/-! ### Signed actions -/

structure Eip712Domain where
  name : Text
  version : Text
  chainId : UInt64
  verifyingContract : Text

structure Signed where
  domain : Eip712Domain
  message : Message
  nonce : Vector UInt8 16
  signedAt : Int64
  signature : Text

abbrev Digest := Bytes → Vector UInt8 32

def domainSeparator (sha256 : Digest) (d : Eip712Domain) : Bytes :=
  (sha256 (utf8 d.name ++ utf8 d.version ++ toBeBytes d.chainId.toBitVec ++
    utf8 d.verifyingContract)).toList

/-- What is fed to the hash. -/
def Signed.hashInput (sha256 : Digest) (a : Signed) : Bytes :=
  [0x19, 0x01] ++ domainSeparator sha256 a.domain ++ a.message.encodeStruct ++ a.nonce.toList ++
    toBeBytes a.signedAt.toBitVec

def Signed.hash (sha256 : Digest) (a : Signed) : Vector UInt8 32 := sha256 (a.hashInput sha256)

/-- The names of the domains that the two consumers are set up with. -/
structure Consumers where
  communities : Text
  places : Text

def Consumers.name (c : Consumers) : PrimaryType → Text
  | .placeFavorite | .placeVote | .placeReport => c.places
  | _ => c.communities

/-- The domain check of the consumer that takes the message. -/
def Consumers.checkDomain (c : Consumers) (a : Signed) : Bool :=
  eqIgnoreAsciiCase a.domain.name (c.name a.message.primaryType)

end Catalyrst.Fed
