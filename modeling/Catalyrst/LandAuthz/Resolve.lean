import Catalyrst.LandAuthz.Rights

/-!
# Who may deploy on a parcel

The marketplace index knows parcels, estates and their owners, the rights tables know who else may
act. A deploy, the routes that report rights and the list of parcels one may update all read these
tables, each by a query of its own.
-/

namespace Catalyrst.LandAuthz

open Catalyrst.Lib

def lower (s : Text) : Text := s.map Char.toLower

/-- The text before the first dash of `<address>-<network>`. -/
def ownerOf (accountId : Text) : Text := accountId.takeWhile fun c => c ≠ '-'

structure Parcel where
  tokenId : ℕ
  x : ℤ
  y : ℤ
  ownerId : Option Text
  estateId : Option Text
deriving DecidableEq, Repr

structure Estate where
  tokenId : ℕ
  ownerId : Option Text
deriving DecidableEq, Repr

/-- The parcels and estates of the marketplace index: a parcel is indexed once, with the
coordinates in its token. -/
structure Squid where
  parcel : List Parcel
  estate : OrdMap Text Estate
  distinct : (parcel.map Parcel.tokenId).Nodup
  coordinates : ∀ p ∈ parcel,
    p.tokenId < 2 ^ 256 ∧ tokenX p.tokenId = some p.x ∧ tokenY p.tokenId = some p.y

structure Store where
  squid : Squid
  db : Db
  landRegistry : Text
  estateRegistry : Text

structure ParcelSubject where
  owner : Text
  registry : Text
  operator : Option Text
  updateOperator : Option Text
  belongsToEstate : Bool
deriving DecidableEq, Repr

structure UpdatableParcel where
  tokenId : ℕ
  x : ℤ
  y : ℤ
  owner : Text
  viaEstate : Bool
deriving DecidableEq, Repr

structure LandOperators where
  operator : Option Text
  updateOperator : Option Text
  updateManagers : List Text
  approvedForAll : List Text
deriving DecidableEq, Repr

structure ParcelPermissionFlags where
  owner : Bool
  operator : Bool
  updateOperator : Bool
  updateManager : Bool
  approvedForAll : Bool
deriving DecidableEq, Repr

inductive LandRightLeg where
  | owner
  | operator
  | updateOperator
  | updateManager
  | approvedForAll
deriving DecidableEq, Repr

def DEPLOY_GRANTING_LEGS : List LandRightLeg :=
  [.owner, .operator, .updateOperator, .updateManager, .approvedForAll]

namespace ParcelPermissionFlags

def none : ParcelPermissionFlags := ⟨false, false, false, false, false⟩

def leg (f : ParcelPermissionFlags) : LandRightLeg → Bool
  | .owner => f.owner
  | .operator => f.operator
  | .updateOperator => f.updateOperator
  | .updateManager => f.updateManager
  | .approvedForAll => f.approvedForAll

def grantsDeploy (f : ParcelPermissionFlags) : Bool := DEPLOY_GRANTING_LEGS.any f.leg

theorem grantsDeploy_eq (f : ParcelPermissionFlags) :
    f.grantsDeploy =
      (f.owner || f.operator || f.updateOperator || f.updateManager || f.approvedForAll) := by
  simp [grantsDeploy, DEPLOY_GRANTING_LEGS, leg, Bool.or_assoc]

end ParcelPermissionFlags

/-! ### Reading the rights tables -/

def grantee (key : AccountKey) : Text := (ofLex (ofLex (ofLex key).2).2).1

namespace Store

variable (s : Store)

def estateOf (p : Parcel) : Option Estate := p.estateId.bind fun id => s.squid.estate[id]?

def parcelRight (p : Parcel) : Option TokenRight :=
  s.db.tokenRight[(toLex (s.landRegistry, p.tokenId) : TokenKey)]?

def estateRight (p : Parcel) : Option TokenRight :=
  (s.estateOf p).bind fun e => s.db.tokenRight[(toLex (s.estateRegistry, e.tokenId) : TokenKey)]?

def subjectOf (p : Parcel) : ParcelSubject :=
  let parcelOwner := p.ownerId.map ownerOf
  let estateOwner := ((s.estateOf p).bind Estate.ownerId).map ownerOf
  let operator :=
    if p.estateId = none then (s.parcelRight p).bind TokenRight.operator
    else (s.estateRight p).bind TokenRight.operator
  let updateOperator :=
    ((s.parcelRight p).bind TokenRight.updateOperator).or
      (if p.estateId = none then none else (s.estateRight p).bind TokenRight.updateOperator)
  { owner := lower ((if p.estateId = none then parcelOwner else estateOwner.or parcelOwner).getD [])
    registry := if p.estateId = none then s.landRegistry else s.estateRegistry
    operator := operator.map lower
    updateOperator := updateOperator.map lower
    belongsToEstate := decide (p.estateId ≠ none) }

def parcelSubject (x y : ℤ) : Option ParcelSubject :=
  (s.squid.parcel.find? fun p => decide (p.x = x ∧ p.y = y)).map s.subjectOf

def accountGrants (registry owner kind : Text) : List Text :=
  (s.db.accountRight.toList.filter fun r =>
    decide (r.1 = accountKeyOf registry (lower owner) (grantee r.1) kind) && r.2.isApproved).map
      fun r => grantee r.1

def operators (x y : ℤ) : Option LandOperators :=
  (s.parcelSubject x y).map fun subject => {
    operator := subject.operator
    updateOperator := subject.updateOperator
    updateManagers := s.accountGrants subject.registry subject.owner Kind.updateManager.text
    approvedForAll := s.accountGrants subject.registry subject.owner Kind.approvedForAll.text }

/-- The parcels whose own update operator is the address. -/
def parcelsWithUpdateOperator (address : Text) : List UpdatableParcel :=
  (s.db.tokenRight.toList.filter fun r =>
    decide ((ofLex r.1).1 = s.landRegistry ∧ r.2.updateOperator = some (lower address))).flatMap
      fun r => (s.squid.parcel.filter fun p => decide (p.tokenId = (ofLex r.1).2)).map fun p => {
        tokenId := (ofLex r.1).2
        x := r.2.x
        y := r.2.y
        owner := lower ((p.ownerId.map ownerOf).getD [])
        viaEstate := false }

/-- The parcels of the estates whose update operator is the address, but for those with an update
operator of their own. -/
def parcelsOfEstates (address : Text) : List UpdatableParcel :=
  (s.db.tokenRight.toList.filter fun r =>
    decide ((ofLex r.1).1 = s.estateRegistry ∧ r.2.updateOperator = some (lower address))).flatMap
      fun r => (s.squid.estate.toList.filter fun e => decide (e.2.tokenId = (ofLex r.1).2)).flatMap
        fun e => (s.squid.parcel.filter fun p =>
          decide (p.estateId = some e.1 ∧ (s.parcelRight p).bind TokenRight.updateOperator = none)).map
            fun p => {
              tokenId := p.tokenId
              x := p.x
              y := p.y
              owner := lower ((e.2.ownerId.map ownerOf).getD [])
              viaEstate := true }

/-- `UNION` keeps one of several equal rows. -/
def parcelsUpdatableBy (address : Text) : List UpdatableParcel :=
  (s.parcelsWithUpdateOperator address ++ s.parcelsOfEstates address).dedup.mergeSort
    fun u v => decide (toLex (u.x, u.y) ≤ toLex (v.x, v.y))

end Store

/-! ### Permissions -/

def operatorFlags (address : Text) (operators : LandOperators) : ParcelPermissionFlags where
  owner := false
  operator := operators.operator.any fun o => decide (lower address = lower o)
  updateOperator := operators.updateOperator.any fun o => decide (lower address = lower o)
  updateManager := operators.updateManagers.any fun a => decide (lower a = lower address)
  approvedForAll := operators.approvedForAll.any fun a => decide (lower a = lower address)

/-- The rights at a parcel, as an index of them answers; an answer may fail. -/
abbrev Resolver := ℤ → ℤ → Except Text (Option LandOperators)

def operatorLegs (resolver : Option Resolver) (address : Text) (x y : ℤ) : ParcelPermissionFlags :=
  match resolver with
  | none => .none
  | some resolve =>
    match resolve x y with
    | .ok (some operators) => operatorFlags address operators
    | .ok none => .none
    | .error _ => .none

structure ParcelOwnership where
  parcelOwner : Option Text
  estateOwner : Option Text
deriving DecidableEq, Repr

def addressMatchesAccountId (address accountId : Text) : Bool :=
  decide (lower (ownerOf accountId) = lower address)

def ParcelOwnership.ownedBy (o : ParcelOwnership) (address : Text) : Bool :=
  o.parcelOwner.any (addressMatchesAccountId address) ||
    o.estateOwner.any (addressMatchesAccountId address)

def ownershipOf (squid : Squid) (p : Parcel) : ParcelOwnership :=
  ⟨p.ownerId, (p.estateId.bind fun id => squid.estate[id]?).bind Estate.ownerId⟩

def parcelOwnership (squid : Squid) (x y : ℤ) : Option ParcelOwnership :=
  (squid.parcel.find? fun p => decide (p.x = x ∧ p.y = y)).map (ownershipOf squid)

/-- One query for all parcels: the rows of the index at the coordinates asked for. -/
def ownershipFor (squid : Squid) (parcels : List (ℤ × ℤ)) : OrdMap (ℤ ×ₗ ℤ) ParcelOwnership :=
  OrdMap.insertAll ∅ (parcels.flatMap fun t =>
    (squid.parcel.filter fun p => decide (p.x = t.1 ∧ p.y = t.2)).map fun p =>
      (toLex t, ownershipOf squid p))

def landAccessBatch (squid : Squid) (resolver : Option Resolver) (address : Text)
    (parcels : List (ℤ × ℤ)) : List Bool :=
  let owners := ownershipFor squid parcels
  parcels.map fun t =>
    if (owners[toLex t]?).any (ParcelOwnership.ownedBy · address) then true
    else (operatorLegs resolver address t.1 t.2).grantsDeploy

def parcelPermissionFlags (squid : Squid) (resolver : Option Resolver) (address : Text) (x y : ℤ) :
    Option ParcelPermissionFlags :=
  (parcelOwnership squid x y).map fun o =>
    { operatorLegs resolver address x y with owner := o.ownedBy address }

def permissionFlagsBatch (squid : Squid) (resolver : Option Resolver) (address : Text)
    (parcels : List (ℤ × ℤ)) : List (Option ParcelPermissionFlags) :=
  let owners := ownershipFor squid parcels
  parcels.map fun t =>
    (owners[toLex t]?).map fun o =>
      { operatorLegs resolver address t.1 t.2 with owner := o.ownedBy address }

def checkParcelAccess (squid : Squid) (resolver : Option Resolver) (address : Text) (x y : ℤ) :
    Bool :=
  if (parcelOwnership squid x y).any (ParcelOwnership.ownedBy · address) then true
  else (operatorLegs resolver address x y).grantsDeploy

/-! ### One parcel at a place -/

theorem decodeCoord_inj {m n : ℕ} {v : ℤ} (hm : m < 2 ^ 128) (hn : n < 2 ^ 128)
    (h : decodeCoord m = some v) (h' : decodeCoord n = some v) : m = n := by
  simp only [decodeCoord] at h h'
  split_ifs at h h' <;> cases h <;> simp only [Option.some.injEq] at h' <;> omega

namespace Squid

variable {squid : Squid} {p q : Parcel}

theorem same_place (hp : p ∈ squid.parcel) (hq : q ∈ squid.parcel) (hx : p.x = q.x) (hy : p.y = q.y) :
    p = q := by
  obtain ⟨hpid, hpx, hpy⟩ := squid.coordinates p hp
  obtain ⟨hqid, hqx, hqy⟩ := squid.coordinates q hq
  rw [hx] at hpx
  rw [hy] at hpy
  have hhigh := decodeCoord_inj (by omega) (by omega) hpx hqx
  have hlow := decodeCoord_inj (by omega) (by omega) hpy hqy
  have hid : p.tokenId = q.tokenId := by omega
  exact List.inj_on_of_nodup_map squid.distinct hp hq hid

theorem find_place (hp : p ∈ squid.parcel) :
    squid.parcel.find? (fun q => decide (q.x = p.x ∧ q.y = p.y)) = some p := by
  cases hfind : squid.parcel.find? fun q => decide (q.x = p.x ∧ q.y = p.y) with
  | none =>
    have hnone := List.find?_eq_none.mp hfind p hp
    simp at hnone
  | some q =>
    have hat : q.x = p.x ∧ q.y = p.y := by simpa using List.find?_some hfind
    rw [same_place (List.mem_of_find?_eq_some hfind) hp hat.1 hat.2]

end Squid

theorem ownershipFor_find (squid : Squid) {parcels : List (ℤ × ℤ)} {t : ℤ × ℤ} (ht : t ∈ parcels) :
    (ownershipFor squid parcels)[(toLex t : ℤ ×ₗ ℤ)]? = parcelOwnership squid t.1 t.2 := by
  have hmem : ∀ k : ℤ ×ₗ ℤ, ∀ o, (k, o) ∈ (parcels.flatMap fun t =>
      (squid.parcel.filter fun p => decide (p.x = t.1 ∧ p.y = t.2)).map fun p =>
        ((toLex t : ℤ ×ₗ ℤ), ownershipOf squid p)) ↔
      ofLex k ∈ parcels ∧ ∃ p ∈ squid.parcel, p.x = (ofLex k).1 ∧ p.y = (ofLex k).2 ∧
        ownershipOf squid p = o := by
    intro k o
    simp only [List.mem_flatMap, List.mem_map, List.mem_filter, decide_eq_true_eq, Prod.mk.injEq]
    constructor
    · rintro ⟨t, ht, p, ⟨hp, hx, hy⟩, rfl, rfl⟩
      exact ⟨ht, p, hp, hx, hy, rfl⟩
    · rintro ⟨ht, p, hp, hx, hy, rfl⟩
      exact ⟨_, ht, p, ⟨hp, hx, hy⟩, rfl, rfl⟩
  rw [ownershipFor, parcelOwnership]
  cases hfind : squid.parcel.find? fun p => decide (p.x = t.1 ∧ p.y = t.2) with
  | none =>
    rw [OrdMap.find_insertAll_of_notMem]
    · simp
    · intro hin
      obtain ⟨⟨k, o⟩, hko, hk⟩ := List.mem_map.mp hin
      obtain ⟨-, p, hp, hx, hy, -⟩ := (hmem k o).mp hko
      have hnone := List.find?_eq_none.mp hfind p hp
      subst hk
      exact hnone (decide_eq_true ⟨hx, hy⟩)
  | some p =>
    have hp := List.mem_of_find?_eq_some hfind
    obtain ⟨hx, hy⟩ : p.x = t.1 ∧ p.y = t.2 := by simpa using List.find?_some hfind
    obtain ⟨o, ho, hfound⟩ := OrdMap.exists_find_insertAll (∅ : OrdMap (ℤ ×ₗ ℤ) ParcelOwnership)
      (List.mem_map.mpr ⟨_, (hmem (toLex t) _).mpr ⟨ht, p, hp, hx, hy, rfl⟩, rfl⟩)
    obtain ⟨-, q, hq, hqx, hqy, rfl⟩ := (hmem (toLex t) o).mp ho
    obtain rfl := squid.same_place hq hp (hqx.trans hx.symm) (hqy.trans hy.symm)
    exact hfound

theorem operatorLegs_owner (resolver : Option Resolver) (address : Text) (x y : ℤ) :
    (operatorLegs resolver address x y).owner = false := by
  unfold operatorLegs
  split
  · rfl
  · split <;> rfl

/-- The rights tables as an index of rights; a query of it may fail. -/
def Store.resolver (s : Store) (down : ℤ → ℤ → Option Text) : Resolver := fun x y =>
  match down x y with
  | some e => .error e
  | none => .ok (s.operators x y)

/-- The rights tables, or where a server has none of its own the remote subgraph. -/
def resolverFor (indexPresent : Bool) (index subgraph : Resolver) : Resolver :=
  if indexPresent then index else subgraph

/-- The tables know no rights on a parcel that the marketplace index lacks. -/
theorem operatorLegs_unindexed (s : Store) (down : ℤ → ℤ → Option Text) (address : Text) {x y : ℤ}
    (h : parcelOwnership s.squid x y = none) :
    operatorLegs (some (s.resolver down)) address x y = .none := by
  have hnone : s.parcelSubject x y = none := by
    rw [parcelOwnership, Option.map_eq_none_iff] at h
    rw [Store.parcelSubject, h]
    rfl
  simp only [operatorLegs, Store.resolver]
  cases down x y with
  | some e => rfl
  | none => simp [Store.operators, hnone]

theorem permissionFlagsBatch_eq (squid : Squid) (resolver : Option Resolver) (address : Text)
    (parcels : List (ℤ × ℤ)) :
    permissionFlagsBatch squid resolver address parcels =
      parcels.map fun t => parcelPermissionFlags squid resolver address t.1 t.2 := by
  refine List.map_congr_left ?_
  intro t ht
  rw [ownershipFor_find squid ht, parcelPermissionFlags]

theorem landAccessBatch_eq (squid : Squid) (resolver : Option Resolver) (address : Text)
    (parcels : List (ℤ × ℤ)) :
    landAccessBatch squid resolver address parcels =
      parcels.map fun t => checkParcelAccess squid resolver address t.1 t.2 := by
  refine List.map_congr_left ?_
  intro t ht
  rw [ownershipFor_find squid ht, checkParcelAccess]

/-- A deploy is allowed by the flags that the routes report, and at a parcel of which they report
nothing by the operators alone. -/
theorem checkParcelAccess_eq (squid : Squid) (resolver : Option Resolver) (address : Text)
    (x y : ℤ) :
    checkParcelAccess squid resolver address x y =
      ((parcelPermissionFlags squid resolver address x y).getD
        (operatorLegs resolver address x y)).grantsDeploy := by
  simp only [checkParcelAccess, parcelPermissionFlags]
  cases parcelOwnership squid x y with
  | none => rfl
  | some o =>
    simp only [Option.any_some, Option.map_some, Option.getD_some]
    split_ifs with howned
    · simp [ParcelPermissionFlags.grantsDeploy_eq, howned]
    · simp [ParcelPermissionFlags.grantsDeploy_eq, howned, operatorLegs_owner]

/-- What the routes report of a parcel, alone or with others in one query, is what a deploy there
is allowed, whichever answers of the rights' source fail. Of a parcel outside the marketplace index
the routes report nothing; a deploy there is refused from the tables, and otherwise the subgraph's
operators decide. -/
theorem deploy_as_reported (s : Store) (down : ℤ → ℤ → Option Text) (subgraph : Resolver)
    (indexPresent : Bool) (address : Text) (parcels : List (ℤ × ℤ)) :
    permissionFlagsBatch s.squid (some (resolverFor indexPresent (s.resolver down) subgraph))
        address parcels =
        parcels.map (fun t => parcelPermissionFlags s.squid
          (some (resolverFor indexPresent (s.resolver down) subgraph)) address t.1 t.2) ∧
      landAccessBatch s.squid (some (resolverFor indexPresent (s.resolver down) subgraph))
        address parcels =
        parcels.map (fun t => checkParcelAccess s.squid
          (some (resolverFor indexPresent (s.resolver down) subgraph)) address t.1 t.2) ∧
      landAccessBatch s.squid (some (resolverFor indexPresent (s.resolver down) subgraph))
        address parcels =
        parcels.map (fun t =>
          match parcelPermissionFlags s.squid
            (some (resolverFor indexPresent (s.resolver down) subgraph)) address t.1 t.2 with
          | some f => f.grantsDeploy
          | none => !indexPresent &&
              (operatorLegs (some subgraph) address t.1 t.2).grantsDeploy) := by
  refine ⟨permissionFlagsBatch_eq _ _ _ _, landAccessBatch_eq _ _ _ _, ?_⟩
  rw [landAccessBatch_eq]
  refine List.map_congr_left ?_
  intro t ht
  rw [checkParcelAccess_eq]
  cases hflags : parcelPermissionFlags s.squid
      (some (resolverFor indexPresent (s.resolver down) subgraph)) address t.1 t.2 with
  | some f => rfl
  | none =>
    have hown : parcelOwnership s.squid t.1 t.2 = none := by
      simpa [parcelPermissionFlags] using hflags
    cases indexPresent with
    | false => rfl
    | true =>
      simp only [resolverFor, if_true, Option.getD_none, Bool.not_true, Bool.false_and,
        operatorLegs_unindexed s down address hown]
      rfl

end Catalyrst.LandAuthz
