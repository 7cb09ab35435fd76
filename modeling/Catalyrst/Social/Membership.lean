import Mathlib
import Catalyrst.Social.PrivateVoice

/-!
# Federated membership

Signed actions on the roles of one community: each is logged once under the hash of its
signature, a trigger on the log keeps the current role of a wallet, and the functions below
edit that table and the two projections as the actions arrive.
-/

namespace Catalyrst.Social

/-- `CommunityMembershipTier`. -/
inductive Tier where
  | owner
  | mod
  | member
  | banned
  | none
  deriving DecidableEq

def parseRoleTextSuppliedInARequest (raw : Text) : Option Tier :=
  if raw = ['o', 'w', 'n', 'e', 'r'] then some .owner
  else if raw = ['m', 'o', 'd'] ∨ raw = ['m', 'o', 'd', 'e', 'r', 'a', 't', 'o', 'r'] then some .mod
  else if raw = ['m', 'e', 'm', 'b', 'e', 'r'] then some .member
  else if raw = ['b', 'a', 'n', 'n', 'e', 'd'] then some .banned
  else if raw = ['n', 'o', 'n', 'e'] ∨ raw = [] then some .none
  else Option.none

def toAsciiLowercase (s : Text) : Address := s.map Char.toLower

/-- A row of `community_role_log`. -/
structure Entry where
  signatureHash : ℕ
  target : Address
  role : Tier
  signedAt : ℤ
  deriving DecidableEq

/-- A row of `community_role_current`. -/
structure CurrentRole where
  role : Tier
  effectiveSince : ℤ
  lastSigHash : ℕ
  deriving DecidableEq

/-- The rows of one community. -/
structure Community where
  created : Bool
  log : List Entry
  current : Address → Option CurrentRole
  members : Address → Option Tier
  /-- Whether the ban is active. -/
  bans : Address → Option Bool

def Community.empty : Community := ⟨false, [], fun _ => none, fun _ => none, fun _ => none⟩

inductive MembershipError where
  | alreadyExists
  | invalidRole
  /-- The community that a row refers to is missing, or the hash is taken. -/
  | database
  deriving DecidableEq

/-! ### Statements -/

/-- The trigger on the log. -/
def crlApplyToCurrent (current : Address → Option CurrentRole) (new : Entry) :
    Address → Option CurrentRole :=
  let keepPrev := (current new.target).any fun prev =>
    new.signedAt < prev.effectiveSince ∨
      prev.effectiveSince = new.signedAt ∧ prev.lastSigHash < new.signatureHash
  if keepPrev then current
  else Function.update current new.target (some ⟨new.role, new.signedAt, new.signatureHash⟩)

/-- `ON CONFLICT (signature_hash) DO NOTHING`. -/
def Community.insertLog (s : Community) (e : Entry) : Community :=
  if s.log.any fun l => l.signatureHash = e.signatureHash then s
  else { s with log := s.log ++ [e], current := crlApplyToCurrent s.current e }

def Community.deleteCurrent (s : Community) (w : Address) : Community :=
  { s with current := Function.update s.current w none }

def Community.deleteMember (s : Community) (w : Address) : Community :=
  { s with members := Function.update s.members w none }

/-- `ON CONFLICT DO NOTHING`. -/
def Community.insertMember (s : Community) (w : Address) (role : Tier) : Community :=
  { s with members := Function.update s.members w (some ((s.members w).getD role)) }

def Community.upsertMember (s : Community) (w : Address) (role : Tier) : Community :=
  { s with members := Function.update s.members w (some role) }

def Community.activateBan (s : Community) (w : Address) : Community :=
  { s with bans := Function.update s.bans w (some true) }

def Community.deactivateBan (s : Community) (w : Address) : Community :=
  { s with bans := Function.update s.bans w ((s.bans w).map fun _ => false) }

/-! ### Actions -/

inductive RoleAction where
  | create
  | join
  | leave
  | role (target role : Text)
  | ban (target : Text)
  | unban (target : Text)
  deriving DecidableEq

structure SignedRole where
  action : RoleAction
  signer : Text
  signedAt : ℤ
  signatureHash : ℕ
  deriving DecidableEq

def applyCreate (s : Community) (a : SignedRole) : Except MembershipError Community :=
  if s.created then .error .alreadyExists
  else if s.log.any fun l => l.signatureHash = a.signatureHash then .error .database
  else
    let signer := toAsciiLowercase a.signer
    let s := { s with created := true }
    .ok ((s.insertLog ⟨a.signatureHash, signer, .owner, a.signedAt⟩).insertMember signer .owner)

def applyRole (s : Community) (a : SignedRole) (target role : Text) : Except MembershipError Community :=
  match parseRoleTextSuppliedInARequest role with
  | none => .error .invalidRole
  | some role =>
    let target := toAsciiLowercase target
    let s := s.insertLog ⟨a.signatureHash, target, role, a.signedAt⟩
    match s.current target with
    | none => .ok s
    | some row =>
      if row.role = .banned then .ok (s.deleteMember target)
      else if s.created then .ok (s.upsertMember target row.role)
      else .error .database

def applyJoin (s : Community) (a : SignedRole) : Except MembershipError Community :=
  let signer := toAsciiLowercase a.signer
  if s.created then
    .ok ((s.insertLog ⟨a.signatureHash, signer, .member, a.signedAt⟩).insertMember signer .member)
  else .error .database

def applyLeave (s : Community) (a : SignedRole) : Except MembershipError Community :=
  let signer := toAsciiLowercase a.signer
  .ok (((s.insertLog ⟨a.signatureHash, signer, .none, a.signedAt⟩).deleteCurrent signer).deleteMember
    signer)

def applyBan (s : Community) (a : SignedRole) (target : Text) : Except MembershipError Community :=
  let target := toAsciiLowercase target
  if s.created then
    .ok (((s.insertLog ⟨a.signatureHash, target, .banned, a.signedAt⟩).deleteMember target).activateBan
      target)
  else .error .database

def applyUnban (s : Community) (a : SignedRole) (target : Text) : Except MembershipError Community :=
  let target := toAsciiLowercase target
  .ok (((s.insertLog ⟨a.signatureHash, target, .none, a.signedAt⟩).deleteCurrent target).deactivateBan
    target)

def applyRoleAction (s : Community) (a : SignedRole) : Except MembershipError Community :=
  match a.action with
  | .create => applyCreate s a
  | .join => applyJoin s a
  | .leave => applyLeave s a
  | .role target role => applyRole s a target role
  | .ban target => applyBan s a target
  | .unban target => applyUnban s a target

/-- A failed transaction is rolled back. -/
def Community.step (s : Community) (a : SignedRole) : Community :=
  match applyRoleAction s a with
  | .ok t => t
  | .error _ => s

def Community.run (s : Community) (actions : List SignedRole) : Community := actions.foldl Community.step s

end Catalyrst.Social
