import Catalyrst.Worlds.Scenes

/-!
# Requests side by side

A request that may replace or remove scenes reads the database several times before its
transaction: the scenes it meets, the grants of its signer, the parcels of a grant. Other requests
and the owner's changes of the grants come between. What is removed in the end was, in whole, within
a grant of the signer at some time before, or the signer came as the owner: for a deploy that is who
the index names, for other requests who the row of the world names.
-/

namespace Catalyrst.WorldScenes

inductive Task where
  | deploy (entityId : Text)
  | undeployScene (parcel : Text)
  | undeployWorld
  | postPermissions
  | updateSettings
deriving DecidableEq, Repr

inductive Phase where
  | fresh
  | overlapping (required entityIds : List Text)
  | checking (records : List (ℕ × Bool)) (required entityIds : List Text)
  | authorized (replacement : SceneReplacement)
  | done
deriving DecidableEq, Repr

structure Request where
  world : Text
  signer : Text
  /-- The account that the index of names gave as the owner when the request came. -/
  nameOwner : Option Text
  owns : Bool
  task : Task
  phase : Phase
deriving DecidableEq, Repr

structure State where
  db : Db
  requests : List Request
deriving DecidableEq, Repr

inductive Event where
  | arrive (world signer : Text) (nameOwner : Option Text) (task : Task)
  | advance (i : ℕ)
  | drop (i : ℕ)
  | grantWorldWide (world permission : Text) (addresses : List Text)
  | removeAddresses (world permission : Text) (addresses : List Text)
  | addParcels (world permission address : Text) (parcels : List Text)
  | removeParcels (permissionId : ℕ) (parcels : List Text)
deriving DecidableEq, Repr

section Steps

-- The pointers in the entity file with a hash: the id of an entity is the hash of its file.
variable (pointersOf : Text → List Text)

def isCanonicalParcelSet (parcels : List Text) : Bool :=
  decide (parcels ≠ [] ∧ parcels.Nodup ∧ ∀ p ∈ parcels, isCanonicalPointer p = true)

def Task.parcels : Task → List Text
  | .deploy entityId => pointersOf entityId
  | .undeployScene parcel => [parcel]
  | _ => []

/-- Of the tasks of an owner, only a deploy asks the index first. -/
def Db.ownedBy (db : Db) (world signer : Text) (nameOwner : Option Text) : Task → Bool
  | .deploy _ => nameOwner.any (addressMatchesAccountId signer)
  | _ => (db.resolveWorldOwner world nameOwner).any fun o => decide (lower o = lower signer)

/-- A deploy of an entity whose pointers are not canonical is refused at once; a parcel to remove
from is made canonical. -/
def received (db : Db) (world signer : Text) (nameOwner : Option Text) (task : Task) :
    Option Request :=
  let owns := db.ownedBy world signer nameOwner task
  let phase := if owns then .authorized .unrestrictedOwner else .fresh
  match task with
  | .deploy entityId =>
    if isCanonicalParcelSet (pointersOf entityId) then
      some ⟨lower world, lower signer, nameOwner, owns, .deploy entityId, phase⟩
    else none
  | .undeployScene parcel =>
    some ⟨world, signer, nameOwner, owns, .undeployScene (canonicalizePointer parcel), phase⟩
  | task => some ⟨world, signer, nameOwner, owns, task, phase⟩

/-- The transaction at the end of a request. -/
def commit (db : Db) (r : Request) (replacement : SceneReplacement) : Db :=
  match r.task with
  | .deploy entityId =>
    (db.deployScene ⟨r.world, entityId, r.signer, pointersOf entityId⟩
      (r.nameOwner.map fun id => lower (ownerOf id)) replacement).getD db
  | .undeployScene parcel =>
    match replacement with
    | .unrestrictedOwner => db.undeployScene r.world parcel none
    | .scopedTo ids => db.undeployScene r.world parcel (some ids)
  | .undeployWorld => db.undeployWorld r.world
  | .postPermissions => db.createBasicWorldIfNotExists r.world r.signer
  | .updateSettings => db.createBasicWorldIfNotExists r.world r.signer

/-- The next read of a request, or its transaction. -/
def advanceRequest (db : Db) (r : Request) : Db × Phase :=
  match r.phase with
  | .fresh =>
    match r.task with
    | .undeployWorld =>
      if (db.deploymentRecords r.world r.signer).any fun record => record.2 then
        (db, .authorized .unrestrictedOwner)
      else (db, .done)
    | .updateSettings =>
      if db.hasWorldWidePermission r.world "deployment".toList r.signer then
        (db, .authorized .unrestrictedOwner)
      else (db, .done)
    | .postPermissions => (db, .done)
    | task =>
      let met := db.scenesOverlappingParcels r.world (task.parcels pointersOf)
      (db, .overlapping
        (task.parcels pointersOf ++ met.flatMap fun s => s.parcels.map canonicalizePointer)
        (met.map WorldScene.entityId))
  | .overlapping required ids =>
    (db, .checking (db.deploymentRecords r.world r.signer) required ids)
  | .checking [] _ _ => (db, .done)
  | .checking ((id, worldWide) :: records) required ids =>
    let granted := (db.getParcelsForPermission id).map canonicalizePointer
    if worldWide = true ∨ ∀ p ∈ required, p ∈ granted then (db, .authorized (.scopedTo ids))
    else (db, .checking records required ids)
  | .authorized replacement => (commit pointersOf db r replacement, .done)
  | .done => (db, .done)

def step (s : State) : Event → State
  | .arrive world signer nameOwner task =>
    { s with
      requests := s.requests ++ (received pointersOf s.db world signer nameOwner task).toList }
  | .advance i =>
    match s.requests[i]? with
    | some r =>
      let (db, phase) := advanceRequest pointersOf s.db r
      ⟨db, s.requests.set i { r with phase := phase }⟩
    | none => s
  | .drop i =>
    { s with requests := s.requests.modify i fun r => { r with phase := .done } }
  | .grantWorldWide world permission addresses =>
    { s with db := s.db.grantAddressesWorldWidePermission world permission addresses }
  | .removeAddresses world permission addresses =>
    { s with db := s.db.removeAddressesPermission world permission addresses }
  | .addParcels world permission address parcels =>
    { s with db := s.db.addParcelsToPermission world permission address parcels }
  | .removeParcels id parcels =>
    { s with db := s.db.removeParcelsFromPermission id parcels }

def initial : State where
  db := ⟨[], [], [], 0⟩
  requests := []

def run (events : List Event) : State := events.foldl (step pointersOf) initial

theorem run_concat (events : List Event) (e : Event) :
    run pointersOf (events ++ [e]) = step pointersOf (run pointersOf events) e := by
  simp only [run, List.foldl_append, List.foldl_cons, List.foldl_nil]

end Steps

/-! ### What a grant covers -/

def Permission.grants (p : Permission) (world signer : Text) : Prop :=
  p.isFor world "deployment".toList = true ∧ lower p.address = lower signer

/-- A grant to deploy covers the parcels. -/
def Covers (db : Db) (world signer : Text) (parcels : List Text) : Prop :=
  ∃ p ∈ db.worldPermissions, p.grants world signer ∧
    (p.parcels = [] ∨ ∀ q ∈ parcels, q ∈ p.parcels)

theorem Covers.congr {db : Db} {world world' signer signer' : Text} {parcels : List Text}
    (h : Covers db world signer parcels) (hworld : lower world = lower world')
    (hsigner : lower signer = lower signer') : Covers db world' signer' parcels := by
  simpa only [Covers, Permission.grants, Permission.isFor, hworld, hsigner] using h

theorem Covers.mono {db : Db} {world signer : Text} {parcels parcels' : List Text}
    (h : Covers db world signer parcels) (hsub : ∀ q ∈ parcels', q ∈ parcels) :
    Covers db world signer parcels' := by
  obtain ⟨p, hp, hgrants, hcover⟩ := h
  exact ⟨p, hp, hgrants, hcover.imp_right fun hall q hq => hall q (hsub q hq)⟩

section Invariant

variable (pointersOf : Text → List Text)

/-- At some time in a run, a grant covered the parcels. -/
def WasCovered (events : List Event) (world signer : Text) (parcels : List Text) : Prop :=
  ∃ before, before <+: events ∧ Covers (run pointersOf before).db world signer parcels

def WasWide (events : List Event) (world signer : Text) : Prop :=
  ∀ parcels, WasCovered pointersOf events world signer parcels

/-- The index named the address as the owner when some request for the world came. -/
def Named (events : List Event) (world address : Text) : Prop :=
  ∃ w signer id task, Event.arrive w signer (some id) task ∈ events ∧ lower w = lower world ∧
    lower (ownerOf id) = lower address

/-- A deploy of the address entered the world while the index named no owner. -/
def Founded (events : List Event) (world address : Text) : Prop :=
  ∃ before i r entityId replacement, before ++ [.advance i] <+: events ∧
    (run pointersOf before).requests[i]? = some r ∧ r.task = .deploy entityId ∧
      r.phase = .authorized replacement ∧ r.nameOwner = none ∧
      (run pointersOf before).db.hasWorld r.world = false ∧
      lower r.world = lower world ∧ lower r.signer = lower address

/-- How an address comes to stand in the row of a world. -/
def HadName (events : List Event) (world address : Text) : Prop :=
  Named events world address ∨ Founded pointersOf events world address ∨
    WasWide pointersOf events world address

/-- What makes the signer of a request the owner: the index's answer to it for a deploy, the row of
the world for the others. -/
def Owns (events : List Event) (r : Request) : Prop :=
  match r.task with
  | .deploy _ => r.nameOwner.any (addressMatchesAccountId r.signer) = true
  | _ => Named events r.world r.signer ∨ Founded pointersOf events r.world r.signer

/-- Tasks on scenes that they meet. -/
def Task.meetsScenes : Task → Bool
  | .deploy _ => true
  | .undeployScene _ => true
  | _ => false

/-- The parcels that a request needs hold those of its task and of the scenes it may replace. -/
structure Needs (task : Task) (required ids : List Text) : Prop where
  own : ∀ p ∈ task.parcels pointersOf, p ∈ required
  met : ∀ id ∈ ids, ∀ p ∈ pointersOf id, p ∈ required
  some : required ≠ []

/-- A record that was read is still of the grant of that id, if that is there at all. -/
structure Known (events : List Event) (db : Db) (world signer : Text) (record : ℕ × Bool) :
    Prop where
  old : record.1 < db.nextId
  same : ∀ p ∈ db.worldPermissions, p.id = record.1 → p.grants world signer
  wide : record.2 = true → WasWide pointersOf events world signer

def Sound (events : List Event) (db : Db) (r : Request) : Prop :=
  match r.phase with
  | .fresh => True
  | .overlapping required ids =>
    r.task.meetsScenes = true ∧ Needs pointersOf r.task required ids
  | .checking records required ids =>
    r.task.meetsScenes = true ∧ Needs pointersOf r.task required ids ∧
      ∀ record ∈ records, Known pointersOf events db r.world r.signer record
  | .authorized .unrestrictedOwner =>
    r.task.meetsScenes = false ∧ WasWide pointersOf events r.world r.signer
  | .authorized (.scopedTo ids) =>
    r.task.meetsScenes = true ∧ ∃ required, Needs pointersOf r.task required ids ∧
      WasCovered pointersOf events r.world r.signer required
  | .done => True

structure PermissionsOk (db : Db) : Prop where
  distinct : (db.worldPermissions.map Permission.id).Nodup
  keys : (db.worldPermissions.map Permission.key).Nodup
  old : ∀ p ∈ db.worldPermissions, p.id < db.nextId
  lowered : ∀ p ∈ db.worldPermissions, lower p.worldName = p.worldName ∧ lower p.address = p.address
  canonical : ∀ p ∈ db.worldPermissions, ∀ q ∈ p.parcels, canonicalizePointer q = q

structure ScenesOk (scenes : List WorldScene) : Prop where
  apart : Apart scenes
  footprint : ∀ s ∈ scenes, s.parcels = pointersOf s.entityId ∧
    isCanonicalParcelSet (pointersOf s.entityId) = true

/-- The signer of a request is the owner, or stands where its grants brought it. -/
def Entitled (events : List Event) (db : Db) (r : Request) : Prop :=
  (r.owns = true ∧ (Owns pointersOf events r ∨
    (∀ entityId, r.task ≠ .deploy entityId) ∧ WasWide pointersOf events r.world r.signer)) ∨
  Sound pointersOf events db r

structure Inv (events : List Event) (s : State) : Prop where
  owners : ∀ w ∈ s.db.worlds, ∀ o, w.owner = some o → HadName pointersOf events w.name o
  named : ∀ r ∈ s.requests, ∀ id, r.nameOwner = some id → Named events r.world (ownerOf id)
  scenes : ScenesOk pointersOf s.db.worldScenes
  permissions : PermissionsOk s.db
  deploys : ∀ r ∈ s.requests, ∀ entityId, r.task = .deploy entityId →
    isCanonicalParcelSet (pointersOf entityId) = true
  requests : ∀ r ∈ s.requests, Entitled pointersOf events s.db r

variable {pointersOf}

theorem WasCovered.later {events events' : List Event} {world signer : Text} {parcels : List Text}
    (h : WasCovered pointersOf events world signer parcels) (hlater : events <+: events') :
    WasCovered pointersOf events' world signer parcels := by
  obtain ⟨before, hbefore, hcover⟩ := h
  exact ⟨before, hbefore.trans hlater, hcover⟩

theorem WasWide.later {events events' : List Event} {world signer : Text}
    (h : WasWide pointersOf events world signer) (hlater : events <+: events') :
    WasWide pointersOf events' world signer := fun parcels => (h parcels).later hlater

theorem WasWide.congr {events : List Event} {world world' signer signer' : Text}
    (h : WasWide pointersOf events world signer) (hworld : lower world = lower world')
    (hsigner : lower signer = lower signer') : WasWide pointersOf events world' signer' := by
  intro parcels
  obtain ⟨before, hbefore, hcover⟩ := h parcels
  exact ⟨before, hbefore, hcover.congr hworld hsigner⟩

theorem Named.later {events events' : List Event} {world address : Text}
    (h : Named events world address) (hlater : events <+: events') :
    Named events' world address := by
  obtain ⟨w, signer, id, task, hin, hname⟩ := h
  exact ⟨w, signer, id, task, hlater.subset hin, hname⟩

theorem Named.congr {events : List Event} {world world' address address' : Text}
    (h : Named events world address) (hworld : lower world = lower world')
    (haddress : lower address = lower address') : Named events world' address' := by
  obtain ⟨w, signer, id, task, hin, hw, hid⟩ := h
  exact ⟨w, signer, id, task, hin, hw.trans hworld, hid.trans haddress⟩

theorem Founded.later {events events' : List Event} {world address : Text}
    (h : Founded pointersOf events world address) (hlater : events <+: events') :
    Founded pointersOf events' world address := by
  obtain ⟨before, i, r, entityId, replacement, hbefore, hdeploy⟩ := h
  exact ⟨before, i, r, entityId, replacement, hbefore.trans hlater, hdeploy⟩

theorem Founded.congr {events : List Event} {world world' address address' : Text}
    (h : Founded pointersOf events world address) (hworld : lower world = lower world')
    (haddress : lower address = lower address') : Founded pointersOf events world' address' := by
  obtain ⟨before, i, r, entityId, replacement, hbefore, hr, htask, hphase, hnone, hnew, hw, hs⟩ := h
  exact ⟨before, i, r, entityId, replacement, hbefore, hr, htask, hphase, hnone, hnew,
    hw.trans hworld, hs.trans haddress⟩

theorem HadName.later {events events' : List Event} {world address : Text}
    (h : HadName pointersOf events world address) (hlater : events <+: events') :
    HadName pointersOf events' world address :=
  h.imp (fun h => h.later hlater) fun h => h.imp (fun h => h.later hlater) fun h => h.later hlater

theorem HadName.congr {events : List Event} {world world' address address' : Text}
    (h : HadName pointersOf events world address) (hworld : lower world = lower world')
    (haddress : lower address = lower address') : HadName pointersOf events world' address' :=
  h.imp (fun h => h.congr hworld haddress) fun h =>
    h.imp (fun h => h.congr hworld haddress) fun h => h.congr hworld haddress

theorem Owns.later {events events' : List Event} {r : Request} (h : Owns pointersOf events r)
    (hlater : events <+: events') : Owns pointersOf events' r := by
  unfold Owns at h ⊢
  split at h
  · exact h
  · exact h.imp (fun h => h.later hlater) fun h => h.later hlater

/-- The permissions of the later database are those of ids known before, or new ones. -/
structure Follows (db db' : Db) : Prop where
  next : db.nextId ≤ db'.nextId
  kept : ∀ p' ∈ db'.worldPermissions, db.nextId ≤ p'.id ∨
    ∃ p ∈ db.worldPermissions, p.id = p'.id ∧ p.worldName = p'.worldName ∧
      p.permissionType = p'.permissionType ∧ p.address = p'.address

theorem Follows.refl (db : Db) : Follows db db :=
  ⟨le_rfl, fun p hp => .inr ⟨p, hp, rfl, rfl, rfl, rfl⟩⟩

theorem Known.later {events events' : List Event} {db db' : Db} {world signer : Text}
    {record : ℕ × Bool} (h : Known pointersOf events db world signer record)
    (hbefore : events <+: events') (hfollows : Follows db db') :
    Known pointersOf events' db' world signer record where
  old := lt_of_lt_of_le h.old hfollows.next
  wide hwide parcels := (h.wide hwide parcels).later hbefore
  same p' hp' hid := by
    rcases hfollows.kept p' hp' with hnew | ⟨p, hp, hpid, hworld, htype, haddress⟩
    · have hold := h.old
      omega
    · have hgrants := h.same p hp (hpid.trans hid)
      simpa only [Permission.grants, Permission.isFor, hworld, htype, haddress] using hgrants

theorem Sound.later {events events' : List Event} {db db' : Db} {r : Request}
    (h : Sound pointersOf events db r) (hbefore : events <+: events') (hfollows : Follows db db') :
    Sound pointersOf events' db' r := by
  unfold Sound at h ⊢
  split at h
  · trivial
  · exact h
  · exact ⟨h.1, h.2.1, fun record hrecord => (h.2.2 record hrecord).later hbefore hfollows⟩
  · exact ⟨h.1, fun parcels => (h.2 parcels).later hbefore⟩
  · obtain ⟨htask, required, hneeds, hcover⟩ := h
    exact ⟨htask, required, hneeds, hcover.later hbefore⟩
  · trivial

theorem Entitled.later {events events' : List Event} {db db' : Db} {r : Request}
    (h : Entitled pointersOf events db r) (hbefore : events <+: events') (hfollows : Follows db db') :
    Entitled pointersOf events' db' r :=
  h.imp
    (fun h => h.imp_right fun h =>
      h.imp (fun h => h.later hbefore) fun h => h.imp_right fun h => h.later hbefore)
    fun h => h.later hbefore hfollows

end Invariant

/-! ### The owner's changes -/

theorem canonicalizePointer_idem (s : Text) :
    canonicalizePointer (canonicalizePointer s) = canonicalizePointer s := by
  cases hp : parsePointer s with
  | none =>
    have hself : canonicalizePointer s = s := by rw [canonicalizePointer, hp]
    rw [hself, hself]
  | some p =>
    have hshow : canonicalizePointer s = showPointer p := by rw [canonicalizePointer, hp]
    rw [hshow]
    exact canonicalizePointer_of_canonical (isCanonicalPointer_showPointer p)

theorem removeAddresses_ok {db : Db} (h : PermissionsOk db) (world permission : Text)
    (addresses : List Text) :
    PermissionsOk (db.removeAddressesPermission world permission addresses) ∧
      Follows db (db.removeAddressesPermission world permission addresses) := by
  have hmem : ∀ p ∈ (db.removeAddressesPermission world permission addresses).worldPermissions,
      p ∈ db.worldPermissions := fun p hp => (List.mem_filter.mp hp).1
  refine ⟨⟨?_, ?_, fun p hp => h.old p (hmem p hp), fun p hp => h.lowered p (hmem p hp),
    fun p hp => h.canonical p (hmem p hp)⟩, le_rfl,
    fun p hp => .inr ⟨p, hmem p hp, rfl, rfl, rfl, rfl⟩⟩
  · exact h.distinct.sublist (List.filter_sublist.map Permission.id)
  · exact h.keys.sublist (List.filter_sublist.map Permission.key)

/-- Changing the parcels of some grants. -/
theorem mapParcels_ok {db : Db} (h : PermissionsOk db) (f : Permission → Permission)
    (hf : ∀ p, (f p).id = p.id ∧ (f p).worldName = p.worldName ∧
      (f p).permissionType = p.permissionType ∧ (f p).address = p.address)
    (hcanonical : ∀ p ∈ db.worldPermissions, ∀ q ∈ (f p).parcels, canonicalizePointer q = q) :
    PermissionsOk { db with worldPermissions := db.worldPermissions.map f } ∧
      Follows db { db with worldPermissions := db.worldPermissions.map f } := by
  have hids : (db.worldPermissions.map f).map Permission.id = db.worldPermissions.map Permission.id := by
    rw [List.map_map]
    exact List.map_congr_left fun p _ => (hf p).1
  have hkeys : (db.worldPermissions.map f).map Permission.key =
      db.worldPermissions.map Permission.key := by
    rw [List.map_map]
    refine List.map_congr_left fun p _ => ?_
    obtain ⟨-, hworld, htype, haddress⟩ := hf p
    simp only [Function.comp_apply, Permission.key, hworld, htype, haddress]
  refine ⟨⟨by rw [hids]; exact h.distinct, by rw [hkeys]; exact h.keys, ?_, ?_, ?_⟩, le_rfl, ?_⟩
  · intro p' hp'
    obtain ⟨p, hp, rfl⟩ := List.mem_map.mp hp'
    rw [(hf p).1]
    exact h.old p hp
  · intro p' hp'
    obtain ⟨p, hp, rfl⟩ := List.mem_map.mp hp'
    obtain ⟨-, hworld, -, haddress⟩ := hf p
    rw [hworld, haddress]
    exact h.lowered p hp
  · intro p' hp'
    obtain ⟨p, hp, rfl⟩ := List.mem_map.mp hp'
    exact hcanonical p hp
  · intro p' hp'
    obtain ⟨p, hp, rfl⟩ := List.mem_map.mp hp'
    exact .inr ⟨p, hp, (hf p).1.symm, (hf p).2.1.symm, (hf p).2.2.1.symm, (hf p).2.2.2.symm⟩

/-- New grants behind those there. -/
theorem append_ok {db : Db} (h : PermissionsOk db) {new : List Permission} {next : ℕ}
    (hdistinct : (new.map Permission.id).Nodup) (hkeys : (new.map Permission.key).Nodup)
    (hfresh : ∀ p ∈ new, ∀ q ∈ db.worldPermissions, q.key ≠ p.key)
    (hnew : ∀ p ∈ new, db.nextId ≤ p.id ∧ p.id < next ∧
      (lower p.worldName = p.worldName ∧ lower p.address = p.address) ∧
      ∀ q ∈ p.parcels, canonicalizePointer q = q)
    (hnext : db.nextId ≤ next) :
    PermissionsOk { db with worldPermissions := db.worldPermissions ++ new, nextId := next } ∧
      Follows db { db with worldPermissions := db.worldPermissions ++ new, nextId := next } := by
  refine ⟨⟨?_, ?_, ?_, ?_, ?_⟩, hnext, ?_⟩
  · rw [List.map_append]
    refine List.nodup_append.mpr ⟨h.distinct, hdistinct, ?_⟩
    intro a ha b hb hab
    obtain ⟨p, hp, rfl⟩ := List.mem_map.mp ha
    obtain ⟨q, hq, rfl⟩ := List.mem_map.mp hb
    have hold := h.old p hp
    have hafter := (hnew q hq).1
    omega
  · rw [List.map_append]
    refine List.nodup_append.mpr ⟨h.keys, hkeys, ?_⟩
    intro a ha b hb
    obtain ⟨q, hq, rfl⟩ := List.mem_map.mp ha
    obtain ⟨p, hp, rfl⟩ := List.mem_map.mp hb
    exact hfresh p hp q hq
  · intro p hp
    rcases List.mem_append.mp hp with hp | hp
    · exact lt_of_lt_of_le (h.old p hp) hnext
    · exact (hnew p hp).2.1
  · intro p hp
    rcases List.mem_append.mp hp with hp | hp
    · exact h.lowered p hp
    · exact (hnew p hp).2.2.1
  · intro p hp
    rcases List.mem_append.mp hp with hp | hp
    · exact h.canonical p hp
    · exact (hnew p hp).2.2.2
  · intro p hp
    rcases List.mem_append.mp hp with hp | hp
    · exact .inr ⟨p, hp, rfl, rfl, rfl, rfl⟩
    · exact .inl (hnew p hp).1

theorem Follows.trans {db db' db'' : Db} (h : Follows db db') (h' : Follows db' db'') :
    Follows db db'' where
  next := h.next.trans h'.next
  kept p hp := by
    rcases h'.kept p hp with hnew | ⟨q, hq, hid, hworld, htype, haddress⟩
    · exact .inl (h.next.trans hnew)
    · rcases h.kept q hq with hnew | ⟨q', hq', hid', hworld', htype', haddress'⟩
      · exact .inl (hid ▸ hnew)
      · exact .inr ⟨q', hq', hid'.trans hid, hworld'.trans hworld, htype'.trans htype,
          haddress'.trans haddress⟩

theorem newGrants_ids (next : ℕ) (world permission : Text) (addresses : List Text) :
    (newGrants next world permission addresses).map Permission.id =
      List.range' next addresses.length := by
  rw [newGrants, List.map_map]
  exact List.zipIdx_map_snd next addresses

theorem newGrants_keys (next : ℕ) (world permission : Text) (addresses : List Text) :
    (newGrants next world permission addresses).map Permission.key =
      addresses.map fun a => (world, permission, a) := by
  have haddresses : addresses = (addresses.zipIdx next).map Prod.fst :=
    (List.zipIdx_map_fst next addresses).symm
  conv_rhs => rw [haddresses]
  rw [newGrants, List.map_map, List.map_map]
  rfl

theorem mem_newGrants {next : ℕ} {world permission : Text} {addresses : List Text} {p : Permission}
    (hp : p ∈ newGrants next world permission addresses) :
    (next ≤ p.id ∧ p.id < next + addresses.length) ∧ p.worldName = world ∧
      p.permissionType = permission ∧ p.address ∈ addresses ∧ p.parcels = [] := by
  have hid : p.id ∈ List.range' next addresses.length := by
    rw [← newGrants_ids next world permission addresses]
    exact List.mem_map_of_mem hp
  obtain ⟨a, ha, rfl⟩ := List.mem_map.mp hp
  exact ⟨List.mem_range'_1.mp hid, rfl, rfl, List.fst_mem_of_mem_zipIdx ha, rfl⟩

@[simp] theorem lower_lower (s : Text) : lower (lower s) = lower s := by
  simp only [lower, List.map_map]
  exact List.map_congr_left fun c _ => by simp

theorem addGrants_ok {db : Db} (h : PermissionsOk db) (world permission : Text) (added : List Text)
    (hnodup : added.Nodup) (hlowered : ∀ a ∈ added, lower a = a)
    (hfresh : ∀ a ∈ added, ∀ q ∈ db.worldPermissions, q.key ≠ (lower world, permission, a)) :
    let db' : Db := { db with
      worldPermissions := db.worldPermissions ++ newGrants db.nextId (lower world) permission added
      nextId := db.nextId + added.length }
    PermissionsOk db' ∧ Follows db db' := by
  refine append_ok h ?_ ?_ ?_ ?_ (Nat.le_add_right db.nextId added.length)
  · rw [newGrants_ids]
    exact List.nodup_range'
  · rw [newGrants_keys]
    exact hnodup.map fun a b hab => (Prod.mk.inj (Prod.mk.inj hab).2).2
  · intro p hp q hq
    obtain ⟨-, hworld, htype, haddress, -⟩ := mem_newGrants hp
    have hkey : p.key = (lower world, permission, p.address) := by
      rw [Permission.key, hworld, htype]
    rw [hkey]
    exact hfresh p.address haddress q hq
  · intro p hp
    obtain ⟨hids, hworld, -, haddress, hparcels⟩ := mem_newGrants hp
    refine ⟨hids.1, hids.2, ⟨?_, hlowered _ haddress⟩, by simp [hparcels]⟩
    rw [hworld, lower_lower]

theorem grantWorldWide_ok {db : Db} (h : PermissionsOk db) (world permission : Text)
    (addresses : List Text) :
    PermissionsOk (db.grantAddressesWorldWidePermission world permission addresses) ∧
      Follows db (db.grantAddressesWorldWidePermission world permission addresses) := by
  have hsame : ∀ p : Permission, ∀ c : Prop, [Decidable c] →
      (if c then { p with parcels := [] } else p).id = p.id ∧
      (if c then { p with parcels := [] } else p).worldName = p.worldName ∧
      (if c then { p with parcels := [] } else p).permissionType = p.permissionType ∧
      (if c then { p with parcels := [] } else p).address = p.address := by
    intro p c _
    split_ifs
    · exact ⟨rfl, rfl, rfl, rfl⟩
    · exact ⟨rfl, rfl, rfl, rfl⟩
  obtain ⟨hmapped, hfollows⟩ := mapParcels_ok h
    (fun p => if p.isFor world permission && decide (p.address ∈ (addresses.map lower).dedup) then
      { p with parcels := [] } else p)
    (fun p => hsame p _)
    (by
      intro p hp q hq
      split_ifs at hq
      · cases hq
      · exact h.canonical p hp q hq)
  obtain ⟨happended, hfollows'⟩ := addGrants_ok hmapped world permission
    ((addresses.map lower).dedup.filter fun a => !db.worldPermissions.any fun p =>
      decide (p.worldName = lower world ∧ p.permissionType = permission ∧ p.address = a))
    (List.Nodup.filter _ (List.nodup_dedup _))
    (by
      intro a ha
      obtain ⟨b, -, rfl⟩ := List.mem_map.mp (List.mem_dedup.mp (List.mem_filter.mp ha).1)
      exact lower_lower b)
    (by
      intro a ha q hq hkey
      obtain ⟨p, hp, rfl⟩ := List.mem_map.mp hq
      obtain ⟨-, hworld, htype, haddress⟩ := hsame p
        ((p.isFor world permission && decide (p.address ∈ (addresses.map lower).dedup)) = true)
      have hnone := (List.mem_filter.mp ha).2
      rw [Bool.not_eq_true', List.any_eq_false] at hnone
      simp only [Permission.key, hworld, htype, haddress, Prod.mk.injEq] at hkey
      exact hnone p hp (decide_eq_true hkey))
  exact ⟨happended, hfollows.trans hfollows'⟩

theorem addParcels_ok {db : Db} (h : PermissionsOk db) (world permission address : Text)
    (parcels : List Text) :
    PermissionsOk (db.addParcelsToPermission world permission address parcels) ∧
      Follows db (db.addParcelsToPermission world permission address parcels) := by
  have hcanon : ∀ q ∈ parcels.map canonicalizePointer, canonicalizePointer q = q := by
    intro q hq
    obtain ⟨q', -, rfl⟩ := List.mem_map.mp hq
    exact canonicalizePointer_idem q'
  unfold Db.addParcelsToPermission
  dsimp only
  split
  · rename_i id _
    refine mapParcels_ok h _ ?_ ?_
    · intro p
      split_ifs
      · exact ⟨rfl, rfl, rfl, rfl⟩
      · exact ⟨rfl, rfl, rfl, rfl⟩
    · intro p hp q hq
      split_ifs at hq
      · rcases List.mem_append.mp (List.mem_dedup.mp hq) with hq | hq
        · exact h.canonical p hp q hq
        · exact hcanon q hq
      · exact h.canonical p hp q hq
  · rename_i hnone
    refine append_ok h (List.nodup_singleton _) (List.nodup_singleton _) ?_ ?_ (Nat.le_succ db.nextId)
    · intro p hp q hq hkey
      obtain rfl := List.mem_singleton.mp hp
      have hclear := List.find?_eq_none.mp (Option.map_eq_none_iff.mp hnone) q hq
      simp only [Permission.key, Prod.mk.injEq] at hkey
      refine hclear ?_
      simp [Permission.isFor, hkey.1, hkey.2.1, hkey.2.2]
    · intro p hp
      obtain rfl := List.mem_singleton.mp hp
      exact ⟨le_rfl, Nat.lt_succ_self _, ⟨lower_lower world, lower_lower address⟩,
        fun q hq => hcanon q (List.mem_dedup.mp hq)⟩

theorem removeParcels_ok {db : Db} (h : PermissionsOk db) (id : ℕ) (parcels : List Text) :
    PermissionsOk (db.removeParcelsFromPermission id parcels) ∧
      Follows db (db.removeParcelsFromPermission id parcels) := by
  refine mapParcels_ok h _ ?_ ?_
  · intro p
    split_ifs
    · exact ⟨rfl, rfl, rfl, rfl⟩
    · exact ⟨rfl, rfl, rfl, rfl⟩
  · intro p hp q hq
    split_ifs at hq
    · exact h.canonical p hp q (List.mem_filter.mp hq).1
    · exact h.canonical p hp q hq

/-! ### One step of a request -/

section Requests

variable {pointersOf : Text → List Text}

theorem canonical_parcels {parcels : List Text} (h : isCanonicalParcelSet parcels = true) {p : Text}
    (hp : p ∈ parcels) : canonicalizePointer p = p :=
  canonicalizePointer_of_canonical ((of_decide_eq_true h).2.2 p hp)

theorem needs_overlapping {db : Db} (hscenes : ScenesOk pointersOf db.worldScenes) (world : Text)
    {task : Task} (hsome : task.parcels pointersOf ≠ []) :
    Needs pointersOf task
      (task.parcels pointersOf ++
        (db.scenesOverlappingParcels world (task.parcels pointersOf)).flatMap fun s =>
          s.parcels.map canonicalizePointer)
      ((db.scenesOverlappingParcels world (task.parcels pointersOf)).map WorldScene.entityId) where
  own p hp := List.mem_append_left _ hp
  met id hid p hp := by
    obtain ⟨s, hs, rfl⟩ := List.mem_map.mp hid
    obtain ⟨hparcels, hcanon⟩ := hscenes.footprint s (List.mem_filter.mp hs).1
    refine List.mem_append_right _ (List.mem_flatMap.mpr ⟨s, hs, ?_⟩)
    rw [hparcels]
    exact List.mem_map.mpr ⟨p, hp, canonical_parcels hcanon hp⟩
  some hnil := hsome (List.append_eq_nil_iff.mp hnil).1

theorem unique_permission {db : Db} (h : PermissionsOk db) {p q : Permission}
    (hp : p ∈ db.worldPermissions) (hq : q ∈ db.worldPermissions) (hid : p.id = q.id) : p = q :=
  List.inj_on_of_nodup_map h.distinct hp hq hid

theorem known_records {events : List Event} {db : Db} (hdb : (run pointersOf events).db = db)
    (h : PermissionsOk db) (world signer : Text) :
    ∀ record ∈ db.deploymentRecords world signer, Known pointersOf events db world signer record := by
  intro record hrecord
  obtain ⟨p, hp, rfl⟩ := List.mem_map.mp hrecord
  obtain ⟨hin, hfor⟩ := List.mem_filter.mp hp
  rw [Bool.and_eq_true, decide_eq_true_eq] at hfor
  refine ⟨h.old p hin, ?_, ?_⟩
  · intro q hq hid
    obtain rfl := unique_permission h hq hin hid
    exact hfor
  · intro hwide parcels
    refine ⟨events, List.prefix_rfl, ?_⟩
    rw [hdb]
    exact ⟨p, hin, hfor, .inl (of_decide_eq_true hwide)⟩

theorem covers_of_page {events : List Event} {db : Db} {world signer : Text} {record : ℕ × Bool}
    {required : List Text} (h : PermissionsOk db)
    (hknown : Known pointersOf events db world signer record)
    (hsome : required ≠ [])
    (hall : ∀ p ∈ required, p ∈ (db.getParcelsForPermission record.1).map canonicalizePointer) :
    Covers db world signer required := by
  have hpage : ∀ q ∈ required, ∃ p ∈ db.worldPermissions, p.id = record.1 ∧ q ∈ p.parcels := by
    intro q hq
    obtain ⟨q', hq', rfl⟩ := List.mem_map.mp (hall q hq)
    have hlisted := (List.perm_insertionSort _ _).mem_iff.mp (List.mem_of_mem_take hq')
    obtain ⟨p, hp, hin⟩ := List.mem_flatMap.mp hlisted
    obtain ⟨hp, hid⟩ := List.mem_filter.mp hp
    refine ⟨p, hp, of_decide_eq_true hid, ?_⟩
    rw [h.canonical p hp q' hin]
    exact hin
  obtain ⟨q, hq⟩ := List.exists_mem_of_ne_nil required hsome
  obtain ⟨p, hp, hid, -⟩ := hpage q hq
  refine ⟨p, hp, hknown.same p hp hid, .inr ?_⟩
  intro q' hq'
  obtain ⟨p', hp', hid', hin⟩ := hpage q' hq'
  rwa [unique_permission h hp hp' (hid.trans hid'.symm)]

theorem wide_of_permission {events : List Event} {db : Db} (hdb : (run pointersOf events).db = db)
    (h : PermissionsOk db) {world signer : Text}
    (hwide : db.hasWorldWidePermission world "deployment".toList signer = true) :
    WasWide pointersOf events world signer := by
  obtain ⟨p, hp, hgrant⟩ := List.any_eq_true.mp hwide
  rw [Bool.and_eq_true, decide_eq_true_eq] at hgrant
  obtain ⟨hfor, haddress, hall⟩ := hgrant
  refine fun parcels => ⟨events, List.prefix_rfl, ?_⟩
  rw [hdb]
  refine ⟨p, hp, ⟨hfor, ?_⟩, .inl hall⟩
  rw [(h.lowered p hp).2, haddress]

/-- Where a request stands after its next read. -/
theorem advance_sound {events : List Event} {db : Db} (hdb : (run pointersOf events).db = db)
    (hscenes : ScenesOk pointersOf db.worldScenes) (hpermissions : PermissionsOk db) {r : Request}
    (hdeploy : ∀ entityId, r.task = .deploy entityId →
      isCanonicalParcelSet (pointersOf entityId) = true)
    (h : Sound pointersOf events db r) :
    Sound pointersOf events db { r with phase := (advanceRequest pointersOf db r).2 } := by
  obtain ⟨world, signer, nameOwner, owns, task, phase⟩ := r
  cases phase with
  | fresh =>
    cases task with
    | undeployWorld =>
      simp only [advanceRequest]
      split_ifs with hwide
      · refine ⟨rfl, ?_⟩
        obtain ⟨record, hrecord, htrue⟩ := List.any_eq_true.mp hwide
        exact (known_records hdb hpermissions world signer record hrecord).wide htrue
      · trivial
    | updateSettings =>
      simp only [advanceRequest]
      split_ifs with hwide
      · exact ⟨rfl, wide_of_permission hdb hpermissions hwide⟩
      · trivial
    | postPermissions => trivial
    | deploy entityId =>
      refine ⟨rfl, needs_overlapping hscenes world ?_⟩
      exact (of_decide_eq_true (hdeploy entityId rfl)).1
    | undeployScene parcel =>
      exact ⟨rfl, needs_overlapping hscenes world (List.cons_ne_nil parcel [])⟩
  | overlapping required ids =>
    exact ⟨h.1, h.2, known_records hdb hpermissions world signer⟩
  | checking records required ids =>
    cases records with
    | nil => trivial
    | cons record records =>
      obtain ⟨htask, hneeds, hknown⟩ := h
      simp only [advanceRequest]
      split_ifs with hgranted
      · refine ⟨htask, required, hneeds, ?_⟩
        have hrecord := hknown record List.mem_cons_self
        rcases hgranted with hwide | hall
        · exact hrecord.wide hwide required
        · refine ⟨events, List.prefix_rfl, ?_⟩
          rw [hdb]
          exact covers_of_page hpermissions hrecord hneeds.some hall
      · exact ⟨htask, hneeds, fun record' hin => hknown record' (List.mem_cons_of_mem record hin)⟩
  | authorized replacement => trivial
  | done => trivial

end Requests

/-! ### The transaction of a request -/

section Commit

variable {pointersOf : Text → List Text}

theorem deployScene_some {db db' : Db} {scene : WorldScene} {nameOwner : Option Text}
    {replacement : SceneReplacement} (h : db.deployScene scene nameOwner replacement = some db') :
    db'.worlds = (db.putWorld scene.worldName nameOwner scene.deployer).worlds ∧
      db'.worldPermissions = db.worldPermissions ∧ db'.nextId = db.nextId ∧
      (∀ s ∈ db'.worldScenes, s = scene ∨ s ∈ db.worldScenes) ∧
      ∀ s ∈ db.worldScenes, s ∉ db'.worldScenes →
        (s.replacedBy scene.worldName scene.parcels = true ∧
          ∀ ids, replacement = .scopedTo ids → s.entityId ∈ ids) ∨
        (s.replacedBy scene.worldName scene.parcels = false ∧ s.worldName = scene.worldName ∧
          s.entityId = scene.entityId) := by
  have hput : ∀ rest : Db, (∀ s ∈ rest.worldScenes, s ∈ db.worldScenes) →
      (∀ s ∈ rest.worldScenes, s.replacedBy scene.worldName scene.parcels = false) →
      (∀ s ∈ (rest.putScene scene).worldScenes, s = scene ∨ s ∈ db.worldScenes) ∧
      ∀ s ∈ rest.worldScenes, s ∉ (rest.putScene scene).worldScenes →
        s.replacedBy scene.worldName scene.parcels = false ∧ s.worldName = scene.worldName ∧
          s.entityId = scene.entityId := by
    intro rest hsub hclear
    refine ⟨?_, ?_⟩
    · intro s hs
      rcases List.mem_append.mp hs with hs | hs
      · exact .inr (hsub s (List.mem_filter.mp hs).1)
      · exact .inl (List.mem_singleton.mp hs)
    · intro s hs hgone
      refine ⟨hclear s hs, ?_⟩
      by_contra hkey
      exact hgone (List.mem_append_left _ (List.mem_filter.mpr ⟨hs, decide_eq_true hkey⟩))
  cases replacement with
  | unrestrictedOwner =>
    obtain rfl := Option.some.inj h
    obtain ⟨hnew, hgone⟩ := hput { db.putWorld scene.worldName nameOwner scene.deployer with
      worldScenes := db.worldScenes.filter fun s => !s.replacedBy scene.worldName scene.parcels }
      (fun s hs => (List.mem_filter.mp hs).1) (fun s hs => by simpa using (List.mem_filter.mp hs).2)
    refine ⟨rfl, rfl, rfl, hnew, ?_⟩
    intro s hs hout
    by_cases hover : s.replacedBy scene.worldName scene.parcels = true
    · exact .inl ⟨hover, by simp⟩
    · exact .inr (hgone s (List.mem_filter.mpr ⟨hs, by simpa using hover⟩) hout)
  | scopedTo ids =>
    simp only [Db.deployScene] at h
    split_ifs at h with hleft
    obtain rfl := Option.some.inj h
    obtain ⟨hnew, hgone⟩ := hput { db.putWorld scene.worldName nameOwner scene.deployer with
      worldScenes := db.worldScenes.filter fun s =>
        !(s.replacedBy scene.worldName scene.parcels && decide (s.entityId ∈ ids)) }
      (fun s hs => (List.mem_filter.mp hs).1)
      (fun s hs => by
        by_contra hover
        rw [Bool.not_eq_false] at hover
        exact hleft (List.any_eq_true.mpr ⟨s, hs, hover⟩))
    refine ⟨rfl, rfl, rfl, hnew, ?_⟩
    intro s hs hout
    by_cases hover : s.replacedBy scene.worldName scene.parcels = true ∧ s.entityId ∈ ids
    · refine .inl ⟨hover.1, ?_⟩
      intro ids' hids
      cases hids
      exact hover.2
    · have hkept : (!(s.replacedBy scene.worldName scene.parcels &&
          decide (s.entityId ∈ ids))) = true := by
        rcases not_and_or.mp hover with hclear | hid
        · simp [hclear]
        · simp [hid]
      exact .inr (hgone s (List.mem_filter.mpr ⟨hs, hkept⟩) hout)

/-- A scene with the id of the one deployed is on its parcels, so it is among those replaced. -/
theorem deployScene_changes {db db' : Db} {world entityId signer : Text}
    {nameOwner : Option Text} {replacement : SceneReplacement}
    (hscenes : ScenesOk pointersOf db.worldScenes)
    (hcanon : isCanonicalParcelSet (pointersOf entityId) = true)
    (h : db.deployScene ⟨world, entityId, signer, pointersOf entityId⟩ nameOwner replacement =
      some db') :
    ScenesOk pointersOf db'.worldScenes ∧
      (∀ s ∈ db'.worldScenes, s = ⟨world, entityId, signer, pointersOf entityId⟩ ∨
        s ∈ db.worldScenes) ∧
      ∀ s ∈ db.worldScenes, s ∉ db'.worldScenes → lower s.worldName = lower world ∧
        ∀ ids, replacement = .scopedTo ids → s.entityId ∈ ids := by
  obtain ⟨-, -, -, hnew, hgone⟩ := deployScene_some h
  refine ⟨⟨deployScene_apart hscenes.apart h, ?_⟩, hnew, ?_⟩
  · intro s hs
    rcases hnew s hs with rfl | hs
    · exact ⟨rfl, hcanon⟩
    · exact hscenes.footprint s hs
  · intro s hs hout
    rcases hgone s hs hout with ⟨hover, hids⟩ | ⟨hclear, hworld, hid⟩
    · exact ⟨(replacedBy_iff.mp hover).1, hids⟩
    · exfalso
      dsimp only at hworld hid
      have hover : s.replacedBy world (pointersOf entityId) = true := by
        refine replacedBy_iff.mpr ⟨by rw [hworld], ?_⟩
        rw [(hscenes.footprint s hs).1, hid]
        intro hdisjoint
        obtain ⟨p, hp⟩ := List.exists_mem_of_ne_nil _ (of_decide_eq_true hcanon).1
        exact hdisjoint hp hp
      rw [hover] at hclear
      cases hclear

theorem advanceRequest_db (pointersOf : Text → List Text) (db : Db) (r : Request) :
    (advanceRequest pointersOf db r).1 = db ∨
      ∃ replacement, r.phase = .authorized replacement ∧
        (advanceRequest pointersOf db r).1 = commit pointersOf db r replacement := by
  unfold advanceRequest
  split
  · split
    · split_ifs <;> exact .inl rfl
    · split_ifs <;> exact .inl rfl
    · exact .inl rfl
    · exact .inl rfl
  · exact .inl rfl
  · exact .inl rfl
  · dsimp only
    split_ifs <;> exact .inl rfl
  · rename_i replacement hphase
    exact .inr ⟨replacement, hphase, rfl⟩
  · exact .inl rfl

theorem createBasicWorld_eq (db : Db) (world owner : Text) :
    ∃ worlds, db.createBasicWorldIfNotExists world owner = { db with worlds := worlds } := by
  unfold Db.createBasicWorldIfNotExists
  split
  · exact ⟨db.worlds, rfl⟩
  · exact ⟨_, rfl⟩

theorem commit_permissions (pointersOf : Text → List Text) (db : Db) (r : Request)
    (replacement : SceneReplacement) :
    (commit pointersOf db r replacement).worldPermissions = db.worldPermissions ∧
      (commit pointersOf db r replacement).nextId = db.nextId := by
  unfold commit
  split
  · rename_i entityId _
    cases hdeploy : db.deployScene ⟨r.world, entityId, r.signer, pointersOf entityId⟩
        (r.nameOwner.map fun id => lower (ownerOf id)) replacement with
    | none => exact ⟨rfl, rfl⟩
    | some db' =>
      obtain ⟨-, hpermissions, hnext, -, -⟩ := deployScene_some hdeploy
      exact ⟨hpermissions, hnext⟩
  · split
    · exact ⟨rfl, rfl⟩
    · exact ⟨rfl, rfl⟩
  · exact ⟨rfl, rfl⟩
  · obtain ⟨worlds, hworlds⟩ := createBasicWorld_eq db r.world r.signer
    rw [hworlds]
    exact ⟨rfl, rfl⟩
  · obtain ⟨worlds, hworlds⟩ := createBasicWorld_eq db r.world r.signer
    rw [hworlds]
    exact ⟨rfl, rfl⟩

theorem createBasicWorld_owner {db : Db} {world signer : Text} {w : World} {o : Text}
    (hw : w ∈ (db.createBasicWorldIfNotExists world signer).worlds) (ho : w.owner = some o) :
    w ∈ db.worlds ∨ lower w.name = lower world ∧ lower o = lower signer := by
  unfold Db.createBasicWorldIfNotExists at hw
  split_ifs at hw
  · exact .inl hw
  · rcases List.mem_append.mp hw with hw | hw
    · exact .inl hw
    · obtain rfl := List.mem_singleton.mp hw
      obtain rfl := Option.some.inj ho
      exact .inr ⟨lower_lower world, lower_lower signer⟩

theorem putWorld_owner {db : Db} {name deployer : Text} {nameOwner : Option Text} {w : World}
    {o : Text} (hw : w ∈ (db.putWorld name nameOwner deployer).worlds) (ho : w.owner = some o) :
    w ∈ db.worlds ∨ w.name = name ∧
      (nameOwner = some o ∨ nameOwner = none ∧ o = deployer ∧ db.hasWorld name = false) := by
  unfold Db.putWorld at hw
  dsimp only at hw
  split_ifs at hw with hhas
  · obtain ⟨w', hw', rfl⟩ := List.mem_map.mp hw
    split_ifs at ho ⊢ with hname
    · cases nameOwner with
      | none => exact .inl hw'
      | some o' => exact .inr ⟨hname, .inl ho⟩
    · exact .inl hw'
  · rcases List.mem_append.mp hw with hw | hw
    · exact .inl hw
    · obtain rfl := List.mem_singleton.mp hw
      cases nameOwner with
      | none => exact .inr ⟨rfl, .inr ⟨rfl, (Option.some.inj ho).symm, by simpa using hhas⟩⟩
      | some o' => exact .inr ⟨rfl, .inl ho⟩

/-- Who a transaction writes into the row of its world: the owner that the index named, the deployer
of a world without row or owner, or the signer of a request on grants or settings. -/
theorem commit_owner {db : Db} {r : Request} {replacement : SceneReplacement} {w : World} {o : Text}
    (hw : w ∈ (commit pointersOf db r replacement).worlds) (ho : w.owner = some o) :
    w ∈ db.worlds ∨ lower w.name = lower r.world ∧
      ((∃ id, r.nameOwner = some id ∧ lower (ownerOf id) = lower o) ∨
        lower r.signer = lower o ∧
          ((∃ entityId, r.task = .deploy entityId) ∧ r.nameOwner = none ∧
              db.hasWorld r.world = false ∨
            r.task.meetsScenes = false)) := by
  have hbasic : w ∈ (db.createBasicWorldIfNotExists r.world r.signer).worlds →
      w ∈ db.worlds ∨ lower w.name = lower r.world ∧ lower r.signer = lower o := fun hw =>
    (createBasicWorld_owner hw ho).imp_right fun h => ⟨h.1, h.2.symm⟩
  unfold commit at hw
  split at hw
  · rename_i entityId htask
    cases hdeploy : db.deployScene ⟨r.world, entityId, r.signer, pointersOf entityId⟩
        (r.nameOwner.map fun id => lower (ownerOf id)) replacement with
    | none =>
      rw [hdeploy] at hw
      exact .inl hw
    | some db' =>
      rw [hdeploy, Option.getD_some, (deployScene_some hdeploy).1] at hw
      refine (putWorld_owner hw ho).imp_right ?_
      rintro ⟨hname, hnamed | ⟨hnone, rfl, hnew⟩⟩
      · obtain ⟨id, hid, rfl⟩ := Option.map_eq_some_iff.mp hnamed
        exact ⟨by rw [hname], .inl ⟨id, hid, (lower_lower _).symm⟩⟩
      · exact ⟨by rw [hname], .inr ⟨rfl, .inl ⟨⟨entityId, htask⟩, by simpa using hnone, hnew⟩⟩⟩
  · split at hw
    · exact .inl hw
    · exact .inl hw
  · exact .inl hw
  · rename_i htask
    exact (hbasic hw).imp_right fun h => ⟨h.1, .inr ⟨h.2, .inr (by rw [htask]; rfl)⟩⟩
  · rename_i htask
    exact (hbasic hw).imp_right fun h => ⟨h.1, .inr ⟨h.2, .inr (by rw [htask]; rfl)⟩⟩

/-- What a transaction adds is the scene of its task; what it removes is of its world and, where it
is bound to some scenes, one of these. -/
theorem commit_changes {db : Db} {r : Request} (replacement : SceneReplacement)
    (hscenes : ScenesOk pointersOf db.worldScenes)
    (hdeploy : ∀ entityId, r.task = .deploy entityId →
      isCanonicalParcelSet (pointersOf entityId) = true) :
    ScenesOk pointersOf (commit pointersOf db r replacement).worldScenes ∧
      (∀ s ∈ (commit pointersOf db r replacement).worldScenes, s ∈ db.worldScenes ∨
        s.worldName = r.world ∧ r.task.meetsScenes = true ∧
          s.parcels = r.task.parcels pointersOf) ∧
      ∀ s ∈ db.worldScenes, s ∉ (commit pointersOf db r replacement).worldScenes →
        lower s.worldName = lower r.world ∧
          (r.task.meetsScenes = true → ∀ ids, replacement = .scopedTo ids → s.entityId ∈ ids) := by
  have hfilter : ∀ p : WorldScene → Bool, ScenesOk pointersOf (db.worldScenes.filter p) := fun p =>
    ⟨hscenes.apart.filter p, fun s hs => hscenes.footprint s (List.mem_filter.mp hs).1⟩
  have hbasic : ∀ world signer, ScenesOk pointersOf
        (db.createBasicWorldIfNotExists world signer).worldScenes ∧
      (db.createBasicWorldIfNotExists world signer).worldScenes = db.worldScenes := by
    intro world signer
    obtain ⟨worlds, hworlds⟩ := createBasicWorld_eq db world signer
    rw [hworlds]
    exact ⟨hscenes, rfl⟩
  obtain ⟨world, signer, nameOwner, owns, task, phase⟩ := r
  cases task with
  | deploy entityId =>
    simp only [commit]
    cases hput : db.deployScene ⟨world, entityId, signer, pointersOf entityId⟩
        (nameOwner.map fun id => lower (ownerOf id)) replacement with
    | none => exact ⟨hscenes, fun s hs => .inl hs, fun s hs hout => absurd hs hout⟩
    | some db' =>
      obtain ⟨hok, hnew, hgone⟩ := deployScene_changes hscenes (hdeploy entityId rfl) hput
      refine ⟨hok, ?_, fun s hs hout => ⟨(hgone s hs hout).1, fun _ => (hgone s hs hout).2⟩⟩
      intro s hs
      rcases hnew s hs with rfl | hs
      · exact .inr ⟨rfl, rfl, rfl⟩
      · exact .inl hs
  | undeployScene parcel =>
    cases replacement with
    | unrestrictedOwner =>
      refine ⟨hfilter _, fun s hs => .inl (List.mem_filter.mp hs).1, ?_⟩
      intro s hs hout
      refine ⟨?_, fun _ ids hids => by cases hids⟩
      by_contra hworld
      exact hout (List.mem_filter.mpr ⟨hs, by simp [WorldScene.inWorld, hworld]⟩)
    | scopedTo ids =>
      refine ⟨hfilter _, fun s hs => .inl (List.mem_filter.mp hs).1, ?_⟩
      intro s hs hout
      constructor
      · by_contra hworld
        exact hout (List.mem_filter.mpr ⟨hs, by simp [WorldScene.inWorld, hworld]⟩)
      · intro _ ids' hids
        cases hids
        by_contra hid
        exact hout (List.mem_filter.mpr ⟨hs, by simp [hid]⟩)
  | undeployWorld =>
    refine ⟨hfilter _, fun s hs => .inl (List.mem_filter.mp hs).1, ?_⟩
    intro s hs hout
    refine ⟨?_, fun htask => by cases htask⟩
    by_contra hworld
    exact hout (List.mem_filter.mpr ⟨hs, by simp [WorldScene.inWorld, hworld]⟩)
  | postPermissions =>
    obtain ⟨hok, hsame⟩ := hbasic world signer
    refine ⟨hok, fun s hs => .inl ?_, fun s hs hout => absurd ?_ hout⟩
    · rwa [← hsame]
    · rwa [commit, hsame]
  | updateSettings =>
    obtain ⟨hok, hsame⟩ := hbasic world signer
    refine ⟨hok, fun s hs => .inl ?_, fun s hs hout => absurd ?_ hout⟩
    · rwa [← hsame]
    · rwa [commit, hsame]

end Commit

/-! ### Runs -/

section Runs

variable {pointersOf : Text → List Text}

theorem inv_initial : Inv pointersOf [] initial where
  owners := by simp [initial]
  named := by simp [initial]
  scenes := ⟨List.Pairwise.nil, by simp [initial]⟩
  permissions := ⟨by simp [initial], by simp [initial], by simp [initial], by simp [initial],
    by simp [initial]⟩
  deploys := by simp [initial]
  requests := by simp [initial]

/-- The owner's change of the grants. -/
theorem Inv.permit {events : List Event} {s : State} (h : Inv pointersOf events s) (e : Event)
    {db' : Db} (hworlds : db'.worlds = s.db.worlds) (hscenes : db'.worldScenes = s.db.worldScenes)
    (hok : PermissionsOk db' ∧ Follows s.db db') :
    Inv pointersOf (events ++ [e]) { s with db := db' } where
  owners w hw o ho :=
    (h.owners w (hworlds ▸ hw) o ho).later (List.prefix_append events [e])
  named r hr id hid := (h.named r hr id hid).later (List.prefix_append events [e])
  scenes := hscenes ▸ h.scenes
  permissions := hok.1
  deploys := h.deploys
  requests r hr := (h.requests r hr).later (List.prefix_append events [e]) hok.2

/-- The signer of a request that comes to its transaction could stand in the row of its world. -/
theorem Entitled.hadName {events : List Event} {db : Db} {r : Request}
    {replacement : SceneReplacement} (h : Entitled pointersOf events db r)
    (hphase : r.phase = .authorized replacement) (htask : r.task.meetsScenes = false) :
    HadName pointersOf events r.world r.signer := by
  obtain ⟨world, signer, nameOwner, owns, task, phase⟩ := r
  dsimp only at hphase htask
  subst hphase
  rcases h with ⟨-, howns | ⟨-, hwide⟩⟩ | hsound
  · unfold Owns at howns
    cases task with
    | deploy entityId => cases htask
    | undeployScene parcel => cases htask
    | undeployWorld => exact howns.imp_right .inl
    | postPermissions => exact howns.imp_right .inl
    | updateSettings => exact howns.imp_right .inl
  · exact .inr (.inr hwide)
  · cases replacement with
    | unrestrictedOwner => exact .inr (.inr hsound.2)
    | scopedTo ids => exact absurd (hsound.1.symm.trans htask) (by simp)

/-- Who stands in the rows of the worlds after a transaction. -/
theorem Inv.owners_commit {events : List Event} {s : State} (h : Inv pointersOf events s)
    (hs : run pointersOf events = s) {i : ℕ} {r : Request} (hr : s.requests[i]? = some r)
    {replacement : SceneReplacement} (hphase : r.phase = .authorized replacement) :
    ∀ w ∈ (commit pointersOf s.db r replacement).worlds, ∀ o, w.owner = some o →
      HadName pointersOf (events ++ [.advance i]) w.name o := by
  intro w hw o ho
  have hin : r ∈ s.requests := List.mem_of_getElem? hr
  have hbefore : events <+: events ++ [Event.advance i] := List.prefix_append _ _
  rcases commit_owner hw ho with hw | ⟨hworld, hnamed | ⟨hsigner, hdeploy | htask⟩⟩
  · exact (h.owners w hw o ho).later hbefore
  · obtain ⟨id, hid, hlower⟩ := hnamed
    exact .inl (((h.named r hin id hid).congr hworld.symm hlower).later hbefore)
  · obtain ⟨⟨entityId, htask⟩, hnone, hnew⟩ := hdeploy
    refine .inr (.inl ⟨events, i, r, entityId, replacement, List.prefix_rfl, ?_⟩)
    rw [hs]
    exact ⟨hr, htask, hphase, hnone, hnew, hworld.symm, hsigner⟩
  · exact (((h.requests r hin).hadName hphase htask).congr hworld.symm hsigner).later hbefore

theorem Inv.advance {events : List Event} {s : State} (h : Inv pointersOf events s)
    (hs : run pointersOf events = s) (i : ℕ) :
    Inv pointersOf (events ++ [.advance i]) (step pointersOf s (.advance i)) := by
  have hbefore : events <+: events ++ [Event.advance i] := List.prefix_append _ _
  unfold step
  dsimp only
  split
  · rename_i r hr
    have hin : r ∈ s.requests := List.mem_of_getElem? hr
    have hnext : (∀ w ∈ (advanceRequest pointersOf s.db r).1.worlds, ∀ o, w.owner = some o →
          HadName pointersOf (events ++ [.advance i]) w.name o) ∧
        ScenesOk pointersOf (advanceRequest pointersOf s.db r).1.worldScenes ∧
        PermissionsOk (advanceRequest pointersOf s.db r).1 ∧
        Follows s.db (advanceRequest pointersOf s.db r).1 := by
      rcases advanceRequest_db pointersOf s.db r with hsame | ⟨replacement, hphase, hcommit⟩
      · rw [hsame]
        exact ⟨fun w hw o ho => (h.owners w hw o ho).later hbefore, h.scenes, h.permissions,
          Follows.refl s.db⟩
      · obtain ⟨hpermissions, hid⟩ := commit_permissions pointersOf s.db r replacement
        obtain ⟨hscenes, -, -⟩ := commit_changes replacement h.scenes (h.deploys r hin)
        rw [hcommit]
        refine ⟨h.owners_commit hs hr hphase, hscenes, ⟨?_, ?_, ?_, ?_, ?_⟩, ⟨hid.ge, ?_⟩⟩
        · rw [hpermissions]
          exact h.permissions.distinct
        · rw [hpermissions]
          exact h.permissions.keys
        · rw [hpermissions, hid]
          exact h.permissions.old
        · rw [hpermissions]
          exact h.permissions.lowered
        · rw [hpermissions]
          exact h.permissions.canonical
        · rw [hpermissions]
          exact (Follows.refl s.db).kept
    have hfrom : ∀ r' ∈ s.requests.set i { r with phase := (advanceRequest pointersOf s.db r).2 },
        r' ∈ s.requests ∨ r' = { r with phase := (advanceRequest pointersOf s.db r).2 } :=
      fun r' hr' => List.mem_or_eq_of_mem_set hr'
    refine ⟨hnext.1, ?_, hnext.2.1, hnext.2.2.1, ?_, ?_⟩
    · intro r' hr'
      rcases hfrom r' hr' with hr' | rfl
      · exact fun id hid => (h.named r' hr' id hid).later hbefore
      · exact fun id hid => (h.named r hin id hid).later hbefore
    · intro r' hr'
      rcases hfrom r' hr' with hr' | rfl
      · exact h.deploys r' hr'
      · exact h.deploys r hin
    · intro r' hr'
      rcases hfrom r' hr' with hr' | rfl
      · exact (h.requests r' hr').later hbefore hnext.2.2.2
      · have hcommitted := (h.requests r hin).imp_right fun hsound =>
          advance_sound (by rw [hs]) h.scenes h.permissions (h.deploys r hin) hsound
        exact Entitled.later hcommitted hbefore hnext.2.2.2
  · exact ⟨fun w hw o ho => (h.owners w hw o ho).later hbefore,
      fun r hr id hid => (h.named r hr id hid).later hbefore, h.scenes, h.permissions, h.deploys,
      fun r hr => (h.requests r hr).later hbefore (Follows.refl s.db)⟩

theorem mem_drop {requests : List Request} {i : ℕ} {r : Request}
    (h : r ∈ requests.modify i fun r => { r with phase := .done }) :
    ∃ r' ∈ requests, r.task = r'.task ∧ (r.world = r'.world ∧ r.nameOwner = r'.nameOwner) ∧
      (r = r' ∨ r.phase = .done) := by
  obtain ⟨j, hj⟩ := List.mem_iff_getElem?.mp h
  rw [List.getElem?_modify] at hj
  obtain ⟨r', hr', hchanged⟩ := Option.map_eq_some_iff.mp hj
  refine ⟨r', List.mem_of_getElem? hr', ?_⟩
  split_ifs at hchanged
  · subst hchanged
    exact ⟨rfl, ⟨rfl, rfl⟩, .inr rfl⟩
  · subst hchanged
    exact ⟨rfl, ⟨rfl, rfl⟩, .inl rfl⟩

/-- Who comes as the owner, but to deploy, is named by the row of the world, or else by the index. -/
theorem owned_hadName {events : List Event} {s : State} (h : Inv pointersOf events s)
    {world signer : Text} {nameOwner : Option Text} {task : Task}
    (howned : s.db.ownedBy world signer nameOwner task = true) (htask : ∀ id, task ≠ .deploy id) :
    HadName pointersOf (events ++ [.arrive world signer nameOwner task]) world signer := by
  rw [Db.ownedBy] at howned
  · cases howner : s.db.resolveWorldOwner world nameOwner with
    | none =>
      rw [howner] at howned
      cases howned
    | some o =>
      rw [howner] at howned
      have hsigner : lower o = lower signer := of_decide_eq_true howned
      rcases Option.or_eq_some_iff.mp howner with hstored | ⟨-, hindex⟩
      · obtain ⟨w, hw, howner⟩ := Option.bind_eq_some_iff.mp hstored
        have hname : lower w.name = lower world := by simpa using List.find?_some hw
        have hrow := h.owners w (List.mem_of_find?_eq_some hw) o howner
        exact (hrow.congr hname hsigner).later (List.prefix_append _ _)
      · obtain ⟨id, rfl, rfl⟩ := Option.map_eq_some_iff.mp hindex
        rw [lower_lower] at hsigner
        exact .inl ⟨world, signer, id, task, by simp, rfl, hsigner⟩
  · exact htask

/-- A request as it comes. -/
structure Received (pointersOf : Text → List Text) (db : Db) (world signer : Text)
    (nameOwner : Option Text) (task : Task) (r : Request) : Prop where
  sameWorld : lower r.world = lower world
  sameSigner : lower r.signer = lower signer
  sameOwner : r.nameOwner = nameOwner
  owns : r.owns = db.ownedBy world signer nameOwner task
  phase : r.phase = .fresh ∨ r.owns = true
  sameTask : (∃ id, task = .deploy id ∧ r.task = .deploy id ∧
      isCanonicalParcelSet (pointersOf id) = true) ∨
    (∀ id, task ≠ .deploy id) ∧ ∀ id, r.task ≠ .deploy id

theorem received_some {db : Db} {world signer : Text} {nameOwner : Option Text} {task : Task}
    {r : Request} (hr : received pointersOf db world signer nameOwner task = some r) :
    Received pointersOf db world signer nameOwner task r := by
  have hphase : ∀ owns : Bool, (if owns = true then Phase.authorized .unrestrictedOwner
      else .fresh) = .fresh ∨ owns = true := by decide
  cases task with
  | deploy id =>
    by_cases hcanon : isCanonicalParcelSet (pointersOf id) = true
    · simp only [received, if_pos hcanon] at hr
      obtain rfl := Option.some.inj hr
      exact ⟨lower_lower world, lower_lower signer, rfl, rfl, hphase _, .inl ⟨id, rfl, rfl, hcanon⟩⟩
    · simp only [received, if_neg hcanon] at hr
      cases hr
  | undeployScene parcel =>
    obtain rfl := Option.some.inj hr
    exact ⟨rfl, rfl, rfl, rfl, hphase _, .inr ⟨by simp, by simp⟩⟩
  | undeployWorld =>
    obtain rfl := Option.some.inj hr
    exact ⟨rfl, rfl, rfl, rfl, hphase _, .inr ⟨by simp, by simp⟩⟩
  | postPermissions =>
    obtain rfl := Option.some.inj hr
    exact ⟨rfl, rfl, rfl, rfl, hphase _, .inr ⟨by simp, by simp⟩⟩
  | updateSettings =>
    obtain rfl := Option.some.inj hr
    exact ⟨rfl, rfl, rfl, rfl, hphase _, .inr ⟨by simp, by simp⟩⟩

theorem owns_iff {events : List Event} {r : Request} (h : ∀ id, r.task ≠ .deploy id) :
    Owns pointersOf events r ↔
      Named events r.world r.signer ∨ Founded pointersOf events r.world r.signer := by
  unfold Owns
  split
  · rename_i id htask
    exact absurd htask (h id)
  · rfl

theorem Received.entitled {events : List Event} {s : State} (h : Inv pointersOf events s)
    {world signer : Text} {nameOwner : Option Text} {task : Task} {r : Request}
    (hr : Received pointersOf s.db world signer nameOwner task r) :
    Entitled pointersOf (events ++ [.arrive world signer nameOwner task]) s.db r := by
  rcases hr.phase with hfresh | howns
  · refine .inr ?_
    simp only [Sound, hfresh]
  · refine .inl ⟨howns, ?_⟩
    rcases hr.sameTask with ⟨id, rfl, htask, -⟩ | ⟨hgiven, htask⟩
    · left
      have hindex : nameOwner.any (addressMatchesAccountId signer) = true := hr.owns.symm.trans howns
      simp only [Owns, htask, hr.sameOwner]
      unfold addressMatchesAccountId at hindex ⊢
      rwa [hr.sameSigner]
    · have hname := (owned_hadName h (hr.owns.symm.trans howns) hgiven).congr hr.sameWorld.symm
        hr.sameSigner.symm
      rcases hname with hnamed | hfounded | hwide
      · exact .inl ((owns_iff htask).mpr (.inl hnamed))
      · exact .inl ((owns_iff htask).mpr (.inr hfounded))
      · exact .inr ⟨htask, hwide⟩

theorem inv_step {events : List Event} {s : State} (h : Inv pointersOf events s)
    (hs : run pointersOf events = s) (e : Event) :
    Inv pointersOf (events ++ [e]) (step pointersOf s e) := by
  have hbefore : events <+: events ++ [e] := List.prefix_append _ _
  have howners : ∀ w ∈ s.db.worlds, ∀ o, w.owner = some o →
      HadName pointersOf (events ++ [e]) w.name o :=
    fun w hw o ho => (h.owners w hw o ho).later hbefore
  have hlater : ∀ r ∈ s.requests, Entitled pointersOf (events ++ [e]) s.db r :=
    fun r hr => (h.requests r hr).later hbefore (Follows.refl s.db)
  cases e with
  | arrive world signer nameOwner task =>
    refine ⟨howners, ?_, h.scenes, h.permissions, ?_, ?_⟩
    · intro r hr id hid
      rcases List.mem_append.mp hr with hr | hr
      · exact (h.named r hr id hid).later hbefore
      · have hnew := received_some (Option.mem_toList.mp hr)
        rw [hnew.sameOwner] at hid
        exact ⟨world, signer, id, task, by simp [hid], hnew.sameWorld.symm, rfl⟩
    · intro r hr entityId hdeploy
      rcases List.mem_append.mp hr with hr | hr
      · exact h.deploys r hr entityId hdeploy
      · rcases (received_some (Option.mem_toList.mp hr)).sameTask with ⟨id, -, htask, hcanon⟩ | hnone
        · cases htask.symm.trans hdeploy
          exact hcanon
        · exact absurd hdeploy (hnone.2 entityId)
    · intro r hr
      rcases List.mem_append.mp hr with hr | hr
      · exact hlater r hr
      · exact (received_some (Option.mem_toList.mp hr)).entitled h
  | advance i => exact h.advance hs i
  | drop i =>
    refine ⟨howners, ?_, h.scenes, h.permissions, ?_, ?_⟩
    · intro r hr id hid
      obtain ⟨r', hr', -, ⟨hworld, hname⟩, -⟩ := mem_drop hr
      rw [hname] at hid
      rw [hworld]
      exact (h.named r' hr' id hid).later hbefore
    · intro r hr
      obtain ⟨r', hr', htask, -, -⟩ := mem_drop hr
      rw [htask]
      exact h.deploys r' hr'
    · intro r hr
      obtain ⟨r', hr', -, -, rfl | hdone⟩ := mem_drop hr
      · exact hlater r hr'
      · refine .inr ?_
        simp only [Sound, hdone]
  | grantWorldWide world permission addresses =>
    exact h.permit _ rfl rfl (grantWorldWide_ok h.permissions world permission addresses)
  | removeAddresses world permission addresses =>
    exact h.permit _ rfl rfl (removeAddresses_ok h.permissions world permission addresses)
  | addParcels world permission address parcels =>
    exact h.permit _ (by unfold Db.addParcelsToPermission; dsimp only; split <;> rfl)
      (by unfold Db.addParcelsToPermission; dsimp only; split <;> rfl)
      (addParcels_ok h.permissions world permission address parcels)
  | removeParcels id parcels =>
    exact h.permit _ rfl rfl (removeParcels_ok h.permissions id parcels)

theorem run_inv (pointersOf : Text → List Text) (events : List Event) :
    Inv pointersOf events (run pointersOf events) := by
  induction events using List.reverseRecOn with
  | nil => exact inv_initial
  | append_singleton events e ih =>
    rw [run_concat]
    exact inv_step ih rfl e

/-- Whatever requests come between each other's reads and transactions, and however the owner changes
the grants meanwhile, no two scenes of a world share a parcel. -/
theorem scenes_stay_apart (events : List Event) : Apart (run pointersOf events).db.worldScenes :=
  (run_inv pointersOf events).scenes.apart

/-- What a scene's coming or going says of the request whose transaction it was. -/
theorem Entitled.covers {events : List Event} {s : State} (h : Inv pointersOf events s) {r : Request}
    {replacement : SceneReplacement} (hphase : r.phase = .authorized replacement)
    (hentitled : Entitled pointersOf events s.db r) {scene : WorldScene}
    (hscene : (scene ∈ s.db.worldScenes ∧
        (r.task.meetsScenes = true → ∀ ids, replacement = .scopedTo ids → scene.entityId ∈ ids)) ∨
      r.task.meetsScenes = true ∧ scene.parcels = r.task.parcels pointersOf) :
    Owns pointersOf events r ∨ WasCovered pointersOf events r.world r.signer scene.parcels := by
  rcases hentitled with ⟨-, howns | ⟨-, hwide⟩⟩ | hsound
  · exact .inl howns
  · exact .inr (hwide scene.parcels)
  · right
    unfold Sound at hsound
    rw [hphase] at hsound
    cases replacement with
    | unrestrictedOwner => exact hsound.2 scene.parcels
    | scopedTo ids =>
      obtain ⟨htask, required, hneeds, before, hearlier, hcover⟩ := hsound
      refine ⟨before, hearlier, hcover.mono ?_⟩
      rcases hscene with ⟨hin, hids⟩ | ⟨-, hparcels⟩
      · rw [(h.scenes.footprint scene hin).1]
        exact hneeds.met scene.entityId (hids htask ids rfl)
      · rw [hparcels]
        exact hneeds.own

/-- A scene comes or goes only by a request for its world. Its signer held at some time before a grant
that covers all parcels of the scene, or came as the owner: for a deploy, the index of names said so;
for an undeploy, it said so to this request or an earlier one, or a deploy of his entered the world while
the index named nobody. -/
theorem change_was_granted {events : List Event} {e : Event} {scene : WorldScene}
    (h : ¬(scene ∈ (run pointersOf events).db.worldScenes ↔
      scene ∈ (run pointersOf (events ++ [e])).db.worldScenes)) :
    ∃ i r, e = .advance i ∧ (run pointersOf events).requests[i]? = some r ∧
      lower r.world = lower scene.worldName ∧
      (Owns pointersOf events r ∨ ∃ before, before <+: events ∧
        Covers (run pointersOf before).db r.world r.signer scene.parcels) := by
  have hinv := run_inv pointersOf events
  rw [run_concat] at h
  cases e with
  | advance i =>
    simp only [step] at h
    split at h
    · rename_i r hr
      have hin : r ∈ (run pointersOf events).requests := List.mem_of_getElem? hr
      refine ⟨i, r, rfl, hr, ?_⟩
      rcases advanceRequest_db pointersOf (run pointersOf events).db r with
        hsame | ⟨replacement, hphase, hcommit⟩
      · rw [hsame] at h
        exact absurd Iff.rfl h
      · rw [hcommit] at h
        obtain ⟨-, hnew, hgone⟩ := commit_changes replacement hinv.scenes (hinv.deploys r hin)
        by_cases hbefore : scene ∈ (run pointersOf events).db.worldScenes
        · obtain ⟨hworld, hids⟩ := hgone scene hbefore fun hafter => h (iff_of_true hbefore hafter)
          exact ⟨hworld.symm, (hinv.requests r hin).covers hinv hphase (.inl ⟨hbefore, hids⟩)⟩
        · have hafter := not_not.mp fun hafter => h (iff_of_false hbefore hafter)
          obtain ⟨hworld, hadded⟩ := (hnew scene hafter).resolve_left hbefore
          exact ⟨by rw [hworld], (hinv.requests r hin).covers hinv hphase (.inr hadded)⟩
    · exact absurd Iff.rfl h
  | addParcels world permission address parcels =>
    simp only [step, Db.addParcelsToPermission] at h
    split at h <;> exact absurd Iff.rfl h
  | arrive world signer nameOwner task => exact absurd Iff.rfl h
  | drop i => exact absurd Iff.rfl h
  | grantWorldWide world permission addresses => exact absurd Iff.rfl h
  | removeAddresses world permission addresses => exact absurd Iff.rfl h
  | removeParcels id parcels => exact absurd Iff.rfl h

/-- An owner's scene, a grant for its parcel and the one beside it, and the reads of a deploy. -/
def replacing : List Event :=
  let world := "w.dcl.eth".toList
  let owner := some "0xa-ETHEREUM".toList
  let grantee := "0xB".toList
  [.arrive world "0xA".toList owner (.deploy "s1".toList), .advance 0,
    .addParcels world "deployment".toList grantee ["0,0".toList, "0,01".toList],
    .arrive world grantee owner (.deploy "s2".toList), .advance 1, .advance 1, .advance 1]

def twoScenes (id : Text) : List Text :=
  if id = "s1".toList then ["0,0".toList] else ["0,1".toList, "0,0".toList]

/-- The transaction of that deploy replaces the owner's scene. -/
theorem change_was_granted_replaced :
    let scene : WorldScene := ⟨"w.dcl.eth".toList, "s1".toList, "0xa".toList, ["0,0".toList]⟩
    ∃ i r, Event.advance 1 = .advance i ∧ (run twoScenes replacing).requests[i]? = some r ∧
      lower r.world = lower scene.worldName ∧
      (Owns twoScenes replacing r ∨ ∃ before, before <+: replacing ∧
        Covers (run twoScenes before).db r.world r.signer scene.parcels) :=
  change_was_granted (by decide)

/-- The name has a new owner, and the old one still removes the scene. -/
example :
    let world := "w.dcl.eth".toList
    let sold : List Event := [
      .arrive world "0xa".toList (some "0xa-ETHEREUM".toList) (.deploy "s1".toList), .advance 0,
      .arrive world "0xA".toList (some "0xc-ETHEREUM".toList) .undeployWorld, .advance 1]
    (run twoScenes (sold.take 2)).db.worldScenes.length = 1 ∧
      (run twoScenes sold).db.worldScenes = [] := by decide

end Runs

end Catalyrst.WorldScenes
