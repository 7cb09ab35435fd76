import Catalyrst.Worlds.Pointer

/-!
# Scenes of a world and who may replace them

A world is a set of scenes, each on parcels of its own. A deploy replaces the scenes it overlaps. The
owner of the name may replace any; others hold grants, for the whole world or for some parcels. The
index of names says who owns a name now, the row of the world who was written there as its owner.
-/

namespace Catalyrst.WorldScenes

def lower (s : Text) : Text := s.map Char.toLower

/-- The text before the first dash of `<address>-<network>`. -/
def ownerOf (accountId : Text) : Text := accountId.takeWhile fun c => c ≠ '-'

def addressMatchesAccountId (address accountId : Text) : Bool :=
  decide (lower (ownerOf accountId) = lower address)

structure World where
  name : Text
  owner : Option Text
deriving DecidableEq, Repr

structure WorldScene where
  worldName : Text
  entityId : Text
  deployer : Text
  parcels : List Text
deriving DecidableEq, Repr

/-- A grant without parcels is for the whole world. -/
structure Permission where
  id : ℕ
  worldName : Text
  permissionType : Text
  address : Text
  parcels : List Text
deriving DecidableEq, Repr

structure Db where
  worlds : List World
  worldScenes : List WorldScene
  worldPermissions : List Permission
  nextId : ℕ
deriving DecidableEq, Repr

/-- Which of the scenes there a deploy may replace. -/
inductive SceneReplacement where
  | unrestrictedOwner
  | scopedTo (entityIds : List Text)
deriving DecidableEq, Repr

/-! ### Worlds -/

namespace Db

variable (db : Db)

def storedOwner (world : Text) : Option Text :=
  (db.worlds.find? fun w => decide (lower w.name = lower world)).bind World.owner

/-- The owner in the row of the world, and only without one the index's answer. -/
def resolveWorldOwner (world : Text) (nameOwner : Option Text) : Option Text :=
  (db.storedOwner world).or (nameOwner.map fun id => lower (ownerOf id))

def hasWorld (name : Text) : Bool := db.worlds.any fun w => decide (w.name = name)

def createBasicWorldIfNotExists (world owner : Text) : Db :=
  if db.hasWorld (lower world) then db
  else { db with worlds := db.worlds ++ [⟨lower world, some (lower owner)⟩] }

/-- `ON CONFLICT (name) DO UPDATE SET owner = COALESCE($2, worlds.owner)`; a new row falls back on the
deployer. -/
def putWorld (name : Text) (nameOwner : Option Text) (deployer : Text) : Db :=
  { db with
    worlds :=
      if db.hasWorld name then
        db.worlds.map fun w => if w.name = name then { w with owner := nameOwner.or w.owner } else w
      else db.worlds ++ [⟨name, nameOwner.or (some deployer)⟩] }

end Db

/-! ### Scenes -/

def WorldScene.inWorld (s : WorldScene) (world : Text) : Bool :=
  decide (lower s.worldName = lower world)

/-- `parcels && $2` -/
def WorldScene.overlaps (s : WorldScene) (parcels : List Text) : Bool :=
  s.parcels.any fun p => decide (p ∈ parcels)

def WorldScene.replacedBy (s : WorldScene) (world : Text) (parcels : List Text) : Bool :=
  s.inWorld world && s.overlaps parcels

namespace Db

variable (db : Db)

def scenesOverlappingParcels (world : Text) (parcels : List Text) : List WorldScene :=
  db.worldScenes.filter fun s => s.replacedBy world parcels

/-- `ON CONFLICT (world_name, entity_id) DO UPDATE` -/
def putScene (scene : WorldScene) : Db :=
  { db with
    worldScenes := (db.worldScenes.filter fun s =>
      decide ¬(s.worldName = scene.worldName ∧ s.entityId = scene.entityId)) ++ [scene] }

/-- The deploy's transaction; `none` where a scene is left that it may not replace. -/
def deployScene (scene : WorldScene) (nameOwner : Option Text) : SceneReplacement → Option Db
  | .unrestrictedOwner =>
    some (putScene { db.putWorld scene.worldName nameOwner scene.deployer with
      worldScenes := db.worldScenes.filter fun s =>
        !s.replacedBy scene.worldName scene.parcels } scene)
  | .scopedTo entityIds =>
    let rest := db.worldScenes.filter fun s =>
      !(s.replacedBy scene.worldName scene.parcels && decide (s.entityId ∈ entityIds))
    if rest.any fun s => s.replacedBy scene.worldName scene.parcels then none
    else some (putScene { db.putWorld scene.worldName nameOwner scene.deployer with
      worldScenes := rest } scene)

def undeployScene (world parcel : Text) (authorizedEntityIds : Option (List Text)) : Db :=
  { db with
    worldScenes := db.worldScenes.filter fun s =>
      !(s.inWorld world && decide (parcel ∈ s.parcels) &&
        (authorizedEntityIds.all fun ids => decide (s.entityId ∈ ids))) }

def undeployWorld (world : Text) : Db :=
  { db with worldScenes := db.worldScenes.filter fun s => !s.inWorld world }

end Db

/-! ### Grants -/

def Permission.isFor (p : Permission) (world permissionType : Text) : Bool :=
  decide (lower p.worldName = lower world ∧ p.permissionType = permissionType)

/-- No two grants have the same key. -/
def Permission.key (p : Permission) : Text × Text × Text :=
  (p.worldName, p.permissionType, p.address)

def newGrants (nextId : ℕ) (world permission : Text) (addresses : List Text) : List Permission :=
  (addresses.zipIdx nextId).map fun a => {
    id := a.2
    worldName := world
    permissionType := permission
    address := a.1
    parcels := [] }

namespace Db

variable (db : Db)

def grantAddressesWorldWidePermission (world permission : Text) (addresses : List Text) : Db :=
  let lowered := (addresses.map lower).dedup
  let added := lowered.filter fun a => !db.worldPermissions.any fun p =>
    decide (p.worldName = lower world ∧ p.permissionType = permission ∧ p.address = a)
  { db with
    worldPermissions :=
      (db.worldPermissions.map fun p =>
        if p.isFor world permission && decide (p.address ∈ lowered) then { p with parcels := [] }
        else p) ++
      newGrants db.nextId (lower world) permission added
    nextId := db.nextId + added.length }

def removeAddressesPermission (world permission : Text) (addresses : List Text) : Db :=
  { db with
    worldPermissions := db.worldPermissions.filter fun p =>
      !(p.isFor world permission && decide (p.address ∈ addresses.map lower)) }

def getAddressPermissionId (world permission address : Text) : Option ℕ :=
  (db.worldPermissions.find? fun p => p.isFor world permission && decide (p.address = lower address)).map
    Permission.id

def addParcelsToPermission (world permission address : Text) (parcels : List Text) : Db :=
  let canon := parcels.map canonicalizePointer
  match db.getAddressPermissionId world permission address with
  | some id =>
    { db with
      worldPermissions := db.worldPermissions.map fun p =>
        if p.id = id then { p with parcels := (p.parcels ++ canon).dedup } else p }
  | none =>
    { db with
      worldPermissions := db.worldPermissions ++ [{
        id := db.nextId
        worldName := lower world
        permissionType := permission
        address := lower address
        parcels := canon.dedup }]
      nextId := db.nextId + 1 }

def removeParcelsFromPermission (permissionId : ℕ) (parcels : List Text) : Db :=
  { db with
    worldPermissions := db.worldPermissions.map fun p =>
      if p.id = permissionId then
        { p with parcels := p.parcels.filter fun q => decide (q ∉ parcels.map canonicalizePointer) }
      else p }

def DEPLOY_PARCEL_PAGE : ℕ := 100000

/-- The first parcels of a grant, in order. -/
def getParcelsForPermission (permissionId : ℕ) : List Text :=
  (((db.worldPermissions.filter fun p => decide (p.id = permissionId)).flatMap
    Permission.parcels).insertionSort (· ≤ ·)).take DEPLOY_PARCEL_PAGE

def hasWorldWidePermission (world permission address : Text) : Bool :=
  db.worldPermissions.any fun p =>
    p.isFor world permission && decide (p.address = lower address ∧ p.parcels = [])

/-- The grants of an address to deploy in a world, and whether each is for the whole world. -/
def deploymentRecords (world signer : Text) : List (ℕ × Bool) :=
  (db.worldPermissions.filter fun p =>
    p.isFor world "deployment".toList && decide (lower p.address = lower signer)).map fun p =>
      (p.id, decide (p.parcels = []))

end Db

/-! ### Scenes stay apart -/

/-- Scenes of one world share no parcel. -/
def Apart (scenes : List WorldScene) : Prop :=
  scenes.Pairwise fun s t => lower s.worldName = lower t.worldName → List.Disjoint s.parcels t.parcels

theorem Apart.filter {scenes : List WorldScene} (h : Apart scenes) (p : WorldScene → Bool) :
    Apart (scenes.filter p) := List.Pairwise.sublist List.filter_sublist h

theorem replacedBy_iff {s : WorldScene} {world : Text} {parcels : List Text} :
    s.replacedBy world parcels = true ↔
      lower s.worldName = lower world ∧ ¬ List.Disjoint s.parcels parcels := by
  simp [WorldScene.replacedBy, WorldScene.inWorld, WorldScene.overlaps, List.Disjoint]

theorem putScene_apart {db : Db} {scene : WorldScene} (h : Apart db.worldScenes)
    (hclear : ∀ s ∈ db.worldScenes, s.replacedBy scene.worldName scene.parcels = false) :
    Apart (db.putScene scene).worldScenes := by
  refine List.pairwise_append.mpr ⟨h.filter _, List.pairwise_singleton _ scene, ?_⟩
  intro s hs t ht hworld
  obtain rfl := List.mem_singleton.mp ht
  have hnot := hclear s (List.mem_filter.mp hs).1
  by_contra hshare
  rw [replacedBy_iff.mpr ⟨hworld, hshare⟩] at hnot
  cases hnot

theorem deployScene_apart {db db' : Db} {scene : WorldScene} {nameOwner : Option Text}
    {replacement : SceneReplacement} (h : Apart db.worldScenes)
    (hdeploy : db.deployScene scene nameOwner replacement = some db') :
    Apart db'.worldScenes := by
  cases replacement with
  | unrestrictedOwner =>
    obtain rfl := Option.some.inj hdeploy
    refine putScene_apart (h.filter _) ?_
    intro s hs
    simpa using (List.mem_filter.mp hs).2
  | scopedTo ids =>
    simp only [Db.deployScene] at hdeploy
    split_ifs at hdeploy with hleft
    obtain rfl := Option.some.inj hdeploy
    refine putScene_apart (h.filter _) ?_
    intro s hs
    by_contra hover
    rw [Bool.not_eq_false] at hover
    exact hleft (List.any_eq_true.mpr ⟨s, hs, hover⟩)

end Catalyrst.WorldScenes
