import Catalyrst.Lib.Buckets
import Catalyrst.Pulse.Sequences

/-!
# The area of interest (`interest.rs`)

The subjects a player sees are those of its realm within a radius, nearer ones on a
lower tier. They are looked for in the cells of a uniform grid around the player, and
the subjects of a scene listener on its parcels; the full scans that both queries
replace go through the active peers. Coordinates and radii are read as exact rationals.
-/

namespace Catalyrst.Pulse
open Catalyrst.Lib

/-! ### Positions -/

structure Vector3 where
  x : ℚ
  y : ℚ
  z : ℚ

/-- `quantize::decode`. -/
def decodeQuantized (encoded : U32) (min max : ℚ) (bits : ℕ) : ℚ :=
  encoded.val / (2 ^ bits - 1) * (max - min) + min

def decodeLocalPosition (positionX positionY positionZ : U32) : Vector3 where
  x := decodeQuantized positionX 0 16 Spec.POSITION_X
  y := decodeQuantized positionY 0 200 Spec.POSITION_Y
  z := decodeQuantized positionZ 0 16 Spec.POSITION_Z

/-- The `parcel_size` of the default options. -/
def PARCEL_SIZE : ℤ := 16

namespace ParcelEncoder

def decode (encoder : ParcelEncoder) (index : ℤ) : ℤ × ℤ :=
  (index.tmod encoder.width + encoder.minX, index.tdiv encoder.width + encoder.minZ)

def decodeToGlobalPosition (encoder : ParcelEncoder) (index : ℤ) (localPosition : Vector3) :
    Vector3 where
  x := ((encoder.decode index).1 * PARCEL_SIZE : ℤ) + localPosition.x
  y := localPosition.y
  z := ((encoder.decode index).2 * PARCEL_SIZE : ℤ) + localPosition.z

end ParcelEncoder

/-- The field `global_position`: whatever is published has that of its own parcel and position. -/
def PeerSnapshot.globalPosition (encoder : ParcelEncoder) (s : PeerSnapshot) : Vector3 :=
  encoder.decodeToGlobalPosition s.parcel
    (decodeLocalPosition s.positionX s.positionY s.positionZ)

/-! ### The grid -/

/-- `as i32`, which saturates. -/
def asI32 (v : ℤ) : ℤ := max (-2147483648) (min v 2147483647)

/-- `lo..=hi`. -/
def inclusive (lo hi : ℤ) : List ℤ := (List.range (hi + 1 - lo).toNat).map fun k : ℕ => lo + k

structure SpatialGrid where
  inverseCellSize : ℚ
  cells : OrdMap ℤ (List U32)
  peerCell : OrdMap U32 ℤ

namespace SpatialGrid

def new (cellSize : ℚ) : SpatialGrid := ⟨1 / cellSize, ∅, ∅⟩

def cellCoord (grid : SpatialGrid) (v : ℚ) : ℤ := asI32 ⌊v * grid.inverseCellSize⌋

/-- `((x as i64) << 32) | (z as u32 as i64)`. -/
def cellKey (x z : ℤ) : ℤ := x * 4294967296 + z % 4294967296

def key (grid : SpatialGrid) (position : Vector3) : ℤ :=
  cellKey (grid.cellCoord position.x) (grid.cellCoord position.z)

def remove (grid : SpatialGrid) (peer : U32) : SpatialGrid :=
  match grid.peerCell[peer]? with
  | none => grid
  | some k =>
    let cells := match grid.cells[k]? with
      | none => grid.cells
      | some bucket =>
        let bucket := swapRemove bucket peer
        if bucket = [] then grid.cells.erase k else grid.cells.insert k bucket
    { grid with peerCell := grid.peerCell.erase peer, cells := cells }

def set (grid : SpatialGrid) (peer : U32) (position : Vector3) : SpatialGrid :=
  let k := grid.key position
  if grid.peerCell[peer]? = some k then grid
  else
    let grid := grid.remove peer
    { grid with
      cells := grid.cells.insert k (grid.cells[k]?.getD [] ++ [peer])
      peerCell := grid.peerCell.insert peer k }

/-- The peers of the cells around `center`, in the order they are passed on. -/
def candidatesInRadius (grid : SpatialGrid) (center : Vector3) (radius : ℚ) : List U32 :=
  let cx := grid.cellCoord center.x
  let cz := grid.cellCoord center.z
  let r := asI32 ⌈radius * grid.inverseCellSize⌉
  (inclusive (cz - r) (cz + r)).flatMap fun gz =>
    (inclusive (cx - r) (cx + r)).flatMap fun gx => grid.cells[cellKey gx gz]?.getD []

end SpatialGrid

/-! ### Who is visible -/

structure SpatialAreaOfInterestOptions where
  tier0Radius : ℚ
  tier1Radius : ℚ
  maxRadius : ℚ

def SpatialAreaOfInterestOptions.default : SpatialAreaOfInterestOptions := ⟨20, 50, 100⟩

structure SpatialAreaOfInterest where
  tier0Sq : ℚ
  tier1Sq : ℚ
  maxDistanceSq : ℚ

namespace SpatialAreaOfInterest

def new (options : SpatialAreaOfInterestOptions) : SpatialAreaOfInterest where
  tier0Sq := options.tier0Radius * options.tier0Radius
  tier1Sq := options.tier1Radius * options.tier1Radius
  maxDistanceSq := options.maxRadius * options.maxRadius

def classify (aoi : SpatialAreaOfInterest) (distSq : ℚ) : Option Tier :=
  if aoi.maxDistanceSq < distSq then none
  else if distSq ≤ aoi.tier0Sq then some TIER_0
  else if distSq ≤ aoi.tier1Sq then some TIER_1
  else some TIER_2

def distSq (a b : Vector3) : ℚ := (a.x - b.x) * (a.x - b.x) + (a.z - b.z) * (a.z - b.z)

/-- What a candidate adds to the collector. -/
def entry (aoi : SpatialAreaOfInterest) (encoder : ParcelEncoder) (board : SnapshotBoard)
    (observer : U32) (observerRealm : Text) (observerPos : Vector3) (subject : U32) :
    Option InterestEntry :=
  if subject = observer then none
  else (board.tryRead subject).bind fun s =>
    if s.realm = some observerRealm then
      (aoi.classify (distSq (s.globalPosition encoder) observerPos)).map fun tier => ⟨subject, tier⟩
    else none

/-- The square root is taken of a square. -/
def getVisibleSubjects (aoi : SpatialAreaOfInterest) (encoder : ParcelEncoder) (board : SnapshotBoard)
    (grid : SpatialGrid) (observer : U32) (observerRealm : Option Text) (observerPos : Vector3) :
    List InterestEntry :=
  match observerRealm with
  | none => []
  | some realm => (grid.candidatesInRadius observerPos (Rat.sqrt aoi.maxDistanceSq)).filterMap
      (aoi.entry encoder board observer realm observerPos)

def getVisibleSubjectsLinear (aoi : SpatialAreaOfInterest) (encoder : ParcelEncoder)
    (board : SnapshotBoard) (activePeers : List U32) (observer : U32) (observerRealm : Option Text)
    (observerPos : Vector3) : List InterestEntry :=
  match observerRealm with
  | none => []
  | some realm => activePeers.filterMap (aoi.entry encoder board observer realm observerPos)

end SpatialAreaOfInterest

def collectSceneListenerSubjectsLinear (board : SnapshotBoard) (activePeers : List U32) (realm : Text)
    (parcels : List ℤ) (observer : U32) : List InterestEntry :=
  activePeers.filterMap fun subject =>
    if subject = observer then none
    else (board.tryRead subject).bind fun s =>
      if s.realm = some realm then
        if s.parcel ∈ parcels then some ⟨subject, TIER_0⟩ else none
      else none

/-! ### The active peers -/

/-- `binary_search` of an ascending list: where the id is, or where it goes. -/
def binarySearch (ids : List U32) (id : U32) : Except ℕ ℕ :=
  let pos := ids.countP (· < id)
  if ids[pos]? = some id then .ok pos else .error pos

def insertActive (ids : List U32) (id : U32) : List U32 :=
  match binarySearch ids id with
  | .ok _ => ids
  | .error pos => ids.insertIdx pos id

def removeActive (ids : List U32) (id : U32) : List U32 :=
  match binarySearch ids id with
  | .ok pos => ids.eraseIdx pos
  | .error _ => ids

theorem countP_of_ascending {a id : U32} {ids : List U32} (h : (a :: ids).Pairwise (· < ·))
    (hle : id ≤ a) : (a :: ids).countP (· < id) = 0 := by
  rw [List.countP_eq_zero]
  intro b hb
  rw [decide_eq_true_eq, not_lt]
  rcases List.mem_cons.mp hb with rfl | hb
  · exact hle
  · exact hle.trans (List.rel_of_pairwise_cons h hb).le

/-- The place that the search finds is that of the ascending order. -/
theorem search_of_ascending {ids : List U32} (h : ids.Pairwise (· < ·)) (id : U32) :
    (id ∈ ids → ids[ids.countP (· < id)]? = some id ∧
      ids.eraseIdx (ids.countP (· < id)) = ids.erase id) ∧
    (id ∉ ids → ids[ids.countP (· < id)]? ≠ some id ∧
      (ids.insertIdx (ids.countP (· < id)) id).Pairwise (· < ·)) := by
  induction ids with
  | nil => simp
  | cons a ids ih =>
    obtain ⟨hfound, hmissing⟩ := ih (List.Pairwise.of_cons h)
    rcases lt_trichotomy a id with hlt | rfl | hgt
    · have hcount : (a :: ids).countP (· < id) = ids.countP (· < id) + 1 := by
        rw [List.countP_cons_of_pos (by simpa using hlt)]
      rw [hcount]
      have hne : id ≠ a := ne_of_gt hlt
      constructor
      · intro hmem
        obtain ⟨hread, herase⟩ := hfound ((List.mem_cons.mp hmem).resolve_left hne)
        refine ⟨by simpa using hread, ?_⟩
        rw [List.eraseIdx_cons_succ, herase, List.erase_cons_tail (by simpa using Ne.symm hne)]
      · intro hmem
        rw [List.mem_cons, not_or] at hmem
        obtain ⟨hread, hpair⟩ := hmissing hmem.2
        refine ⟨by simpa using hread, ?_⟩
        rw [List.insertIdx_succ_cons, List.pairwise_cons]
        refine ⟨fun b hb => ?_, hpair⟩
        rcases List.eq_or_mem_of_mem_insertIdx hb with rfl | hb
        · exact hlt
        · exact List.rel_of_pairwise_cons h hb
    · rw [countP_of_ascending h le_rfl]
      exact ⟨fun _ => by simp, fun hmem => absurd List.mem_cons_self hmem⟩
    · rw [countP_of_ascending h hgt.le]
      constructor
      · intro hmem
        rcases List.mem_cons.mp hmem with rfl | hmem
        · exact absurd hgt (lt_irrefl _)
        · exact absurd ((List.rel_of_pairwise_cons h hmem).trans hgt) (lt_irrefl _)
      · intro hmem
        refine ⟨by simpa using ne_of_gt hgt, ?_⟩
        rw [List.insertIdx_zero, List.pairwise_cons]
        refine ⟨fun b hb => ?_, h⟩
        rcases List.mem_cons.mp hb with rfl | hb
        · exact hgt
        · exact hgt.trans (List.rel_of_pairwise_cons h hb)

theorem mem_insertActive {ids : List U32} (h : ids.Pairwise (· < ·)) (id : U32) :
    (insertActive ids id).Pairwise (· < ·) ∧ ∀ x, x ∈ insertActive ids id ↔ x = id ∨ x ∈ ids := by
  obtain ⟨hfound, hmissing⟩ := search_of_ascending h id
  unfold insertActive binarySearch
  dsimp only
  by_cases hmem : id ∈ ids
  · rw [if_pos (hfound hmem).1]
    refine ⟨h, fun x => (or_iff_right_of_imp ?_).symm⟩
    rintro rfl
    exact hmem
  · rw [if_neg (hmissing hmem).1]
    exact ⟨(hmissing hmem).2, fun x => List.mem_insertIdx List.countP_le_length⟩

theorem mem_removeActive {ids : List U32} (h : ids.Pairwise (· < ·)) (id : U32) :
    (removeActive ids id).Pairwise (· < ·) ∧ ∀ x, x ∈ removeActive ids id ↔ x ≠ id ∧ x ∈ ids := by
  obtain ⟨hfound, hmissing⟩ := search_of_ascending h id
  have hnodup : ids.Nodup := h.imp fun hlt => ne_of_lt hlt
  unfold removeActive binarySearch
  dsimp only
  by_cases hmem : id ∈ ids
  · rw [if_pos (hfound hmem).1]
    dsimp only
    rw [(hfound hmem).2]
    exact ⟨h.sublist List.erase_sublist, fun x => hnodup.mem_erase_iff⟩
  · rw [if_neg (hmissing hmem).1]
    refine ⟨h, fun x => (and_iff_right_of_imp fun hx => ?_).symm⟩
    rintro rfl
    exact hmem hx

end Catalyrst.Pulse
