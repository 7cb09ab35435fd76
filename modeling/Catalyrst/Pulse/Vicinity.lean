import Catalyrst.Pulse.BatchAgreement
import Catalyrst.Pulse.Interest

/-!
# The queries find what the full scans find

The parcel index and the grid are both items in buckets. Along the changes that the
server makes of its board, they and the list of active peers stay true to it: a peer
that can be read is indexed under the parcel and the cell of what is read.
-/

namespace Catalyrst.Pulse
open Catalyrst.Lib

/-! ### The two indexes -/

/-- The order of a bucket changes, and one occurrence goes. -/
theorem swapRemove_perm (bucket : List U32) (id : U32) :
    (swapRemove bucket id).Perm (bucket.erase id) := by
  unfold swapRemove
  by_cases hmem : id ∈ bucket
  · obtain ⟨before, after, rfl, hbefore⟩ := List.eq_append_cons_of_mem hmem
    have hpos : (before ++ id :: after).findIdx? (· = id) = some before.length := by
      have hnone : before.findIdx? (· = id) = none := by
        rw [List.findIdx?_eq_none_iff]
        intro x hx
        rw [decide_eq_false_iff_not]
        rintro rfl
        exact hbefore hx
      rw [List.findIdx?_append, hnone, Option.none_or, List.findIdx?_cons]
      simp
    have hset : ∀ last, (before ++ id :: after).set before.length last = before ++ last :: after :=
      fun last => by rw [List.set_append_right _ _ le_rfl, Nat.sub_self, List.set_cons_zero]
    rw [hpos, List.erase_append_right _ hbefore, List.erase_cons_head]
    dsimp only
    rw [hset]
    rcases List.eq_nil_or_concat after with rfl | ⟨init, last, rfl⟩
    · simp
    · have hlast : (before ++ id :: init.concat last).getLastD id = last := by
        rw [List.concat_eq_append, ← List.cons_append, ← List.append_assoc, List.getLastD_concat]
      have hdrop : (before ++ last :: init.concat last).dropLast = before ++ last :: init := by
        rw [List.concat_eq_append, ← List.cons_append, ← List.append_assoc, List.dropLast_concat]
      rw [hlast, hdrop, List.concat_eq_append]
      have hswap : ([last] ++ init).Perm (init ++ [last]) := List.perm_append_comm
      exact hswap.append_left before
  · rw [List.erase_of_not_mem hmem]
    have hpos : bucket.findIdx? (· = id) = none := by
      rw [List.findIdx?_eq_none_iff]
      intro x hx
      rw [decide_eq_false_iff_not]
      rintro rfl
      exact hmem hx
    rw [hpos]

namespace SnapshotBoard

def parcels (board : SnapshotBoard) : Buckets ℤ U32 := ⟨board.parcelIndex, board.peerParcel⟩

theorem parcels_clearParcel (board : SnapshotBoard) (id : U32) :
    (board.clearParcel id).parcels = board.parcels.remove swapRemove id := by
  unfold clearParcel Buckets.remove
  cases hkey : board.peerParcel[id]? with
  | none => simp only [parcels, hkey]
  | some k =>
    simp only [parcels, hkey]
    cases board.parcelIndex[k]? <;> rfl

theorem parcels_setParcel (board : SnapshotBoard) (id : U32) (parcel : ℤ) :
    (board.setParcel id parcel).parcels = board.parcels.set swapRemove id parcel := by
  unfold setParcel Buckets.set
  by_cases hsame : board.peerParcel[id]? = some parcel
  · rw [if_pos hsame, if_pos (show board.parcels.keyOf[id]? = some parcel from hsame)]
  · rw [if_neg hsame, if_neg (show ¬ board.parcels.keyOf[id]? = some parcel from hsame),
      ← parcels_clearParcel]
    rfl

end SnapshotBoard

namespace SpatialGrid

def index (grid : SpatialGrid) : Buckets ℤ U32 := ⟨grid.cells, grid.peerCell⟩

theorem index_remove (grid : SpatialGrid) (peer : U32) :
    (grid.remove peer).index = grid.index.remove swapRemove peer ∧
    (grid.remove peer).inverseCellSize = grid.inverseCellSize := by
  unfold remove Buckets.remove
  cases hkey : grid.peerCell[peer]? with
  | none => simp only [index, hkey, and_self]
  | some k =>
    simp only [index, hkey]
    cases grid.cells[k]? <;> exact ⟨rfl, trivial⟩

theorem index_set (grid : SpatialGrid) (peer : U32) (position : Vector3) :
    (grid.set peer position).index = grid.index.set swapRemove peer (grid.key position) ∧
    (grid.set peer position).inverseCellSize = grid.inverseCellSize := by
  obtain ⟨hindex, hsize⟩ := grid.index_remove peer
  unfold set Buckets.set
  dsimp only
  by_cases hsame : grid.peerCell[peer]? = some (grid.key position)
  · rw [if_pos hsame, if_pos (show grid.index.keyOf[peer]? = some (grid.key position) from hsame)]
    exact ⟨rfl, rfl⟩
  · rw [if_neg hsame, if_neg (show ¬ grid.index.keyOf[peer]? = some (grid.key position) from hsame),
      ← hindex]
    exact ⟨rfl, hsize⟩

/-! ### The cells around a place -/

/-- The keys of the cells that a query goes through. -/
def cellsAround (grid : SpatialGrid) (center : Vector3) (radius : ℚ) : List ℤ :=
  let cx := grid.cellCoord center.x
  let cz := grid.cellCoord center.z
  let r := asI32 ⌈radius * grid.inverseCellSize⌉
  (inclusive (cz - r) (cz + r)).flatMap fun gz =>
    (inclusive (cx - r) (cx + r)).map fun gx => cellKey gx gz

theorem candidatesInRadius_eq (grid : SpatialGrid) (center : Vector3) (radius : ℚ) :
    grid.candidatesInRadius center radius =
      (grid.cellsAround center radius).flatMap grid.index.bucket := by
  simp only [candidatesInRadius, cellsAround, List.flatMap_assoc, List.flatMap_map]
  rfl

theorem mem_inclusive {lo hi v : ℤ} : v ∈ inclusive lo hi ↔ lo ≤ v ∧ v ≤ hi := by
  unfold inclusive
  rw [List.mem_map]
  constructor
  · rintro ⟨k, hk, rfl⟩
    have hk' := List.mem_range.mp hk
    omega
  · intro h
    exact ⟨(v - lo).toNat, List.mem_range.mpr (by omega), by omega⟩

theorem nodup_inclusive (lo hi : ℤ) : (inclusive lo hi).Nodup :=
  List.nodup_range.map fun a b h => by
    have heq : (lo + a : ℤ) = lo + b := h
    omega

/-- The two coordinates are read off the key. -/
theorem cellKey_inj {x z x' z' : ℤ} (hz : -2147483648 ≤ z ∧ z ≤ 2147483647)
    (hz' : -2147483648 ≤ z' ∧ z' ≤ 2147483647) (h : cellKey x z = cellKey x' z') :
    x = x' ∧ z = z' := by
  unfold cellKey at h
  omega

/-- Far inside of the range of `i32`. -/
def Inner (v : ℤ) : Prop := -1073741824 ≤ v ∧ v ≤ 1073741823

theorem asI32_of_inner {v : ℤ} (h : Inner v) : asI32 v = v := by
  unfold Inner at h
  unfold asI32
  omega

/-- A grid of cells no smaller than a unit. -/
structure Coarse (grid : SpatialGrid) : Prop where
  nonneg : 0 ≤ grid.inverseCellSize
  le : grid.inverseCellSize ≤ 1

theorem abs_scaled_le {grid : SpatialGrid} (h : grid.Coarse) {v b : ℚ} (hv : |v| ≤ b) :
    |v * grid.inverseCellSize| ≤ b := by
  rw [abs_mul, abs_of_nonneg h.nonneg]
  exact (mul_le_of_le_one_right (abs_nonneg v) h.le).trans hv

theorem cellCoord_eq {grid : SpatialGrid} (h : grid.Coarse) {v : ℚ} (hv : |v| ≤ 16777216) :
    grid.cellCoord v = ⌊v * grid.inverseCellSize⌋ ∧ -16777216 ≤ grid.cellCoord v ∧
      grid.cellCoord v ≤ 16777216 := by
  obtain ⟨hlow, hhigh⟩ := abs_le.mp (abs_scaled_le h hv)
  have hfloor : -16777216 ≤ ⌊v * grid.inverseCellSize⌋ := Int.le_floor.mpr (by exact_mod_cast hlow)
  have hfloor' : ⌊v * grid.inverseCellSize⌋ ≤ 16777216 := by
    exact_mod_cast (Int.floor_le _).trans hhigh
  have heq : grid.cellCoord v = ⌊v * grid.inverseCellSize⌋ :=
    asI32_of_inner ⟨by omega, by omega⟩
  rw [heq]
  exact ⟨rfl, hfloor, hfloor'⟩

theorem reach_eq {grid : SpatialGrid} (h : grid.Coarse) {radius : ℚ} (hpos : 0 ≤ radius)
    (hradius : radius ≤ 536870912) : asI32 ⌈radius * grid.inverseCellSize⌉ =
      ⌈radius * grid.inverseCellSize⌉ ∧ 0 ≤ ⌈radius * grid.inverseCellSize⌉ ∧
      ⌈radius * grid.inverseCellSize⌉ ≤ 536870912 := by
  have hbound : radius * grid.inverseCellSize ≤ radius := mul_le_of_le_one_right hpos h.le
  have hceil : 0 ≤ ⌈radius * grid.inverseCellSize⌉ := Int.ceil_nonneg (mul_nonneg hpos h.nonneg)
  have hceil' : ⌈radius * grid.inverseCellSize⌉ ≤ 536870912 :=
    Int.ceil_le.mpr (by exact_mod_cast hbound.trans hradius)
  exact ⟨asI32_of_inner ⟨by omega, by omega⟩, hceil, hceil'⟩

/-- A coordinate within the radius is in a cell within the reach. -/
theorem floor_le_add {inverse : ℚ} (hpos : 0 ≤ inverse) {a b radius : ℚ}
    (hab : a ≤ b + radius) :
    ⌊a * inverse⌋ ≤ ⌊b * inverse⌋ + ⌈radius * inverse⌉ := by
  have hle : a * inverse ≤ b * inverse + radius * inverse := by
    rw [← add_mul]
    exact mul_le_mul_of_nonneg_right hab hpos
  have hlt : a * inverse < ((⌊b * inverse⌋ + 1 + ⌈radius * inverse⌉ : ℤ) : ℚ) := by
    have hfloor := Int.lt_floor_add_one (b * inverse)
    have hceil := Int.le_ceil (radius * inverse)
    push_cast
    linarith
  have := Int.floor_lt.mpr hlt
  omega

/-- Coordinates that the cells of the grid stand for. -/
def OnGrid (p : Vector3) : Prop := |p.x| ≤ 16777216 ∧ |p.z| ≤ 16777216

theorem key_mem_cellsAround {grid : SpatialGrid} (h : grid.Coarse) {center p : Vector3}
    (hcenter : OnGrid center) (hp : OnGrid p) {radius : ℚ} (hpos : 0 ≤ radius)
    (hradius : radius ≤ 536870912) (hx : |p.x - center.x| ≤ radius)
    (hz : |p.z - center.z| ≤ radius) : grid.key p ∈ grid.cellsAround center radius := by
  have hwithin : ∀ a b : ℚ, |a| ≤ 16777216 → |b| ≤ 16777216 → |a - b| ≤ radius →
      grid.cellCoord a ∈ inclusive (grid.cellCoord b - asI32 ⌈radius * grid.inverseCellSize⌉)
        (grid.cellCoord b + asI32 ⌈radius * grid.inverseCellSize⌉) := by
    intro a b ha hb hab
    obtain ⟨hlow, hhigh⟩ := abs_le.mp hab
    have hup := floor_le_add h.nonneg (show a ≤ b + radius by linarith)
    have hdown := floor_le_add h.nonneg (show b ≤ a + radius by linarith)
    rw [mem_inclusive, (cellCoord_eq h ha).1, (cellCoord_eq h hb).1, (reach_eq h hpos hradius).1]
    omega
  refine List.mem_flatMap.mpr ⟨grid.cellCoord p.z, hwithin _ _ hp.2 hcenter.2 hz, ?_⟩
  exact List.mem_map.mpr ⟨grid.cellCoord p.x, hwithin _ _ hp.1 hcenter.1 hx, rfl⟩

theorem nodup_cellsAround {grid : SpatialGrid} (h : grid.Coarse) {center : Vector3}
    (hcenter : OnGrid center) {radius : ℚ} (hpos : 0 ≤ radius) (hradius : radius ≤ 536870912) :
    (grid.cellsAround center radius).Nodup := by
  obtain ⟨-, hlow, hhigh⟩ := cellCoord_eq h hcenter.2
  obtain ⟨hreach, -, hreach'⟩ := reach_eq h hpos hradius
  have hbound : ∀ gz ∈ inclusive (grid.cellCoord center.z - asI32 ⌈radius * grid.inverseCellSize⌉)
      (grid.cellCoord center.z + asI32 ⌈radius * grid.inverseCellSize⌉),
      -2147483648 ≤ gz ∧ gz ≤ 2147483647 := by
    intro gz hgz
    rw [mem_inclusive, hreach] at hgz
    omega
  unfold cellsAround
  dsimp only
  rw [List.nodup_flatMap]
  refine ⟨fun gz hgz => (nodup_inclusive _ _).map fun a b hab =>
    (cellKey_inj (hbound gz hgz) (hbound gz hgz) hab).1, ?_⟩
  refine (nodup_inclusive _ _).imp_of_mem ?_
  intro gz gz' hgz hgz' hne key hkey hkey'
  obtain ⟨gx, -, rfl⟩ := List.mem_map.mp hkey
  obtain ⟨gx', -, heq⟩ := List.mem_map.mp hkey'
  exact hne (cellKey_inj (hbound gz' hgz') (hbound gz hgz) heq).2.symm

end SpatialGrid

/-! ### What the server does to the board -/

/-- The board with its list of active peers, and the grid. -/
structure Vicinity where
  board : SnapshotBoard
  activeIds : List U32
  grid : SpatialGrid

namespace Vicinity

def new (ringCapacity : ℕ) : Vicinity := ⟨SnapshotBoard.new ringCapacity, [], SpatialGrid.new 16⟩

def setActive (v : Vicinity) (id : U32) : Vicinity :=
  { v with
    board := v.board.setActive id
    activeIds := if (v.board.ring id).active then v.activeIds else insertActive v.activeIds id }

/-- `clear_active` and the grid's `remove`, as `cleanup_peer` calls them. -/
def cleanup (v : Vicinity) (id : U32) : Vicinity where
  board := v.board.clearActive id
  activeIds := removeActive v.activeIds id
  grid := v.grid.remove id

def publishState (encoder : ParcelEncoder) (v : Vicinity) (peer now : U32) (state : PlayerState)
    (emote : Option EmoteInput) : Vicinity :=
  { v with
    board := publishFromPlayerState v.board peer now state emote
    grid := v.grid.set peer (encoder.decodeToGlobalPosition state.parcelIndex
      (decodeLocalPosition state.positionX state.positionY state.positionZ)) }

def teleport (encoder : ParcelEncoder) (v : Vicinity) (peer now : U32) (t : TeleportRequest) :
    Vicinity :=
  { v with
    board := publishTeleport v.board peer now t
    grid := v.grid.set peer (encoder.decodeToGlobalPosition t.parcelIndex
      (decodeLocalPosition t.positionX t.positionY t.positionZ)) }

/-- The grid is left as it is. -/
def stopEmote (v : Vicinity) (peer now : U32) : Vicinity :=
  { v with board := publishEmoteStop v.board peer now }

/-- One change, of a message that was validated where it has a position. -/
inductive Step (encoder : ParcelEncoder) : Vicinity → Vicinity → Prop
  | cleanup (v : Vicinity) (x : U32) : Step encoder v (v.cleanup x)
  | activate (v : Vicinity) (x : U32) : Step encoder v (v.setActive x)
  | state (v : Vicinity) (peer now : U32) (state : PlayerState) (emote : Option EmoteInput)
      (typed : state.Typed) (valid : Validate.playerState encoder state = true) :
      Step encoder v (v.publishState encoder peer now state emote)
  | teleport (v : Vicinity) (peer now : U32) (t : TeleportRequest) (typed : IsI32 t.parcelIndex)
      (valid : Validate.teleport encoder t = true) : Step encoder v (v.teleport encoder peer now t)
  | emoteStop (v : Vicinity) (peer now : U32) : Step encoder v (v.stopEmote peer now)

abbrev Steps (encoder : ParcelEncoder) := Relation.ReflTransGen (Step encoder)

theorem Step.board {encoder : ParcelEncoder} {v v' : Vicinity} (h : Step encoder v v') :
    BoardStep encoder v.board v'.board := by
  cases h with
  | cleanup x => exact .clear v.board x
  | activate x => exact .activate v.board x
  | state peer now state emote typed valid => exact .state v.board peer now state emote typed valid
  | teleport peer now t typed valid => exact .teleport v.board peer now t typed valid
  | emoteStop peer now => exact .emoteStop v.board peer now

/-- The board of any run of the server has such surroundings. -/
theorem exists_steps {encoder : ParcelEncoder} {ringCapacity : ℕ} {board : SnapshotBoard}
    (h : BoardSteps encoder (SnapshotBoard.new ringCapacity) board) :
    ∃ v, Steps encoder (Vicinity.new ringCapacity) v ∧ v.board = board := by
  induction h with
  | refl => exact ⟨Vicinity.new ringCapacity, .refl, rfl⟩
  | tail _ hstep ih =>
    obtain ⟨v, hv, rfl⟩ := ih
    cases hstep with
    | clear x => exact ⟨_, hv.tail (.cleanup v x), rfl⟩
    | activate x => exact ⟨_, hv.tail (.activate v x), rfl⟩
    | state peer now state emote typed valid =>
      exact ⟨_, hv.tail (.state v peer now state emote typed valid), rfl⟩
    | teleport peer now t typed valid => exact ⟨_, hv.tail (.teleport v peer now t typed valid), rfl⟩
    | emoteStop peer now => exact ⟨_, hv.tail (.emoteStop v peer now), rfl⟩

/-- Lists and indexes say of each peer what the board says. -/
structure Inv (v : Vicinity) : Prop where
  capacity : 0 < v.board.ringCapacity
  length : ∀ x, (v.board.ring x).ring.length = v.board.ringCapacity
  inRange : v.board.InRange
  ascending : v.activeIds.Pairwise (· < ·)
  active : ∀ x, x ∈ v.activeIds ↔ (v.board.ring x).active = true
  parcels : v.board.parcels.Indexed
  cells : v.grid.index.Indexed
  size : v.grid.inverseCellSize = 1 / 16
  placed : ∀ x s, v.board.last x = some s → v.board.peerParcel[x]? = some s.parcel ∧
    v.grid.peerCell[x]? = some (v.grid.key (s.globalPosition ParcelEncoder.default))

theorem inv_new {ringCapacity : ℕ} (hpos : 0 < ringCapacity) : (new ringCapacity).Inv := by
  have hring : ∀ x, (SnapshotBoard.new ringCapacity).ring x = PeerRing.new ringCapacity :=
    fun x => by simp [SnapshotBoard.new, SnapshotBoard.ring]
  refine ⟨hpos, fun x => ?_, SnapshotBoard.inRange_new ringCapacity, List.Pairwise.nil, fun x => ?_,
    Buckets.indexed_empty, Buckets.indexed_empty, rfl, fun x s hs => ?_⟩
  · show ((SnapshotBoard.new ringCapacity).ring x).ring.length = ringCapacity
    rw [hring]
    exact List.length_replicate
  · show x ∈ [] ↔ ((SnapshotBoard.new ringCapacity).ring x).active = true
    rw [hring]
    simp [PeerRing.new]
  · have hlast : (SnapshotBoard.new ringCapacity).last x = some s := hs
    rw [SnapshotBoard.last, hring] at hlast
    simp [PeerRing.new] at hlast

/-! ### Each change keeps them true -/

theorem last_congr {board board' : SnapshotBoard} {x : U32}
    (hcapacity : board'.ringCapacity = board.ringCapacity)
    (hring : (board'.ring x).ring = (board.ring x).ring)
    (hlast : board'.lastSeq x = board.lastSeq x) : board'.last x = board.last x := by
  have hlast' : (board'.ring x).lastSeq = (board.ring x).lastSeq := hlast
  simp only [SnapshotBoard.last, SnapshotBoard.slot, hlast', hring, hcapacity]

theorem last_publish {board : SnapshotBoard} {id : U32} (hpos : 0 < board.ringCapacity)
    (hlength : (board.ring id).ring.length = board.ringCapacity) (snapshot : PeerSnapshot) (x : U32) :
    (board.publish id snapshot).last x = if id = x then
      if snapshot.seq = NO_SEQ then none else some (board.inherited id snapshot)
      else board.last x := by
  have hcapacity := SnapshotBoard.ringCapacity_publish board id snapshot
  have hlast := SnapshotBoard.lastSeq_publish board id x snapshot
  have hring := SnapshotBoard.ring_publish board id x snapshot
  by_cases hid : id = x
  · subst hid
    rw [if_pos rfl] at hlast hring
    have hslot : snapshot.seq.val % board.ringCapacity < (board.ring id).ring.length := by
      rw [hlength]
      exact Nat.mod_lt _ hpos
    rw [if_pos rfl]
    simp only [SnapshotBoard.last, SnapshotBoard.slot, hring, hcapacity]
    rw [List.getD_eq_getElem?_getD, List.getElem?_set_self hslot, Option.getD_some]
  · rw [if_neg hid] at hlast hring
    rw [if_neg hid, last_congr hcapacity (by rw [hring]) hlast]

theorem globalPosition_inherited (encoder : ParcelEncoder) (board : SnapshotBoard) (id : U32)
    (snapshot : PeerSnapshot) : (board.inherited id snapshot).globalPosition encoder =
      snapshot.globalPosition encoder := rfl

theorem parcels_publish (board : SnapshotBoard) (id : U32) (snapshot : PeerSnapshot) :
    (board.publish id snapshot).parcels = board.parcels.set swapRemove id snapshot.parcel := by
  rw [SnapshotBoard.publish, SnapshotBoard.parcels_setParcel]
  rfl

theorem key_set (grid : SpatialGrid) (peer : U32) (position p : Vector3) :
    (grid.set peer position).key p = grid.key p := by
  simp only [SpatialGrid.key, SpatialGrid.cellCoord, (grid.index_set peer position).2]

variable {v : Vicinity}

theorem Inv.publish (h : v.Inv) (id : U32) {snapshot : PeerSnapshot}
    (hrange : (v.board.publish id snapshot).InRange) :
    Inv { v with
      board := v.board.publish id snapshot
      grid := v.grid.set id (snapshot.globalPosition ParcelEncoder.default) } := by
  obtain ⟨hindex, hsize⟩ := v.grid.index_set id (snapshot.globalPosition ParcelEncoder.default)
  have hlast := last_publish h.capacity (h.length id) snapshot
  have hparcels := parcels_publish v.board id snapshot
  refine ⟨?_, fun x => ?_, hrange, h.ascending, fun x => ?_, ?_, ?_, hsize.trans h.size,
    fun x s hs => ?_⟩
  · rw [SnapshotBoard.ringCapacity_publish]
    exact h.capacity
  · dsimp only
    rw [SnapshotBoard.ring_publish, SnapshotBoard.ringCapacity_publish]
    split
    · rw [List.length_set]
      exact h.length x
    · exact h.length x
  · rw [SnapshotBoard.active_publish]
    exact h.active x
  · rw [hparcels]
    exact h.parcels.set swapRemove_perm id _
  · rw [hindex]
    exact h.cells.set swapRemove_perm id _
  · have hkeyed : (v.board.publish id snapshot).peerParcel[x]? =
        if id = x then some snapshot.parcel else v.board.peerParcel[x]? := by
      have hkey := Buckets.keyOf_set swapRemove v.board.parcels id x snapshot.parcel
      rw [← hparcels] at hkey
      exact hkey
    have hcell : (v.grid.set id (snapshot.globalPosition ParcelEncoder.default)).peerCell[x]? =
        if id = x then some (v.grid.key (snapshot.globalPosition ParcelEncoder.default))
        else v.grid.peerCell[x]? := by
      have hkey := Buckets.keyOf_set swapRemove v.grid.index id x
        (v.grid.key (snapshot.globalPosition ParcelEncoder.default))
      rw [← hindex] at hkey
      exact hkey
    dsimp only at hs ⊢
    rw [hlast] at hs
    rw [hkeyed, hcell, key_set]
    by_cases hid : id = x
    · rw [if_pos hid] at hs
      rw [if_pos hid, if_pos hid]
      split at hs
      · cases hs
      · rw [← Option.some.inj hs, globalPosition_inherited]
        exact ⟨rfl, rfl⟩
    · rw [if_neg hid] at hs
      rw [if_neg hid, if_neg hid]
      exact h.placed x s hs

/-- A snapshot at the place of the last one leaves the grid as it is. -/
theorem Inv.set_same (h : v.Inv) {id : U32} {current : PeerSnapshot}
    (hcurrent : v.board.last id = some current) :
    v.grid.set id (current.globalPosition ParcelEncoder.default) = v.grid := by
  unfold SpatialGrid.set
  exact if_pos (h.placed id current hcurrent).2

theorem Inv.setActive (h : v.Inv) (id : U32) : (v.setActive id).Inv := by
  have hring := SnapshotBoard.ring_setActive v.board id
  have hsame : ∀ x, ((v.board.setActive id).ring x).ring = (v.board.ring x).ring ∧
      (v.board.setActive id).lastSeq x = v.board.lastSeq x := by
    intro x
    rw [SnapshotBoard.lastSeq, hring]
    split <;> exact ⟨rfl, rfl⟩
  refine ⟨h.capacity, fun x => ?_, h.inRange.setActive id, ?_, fun x => ?_, h.parcels, h.cells, h.size,
    fun x s hs => ?_⟩
  · show ((v.board.setActive id).ring x).ring.length = v.board.ringCapacity
    rw [(hsame x).1]
    exact h.length x
  · unfold Vicinity.setActive
    dsimp only
    split
    · exact h.ascending
    · exact (mem_insertActive h.ascending id).1
  · have hmem := (mem_insertActive h.ascending id).2 x
    unfold Vicinity.setActive
    dsimp only
    rw [SnapshotBoard.active_setActive, Bool.or_eq_true, decide_eq_true_eq]
    split
    · rename_i hactive
      rw [h.active, or_iff_right_of_imp]
      rintro rfl
      exact hactive
    · rw [hmem, h.active]
      exact or_congr_left eq_comm
  · have hlast : (v.board.setActive id).last x = v.board.last x :=
      last_congr rfl (hsame x).1 (hsame x).2
    exact h.placed x s (hlast.symm.trans hs)

theorem Inv.cleanup (h : v.Inv) (id : U32) : (v.cleanup id).Inv := by
  obtain ⟨hindex, hsize⟩ := v.grid.index_remove id
  have hparcels : (v.board.clearActive id).parcels = v.board.parcels.remove swapRemove id := by
    rw [SnapshotBoard.clearActive, SnapshotBoard.parcels_clearParcel]
    rfl
  have hring := SnapshotBoard.ring_clearActive v.board id
  have hcapacity := SnapshotBoard.ringCapacity_clearActive v.board id
  obtain ⟨hascending, hmem⟩ := mem_removeActive h.ascending id
  refine ⟨hcapacity ▸ h.capacity, fun x => ?_, h.inRange.clearActive id, hascending, fun x => ?_, ?_, ?_,
    hsize.trans h.size, fun x s hs => ?_⟩
  · show ((v.board.clearActive id).ring x).ring.length = (v.board.clearActive id).ringCapacity
    rw [hring, hcapacity]
    split
    · exact List.length_replicate
    · exact h.length x
  · show x ∈ removeActive v.activeIds id ↔ ((v.board.clearActive id).ring x).active = true
    rw [hmem, SnapshotBoard.active_clearActive, Bool.and_eq_true, decide_eq_true_eq, ← h.active]
    exact and_congr_left fun _ => ne_comm
  · show (v.board.clearActive id).parcels.Indexed
    rw [hparcels]
    exact h.parcels.remove swapRemove_perm id
  · show (v.grid.remove id).index.Indexed
    rw [hindex]
    exact h.cells.remove swapRemove_perm id
  · have hs' : (v.board.clearActive id).last x = some s := hs
    by_cases hid : id = x
    · rw [SnapshotBoard.last, hring, if_pos hid] at hs'
      simp [PeerRing.new] at hs'
    · have hlast : (v.board.clearActive id).last x = v.board.last x :=
        last_congr hcapacity (by rw [hring, if_neg hid])
          (by rw [SnapshotBoard.lastSeq_clearActive, if_neg hid])
      obtain ⟨hparcel, hcell⟩ := h.placed x s (hlast.symm.trans hs')
      have hkey := Buckets.keyOf_remove swapRemove v.board.parcels id x
      have hkey' := Buckets.keyOf_remove swapRemove v.grid.index id x
      rw [← hparcels, if_neg hid] at hkey
      rw [← hindex, if_neg hid] at hkey'
      refine ⟨hkey.trans hparcel, (hkey'.trans hcell).trans ?_⟩
      have hsize' : (v.cleanup id).grid.inverseCellSize = v.grid.inverseCellSize := hsize
      simp only [SpatialGrid.key, SpatialGrid.cellCoord, hsize']

theorem Inv.step {v' : Vicinity} (h : v.Inv) (hstep : Step ParcelEncoder.default v v') : v'.Inv := by
  have hrange := h.inRange.step hstep.board
  cases hstep with
  | cleanup x => exact h.cleanup x
  | activate x => exact h.setActive x
  | state peer now state emote typed valid => exact h.publish peer hrange
  | teleport peer now t typed valid => exact h.publish peer hrange
  | emoteStop peer now =>
    unfold stopEmote publishEmoteStop at hrange ⊢
    cases hread : v.board.tryRead peer with
    | none => simpa only [hread] using h
    | some current =>
      simp only [hread] at hrange ⊢
      cases hrun : current.runningEmote with
      | none => simpa only [hrun] using h
      | some active =>
        simp only [hrun] at hrange ⊢
        have hpublished := h.publish peer hrange
        have hsame := h.set_same (SnapshotBoard.last_of_tryRead hread)
        have hplace : ∀ s : PeerSnapshot, s.globalPosition ParcelEncoder.default =
            current.globalPosition ParcelEncoder.default →
            v.grid.set peer (s.globalPosition ParcelEncoder.default) = v.grid :=
          fun s hs => hs ▸ hsame
        rwa [hplace] at hpublished
        rfl

theorem Inv.steps {v' : Vicinity} (h : v.Inv) (hsteps : Steps ParcelEncoder.default v v') :
    v'.Inv := by
  induction hsteps with
  | refl => exact h
  | tail _ hstep ih => exact ih.step hstep

/-! ### The queries -/

/-- Everything published is on the grid. -/
theorem onGrid_of_inRange {s : PeerSnapshot} (h : s.InRange) :
    SpatialGrid.OnGrid (s.globalPosition ParcelEncoder.default) := by
  obtain ⟨hlow, hhigh⟩ := h.parcel
  rw [PARCEL_INDEX_BITS] at hhigh
  have hcoordinate : ∀ (parcel : ℤ) (code : U32), -152 ≤ parcel → parcel ≤ 1000 →
      codeFits 8 code = true →
      |((parcel * PARCEL_SIZE : ℤ) : ℚ) + decodeQuantized code 0 16 8| ≤ 16777216 := by
    intro parcel code hp hp' hcode
    rw [codeFits, decide_eq_true_eq] at hcode
    have hcode' : (code.val : ℚ) ≤ 255 := by exact_mod_cast hcode
    have hcode0 : (0 : ℚ) ≤ code.val := Nat.cast_nonneg _
    have hpq : (-152 : ℚ) ≤ parcel := by exact_mod_cast hp
    have hpq' : (parcel : ℚ) ≤ 1000 := by exact_mod_cast hp'
    unfold decodeQuantized PARCEL_SIZE
    push_cast
    rw [abs_le]
    constructor
    · linarith
    · linarith
  have hwidth : ParcelEncoder.default.width = 318 := by decide
  have hx := hcoordinate (ParcelEncoder.default.decode s.parcel).1 s.positionX
  have hz := hcoordinate (ParcelEncoder.default.decode s.parcel).2 s.positionZ
  have hmin : ParcelEncoder.default.minX = -152 ∧ ParcelEncoder.default.minZ = -152 := by decide
  simp only [ParcelEncoder.decode, hwidth, hmin.1, hmin.2] at hx hz
  rw [Int.tmod_eq_emod_of_nonneg hlow] at hx
  rw [Int.tdiv_eq_ediv_of_nonneg hlow] at hz
  simp only [SpatialGrid.OnGrid, PeerSnapshot.globalPosition, ParcelEncoder.decodeToGlobalPosition,
    ParcelEncoder.decode, hwidth, hmin.1, hmin.2, Int.tmod_eq_emod_of_nonneg hlow,
    Int.tdiv_eq_ediv_of_nonneg hlow]
  exact ⟨hx (by omega) (by omega) h.positionX, hz (by omega) (by omega) h.positionZ⟩

theorem active_of_tryRead {board : SnapshotBoard} {x : U32} {s : PeerSnapshot}
    (hs : board.tryRead x = some s) : (board.ring x).active = true := by
  unfold SnapshotBoard.tryRead at hs
  dsimp only at hs
  split at hs
  · cases hs
  · rename_i hread
    rw [Bool.or_eq_true, not_or] at hread
    simpa using hread.1

theorem Inv.nodup_active (h : v.Inv) : v.activeIds.Nodup := h.ascending.imp fun hlt => ne_of_lt hlt

/-- The parcels of a scene listener. -/
theorem Inv.listener (h : v.Inv) (realm : Text) {parcels : List ℤ} (hparcels : parcels.Nodup)
    (observer : U32) :
    ((collectSceneListenerSubjects v.board realm parcels observer).map
      InterestEntry.subject).Nodup ∧
    (collectSceneListenerSubjects v.board realm parcels observer).Perm
      (collectSceneListenerSubjectsLinear v.board v.activeIds realm parcels observer) := by
  -- what each of the two loops adds for a candidate
  have hfound : ∀ (i : U32) (b : InterestEntry), (if i = observer then none
      else (v.board.tryRead i).bind fun s =>
        if s.realm = some realm then some ⟨i, TIER_0⟩ else none) = some b →
      b.subject = i ∧ ∃ s, v.board.tryRead i = some s := by
    intro i b hb
    split at hb
    · cases hb
    · obtain ⟨s, hs, hb⟩ := Option.bind_eq_some_iff.mp hb
      split at hb
      · rw [← Option.some.inj hb]
        exact ⟨rfl, s, hs⟩
      · cases hb
  have hsame : ∀ (i : U32) (b : InterestEntry), (if i = observer then none
      else (v.board.tryRead i).bind fun s => if s.realm = some realm then
        if s.parcel ∈ parcels then some ⟨i, TIER_0⟩ else none else none) = some b ↔
      (∃ k ∈ parcels, v.board.parcels.keyOf[i]? = some k) ∧ (if i = observer then none
        else (v.board.tryRead i).bind fun s =>
          if s.realm = some realm then some ⟨i, TIER_0⟩ else none) = some b := by
    intro i b
    by_cases hself : i = observer
    · simp [hself]
    · rw [if_neg hself, if_neg hself]
      cases hread : v.board.tryRead i with
      | none => simp
      | some s =>
        have hkey : v.board.parcels.keyOf[i]? = some s.parcel :=
          (h.placed i s (SnapshotBoard.last_of_tryRead hread)).1
        by_cases hrealm : s.realm = some realm
        · by_cases hin : s.parcel ∈ parcels
          · simp [hrealm, hin, hkey]
          · simp [hrealm, hin, hkey]
        · simp [hrealm]
  have heq : collectSceneListenerSubjects v.board realm parcels observer =
      (parcels.flatMap v.board.parcels.bucket).filterMap fun subject =>
        if subject = observer then none
        else (v.board.tryRead subject).bind fun s =>
          if s.realm = some realm then some ⟨subject, TIER_0⟩ else none :=
    List.filterMap_flatMap.symm
  rw [heq]
  refine ⟨Buckets.nodup_subjects (h.parcels.nodup_flatMap hparcels) _ fun i b hb => (hfound i b hb).1,
    h.parcels.perm_filterMap hparcels h.nodup_active InterestEntry.subject
      (fun i b hb => (hfound i b hb).1) (fun i b hb => (hfound i b ((hsame i b).mp hb).2).1)
      fun i b => ?_⟩
  rw [hsame]
  refine ⟨fun hb => ⟨?_, hb⟩, fun hb => hb.2⟩
  obtain ⟨s, hs⟩ := (hfound i b hb.2).2
  exact (h.active i).mpr (active_of_tryRead hs)

/-- A player within the radius is in one of the cells. -/
theorem entry_near (options : SpatialAreaOfInterestOptions) {observer i : U32}
    {realm : Text} {position : Vector3} {b : InterestEntry}
    (hb : (SpatialAreaOfInterest.new options).entry ParcelEncoder.default v.board observer realm
      position i = some b) :
    b.subject = i ∧ ∃ s, v.board.tryRead i = some s ∧
      |(s.globalPosition ParcelEncoder.default).x - position.x| ≤ |options.maxRadius| ∧
      |(s.globalPosition ParcelEncoder.default).z - position.z| ≤ |options.maxRadius| := by
  unfold SpatialAreaOfInterest.entry at hb
  split at hb
  · cases hb
  · obtain ⟨s, hs, hb⟩ := Option.bind_eq_some_iff.mp hb
    split at hb
    · obtain ⟨tier, htier, rfl⟩ := Option.map_eq_some_iff.mp hb
      refine ⟨rfl, s, hs, ?_⟩
      unfold SpatialAreaOfInterest.classify at htier
      split at htier
      · cases htier
      · rename_i hnear
        have hle := not_lt.mp hnear
        simp only [SpatialAreaOfInterest.distSq, SpatialAreaOfInterest.new] at hle
        constructor
        · rw [abs_le_iff_mul_self_le]
          exact (le_add_of_nonneg_right (mul_self_nonneg _)).trans hle
        · rw [abs_le_iff_mul_self_le]
          exact (le_add_of_nonneg_left (mul_self_nonneg _)).trans hle
    · cases hb

/-- The surroundings of a player. -/
theorem Inv.visible (h : v.Inv) (options : SpatialAreaOfInterestOptions)
    (hradius : |options.maxRadius| ≤ 536870912) (observer : U32) (observerRealm : Option Text)
    {position : Vector3} (hposition : SpatialGrid.OnGrid position) :
    (((SpatialAreaOfInterest.new options).getVisibleSubjects ParcelEncoder.default v.board v.grid
      observer observerRealm position).map InterestEntry.subject).Nodup ∧
    ((SpatialAreaOfInterest.new options).getVisibleSubjects ParcelEncoder.default v.board v.grid
      observer observerRealm position).Perm
      ((SpatialAreaOfInterest.new options).getVisibleSubjectsLinear ParcelEncoder.default v.board
        v.activeIds observer observerRealm position) := by
  cases observerRealm with
  | none => exact ⟨List.nodup_nil, List.Perm.refl _⟩
  | some realm =>
    have hcoarse : v.grid.Coarse := by
      constructor
      · rw [h.size]
        norm_num
      · rw [h.size]
        norm_num
    have hsqrt : Rat.sqrt (SpatialAreaOfInterest.new options).maxDistanceSq = |options.maxRadius| :=
      Rat.sqrt_eq _
    have hkeys := SpatialGrid.nodup_cellsAround hcoarse hposition (abs_nonneg options.maxRadius) hradius
    unfold SpatialAreaOfInterest.getVisibleSubjects SpatialAreaOfInterest.getVisibleSubjectsLinear
    dsimp only
    rw [hsqrt, SpatialGrid.candidatesInRadius_eq]
    have hsubject : ∀ i b, (SpatialAreaOfInterest.new options).entry ParcelEncoder.default v.board
        observer realm position i = some b → b.subject = i := fun i b hb => (entry_near options hb).1
    refine ⟨Buckets.nodup_subjects (h.cells.nodup_flatMap hkeys) _ hsubject,
      h.cells.perm_filterMap hkeys h.nodup_active _ hsubject hsubject fun i b => ?_⟩
    rw [and_congr_left_iff]
    intro hb
    obtain ⟨-, s, hs, hx, hz⟩ := entry_near options hb
    refine iff_of_true ⟨_, ?_, (h.placed i s (SnapshotBoard.last_of_tryRead hs)).2⟩
      ((h.active i).mpr (active_of_tryRead hs))
    exact SpatialGrid.key_mem_cellsAround hcoarse hposition (onGrid_of_inRange (h.inRange.tryRead hs))
      (abs_nonneg _) hradius hx hz

end Vicinity

/-- Whatever the server did to its board, the two queries find what the full scans find, each subject
once. -/
theorem queries_eq_scans (ringCapacity : ℕ) (hpos : 0 < ringCapacity) (v : Vicinity)
    (hsteps : Vicinity.Steps ParcelEncoder.default (Vicinity.new ringCapacity) v) :
    (∀ (realm : Text) (parcels : List ℤ) (observer : U32), parcels.Nodup →
      let found := collectSceneListenerSubjects v.board realm parcels observer
      (found.map InterestEntry.subject).Nodup ∧
        found.Perm (collectSceneListenerSubjectsLinear v.board v.activeIds realm parcels observer)) ∧
    ∀ (options : SpatialAreaOfInterestOptions) (observer : U32) (snapshot : PeerSnapshot),
      |options.maxRadius| ≤ 536870912 → v.board.tryRead observer = some snapshot →
      let aoi := SpatialAreaOfInterest.new options
      let position := snapshot.globalPosition ParcelEncoder.default
      let found := aoi.getVisibleSubjects ParcelEncoder.default v.board v.grid observer
        snapshot.realm position
      (found.map InterestEntry.subject).Nodup ∧
        found.Perm (aoi.getVisibleSubjectsLinear ParcelEncoder.default v.board v.activeIds observer
          snapshot.realm position) := by
  have hinv := (Vicinity.inv_new hpos).steps hsteps
  refine ⟨fun realm parcels observer hparcels => hinv.listener realm hparcels observer,
    fun options observer snapshot hradius hread => ?_⟩
  exact hinv.visible options hradius observer snapshot.realm
    (Vicinity.onGrid_of_inRange (hinv.inRange.tryRead hread))

/-! Two players teleport into one realm. -/

def arrivals : List (U32 × TeleportRequest) :=
  [(1, ⟨0, 0, 0, 0, ['r']⟩), (2, ⟨1, 128, 0, 128, ['r']⟩)]

def arrived : Vicinity := arrivals.foldl (fun v a =>
  (v.setActive a.1).teleport ParcelEncoder.default a.1 0 a.2) (Vicinity.new 10)

theorem arrived_steps : Vicinity.Steps ParcelEncoder.default (Vicinity.new 10) arrived := by
  refine ((((Relation.ReflTransGen.refl.tail (.activate _ 1)).tail (.teleport _ 1 0 ⟨0, 0, 0, 0, ['r']⟩
    ?_ ?_)).tail (.activate _ 2)).tail (.teleport _ 2 0 ⟨1, 128, 0, 128, ['r']⟩ ?_ ?_))
  · exact ⟨by decide, by decide⟩
  · decide
  · exact ⟨by decide, by decide⟩
  · decide

theorem queries_eq_scans_arrived : ∃ snapshot, arrived.board.tryRead 1 = some snapshot ∧
    ((SpatialAreaOfInterest.new .default).getVisibleSubjects ParcelEncoder.default arrived.board
      arrived.grid 1 snapshot.realm (snapshot.globalPosition ParcelEncoder.default)).Perm
    ((SpatialAreaOfInterest.new .default).getVisibleSubjectsLinear ParcelEncoder.default arrived.board
      arrived.activeIds 1 snapshot.realm (snapshot.globalPosition ParcelEncoder.default)) ∧
    (collectSceneListenerSubjects arrived.board ['r'] [1, 0] 2).Perm
      (collectSceneListenerSubjectsLinear arrived.board arrived.activeIds ['r'] [1, 0] 2) := by
  obtain ⟨hlistener, hvisible⟩ := queries_eq_scans 10 (by decide) arrived arrived_steps
  have hread : (arrived.board.tryRead 1).isSome = true := by decide
  obtain ⟨snapshot, hsnapshot⟩ := Option.isSome_iff_exists.mp hread
  have hradius : |SpatialAreaOfInterestOptions.default.maxRadius| ≤ 536870912 := by
    norm_num [SpatialAreaOfInterestOptions.default, abs_le]
  exact ⟨snapshot, hsnapshot, (hvisible .default 1 snapshot hradius hsnapshot).2,
    (hlistener ['r'] [1, 0] 2 (by decide)).2⟩

end Catalyrst.Pulse
