import Mathlib
import Catalyrst.Lib.OrdMap
import Catalyrst.Lib.FloodFill

/-!
# The cluster of the archipelago engine

Peers report their position; from time to time the cluster groups the peers that
are near each other and puts every group on an island (`reclusterOnce`). A group
takes over the island id of one of its members where it can, else a fresh id.
-/

namespace Catalyrst.Archipelago

open Catalyrst.Lib

abbrev Address := List Char
abbrev IslandId := List Char

/-- The operations of `f32` the engine uses. -/
structure Floats (F : Type) where
  /-- The cast from an integer type. -/
  ofInt : ℤ → F
  add : F → F → F
  sub : F → F → F
  mul : F → F → F
  div : F → F → F
  sqrt : F → F
  le : F → F → Bool
  lt : F → F → Bool

/-- What the engine reads from outside: the floats of the machine, and the grant minted for
a peer on an island where the minter is armed. -/
structure Env (F Grant : Type) where
  floats : Floats F
  livekit : Address → IslandId → Option Grant

structure PeerState (F : Type) where
  address : Address
  position : F × F × F
  parcel : ℤ × ℤ
  realm : List Char
  /-- In nanoseconds. -/
  lastHeartbeat : ℤ
  islandId : Option IslandId

structure Island (F : Type) where
  id : IslandId
  center : F × F × F
  radius : F
  peersCount : ℕ
  maxPeers : ℕ
  peers : List Address

structure ClusterConfig (F : Type) where
  heartbeatTimeoutSecs : ℕ
  islandRadiusParcels : F
  islandMaxPeers : ℕ

inductive ClusterEvent (Grant : Type) where
  | islandChanged (address : Address) (islandId : IslandId) (fromIslandId : Option IslandId)
      (peers : List Address) (livekit : Option Grant)
  | peerLeft (address : Address)

structure Cluster (F : Type) where
  peers : OrdMap Address (PeerState F)
  islands : OrdMap IslandId (Island F)
  cfg : ClusterConfig F
  nextIsland : ℕ
  /-- A peer is stored under its address. -/
  keyed : ∀ (a : Address) (p : PeerState F), peers[a]? = some p → p.address = a

variable {F Grant : Type}

namespace Cluster

def new (cfg : ClusterConfig F) : Cluster F where
  peers := ∅
  islands := ∅
  cfg := cfg
  nextIsland := 0
  keyed a p h := by simp at h

def upsertPeerAt (c : Cluster F) (address : Address) (position : F × F × F) (parcel : ℤ × ℤ)
    (realm : List Char) (lastHeartbeat : ℤ) : Cluster F :=
  let prev := c.peers[address]?
  let newTs :=
    match prev.map PeerState.lastHeartbeat with
    | some t => if lastHeartbeat < t then t else lastHeartbeat
    | none => lastHeartbeat
  { c with
    peers := c.peers.insert address
      { address, position, parcel, realm, lastHeartbeat := newTs
        islandId := prev.bind PeerState.islandId }
    keyed := by
      intro a p h
      rw [OrdMap.find_insert] at h
      split at h
      · rename_i ha
        cases h
        exact ha
      · exact c.keyed a p h }

/-- The islands once a peer has left the island `id`. -/
def leaveIsland (islands : OrdMap IslandId (Island F)) (address : Address) (id : IslandId) :
    OrdMap IslandId (Island F) :=
  match islands[id]? with
  | none => islands
  | some island =>
    let peers := island.peers.filter fun a => a ≠ address
    if peers.isEmpty then islands.erase id
    else islands.insert id { island with peers := peers, peersCount := peers.length }

def removePeer (c : Cluster F) (address : Address) : Cluster F × List (ClusterEvent Grant) :=
  match c.peers[address]? with
  | none => (c, [])
  | some state =>
    ({ c with
        peers := c.peers.erase address
        islands := state.islandId.elim c.islands (leaveIsland c.islands address)
        keyed := by
          intro a p h
          rw [OrdMap.find_erase] at h
          split at h
          · cases h
          · exact c.keyed a p h },
      [.peerLeft address])

/-- The text of the `n`-th island id. -/
def islandName (n : ℕ) : IslandId := 'I' :: Nat.toDigits 10 n

/-! ### Grouping -/

def stale (c : Cluster F) (now : ℤ) : List Address :=
  (c.peers.toList.filter fun e =>
    decide (now - e.2.lastHeartbeat > c.cfg.heartbeatTimeoutSecs * 10 ^ 9)).map Prod.fst

def dropStale (c : Cluster F) (now : ℤ) : Cluster F × List (ClusterEvent Grant) :=
  (c.stale now).foldl (fun acc address =>
    let r := acc.1.removePeer address
    (r.1, acc.2 ++ r.2)) (c, [])

/-- The peers in ascending order of their addresses. -/
def allPeers (c : Cluster F) : List (PeerState F) := c.peers.toList.map Prod.snd

/-- Whether `other` is within the radius of `cur`; the parcel differences are `i32`. -/
def near (floats : Floats F) (radiusSq : F) (cur other : PeerState F) : Bool :=
  let dx := floats.ofInt (Int.bmod (other.parcel.1 - cur.parcel.1) (2 ^ 32))
  let dz := floats.ofInt (Int.bmod (other.parcel.2 - cur.parcel.2) (2 ^ 32))
  floats.le (floats.add (floats.mul dx dx) (floats.mul dz dz)) radiusSq

/-- The flood fills of the grouping loop, each with the peers it left in its queue. -/
def fills (floats : Floats F) (c : Cluster F) :
    List (FloodFill.Front (PeerState F) Address) :=
  let radius := c.cfg.islandRadiusParcels
  FloodFill.cover PeerState.address (near floats (floats.mul radius radius))
    c.cfg.islandMaxPeers c.allPeers c.allPeers ∅

def groups (floats : Floats F) (c : Cluster F) : List (List (PeerState F)) :=
  (c.fills floats).map FloodFill.Front.group

/-! ### Assignment -/

/-- The last of the entries with the greatest key. -/
def maxByKey (key : IslandId → ℕ) : List IslandId → Option IslandId
  | [] => none
  | id :: ids => some (ids.foldl (fun best id => if key best ≤ key id then id else best) id)

/-- The island id a group takes over from its members. -/
def existingId (c : Cluster F) (group : List (PeerState F)) : Option IslandId :=
  maxByKey (fun id => (c.islands[id]?.map Island.peersCount).getD 0)
    (group.filterMap fun p => c.peers[p.address]?.bind PeerState.islandId)

def center (floats : Floats F) (group : List (PeerState F)) : F × F × F :=
  let zero := floats.ofInt 0
  let sum := group.foldl (fun (s : F × F × F) p =>
    (floats.add s.1 p.position.1, floats.add s.2.1 p.position.2.1,
      floats.add s.2.2 p.position.2.2)) (zero, zero, zero)
  let n := floats.ofInt group.length
  (floats.div sum.1 n, floats.div sum.2.1 n, floats.div sum.2.2 n)

def radius (floats : Floats F) (group : List (PeerState F)) : F :=
  let center := center floats group
  floats.sqrt <| group.foldl (fun maxR2 p =>
    let dx := floats.sub p.position.1 center.1
    let dz := floats.sub p.position.2.2 center.2.2
    let r2 := floats.add (floats.mul dx dx) (floats.mul dz dz)
    if floats.lt maxR2 r2 then r2 else maxR2) (floats.ofInt 0)

def islandOf (floats : Floats F) (c : Cluster F) (group : List (PeerState F)) (id : IslandId) :
    Island F where
  id := id
  center := center floats group
  radius := radius floats group
  peersCount := (group.map PeerState.address).length
  maxPeers := c.cfg.islandMaxPeers
  peers := group.map PeerState.address

structure Assignment (F : Type) where
  newIslands : OrdMap IslandId (Island F)
  peerAssignment : OrdMap Address IslandId
  nextIsland : ℕ

def assignGroup (floats : Floats F) (c : Cluster F) (acc : Assignment F)
    (group : List (PeerState F)) : Assignment F :=
  if group.isEmpty then acc
  else
    let existing := c.existingId group
    let nextIsland := if existing.isSome then acc.nextIsland else acc.nextIsland + 1
    let islandId := existing.getD (islandName nextIsland)
    let peers := group.map PeerState.address
    { newIslands := acc.newIslands.insert islandId (c.islandOf floats group islandId)
      peerAssignment := peers.foldl (fun m a => m.insert a islandId) acc.peerAssignment
      nextIsland := nextIsland }

def assign (floats : Floats F) (c : Cluster F) : Assignment F :=
  (c.groups floats).foldl (c.assignGroup floats) ⟨∅, ∅, c.nextIsland⟩

/-- The peers whose island is not the one they were on, with the members of the new one. -/
def changed (c : Cluster F) (a : Assignment F) :
    List (Address × IslandId × Option IslandId × List Address) :=
  a.peerAssignment.toList.filterMap fun e =>
    let prev := c.peers[e.1]?.bind PeerState.islandId
    if prev = some e.2 then none
    else a.newIslands[e.2]?.map fun island => (e.1, e.2, prev, island.peers)

/-- The assignment taken over. -/
def store (c : Cluster F) (a : Assignment F) : Cluster F where
  peers := c.peers.map fun address p => { p with islandId := a.peerAssignment[address]? }
  islands := a.newIslands
  cfg := c.cfg
  nextIsland := a.nextIsland
  keyed := by
    intro address p h
    rw [OrdMap.find_map, Option.map_eq_some_iff] at h
    obtain ⟨q, hq, rfl⟩ := h
    exact c.keyed address q hq

/-- One entry of the list of changed peers: a banned peer is evicted, any other is told. -/
def announce (env : Env F Grant) (isBanned : Address → Bool)
    (acc : Cluster F × List (ClusterEvent Grant))
    (entry : Address × IslandId × Option IslandId × List Address) :
    Cluster F × List (ClusterEvent Grant) :=
  let (address, islandId, fromIslandId, peers) := entry
  if isBanned address then
    let r := acc.1.removePeer address
    (r.1, acc.2 ++ r.2)
  else
    (acc.1, acc.2 ++ [.islandChanged address islandId fromIslandId peers
      (env.livekit address islandId)])

def reclusterOnce (env : Env F Grant) (c : Cluster F) (now : ℤ) (isBanned : Address → Bool) :
    Cluster F × List (ClusterEvent Grant) :=
  let (live, left) := c.dropStale now
  let assignment := live.assign env.floats
  (live.changed assignment).foldl (announce env isBanned) (live.store assignment, left)

end Cluster

end Catalyrst.Archipelago
