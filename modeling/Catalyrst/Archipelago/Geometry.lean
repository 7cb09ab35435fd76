import Mathlib
import Catalyrst.Archipelago.History

/-!
# The geometry of the islands

A client reports a position; its parcel is found by a cast that saturates at the
ends of `i32`, and the grouping compares parcels by `i32` differences, which wrap.
An island grows by steps of that comparison, so its members are joined by chains
of parcels within the radius as long as the comparison takes no two parcels for
near that are not (`soundRounds_iff`).
-/

namespace Catalyrst.Archipelago

open Catalyrst.Lib

variable {F Grant : Type}

/-- The rounding of the floats to integers. -/
structure Rounding (F : Type) where
  floor : F → F
  /-- The saturating cast to `i32`. -/
  toI32 : F → ℤ
  range : ∀ x, -2 ^ 31 ≤ toI32 x ∧ toI32 x < 2 ^ 31

def toParcel (floats : Floats F) (rounding : Rounding F) (x z : F) : ℤ × ℤ :=
  let parcelSize := floats.ofInt 16
  (rounding.toI32 (rounding.floor (floats.div x parcelSize)),
    rounding.toI32 (rounding.floor (floats.div z parcelSize)))

/-- The parcel of a position. -/
def parcelAt (floats : Floats F) (rounding : Rounding F) (position : F × F × F) : ℤ × ℤ :=
  toParcel floats rounding position.1 position.2.2

/-- The distance test of the grouping, from the parcel `u` to the parcel `v`. -/
def nearParcels (floats : Floats F) (radius : F) (u v : ℤ × ℤ) : Bool :=
  let dx := floats.ofInt (Int.bmod (v.1 - u.1) (2 ^ 32))
  let dz := floats.ofInt (Int.bmod (v.2 - u.2) (2 ^ 32))
  floats.le (floats.add (floats.mul dx dx) (floats.mul dz dz)) (floats.mul radius radius)

theorem near_eq (floats : Floats F) (radius : F) (p q : PeerState F) :
    Cluster.near floats (floats.mul radius radius) p q =
      nearParcels floats radius p.parcel q.parcel := rfl

/-! ### True distances -/

noncomputable def distance (u v : ℤ × ℤ) : ℝ := √(((v.1 - u.1) ^ 2 + (v.2 - u.2) ^ 2 : ℤ) : ℝ)

theorem distance_comm (u v : ℤ × ℤ) : distance u v = distance v u := by
  unfold distance
  congr 2
  ring

/-- The two parcels are at most the radius apart; `value` is the number a float stands for. -/
def Within (value : F → EReal) (radius : F) (u v : ℤ × ℤ) : Prop :=
  (distance u v : EReal) ≤ value radius

theorem Within.symm {value : F → EReal} {radius : F} {u v : ℤ × ℤ}
    (h : Within value radius u v) : Within value radius v u := by
  unfold Within
  rw [distance_comm]
  exact h

namespace Cluster

/-- Every peer is at one of the positions, and its parcel is the one of its position. -/
def Placed (floats : Floats F) (rounding : Rounding F) (positions : Set (F × F × F))
    (c : Cluster F) : Prop :=
  ∀ (a : Address) (p : PeerState F), c.peers[a]? = some p →
    p.position ∈ positions ∧ p.parcel = parcelAt floats rounding p.position

/-- The islands a round forms; the banned are evicted from them after that. -/
def formed (env : Env F Grant) (c : Cluster F) (now : ℤ) : OrdMap IslandId (Island F) :=
  ((c.live Grant now).assign env.floats).newIslands

/-- Two members of the island with parcels at most the radius apart. -/
def Linked (value : F → EReal) (c : Cluster F) (island : Island F) (a b : Address) : Prop :=
  a ∈ island.peers ∧ b ∈ island.peers ∧ ∃ p q, c.peers[a]? = some p ∧ c.peers[b]? = some q ∧
    Within value c.cfg.islandRadiusParcels p.parcel q.parcel

/-- Any two members of the island are joined by a chain of members. -/
def Joined (value : F → EReal) (c : Cluster F) (island : Island F) : Prop :=
  ∀ a ∈ island.peers, ∀ b ∈ island.peers, Relation.ReflTransGen (c.Linked value island) a b

/-- Every island after the round is one that it has formed, less the evicted, and that was
joined. -/
def SoundRound (env : Env F Grant) (value : F → EReal) (c : Cluster F) (now : ℤ)
    (isBanned : Address → Bool) : Prop :=
  ∀ (id : IslandId) (island : Island F),
    (c.reclusterOnce env now isBanned).1.islands[id]? = some island →
      ∃ whole : Island F, (c.formed env now)[id]? = some whole ∧ island.peers ⊆ whole.peers ∧
        c.Joined value whole

/-! ### Where the islands of a round come from -/

section

variable {c : Cluster F} {now : ℤ}

/-- The peers that are left once the stale are gone are as they were. -/
theorem find_live {a : Address} {p : PeerState F}
    (h : (c.live Grant now).peers[a]? = some p) : c.peers[a]? = some p := by
  have hkeep : ∀ (a : Address) (p : PeerState F), (c.live Grant now).peers[a]? = some p →
      c.peers[a]? = some p := by
    refine keeps_dropStale (P := fun d => ∀ (a : Address) (p : PeerState F),
      d.peers[a]? = some p → c.peers[a]? = some p) ?_ (fun _ _ hp => hp) now
    intro d x hd a p hp
    rw [find_removePeer] at hp
    split at hp
    · cases hp
    · exact hd a p hp
  exact hkeep a p h

theorem removePeer_cfg (c : Cluster F) (x : Address) :
    (c.removePeer x : Cluster F × List (ClusterEvent Grant)).1.cfg = c.cfg := by
  unfold removePeer
  split <;> rfl

theorem live_cfg : (c.live Grant now).cfg = c.cfg := by
  refine keeps_dropStale (P := fun d => d.cfg = c.cfg) ?_ rfl now
  intro d x hd
  rw [removePeer_cfg, hd]

/-- An island from which a peer has left has members of the island before only. -/
theorem sub_of_leaveIsland {islands : OrdMap IslandId (Island F)} {x : Address}
    {j id : IslandId} {island : Island F} (h : (leaveIsland islands x j)[id]? = some island) :
    ∃ before, islands[id]? = some before ∧ island.peers ⊆ before.peers := by
  unfold leaveIsland at h
  split at h
  · exact ⟨island, h, List.Subset.refl _⟩
  · rename_i left hleft
    dsimp only at h
    split at h
    · rw [OrdMap.find_erase] at h
      split at h
      · cases h
      · exact ⟨island, h, List.Subset.refl _⟩
    · rw [OrdMap.find_insert] at h
      split at h
      · rename_i hid
        cases h
        exact ⟨left, hid ▸ hleft, List.filter_sublist.subset⟩
      · exact ⟨island, h, List.Subset.refl _⟩

theorem sub_of_removePeer {x : Address} {id : IslandId} {island : Island F}
    (h : (c.removePeer x : Cluster F × List (ClusterEvent Grant)).1.islands[id]? = some island) :
    ∃ before, c.islands[id]? = some before ∧ island.peers ⊆ before.peers := by
  unfold removePeer at h
  split at h
  · exact ⟨island, h, List.Subset.refl _⟩
  · rename_i state _
    dsimp only at h
    cases hid : state.islandId with
    | none =>
      rw [hid] at h
      exact ⟨island, h, List.Subset.refl _⟩
    | some j =>
      rw [hid] at h
      exact sub_of_leaveIsland h

/-- The islands after a round are those it has formed, less the evicted. -/
theorem formed_of_reclusterOnce (env : Env F Grant) (isBanned : Address → Bool) :
    ∀ (id : IslandId) (island : Island F),
      (c.reclusterOnce env now isBanned).1.islands[id]? = some island →
        ∃ whole : Island F, (c.formed env now)[id]? = some whole ∧
          island.peers ⊆ whole.peers := by
  refine keeps_reclusterOnce (P := fun d => ∀ (id : IslandId) (island : Island F),
    d.islands[id]? = some island → ∃ whole : Island F, (c.formed env now)[id]? = some whole ∧
      island.peers ⊆ whole.peers) ?_ isBanned (fun _ island h => ⟨island, h, List.Subset.refl _⟩)
  intro d x hd id island h
  obtain ⟨before, hbefore, hsub⟩ := sub_of_removePeer h
  obtain ⟨whole, hwhole, hsub'⟩ := hd id before hbefore
  exact ⟨whole, hwhole, List.Subset.trans hsub hsub'⟩

/-- Where no one is banned, a round evicts no one. -/
theorem reclusterOnce_islands (env : Env F Grant) :
    (c.reclusterOnce env now fun _ => false).1.islands = c.formed env now := by
  have hfold : ∀ (entries : List (Address × IslandId × Option IslandId × List Address))
      (acc : Cluster F × List (ClusterEvent Grant)),
      (entries.foldl (announce env fun _ => false) acc).1 = acc.1 := by
    intro entries
    induction entries with
    | nil =>
      intro acc
      rfl
    | cons entry entries ih =>
      intro acc
      rw [List.foldl_cons, ih]
      rfl
  unfold reclusterOnce
  rw [hfold]
  rfl

end

theorem formed_of_pair (env : Env F Grant) {c : Cluster F} {now : ℤ} (hlive : c.live Grant now = c)
    (hids : (c.groupIds c.nextIsland (c.groups env.floats)).Nodup) {g : List (PeerState F)}
    {id : IslandId} (h : (g, id) ∈ c.islandPairs env.floats) :
    (c.formed env now)[id]? = some (c.islandOf env.floats g id) := by
  unfold formed
  rw [hlive]
  exact newIslands_of_pair hids h

/-! ### Chains -/

/-- A round forms joined islands where the peers that the distance test takes for near are. -/
theorem joined_formed (env : Env F Grant) (value : F → EReal) {c : Cluster F} {now : ℤ}
    (hnear : 2 ≤ c.cfg.islandMaxPeers → ∀ (a b : Address) (p q : PeerState F),
      c.peers[a]? = some p → c.peers[b]? = some q →
      nearParcels env.floats c.cfg.islandRadiusParcels p.parcel q.parcel →
      Within value c.cfg.islandRadiusParcels p.parcel q.parcel)
    {id : IslandId} {whole : Island F} (h : (c.formed env now)[id]? = some whole) :
    c.Joined value whole := by
  obtain ⟨g, hpair, rfl⟩ := pair_of_newIslands h
  have hg := mem_groups_of_pair hpair
  have hpeer : ∀ p ∈ g, c.peers[p.address]? = some p := fun p hp =>
    find_live (mem_peers_of_group hg hp)
  intro a ha b hb
  obtain ⟨p, hp, rfl⟩ := List.mem_map.mp ha
  obtain ⟨q, hq, rfl⟩ := List.mem_map.mp hb
  by_cases hcap : 2 ≤ c.cfg.islandMaxPeers
  · have hsymm : Std.Symm fun p q : PeerState F =>
        Within value c.cfg.islandRadiusParcels p.parcel q.parcel := ⟨fun _ _ => Within.symm⟩
    obtain ⟨f, hf, rfl⟩ := List.mem_map.mp hg
    have hchain := FloodFill.group_joined hf (u := p) (v := q) (r := fun p q : PeerState F =>
      Within value c.cfg.islandRadiusParcels p.parcel q.parcel) ?_ hp hq
    · refine Relation.ReflTransGen.lift PeerState.address ?_ _ _ hchain
      rintro u v ⟨hu, hv, hwithin⟩
      exact ⟨List.mem_map_of_mem hu, List.mem_map_of_mem hv, u, v, hpeer u hu, hpeer v hv, hwithin⟩
    · intro u hu v hv huv
      rw [live_cfg, near_eq] at huv
      exact hnear hcap u.address v.address u v (hpeer u hu) (hpeer v hv) huv
  · -- a cap below two leaves every peer alone
    have hle := groups_length_le hg
    rw [live_cfg] at hle
    have hone : g.length ≤ 1 := by
      dsimp only at hle
      omega
    obtain ⟨r, hr⟩ : ∃ r, g = [r] :=
      List.length_eq_one_iff.mp (le_antisymm hone (List.length_pos_of_mem hp))
    rw [hr] at hp hq
    rw [List.mem_singleton.mp hp, List.mem_singleton.mp hq]

theorem soundRound_of_near (env : Env F Grant) (value : F → EReal) {c : Cluster F}
    (hnear : 2 ≤ c.cfg.islandMaxPeers → ∀ (a b : Address) (p q : PeerState F),
      c.peers[a]? = some p → c.peers[b]? = some q →
      nearParcels env.floats c.cfg.islandRadiusParcels p.parcel q.parcel →
      Within value c.cfg.islandRadiusParcels p.parcel q.parcel) (now : ℤ)
    (isBanned : Address → Bool) : c.SoundRound env value now isBanned := by
  intro id island hisland
  obtain ⟨whole, hwhole, hsub⟩ := formed_of_reclusterOnce env isBanned id island hisland
  exact ⟨whole, hwhole, hsub, joined_formed env value hnear hwhole⟩

/-! ### Two peers -/

/-- Two peers on a cluster of their own. -/
def twoPeers (cfg : ClusterConfig F) (x y : F × F × F) (u v : ℤ × ℤ) : Cluster F :=
  ((new cfg).upsertPeerAt ['a'] x u [] 0).upsertPeerAt ['b'] y v [] 0

section

variable (cfg : ClusterConfig F) (x y : F × F × F) (u v : ℤ × ℤ)

theorem allPeers_twoPeers : (twoPeers cfg x y u v).allPeers =
    [⟨['a'], x, u, [], 0, none⟩, ⟨['b'], y, v, [], 0, none⟩] := rfl

theorem find_twoPeers {a : Address} {p : PeerState F}
    (h : (twoPeers cfg x y u v).peers[a]? = some p) :
    p = ⟨['a'], x, u, [], 0, none⟩ ∨ p = ⟨['b'], y, v, [], 0, none⟩ := by
  have ha := (twoPeers cfg x y u v).keyed a p h
  have hmem := mem_allPeers.mpr (ha.symm ▸ h)
  rw [allPeers_twoPeers] at hmem
  exact List.mem_pair.mp hmem

/-- A round at the time of the last heartbeats finds no peer stale. -/
theorem stale_nil {c : Cluster F} {now : ℤ}
    (h : ∀ (a : Address) (p : PeerState F), c.peers[a]? = some p → now ≤ p.lastHeartbeat) :
    c.stale now = [] := by
  unfold stale
  rw [List.map_eq_nil_iff, List.filter_eq_nil_iff]
  intro e he
  have hbeat := h e.1 e.2 ((OrdMap.mem_entries _ _ _).mp he)
  have htimeout : (0 : ℤ) ≤ c.cfg.heartbeatTimeoutSecs * 10 ^ 9 :=
    mul_nonneg (Int.natCast_nonneg _) (pow_nonneg (by norm_num) 9)
  rw [decide_eq_true_eq]
  exact not_lt.mpr ((sub_nonpos.mpr hbeat).trans htimeout)

theorem live_of_stale_nil {c : Cluster F} {now : ℤ} (h : c.stale now = []) :
    c.live Grant now = c := by
  unfold live dropStale
  rw [h, List.foldl_nil]

theorem live_twoPeers :
    (twoPeers cfg x y u v).live Grant 0 = twoPeers cfg x y u v := by
  refine live_of_stale_nil (stale_nil ?_)
  intro a p hp
  rcases find_twoPeers cfg x y u v hp with rfl | rfl <;> exact le_rfl

theorem groups_twoPeers (floats : Floats F) (hcap : 2 ≤ cfg.islandMaxPeers)
    (hnear : nearParcels floats cfg.islandRadiusParcels u v) :
    (twoPeers cfg x y u v).groups floats =
      [[⟨['a'], x, u, [], 0, none⟩, ⟨['b'], y, v, [], 0, none⟩]] := by
  have hcfg : (twoPeers cfg x y u v).cfg = cfg := rfl
  have hone : ¬ cfg.islandMaxPeers ≤ 1 := by omega
  unfold groups fills
  simp only [hcfg, allPeers_twoPeers]
  simp [FloodFill.cover, FloodFill.fill, FloodFill.expand, FloodFill.mark, near_eq, hnear, hone]

/-- The round puts two near peers on one island. -/
theorem formed_twoPeers (env : Env F Grant) (hcap : 2 ≤ cfg.islandMaxPeers)
    (hnear : nearParcels env.floats cfg.islandRadiusParcels u v) :
    ∃ (id : IslandId) (whole : Island F), ((twoPeers cfg x y u v).formed env 0)[id]? = some whole ∧
      whole.peers = [['a'], ['b']] := by
  have hgroups := groups_twoPeers cfg x y u v env.floats hcap hnear
  have hids : ((twoPeers cfg x y u v).groupIds (twoPeers cfg x y u v).nextIsland
      ((twoPeers cfg x y u v).groups env.floats)).Nodup := by
    rw [hgroups]
    exact List.nodup_singleton _
  obtain ⟨id, hpair⟩ := exists_pair (hgroups ▸ List.mem_singleton_self _)
  exact ⟨id, _, formed_of_pair env (live_twoPeers cfg x y u v) hids hpair, rfl⟩

/-- Two peers on one island are within the radius where the round is sound. -/
theorem within_of_soundRound {env : Env F Grant} {value : F → EReal}
    (hcap : 2 ≤ cfg.islandMaxPeers) (hnear : nearParcels env.floats cfg.islandRadiusParcels u v)
    (h : (twoPeers cfg x y u v).SoundRound env value 0 fun _ => false) :
    Within value cfg.islandRadiusParcels u v := by
  obtain ⟨id, whole, hwhole, hpeers⟩ := formed_twoPeers cfg x y u v env hcap hnear
  obtain ⟨whole', hwhole', -, hjoined⟩ := h id whole (by rw [reclusterOnce_islands, hwhole])
  rw [hwhole] at hwhole'
  obtain rfl := Option.some.inj hwhole'
  have hchain := hjoined ['a'] (by simp [hpeers]) ['b'] (by simp [hpeers])
  -- the last step of the chain comes from the other peer, or there is an earlier such step
  have hstep : ∀ b, Relation.ReflTransGen
      ((twoPeers cfg x y u v).Linked value whole) ['a'] b → b = ['a'] ∨
        (twoPeers cfg x y u v).Linked value whole ['a'] ['b'] := by
    intro b hb
    induction hb with
    | refl => exact Or.inl rfl
    | @tail m e _ hlink ih =>
      rcases ih with rfl | hlinked
      · have he := hlink.2.1
        rw [hpeers] at he
        rcases List.mem_pair.mp he with rfl | rfl
        · exact Or.inl rfl
        · exact Or.inr hlink
      · exact Or.inr hlinked
  rcases hstep _ hchain with heq | ⟨-, -, p, q, hp, hq, hwithin⟩
  · exact absurd heq (by decide)
  have hpa := (twoPeers cfg x y u v).keyed _ _ hp
  have hqb := (twoPeers cfg x y u v).keyed _ _ hq
  rcases find_twoPeers cfg x y u v hp with rfl | rfl
  · rcases find_twoPeers cfg x y u v hq with rfl | rfl
    · exact absurd hqb (by simp)
    · exact hwithin
  · exact absurd hpa (by simp)

end

end Cluster

open Cluster in
/-- The rounds over any peers at the given positions form joined islands exactly when no two of
the positions pass the distance test with parcels more than the radius apart. -/
theorem soundRounds_iff (env : Env F Grant) (rounding : Rounding F) (value : F → EReal)
    (cfg : ClusterConfig F) (positions : Set (F × F × F)) :
    (∀ c : Cluster F, c.cfg = cfg → c.Placed env.floats rounding positions →
      ∀ now isBanned, c.SoundRound env value now isBanned) ↔
      (2 ≤ cfg.islandMaxPeers → ∀ x ∈ positions, ∀ y ∈ positions,
        nearParcels env.floats cfg.islandRadiusParcels (parcelAt env.floats rounding x)
          (parcelAt env.floats rounding y) →
        Within value cfg.islandRadiusParcels (parcelAt env.floats rounding x)
          (parcelAt env.floats rounding y)) := by
  constructor
  · intro hsound hcap x hx y hy hnear
    refine within_of_soundRound cfg x y _ _ hcap hnear (hsound _ rfl ?_ 0 _)
    intro a p hp
    rcases find_twoPeers cfg x y _ _ hp with rfl | rfl
    · exact ⟨hx, rfl⟩
    · exact ⟨hy, rfl⟩
  · rintro hnear c rfl hplaced now isBanned
    refine soundRound_of_near env value ?_ now isBanned
    intro hcap a b p q hp hq hpq
    obtain ⟨hx, hpx⟩ := hplaced a p hp
    obtain ⟨hy, hqy⟩ := hplaced b q hq
    rw [hpx, hqy] at hpq ⊢
    exact hnear hcap p.position hx q.position hy hpq

/-! ### Arithmetic without rounding -/

open Classical in
noncomputable def exactFloats : Floats ℝ where
  ofInt n := n
  add x y := x + y
  sub x y := x - y
  mul x y := x * y
  div x y := x / y
  sqrt := Real.sqrt
  le x y := decide (x ≤ y)
  lt x y := decide (x < y)

/-- The difference of the two numbers is an `i32`. -/
def Fits (m n : ℤ) : Prop := -2 ^ 31 ≤ n - m ∧ n - m < 2 ^ 31

/-- Without rounding and without wrapping the distance test is the distance. -/
theorem nearParcels_exact {r : ℝ} (hr : 0 ≤ r) {u v : ℤ × ℤ} (hx : Fits u.1 v.1)
    (hz : Fits u.2 v.2) :
    nearParcels exactFloats r u v ↔ Within (fun r : ℝ => (r : EReal)) r u v := by
  have hwrap : ∀ {m n : ℤ}, Fits m n → Int.bmod (n - m) (2 ^ 32) = n - m := by
    rintro m n ⟨hlo, hhi⟩
    exact Int.bmod_eq_of_le (by omega) (by omega)
  have hnear : nearParcels exactFloats r u v = true ↔
      ((v.1 - u.1 : ℤ) : ℝ) * (v.1 - u.1 : ℤ) + ((v.2 - u.2 : ℤ) : ℝ) * (v.2 - u.2 : ℤ) ≤
        r * r := by
    simp only [nearParcels, hwrap hx, hwrap hz, exactFloats, decide_eq_true_eq]
  rw [hnear, Within, EReal.coe_le_coe_iff, distance, Real.sqrt_le_iff]
  push_cast
  simp only [pow_two, hr, true_and]

open Cluster in
/-- Without rounding, rounds are sound over peers whose parcels are all less than `i32` apart. -/
theorem soundRound_of_fits (livekit : Address → IslandId → Option Grant) {c : Cluster ℝ}
    (hr : 0 ≤ c.cfg.islandRadiusParcels)
    (hfits : ∀ (a b : Address) (p q : PeerState ℝ), c.peers[a]? = some p →
      c.peers[b]? = some q → Fits p.parcel.1 q.parcel.1 ∧ Fits p.parcel.2 q.parcel.2)
    (now : ℤ) (isBanned : Address → Bool) :
    c.SoundRound ⟨exactFloats, livekit⟩ (fun r : ℝ => (r : EReal)) now isBanned := by
  refine soundRound_of_near ⟨exactFloats, livekit⟩ _ ?_ now isBanned
  intro _ a b p q hp hq hpq
  obtain ⟨hx, hz⟩ := hfits a b p q hp hq
  exact (nearParcels_exact hr hx hz).mp hpq

/-! ### Two ends of the range -/

/-- The rounding of whole numbers. -/
def wholeRounding : Rounding ℤ where
  floor := id
  toI32 x := max (-2 ^ 31) (min x (2 ^ 31 - 1))
  range x := by omega

def wholeValue (r : ℤ) : EReal := ((r : ℝ) : EReal)

/-- A peer far to the east and one far to the west. -/
def ends : Cluster ℤ :=
  let east := (2 ^ 40, 0, 0)
  let west := (-2 ^ 40, 0, 0)
  Cluster.twoPeers ⟨30, 4, 50⟩ east west (parcelAt Cluster.wholeFloats wholeRounding east)
    (parcelAt Cluster.wholeFloats wholeRounding west)

open Cluster in
/-- The parcels of the two peers are the ends of `i32`, and their difference wraps. -/
theorem ends_not_sound : ends.Placed wholeFloats wholeRounding Set.univ ∧
    ¬ ends.SoundRound wholeEnv wholeValue 0 fun _ => false := by
  refine ⟨?_, ?_⟩
  · intro a p hp
    rcases find_twoPeers _ _ _ _ _ hp with rfl | rfl
    · exact ⟨Set.mem_univ _, rfl⟩
    · exact ⟨Set.mem_univ _, rfl⟩
  · intro h
    have hwithin := within_of_soundRound _ _ _ _ _ (by decide) (by decide) h
    unfold Within wholeValue at hwithin
    rw [EReal.coe_le_coe_iff, distance, Real.sqrt_le_iff] at hwithin
    have hfar : ¬ ((4294967295 ^ 2 : ℤ) : ℝ) ≤ ((4 : ℤ) : ℝ) ^ 2 := by norm_num
    exact hfar hwithin.2

end Catalyrst.Archipelago
