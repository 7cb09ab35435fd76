import Mathlib
import Catalyrst.Lib.Machine
import Catalyrst.Archipelago.Islands

/-!
# Island ids over a history

Peers come, move and leave between the rounds of the engine. An id in use was
issued by the counter, so an id fresh in a round is never one in use; what can go
wrong is that an island splits and two of its parts take over its id.
-/

namespace Catalyrst.Archipelago

open Catalyrst.Lib

variable {F Grant : Type}

namespace Cluster

/-! ### A peer leaves -/

theorem find_removePeer (c : Cluster F) (x a : Address) :
    (c.removePeer x : Cluster F × List (ClusterEvent Grant)).1.peers[a]? =
      if x = a then none else c.peers[a]? := by
  unfold removePeer
  split
  · rename_i hx
    split
    · rename_i ha
      rw [← ha, hx]
    · rfl
  · dsimp only
    rw [OrdMap.find_erase]
    congr

theorem removePeer_nextIsland (c : Cluster F) (x : Address) :
    (c.removePeer x : Cluster F × List (ClusterEvent Grant)).1.nextIsland = c.nextIsland := by
  unfold removePeer
  split <;> rfl

/-- An island keeps the members other than the one that leaves. -/
theorem find_leaveIsland {islands : OrdMap IslandId (Island F)} {x a : Address}
    {j id : IslandId} {island : Island F} (hne : x ≠ a) (h : islands[id]? = some island)
    (ha : a ∈ island.peers) :
    ∃ island', (leaveIsland islands x j)[id]? = some island' ∧ a ∈ island'.peers := by
  unfold leaveIsland
  split
  · exact ⟨island, h, ha⟩
  · rename_i left hleft
    dsimp only
    by_cases hj : j = id
    · obtain rfl : left = island := by
        rw [hj, h] at hleft
        exact (Option.some.inj hleft).symm
      have hmem : a ∈ left.peers.filter fun b => b ≠ x :=
        List.mem_filter.mpr ⟨ha, by simpa using hne.symm⟩
      have hfull : (left.peers.filter fun b => b ≠ x).isEmpty = false := by
        rw [List.isEmpty_eq_false_iff]
        exact List.ne_nil_of_mem hmem
      rw [hfull]
      exact ⟨_, by rw [if_neg Bool.false_ne_true, OrdMap.find_insert, if_pos hj], hmem⟩
    · split
      · rw [OrdMap.find_erase, if_neg hj]
        exact ⟨island, h, ha⟩
      · rw [OrdMap.find_insert, if_neg hj]
        exact ⟨island, h, ha⟩

theorem find_removePeer_islands {c : Cluster F} {x a : Address} {id : IslandId}
    {island : Island F} (hne : x ≠ a) (h : c.islands[id]? = some island) (ha : a ∈ island.peers) :
    ∃ island', (c.removePeer x : Cluster F × List (ClusterEvent Grant)).1.islands[id]? =
      some island' ∧ a ∈ island'.peers := by
  unfold removePeer
  split
  · exact ⟨island, h, ha⟩
  · rename_i state _
    dsimp only
    cases state.islandId with
    | none => exact ⟨island, h, ha⟩
    | some j => exact find_leaveIsland hne h ha

section

variable {P : Cluster F → Prop}
  (hremove : ∀ c x, P c → P (c.removePeer x : Cluster F × List (ClusterEvent Grant)).1)

include hremove

theorem keeps_dropStale {c : Cluster F} (h : P c) (now : ℤ) :
    P (c.dropStale now : Cluster F × List (ClusterEvent Grant)).1 := by
  have hfold : ∀ (addresses : List Address) (acc : Cluster F × List (ClusterEvent Grant)),
      P acc.1 → P (addresses.foldl (fun acc address =>
        let r := acc.1.removePeer address
        (r.1, acc.2 ++ r.2)) acc).1 := by
    intro addresses
    induction addresses with
    | nil =>
      intro acc hacc
      exact hacc
    | cons address addresses ih =>
      intro acc hacc
      exact ih _ (hremove acc.1 address hacc)
  exact hfold _ _ h

theorem keeps_announce (env : Env F Grant) (isBanned : Address → Bool)
    (entries : List (Address × IslandId × Option IslandId × List Address))
    {acc : Cluster F × List (ClusterEvent Grant)} (h : P acc.1) :
    P (entries.foldl (announce env isBanned) acc).1 := by
  induction entries generalizing acc with
  | nil => exact h
  | cons entry entries ih =>
    refine ih ?_
    unfold announce
    dsimp only
    split
    · exact hremove acc.1 _ h
    · exact h

/-- What departures keep is kept by a round, if the assignment gives it. -/
theorem keeps_reclusterOnce {env : Env F Grant} {c : Cluster F} {now : ℤ}
    (isBanned : Address → Bool)
    (h : P ((c.dropStale now : Cluster F × List (ClusterEvent Grant)).1.store
      ((c.dropStale now : Cluster F × List (ClusterEvent Grant)).1.assign env.floats))) :
    P (c.reclusterOnce env now isBanned).1 :=
  keeps_announce hremove env isBanned _ h

end

/-! ### Ids in use -/

/-- Every id in use was issued by the counter. -/
def Issued (c : Cluster F) : Prop :=
  ∀ (a : Address) (p : PeerState F) (id : IslandId), c.peers[a]? = some p →
    p.islandId = some id → ∃ n, n ≤ c.nextIsland ∧ id = islandName n

theorem issued_new (cfg : ClusterConfig F) : (new cfg).Issued := by
  intro a p id hp
  simp [new] at hp

theorem Issued.upsertPeerAt {c : Cluster F} (h : c.Issued) (address : Address)
    (position : F × F × F) (parcel : ℤ × ℤ) (realm : List Char) (lastHeartbeat : ℤ) :
    (c.upsertPeerAt address position parcel realm lastHeartbeat).Issued := by
  intro a p id hp hid
  have hp' : (c.upsertPeerAt address position parcel realm lastHeartbeat).peers[a]? = some p := hp
  simp only [Cluster.upsertPeerAt, OrdMap.find_insert] at hp'
  split at hp'
  · cases hp'
    obtain ⟨q, hq, hqid⟩ := Option.bind_eq_some_iff.mp hid
    exact h address q id hq hqid
  · exact h a p id hp' hid

theorem Issued.removePeer {c : Cluster F} (h : c.Issued) (x : Address) :
    (c.removePeer x : Cluster F × List (ClusterEvent Grant)).1.Issued := by
  intro a p id hp hid
  rw [find_removePeer] at hp
  split at hp
  · cases hp
  · rw [removePeer_nextIsland]
    exact h a p id hp hid

theorem maxByKey_mem {key : IslandId → ℕ} {ids : List IslandId} {id : IslandId}
    (h : maxByKey key ids = some id) : id ∈ ids := by
  cases ids with
  | nil => cases h
  | cons first ids =>
    have hfold : ∀ best, ids.foldl (fun best id => if key best ≤ key id then id else best) best =
        best ∨ ids.foldl (fun best id => if key best ≤ key id then id else best) best ∈ ids := by
      clear h
      induction ids with
      | nil =>
        intro best
        exact Or.inl rfl
      | cons next ids ih =>
        intro best
        rw [List.foldl_cons]
        rcases ih (if key best ≤ key next then next else best) with hb | hb
        · rw [hb]
          split
          · exact Or.inr List.mem_cons_self
          · exact Or.inl rfl
        · exact Or.inr (List.mem_cons_of_mem next hb)
    have hid := Option.some.inj h
    rcases hfold first with hb | hb
    · rw [← hid, hb]
      exact List.mem_cons_self
    · rw [← hid]
      exact List.mem_cons_of_mem first hb

theorem Issued.existingId {c : Cluster F} (h : c.Issued) {g : List (PeerState F)} {id : IslandId}
    (hid : c.existingId g = some id) : ∃ n, n ≤ c.nextIsland ∧ id = islandName n := by
  obtain ⟨p, -, hp⟩ := List.mem_filterMap.mp (maxByKey_mem hid)
  obtain ⟨q, hq, hqid⟩ := Option.bind_eq_some_iff.mp hp
  exact h p.address q id hq hqid

/-- Two groups with different inherited ids have ids of their own. -/
theorem Issued.idsApart {c : Cluster F} (h : c.Issued) {gs : List (List (PeerState F))}
    (hin : gs.Pairwise fun g g' => ∀ id, c.existingId g = some id → c.existingId g' ≠ some id) :
    c.IdsApart c.nextIsland gs where
  inherited := hin
  unissued := by
    intro g _ id hid m hlt _ heq
    obtain ⟨n, hn, rfl⟩ := h.existingId hid
    have hmn := islandName_inj heq
    omega

theorem Issued.store {c : Cluster F} (h : c.Issued) (floats : Floats F) :
    (c.store (c.assign floats)).Issued := by
  intro a p id hp hid
  obtain ⟨q, hq, rfl⟩ := find_store.mp hp
  obtain ⟨g, hpair, -⟩ := peerAssignment_iff.mp hid
  have hmem : id ∈ c.groupIds c.nextIsland (c.groups floats) := by
    rw [← map_snd_islandPairs]
    exact List.mem_map_of_mem hpair
  have hnext : (c.store (c.assign floats)).nextIsland =
      c.nextIsland + c.freshCount (c.groups floats) := by
    show (c.assign floats).nextIsland = _
    rw [assign_eq]
  rw [hnext]
  rcases (mem_groupIds _ _ _ _).mp hmem with ⟨g', -, he⟩ | ⟨m, -, hle, rfl⟩
  · obtain ⟨n, hn, rfl⟩ := h.existingId he
    exact ⟨n, by omega, rfl⟩
  · exact ⟨m, hle, rfl⟩

theorem Issued.reclusterOnce {c : Cluster F} (h : c.Issued) (env : Env F Grant) (now : ℤ)
    (isBanned : Address → Bool) : (c.reclusterOnce env now isBanned).1.Issued := by
  refine keeps_reclusterOnce (fun _ x hc => hc.removePeer x) isBanned ?_
  exact (keeps_dropStale (fun _ x hc => hc.removePeer x) h now).store env.floats

/-! ### Islands and groups -/

/-- The islands stand for the groups `gs`: a peer is on the list of the island its id names,
groups that differ have ids that differ, and two peers have one id exactly when one group
holds them both. -/
structure Consistent (gs : List (List (PeerState F))) (c : Cluster F) : Prop where
  named : ∀ (a : Address) (p : PeerState F), c.peers[a]? = some p →
    ∃ (id : IslandId) (island : Island F), p.islandId = some id ∧
      c.islands[id]? = some island ∧ a ∈ island.peers
  distinct : ∀ g ∈ gs, ∀ g' ∈ gs, g ≠ g' → ∀ (a b : Address) (p q : PeerState F),
    a ∈ g.map PeerState.address → b ∈ g'.map PeerState.address →
    c.peers[a]? = some p → c.peers[b]? = some q → p.islandId ≠ q.islandId
  shared : ∀ (a b : Address) (p q : PeerState F), c.peers[a]? = some p → c.peers[b]? = some q →
    (p.islandId = q.islandId ↔
      ∃ g ∈ gs, a ∈ g.map PeerState.address ∧ b ∈ g.map PeerState.address)

theorem Consistent.removePeer {gs : List (List (PeerState F))} {c : Cluster F}
    (h : c.Consistent gs) (x : Address) :
    (c.removePeer x : Cluster F × List (ClusterEvent Grant)).1.Consistent gs := by
  have hstays : ∀ {a : Address} {p : PeerState F},
      (c.removePeer x : Cluster F × List (ClusterEvent Grant)).1.peers[a]? = some p →
        x ≠ a ∧ c.peers[a]? = some p := by
    intro a p hp
    rw [find_removePeer] at hp
    split at hp
    · cases hp
    · rename_i hne
      exact ⟨hne, hp⟩
  refine ⟨?_, ?_, ?_⟩
  · intro a p hp
    obtain ⟨hne, hp⟩ := hstays hp
    obtain ⟨id, island, hid, hisland, ha⟩ := h.named a p hp
    obtain ⟨island', hisland', ha'⟩ := find_removePeer_islands hne hisland ha
    exact ⟨id, island', hid, hisland', ha'⟩
  · intro g hg g' hg' hne a b p q ha hb hp hq
    exact h.distinct g hg g' hg' hne a b p q ha hb (hstays hp).2 (hstays hq).2
  · intro a b p q hp hq
    exact h.shared a b p q (hstays hp).2 (hstays hq).2

/-- The assignment of a round in which every peer is in a group and every group has an id of
its own. -/
theorem consistent_store {floats : Floats F} {c : Cluster F}
    (hqueue : ∀ f ∈ c.fills floats, f.queue = [])
    (hids : (c.groupIds c.nextIsland (c.groups floats)).Nodup) :
    (c.store (c.assign floats)).Consistent (c.groups floats) := by
  have hpair : ∀ {a : Address} {p : PeerState F},
      (c.store (c.assign floats)).peers[a]? = some p →
        ∃ g id, (g, id) ∈ c.islandPairs floats ∧ a ∈ g.map PeerState.address ∧
          p.islandId = some id := by
    intro a p hp
    obtain ⟨q, hq, rfl⟩ := find_store.mp hp
    obtain ⟨g, id, hg, ha⟩ := pair_of_peer hqueue hq
    exact ⟨g, id, hg, ha, peerAssignment_iff.mpr ⟨g, hg, ha⟩⟩
  refine ⟨?_, ?_, ?_⟩
  · intro a p hp
    obtain ⟨g, id, hg, ha, hid⟩ := hpair hp
    exact ⟨id, c.islandOf floats g id, hid, newIslands_of_pair hids hg, ha⟩
  · intro g hg g' hg' hne a b p q ha hb hp hq heq
    obtain ⟨k, id, hk, hak, hid⟩ := hpair hp
    obtain ⟨k', id', hk', hbk, hid'⟩ := hpair hq
    obtain rfl := group_unique (mem_groups_of_pair hk) hg hak ha
    obtain rfl := group_unique (mem_groups_of_pair hk') hg' hbk hb
    rw [hid, hid'] at heq
    obtain rfl := Option.some.inj heq
    exact hne (pair_unique hids hk hk')
  · intro a b p q hp hq
    obtain ⟨g, id, hg, ha, hid⟩ := hpair hp
    obtain ⟨g', id', hg', hb, hid'⟩ := hpair hq
    rw [hid, hid']
    constructor
    · intro heq
      obtain rfl := Option.some.inj heq
      obtain rfl := pair_unique hids hg hg'
      exact ⟨g, mem_groups_of_pair hg, ha, hb⟩
    · rintro ⟨k, hk, hak, hbk⟩
      obtain rfl := group_unique (mem_groups_of_pair hg) hk ha hak
      obtain rfl := group_unique (mem_groups_of_pair hg') hk hb hbk
      rw [pair_id_unique hg hg']

end Cluster

/-! ### Histories -/

/-- A call on the cluster. -/
inductive Call (F : Type) where
  | upsertPeer (address : Address) (position : F × F × F) (parcel : ℤ × ℤ) (realm : List Char)
      (lastHeartbeat : ℤ)
  | removePeer (address : Address)
  | reclusterOnce (now : ℤ) (isBanned : Address → Bool)

namespace Cluster

def call (env : Env F Grant) (c : Cluster F) : Call F → Cluster F
  | .upsertPeer address position parcel realm lastHeartbeat =>
    c.upsertPeerAt address position parcel realm lastHeartbeat
  | .removePeer address => (c.removePeer address : Cluster F × List (ClusterEvent Grant)).1
  | .reclusterOnce now isBanned => (c.reclusterOnce env now isBanned).1

def step (env : Env F Grant) (c : Cluster F) (k : Call F) : Option (Cluster F) := some (c.call env k)

variable (Grant) in
/-- The cluster a round groups: the stale peers are gone. -/
def live (c : Cluster F) (now : ℤ) : Cluster F :=
  (c.dropStale now : Cluster F × List (ClusterEvent Grant)).1

/-- A round in which no group reaches the cap. -/
def BelowCap (env : Env F Grant) (c : Cluster F) : Call F → Prop
  | .reclusterOnce now _ =>
    ∀ g ∈ (c.live Grant now).groups env.floats, g.length < (c.live Grant now).cfg.islandMaxPeers
  | _ => True

/-- A round in which no two groups take over one id: of the parts of an island that has
split, one takes its id over at most. -/
def Unsplit (env : Env F Grant) (c : Cluster F) : Call F → Prop
  | .reclusterOnce now _ =>
    ((c.live Grant now).groups env.floats).Pairwise fun g g' =>
      ∀ id, (c.live Grant now).existingId g = some id → (c.live Grant now).existingId g' ≠ some id
  | _ => True

/-- After a round the islands stand for its groups. -/
def ConsistentAfter (env : Env F Grant) (c : Cluster F) (k : Call F) : Prop :=
  match k with
  | .reclusterOnce now _ => (c.call env k).Consistent ((c.live Grant now).groups env.floats)
  | _ => True

instance (env : Env F Grant) (c : Cluster F) : ∀ k, Decidable (c.BelowCap env k)
  | .upsertPeer .. => isTrue trivial
  | .removePeer _ => isTrue trivial
  | .reclusterOnce now _ => inferInstanceAs (Decidable (∀ g ∈ (c.live Grant now).groups env.floats,
      g.length < (c.live Grant now).cfg.islandMaxPeers))

instance (c : Cluster F) (g g' : List (PeerState F)) :
    Decidable (∀ id, c.existingId g = some id → c.existingId g' ≠ some id) :=
  match c.existingId g with
  | none => isTrue fun _ hid => nomatch hid
  | some id => decidable_of_iff (c.existingId g' ≠ some id)
      ⟨fun hne _ hid => Option.some.inj hid ▸ hne, fun hall => hall id rfl⟩

instance (env : Env F Grant) (c : Cluster F) : ∀ k, Decidable (c.Unsplit env k)
  | .upsertPeer .. => isTrue trivial
  | .removePeer _ => isTrue trivial
  | .reclusterOnce now _ =>
    inferInstanceAs (Decidable (((c.live Grant now).groups env.floats).Pairwise fun g g' =>
      ∀ id, (c.live Grant now).existingId g = some id → (c.live Grant now).existingId g' ≠ some id))

theorem Issued.call {c : Cluster F} (h : c.Issued) (env : Env F Grant) (k : Call F) :
    (c.call env k).Issued := by
  cases k with
  | upsertPeer address position parcel realm lastHeartbeat =>
    exact h.upsertPeerAt address position parcel realm lastHeartbeat
  | removePeer address => exact h.removePeer address
  | reclusterOnce now isBanned => exact h.reclusterOnce env now isBanned

theorem Issued.consistentAfter {c : Cluster F} (h : c.Issued) {env : Env F Grant} {k : Call F}
    (hcap : c.BelowCap env k) (hsplit : c.Unsplit env k) : c.ConsistentAfter env k := by
  cases k with
  | upsertPeer address position parcel realm lastHeartbeat => trivial
  | removePeer address => trivial
  | reclusterOnce now isBanned =>
    have hlive : (c.live Grant now).Issued := keeps_dropStale (fun _ x hc => hc.removePeer x) h now
    refine keeps_reclusterOnce (P := fun d => d.Consistent ((c.live Grant now).groups env.floats))
      (fun _ x hd => hd.removePeer x) isBanned (consistent_store ?_ ?_)
    · intro f hf
      have hbelow : f.group.length < (c.live Grant now).cfg.islandMaxPeers :=
        hcap f.group (List.mem_map_of_mem hf)
      have hended := FloodFill.cover_ended (fun _ hv => hv) ∅ f hf
      exact hended.full.resolve_right (Nat.not_le_of_lt hbelow)
    · exact (nodup_groupIds_iff _ _ _).mpr (hlive.idsApart hsplit)

end Cluster

open Cluster in
/-- In a history whose rounds keep below the cap and let no two groups take over one id, the
islands stand for the groups after every round. -/
theorem islands_follow_groups (env : Env F Grant) (cfg : ClusterConfig F) (calls : List (Call F))
    (h : Machine.Meets (step env) (fun c k => c.BelowCap env k ∧ c.Unsplit env k)
      (new cfg) calls) :
    Machine.Meets (step env) (fun c k => c.ConsistentAfter env k) (new cfg) calls := by
  refine Machine.meets_of_invariant (step env) ?_ ?_ calls (new cfg) (issued_new cfg) h
  · intro c k d hc _ hd
    obtain rfl := Option.some.inj hd
    exact hc.call env k
  · intro c k hc hk
    exact hc.consistentAfter hk.1 hk.2

namespace Cluster

/-- A peer at the parcel `(x, 0)`. -/
def moves (a : Char) (x : ℤ) : Call ℤ := .upsertPeer [a] (16 * x, 0, 0) (x, 0) [] 0

def round : Call ℤ := .reclusterOnce 0 fun _ => false

/-- Two islands form and merge; then the peer they started with leaves and another comes. -/
def merging : List (Call ℤ) :=
  [moves 'a' 0, moves 'c' 40, round, moves 'c' 2, round, .removePeer ['a'], moves 'd' 80, round]

/-- Two peers share an island; then one of them walks away. -/
def splitting : List (Call ℤ) := [moves 'a' 0, moves 'b' 2, round, moves 'b' 40, round]

end Cluster

open Cluster in
theorem islands_follow_groups_merging :
    Machine.Meets (step wholeEnv) (fun c k => c.ConsistentAfter wholeEnv k)
      (new ⟨30, 4, 50⟩) merging :=
  islands_follow_groups wholeEnv ⟨30, 4, 50⟩ merging (by decide)

open Cluster in
/-- An island that splits leaves both parts with its id, and the first without the island. -/
theorem split_groups_share_id :
    Machine.Meets (step wholeEnv) (fun c k => c.BelowCap wholeEnv k) (new ⟨30, 4, 50⟩) splitting ∧
      ¬ Machine.Meets (step wholeEnv) (fun c k => c.ConsistentAfter wholeEnv k)
        (new ⟨30, 4, 50⟩) splitting := by
  refine ⟨by decide, ?_⟩
  intro h
  have hlast : ((splitting.foldl (call wholeEnv) (new ⟨30, 4, 50⟩))).Consistent _ :=
    ((((h.2 _ rfl).2 _ rfl).2 _ rfl).2 _ rfl).1
  have hlost : ((splitting.foldl (call wholeEnv) (new ⟨30, 4, 50⟩)).peers[['a']]?).map
      (fun p => p.islandId.map fun id =>
        ((splitting.foldl (call wholeEnv) (new ⟨30, 4, 50⟩)).islands[id]?).map Island.peers) =
      some (some (some [['b']])) := by
    decide
  obtain ⟨p, hp, hmembers⟩ := Option.map_eq_some_iff.mp hlost
  obtain ⟨id, island, hid, hisland, hmem⟩ := hlast.named _ p hp
  rw [hid, Option.map_some, hisland] at hmembers
  have hpeers : island.peers = [['b']] := Option.some.inj (Option.some.inj hmembers)
  rw [hpeers] at hmem
  exact absurd hmem (by decide)

end Catalyrst.Archipelago
