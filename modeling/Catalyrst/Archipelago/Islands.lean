import Mathlib
import Catalyrst.Archipelago.Cluster

/-!
# One island for every peer

The grouping loop marks a peer as visited when it queues it, and abandons its
queue when a group reaches the size cap; a peer abandoned so is in no group. The
assignment gives every group an id of its own only when no two groups take over
the same id. These are the two ways in which a peer can miss its island.
-/

namespace Catalyrst.Archipelago

open Catalyrst.Lib

namespace Cluster

variable {F Grant : Type}

/-! ### The groups -/

theorem mem_allPeers {c : Cluster F} {p : PeerState F} :
    p ∈ c.allPeers ↔ c.peers[p.address]? = some p := by
  unfold allPeers
  constructor
  · intro h
    obtain ⟨e, he, rfl⟩ := List.mem_map.mp h
    have hf : c.peers[e.1]? = some e.2 := (OrdMap.mem_entries _ _ _).mp he
    rw [c.keyed e.1 e.2 hf]
    exact hf
  · intro h
    exact List.mem_map.mpr ⟨(p.address, p), (OrdMap.mem_entries _ _ _).mpr h, rfl⟩

theorem nodup_allPeers (c : Cluster F) : (c.allPeers.map PeerState.address).Nodup := by
  have heq : c.allPeers.map PeerState.address = c.peers.keys := by
    rw [allPeers, List.map_map, ← Std.ExtTreeMap.map_fst_toList_eq_keys]
    refine List.map_congr_left fun e he => ?_
    exact c.keyed e.1 e.2 ((OrdMap.mem_entries _ _ _).mp he)
  rw [heq]
  exact (OrdMap.keys_ascending c.peers).imp ne_of_lt

theorem groups_flatten (floats : Floats F) (c : Cluster F) :
    (c.groups floats).flatten = (c.fills floats).flatMap FloodFill.Front.group := by
  rw [groups, List.flatMap_def]

/-- No address is in two groups, and none is both in a group and in an abandoned queue. -/
theorem nodup_fills (floats : Floats F) (c : Cluster F) :
    ((c.groups floats).flatten.map PeerState.address ++
      ((c.fills floats).flatMap FloodFill.Front.queue).map PeerState.address).Nodup := by
  rw [groups_flatten, ← List.map_append]
  exact FloodFill.nodup_groups

theorem nodup_groups (floats : Floats F) (c : Cluster F) :
    ((c.groups floats).flatten.map PeerState.address).Nodup :=
  (c.nodup_fills floats).of_append_left

theorem groups_ne_nil {floats : Floats F} {c : Cluster F} {g : List (PeerState F)}
    (hg : g ∈ c.groups floats) : g ≠ [] := by
  obtain ⟨f, hf, rfl⟩ := List.mem_map.mp hg
  exact (FloodFill.cover_ended (fun _ hv => hv) ∅ f hf).grouped

theorem groups_length_le {floats : Floats F} {c : Cluster F} {g : List (PeerState F)}
    (hg : g ∈ c.groups floats) : g.length ≤ max c.cfg.islandMaxPeers 1 := by
  obtain ⟨f, hf, rfl⟩ := List.mem_map.mp hg
  exact (FloodFill.cover_ended (fun _ hv => hv) ∅ f hf).length_le

theorem mem_peers_of_group {floats : Floats F} {c : Cluster F} {g : List (PeerState F)}
    (hg : g ∈ c.groups floats) {p : PeerState F} (hp : p ∈ g) : c.peers[p.address]? = some p := by
  obtain ⟨f, hf, rfl⟩ := List.mem_map.mp hg
  exact mem_allPeers.mp
    ((FloodFill.cover_ended (fun _ hv => hv) ∅ f hf).mem p (List.mem_append_left _ hp))

/-- A peer is in a group unless a fill has left it in its queue. -/
theorem grouped_iff (floats : Floats F) (c : Cluster F) {p : PeerState F}
    (h : c.peers[p.address]? = some p) :
    p.address ∈ (c.groups floats).flatten.map PeerState.address ↔
      ∀ f ∈ c.fills floats, p ∉ f.queue := by
  constructor
  · intro hg f hf hq
    have hleft : p.address ∈
        ((c.fills floats).flatMap FloodFill.Front.queue).map PeerState.address :=
      List.mem_map_of_mem (List.mem_flatMap.mpr ⟨f, hf, hq⟩)
    exact (List.nodup_append'.mp (c.nodup_fills floats)).2.2 hg hleft
  · intro hnone
    have htaken : p ∈ (c.fills floats).flatMap FloodFill.Front.taken :=
      (FloodFill.mem_cover c.nodup_allPeers).mp (mem_allPeers.mpr h)
    obtain ⟨f, hf, hp⟩ := List.mem_flatMap.mp htaken
    rcases List.mem_append.mp hp with hp | hp
    · rw [groups_flatten]
      exact List.mem_map_of_mem (List.mem_flatMap.mpr ⟨f, hf, hp⟩)
    · exact absurd hp (hnone f hf)

/-- An address is in one group only. -/
theorem group_unique {floats : Floats F} {c : Cluster F} {g g' : List (PeerState F)}
    (hg : g ∈ c.groups floats) (hg' : g' ∈ c.groups floats) {a : Address}
    (ha : a ∈ g.map PeerState.address) (ha' : a ∈ g'.map PeerState.address) : g = g' := by
  have hnodup := c.nodup_groups floats
  rw [List.map_flatten, ← List.flatMap_def, List.nodup_flatMap] at hnodup
  have hsymm : Std.Symm (Function.onFun List.Disjoint
      fun g : List (PeerState F) => g.map PeerState.address) := ⟨fun _ _ h => List.Disjoint.symm h⟩
  by_contra hne
  exact hnodup.2.forall hg hg' hne ha ha'

theorem nodup_groupList (floats : Floats F) (c : Cluster F) : (c.groups floats).Nodup := by
  have hnodup := c.nodup_groups floats
  rw [List.map_flatten, ← List.flatMap_def, List.nodup_flatMap] at hnodup
  refine hnodup.2.imp_of_mem ?_
  rintro g g' hg - hdisjoint rfl
  obtain ⟨p, hp⟩ := List.exists_mem_of_ne_nil g (groups_ne_nil hg)
  exact hdisjoint (List.mem_map_of_mem hp) (List.mem_map_of_mem hp)

/-! ### The ids of the groups -/

/-- The ids the groups get, in order, when the counter stands at `n`. -/
def groupIds (c : Cluster F) : ℕ → List (List (PeerState F)) → List IslandId
  | _, [] => []
  | n, g :: gs =>
    let next := if (c.existingId g).isSome then n else n + 1
    (c.existingId g).getD (islandName next) :: groupIds c next gs

/-- The number of groups that take over no id. -/
def freshCount (c : Cluster F) (gs : List (List (PeerState F))) : ℕ :=
  gs.countP fun g => (c.existingId g).isNone

theorem islandName_inj {m n : ℕ} (h : islandName m = islandName n) : m = n := by
  have hd : Nat.toDigits 10 m = Nat.toDigits 10 n := List.tail_eq_of_cons_eq h
  rw [← Nat.ofDigitChars_ten_toDigits (n := m), hd, Nat.ofDigitChars_ten_toDigits]

theorem length_groupIds (c : Cluster F) (n : ℕ) (gs : List (List (PeerState F))) :
    (c.groupIds n gs).length = gs.length := by
  induction gs generalizing n with
  | nil => rfl
  | cons g gs ih => simp [groupIds, ih]

section
variable {c : Cluster F} {g : List (PeerState F)}

theorem groupIds_inherited {id : IslandId} (h : c.existingId g = some id) (n : ℕ)
    (gs : List (List (PeerState F))) : c.groupIds n (g :: gs) = id :: c.groupIds n gs := by
  simp [groupIds, h]

theorem groupIds_fresh (h : c.existingId g = none) (n : ℕ) (gs : List (List (PeerState F))) :
    c.groupIds n (g :: gs) = islandName (n + 1) :: c.groupIds (n + 1) gs := by
  simp [groupIds, h]

theorem freshCount_inherited {id : IslandId} (h : c.existingId g = some id)
    (gs : List (List (PeerState F))) : c.freshCount (g :: gs) = c.freshCount gs := by
  simp [freshCount, h]

theorem freshCount_fresh (h : c.existingId g = none) (gs : List (List (PeerState F))) :
    c.freshCount (g :: gs) = c.freshCount gs + 1 := by
  simp [freshCount, h]

end

theorem mem_groupIds (c : Cluster F) (n : ℕ) (gs : List (List (PeerState F))) (id : IslandId) :
    id ∈ c.groupIds n gs ↔ (∃ g ∈ gs, c.existingId g = some id) ∨
      ∃ m, n < m ∧ m ≤ n + c.freshCount gs ∧ id = islandName m := by
  induction gs generalizing n with
  | nil =>
    constructor
    · intro h
      exact absurd h List.not_mem_nil
    · rintro (⟨g, hg, -⟩ | ⟨m, hlt, hle, -⟩)
      · exact absurd hg List.not_mem_nil
      · simp only [freshCount, List.countP_nil] at hle
        omega
  | cons g gs ih =>
    have hcons : (∃ g' ∈ g :: gs, c.existingId g' = some id) ↔
        c.existingId g = some id ∨ ∃ g' ∈ gs, c.existingId g' = some id := by
      simp only [List.mem_cons, or_and_right, exists_or, exists_eq_left]
    cases he : c.existingId g with
    | some id' =>
      rw [groupIds_inherited he, freshCount_inherited he, List.mem_cons, ih, hcons, he,
        Option.some.injEq, or_assoc, eq_comm]
    | none =>
      rw [groupIds_fresh he, freshCount_fresh he, List.mem_cons, ih, hcons, he]
      constructor
      · rintro (h | h | ⟨m, hlt, hle, h⟩)
        · exact Or.inr ⟨n + 1, by omega, by omega, h⟩
        · exact Or.inl (Or.inr h)
        · exact Or.inr ⟨m, by omega, by omega, h⟩
      · rintro ((h | h) | ⟨m, hlt, hle, h⟩)
        · cases h
        · exact Or.inr (Or.inl h)
        · by_cases hm : m = n + 1
          · exact Or.inl (hm ▸ h)
          · exact Or.inr (Or.inr ⟨m, by omega, by omega, h⟩)

/-- No two groups take over one id, and none takes over an id that the counter, standing at
`n`, is about to give to another. -/
structure IdsApart (c : Cluster F) (n : ℕ) (gs : List (List (PeerState F))) : Prop where
  inherited : gs.Pairwise fun g g' => ∀ id, c.existingId g = some id → c.existingId g' ≠ some id
  unissued : ∀ g ∈ gs, ∀ id, c.existingId g = some id →
    ∀ m, n < m → m ≤ n + c.freshCount gs → id ≠ islandName m

theorem nodup_groupIds_iff (c : Cluster F) (n : ℕ) (gs : List (List (PeerState F))) :
    (c.groupIds n gs).Nodup ↔ c.IdsApart n gs := by
  induction gs generalizing n with
  | nil =>
    refine iff_of_true List.nodup_nil ⟨List.Pairwise.nil, ?_⟩
    intro g hg
    exact absurd hg List.not_mem_nil
  | cons g gs ih =>
    cases he : c.existingId g with
    | some id =>
      rw [groupIds_inherited he, List.nodup_cons, ih, mem_groupIds]
      constructor
      · rintro ⟨hhead, hin, hun⟩
        refine ⟨List.pairwise_cons.mpr ⟨?_, hin⟩, ?_⟩
        · intro g' hg' id' he' hc
          rw [he] at he'
          exact hhead (Or.inl ⟨g', hg', hc.trans he'.symm⟩)
        · rw [freshCount_inherited he]
          intro g' hg' id' he' m hlt hle heq
          rcases List.mem_cons.mp hg' with rfl | hg'
          · rw [he] at he'
            exact hhead (Or.inr ⟨m, hlt, hle, (Option.some.inj he').trans heq⟩)
          · exact hun g' hg' id' he' m hlt hle heq
      · rintro ⟨hin, hun⟩
        rw [freshCount_inherited he] at hun
        obtain ⟨hhead, hin⟩ := List.pairwise_cons.mp hin
        refine ⟨?_, hin, fun g' hg' => hun g' (List.mem_cons_of_mem g hg')⟩
        rintro (⟨g', hg', hc⟩ | ⟨m, hlt, hle, heq⟩)
        · exact hhead g' hg' id he hc
        · exact hun g List.mem_cons_self id he m hlt hle heq
    | none =>
      rw [groupIds_fresh he, List.nodup_cons, ih, mem_groupIds]
      constructor
      · rintro ⟨hhead, hin, hun⟩
        refine ⟨List.pairwise_cons.mpr ⟨?_, hin⟩, ?_⟩
        · intro g' _ id' he'
          rw [he] at he'
          cases he'
        · rw [freshCount_fresh he]
          intro g' hg' id' he' m hlt hle heq
          rcases List.mem_cons.mp hg' with rfl | hg'
          · rw [he] at he'
            cases he'
          · by_cases hm : m = n + 1
            · exact hhead (Or.inl ⟨g', hg', by rw [he', heq, hm]⟩)
            · exact hun g' hg' id' he' m (by omega) (by omega) heq
      · rintro ⟨hin, hun⟩
        rw [freshCount_fresh he] at hun
        refine ⟨?_, (List.pairwise_cons.mp hin).2, ?_⟩
        · rintro (⟨g', hg', hc⟩ | ⟨m, hlt, hle, heq⟩)
          · exact hun g' (List.mem_cons_of_mem g hg') _ hc (n + 1) (by omega) (by omega) rfl
          · have hm := islandName_inj heq
            omega
        · intro g' hg' id' he' m hlt hle
          exact hun g' (List.mem_cons_of_mem g hg') id' he' m (by omega) (by omega)

/-! ### The assignment -/

/-- The groups with their ids. -/
def islandPairs (floats : Floats F) (c : Cluster F) : List (List (PeerState F) × IslandId) :=
  (c.groups floats).zip (c.groupIds c.nextIsland (c.groups floats))

theorem foldl_assignGroup (floats : Floats F) (c : Cluster F) {gs : List (List (PeerState F))}
    (hgs : ∀ g ∈ gs, g ≠ []) (acc : Assignment F) :
    gs.foldl (c.assignGroup floats) acc =
      { newIslands := OrdMap.insertAll acc.newIslands
          ((gs.zip (c.groupIds acc.nextIsland gs)).map fun e =>
            (e.2, c.islandOf floats e.1 e.2))
        peerAssignment := OrdMap.insertAll acc.peerAssignment
          ((gs.zip (c.groupIds acc.nextIsland gs)).flatMap fun e =>
            e.1.map fun p => (p.address, e.2))
        nextIsland := acc.nextIsland + c.freshCount gs } := by
  induction gs generalizing acc with
  | nil => rfl
  | cons g gs ih =>
    have hg : g.isEmpty = false := by
      simpa using hgs g List.mem_cons_self
    have hpeers : ∀ (m : OrdMap Address IslandId) (id : IslandId),
        (g.map PeerState.address).foldl (fun m a => m.insert a id) m =
          OrdMap.insertAll m (g.map fun p => (p.address, id)) := by
      intro m id
      rw [OrdMap.insertAll, List.foldl_map, List.foldl_map]
    rw [List.foldl_cons, ih fun g' hg' => hgs g' (List.mem_cons_of_mem g hg')]
    cases he : c.existingId g with
    | some id =>
      simp only [assignGroup, hg, he, hpeers, groupIds_inherited he, freshCount_inherited he,
        List.zip_cons_cons, List.map_cons, List.flatMap_cons, OrdMap.insertAll_cons,
        OrdMap.insertAll_append, Option.isSome_some, Option.getD_some, if_true, Bool.false_eq_true,
        if_false]
    | none =>
      simp only [assignGroup, hg, he, hpeers, groupIds_fresh he, freshCount_fresh he,
        List.zip_cons_cons, List.map_cons, List.flatMap_cons, OrdMap.insertAll_cons,
        OrdMap.insertAll_append, Option.isSome_none, Option.getD_none, Bool.false_eq_true,
        if_false, Nat.add_assoc, Nat.add_comm 1]

theorem assign_eq (floats : Floats F) (c : Cluster F) :
    c.assign floats =
      { newIslands := OrdMap.insertAll ∅
          ((c.islandPairs floats).map fun e => (e.2, c.islandOf floats e.1 e.2))
        peerAssignment := OrdMap.insertAll ∅
          ((c.islandPairs floats).flatMap fun e => e.1.map fun p => (p.address, e.2))
        nextIsland := c.nextIsland + c.freshCount (c.groups floats) } :=
  foldl_assignGroup floats c (fun _ hg => groups_ne_nil hg) ⟨∅, ∅, c.nextIsland⟩

section
variable {floats : Floats F} {c : Cluster F}

theorem map_fst_islandPairs : (c.islandPairs floats).map Prod.fst = c.groups floats :=
  List.map_fst_zip (c.length_groupIds _ _).ge

theorem map_snd_islandPairs :
    (c.islandPairs floats).map Prod.snd = c.groupIds c.nextIsland (c.groups floats) :=
  List.map_snd_zip (c.length_groupIds _ _).le

theorem mem_groups_of_pair {e : List (PeerState F) × IslandId} (he : e ∈ c.islandPairs floats) :
    e.1 ∈ c.groups floats := by
  rw [← map_fst_islandPairs]
  exact List.mem_map_of_mem he

theorem exists_pair {g : List (PeerState F)} (hg : g ∈ c.groups floats) :
    ∃ id, (g, id) ∈ c.islandPairs floats := by
  rw [← map_fst_islandPairs] at hg
  obtain ⟨⟨g', id⟩, he, rfl⟩ := List.mem_map.mp hg
  exact ⟨id, he⟩

/-- The id a peer is given is the one of its group. -/
theorem peerAssignment_iff {a : Address} {id : IslandId} :
    (c.assign floats).peerAssignment[a]? = some id ↔
      ∃ g, (g, id) ∈ c.islandPairs floats ∧ a ∈ g.map PeerState.address := by
  rw [assign_eq]
  constructor
  · intro h
    obtain ⟨⟨g, id'⟩, he, hm⟩ := List.mem_flatMap.mp (OrdMap.mem_of_find_insertAll h)
    obtain ⟨p, hp, heq⟩ := List.mem_map.mp hm
    cases heq
    exact ⟨g, he, List.mem_map_of_mem hp⟩
  · rintro ⟨g, he, ha⟩
    obtain ⟨p, hp, rfl⟩ := List.mem_map.mp ha
    refine OrdMap.find_insertAll_of_mem ∅ ?_
      (List.mem_flatMap.mpr ⟨(g, id), he, List.mem_map_of_mem hp⟩)
    have hkeys : ((c.islandPairs floats).flatMap fun e => e.1.map fun p => (p.address, e.2)).map
        Prod.fst = (c.groups floats).flatten.map PeerState.address := by
      rw [← map_fst_islandPairs, ← List.flatMap_def, List.map_flatMap, List.map_flatMap]
      refine List.flatMap_congr fun e _ => ?_
      rw [List.map_map]
      rfl
    rw [hkeys]
    exact c.nodup_groups floats

theorem pair_of_newIslands {id : IslandId} {island : Island F}
    (h : (c.assign floats).newIslands[id]? = some island) :
    ∃ g, (g, id) ∈ c.islandPairs floats ∧ island = c.islandOf floats g id := by
  rw [assign_eq] at h
  obtain ⟨⟨g, id'⟩, he, heq⟩ := List.mem_map.mp (OrdMap.mem_of_find_insertAll h)
  cases heq
  exact ⟨g, he, rfl⟩

theorem newIslands_of_pair (hids : (c.groupIds c.nextIsland (c.groups floats)).Nodup)
    {g : List (PeerState F)} {id : IslandId} (h : (g, id) ∈ c.islandPairs floats) :
    (c.assign floats).newIslands[id]? = some (c.islandOf floats g id) := by
  rw [assign_eq]
  refine OrdMap.find_insertAll_of_mem ∅ ?_ (List.mem_map.mpr ⟨(g, id), h, rfl⟩)
  rw [List.map_map]
  show ((c.islandPairs floats).map Prod.snd).Nodup
  rw [map_snd_islandPairs]
  exact hids

/-- With ids of their own, two groups with the same id are one. -/
theorem pair_unique (hids : (c.groupIds c.nextIsland (c.groups floats)).Nodup)
    {g g' : List (PeerState F)} {id : IslandId} (h : (g, id) ∈ c.islandPairs floats)
    (h' : (g', id) ∈ c.islandPairs floats) : g = g' := by
  rw [← map_snd_islandPairs] at hids
  exact congrArg Prod.fst (List.inj_on_of_nodup_map hids h h' rfl)

theorem pair_id_unique {g : List (PeerState F)} {id id' : IslandId}
    (h : (g, id) ∈ c.islandPairs floats) (h' : (g, id') ∈ c.islandPairs floats) : id = id' := by
  have hnodup := c.nodup_groupList floats
  rw [← map_fst_islandPairs] at hnodup
  exact congrArg Prod.snd (List.inj_on_of_nodup_map hnodup h h' rfl)

/-- Where no fill abandons its queue, every peer is in a group. -/
theorem pair_of_peer (hqueue : ∀ f ∈ c.fills floats, f.queue = []) {a : Address}
    {q : PeerState F} (hq : c.peers[a]? = some q) :
    ∃ g id, (g, id) ∈ c.islandPairs floats ∧ a ∈ g.map PeerState.address := by
  have hqa := c.keyed a q hq
  have hgrouped : q.address ∈ (c.groups floats).flatten.map PeerState.address := by
    refine (grouped_iff floats c (hqa.symm ▸ hq)).mpr ?_
    intro f hf hm
    rw [hqueue f hf] at hm
    exact absurd hm List.not_mem_nil
  obtain ⟨r, hr, hra⟩ := List.mem_map.mp hgrouped
  obtain ⟨g, hg, hrg⟩ := List.mem_flatten.mp hr
  obtain ⟨id, hpair⟩ := exists_pair hg
  exact ⟨g, id, hpair, List.mem_map.mpr ⟨r, hrg, hra.trans hqa⟩⟩

theorem find_store {a : Address} {p : PeerState F} :
    (c.store (c.assign floats)).peers[a]? = some p ↔ ∃ q, c.peers[a]? = some q ∧
      p = { q with islandId := (c.assign floats).peerAssignment[a]? } := by
  unfold store
  dsimp only
  rw [OrdMap.find_map, Option.map_eq_some_iff]
  simp only [eq_comm]

end

end Cluster

/-! ### One island -/

/-- Every peer has an island id, is on the list of that island and on no other, and no island
is over the cap. -/
structure Cluster.OnOneIsland {F : Type} (c : Cluster F) : Prop where
  placed : ∀ (a : Address) (p : PeerState F), c.peers[a]? = some p →
    ∃ (id : IslandId) (island : Island F), p.islandId = some id ∧ c.islands[id]? = some island ∧
      a ∈ island.peers ∧ ∀ (id' : IslandId) (island' : Island F),
        c.islands[id']? = some island' → a ∈ island'.peers → id' = id
  bounded : ∀ (id : IslandId) (island : Island F), c.islands[id]? = some island →
    island.peers.length ≤ c.cfg.islandMaxPeers

namespace Cluster

variable {F Grant : Type} {floats : Floats F} {c : Cluster F}

theorem onOneIsland_store (hqueue : ∀ f ∈ c.fills floats, f.queue = [])
    (hids : (c.groupIds c.nextIsland (c.groups floats)).Nodup)
    (hcap : 0 < c.cfg.islandMaxPeers ∨ c.peers = ∅) :
    (c.store (c.assign floats)).OnOneIsland where
  placed := by
    intro a p hp
    obtain ⟨q, hq, rfl⟩ := find_store.mp hp
    obtain ⟨g, id, hpair, ha⟩ := pair_of_peer hqueue hq
    have hg : g ∈ c.groups floats := mem_groups_of_pair hpair
    refine ⟨id, c.islandOf floats g id, peerAssignment_iff.mpr ⟨g, hpair, ha⟩,
      newIslands_of_pair hids hpair, ha, ?_⟩
    intro id' island' hisland ha'
    obtain ⟨g', hpair', rfl⟩ := pair_of_newIslands hisland
    obtain rfl := group_unique hg (mem_groups_of_pair hpair') ha ha'
    exact pair_id_unique hpair' hpair
  bounded := by
    intro id island hisland
    obtain ⟨g, hpair, rfl⟩ := pair_of_newIslands hisland
    have hg : g ∈ c.groups floats := mem_groups_of_pair hpair
    have hle := groups_length_le hg
    have hpos : 0 < c.cfg.islandMaxPeers := by
      rcases hcap with hcap | hcap
      · exact hcap
      · obtain ⟨p, hp⟩ := List.exists_mem_of_ne_nil g (groups_ne_nil hg)
        have hf := mem_peers_of_group hg hp
        rw [hcap] at hf
        simp at hf
    show (g.map PeerState.address).length ≤ c.cfg.islandMaxPeers
    rw [List.length_map]
    omega

theorem onOneIsland_store_iff :
    (c.store (c.assign floats)).OnOneIsland ↔
      (∀ f ∈ c.fills floats, f.queue = []) ∧ c.IdsApart c.nextIsland (c.groups floats) ∧
        (0 < c.cfg.islandMaxPeers ∨ c.peers = ∅) := by
  rw [← nodup_groupIds_iff]
  refine ⟨fun h => ⟨?_, ?_, ?_⟩, fun h => onOneIsland_store h.1 h.2.1 h.2.2⟩
  · -- a peer left in a queue has no id
    intro f hf
    refine List.eq_nil_iff_forall_not_mem.mpr ?_
    intro p hm
    have hp : c.peers[p.address]? = some p := mem_allPeers.mp
      ((FloodFill.cover_ended (fun _ hv => hv) ∅ f hf).mem p (List.mem_append_right _ hm))
    obtain ⟨id, island, hid, -⟩ := h.placed p.address _ (find_store.mpr ⟨p, hp, rfl⟩)
    obtain ⟨g, hpair, ha⟩ := peerAssignment_iff.mp hid
    obtain ⟨q, hq, hqa⟩ := List.mem_map.mp ha
    have hin : p.address ∈ (c.groups floats).flatten.map PeerState.address :=
      List.mem_map.mpr ⟨q, List.mem_flatten.mpr ⟨g, mem_groups_of_pair hpair, hq⟩, hqa⟩
    exact (grouped_iff floats c hp).mp hin f hf hm
  · -- of two groups with one id, one has lost its island to the other
    have hown : ∀ g id, (g, id) ∈ c.islandPairs floats →
        (c.assign floats).newIslands[id]? = some (c.islandOf floats g id) := by
      intro g id hpair
      have hg := mem_groups_of_pair hpair
      obtain ⟨p, hp⟩ := List.exists_mem_of_ne_nil g (groups_ne_nil hg)
      have ha : p.address ∈ g.map PeerState.address := List.mem_map_of_mem hp
      obtain ⟨id', island, hid, hisland, hmem, -⟩ := h.placed p.address _
        (find_store.mpr ⟨p, mem_peers_of_group hg hp, rfl⟩)
      have hassigned := peerAssignment_iff.mpr ⟨g, hpair, ha⟩
      obtain rfl : id = id' := Option.some.inj (hassigned.symm.trans hid)
      obtain ⟨g', hpair', rfl⟩ := pair_of_newIslands hisland
      obtain rfl := group_unique hg (mem_groups_of_pair hpair') ha hmem
      exact hisland
    rw [← map_snd_islandPairs]
    refine List.Nodup.map_on ?_ (List.Nodup.of_map Prod.fst ?_)
    · rintro ⟨g, id⟩ he ⟨g', id'⟩ he' rfl
      have hsame := Option.some.inj ((hown g id he).symm.trans (hown g' id he'))
      have hpeers : g.map PeerState.address = g'.map PeerState.address :=
        congrArg Island.peers hsame
      have hg : g ∈ c.groups floats := mem_groups_of_pair he
      obtain ⟨p, hp⟩ := List.exists_mem_of_ne_nil g (groups_ne_nil hg)
      have ha : p.address ∈ g.map PeerState.address := List.mem_map_of_mem hp
      rw [group_unique hg (mem_groups_of_pair he') ha (hpeers ▸ ha)]
    · rw [map_fst_islandPairs]
      exact c.nodup_groupList floats
  · rw [or_iff_not_imp_right]
    intro hne
    obtain ⟨a, p, hp⟩ : ∃ a p, c.peers[a]? = some p := by
      by_contra hnone
      refine hne (OrdMap.ext_find fun a => ?_)
      cases ha : c.peers[a]? with
      | none => simp
      | some p => exact absurd ⟨a, p, ha⟩ hnone
    obtain ⟨id, island, -, hisland, hmem, -⟩ := h.placed a _ (find_store.mpr ⟨p, hp, rfl⟩)
    exact lt_of_lt_of_le (List.length_pos_of_mem hmem) (h.bounded id island hisland)

/-! ### A round without departures -/

theorem dropStale_of_fresh {now : ℤ} (h : c.stale now = []) :
    c.dropStale now = (c, ([] : List (ClusterEvent Grant))) := by
  rw [dropStale, h]
  rfl

theorem announce_of_welcome (env : Env F Grant) {isBanned : Address → Bool}
    {acc : Cluster F × List (ClusterEvent Grant)}
    {entry : Address × IslandId × Option IslandId × List Address}
    (h : isBanned entry.1 = false) : (announce env isBanned acc entry).1 = acc.1 := by
  obtain ⟨address, islandId, fromIslandId, peers⟩ := entry
  have h' : isBanned address = false := h
  simp only [announce, h']
  rfl

theorem mem_peers_of_changed {entry : Address × IslandId × Option IslandId × List Address}
    (h : entry ∈ c.changed (c.assign floats)) : ∃ p, c.peers[entry.1]? = some p := by
  obtain ⟨⟨a, id⟩, he, hentry⟩ := List.mem_filterMap.mp h
  have hassigned : (c.assign floats).peerAssignment[a]? = some id :=
    (OrdMap.mem_entries _ _ _).mp he
  have ha : entry.1 = a := by
    dsimp only at hentry
    split at hentry
    · cases hentry
    · obtain ⟨island, -, rfl⟩ := Option.map_eq_some_iff.mp hentry
      rfl
  obtain ⟨g, hpair, hmem⟩ := peerAssignment_iff.mp hassigned
  obtain ⟨p, hp, rfl⟩ := List.mem_map.mp hmem
  exact ⟨p, ha ▸ mem_peers_of_group (mem_groups_of_pair hpair) hp⟩

theorem foldl_announce_of_welcome (env : Env F Grant) {isBanned : Address → Bool}
    {entries : List (Address × IslandId × Option IslandId × List Address)}
    (h : ∀ entry ∈ entries, isBanned entry.1 = false)
    (acc : Cluster F × List (ClusterEvent Grant)) :
    (entries.foldl (announce env isBanned) acc).1 = acc.1 := by
  induction entries generalizing acc with
  | nil => rfl
  | cons entry entries ih =>
    rw [List.foldl_cons, ih fun e he => h e (List.mem_cons_of_mem entry he),
      announce_of_welcome env (h entry List.mem_cons_self)]

theorem reclusterOnce_of_welcome (env : Env F Grant) {now : ℤ} {isBanned : Address → Bool}
    (hstale : c.stale now = [])
    (hban : ∀ (a : Address) (p : PeerState F), c.peers[a]? = some p → isBanned a = false) :
    (c.reclusterOnce env now isBanned).1 = c.store (c.assign env.floats) := by
  unfold reclusterOnce
  rw [dropStale_of_fresh hstale]
  refine foldl_announce_of_welcome env ?_ _
  intro entry he
  obtain ⟨p, hp⟩ := mem_peers_of_changed he
  exact hban entry.1 p hp

/-- In a round in which nobody leaves, every peer ends up on exactly one island, and no island
over the cap, exactly when no flood fill stops at the cap with peers still queued, the ids
the groups take over are all different (and none is about to be issued), and the cap is
positive. -/
theorem reclusterOnce_onOneIsland_iff (env : Env F Grant) (c : Cluster F) (now : ℤ)
    (isBanned : Address → Bool) (hstale : c.stale now = [])
    (hban : ∀ (a : Address) (p : PeerState F), c.peers[a]? = some p → isBanned a = false) :
    (c.reclusterOnce env now isBanned).1.OnOneIsland ↔
      (∀ f ∈ c.fills env.floats, f.queue = []) ∧
        c.IdsApart c.nextIsland (c.groups env.floats) ∧
        (0 < c.cfg.islandMaxPeers ∨ c.peers = ∅) := by
  rw [reclusterOnce_of_welcome env hstale hban]
  exact onOneIsland_store_iff

/-- Floats on which the values of the scenarios below are exact. -/
def wholeFloats : Floats ℤ where
  ofInt := id
  add a b := a + b
  sub a b := a - b
  mul a b := a * b
  div a b := a / b
  sqrt := Int.sqrt
  le a b := decide (a ≤ b)
  lt a b := decide (a < b)

def wholeEnv : Env ℤ Unit := ⟨wholeFloats, fun _ _ => none⟩

/-- Peers at the given parcels who have not been on an island yet, their heartbeats at `0`. -/
def gathering (maxPeers : ℕ) (places : List (Address × ℤ)) : Cluster ℤ :=
  places.foldl (fun c e => c.upsertPeerAt e.1 (16 * e.2, 0, 0) (e.2, 0) [] 0)
    (new ⟨30, 4, maxPeers⟩)

theorem reclusterOnce_onOneIsland_gathering :
    ((gathering 50 [(['a'], 0), (['b'], 2), (['c'], 40)]).reclusterOnce wholeEnv 0
      fun _ => false).1.OnOneIsland := by
  refine (reclusterOnce_onOneIsland_iff wholeEnv _ 0 (fun _ => false) (by decide)
    (fun _ _ _ => rfl)).mpr ⟨by decide, ?_, Or.inl (by decide)⟩
  rw [← nodup_groupIds_iff]
  decide

/-- With a cap of two, the third of three peers on one parcel is on no island. -/
theorem reclusterOnce_drops_queued :
    ¬ ((gathering 2 [(['a'], 0), (['b'], 0), (['c'], 0)]).reclusterOnce wholeEnv 0
      fun _ => false).1.OnOneIsland := by
  intro h
  have hlost : (((gathering 2 [(['a'], 0), (['b'], 0), (['c'], 0)]).reclusterOnce wholeEnv 0
      fun _ => false).1.peers[['b']]?).map PeerState.islandId = some none := by
    decide
  obtain ⟨p, hp, hnone⟩ := Option.map_eq_some_iff.mp hlost
  obtain ⟨id, -, hid, -⟩ := h.placed _ p hp
  rw [hnone] at hid
  cases hid

end Cluster

end Catalyrst.Archipelago
