import Mathlib
import Catalyrst.Archipelago.Cluster

/-!
# Gossip between the nodes of the archipelago

A node learns of a peer from the peer's own heartbeats and from the batches of
other nodes; both end in `upsertPeerAt`. That call keeps the greater of two
heartbeat times, but takes the position, the parcel and the realm from whichever
call comes last.
-/

namespace Catalyrst.Archipelago

open Catalyrst.Lib

structure GossipPeer (F : Type) where
  address : Address
  position : F × F × F
  parcel : ℤ × ℤ
  realm : List Char
  /-- In nanoseconds. -/
  lastHeartbeat : ℤ

deriving instance DecidableEq for GossipPeer

structure GossipBatch (F : Type) where
  fromNode : List Char
  seq : ℕ
  peers : List (GossipPeer F)

/-- The cluster of a node, and the last sequence number seen from each of the others. -/
structure Node (F : Type) where
  cluster : Cluster F
  lastSeen : OrdMap (List Char) ℕ

variable {F : Type}

def GossipPeer.ofState (p : PeerState F) : GossipPeer F where
  address := p.address
  position := p.position
  parcel := p.parcel
  realm := p.realm
  lastHeartbeat := p.lastHeartbeat

def Cluster.upsert (c : Cluster F) (p : GossipPeer F) : Cluster F :=
  c.upsertPeerAt p.address p.position p.parcel p.realm p.lastHeartbeat

/-- What the cluster holds on a peer, as it would gossip it. -/
def Cluster.known (c : Cluster F) (a : Address) : Option (GossipPeer F) :=
  c.peers[a]?.map GossipPeer.ofState

namespace Node

/-- The node after a batch, and the number of peers applied. -/
def apply (n : Node F) (batch : GossipBatch F) : Node F × ℕ :=
  let prev := n.lastSeen[batch.fromNode]?.getD 0
  if batch.seq ≤ prev then (n, 0)
  else
    let lastSeen := n.lastSeen.insert batch.fromNode batch.seq
    let r := batch.peers.foldl (fun acc p => (acc.1.upsert p, acc.2 + 1)) (n.cluster, 0)
    ({ cluster := r.1, lastSeen }, r.2)

/-- What reaches a node: the heartbeat of a peer connected to it, or a batch. -/
inductive Event (F : Type) where
  | heartbeat (address : Address) (position : F × F × F) (parcel : ℤ × ℤ) (realm : List Char)
      (now : ℤ)
  | gossip (batch : GossipBatch F)

def receive (n : Node F) : Event F → Node F
  | .heartbeat address position parcel realm now =>
    { n with cluster := n.cluster.upsertPeerAt address position parcel realm now }
  | .gossip batch => (n.apply batch).1

def run (n : Node F) (events : List (Event F)) : Node F := events.foldl receive n

/-- The calls of `upsertPeerAt` an event makes. -/
def calls (n : Node F) : Event F → List (GossipPeer F)
  | .heartbeat address position parcel realm now => [⟨address, position, parcel, realm, now⟩]
  | .gossip batch =>
    if batch.seq ≤ n.lastSeen[batch.fromNode]?.getD 0 then [] else batch.peers

/-- The calls a run makes for the peer `a`, in their order. -/
def callsFor (a : Address) : Node F → List (Event F) → List (GossipPeer F)
  | _, [] => []
  | n, e :: es => ((n.calls e).filter fun p => p.address = a) ++ callsFor a (n.receive e) es

end Node

/-! ### What a call leaves -/

namespace Cluster

theorem known_upsert (c : Cluster F) (p : GossipPeer F) (a : Address) :
    (c.upsert p).known a =
      if p.address = a then
        some { p with
          lastHeartbeat := (c.known a).elim p.lastHeartbeat fun q =>
            max q.lastHeartbeat p.lastHeartbeat }
      else c.known a := by
  simp only [known, upsert, upsertPeerAt, OrdMap.find_insert]
  by_cases ha : p.address = a
  · subst ha
    rw [if_pos rfl, if_pos rfl, Option.map_some]
    cases hq : c.peers[p.address]? with
    | none => rfl
    | some q =>
      simp only [Option.map_some, GossipPeer.ofState, Option.elim_some, Option.some.injEq,
        GossipPeer.mk.injEq, true_and]
      split <;> omega
  · rw [if_neg ha, if_neg ha]

/-- The record `r` after the calls `ps` for one peer: the greatest time among them, and the
rest as in the last of them. -/
structure Merged (ps : List (GossipPeer F)) (r : GossipPeer F) : Prop where
  last : ∃ p, ps.getLast? = some p ∧ r = { p with lastHeartbeat := r.lastHeartbeat }
  newest : ∃ p ∈ ps, p.lastHeartbeat = r.lastHeartbeat
  le : ∀ p ∈ ps, p.lastHeartbeat ≤ r.lastHeartbeat

theorem Merged.one (p : GossipPeer F) : Merged [p] p where
  last := ⟨p, rfl, rfl⟩
  newest := ⟨p, List.mem_singleton_self p, rfl⟩
  le q hq := by
    rw [List.mem_singleton.mp hq]

theorem Merged.snoc {ps : List (GossipPeer F)} {r : GossipPeer F} (h : Merged ps r)
    (p : GossipPeer F) :
    Merged (ps ++ [p]) { p with lastHeartbeat := max r.lastHeartbeat p.lastHeartbeat } where
  last := ⟨p, List.getLast?_concat, rfl⟩
  newest := by
    rcases le_total r.lastHeartbeat p.lastHeartbeat with hle | hle
    · exact ⟨p, List.mem_append_right ps (List.mem_singleton_self p), (max_eq_right hle).symm⟩
    · obtain ⟨q, hq, heq⟩ := h.newest
      exact ⟨q, List.mem_append_left _ hq, heq.trans (max_eq_left hle).symm⟩
  le q hq := by
    rcases List.mem_append.mp hq with hq | hq
    · exact le_max_of_le_left (h.le q hq)
    · rw [List.mem_singleton.mp hq]
      exact le_max_right _ _

/-- The cluster holds what the calls `ps` for the peer `a` come to. -/
def Holds (c : Cluster F) (a : Address) (ps : List (GossipPeer F)) : Prop :=
  (ps = [] ∧ c.known a = none) ∨ ∃ r, c.known a = some r ∧ Merged ps r

theorem Holds.upsert {c : Cluster F} {a : Address} {ps : List (GossipPeer F)} (h : c.Holds a ps)
    (p : GossipPeer F) :
    (c.upsert p).Holds a (ps ++ [p].filter fun p => p.address = a) := by
  have hknown := known_upsert c p a
  by_cases ha : p.address = a
  · rw [if_pos ha] at hknown
    rw [List.filter_singleton, decide_eq_true ha, cond_true]
    rcases h with ⟨rfl, hnone⟩ | ⟨r, hr, hmerged⟩
    · rw [hnone] at hknown
      exact Or.inr ⟨p, hknown, Merged.one p⟩
    · rw [hr] at hknown
      exact Or.inr ⟨_, hknown, hmerged.snoc p⟩
  · rw [if_neg ha] at hknown
    rw [List.filter_singleton, decide_eq_false ha, cond_false, List.append_nil, Holds, hknown]
    exact h

theorem Holds.foldl_upsert {c : Cluster F} {a : Address} {ps : List (GossipPeer F)}
    (h : c.Holds a ps) (qs : List (GossipPeer F)) :
    (qs.foldl Cluster.upsert c).Holds a (ps ++ qs.filter fun p => p.address = a) := by
  induction qs generalizing c ps with
  | nil => simpa using h
  | cons q qs ih =>
    have hstep := ih (h.upsert q)
    rwa [List.append_assoc, ← List.filter_append, List.singleton_append] at hstep

end Cluster

/-! ### Runs -/

namespace Node

theorem foldl_counted (ps : List (GossipPeer F)) (c : Cluster F) (k : ℕ) :
    ps.foldl (fun acc p => (acc.1.upsert p, acc.2 + 1)) (c, k) =
      (ps.foldl Cluster.upsert c, k + ps.length) := by
  induction ps generalizing c k with
  | nil => rfl
  | cons p ps ih =>
    rw [List.foldl_cons, ih, List.foldl_cons, List.length_cons, Nat.add_assoc, Nat.add_comm 1]

theorem receive_cluster (n : Node F) (e : Event F) :
    (n.receive e).cluster = (n.calls e).foldl Cluster.upsert n.cluster := by
  cases e with
  | heartbeat address position parcel realm now => rfl
  | gossip batch =>
    simp only [receive, apply, calls]
    split
    · rfl
    · rw [foldl_counted]

theorem run_holds {n : Node F} {a : Address} {ps : List (GossipPeer F)}
    (h : n.cluster.Holds a ps) (events : List (Event F)) :
    (n.run events).cluster.Holds a (ps ++ n.callsFor a events) := by
  induction events generalizing n ps with
  | nil => simpa [callsFor, run] using h
  | cons e es ih =>
    have hstep : (n.receive e).cluster.Holds a
        (ps ++ (n.calls e).filter fun p => p.address = a) := by
      rw [receive_cluster]
      exact h.foldl_upsert (n.calls e)
    have hrest := ih hstep
    rwa [List.append_assoc] at hrest

theorem address_of_callsFor {n : Node F} {a : Address} {events : List (Event F)}
    {p : GossipPeer F} (h : p ∈ n.callsFor a events) : p.address = a := by
  induction events generalizing n with
  | nil => exact absurd h List.not_mem_nil
  | cons e es ih =>
    rcases List.mem_append.mp h with h | h
    · exact of_decide_eq_true (List.mem_filter.mp h).2
    · exact ih h

/-- A call of the greatest time. -/
def Newest (ps : List (GossipPeer F)) (p : GossipPeer F) : Prop :=
  p ∈ ps ∧ ∀ q ∈ ps, q.lastHeartbeat ≤ p.lastHeartbeat

/-- After the events the node holds on `a` what the newest call for it said. -/
def KeepsNewest (n : Node F) (events : List (Event F)) (a : Address) : Prop :=
  ∀ newest, Newest (n.callsFor a events) newest →
    (n.run events).cluster.known a = some newest

/-- The newest call is what a node keeps exactly when the last call tells the same place. -/
theorem keepsNewest_iff (n : Node F) (events : List (Event F)) (a : Address)
    (habsent : n.cluster.peers[a]? = none) :
    n.KeepsNewest events a ↔
      ∀ newest last, Newest (n.callsFor a events) newest →
        (n.callsFor a events).getLast? = some last →
        last.position = newest.position ∧ last.parcel = newest.parcel ∧
          last.realm = newest.realm := by
  have hstart : n.cluster.Holds a [] := Or.inl ⟨rfl, by rw [Cluster.known, habsent]; rfl⟩
  have hend := run_holds hstart events
  rw [List.nil_append] at hend
  rcases hend with ⟨hnil, -⟩ | ⟨r, hknown, hmerged⟩
  · refine iff_of_true ?_ ?_
    · rintro newest ⟨hmem, -⟩
      rw [hnil] at hmem
      exact absurd hmem List.not_mem_nil
    · rintro newest last ⟨hmem, -⟩
      rw [hnil] at hmem
      exact absurd hmem List.not_mem_nil
  obtain ⟨final, hfinal, hr⟩ := hmerged.last
  constructor
  · intro hkeeps newest last hnewest hlast
    have heq := hkeeps newest hnewest
    rw [hknown] at heq
    obtain rfl := Option.some.inj heq
    rw [hfinal] at hlast
    obtain rfl := Option.some.inj hlast
    rw [hr]
    exact ⟨rfl, rfl, rfl⟩
  · intro hsame newest hnewest
    obtain ⟨hposition, hparcel, hrealm⟩ := hsame newest final hnewest hfinal
    -- the time kept is that of a call, and none is later than the newest
    have htime : r.lastHeartbeat = newest.lastHeartbeat := by
      obtain ⟨p, hp, hpr⟩ := hmerged.newest
      have hle := hnewest.2 p hp
      have hge := hmerged.le newest hnewest.1
      omega
    have haddress : final.address = newest.address :=
      (address_of_callsFor (List.mem_of_getLast? hfinal)).trans
        (address_of_callsFor hnewest.1).symm
    rw [hknown, hr, htime, haddress, hposition, hparcel, hrealm]

/-- A node with no peers. -/
def alone : Node ℤ := ⟨Cluster.new ⟨30, 4, 50⟩, ∅⟩

/-- The peer as another node has it, ten seconds after the epoch. -/
def there : GossipPeer ℤ := ⟨['a'], (160, 0, 0), (10, 0), [], 10 * 10 ^ 9⟩

/-- The peer as it reports itself, ten seconds later. -/
def here : GossipPeer ℤ := ⟨['a'], (0, 0, 0), (0, 0), [], 20 * 10 ^ 9⟩

def told : Event ℤ := .gossip ⟨['n'], 1, [there]⟩

def heard : Event ℤ := .heartbeat here.address here.position here.parcel here.realm
  here.lastHeartbeat

theorem keepsNewest_in_order : alone.KeepsNewest [told, heard] ['a'] := by
  have hcalls : alone.callsFor ['a'] [told, heard] = [there, here] := by decide
  refine (keepsNewest_iff alone [told, heard] ['a'] (by decide)).mpr ?_
  intro newest last hnewest hlast
  rw [hcalls] at hnewest hlast
  obtain rfl := Option.some.inj hlast
  rcases List.mem_pair.mp hnewest.1 with rfl | rfl
  · exact absurd (hnewest.2 here (by decide)) (by decide)
  · exact ⟨rfl, rfl, rfl⟩

/-- An older batch that comes late takes the peer back to where it was, under the newer time. -/
theorem late_batch_moves_back :
    ((alone.callsFor ['a'] [heard, told]).map GossipPeer.lastHeartbeat).Nodup ∧
      (alone.run [heard, told]).cluster.known ['a'] =
        some { there with lastHeartbeat := here.lastHeartbeat } ∧
      ¬ alone.KeepsNewest [heard, told] ['a'] := by
  have hknown : (alone.run [heard, told]).cluster.known ['a'] =
      some { there with lastHeartbeat := here.lastHeartbeat } := by
    decide
  refine ⟨by decide, hknown, ?_⟩
  intro hkeeps
  have hcalls : alone.callsFor ['a'] [heard, told] = [here, there] := by decide
  have hnewest : Newest (alone.callsFor ['a'] [heard, told]) here := by
    rw [hcalls]
    exact ⟨List.mem_cons_self, by decide⟩
  have heq := (hkeeps here hnewest).symm.trans hknown
  exact absurd heq (by decide)

end Node

end Catalyrst.Archipelago
