import Catalyrst.Content.HistoryPages
import Catalyrst.Sync.Boundary

/-!
# Polls of a peer of the same kind

A stream that polls a server like its own. Each poll asks for the changes from the mark on in
ascending order and follows the links of the answer; the links lead back, so a poll reads the
first page of what is left. The mark moves to the latest of the rows read, in whole milliseconds.
-/

namespace Catalyrst.Sync

open Catalyrst.Lib Catalyrst.Lib.Numeral Catalyrst.Content

/-! ### One poll -/

/-- A delta as `/pointer-changes` shows it. -/
def toChange (env : HistoryEnv) (d : HistoryRow) : Change :=
  ⟨d.entityId, d.entityType, env.millis d.entityTimestamp, env.millis d.localTimestamp⟩

def pollPairs (mark : Timestamp) : QueryParams :=
  [("sortingOrder".toList, "ASC".toList), ("sortingField".toList, "local_timestamp".toList),
    ("from".toList, showInt mark)]

/-- `sortingOrder=ASC&sortingField=local_timestamp&from=…` -/
def pollRequest (mark : Timestamp) : List Char :=
  ['&'].intercalate ((pollPairs mark).map fun p => p.1 ++ '=' :: p.2)

/-- The server and the clock by which the stream reads a row in a poll. -/
structure HistoryServer where
  env : HistoryEnv
  isDenylisted : EntityId → Bool
  table : List HistoryRow
  now : ℕ → HistoryRow → Timestamp

namespace HistoryServer

variable (peer : HistoryServer) (entityTypeFilter : Option (List EntityType))

/-- The events of a poll that read the given rows. -/
def events (poll : ℕ) (rows : List HistoryRow) : List StreamEvent :=
  rows.map (fun d => .delta (peer.now poll d) (some (toChange peer.env d).delta)) ++ [.boundary]

/-- One poll, all of whose deployments are acknowledged. -/
def poll (fuel : ℕ) (s : PointerStream) : Option PointerStream :=
  (followLinks (getPointerChanges peer.env peer.isDenylisted peer.table) fuel
      (pollRequest s.greatestTimestamp)).map fun rows =>
    (peer.events s.polls rows).foldl (PointerStream.step entityTypeFilter) s

end HistoryServer

/-! ### What a poll does to the stream -/

namespace PointerStream

variable {entityTypeFilter : Option (List EntityType)} {s t u : PointerStream} {c : Change}
  {cs ds : List Change}

/-- `t` is `s` after the deltas of the changes. -/
structure Read (entityTypeFilter : Option (List EntityType)) (s : PointerStream)
    (cs : List Change) (t : PointerStream) : Prop where
  fromTimestamp : t.fromTimestamp = s.fromTimestamp
  polls : t.polls = s.polls
  inv : t.Inv entityTypeFilter
  mark : ∀ m, t.greatestTimestamp ≤ m ↔ s.greatestTimestamp ≤ m ∧ ∀ c ∈ cs, c.localTimestamp ≤ m
  kept : s.handed ⊆ t.handed
  handed : ∀ h ∈ t.handed, h ∈ s.handed ∨
    ∃ c ∈ cs, h.2 = c.delta ∧ passes entityTypeFilter c.entityType = true
  delivered : ∀ c ∈ cs, passes entityTypeFilter c.entityType = true →
    t.Handed entityTypeFilter (t.polls + 1) (c.entityId, c.entityTimestamp, c.localTimestamp)

theorem Read.nil (h : s.Inv entityTypeFilter) : s.Read entityTypeFilter [] s where
  fromTimestamp := rfl
  polls := rfl
  inv := h
  mark := by simp
  kept := List.Subset.refl _
  handed := fun h hh => .inl hh
  delivered := by simp

theorem Read.append (h : s.Read entityTypeFilter cs t) (h' : t.Read entityTypeFilter ds u) :
    s.Read entityTypeFilter (cs ++ ds) u where
  fromTimestamp := h'.fromTimestamp.trans h.fromTimestamp
  polls := h'.polls.trans h.polls
  inv := h'.inv
  mark := by
    intro m
    rw [h'.mark, h.mark]
    simp only [List.mem_append, or_imp, forall_and, and_assoc]
  kept := fun _ hx => h'.kept (h.kept hx)
  handed := by
    intro x hx
    rcases h'.handed x hx with hx | ⟨c, hc, hrest⟩
    · rcases h.handed x hx with hx | ⟨c, hc, hrest⟩
      · exact .inl hx
      · exact .inr ⟨c, List.mem_append_left _ hc, hrest⟩
    · exact .inr ⟨c, List.mem_append_right _ hc, hrest⟩
  delivered := by
    intro c hc hpasses
    rcases List.mem_append.mp hc with hc | hc
    · exact (h.delivered c hc hpasses).mono (by rw [h'.polls]) h'.kept
    · exact h'.delivered c hc hpasses

end PointerStream

/-! ### Polls in a row -/

namespace HistoryServer

/-- The ids of the table stay apart and need no percent coding, and the times of its rows are
plausible when they are read. -/
structure Sound (peer : HistoryServer) : Prop where
  keyed : Keyed peer.env peer.table
  uncoded : Uncoded peer.table
  dated : Dated peer.table
  times : ∀ k, ∀ d ∈ peer.table,
    (toChange peer.env d).plausibleTimes (peer.now k d) = true

variable {peer : HistoryServer} {entityTypeFilter : Option (List EntityType)} {fuel : ℕ}
  {s t : PointerStream} {fromTimestamp : Timestamp}

/-- The rows by the time of the server. -/
def rows (peer : HistoryServer) : List HistoryRow :=
  peer.table.insertionSort (inOrder peer.env .localTimestamp .asc)

def Since (m : Timestamp) (d : HistoryRow) : Prop := 1000 * m ≤ d.localTimestamp

instance : DecidableRel Since := fun m d => inferInstanceAs (Decidable (1000 * m ≤ d.localTimestamp))

def page (peer : HistoryServer) (mark : Timestamp) : List HistoryRow :=
  Keyset.pageSince Since MAX_HISTORY_LIMIT.toNat peer.rows mark

def Shown (peer : HistoryServer) (d : HistoryRow) : Prop := visible peer.isDenylisted d = true

/-- What a poll makes of a stream. -/
structure Poll (peer : HistoryServer) (entityTypeFilter : Option (List EntityType))
    (s t : PointerStream) : Prop where
  mark : ∀ x, t.greatestTimestamp ≤ x ↔ s.greatestTimestamp ≤ x ∧
    ∀ d ∈ peer.page s.greatestTimestamp, peer.Shown d → peer.env.millis d.localTimestamp ≤ x
  handed : ∀ h ∈ t.handed, h ∈ s.handed ∨ ∃ d ∈ peer.page s.greatestTimestamp,
    h.2 = (toChange peer.env d).delta ∧ passes entityTypeFilter d.entityType = true
  delivered : ∀ d ∈ peer.page s.greatestTimestamp, peer.Shown d →
    passes entityTypeFilter d.entityType = true →
    t.Handed entityTypeFilter t.polls (d.entityId, peer.env.millis d.entityTimestamp,
      peer.env.millis d.localTimestamp)

theorem eq_of_entityId (h : peer.Sound) {a b : HistoryRow} (ha : a ∈ peer.table)
    (hb : b ∈ peer.table) (hid : a.entityId = b.entityId) : a = b :=
  List.inj_on_of_nodup_map h.keyed.distinct ha hb (congrArg peer.env.loc.lower hid)

end HistoryServer

end Catalyrst.Sync
