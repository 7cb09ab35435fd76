import Mathlib
import Catalyrst.Worlds.Mirror

/-!
# Is the mirror complete?

A poll that succeeds without being truncated has read the peer's pages up to the first short
one, or as many as it may. The mirror is complete exactly if these pages name every world of
the peer's list; a failed poll leaves the rows as they were.
-/

namespace Catalyrst.Worlds

open Catalyrst.Crypto Catalyrst.Lib

/-- The admissible names of a listing. -/
def names (entries : List PeerWorldEntry) : List RemoteWorldName :=
  entries.filterMap fun e => fromPeerListing e.name

/-! ### One page -/

section Intake

variable {env : PollEnv} {peerId : Text} {observedAt : ℤ} {budget : ℕ}

theorem names_cons_none {e : PeerWorldEntry} (h : fromPeerListing e.name = none)
    (rest : List PeerWorldEntry) : names (e :: rest) = names rest := List.filterMap_cons_none h

theorem names_cons_some {e : PeerWorldEntry} {n : RemoteWorldName}
    (h : fromPeerListing e.name = some n) (rest : List PeerWorldEntry) :
    names (e :: rest) = n :: names rest := List.filterMap_cons_some h

/-- What the loop over the entries has done at its end. -/
structure Taken (peerId : Text) (budget : ℕ) (out : PageIntake) (entries : List PeerWorldEntry)
    (r : PageIntake) : Prop where
  seen : r.entriesSeen = out.entriesSeen
  truncated_iff : r.truncated = true ↔
    entries ≠ [] ∧ budget ≤ out.worlds.length + (names entries.dropLast).length
  complete : r.truncated = false →
    r.worlds.map RemoteWorld.name = out.worlds.map RemoteWorld.name ++ names entries
  peer : (∀ w ∈ out.worlds, w.peerId = peerId) → ∀ w ∈ r.worlds, w.peerId = peerId

theorem takeEntries_taken (entries : List PeerWorldEntry) (out : PageIntake)
    (h : out.truncated = false) :
    Taken peerId budget out entries (takeEntries env peerId observedAt budget out entries) := by
  induction entries generalizing out with
  | nil =>
    refine ⟨rfl, ?_, fun _ => (List.append_nil _).symm, fun hout => hout⟩
    show out.truncated = true ↔ _
    rw [h]
    exact iff_of_false Bool.false_ne_true fun hne => hne.1 rfl
  | cons e rest ih =>
    rw [takeEntries]
    by_cases hfull : budget ≤ out.worlds.length
    · rw [if_pos hfull]
      refine ⟨rfl, iff_of_true rfl ⟨List.cons_ne_nil e rest, hfull.trans (Nat.le_add_right _ _)⟩, ?_,
        fun hout => hout⟩
      intro hcontra
      cases hcontra
    · rw [if_neg hfull]
      cases hname : fromPeerListing e.name with
      | none =>
        obtain ⟨hseen, htruncated, hcomplete, hpeer⟩ :=
          ih { out with entriesSkipped := out.entriesSkipped + 1 } h
        refine ⟨hseen, htruncated.trans ?_, ?_, hpeer⟩
        · cases rest with
          | nil =>
            refine iff_of_false (fun hne => hne.1 rfl) fun hle => hfull ?_
            simpa [names] using hle.2
          | cons d rest =>
            rw [List.dropLast_cons_of_ne_nil (List.cons_ne_nil d rest), names_cons_none hname]
            exact and_congr_left fun _ => iff_of_true (List.cons_ne_nil _ _) (List.cons_ne_nil _ _)
        · intro huntruncated
          rw [hcomplete huntruncated, names_cons_none hname]
      | some n =>
        obtain ⟨hseen, htruncated, hcomplete, hpeer⟩ :=
          ih { out with worlds := out.worlds ++ [rowOf env peerId observedAt e n] } h
        refine ⟨hseen, htruncated.trans ?_, ?_, ?_⟩
        · cases rest with
          | nil =>
            refine iff_of_false (fun hne => hne.1 rfl) fun hle => hfull ?_
            simpa [names] using hle.2
          | cons d rest =>
            rw [List.dropLast_cons_of_ne_nil (List.cons_ne_nil d rest), names_cons_some hname,
              List.length_append, List.length_cons, List.length_cons, List.length_nil, Nat.add_assoc,
              Nat.add_comm (0 + 1)]
            exact and_congr_left fun _ => iff_of_true (List.cons_ne_nil _ _) (List.cons_ne_nil _ _)
        · intro huntruncated
          rw [hcomplete huntruncated, names_cons_some hname, List.map_append, List.append_assoc]
          rfl
        · intro hout
          refine hpeer fun w hw => ?_
          rcases List.mem_append.mp hw with hw | hw
          · exact hout w hw
          · rw [List.mem_singleton.mp hw]
            rfl

end Intake

/-! ### The rows collected -/

/-- The rows are of the peer and have the names seen, each once. -/
structure Poll.Tracks (peerId : Text) (p : Poll) : Prop where
  nodup : (p.rows.map RemoteWorld.name).Nodup
  seen_iff : ∀ n, n ∈ p.seen ↔ n ∈ p.rows.map RemoteWorld.name
  peer : ∀ w ∈ p.rows, w.peerId = peerId

section Rows

variable {peerId : Text} {p : Poll}

theorem Poll.Tracks.push (h : p.Tracks peerId) {w : RemoteWorld} (hw : w.peerId = peerId) :
    (p.push w).Tracks peerId ∧ ∀ n, n ∈ (p.push w).rows.map RemoteWorld.name ↔
      n ∈ p.rows.map RemoteWorld.name ∨ n = w.name := by
  unfold Poll.push
  by_cases hmem : w.name ∈ p.seen
  · rw [if_pos hmem]
    refine ⟨⟨h.nodup, h.seen_iff, h.peer⟩, fun n => ⟨.inl, fun hn => hn.elim id ?_⟩⟩
    rintro rfl
    exact (h.seen_iff _).mp hmem
  · rw [if_neg hmem]
    have hnames : (p.rows ++ [w]).map RemoteWorld.name = p.rows.map RemoteWorld.name ++ [w.name] :=
      List.map_append
    refine ⟨⟨?_, ?_, ?_⟩, ?_⟩
    · rw [hnames]
      refine List.nodup_append.mpr ⟨h.nodup, List.nodup_singleton _, ?_⟩
      rintro a ha b hb rfl
      rw [List.mem_singleton] at hb
      exact hmem ((h.seen_iff _).mpr (hb ▸ ha))
    · intro n
      rw [hnames, List.mem_cons, List.mem_append, List.mem_singleton, h.seen_iff, or_comm]
    · intro v hv
      rcases List.mem_append.mp hv with hv | hv
      · exact h.peer v hv
      · rw [List.mem_singleton.mp hv, hw]
    · intro n
      rw [hnames, List.mem_append, List.mem_singleton]

/-- What taking a page changes. -/
theorem Poll.Tracks.take (h : p.Tracks peerId) {intake : PageIntake}
    (hpeer : ∀ w ∈ intake.worlds, w.peerId = peerId) :
    (p.take intake).Tracks peerId ∧ (∀ n, n ∈ (p.take intake).rows.map RemoteWorld.name ↔
      n ∈ p.rows.map RemoteWorld.name ∨ n ∈ intake.worlds.map RemoteWorld.name) := by
  have hfold : ∀ (ws : List RemoteWorld) (q : Poll), q.Tracks peerId →
      (∀ w ∈ ws, w.peerId = peerId) → (ws.foldl Poll.push q).Tracks peerId ∧
      ∀ n, n ∈ (ws.foldl Poll.push q).rows.map RemoteWorld.name ↔
        n ∈ q.rows.map RemoteWorld.name ∨ n ∈ ws.map RemoteWorld.name := by
    intro ws
    induction ws with
    | nil => exact fun q hq _ => ⟨hq, fun n => by simp⟩
    | cons w ws ih =>
      intro q hq hws
      obtain ⟨hpush, hnames⟩ := hq.push (hws w List.mem_cons_self)
      obtain ⟨htracks, hall⟩ := ih (q.push w) hpush fun v hv => hws v (List.mem_cons_of_mem w hv)
      refine ⟨htracks, fun n => ?_⟩
      rw [List.foldl_cons, hall, hnames, List.map_cons, List.mem_cons, or_assoc]
  exact hfold intake.worlds _ ⟨h.nodup, h.seen_iff, h.peer⟩ hpeer

theorem Poll.push_fields (p : Poll) (w : RemoteWorld) : (p.push w).truncated = p.truncated ∧
    (p.push w).offset = p.offset ∧ (p.push w).requests = p.requests := by
  unfold Poll.push
  split <;> exact ⟨rfl, rfl, rfl⟩

theorem Poll.take_fields (p : Poll) (intake : PageIntake) :
    (p.take intake).truncated = (p.truncated || intake.truncated) ∧
      (p.take intake).offset = p.offset ∧ (p.take intake).requests = p.requests := by
  have hfold : ∀ (ws : List RemoteWorld) (q : Poll),
      (ws.foldl Poll.push q).truncated = q.truncated ∧
      (ws.foldl Poll.push q).offset = q.offset ∧ (ws.foldl Poll.push q).requests = q.requests := by
    intro ws
    induction ws with
    | nil => exact fun q => ⟨rfl, rfl, rfl⟩
    | cons w ws ih =>
      intro q
      obtain ⟨htruncated, hoffset, hrequests⟩ := q.push_fields w
      rw [← htruncated, ← hoffset, ← hrequests]
      exact ih (q.push w)
  exact hfold intake.worlds _

end Rows

/-! ### The pages of a peer -/

/-- A peer with a list of worlds, which answers a request with at most `pageBound` entries. -/
structure Peer where
  entries : List PeerWorldEntry
  pageBound : ℕ
  served : ℕ → ℕ → ℕ
  served_le : ∀ limit offset, served limit offset ≤ pageBound

namespace Peer

variable (peer : Peer)

def answer (limit offset : ℕ) : List PeerWorldEntry :=
  (peer.entries.drop offset).take (peer.served limit offset)

/-- The bodies that the peer sends are listings and parse to its answers. -/
def Serves (env : PollEnv) (fetchListingBytes : ℕ → ℕ → Except PollFailure Crypto.Bytes) : Prop :=
  ∀ limit offset, ∃ body, fetchListingBytes limit offset = .ok body ∧
    (body.find? fun b => !isAsciiWhitespace b) = some 123 ∧
    env.fromSlice body = .ok (peer.answer limit offset)

/-- The page with number `k` that a poll asks for. -/
def page (k : ℕ) : List PeerWorldEntry := peer.answer pageSize (pageSize * k)

/-- The pages before `k` are full, and `k` is within the budget. -/
def Asked (rowCap k : ℕ) : Prop :=
  k < maxPages rowCap ∧ ∀ j < k, pageSize ≤ (peer.page j).length

def namesBefore (k : ℕ) : Finset RemoteWorldName :=
  (Finset.range k).biUnion fun j => (names (peer.page j)).toFinset

/-- The rows before page `k` and the names on it reach the cap before the page's last entry. -/
def CapReachedAt (rowCap k : ℕ) : Prop :=
  rowCap ≤ (peer.namesBefore k).card + (names (peer.page k).dropLast).length

def CapReached (rowCap : ℕ) : Prop := ∃ k, peer.Asked rowCap k ∧ peer.CapReachedAt rowCap k

variable {peer} {rowCap : ℕ}

theorem mem_namesBefore {k : ℕ} {n : RemoteWorldName} :
    n ∈ peer.namesBefore k ↔ ∃ j < k, n ∈ names (peer.page j) := by
  simp [namesBefore]

theorem mem_namesBefore_succ {k : ℕ} {n : RemoteWorldName} :
    n ∈ peer.namesBefore (k + 1) ↔ n ∈ peer.namesBefore k ∨ n ∈ names (peer.page k) := by
  rw [namesBefore, Finset.range_add_one, Finset.biUnion_insert, Finset.mem_union, or_comm,
    List.mem_toFinset]
  rfl

theorem names_page_subset {k : ℕ} {n : RemoteWorldName} (h : n ∈ names (peer.page k)) :
    n ∈ names peer.entries := by
  obtain ⟨e, he, hn⟩ := List.mem_filterMap.mp h
  exact List.mem_filterMap.mpr ⟨e, List.mem_of_mem_drop (List.mem_of_mem_take he), hn⟩

end Peer

/-! ### The loop over the pages -/

section Pages

variable {env : PollEnv} {peerId : Text} {observedAt : ℤ} {rowCap : ℕ}
  {fetchListingBytes : ℕ → ℕ → Except PollFailure Crypto.Bytes} {peer : Peer}

theorem intakePage_serves {body : Crypto.Bytes} {entries : List PeerWorldEntry} {budget : ℕ}
    (hbrace : (body.find? fun b => !isAsciiWhitespace b) = some 123)
    (hparse : env.fromSlice body = .ok entries) :
    intakePage env peerId observedAt body budget =
      .ok (takeEntries env peerId observedAt budget ⟨[], 0, false, entries.length⟩ entries) := by
  have hnot : ¬(body.find? fun b => !isAsciiWhitespace b) ≠ some 123 := not_not.mpr hbrace
  rw [intakePage, if_neg hnot, hparse]
  rfl

theorem collectPages_succ {n : ℕ} {p : Poll} {body : Crypto.Bytes} {intake : PageIntake}
    (hroom : p.rows.length < rowCap) (hfetch : fetchListingBytes pageSize p.offset = .ok body)
    (hintake : intakePage env peerId observedAt body (rowCap - p.rows.length) = .ok intake) :
    collectPages env peerId observedAt rowCap fetchListingBytes (n + 1) p =
      let q := Poll.take { p with requests := p.requests ++ [(pageSize, p.offset)] } intake
      if q.truncated || intake.entriesSeen < pageSize then (q, none)
      else collectPages env peerId observedAt rowCap fetchListingBytes n
        { q with offset := q.offset + pageSize } := by
  have hremaining : ¬rowCap - p.rows.length = 0 := by omega
  rw [collectPages, if_neg hremaining]
  simp only [hfetch, hintake]

/-- The pages before `k` are in the rows, and none of them reached the cap. -/
structure Read (peerId : Text) (peer : Peer) (rowCap k : ℕ) (p : Poll) : Prop where
  tracks : p.Tracks peerId
  names_iff : ∀ n, n ∈ p.rows.map RemoteWorld.name ↔ n ∈ peer.namesBefore k
  untruncated : p.truncated = false
  below : ∀ j < k, ¬peer.CapReachedAt rowCap j

/-- The state in which the loop comes to page `k`. -/
structure Before (peerId : Text) (peer : Peer) (rowCap k : ℕ) (p : Poll) : Prop
    extends Read peerId peer rowCap k p where
  offset : p.offset = pageSize * k
  full : ∀ j < k, pageSize ≤ (peer.page j).length

theorem Read.length_rows {k : ℕ} {p : Poll} (h : Read peerId peer rowCap k p) :
    p.rows.length = (peer.namesBefore k).card := by
  have hset : (p.rows.map RemoteWorld.name).toFinset = peer.namesBefore k := by
    ext n
    rw [List.mem_toFinset, h.names_iff]
  rw [← hset, List.toFinset_card_of_nodup h.tracks.nodup, List.length_map]

/-- The state at the end of the loop. -/
structure After (peerId : Text) (peer : Peer) (rowCap : ℕ) (p : Poll) : Prop where
  tracks : p.Tracks peerId
  truncated_iff : p.truncated = true ↔ peer.CapReached rowCap
  names_iff : p.truncated = false → ∀ n, n ∈ p.rows.map RemoteWorld.name ↔
    ∃ k, peer.Asked rowCap k ∧ n ∈ names (peer.page k)

/-- The loop ends behind page `k` if no page from `k` on is asked for. -/
theorem Read.after {k : ℕ} {p : Poll} (h : Read peerId peer rowCap k p)
    (hk : ∀ j, peer.Asked rowCap j ↔ j < k) : After peerId peer rowCap p := by
  refine ⟨h.tracks, ?_, fun _ n => ?_⟩
  · rw [h.untruncated]
    refine iff_of_false Bool.false_ne_true ?_
    rintro ⟨j, hasked, hcap⟩
    exact h.below j ((hk j).mp hasked) hcap
  · rw [h.names_iff, Peer.mem_namesBefore]
    exact exists_congr fun j => and_congr_left fun _ => (hk j).symm

/-- What a page does that finds room for a row. -/
theorem Before.take {k : ℕ} {p : Poll} (h : Before peerId peer rowCap k p)
    (hroom : p.rows.length < rowCap) (requests : List (ℕ × ℕ)) {intake : PageIntake}
    (hintake : intake = takeEntries env peerId observedAt (rowCap - p.rows.length)
      ⟨[], 0, false, (peer.page k).length⟩ (peer.page k)) :
    let q := Poll.take { p with requests := requests } intake
    q.Tracks peerId ∧ q.offset = pageSize * k ∧ intake.entriesSeen = (peer.page k).length ∧
      (q.truncated = true ↔ peer.CapReachedAt rowCap k) ∧
      (q.truncated = false → ∀ n, n ∈ q.rows.map RemoteWorld.name ↔ n ∈ peer.namesBefore (k + 1)) := by
  intro q
  have htaken : Taken peerId (rowCap - p.rows.length) ⟨[], 0, false, (peer.page k).length⟩
      (peer.page k) intake := by
    rw [hintake]
    exact takeEntries_taken _ _ rfl
  obtain ⟨htruncated, hoffset, -⟩ := Poll.take_fields { p with requests := requests } intake
  have htracks : Poll.Tracks peerId { p with requests := requests } :=
    ⟨h.tracks.nodup, h.tracks.seen_iff, h.tracks.peer⟩
  obtain ⟨hq, hnames⟩ := htracks.take (htaken.peer fun w hw => absurd hw List.not_mem_nil)
  have hflag : q.truncated = intake.truncated := by
    rw [htruncated, h.untruncated, Bool.false_or]
  refine ⟨hq, hoffset.trans h.offset, htaken.seen, ?_, fun hf n => ?_⟩
  · rw [hflag, htaken.truncated_iff, List.length_nil, Nat.zero_add, h.length_rows,
      Peer.CapReachedAt]
    rw [h.length_rows] at hroom
    constructor
    · rintro ⟨-, hle⟩
      omega
    · intro hle
      refine ⟨fun hnil => ?_, by omega⟩
      rw [hnil, List.dropLast_nil] at hle
      have hzero : (names []).length = 0 := rfl
      omega
  · rw [hnames, Peer.mem_namesBefore_succ, htaken.complete (hflag ▸ hf), List.map_nil,
      List.nil_append]
    exact or_congr_left (h.names_iff n)

theorem collectPages_after (hserves : peer.Serves env fetchListingBytes) {n k : ℕ}
    (hn : k + n = maxPages rowCap) {p : Poll} (h : Before peerId peer rowCap k p) :
    ∃ p', collectPages env peerId observedAt rowCap fetchListingBytes n p = (p', none) ∧
      After peerId peer rowCap p' := by
  induction n generalizing k p with
  | zero =>
    refine ⟨p, rfl, h.after fun j => ⟨fun hj => ?_, fun hj => ⟨?_, fun i hi => ?_⟩⟩⟩
    · have hlt := hj.1
      omega
    · omega
    · exact h.full i (hi.trans hj)
  | succ n ih =>
    have hasked : peer.Asked rowCap k := ⟨by omega, h.full⟩
    by_cases hroom : p.rows.length < rowCap
    · obtain ⟨body, hfetch, hbrace, hparse⟩ := hserves pageSize p.offset
      obtain ⟨intake, hintake⟩ : ∃ intake, intake = takeEntries env peerId observedAt
        (rowCap - p.rows.length) ⟨[], 0, false, (peer.page k).length⟩ (peer.page k) := ⟨_, rfl⟩
      have hparsed : intakePage env peerId observedAt body (rowCap - p.rows.length) = .ok intake := by
        rw [intakePage_serves hbrace hparse, h.offset, hintake]
        rfl
      obtain ⟨hq, hoffset, hseen, htruncated, hnames⟩ :=
        h.take hroom (p.requests ++ [(pageSize, p.offset)]) hintake
      rw [collectPages_succ hroom hfetch hparsed]
      generalize Poll.take { p with requests := _ } intake = q at hq hoffset htruncated hnames ⊢
      cases hflag : q.truncated with
      | true =>
        refine ⟨q, if_pos (by rw [hflag, Bool.true_or]), hq, ?_, fun hf => ?_⟩
        · exact iff_of_true hflag ⟨k, hasked, htruncated.mp hflag⟩
        · rw [hflag] at hf
          cases hf
      | false =>
        have hread : Read peerId peer rowCap (k + 1) q := by
          refine ⟨hq, hnames hflag, hflag, fun j hj hcap => ?_⟩
          obtain hj | rfl := Nat.lt_succ_iff_lt_or_eq.mp hj
          · exact h.below j hj hcap
          · rw [htruncated.mpr hcap] at hflag
            cases hflag
        simp only [hflag, Bool.false_or, hseen, decide_eq_true_eq]
        by_cases hshort : (peer.page k).length < pageSize
        · rw [if_pos hshort]
          refine ⟨q, rfl, hread.after fun j => ⟨fun hj => ?_, fun hj => ⟨by omega, ?_⟩⟩⟩
          · by_contra hlt
            exact absurd (hj.2 k (by omega)) (by omega)
          · exact fun i hi => h.full i (by omega)
        · rw [if_neg hshort]
          refine ih (by omega) ⟨⟨⟨hq.nodup, hq.seen_iff, hq.peer⟩, hread.names_iff, rfl,
            hread.below⟩, ?_, fun j hj => ?_⟩
          · show q.offset + pageSize = pageSize * (k + 1)
            rw [hoffset, Nat.mul_succ]
          · obtain hj | rfl := Nat.lt_succ_iff_lt_or_eq.mp hj
            · exact h.full j hj
            · exact not_lt.mp hshort
    · have hfull : rowCap - p.rows.length = 0 := by omega
      rw [collectPages, if_pos hfull]
      refine ⟨_, rfl, ⟨h.tracks.nodup, h.tracks.seen_iff, h.tracks.peer⟩, ?_, fun hf => ?_⟩
      · refine iff_of_true rfl ⟨k, hasked, ?_⟩
        have hlength := h.length_rows
        unfold Peer.CapReachedAt
        omega
      · cases hf

/-- A page of the budget is at most one request. -/
theorem requests_le (n : ℕ) (p : Poll) :
    (collectPages env peerId observedAt rowCap fetchListingBytes n p).1.requests.length ≤
      p.requests.length + n := by
  induction n generalizing p with
  | zero => exact le_rfl
  | succ n ih =>
    have hsent : ((p.requests ++ [(pageSize, p.offset)]).length : ℕ) = p.requests.length + 1 := by
      rw [List.length_append, List.length_singleton]
    rw [collectPages]
    split
    · exact Nat.le_add_right _ _
    · dsimp only
      split
      · dsimp only
        omega
      · split
        · dsimp only
          omega
        · rename_i intake _
          obtain ⟨-, -, hrequests⟩ :=
            Poll.take_fields { p with requests := p.requests ++ [(pageSize, p.offset)] } intake
          split
          · dsimp only
            rw [hrequests]
            dsimp only
            omega
          · refine (ih _).trans ?_
            dsimp only
            rw [hrequests]
            dsimp only
            omega

end Pages

/-! ### The store -/

def Mirrored (table : Table) (peerId : Text) (n : RemoteWorldName) : Prop :=
  ∃ r ∈ table, r.peerId = peerId ∧ r.name = n ∧ r.hiddenSince = none

def Vetoed (table : Table) (peerId : Text) (n : RemoteWorldName) : Prop :=
  ∃ r ∈ table, r.peerId = peerId ∧ r.name = n ∧ r.hiddenSince ≠ none

section Store

variable {table : Table} {peerId : Text} {n : RemoteWorldName}

/-- The update of a row keeps its key and its veto. -/
theorem exists_updated_iff (w : RemoteWorld) (P : Option ℤ → Prop) :
    (∃ r ∈ table.map fun r =>
        if r.peerId = w.peerId ∧ r.name = w.name then { w with hiddenSince := r.hiddenSince } else r,
      r.peerId = peerId ∧ r.name = n ∧ P r.hiddenSince) ↔
      ∃ r ∈ table, r.peerId = peerId ∧ r.name = n ∧ P r.hiddenSince := by
  simp only [List.mem_map, exists_exists_and_eq_and]
  refine exists_congr fun r => and_congr_right fun _ => ?_
  by_cases hkey : r.peerId = w.peerId ∧ r.name = w.name
  · rw [if_pos hkey, hkey.1, hkey.2]
  · rw [if_neg hkey]

theorem vetoed_upsertRow (w : RemoteWorld) :
    Vetoed (upsertRow table w) peerId n ↔ Vetoed table peerId n := by
  unfold upsertRow
  by_cases hkey : table.any fun r => r.peerId = w.peerId ∧ r.name = w.name
  · rw [if_pos hkey]
    exact exists_updated_iff w (· ≠ none)
  · rw [if_neg hkey]
    constructor
    · rintro ⟨r, hr, hpeer, hname, hhidden⟩
      rcases List.mem_append.mp hr with hr | hr
      · exact ⟨r, hr, hpeer, hname, hhidden⟩
      · rw [List.mem_singleton.mp hr] at hhidden
        exact absurd rfl hhidden
    · rintro ⟨r, hr, hfields⟩
      exact ⟨r, List.mem_append_left _ hr, hfields⟩

theorem mirrored_upsertRow (w : RemoteWorld) :
    Mirrored (upsertRow table w) peerId n ↔
      Mirrored table peerId n ∨ (w.peerId = peerId ∧ w.name = n) ∧ ¬Vetoed table peerId n := by
  unfold upsertRow
  by_cases hkey : table.any fun r => r.peerId = w.peerId ∧ r.name = w.name
  · rw [if_pos hkey]
    refine (exists_updated_iff w (· = none)).trans ⟨.inl, fun h => h.elim id ?_⟩
    rintro ⟨⟨rfl, rfl⟩, hveto⟩
    obtain ⟨r, hr, hrow⟩ := List.any_eq_true.mp hkey
    obtain ⟨hpeer, hname⟩ := of_decide_eq_true hrow
    exact ⟨r, hr, hpeer, hname, not_not.mp fun hhidden => hveto ⟨r, hr, hpeer, hname, hhidden⟩⟩
  · rw [if_neg hkey]
    constructor
    · rintro ⟨r, hr, hpeer, hname, hhidden⟩
      rcases List.mem_append.mp hr with hr | hr
      · exact .inl ⟨r, hr, hpeer, hname, hhidden⟩
      · rw [List.mem_singleton.mp hr] at hpeer hname
        refine .inr ⟨⟨hpeer, hname⟩, ?_⟩
        rintro ⟨v, hv, hvpeer, hvname, -⟩
        exact hkey (List.any_eq_true.mpr
          ⟨v, hv, decide_eq_true ⟨hvpeer.trans hpeer.symm, hvname.trans hname.symm⟩⟩)
    · rintro (⟨r, hr, hfields⟩ | ⟨⟨hpeer, hname⟩, -⟩)
      · exact ⟨r, List.mem_append_left _ hr, hfields⟩
      · exact ⟨_, List.mem_append_right _ (List.mem_singleton_self _), hpeer, hname, rfl⟩

theorem vetoed_upserts (worlds : List RemoteWorld) :
    Vetoed (worlds.foldl upsertRow table) peerId n ↔ Vetoed table peerId n := by
  induction worlds generalizing table with
  | nil => exact Iff.rfl
  | cons w worlds ih => exact ih.trans (vetoed_upsertRow w)

theorem mirrored_upserts (worlds : List RemoteWorld) :
    Mirrored (worlds.foldl upsertRow table) peerId n ↔ Mirrored table peerId n ∨
      (∃ w ∈ worlds, w.peerId = peerId ∧ w.name = n) ∧ ¬Vetoed table peerId n := by
  induction worlds generalizing table with
  | nil => simp
  | cons w worlds ih =>
    rw [List.foldl_cons, ih, mirrored_upsertRow, vetoed_upsertRow, or_assoc, ← or_and_right,
      List.exists_mem_cons_iff]

/-- Chunks without a repeated key go through. -/
theorem upsert_chunks (cs : List (List RemoteWorld))
    (h : ∀ c ∈ cs, (c.map fun w => (w.peerId, w.name)).Nodup) :
    cs.foldlM upsert table = .ok (cs.flatten.foldl upsertRow table) := by
  induction cs generalizing table with
  | nil => rfl
  | cons c cs ih =>
    have hc : upsert table c = .ok (c.foldl upsertRow table) := if_pos (h c List.mem_cons_self)
    rw [List.foldlM_cons, hc, List.flatten_cons, List.foldl_append]
    exact ih fun d hd => h d (List.mem_cons_of_mem c hd)

/-- The rows of the peer that an operator has hidden, and those of the others. -/
def spared (table : Table) (peerId : Text) : Table :=
  table.filter fun r => !(r.peerId = peerId ∧ r.hiddenSince.isNone)

theorem vetoed_spared : Vetoed (spared table peerId) peerId n ↔ Vetoed table peerId n := by
  constructor
  · rintro ⟨r, hr, hfields⟩
    exact ⟨r, List.mem_of_mem_filter hr, hfields⟩
  · rintro ⟨r, hr, hpeer, hname, hhidden⟩
    refine ⟨r, List.mem_filter.mpr ⟨hr, ?_⟩, hpeer, hname, hhidden⟩
    simpa using Or.inr hhidden

theorem not_mirrored_spared : ¬Mirrored (spared table peerId) peerId n := by
  rintro ⟨r, hr, hpeer, -, hhidden⟩
  have hkept := (List.mem_filter.mp hr).2
  simp [hpeer, hhidden] at hkept

/-- A replacement mirrors the names of the rows but for the vetoed ones. -/
theorem replacePeerWorlds_ok {p : Poll} (h : p.Tracks peerId) :
    ∃ table', replacePeerWorlds none table peerId p.rows = .ok table' ∧
      ∀ n, (Vetoed table' peerId n ↔ Vetoed table peerId n) ∧ (Mirrored table' peerId n ↔
        n ∈ p.rows.map RemoteWorld.name ∧ ¬Vetoed table peerId n) := by
  refine ⟨p.rows.foldl upsertRow (spared table peerId), ?_, fun n => ⟨?_, ?_⟩⟩
  · have hchunks : ∀ c ∈ chunks upsertChunk p.rows,
        (c.map fun w => (w.peerId, w.name)).Nodup := by
      intro c hc
      have hsub : c.Sublist p.rows := by
        rw [← flatten_chunks (n := upsertChunk) p.rows]
        exact List.sublist_flatten_of_mem hc
      have hnames : ((c.map fun w => (w.peerId, w.name)).map Prod.snd).Nodup := by
        rw [List.map_map]
        exact h.nodup.sublist (hsub.map _)
      exact hnames.of_map _
    have hgo := @upsert_chunks (spared table peerId) _ hchunks
    rw [flatten_chunks] at hgo
    exact hgo
  · rw [vetoed_upserts, vetoed_spared]
  · rw [mirrored_upserts, vetoed_spared, or_iff_right not_mirrored_spared, List.mem_map]
    refine and_congr_left fun _ => ⟨?_, ?_⟩
    · rintro ⟨w, hw, -, hname⟩
      exact ⟨w, hw, hname⟩
    · rintro ⟨w, hw, hname⟩
      exact ⟨w, hw, h.peer w hw, hname⟩

end Store

/-! ### The poll -/

/-- The mirror is complete if the poll succeeds untruncated, and unchanged if it fails. -/
structure CompleteUnlessTruncated (outcome : Outcome) (table : Table) (peerId : Text)
    (entries : List PeerWorldEntry) : Prop where
  complete : ∀ report, outcome.result = .ok report → report.truncated = false →
    ∀ n, Mirrored outcome.table peerId n ↔ n ∈ names entries ∧ ¬Vetoed table peerId n
  vetoed : ∀ report, outcome.result = .ok report →
    ∀ n, Vetoed outcome.table peerId n ↔ Vetoed table peerId n
  unchanged : ∀ e, outcome.result = .error e → outcome.table = table

section Outcome

variable {env : PollEnv} {peerId : Text} {observedAt : ℤ} {rowCap : ℕ}
  {fetchListingBytes : ℕ → ℕ → Except PollFailure Crypto.Bytes}
  {localNamesAlsoClaimed : List RemoteWorldName → Except Text (List Text)}
  {fault : Option Text} {table : Table} {peer : Peer}

/-- Whatever the peer answers. -/
theorem outcome_bounded :
    let outcome := collectAndApply env peerId observedAt rowCap fetchListingBytes
      localNamesAlsoClaimed fault table
    outcome.requests.length ≤ maxPages rowCap ∧
      ∀ e, outcome.result = .error e → outcome.table = table := by
  intro outcome
  have hrequests := @requests_le env peerId observedAt rowCap fetchListingBytes (maxPages rowCap) .start
  rw [show Poll.start.requests.length = 0 from rfl, Nat.zero_add] at hrequests
  unfold outcome collectAndApply
  split
  · rename_i p e hpages
    rw [hpages] at hrequests
    exact ⟨hrequests, fun _ _ => rfl⟩
  · rename_i p hpages
    rw [hpages] at hrequests
    split
    · exact ⟨hrequests, fun _ _ => rfl⟩
    · refine ⟨hrequests, fun e he => ?_⟩
      cases he

theorem outcome_of_serves (hserves : peer.Serves env fetchListingBytes) :
    let outcome := collectAndApply env peerId observedAt rowCap fetchListingBytes
      localNamesAlsoClaimed none table
    ∃ report, outcome.result = .ok report ∧ (report.truncated = true ↔ peer.CapReached rowCap) ∧
      (∀ n, Vetoed outcome.table peerId n ↔ Vetoed table peerId n) ∧
      (report.truncated = false → ∀ n, Mirrored outcome.table peerId n ↔
        (∃ k, peer.Asked rowCap k ∧ n ∈ names (peer.page k)) ∧ ¬Vetoed table peerId n) := by
  intro outcome
  have hbefore : Before peerId peer rowCap 0 .start := by
    refine ⟨⟨⟨List.nodup_nil, fun n => Iff.rfl, fun w hw => absurd hw List.not_mem_nil⟩, fun n => ?_,
      rfl, fun j hj => absurd hj (Nat.not_lt_zero j)⟩, rfl, fun j hj => absurd hj (Nat.not_lt_zero j)⟩
    rw [Peer.mem_namesBefore]
    refine iff_of_false List.not_mem_nil ?_
    rintro ⟨j, hj, -⟩
    exact absurd hj (Nat.not_lt_zero j)
  obtain ⟨p, hpages, hafter⟩ :=
    @collectPages_after env peerId observedAt rowCap fetchListingBytes peer hserves
      (maxPages rowCap) 0 (Nat.zero_add _) .start hbefore
  obtain ⟨table', hreplace, htable⟩ := @replacePeerWorlds_ok table peerId p hafter.tracks
  have houtcome : outcome = collectAndApply env peerId observedAt rowCap fetchListingBytes
    localNamesAlsoClaimed none table := rfl
  rw [collectAndApply, hpages] at houtcome
  simp only [hreplace] at houtcome
  rw [houtcome]
  refine ⟨_, rfl, hafter.truncated_iff, fun n => (htable n).1, fun hf n => ?_⟩
  rw [(htable n).2, hafter.names_iff hf]

theorem outcome_of_fault {e : Text} (report : PollReport) :
    (collectAndApply env peerId observedAt rowCap fetchListingBytes localNamesAlsoClaimed (some e)
      table).result ≠ .ok report := by
  unfold collectAndApply
  split
  · exact nofun
  · exact nofun

/-- The poll is complete unless it says otherwise exactly if the database fails, the cap is
reached or the pages asked for name every world of the peer. -/
theorem poll_complete_iff (hserves : peer.Serves env fetchListingBytes) :
    CompleteUnlessTruncated (collectAndApply env peerId observedAt rowCap fetchListingBytes
        localNamesAlsoClaimed fault table) table peerId peer.entries ∧
      (∀ fetchListingBytes',
        let outcome := collectAndApply env peerId observedAt rowCap fetchListingBytes'
          localNamesAlsoClaimed fault table
        outcome.requests.length ≤ maxPages rowCap ∧
          ∀ e, outcome.result = .error e → outcome.table = table) ↔
      fault ≠ none ∨ peer.CapReached rowCap ∨
        ∀ n ∈ names peer.entries, ¬Vetoed table peerId n →
          ∃ k, peer.Asked rowCap k ∧ n ∈ names (peer.page k) := by
  rw [and_iff_left fun _ => outcome_bounded]
  cases fault with
  | some e =>
    refine iff_of_true ⟨?_, ?_, outcome_bounded.2⟩ (.inl (Option.some_ne_none e))
    · exact fun report hreport => absurd hreport (outcome_of_fault report)
    · exact fun report hreport => absurd hreport (outcome_of_fault report)
  | none =>
    obtain ⟨report, hresult, htruncated, hvetoed, hmirrored⟩ :=
      @outcome_of_serves env peerId observedAt rowCap fetchListingBytes localNamesAlsoClaimed table
        peer hserves
    rw [or_iff_right fun hne => hne rfl]
    constructor
    · intro h
      by_cases hcap : peer.CapReached rowCap
      · exact .inl hcap
      · have hflag : report.truncated = false := Bool.eq_false_iff.mpr fun ht => hcap (htruncated.mp ht)
        refine .inr fun n hn hveto => ?_
        exact ((hmirrored hflag n).mp ((h.complete report hresult hflag n).mpr ⟨hn, hveto⟩)).1
    · intro h
      refine ⟨fun report' hreport hflag n => ?_, fun _ _ => hvetoed, outcome_bounded.2⟩
      obtain rfl : report = report' := Except.ok.inj (hresult.symm.trans hreport)
      rw [hmirrored hflag n]
      refine and_congr_left fun hveto => ⟨?_, fun hn => ?_⟩
      · rintro ⟨k, -, hn⟩
        exact Peer.names_page_subset hn
      · rcases h with hcap | hall
        · rw [htruncated.mpr hcap] at hflag
          cases hflag
        · exact hall n hn hveto

end Outcome

/-! ### A peer with short pages -/

def namedEntry (name : String) : PeerWorldEntry :=
  ⟨name.toList, none, none, none, none, none, none, none⟩

/-- The body of a listing of such entries. -/
def listingBody (entries : List PeerWorldEntry) : Crypto.Bytes :=
  let items := entries.map fun e => "\x7b\"name\":\"".toList ++ e.name ++ "\"\x7d".toList
  ("\x7b\"worlds\":[".toList ++ [','].intercalate items ++ "]\x7d".toList).map fun c =>
    UInt8.ofNat c.toNat

def pagesOfTwo : List (List PeerWorldEntry) := [[], [namedEntry "alpha"], [namedEntry "beta"]]

/-- A parser that knows these pages. -/
def pagesEnv : PollEnv where
  fromSlice body :=
    match pagesOfTwo.find? fun entries => listingBody entries = body with
    | some entries => .ok entries
    | none => .error "expected value".toList
  parseRfc3339 _ := none

/-- The peer serves at most `bound` entries a page. -/
def shortPaged (entries : List PeerWorldEntry) (bound : ℕ) : Peer where
  entries := entries
  pageBound := bound
  served limit _ := min limit bound
  served_le limit _ := min_le_right limit bound

def listingOf (peer : Peer) (limit offset : ℕ) : Except PollFailure Crypto.Bytes :=
  .ok (listingBody (peer.answer limit offset))

theorem serves_of_pages {peer : Peer} (h : ∀ limit offset, peer.answer limit offset ∈ pagesOfTwo) :
    peer.Serves pagesEnv (listingOf peer) := by
  intro limit offset
  refine ⟨_, rfl, ?_⟩
  have hpage := h limit offset
  generalize peer.answer limit offset = entries at hpage
  simp only [pagesOfTwo, List.mem_cons, List.not_mem_nil, or_false] at hpage
  obtain rfl | rfl | rfl := hpage <;> exact ⟨by decide, rfl⟩

theorem answer_alpha (limit offset : ℕ) :
    (shortPaged [namedEntry "alpha"] 100).answer limit offset ∈ pagesOfTwo := by
  show ([namedEntry "alpha"].drop offset).take (min limit 100) ∈ pagesOfTwo
  rcases offset with _ | offset
  · rcases limit with _ | limit
    · simp [pagesOfTwo]
    · rw [Nat.add_min_add_right limit 99 1]
      simp [pagesOfTwo]
  · simp [pagesOfTwo]

/-- One world fits on the first page. -/
theorem poll_complete_iff_alpha : CompleteUnlessTruncated
    (collectAndApply pagesEnv "peer".toList 0 2000
      (listingOf (shortPaged [namedEntry "alpha"] 100)) (fun _ => .ok []) none []) []
    "peer".toList [namedEntry "alpha"] :=
  ((poll_complete_iff (serves_of_pages answer_alpha)).mpr <| .inr <| .inr fun _ hn _ =>
    ⟨0, ⟨by decide, fun j hj => absurd hj (Nat.not_lt_zero j)⟩, hn⟩).1

theorem answer_alpha_beta (limit offset : ℕ) :
    (shortPaged [namedEntry "alpha", namedEntry "beta"] 1).answer limit offset ∈ pagesOfTwo := by
  show ([namedEntry "alpha", namedEntry "beta"].drop offset).take (min limit 1) ∈ pagesOfTwo
  rcases limit with _ | limit
  · simp [pagesOfTwo]
  · rw [Nat.add_min_add_right limit 0 1, Nat.min_zero]
    rcases offset with _ | _ | offset <;> simp [pagesOfTwo]

def missedPoll : Outcome :=
  collectAndApply pagesEnv "peer".toList 0 2000
    (listingOf (shortPaged [namedEntry "alpha", namedEntry "beta"] 1)) (fun _ => .ok []) none []

/-- The page bound of the peer ends the poll behind its first world. -/
theorem second_world_missed :
    (shortPaged [namedEntry "alpha", namedEntry "beta"] 1).Serves pagesEnv
        (listingOf (shortPaged [namedEntry "alpha", namedEntry "beta"] 1)) ∧
      ¬CompleteUnlessTruncated missedPoll [] "peer".toList
        [namedEntry "alpha", namedEntry "beta"] := by
  refine ⟨serves_of_pages answer_alpha_beta, fun h => ?_⟩
  have hresult : missedPoll.result.toOption.map PollReport.truncated = some false := by
    decide +kernel
  cases hreport : missedPoll.result with
  | error e =>
    rw [hreport] at hresult
    cases hresult
  | ok report =>
    rw [hreport] at hresult
    have hlisted : ∃ n ∈ names [namedEntry "alpha", namedEntry "beta"], n.val = "beta".toList := by
      decide
    obtain ⟨n, hn, hbeta⟩ := hlisted
    have huntouched : ¬Vetoed [] "peer".toList n := by
      rintro ⟨r, hr, -⟩
      exact List.not_mem_nil hr
    obtain ⟨r, hr, -, hname, -⟩ :=
      (h.complete report hreport (Option.some.inj hresult) n).mpr ⟨hn, huntouched⟩
    have hnames : missedPoll.table.map (fun r => r.name.val) = ["alpha".toList] := by
      decide +kernel
    have hbad : "beta".toList ∈ missedPoll.table.map (fun r => r.name.val) :=
      List.mem_map.mpr ⟨r, hr, (congrArg Subtype.val hname).trans hbeta⟩
    rw [hnames] at hbad
    exact absurd hbad (by decide)

end Catalyrst.Worlds
