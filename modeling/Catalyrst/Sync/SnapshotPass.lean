import Mathlib
import Catalyrst.Lib.Rules
import Catalyrst.Sync.Orchestrator

/-!
# Which snapshots a pass deploys

A snapshot whose replaced snapshots have all been processed counts as processed
itself, and so may cover a snapshot that replaces it in turn. A pass goes over its
candidates until it marks no more. A candidate that ends before the genesis leaves
the pass when it is first looked at, also when a snapshot that covers it is marked
only later.
-/

namespace Catalyrst.Sync

open Catalyrst.Lib

inductive SnapshotDecision where
  | deploy
  | markProcessed
  | skip
  deriving DecidableEq

structure Candidate where
  hash : Hash
  /-- The greatest end timestamp over the servers that advertise the snapshot. -/
  greatestEnd : Timestamp
  /-- The hashes it replaces, by advertising server. -/
  groups : List (List Hash)
  deriving DecidableEq

/-- The decision, and the processed set after it. -/
def decideSnapshotDeploymentFromProcessedSet (processed : Finset Hash)
    (genesisTimestamp : Timestamp) (snapshotHash : Hash) (greatestEndTimestamp : Timestamp)
    (replacedGroups : List (List Hash)) : SnapshotDecision × Finset Hash :=
  let snapshotWasProcessed := decide (snapshotHash ∈ processed)
  let aReplacedGroupWasProcessed := replacedGroups.any fun group =>
    !group.isEmpty && group.all fun h => decide (h ∈ processed)
  if !snapshotWasProcessed then
    if !aReplacedGroupWasProcessed then
      if greatestEndTimestamp > genesisTimestamp then (.deploy, processed) else (.skip, processed)
    else (.markProcessed, insert snapshotHash processed)
  else (.skip, processed)

/-- A pass on its way. -/
structure Pass where
  processed : Finset Hash
  newlyMarked : List Hash
  nextRound : List Candidate
  deriving DecidableEq

/-- One candidate of a round. -/
def Pass.consider (genesisTimestamp : Timestamp) (p : Pass) (c : Candidate) : Pass :=
  let (decision, processed) := decideSnapshotDeploymentFromProcessedSet p.processed
    genesisTimestamp c.hash c.greatestEnd c.groups
  match decision with
  | .deploy => { p with processed, nextRound := p.nextRound ++ [c] }
  | .markProcessed => { p with processed, newlyMarked := p.newlyMarked ++ [c.hash] }
  | .skip => { p with processed }

/-- A round over the candidates that are still deployable. -/
def Pass.round (genesisTimestamp : Timestamp) (processed : Finset Hash) (newlyMarked : List Hash)
    (stillDeployable : List Candidate) : Pass :=
  stillDeployable.foldl (consider genesisTimestamp) ⟨processed, newlyMarked, []⟩

/-! ### One decision -/

/-- A group the snapshot replaces is not empty and in the set. -/
def Candidate.Replaced (c : Candidate) (s : Set Hash) : Prop :=
  ∃ group ∈ c.groups, group ≠ [] ∧ ∀ h ∈ group, h ∈ s

theorem Candidate.Replaced.mono {c : Candidate} {s t : Set Hash} (h : c.Replaced s)
    (hst : s ⊆ t) : c.Replaced t := by
  obtain ⟨group, hgroup, hne, hall⟩ := h
  exact ⟨group, hgroup, hne, fun x hx => hst (hall x hx)⟩

namespace Pass

/-- What a candidate can do to a round. -/
inductive Considered (genesis : Timestamp) (p : Pass) (c : Candidate) : Pass → Prop
  | known (h : c.hash ∈ p.processed) : Considered genesis p c p
  | marked (h : c.hash ∉ p.processed) (hr : c.Replaced p.processed) :
    Considered genesis p c { p with
      processed := insert c.hash p.processed
      newlyMarked := p.newlyMarked ++ [c.hash] }
  | kept (h : c.hash ∉ p.processed) (hr : ¬ c.Replaced p.processed)
    (hend : genesis < c.greatestEnd) :
    Considered genesis p c { p with nextRound := p.nextRound ++ [c] }
  | aged (h : c.hash ∉ p.processed) (hr : ¬ c.Replaced p.processed)
    (hend : c.greatestEnd ≤ genesis) : Considered genesis p c p

theorem considered (genesis : Timestamp) (p : Pass) (c : Candidate) :
    Considered genesis p c (p.consider genesis c) := by
  have hgroup : (c.groups.any fun group =>
      !group.isEmpty && group.all fun h => decide (h ∈ p.processed)) = true ↔
      c.Replaced p.processed := by
    simp only [List.any_eq_true, Bool.and_eq_true, Bool.not_eq_true', List.isEmpty_eq_false_iff,
      List.all_eq_true, decide_eq_true_eq, Candidate.Replaced, Finset.mem_coe]
  unfold consider decideSnapshotDeploymentFromProcessedSet
  by_cases h : c.hash ∈ p.processed
  · simpa [h] using (Considered.known h : Considered genesis p c p)
  by_cases hr : c.Replaced p.processed
  · rw [hgroup.mpr hr]
    have hmarked : Considered genesis p c _ := Considered.marked h hr
    simpa [h] using hmarked
  · rw [Bool.eq_false_iff.mpr fun hany => hr (hgroup.mp hany)]
    by_cases hend : genesis < c.greatestEnd
    · simpa [h, hend] using Considered.kept h hr hend
    · simpa [h, hend] using Considered.aged h hr (not_lt.mp hend)

/-! ### A round -/

theorem consider_processed (genesis : Timestamp) (p : Pass) (c : Candidate) :
    p.processed ⊆ (p.consider genesis c).processed := by
  have hc := p.considered genesis c
  generalize p.consider genesis c = q at hc ⊢
  cases hc with
  | marked => exact Finset.subset_insert _ _
  | _ => exact Finset.Subset.refl _

theorem foldl_processed (genesis : Timestamp) (cs : List Candidate) (p : Pass) :
    p.processed ⊆ (cs.foldl (consider genesis) p).processed := by
  induction cs generalizing p with
  | nil => exact Finset.Subset.refl _
  | cons c cs ih => exact (consider_processed genesis p c).trans (ih _)

/-- Every candidate is kept once or marked once at most. -/
theorem foldl_card (genesis : Timestamp) (cs : List Candidate) (p : Pass) :
    (cs.foldl (consider genesis) p).processed.card +
        (cs.foldl (consider genesis) p).nextRound.length ≤
      p.processed.card + p.nextRound.length + cs.length := by
  induction cs generalizing p with
  | nil => exact le_rfl
  | cons c cs ih =>
    have hstep : (p.consider genesis c).processed.card + (p.consider genesis c).nextRound.length ≤
        p.processed.card + p.nextRound.length + 1 := by
      have hc := p.considered genesis c
      generalize p.consider genesis c = q at hc ⊢
      cases hc with
      | known => omega
      | marked h =>
        dsimp only
        rw [Finset.card_insert_of_notMem h]
        omega
      | kept =>
        dsimp only
        rw [List.length_append, List.length_singleton]
        omega
      | aged => omega
    have hrest := ih (p.consider genesis c)
    rw [List.foldl_cons, List.length_cons]
    omega

/-- A round that marks a snapshot leaves fewer candidates. -/
theorem round_shorter {genesis : Timestamp} {processed : Finset Hash} {newlyMarked : List Hash}
    {still : List Candidate}
    (h : (round genesis processed newlyMarked still).processed.card ≠ processed.card) :
    (round genesis processed newlyMarked still).nextRound.length < still.length := by
  have hle : processed.card ≤ (round genesis processed newlyMarked still).processed.card :=
    Finset.card_le_card (foldl_processed genesis still ⟨processed, newlyMarked, []⟩)
  have hcard := foldl_card genesis still ⟨processed, newlyMarked, []⟩
  change (round genesis processed newlyMarked still).processed.card +
    (round genesis processed newlyMarked still).nextRound.length ≤
      processed.card + 0 + still.length at hcard
  omega

end Pass

/-- What a pass comes to. -/
structure PassResult where
  toDeploy : List Hash
  newlyMarked : List Hash
  processed : Finset Hash
  deriving DecidableEq

def passRounds (genesisTimestamp : Timestamp) (processed : Finset Hash) (newlyMarked : List Hash)
    (stillDeployable : List Candidate) : PassResult :=
  let markedBefore := processed.card
  let p := Pass.round genesisTimestamp processed newlyMarked stillDeployable
  if p.processed.card = markedBefore then
    ⟨p.nextRound.map Candidate.hash, p.newlyMarked, p.processed⟩
  else passRounds genesisTimestamp p.processed p.newlyMarked p.nextRound
termination_by stillDeployable.length
decreasing_by exact Pass.round_shorter ‹_›

section

variable {genesis : Timestamp} {processed : Finset Hash} {newlyMarked : List Hash}
  {still : List Candidate}

theorem passRounds_done
    (h : (Pass.round genesis processed newlyMarked still).processed.card = processed.card) :
    passRounds genesis processed newlyMarked still =
      ⟨(Pass.round genesis processed newlyMarked still).nextRound.map Candidate.hash,
        (Pass.round genesis processed newlyMarked still).newlyMarked,
        (Pass.round genesis processed newlyMarked still).processed⟩ := by
  rw [passRounds]
  exact if_pos h

theorem passRounds_more
    (h : (Pass.round genesis processed newlyMarked still).processed.card ≠ processed.card) :
    passRounds genesis processed newlyMarked still =
      passRounds genesis (Pass.round genesis processed newlyMarked still).processed
        (Pass.round genesis processed newlyMarked still).newlyMarked
        (Pass.round genesis processed newlyMarked still).nextRound := by
  rw [passRounds]
  exact if_neg h

end

def decideSnapshotPass (candidates : List Candidate) (processed : Finset Hash)
    (genesisTimestamp : Timestamp) : PassResult :=
  passRounds genesisTimestamp processed [] candidates

/-! ### What a pass is for -/

/-- One rule for each candidate and each group it replaces: once the group is processed, so is
the candidate. -/
def replacements (candidates : List Candidate) : Set (Rule Hash) :=
  {r | ∃ c ∈ candidates, ∃ group ∈ c.groups, group ≠ [] ∧ r = ⟨group, c.hash⟩}

theorem closedUnder_replacements {candidates : List Candidate} {s : Set Hash} :
    ClosedUnder (replacements candidates) s ↔ ∀ c ∈ candidates, c.Replaced s → c.hash ∈ s := by
  constructor
  · rintro h c hc ⟨group, hgroup, hne, hall⟩
    exact h ⟨group, c.hash⟩ ⟨c, hc, group, hgroup, hne, rfl⟩ hall
  · rintro h r ⟨c, hc, group, hgroup, hne, rfl⟩ hfires
    exact h c hc ⟨group, hgroup, hne, hfires⟩

/-- A snapshot that is processed, or covered by what is. -/
abbrev Covered (candidates : List Candidate) (processed : Finset Hash) : Hash → Prop :=
  Derivable (replacements candidates) (processed : Set Hash)

theorem Covered.of_replaced {candidates : List Candidate} {processed : Finset Hash}
    {c : Candidate} (hc : c ∈ candidates) {s : Set Hash} (hr : c.Replaced s)
    (hs : ∀ h ∈ s, Covered candidates processed h) : Covered candidates processed c.hash := by
  obtain ⟨group, hgroup, hne, hall⟩ := hr
  exact .rule (r := ⟨group, c.hash⟩) ⟨c, hc, group, hgroup, hne, rfl⟩ fun h hh => hs h (hall h hh)

/-- The candidates that end before the genesis and are covered are so by snapshots processed
before the pass. -/
def Timely (candidates : List Candidate) (processed : Finset Hash) (genesis : Timestamp) : Prop :=
  ∀ c ∈ candidates, c.greatestEnd ≤ genesis → Covered candidates processed c.hash →
    c.hash ∈ processed ∨ c.Replaced processed

structure PassResult.Exact (r : PassResult) (candidates : List Candidate)
    (processed : Finset Hash) (genesis : Timestamp) : Prop where
  least : IsLeast {s | (processed : Set Hash) ⊆ s ∧ ClosedUnder (replacements candidates) s}
    (r.processed : Set Hash)
  marked : ∀ h, h ∈ r.newlyMarked ↔ h ∈ r.processed ∧ h ∉ processed
  deploy : ∀ h, h ∈ r.toDeploy ↔ ∃ c ∈ candidates, c.hash = h ∧ h ∉ r.processed ∧
    genesis < c.greatestEnd

/-- Two passes that come to the same sets. -/
structure PassResult.SameSets (r r' : PassResult) : Prop where
  processed : r.processed = r'.processed
  marked : ∀ h, h ∈ r.newlyMarked ↔ h ∈ r'.newlyMarked
  deploy : ∀ h, h ∈ r.toDeploy ↔ h ∈ r'.toDeploy

/-! ### Rounds -/

namespace Pass

/-- A round on its way through `todo`. -/
structure Sound (candidates : List Candidate) (processed : Finset Hash) (genesis : Timestamp)
    (p : Pass) (todo : List Candidate) : Prop where
  base : processed ⊆ p.processed
  covered : ∀ h ∈ p.processed, Covered candidates processed h
  marked : ∀ h, h ∈ p.newlyMarked ↔ h ∈ p.processed ∧ h ∉ processed
  pool : ∀ c ∈ p.nextRound ++ todo, c ∈ candidates
  /-- A candidate that has left is processed, or it is too old and nothing covers it. -/
  left : ∀ c ∈ candidates, c ∈ p.nextRound ++ todo ∨ c.hash ∈ p.processed ∨
    (c.greatestEnd ≤ genesis ∧ ¬ Covered candidates processed c.hash)

section

variable {candidates : List Candidate} {processed : Finset Hash} {genesis : Timestamp} {p : Pass}

/-- A candidate that leaves the pool. -/
theorem Sound.drop {c : Candidate} {todo : List Candidate}
    (h : p.Sound candidates processed genesis (c :: todo))
    (hc : c.hash ∈ p.processed ∨
      (c.greatestEnd ≤ genesis ∧ ¬ Covered candidates processed c.hash)) :
    p.Sound candidates processed genesis todo where
  base := h.base
  covered := h.covered
  marked := h.marked
  pool d hd := h.pool d (by simp only [List.mem_append, List.mem_cons] at hd ⊢; tauto)
  left d hd := by
    rcases h.left d hd with hin | hout
    · rcases List.mem_append.mp hin with hin | hin
      · exact Or.inl (List.mem_append_left _ hin)
      · rcases List.mem_cons.mp hin with rfl | hin
        · exact Or.inr hc
        · exact Or.inl (List.mem_append_right _ hin)
    · exact Or.inr hout

theorem Sound.mark {x : Hash} {todo : List Candidate}
    (h : p.Sound candidates processed genesis todo) (hnew : x ∉ p.processed)
    (hx : Covered candidates processed x) :
    Sound candidates processed genesis
      { p with processed := insert x p.processed, newlyMarked := p.newlyMarked ++ [x] } todo where
  base := h.base.trans (Finset.subset_insert _ _)
  covered y hy := by
    rcases Finset.mem_insert.mp hy with rfl | hy
    · exact hx
    · exact h.covered y hy
  marked y := by
    rw [List.mem_append, List.mem_singleton, h.marked, Finset.mem_insert]
    constructor
    · rintro (⟨hy, hnot⟩ | rfl)
      · exact ⟨Or.inr hy, hnot⟩
      · exact ⟨Or.inl rfl, fun hy => hnew (h.base hy)⟩
    · rintro ⟨rfl | hy, hnot⟩
      · exact Or.inr rfl
      · exact Or.inl ⟨hy, hnot⟩
  pool := h.pool
  left d hd := by
    rcases h.left d hd with hin | hin | hout
    · exact Or.inl hin
    · exact Or.inr (Or.inl (Finset.mem_insert_of_mem hin))
    · exact Or.inr (Or.inr hout)

/-- Keeping a candidate only moves it. -/
theorem Sound.keep {c : Candidate} {todo : List Candidate}
    (h : p.Sound candidates processed genesis (c :: todo)) :
    Sound candidates processed genesis { p with nextRound := p.nextRound ++ [c] } todo where
  base := h.base
  covered := h.covered
  marked := h.marked
  pool d hd := h.pool d (by rwa [List.append_assoc] at hd)
  left d hd := by
    dsimp only
    rw [List.append_assoc]
    exact h.left d hd

theorem Sound.consider {c : Candidate} {todo : List Candidate}
    (ht : Timely candidates processed genesis)
    (h : p.Sound candidates processed genesis (c :: todo)) :
    (p.consider genesis c).Sound candidates processed genesis todo := by
  have hmem : c ∈ candidates := h.pool c (List.mem_append_right _ List.mem_cons_self)
  have hc := p.considered genesis c
  generalize p.consider genesis c = q at hc ⊢
  cases hc with
  | known hknown => exact h.drop (Or.inl hknown)
  | marked hnew hr =>
    have hcovered := Covered.of_replaced hmem hr h.covered
    exact (h.mark hnew hcovered).drop (Or.inl (Finset.mem_insert_self _ _))
  | kept => exact h.keep
  | aged hnew hr hend =>
    refine h.drop (Or.inr ⟨hend, ?_⟩)
    intro hcovered
    rcases ht c hmem hend hcovered with hbase | hbase
    · exact hnew (h.base hbase)
    · exact hr (hbase.mono (Finset.coe_subset.mpr h.base))

theorem Sound.foldl {todo : List Candidate} (ht : Timely candidates processed genesis)
    (h : p.Sound candidates processed genesis todo) :
    (todo.foldl (Pass.consider genesis) p).Sound candidates processed genesis [] := by
  induction todo generalizing p with
  | nil => exact h
  | cons c todo ih => exact ih (h.consider ht)

/-- The candidates a round without a mark keeps are deployable. -/
theorem mem_nextRound {start : Finset Hash} {todo : List Candidate} (hstart : start ⊆ p.processed)
    (hkept : p.processed = start → ∀ c ∈ p.nextRound,
      c.hash ∉ start ∧ ¬ c.Replaced start ∧ genesis < c.greatestEnd)
    (hend : (todo.foldl (Pass.consider genesis) p).processed = start) :
    ∀ c ∈ (todo.foldl (Pass.consider genesis) p).nextRound,
      c.hash ∉ start ∧ ¬ c.Replaced start ∧ genesis < c.greatestEnd := by
  induction todo generalizing p with
  | nil => exact hkept hend
  | cons c todo ih =>
    refine ih (hstart.trans (consider_processed genesis p c)) ?_ hend
    have hc := p.considered genesis c
    generalize p.consider genesis c = q at hc ⊢
    cases hc with
    | known => exact hkept
    | marked hnew =>
      intro heq
      dsimp only at heq
      exact absurd (hstart (heq ▸ Finset.mem_insert_self _ _)) hnew
    | kept hnew hr hage =>
      intro heq d hd
      dsimp only at heq
      rcases List.mem_append.mp hd with hd | hd
      · exact hkept heq d hd
      · rw [List.mem_singleton.mp hd, ← heq]
        exact ⟨hnew, hr, hage⟩
    | aged => exact hkept

end

end Pass

/-! ### The whole pass -/

section

variable {candidates : List Candidate} {processed : Finset Hash} {genesis : Timestamp}

/-- Where the last round ends, the pass has found what is covered. -/
theorem exact_of_sound {p : Pass} (h : p.Sound candidates processed genesis [])
    (hkept : ∀ c ∈ p.nextRound,
      c.hash ∉ p.processed ∧ ¬ c.Replaced p.processed ∧ genesis < c.greatestEnd) :
    (⟨p.nextRound.map Candidate.hash, p.newlyMarked, p.processed⟩ : PassResult).Exact candidates
      processed genesis where
  least := by
    refine ⟨⟨Finset.coe_subset.mpr h.base, closedUnder_replacements.mpr ?_⟩, ?_⟩
    · intro c hc hr
      rcases h.left c hc with hin | hin | ⟨-, hnot⟩
      · rw [List.append_nil] at hin
        exact absurd hr (hkept c hin).2.1
      · exact hin
      · exact absurd (Covered.of_replaced hc hr h.covered) hnot
    · rintro s ⟨hbase, hclosed⟩ x hx
      exact (h.covered x hx).mem hbase hclosed
  marked := h.marked
  deploy x := by
    dsimp only
    constructor
    · intro hx
      obtain ⟨c, hc, rfl⟩ := List.mem_map.mp hx
      obtain ⟨hnew, -, hage⟩ := hkept c hc
      exact ⟨c, h.pool c (by rwa [List.append_nil]), rfl, hnew, hage⟩
    · rintro ⟨c, hc, rfl, hnew, hage⟩
      rcases h.left c hc with hin | hin | ⟨hold, -⟩
      · rw [List.append_nil] at hin
        exact List.mem_map_of_mem hin
      · exact absurd hin hnew
      · exact absurd hage (not_lt.mpr hold)

/-- Between two rounds nothing but the pool is carried over. -/
theorem Pass.Sound.next {p : Pass} (h : p.Sound candidates processed genesis []) :
    Pass.Sound candidates processed genesis ⟨p.processed, p.newlyMarked, []⟩ p.nextRound where
  base := h.base
  covered := h.covered
  marked := h.marked
  pool c hc := h.pool c (by rwa [List.append_nil])
  left c hc := by
    have hleft := h.left c hc
    rwa [List.append_nil] at hleft

theorem passRounds_exact (ht : Timely candidates processed genesis) (now : Finset Hash)
    (newlyMarked : List Hash) (still : List Candidate)
    (h : Pass.Sound candidates processed genesis ⟨now, newlyMarked, []⟩ still) :
    (passRounds genesis now newlyMarked still).Exact candidates processed genesis := by
  induction now, newlyMarked, still using passRounds.induct genesis with
  | case1 now newlyMarked still markedBefore p hsame =>
    have hsub : now ⊆ p.processed := Pass.foldl_processed genesis still ⟨now, newlyMarked, []⟩
    have heq : p.processed = now := (Finset.eq_of_subset_of_card_le hsub hsame.le).symm
    have hkept := Pass.mem_nextRound (p := ⟨now, newlyMarked, []⟩) (Finset.Subset.refl _)
      (fun _ c hc => absurd hc List.not_mem_nil) heq
    rw [passRounds_done hsame]
    refine exact_of_sound (h.foldl ht) ?_
    show ∀ c ∈ p.nextRound,
      c.hash ∉ p.processed ∧ ¬ c.Replaced p.processed ∧ genesis < c.greatestEnd
    rw [heq]
    exact hkept
  | case2 now newlyMarked still markedBefore p hmore ih =>
    rw [passRounds_more hmore]
    exact ih (h.foldl ht).next

/-- Where the old candidates are covered in time, the pass finds the least closed set. -/
theorem decideSnapshotPass_exact (ht : Timely candidates processed genesis) :
    (decideSnapshotPass candidates processed genesis).Exact candidates processed genesis := by
  refine passRounds_exact ht processed [] candidates ⟨Finset.Subset.refl _, ?_, ?_, ?_, ?_⟩
  · intro h hh
    exact .base hh
  · intro h
    refine iff_of_false List.not_mem_nil ?_
    rintro ⟨hin, hout⟩
    exact hout hin
  · intro c hc
    exact hc
  · intro c hc
    exact Or.inl hc

end

/-! ### Orders -/

section

variable {candidates candidates' : List Candidate} {processed : Finset Hash} {genesis : Timestamp}

theorem replacements_perm (h : candidates'.Perm candidates) :
    replacements candidates' = replacements candidates := by
  ext r
  simp only [replacements, h.mem_iff]

theorem Timely.perm (ht : Timely candidates processed genesis)
    (h : candidates'.Perm candidates) : Timely candidates' processed genesis := by
  intro c hc hend hcovered
  rw [Covered, replacements_perm h] at hcovered
  exact ht c (h.mem_iff.mp hc) hend hcovered

/-- What is found does not tell the order of the candidates. -/
theorem PassResult.Exact.sameSets {r r' : PassResult} (hr : r.Exact candidates processed genesis)
    (hr' : r'.Exact candidates' processed genesis) (h : candidates'.Perm candidates) :
    r'.SameSets r := by
  have hleast := hr'.least
  rw [replacements_perm h] at hleast
  have hprocessed : r'.processed = r.processed := Finset.coe_inj.mp (hleast.unique hr.least)
  refine ⟨hprocessed, ?_, ?_⟩
  · intro x
    rw [hr.marked, hr'.marked, hprocessed]
  · intro x
    rw [hr.deploy, hr'.deploy, hprocessed]
    simp only [h.mem_iff]

end

/-! ### A candidate that leaves too early -/

namespace Pass

/-- A round marks candidates only, and keeps no others. -/
theorem foldl_within (genesis : Timestamp) (cs : List Candidate) (p : Pass) :
    (∀ x ∈ (cs.foldl (consider genesis) p).processed, x ∈ p.processed ∨ ∃ c ∈ cs, c.hash = x) ∧
      ∀ c ∈ (cs.foldl (consider genesis) p).nextRound, c ∈ p.nextRound ∨ c ∈ cs := by
  induction cs generalizing p with
  | nil => exact ⟨fun _ hx => Or.inl hx, fun _ hc => Or.inl hc⟩
  | cons c cs ih =>
    have hstep : (∀ x ∈ (p.consider genesis c).processed, x ∈ p.processed ∨ c.hash = x) ∧
        ∀ d ∈ (p.consider genesis c).nextRound, d ∈ p.nextRound ∨ d = c := by
      have hc := p.considered genesis c
      generalize p.consider genesis c = q at hc ⊢
      cases hc with
      | marked =>
        refine ⟨?_, fun _ hd => Or.inl hd⟩
        intro x hx
        rcases Finset.mem_insert.mp hx with rfl | hx
        · exact Or.inr rfl
        · exact Or.inl hx
      | kept =>
        refine ⟨fun _ hx => Or.inl hx, ?_⟩
        intro d hd
        rcases List.mem_append.mp hd with hd | hd
        · exact Or.inl hd
        · exact Or.inr (List.mem_singleton.mp hd)
      | _ => exact ⟨fun _ hx => Or.inl hx, fun _ hd => Or.inl hd⟩
    obtain ⟨hmarked, hkept⟩ := ih (p.consider genesis c)
    refine ⟨?_, ?_⟩
    · intro x hx
      rcases hmarked x hx with hx | ⟨d, hd, hdx⟩
      · rcases hstep.1 x hx with hx | hx
        · exact Or.inl hx
        · exact Or.inr ⟨c, List.mem_cons_self, hx⟩
      · exact Or.inr ⟨d, List.mem_cons_of_mem c hd, hdx⟩
    · intro d hd
      rcases hkept d hd with hd | hd
      · rcases hstep.2 d hd with hd | rfl
        · exact Or.inl hd
        · exact Or.inr List.mem_cons_self
      · exact Or.inr (List.mem_cons_of_mem c hd)

end Pass

theorem passRounds_within {genesis : Timestamp} (now : Finset Hash) (newlyMarked : List Hash)
    (still : List Candidate) : ∀ x ∈ (passRounds genesis now newlyMarked still).processed,
      x ∈ now ∨ ∃ c ∈ still, c.hash = x := by
  induction now, newlyMarked, still using passRounds.induct genesis with
  | case1 now newlyMarked still markedBefore p hsame =>
    rw [passRounds_done hsame]
    exact (Pass.foldl_within genesis still ⟨now, newlyMarked, []⟩).1
  | case2 now newlyMarked still markedBefore p hmore ih =>
    rw [passRounds_more hmore]
    obtain ⟨hmarked, hkept⟩ := Pass.foldl_within genesis still ⟨now, newlyMarked, []⟩
    intro x hx
    rcases ih x hx with hx | ⟨c, hc, hcx⟩
    · exact hmarked x hx
    · exact Or.inr ⟨c, (hkept c hc).resolve_left List.not_mem_nil, hcx⟩

/-- An old candidate looked at first is lost, unless it is covered already. -/
theorem not_processed_of_first {genesis : Timestamp} {processed : Finset Hash} {c : Candidate}
    {cs : List Candidate} (hdistinct : c.hash ∉ cs.map Candidate.hash)
    (hend : c.greatestEnd ≤ genesis) (hnew : c.hash ∉ processed) (hr : ¬ c.Replaced processed) :
    c.hash ∉ (decideSnapshotPass (c :: cs) processed genesis).processed := by
  have hfirst : Pass.round genesis processed [] (c :: cs) = Pass.round genesis processed [] cs := by
    have hc := Pass.considered genesis ⟨processed, [], []⟩ c
    unfold Pass.round
    rw [List.foldl_cons]
    generalize Pass.consider genesis ⟨processed, [], []⟩ c = q at hc ⊢
    cases hc with
    | marked _ hr' => exact absurd hr' hr
    | kept _ _ hend' => exact absurd hend' (not_lt.mpr hend)
    | _ => rfl
  have hsame : decideSnapshotPass (c :: cs) processed genesis =
      decideSnapshotPass cs processed genesis := by
    unfold decideSnapshotPass
    by_cases hdone : (Pass.round genesis processed [] cs).processed.card = processed.card
    · rw [passRounds_done (hfirst ▸ hdone), passRounds_done hdone, hfirst]
    · rw [passRounds_more (hfirst ▸ hdone), passRounds_more hdone, hfirst]
  rw [hsame]
  intro hin
  rcases passRounds_within processed [] cs c.hash hin with hin | ⟨d, hd, hdc⟩
  · exact hnew hin
  · exact hdistinct (hdc ▸ List.mem_map_of_mem hd)

/-- The pass finds the least closed set, in every order the same, exactly when the old
candidates are covered in time. -/
theorem decideSnapshotPass_exact_iff (candidates : List Candidate) (processed : Finset Hash)
    (genesis : Timestamp) (hdistinct : (candidates.map Candidate.hash).Nodup) :
    ((decideSnapshotPass candidates processed genesis).Exact candidates processed genesis ∧
      ∀ candidates', candidates'.Perm candidates →
        (decideSnapshotPass candidates' processed genesis).SameSets
          (decideSnapshotPass candidates processed genesis)) ↔
      Timely candidates processed genesis := by
  constructor
  · rintro ⟨hexact, hsame⟩ c hc hend hcovered
    by_contra hnot
    rw [not_or] at hnot
    have hperm := List.perm_cons_erase hc
    have hin : c.hash ∈ (decideSnapshotPass candidates processed genesis).processed :=
      (isLeast_closed_iff.mp hexact.least c.hash).mpr hcovered
    rw [← (hsame _ hperm.symm).processed] at hin
    have hhashes := (hperm.map Candidate.hash).nodup_iff.mp hdistinct
    rw [List.map_cons, List.nodup_cons] at hhashes
    exact not_processed_of_first hhashes.1 hend hnot.1 hnot.2 hin
  · intro ht
    have hexact := decideSnapshotPass_exact ht
    exact ⟨hexact, fun _ hperm => hexact.sameSets (decideSnapshotPass_exact (ht.perm hperm)) hperm⟩

/-- A chain, the end of it first. -/
def chain : List Candidate := [⟨['c'], 2000, [[['b']]]⟩, ⟨['b'], 2000, [[['a']]]⟩]

theorem decideSnapshotPass_exact_chain :
    (decideSnapshotPass chain {['a']} 1000).Exact chain {['a']} 1000 ∧
      ∀ candidates', candidates'.Perm chain → (decideSnapshotPass candidates' {['a']} 1000).SameSets
        (decideSnapshotPass chain {['a']} 1000) := by
  refine (decideSnapshotPass_exact_iff chain {['a']} 1000 (by decide)).mpr ?_
  intro c hc hend _
  have hyoung : ∀ c ∈ chain, 1000 < c.greatestEnd := by decide
  exact absurd hend (not_le.mpr (hyoung c hc))

/-- The snapshot `a` ends before the genesis, and is covered once `b` is marked. -/
def lateCover : List Candidate :=
  [⟨['a'], 5, [[['b']]]⟩, ⟨['b'], 2000, [[['z']]]⟩, ⟨['c'], 2000, [[['a']]]⟩]

/-- By then `a` has left the pass, and `c`, which replaces it, is deployed. -/
theorem lateCover_lost : (lateCover.map Candidate.hash).Nodup ∧
    decideSnapshotPass lateCover {['z']} 1000 = ⟨[['c']], [['b']], {['b'], ['z']}⟩ ∧
    ¬ (decideSnapshotPass lateCover {['z']} 1000).Exact lateCover {['z']} 1000 := by
  have hfirst : Pass.round 1000 {['z']} [] lateCover =
      ⟨{['b'], ['z']}, [['b']], [⟨['c'], 2000, [[['a']]]⟩]⟩ := by decide
  have hsecond : Pass.round 1000 {['b'], ['z']} [['b']] [⟨['c'], 2000, [[['a']]]⟩] =
      ⟨{['b'], ['z']}, [['b']], [⟨['c'], 2000, [[['a']]]⟩]⟩ := by decide
  have hresult : decideSnapshotPass lateCover {['z']} 1000 =
      ⟨[['c']], [['b']], {['b'], ['z']}⟩ := by
    rw [decideSnapshotPass, passRounds_more (by rw [hfirst]; decide), hfirst,
      passRounds_done (by rw [hsecond]), hsecond]
    rfl
  refine ⟨by decide, hresult, ?_⟩
  intro hexact
  have hclosed := closedUnder_replacements.mp hexact.least.1.2
  rw [hresult] at hclosed
  have hin := hclosed ⟨['a'], 5, [[['b']]]⟩ (by decide) ⟨[['b']], by decide, by decide, by simp⟩
  exact absurd (Finset.mem_coe.mp hin) (by decide)

end Catalyrst.Sync
