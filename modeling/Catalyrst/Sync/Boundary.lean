import Catalyrst.Lib.Machine
import Catalyrst.Sync.PointerChanges

/-!
# The boundary of a pointer-changes stream

A poll starts from the mark of the stream, the mark included, so a peer serves the rows at
the mark again in every poll. The tracker of a stream remembers what it has delivered at the
mark, and lets the next poll skip those rows.
-/

namespace Catalyrst.Sync

open Catalyrst.Lib

/-- Entity, timestamp of the entity and timestamp of the peer. -/
abbrev Fingerprint := EntityId × Timestamp × Timestamp

def maxBoundaryRowsTracked : ℕ := 10000

structure BoundaryTracker where
  ts : Timestamp
  /-- Delivered at `ts`. -/
  delivered : Finset Fingerprint
  /-- What this poll may skip. -/
  suppress : Finset Fingerprint

namespace BoundaryTracker

def new (fromTimestamp : Timestamp) : BoundaryTracker := ⟨fromTimestamp, ∅, ∅⟩

def fingerprint (deployment : SyncDeployment) : Option Fingerprint :=
  deployment.localTimestamp.map fun ts => (deployment.entityId, deployment.entityTimestamp, ts)

def beginPoll (tracker : BoundaryTracker) : BoundaryTracker :=
  { tracker with suppress := tracker.delivered }

/-- Whether the row is skipped, and the tracker after. -/
def alreadyDelivered (tracker : BoundaryTracker) (deployment : SyncDeployment) :
    Bool × BoundaryTracker :=
  match fingerprint deployment with
  | none => (false, tracker)
  | some fp =>
    if tracker.ts < fp.2.2 then (false, { tracker with ts := fp.2.2, delivered := ∅ })
    else if fp.2.2 = tracker.ts ∧ fp ∈ tracker.suppress then
      (true, { tracker with suppress := tracker.suppress.erase fp })
    else (false, tracker)

def recordDelivered (tracker : BoundaryTracker) (deployment : SyncDeployment) : BoundaryTracker :=
  match fingerprint deployment with
  | none => tracker
  | some fp =>
    if fp.2.2 = tracker.ts ∧ tracker.delivered.card < maxBoundaryRowsTracked then
      { tracker with delivered := insert fp tracker.delivered }
    else tracker

variable {tracker : BoundaryTracker} {deployment : SyncDeployment}

/-- A row is skipped only if an earlier poll delivered one with its fingerprint. -/
theorem mem_suppress_of_skipped (h : (tracker.alreadyDelivered deployment).1 = true) :
    ∃ fp ∈ tracker.suppress, fingerprint deployment = some fp := by
  unfold alreadyDelivered at h
  split at h
  · cases h
  · rename_i fp hfp
    split at h
    · cases h
    · split at h
      · rename_i hmem
        exact ⟨fp, hmem.2, hfp⟩
      · cases h

theorem alreadyDelivered_subset (tracker : BoundaryTracker) (deployment : SyncDeployment) :
    (tracker.alreadyDelivered deployment).2.delivered ⊆ tracker.delivered ∧
      (tracker.alreadyDelivered deployment).2.suppress ⊆ tracker.suppress := by
  unfold alreadyDelivered
  split
  · exact ⟨subset_rfl, subset_rfl⟩
  · split
    · exact ⟨Finset.empty_subset _, subset_rfl⟩
    · split
      · exact ⟨subset_rfl, Finset.erase_subset _ _⟩
      · exact ⟨subset_rfl, subset_rfl⟩

theorem recordDelivered_suppress (tracker : BoundaryTracker) (deployment : SyncDeployment) :
    (tracker.recordDelivered deployment).suppress = tracker.suppress := by
  unfold recordDelivered
  split
  · rfl
  · split
    · rfl
    · rfl

theorem mem_recordDelivered {fp : Fingerprint}
    (h : fp ∈ (tracker.recordDelivered deployment).delivered) :
    fp ∈ tracker.delivered ∨ fingerprint deployment = some fp := by
  unfold recordDelivered at h
  split at h
  · exact Or.inl h
  · rename_i fp' hfp
    split at h
    · rcases Finset.mem_insert.mp h with rfl | h
      · exact Or.inr hfp
      · exact Or.inl h
    · exact Or.inl h

end BoundaryTracker

/-! ### The stream -/

structure PointerStream where
  fromTimestamp : Timestamp
  greatestTimestamp : Timestamp
  confirmedTimestamp : Timestamp
  tracker : BoundaryTracker
  /-- The number of polls that are over. -/
  polls : ℕ
  /-- What was handed to the deployer, with the poll it came in. -/
  handed : List (ℕ × SyncDeployment)

/-- A delta of a page, read at the time of the page, and the end of a poll all of whose
deployments were acknowledged. A stream that stops or fails takes no further step. -/
inductive StreamEvent where
  | delta (nowMs : Timestamp) (item : Option SyncDeployment)
  | boundary

namespace PointerStream

def new (fromTimestamp : Timestamp) : PointerStream :=
  ⟨fromTimestamp, fromTimestamp, fromTimestamp, BoundaryTracker.new fromTimestamp, 0, []⟩

/-- The deployment of a delta, if it is accepted. -/
def accepted (s : PointerStream) (nowMs : Timestamp) (item : Option SyncDeployment) :
    Option SyncDeployment :=
  (acceptDeltaAndAdvanceMark item s.fromTimestamp nowMs s.greatestTimestamp).1

/-- The deployment of a delta is skipped. -/
def skips (s : PointerStream) (nowMs : Timestamp) (item : Option SyncDeployment) : Bool :=
  (s.accepted nowMs item).any fun deployment => (s.tracker.alreadyDelivered deployment).1

variable (entityTypeFilter : Option (List EntityType))

def step (s : PointerStream) : StreamEvent → PointerStream
  | .delta nowMs item =>
    match acceptDeltaAndAdvanceMark item s.fromTimestamp nowMs s.greatestTimestamp with
    | (none, mark) => { s with greatestTimestamp := mark }
    | (some deployment, mark) =>
      let r := s.tracker.alreadyDelivered deployment
      if r.1 then { s with greatestTimestamp := mark, tracker := r.2 }
      else if !passes entityTypeFilter deployment.entityType then
        { s with greatestTimestamp := mark, tracker := r.2 }
      else { s with
        greatestTimestamp := mark
        tracker := r.2.recordDelivered deployment
        handed := s.handed ++ [(s.polls, deployment)] }
  | .boundary => { s with
      confirmedTimestamp := s.greatestTimestamp
      tracker := s.tracker.beginPoll
      polls := s.polls + 1 }

def run (fromTimestamp : Timestamp) (events : List StreamEvent) : PointerStream :=
  events.foldl (step entityTypeFilter) (new fromTimestamp)

/-- A row with the fingerprint and a type of the filter was handed over in one of the polls
before the given one. -/
def Handed (s : PointerStream) (before : ℕ) (fp : Fingerprint) : Prop :=
  ∃ poll deployment, (poll, deployment) ∈ s.handed ∧ poll < before ∧
    BoundaryTracker.fingerprint deployment = some fp ∧
    passes entityTypeFilter deployment.entityType = true

/-- What the tracker remembers was handed over; what it lets a poll skip, before that poll. -/
structure Inv (s : PointerStream) : Prop where
  delivered : ∀ fp ∈ s.tracker.delivered, s.Handed entityTypeFilter (s.polls + 1) fp
  suppress : ∀ fp ∈ s.tracker.suppress, s.Handed entityTypeFilter s.polls fp

variable {entityTypeFilter} {s t : PointerStream}

theorem Handed.mono {before before' : ℕ} {fp : Fingerprint}
    (h : s.Handed entityTypeFilter before fp) (hle : before ≤ before') (hsub : s.handed ⊆ t.handed) :
    t.Handed entityTypeFilter before' fp := by
  obtain ⟨poll, deployment, hmem, hlt, hrest⟩ := h
  exact ⟨poll, deployment, hsub hmem, hlt.trans_le hle, hrest⟩

theorem Inv.step (h : s.Inv entityTypeFilter) (e : StreamEvent) :
    (s.step entityTypeFilter e).Inv entityTypeFilter := by
  cases e with
  | boundary =>
    exact ⟨fun fp hfp => (h.delivered fp hfp).mono (Nat.le_succ _) (List.Subset.refl _),
      fun fp hfp => (h.delivered fp hfp).mono le_rfl (List.Subset.refl _)⟩
  | delta nowMs item =>
    unfold PointerStream.step
    dsimp only
    split
    · exact ⟨h.delivered, h.suppress⟩
    · rename_i deployment mark haccept
      obtain ⟨hdelivered, hsuppress⟩ := s.tracker.alreadyDelivered_subset deployment
      split
      · exact ⟨fun fp hfp => h.delivered fp (hdelivered hfp),
          fun fp hfp => h.suppress fp (hsuppress hfp)⟩
      · split
        · exact ⟨fun fp hfp => h.delivered fp (hdelivered hfp),
            fun fp hfp => h.suppress fp (hsuppress hfp)⟩
        · rename_i hpasses
          have hsub : s.handed ⊆ s.handed ++ [(s.polls, deployment)] :=
            List.subset_append_left _ _
          refine ⟨fun fp hfp => ?_, fun fp hfp => ?_⟩
          · rcases BoundaryTracker.mem_recordDelivered hfp with hfp | hfp
            · exact (h.delivered fp (hdelivered hfp)).mono le_rfl hsub
            · refine ⟨s.polls, deployment, ?_, Nat.lt_succ_self _, hfp, by simpa using hpasses⟩
              exact List.mem_append_right _ List.mem_cons_self
          · rw [BoundaryTracker.recordDelivered_suppress] at hfp
            exact (h.suppress fp (hsuppress hfp)).mono le_rfl hsub

/-! ### The mark -/

theorem accept_mark (item : Option SyncDeployment) (fromTimestamp nowMs mark : Timestamp) :
    mark ≤ (acceptDeltaAndAdvanceMark item fromTimestamp nowMs mark).2 ∧
      ((acceptDeltaAndAdvanceMark item fromTimestamp nowMs mark).2 = mark ∨
        (acceptDeltaAndAdvanceMark item fromTimestamp nowMs mark).2 ≤
          nowMs + maxTimestampClockSkewMs) ∧
      ((acceptDeltaAndAdvanceMark item fromTimestamp nowMs mark).1 = none →
        (acceptDeltaAndAdvanceMark item fromTimestamp nowMs mark).2 = mark) := by
  cases item with
  | none => exact ⟨le_rfl, Or.inl rfl, fun _ => rfl⟩
  | some deployment =>
    unfold acceptDeltaAndAdvanceMark
    dsimp only
    split
    · exact ⟨le_rfl, Or.inl rfl, fun _ => rfl⟩
    · rename_i husable
      split
      · rename_i localTs hlocal
        have hle : localTs ≤ nowMs + maxTimestampClockSkewMs := by
          rw [hlocal] at husable
          simp only [isUsableTimestamp, Option.all_some] at husable
          simp at husable
          exact husable.2.2
        split
        · refine ⟨le_max_left _ _, ?_, fun hnone => nomatch hnone⟩
          rcases max_choice mark localTs with hmax | hmax
          · exact Or.inl hmax
          · exact Or.inr (hmax.trans_le hle)
        · exact ⟨le_rfl, Or.inl rfl, fun hnone => nomatch hnone⟩
      · exact ⟨le_rfl, Or.inl rfl, fun hnone => nomatch hnone⟩

theorem step_mark (s : PointerStream) (nowMs : Timestamp) (item : Option SyncDeployment) :
    (s.step entityTypeFilter (.delta nowMs item)).greatestTimestamp =
      (acceptDeltaAndAdvanceMark item s.fromTimestamp nowMs s.greatestTimestamp).2 := by
  unfold step
  dsimp only
  split
  · rename_i mark haccept
    rw [haccept]
  · rename_i deployment mark haccept
    rw [haccept]
    split
    · rfl
    · split
      · rfl
      · rfl

theorem eq_of_accepted {nowMs : Timestamp} {item : Option SyncDeployment}
    {deployment : SyncDeployment} (h : s.accepted nowMs item = some deployment) :
    item = some deployment := by
  unfold accepted acceptDeltaAndAdvanceMark at h
  split at h
  · cases h
  · dsimp only at h
    split at h
    · cases h
    · split at h
      · split at h
        · exact h
        · exact h
      · exact h

/-! ### Runs -/

section Runs

variable (entityTypeFilter : Option (List EntityType)) (fromTimestamp : Timestamp)

theorem run_inv (events : List StreamEvent) :
    (run entityTypeFilter fromTimestamp events).Inv entityTypeFilter := by
  induction events using List.reverseRecOn with
  | nil => exact ⟨fun fp hfp => absurd hfp (Finset.notMem_empty fp),
      fun fp hfp => absurd hfp (Finset.notMem_empty fp)⟩
  | append_singleton events e ih =>
    rw [run, List.foldl_concat]
    exact ih.step e

/-- The mark stays within the skew of any time that no page was read after. -/
theorem run_mark_le {nowMs : Timestamp} (hfrom : fromTimestamp ≤ nowMs + maxTimestampClockSkewMs)
    {events : List StreamEvent} (hnow : ∀ ts item, StreamEvent.delta ts item ∈ events → ts ≤ nowMs) :
    (run entityTypeFilter fromTimestamp events).greatestTimestamp ≤
      nowMs + maxTimestampClockSkewMs := by
  induction events using List.reverseRecOn with
  | nil => exact hfrom
  | append_singleton events e ih =>
    have hbefore := ih fun ts item he => hnow ts item (List.mem_append_left _ he)
    rw [run, List.foldl_concat]
    cases e with
    | boundary => exact hbefore
    | delta ts item =>
      have hts := hnow ts item (List.mem_append_right _ List.mem_cons_self)
      rw [step_mark]
      obtain ⟨-, hmoves, -⟩ := accept_mark item
        (run entityTypeFilter fromTimestamp events).fromTimestamp ts
        (run entityTypeFilter fromTimestamp events).greatestTimestamp
      rcases hmoves with hsame | hle
      · exact hsame.trans_le hbefore
      · exact hle.trans (Int.add_le_add_right hts _)

/-- In every state of a stream: a delta is skipped only if one of the same entity and
timestamps and of a type of the filter was handed to the deployer in an earlier poll. The mark
never decreases, moves only to timestamps within the skew of the time of the page, not at all
for a rejected delta, and so stays within the skew of any time from the start of the stream on
that no page was read after. -/
theorem suppression_never_drops (events : List StreamEvent) :
    let s := run entityTypeFilter fromTimestamp events
    (∀ nowMs deployment, s.skips nowMs (some deployment) = true →
      ∃ poll earlier, (poll, earlier) ∈ s.handed ∧ poll < s.polls ∧
        earlier.entityId = deployment.entityId ∧
        earlier.entityTimestamp = deployment.entityTimestamp ∧
        earlier.localTimestamp = deployment.localTimestamp ∧
        passes entityTypeFilter earlier.entityType = true) ∧
    (∀ e, s.greatestTimestamp ≤ (s.step entityTypeFilter e).greatestTimestamp) ∧
    (∀ nowMs item,
      ((s.step entityTypeFilter (.delta nowMs item)).greatestTimestamp = s.greatestTimestamp ∨
        (s.step entityTypeFilter (.delta nowMs item)).greatestTimestamp ≤
          nowMs + maxTimestampClockSkewMs) ∧
      (s.accepted nowMs item = none →
        (s.step entityTypeFilter (.delta nowMs item)).greatestTimestamp = s.greatestTimestamp)) ∧
    ∀ nowMs, fromTimestamp ≤ nowMs + maxTimestampClockSkewMs →
      (∀ ts item, StreamEvent.delta ts item ∈ events → ts ≤ nowMs) →
      s.greatestTimestamp ≤ nowMs + maxTimestampClockSkewMs := by
  intro s
  have hinv : s.Inv entityTypeFilter := run_inv entityTypeFilter fromTimestamp events
  refine ⟨fun nowMs deployment hskip => ?_, fun e => ?_, fun nowMs item => ?_,
    fun nowMs hfrom hnow => run_mark_le entityTypeFilter fromTimestamp hfrom hnow⟩
  · obtain ⟨d, hd, hskip⟩ := (Option.any_eq_true _ _).mp hskip
    obtain rfl : deployment = d := Option.some.inj (eq_of_accepted hd)
    obtain ⟨fp, hfp, hprint⟩ := BoundaryTracker.mem_suppress_of_skipped hskip
    obtain ⟨poll, earlier, hmem, hlt, hearlier, hpasses⟩ := hinv.suppress fp hfp
    obtain ⟨ts, hts, heq⟩ := Option.map_eq_some_iff.mp hprint
    obtain ⟨ts', hts', heq'⟩ := Option.map_eq_some_iff.mp hearlier
    rw [← heq, Prod.mk.injEq, Prod.mk.injEq] at heq'
    exact ⟨poll, earlier, hmem, hlt, heq'.1, heq'.2.1, by rw [hts, hts', heq'.2.2], hpasses⟩
  · cases e with
    | boundary => exact le_rfl
    | delta nowMs item =>
      rw [step_mark]
      exact (accept_mark item s.fromTimestamp nowMs s.greatestTimestamp).1
  · rw [step_mark]
    exact (accept_mark item s.fromTimestamp nowMs s.greatestTimestamp).2

end Runs

/-- Two polls with a row at the mark, which the second one skips. -/
example : ((run none 5 [.delta 9 (some ⟨['a'], ['s'], 7, some 7⟩), .boundary]).skips 9
    (some ⟨['a'], ['s'], 7, some 7⟩)) = true := by decide

end PointerStream

end Catalyrst.Sync
