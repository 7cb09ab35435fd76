import Mathlib
import Catalyrst.Sync.Deployer

/-!
# Polls of a pointer-changes stream

A poll reads the changes of a peer from a timestamp on, in the order of the peer's
own timestamps. Every change with plausible timestamps moves the tentative mark of
the stream; the changes whose type passes the filter are handed to the deployer.
The mark is thus also moved by changes the filter leaves out.
-/

namespace Catalyrst.Sync

/-- Milliseconds. -/
abbrev Timestamp := ℤ

abbrev EntityType := List Char

structure SyncDeployment where
  entityId : EntityId
  entityType : EntityType
  entityTimestamp : Timestamp
  localTimestamp : Option Timestamp
  deriving DecidableEq

def maxTimestampClockSkewMs : Timestamp := 24 * 60 * 60 * 1000

def isUsableTimestamp (ts nowMs : Timestamp) : Bool :=
  decide (0 ≤ ts ∧ ts ≤ nowMs + maxTimestampClockSkewMs)

/-- The deployment of a change to be scheduled, with the mark after it. A change that does not
parse is `none`. -/
def acceptDeltaAndAdvanceMark (item : Option SyncDeployment) (fromTimestamp nowMs : Timestamp)
    (greatestTimestamp : Timestamp) : Option SyncDeployment × Timestamp :=
  match item with
  | none => (none, greatestTimestamp)
  | some deployment =>
    let entityTsOk := isUsableTimestamp deployment.entityTimestamp nowMs
    let localTsOk := deployment.localTimestamp.all fun ts => isUsableTimestamp ts nowMs
    if !entityTsOk || !localTsOk then (none, greatestTimestamp)
    else
      match deployment.localTimestamp with
      | some localTs =>
        if fromTimestamp ≤ localTs then (some deployment, max greatestTimestamp localTs)
        else (some deployment, greatestTimestamp)
      | none => (some deployment, greatestTimestamp)

/-- Whether a type passes a filter; no filter lets every type pass. -/
def passes (entityTypeFilter : Option (List EntityType)) (t : EntityType) : Bool :=
  entityTypeFilter.all fun types => decide (t ∈ types)

/-- The mark after a list of changes, and what they hand to the deployer. -/
def readItems (entityTypeFilter : Option (List EntityType)) (fromTimestamp nowMs : Timestamp) :
    Timestamp → List (Option SyncDeployment) → Timestamp × List SyncDeployment
  | mark, [] => (mark, [])
  | mark, item :: items =>
    match acceptDeltaAndAdvanceMark item fromTimestamp nowMs mark with
    | (none, mark') => readItems entityTypeFilter fromTimestamp nowMs mark' items
    | (some deployment, mark') =>
      let rest := readItems entityTypeFilter fromTimestamp nowMs mark' items
      if passes entityTypeFilter deployment.entityType then (rest.1, deployment :: rest.2)
      else rest

/-! ### A peer's history -/

/-- A deployment in the history of a peer, at the peer's own time. -/
structure Change where
  entityId : EntityId
  entityType : EntityType
  entityTimestamp : Timestamp
  localTimestamp : Timestamp
  deriving DecidableEq

def Change.delta (c : Change) : SyncDeployment :=
  ⟨c.entityId, c.entityType, c.entityTimestamp, some c.localTimestamp⟩

def Change.plausibleTimes (c : Change) (nowMs : Timestamp) : Bool :=
  isUsableTimestamp c.entityTimestamp nowMs && isUsableTimestamp c.localTimestamp nowMs

/-- What a peer with the given history serves up to the time `horizon` of its last page. -/
def served (history : List Change) (fromTimestamp horizon : Timestamp) :
    List (Option SyncDeployment) :=
  (history.filter fun c =>
    decide (fromTimestamp ≤ c.localTimestamp ∧ c.localTimestamp ≤ horizon)).map
      fun c => some c.delta

theorem accept_of_plausibleTimes {c : Change} {fromTimestamp nowMs mark : Timestamp}
    (hp : c.plausibleTimes nowMs = true) (hfrom : fromTimestamp ≤ c.localTimestamp) :
    acceptDeltaAndAdvanceMark (some c.delta) fromTimestamp nowMs mark =
      (some c.delta, max mark c.localTimestamp) := by
  simp only [Change.plausibleTimes, Bool.and_eq_true] at hp
  simp [acceptDeltaAndAdvanceMark, Change.delta, hp.1, hp.2, hfrom]

theorem accept_of_wrongTimes {c : Change} {fromTimestamp nowMs mark : Timestamp}
    (hp : c.plausibleTimes nowMs = false) :
    acceptDeltaAndAdvanceMark (some c.delta) fromTimestamp nowMs mark = (none, mark) := by
  have hbad : (!isUsableTimestamp c.entityTimestamp nowMs ||
      !isUsableTimestamp c.localTimestamp nowMs) = true := by
    rw [← Bool.not_and]
    rw [Change.plausibleTimes] at hp
    rw [hp]
    rfl
  simp only [acceptDeltaAndAdvanceMark, Change.delta, Option.all_some, hbad, if_true]

section

variable {filter : Option (List EntityType)} {fromTimestamp nowMs : Timestamp}

/-- The mark is the one before, or that of a plausible change. -/
theorem readItems_mark {cs : List Change} (mark : Timestamp)
    (hfrom : ∀ c ∈ cs, fromTimestamp ≤ c.localTimestamp) :
    (readItems filter fromTimestamp nowMs mark (cs.map fun c => some c.delta)).1 = mark ∨
      ∃ c ∈ cs, c.plausibleTimes nowMs = true ∧ c.localTimestamp =
        (readItems filter fromTimestamp nowMs mark (cs.map fun c => some c.delta)).1 := by
  induction cs generalizing mark with
  | nil => exact .inl rfl
  | cons c cs ih =>
    have hrest := fun m => ih m fun d hd => hfrom d (List.mem_cons_of_mem c hd)
    rw [List.map_cons]
    unfold readItems
    cases hp : c.plausibleTimes nowMs with
    | true =>
      rw [accept_of_plausibleTimes hp (hfrom c List.mem_cons_self)]
      dsimp only
      have hmark : ∀ m, (m = max mark c.localTimestamp ∨
          ∃ d ∈ cs, d.plausibleTimes nowMs = true ∧ d.localTimestamp = m) →
          m = mark ∨ ∃ d ∈ c :: cs, d.plausibleTimes nowMs = true ∧ d.localTimestamp = m := by
        rintro m (rfl | ⟨d, hd, h⟩)
        · rcases max_choice mark c.localTimestamp with hm | hm
          · exact .inl hm
          · exact .inr ⟨c, List.mem_cons_self, hp, hm.symm⟩
        · exact .inr ⟨d, List.mem_cons_of_mem c hd, h⟩
      split
      · exact hmark _ (hrest _)
      · exact hmark _ (hrest _)
    | false =>
      rw [accept_of_wrongTimes hp]
      rcases hrest mark with h | ⟨d, hd, h⟩
      · exact .inl h
      · exact .inr ⟨d, List.mem_cons_of_mem c hd, h⟩

theorem le_readItems_mark {cs : List Change} (mark : Timestamp)
    (hfrom : ∀ c ∈ cs, fromTimestamp ≤ c.localTimestamp) :
    mark ≤ (readItems filter fromTimestamp nowMs mark (cs.map fun c => some c.delta)).1 := by
  induction cs generalizing mark with
  | nil => exact le_rfl
  | cons c cs ih =>
    have hrest := fun m => ih m fun d hd => hfrom d (List.mem_cons_of_mem c hd)
    rw [List.map_cons]
    unfold readItems
    cases hp : c.plausibleTimes nowMs with
    | true =>
      rw [accept_of_plausibleTimes hp (hfrom c List.mem_cons_self)]
      dsimp only
      split
      · exact (le_max_left _ _).trans (hrest _)
      · exact (le_max_left _ _).trans (hrest _)
    | false =>
      rw [accept_of_wrongTimes hp]
      exact hrest mark

/-- A plausible change whose type passes the filter is handed to the deployer. -/
theorem mem_readItems {cs : List Change} (mark : Timestamp) {c : Change}
    (hfrom : ∀ c ∈ cs, fromTimestamp ≤ c.localTimestamp) (hc : c ∈ cs)
    (hp : c.plausibleTimes nowMs = true) (htype : passes filter c.entityType = true) :
    c.delta ∈
      (readItems filter fromTimestamp nowMs mark (cs.map fun c => some c.delta)).2 := by
  induction cs generalizing mark with
  | nil => exact absurd hc List.not_mem_nil
  | cons d cs ih =>
    have hrest := fun m => ih m fun d hd => hfrom d (List.mem_cons_of_mem _ hd)
    rw [List.map_cons]
    unfold readItems
    cases hd : d.plausibleTimes nowMs with
    | true =>
      rw [accept_of_plausibleTimes hd (hfrom d List.mem_cons_self)]
      dsimp only
      rcases List.mem_cons.mp hc with rfl | hc
      · rw [show passes filter c.delta.entityType = true from htype, if_pos rfl]
        exact List.mem_cons_self
      · split
        · exact List.mem_cons_of_mem _ (hrest _ hc)
        · exact hrest _ hc
    | false =>
      rw [accept_of_wrongTimes hd]
      rcases List.mem_cons.mp hc with rfl | hc
      · rw [hp] at hd
        cases hd
      · exact hrest mark hc

end

end Catalyrst.Sync
