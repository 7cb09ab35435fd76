import Catalyrst.Sync.Deployer

/-!
# Retrying failed deployments (`retry_failed.rs`)

A retry cycle reads the rows of `failed_deployments` and deploys each of them again. The
deployment is over as soon as the entity is in the deployer's buffer, and the row is
deleted then; the flush of the buffer is up to another task. A crash takes everything
that is not in the database.
-/

namespace Catalyrst.Sync

open Catalyrst.Lib

/-- Where one item of a cycle stands. -/
inductive RetryStage where
  /-- In `deploy_entity_streaming`. -/
  | deploying
  /-- `deploy_entity` has taken the full buffer and is about to trigger its flush. -/
  | triggering (entities : List ParsedEntity)
  /-- Deployed; the row is to be removed. -/
  | removing
  | gone
  deriving DecidableEq

structure Retry where
  entityId : EntityId
  stage : RetryStage

structure Retrier where
  deployer : Deployer
  retries : List Retry
  /-- Every entity that was ever recorded in `failed_deployments`. -/
  recorded : Finset EntityId

namespace Retrier

def new : Retrier := ⟨Deployer.new, [], ∅⟩

/-- What was recorded since. -/
def withDeployer (s : Retrier) (d : Deployer) : Retrier :=
  { s with deployer := d, recorded := s.recorded ∪ d.failedDeployments }

def setRetry (s : Retrier) (i : ℕ) (r : Retry) (stage : RetryStage) : Retrier :=
  { s with retries := s.retries.set i { r with stage := stage } }

/-- `execute_retry_cycle` reads the rows; `ok` is how the read goes. Without servers the cycle
ends there. The order of the rows is the list's. -/
def startCycle (s : Retrier) (ok : Bool) (servers : ℕ) (rows : List EntityId) : Option Retrier :=
  if !ok || decide (servers = 0) then some s
  else if rows.Nodup ∧ rows.toFinset = s.deployer.failedDeployments then
    some { s with retries := s.retries ++ rows.map fun id => ⟨id, .deploying⟩ }
  else none

/-- The next step of an item; `ok` is how its deployment or the removal of its row goes. -/
def retryStep (s : Retrier) (i : ℕ) (ok : Bool) : Option Retrier :=
  s.retries[i]?.bind fun r =>
    match r.stage with
    | .deploying =>
      if ok then
        let buf := s.deployer.batch ++ [⟨r.entityId, none⟩]
        if batchSize ≤ buf.length then
          some ({ s with deployer := { s.deployer with batch := [] } }.setRetry i r (.triggering buf))
        else some ({ s with deployer := { s.deployer with batch := buf } }.setRetry i r .removing)
      else some (s.setRetry i r .gone)
    | .triggering entities =>
      some ({ s with deployer := s.deployer.spawnFlush entities }.setRetry i r .removing)
    | .removing =>
      if ok then
        some ({ s with deployer := { s.deployer with
          failedDeployments := s.deployer.failedDeployments.erase r.entityId } }.setRetry i r .gone)
      else some (s.setRetry i r .gone)
    | .gone => none

/-- The process starts again over the same database. -/
def crash (s : Retrier) : Retrier :=
  { s with
    deployer := { Deployer.new with
      deployments := s.deployer.deployments
      failedDeployments := s.deployer.failedDeployments }
    retries := [] }

inductive Action where
  | deployer (a : Deployer.Action)
  | cycle (ok : Bool) (servers : ℕ) (rows : List EntityId)
  | retry (i : ℕ) (ok : Bool)
  | crash
  deriving DecidableEq

def step (s : Retrier) : Action → Option Retrier
  | .deployer a => (s.deployer.step a).map s.withDeployer
  | .cycle ok servers rows => s.startCycle ok servers rows
  | .retry i ok => s.retryStep i ok
  | .crash => some s.crash

/-- What was recorded is deployed or still recorded. -/
def Kept (s : Retrier) : Prop :=
  ∀ id ∈ s.recorded, id ∈ s.deployer.deployments ∨ id ∈ s.deployer.failedDeployments

instance (s : Retrier) : Decidable s.Kept :=
  inferInstanceAs (Decidable (∀ id ∈ s.recorded, _))

/-- A row is only removed once its entity is in `deployments`. -/
def Committed (s : Retrier) : Action → Prop
  | .retry i true => ∀ r ∈ s.retries[i]?, r.stage = .removing → r.entityId ∈ s.deployer.deployments
  | _ => True

instance (s : Retrier) (a : Action) : Decidable (s.Committed a) :=
  match a with
  | .retry i true => Option.decidableForallMem s.retries[i]?
  | .retry _ false => isTrue trivial
  | .deployer _ => isTrue trivial
  | .cycle _ _ _ => isTrue trivial
  | .crash => isTrue trivial

end Retrier

namespace Deployer

variable {s t : Deployer}

/-- Rows are only ever added to the two tables. -/
structure Extends (s t : Deployer) : Prop where
  deployments : s.deployments ⊆ t.deployments
  failedDeployments : s.failedDeployments ⊆ t.failedDeployments

theorem Extends.of_eq (hd : t.deployments = s.deployments)
    (hf : t.failedDeployments = s.failedDeployments) : Extends s t :=
  ⟨hd ▸ Finset.Subset.refl _, hf ▸ Finset.Subset.refl _⟩

theorem spawnFlush_extends (s : Deployer) (entities : List ParsedEntity) :
    Extends s (s.spawnFlush entities) := by
  rw [s.spawnFlush_eq entities]
  exact Extends.of_eq rfl rfl

theorem taskStep_extends {i : ℕ} {ok : Bool} (h : s.taskStep i ok = some t) : Extends s t := by
  obtain ⟨task, -, hmove⟩ := taskStep_move h
  cases hmove with
  | @trigger entities hst =>
    have hspawn := s.spawnFlush_extends entities
    exact ⟨hspawn.deployments, hspawn.failedDeployments⟩
  | record hst => exact ⟨Finset.Subset.refl _, Finset.subset_insert _ _⟩
  | _ => exact Extends.of_eq rfl rfl

theorem flushStep_extends {j : ℕ} {ok : Bool} (h : s.flushStep j ok = some t) : Extends s t := by
  obtain ⟨f, -, hmove⟩ := flushStep_move h
  cases hmove with
  | write hst => exact ⟨Finset.subset_union_left, Finset.Subset.refl _⟩
  | record hst hnew => exact ⟨Finset.Subset.refl _, Finset.subset_insert _ _⟩
  | _ => exact Extends.of_eq rfl rfl

theorem timerStep_extends (h : s.timerStep = some t) : Extends s t := by
  unfold timerStep at h
  split at h
  · split at h
    · cases h
    · exact Option.some.inj h ▸ Extends.of_eq rfl rfl
  · rename_i entities _
    obtain rfl := Option.some.inj h
    have hspawn := s.spawnFlush_extends entities
    exact ⟨hspawn.deployments, hspawn.failedDeployments⟩

theorem drainStep_extends {k : ℕ} (h : s.drainStep k = some t) : Extends s t := by
  obtain ⟨d, -, hmove⟩ := drainStep_move h
  cases hmove with
  | @trigger entities hst =>
    have hspawn := s.spawnFlush_extends entities
    exact ⟨hspawn.deployments, hspawn.failedDeployments⟩
  | _ => exact Extends.of_eq rfl rfl

theorem step_extends {a : Action} (h : s.step a = some t) : Extends s t := by
  cases a with
  | schedule entity => exact Option.some.inj h ▸ Extends.of_eq rfl rfl
  | onIdle r => exact Option.some.inj h ▸ Extends.of_eq rfl rfl
  | task i ok => exact taskStep_extends h
  | flush j ok => exact flushStep_extends h
  | timer => exact timerStep_extends h
  | drain k => exact drainStep_extends h

end Deployer

namespace Retrier

variable {s t : Retrier}

/-- Nothing was dropped, every row and every item of a cycle was recorded. -/
structure Inv (s : Retrier) : Prop where
  kept : s.Kept
  rows : s.deployer.failedDeployments ⊆ s.recorded
  items : ∀ r ∈ s.retries, r.entityId ∈ s.recorded

theorem inv_new : new.Inv where
  kept _ h := absurd h (Finset.notMem_empty _)
  rows := Finset.Subset.refl _
  items _ h := nomatch h

theorem items_set (h : ∀ r ∈ s.retries, r.entityId ∈ s.recorded) {i : ℕ} {r : Retry}
    (hr : s.retries[i]? = some r) (stage : RetryStage) :
    ∀ q ∈ s.retries.set i { r with stage := stage }, q.entityId ∈ s.recorded := by
  intro q hq
  rcases List.mem_or_eq_of_mem_set hq with hq | rfl
  · exact h q hq
  · exact h r (List.mem_iff_getElem?.mpr ⟨i, hr⟩)

/-- The tables and what was recorded stay as they are. -/
theorem Inv.frame (h : s.Inv) (hd : t.deployer.deployments = s.deployer.deployments)
    (hf : t.deployer.failedDeployments = s.deployer.failedDeployments)
    (hrec : t.recorded = s.recorded) (hitems : ∀ r ∈ t.retries, r.entityId ∈ s.recorded) : t.Inv where
  kept := by
    unfold Kept
    rw [hd, hf, hrec]
    exact h.kept
  rows := by
    rw [hf, hrec]
    exact h.rows
  items := by
    rw [hrec]
    exact hitems

/-- What a step of an item does: the tables stay, or its row is removed. -/
theorem retryStep_cases {i : ℕ} {ok : Bool} (h : s.retryStep i ok = some t) :
    ∃ r stage, s.retries[i]? = some r ∧ t.retries = s.retries.set i { r with stage := stage } ∧
      t.recorded = s.recorded ∧ t.deployer.deployments = s.deployer.deployments ∧
      (t.deployer.failedDeployments = s.deployer.failedDeployments ∧
          ¬ (r.stage = .removing ∧ ok = true) ∨
        r.stage = .removing ∧ ok = true ∧
          t.deployer.failedDeployments = s.deployer.failedDeployments.erase r.entityId) := by
  obtain ⟨r, hr, h⟩ := Option.bind_eq_some_iff.mp h
  refine ⟨r, ?_⟩
  cases hstage : r.stage with
  | deploying =>
    simp only [hstage] at h
    split at h
    · split at h
      · obtain rfl := Option.some.inj h
        exact ⟨_, hr, rfl, rfl, rfl, Or.inl ⟨rfl, fun hrem => (nomatch hrem.1)⟩⟩
      · obtain rfl := Option.some.inj h
        exact ⟨_, hr, rfl, rfl, rfl, Or.inl ⟨rfl, fun hrem => (nomatch hrem.1)⟩⟩
    · obtain rfl := Option.some.inj h
      exact ⟨_, hr, rfl, rfl, rfl, Or.inl ⟨rfl, fun hrem => (nomatch hrem.1)⟩⟩
  | triggering entities =>
    simp only [hstage, Option.some.injEq] at h
    subst h
    rw [s.deployer.spawnFlush_eq entities]
    exact ⟨_, hr, rfl, rfl, rfl, Or.inl ⟨rfl, fun hrem => (nomatch hrem.1)⟩⟩
  | removing =>
    simp only [hstage] at h
    cases ok with
    | true =>
      obtain rfl := Option.some.inj h
      exact ⟨_, hr, rfl, rfl, rfl, Or.inr ⟨rfl, rfl, rfl⟩⟩
    | false =>
      obtain rfl := Option.some.inj h
      exact ⟨_, hr, rfl, rfl, rfl, Or.inl ⟨rfl, fun hrem => (nomatch hrem.2)⟩⟩
  | gone =>
    simp only [hstage] at h
    cases h

theorem Inv.deployer (h : s.Inv) {d : Deployer} (hext : Deployer.Extends s.deployer d) :
    (s.withDeployer d).Inv where
  kept := by
    intro id hid
    rcases Finset.mem_union.mp hid with hid | hid
    · rcases h.kept id hid with hd | hf
      · exact Or.inl (hext.deployments hd)
      · exact Or.inr (hext.failedDeployments hf)
    · exact Or.inr hid
  rows := Finset.subset_union_right
  items r hr := Finset.mem_union_left _ (h.items r hr)

theorem Inv.cycle (h : s.Inv) {ok : Bool} {servers : ℕ} {rows : List EntityId}
    (hs : s.startCycle ok servers rows = some t) : t.Inv := by
  unfold startCycle at hs
  split at hs
  · exact Option.some.inj hs ▸ h
  · split at hs
    · rename_i hrows
      obtain rfl := Option.some.inj hs
      refine h.frame rfl rfl rfl fun r hr => ?_
      rcases List.mem_append.mp hr with hr | hr
      · exact h.items r hr
      · obtain ⟨id, hid, rfl⟩ := List.mem_map.mp hr
        exact h.rows (hrows.2 ▸ List.mem_toFinset.mpr hid)
    · cases hs

/-- A removed row was recorded: it is missed unless its entity is deployed. -/
theorem Inv.retry (h : s.Inv) {i : ℕ} {ok : Bool} (hs : s.retryStep i ok = some t) :
    (s.Committed (.retry i ok) → t.Inv) ∧ (t.Kept → s.Committed (.retry i ok)) := by
  obtain ⟨r, stage, hr, hretries, hrec, hd, hcase⟩ := retryStep_cases hs
  have hitems : ∀ q ∈ t.retries, q.entityId ∈ s.recorded := by
    rw [hretries]
    exact items_set h.items hr stage
  rcases hcase with ⟨hf, hnot⟩ | ⟨hremoving, rfl, hf⟩
  · refine ⟨fun _ => h.frame hd hf hrec hitems, fun _ => ?_⟩
    cases ok with
    | false => exact trivial
    | true =>
      intro q hq hstage
      rw [hr] at hq
      exact absurd ⟨Option.some.inj hq ▸ hstage, rfl⟩ hnot
  · refine ⟨fun hok => ⟨?_, ?_, hrec ▸ hitems⟩, fun hkept q hq _ => ?_⟩
    · intro id hid
      rw [hd, hf]
      by_cases hid' : id = r.entityId
      · exact Or.inl (hid' ▸ hok r hr hremoving)
      · rcases h.kept id (hrec ▸ hid) with hin | hin
        · exact Or.inl hin
        · exact Or.inr (Finset.mem_erase.mpr ⟨hid', hin⟩)
    · rw [hf, hrec]
      exact (Finset.erase_subset _ _).trans h.rows
    · rw [hr] at hq
      obtain rfl := Option.some.inj hq
      rcases hkept r.entityId (hrec ▸ h.items r (List.mem_iff_getElem?.mpr ⟨i, hr⟩)) with hin | hin
      · exact hd ▸ hin
      · rw [hf] at hin
        exact absurd rfl (Finset.mem_erase.mp hin).1

/-- One step keeps everything exactly if it does not remove the row of an entity that is not
deployed. -/
theorem Inv.step (h : s.Inv) {a : Action} (hs : s.step a = some t) :
    (s.Committed a → t.Inv) ∧ (t.Kept → s.Committed a) := by
  cases a with
  | deployer a =>
    obtain ⟨d, hd, rfl⟩ := Option.map_eq_some_iff.mp hs
    exact ⟨fun _ => h.deployer (Deployer.step_extends hd), fun _ => trivial⟩
  | cycle ok servers rows => exact ⟨fun _ => h.cycle hs, fun _ => trivial⟩
  | retry i ok => exact h.retry hs
  | crash =>
    obtain rfl := Option.some.inj hs
    exact ⟨fun _ => h.frame rfl rfl rfl fun r hr => (nomatch hr), fun _ => trivial⟩

/-- An item whose row is to be removed can always go on. -/
theorem committed_of_disabled {a : Action} (h : s.step a = none) : s.Committed a := by
  cases a with
  | deployer a => exact trivial
  | cycle ok servers rows => exact trivial
  | crash => exact trivial
  | retry i ok =>
    cases ok with
    | false => exact trivial
    | true =>
      intro r hr hstage
      have hs : s.retryStep i true = none := h
      rw [retryStep, Option.mem_def.mp hr] at hs
      simp [hstage] at hs

theorem Inv.committed_iff (h : s.Inv) (a : Action) :
    s.Committed a ↔ ∀ t, s.step a = some t → t.Kept := by
  refine ⟨fun hok t ht => ((h.step ht).1 hok).kept, fun hkept => ?_⟩
  cases hs : s.step a with
  | none => exact committed_of_disabled hs
  | some t => exact (h.step hs).2 (hkept t hs)

end Retrier

/-- A run keeps every recorded entity, in every state it goes through, exactly if every removal of
a row finds the entity in `deployments`. -/
theorem recorded_kept_iff (actions : List Retrier.Action) :
    Machine.Meets Retrier.step (fun s a => ∀ t, s.step a = some t → t.Kept) Retrier.new actions ↔
      Machine.Meets Retrier.step Retrier.Committed Retrier.new actions := by
  constructor
  · exact Machine.meets_of_invariant Retrier.step (P := Retrier.Inv)
      (fun s a t h hkept ht => (h.step ht).1 ((h.committed_iff a).mpr hkept))
      (fun s a h hkept => (h.committed_iff a).mpr hkept) actions _ Retrier.inv_new
  · exact Machine.meets_of_invariant Retrier.step (P := Retrier.Inv)
      (fun s a t h hok ht => (h.step ht).1 hok)
      (fun s a h hok => (h.committed_iff a).mp hok) actions _ Retrier.inv_new

/-! An entity fails to deploy and is recorded. A cycle deploys it again, into the buffer, and
removes the row. -/

def failsThenRetried : List Retrier.Action :=
  [.deployer (.schedule ⟨['e'], none⟩), .deployer (.task 0 true), .deployer (.task 0 false),
    .deployer (.task 0 true), .cycle true 1 [['e']], .retry 0 true, .retry 0 true]

/-- In between the entity is in neither table, and a crash then loses it for good. -/
theorem recorded_not_kept :
    ¬ ∀ (actions : List Retrier.Action) (s : Retrier),
      Machine.run Retrier.step Retrier.new actions = some s → s.Kept := by
  have hrun : ((Machine.run Retrier.step Retrier.new (failsThenRetried ++ [.crash])).map fun s =>
      (decide s.Kept, s.deployer.batch)) = some (false, []) := by decide
  obtain ⟨s, hs, heq⟩ := Option.map_eq_some_iff.mp hrun
  simp only [Prod.mk.injEq, decide_eq_false_iff_not] at heq
  intro h
  exact heq.1 (h _ s hs)

end Catalyrst.Sync
