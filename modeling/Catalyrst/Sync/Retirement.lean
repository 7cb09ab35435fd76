import Mathlib
import Catalyrst.Sync.Deployer
import Catalyrst.Sync.Orchestrator

/-!
# Retiring snapshots

The end of a snapshot pass judges its snapshots one after another, against two sets that
outlive the pass: the snapshots that failed in some pass, and those a slice that does not
mark has deployed cleanly. A snapshot is retired only when the clean passes since its last
failure let every synced type through.
-/

namespace Catalyrst.Sync

abbrev ServerUrl := List Char

/-- A snapshot of a pass, once the deployer has drained. -/
structure PassEntry where
  hash : Hash
  /-- The servers that advertise it. -/
  servers : List ServerUrl
  /-- Whether `deploy_entities_from_snapshot` returned an error. -/
  deployFailed : Bool
  report : DeploymentReport

/-- Which of its calls a pass of `bootstrap_from_snapshots` comes from. -/
inductive Slice where
  | nonProfile
  | profile
  /-- A full bootstrap, or a round for the servers held back. -/
  | all
  deriving DecidableEq

namespace Slice

def filter (cfg : SyncOrchestratorConfig) : Slice → Option (List EntityType)
  | .nonProfile => some cfg.nonProfileFilter
  | .profile => some [profileType]
  | .all => cfg.entityTypes

def markProcessed : Slice → Bool
  | .nonProfile => false
  | .profile => true
  | .all => true

end Slice

structure JudgedPass where
  slice : Slice
  entries : List PassEntry
  heldFromFetch : List ServerUrl

namespace JudgedPass

/-- `failed_hashes`: deploy errors, reports that are not complete, and losses. -/
def failedHashes (p : JudgedPass) : List Hash :=
  (p.entries.filter fun e => e.deployFailed || !e.report.isComplete || decide (0 < e.report.lost)).map
    PassEntry.hash

def FailedFor (p : JudgedPass) (h : Hash) : Prop := h ∈ p.failedHashes

instance (p : JudgedPass) (h : Hash) : Decidable (p.FailedFor h) :=
  inferInstanceAs (Decidable (h ∈ p.failedHashes))

def CleanFor (p : JudgedPass) (h : Hash) : Prop :=
  h ∈ p.entries.map PassEntry.hash ∧ ¬ p.FailedFor h

end JudgedPass

/-- `failed_snapshot_hashes` and `unmarked_clean_snapshots`. -/
structure Bookkeeping where
  failed : Finset Hash
  cleanUnmarked : Finset Hash

/-- The bookkeeping with what the loop over a pass collects. -/
structure Verdicts extends Bookkeeping where
  held : List ServerUrl
  toMark : List Hash

namespace Bookkeeping

variable (cfg : SyncOrchestratorConfig)

def new : Bookkeeping := ⟨∅, ∅⟩

def verdict (p : JudgedPass) (b : Bookkeeping) (h : Hash) : SnapshotPassVerdict :=
  snapshotPassVerdict (decide (h ∈ p.failedHashes)) p.slice.markProcessed
    (passCoversAllSyncedTypes (p.slice.filter cfg) cfg.entityTypes) (decide (h ∈ b.failed))
    (decide (h ∈ b.cleanUnmarked))

/-- The body of the loop over the snapshots of the pass. -/
def judgeEntry (p : JudgedPass) (v : Verdicts) (e : PassEntry) : Verdicts :=
  match verdict cfg p v.toBookkeeping e.hash with
  | .failed =>
    { v with
      failed := insert e.hash v.failed
      cleanUnmarked := v.cleanUnmarked.erase e.hash
      held := v.held ++ e.servers }
  | .cleanUnmarked => { v with cleanUnmarked := insert e.hash v.cleanUnmarked }
  | .retire =>
    { v with
      failed := v.failed.erase e.hash
      cleanUnmarked := v.cleanUnmarked.erase e.hash
      toMark := v.toMark ++ [e.hash] }
  | .unproven => { v with held := v.held ++ e.servers }

def judge (b : Bookkeeping) (p : JudgedPass) : Verdicts :=
  p.entries.foldl (judgeEntry cfg p) ⟨b, p.heldFromFetch, []⟩

inductive Action where
  | pass (p : JudgedPass)
  /-- A pass that returns an error before it judges anything. -/
  | abandoned
  /-- Every server syncs: both sets are cleared. -/
  | forget

def step (b : Bookkeeping) : Action → Bookkeeping
  | .pass p => (judge cfg b p).toBookkeeping
  | .abandoned => b
  | .forget => new

/-- The sets after a process has run the passes. -/
def after (steps : List Action) : Bookkeeping := steps.foldl (step cfg) new

end Bookkeeping

section Verdicts

variable {cfg : SyncOrchestratorConfig} {p : JudgedPass} {b : Bookkeeping} {h : Hash}

theorem verdict_failed : Bookkeeping.verdict cfg p b h = .failed ↔ p.FailedFor h :=
  snapshotPassVerdict_failed.trans decide_eq_true_iff

/-- Only the slice that does not mark leaves a snapshot clean and unmarked. -/
theorem slice_of_cleanUnmarked (hv : Bookkeeping.verdict cfg p b h = .cleanUnmarked) :
    ¬ p.FailedFor h ∧ p.slice = .nonProfile := by
  obtain ⟨hfailed, hmark⟩ := snapshotPassVerdict_cleanUnmarked hv
  refine ⟨of_decide_eq_false hfailed, ?_⟩
  cases hs : p.slice with
  | nonProfile => rfl
  | profile => simp [hs, Slice.markProcessed] at hmark
  | all => simp [hs, Slice.markProcessed] at hmark

theorem covers_or_clean_of_retire (hv : Bookkeeping.verdict cfg p b h = .retire) :
    ¬ p.FailedFor h ∧ p.slice.markProcessed = true ∧
      (passCoversAllSyncedTypes (p.slice.filter cfg) cfg.entityTypes = true ∨
        h ∈ b.cleanUnmarked) := by
  obtain ⟨hfailed, hmark, hcase⟩ := snapshotPassVerdict_retire hv
  exact ⟨of_decide_eq_false hfailed, hmark, hcase.imp id of_decide_eq_true⟩

/-- Where a snapshot that is clean and unmarked after the loop was so from. -/
def StillClean (p : JudgedPass) (entries : List PassEntry) (b : Bookkeeping) (h : Hash) : Prop :=
  (h ∈ b.cleanUnmarked ∧ (h ∈ entries.map PassEntry.hash → ¬ p.FailedFor h)) ∨
    (h ∈ entries.map PassEntry.hash ∧ ¬ p.FailedFor h ∧ p.slice = .nonProfile)

theorem judgeEntry_clean {v : Verdicts} {e : PassEntry}
    (hmem : h ∈ (Bookkeeping.judgeEntry cfg p v e).cleanUnmarked) :
    StillClean p [e] v.toBookkeeping h := by
  unfold Bookkeeping.judgeEntry at hmem
  split at hmem
  · rename_i hv
    obtain ⟨hne, hold⟩ := Finset.mem_erase.mp hmem
    exact Or.inl ⟨hold, fun he => absurd (List.mem_singleton.mp he) hne⟩
  · rename_i hv
    obtain ⟨hclean, hslice⟩ := slice_of_cleanUnmarked hv
    rcases Finset.mem_insert.mp hmem with rfl | hold
    · exact Or.inr ⟨List.mem_singleton.mpr rfl, hclean, hslice⟩
    · refine Or.inl ⟨hold, fun he => ?_⟩
      rw [List.mem_singleton.mp he]
      exact hclean
  · obtain ⟨hne, hold⟩ := Finset.mem_erase.mp hmem
    exact Or.inl ⟨hold, fun he => absurd (List.mem_singleton.mp he) hne⟩
  · rename_i hv
    refine Or.inl ⟨hmem, fun he hf => ?_⟩
    rw [List.mem_singleton.mp he] at hf
    rw [verdict_failed.mpr hf] at hv
    cases hv

theorem foldl_clean {entries : List PassEntry} {v : Verdicts}
    (hmem : h ∈ (entries.foldl (Bookkeeping.judgeEntry cfg p) v).cleanUnmarked) :
    StillClean p entries v.toBookkeeping h := by
  induction entries generalizing v with
  | nil => exact Or.inl ⟨hmem, fun he => nomatch he⟩
  | cons e entries ih =>
    rcases ih hmem with ⟨hone, hrest⟩ | ⟨hin, hclean, hslice⟩
    · rcases judgeEntry_clean hone with ⟨hold, hfirst⟩ | ⟨hin, hclean, hslice⟩
      · refine Or.inl ⟨hold, fun he => ?_⟩
        rcases List.mem_cons.mp he with he | he
        · exact hfirst (List.mem_singleton.mpr he)
        · exact hrest he
      · exact Or.inr ⟨List.mem_cons.mpr (Or.inl (List.mem_singleton.mp hin)), hclean, hslice⟩
    · exact Or.inr ⟨List.mem_cons_of_mem _ hin, hclean, hslice⟩

/-- What the loop marks. The sets of the time before the pass decide, since a pass that marks
leaves nothing clean and unmarked. -/
theorem foldl_toMark {entries : List PassEntry} {v : Verdicts}
    (hmem : h ∈ (entries.foldl (Bookkeeping.judgeEntry cfg p) v).toMark) :
    h ∈ v.toMark ∨ (h ∈ entries.map PassEntry.hash ∧ ¬ p.FailedFor h ∧
      p.slice.markProcessed = true ∧
        (passCoversAllSyncedTypes (p.slice.filter cfg) cfg.entityTypes = true ∨
          h ∈ v.cleanUnmarked)) := by
  induction entries generalizing v with
  | nil => exact Or.inl hmem
  | cons e entries ih =>
    rcases ih hmem with hone | ⟨hin, hclean, hmark, hcase⟩
    · unfold Bookkeeping.judgeEntry at hone
      split at hone
      · exact Or.inl hone
      · exact Or.inl hone
      · rename_i hv
        rcases List.mem_append.mp hone with hone | hone
        · exact Or.inl hone
        · rw [List.mem_singleton.mp hone]
          exact Or.inr ⟨List.mem_cons_self, covers_or_clean_of_retire hv⟩
      · exact Or.inl hone
    · refine Or.inr ⟨List.mem_cons_of_mem _ hin, hclean, hmark, hcase.imp id fun hc => ?_⟩
      rcases judgeEntry_clean hc with ⟨hold, -⟩ | ⟨-, -, hslice⟩
      · exact hold
      · rw [hslice] at hmark
        cases hmark

end Verdicts

/-! ### Runs -/

/-- A type this node syncs. -/
def SyncOrchestratorConfig.Synced (cfg : SyncOrchestratorConfig) (t : EntityType) : Prop :=
  t ∈ profileType :: nonProfileTypes ∧ passes cfg.entityTypes t = true

section Runs

open Bookkeeping (Action)

variable {cfg : SyncOrchestratorConfig} {steps : List Action} {p : JudgedPass} {h : Hash}

theorem after_append (a : Action) :
    Bookkeeping.after cfg (steps ++ [a]) = Bookkeeping.step cfg (Bookkeeping.after cfg steps) a := by
  simp only [Bookkeeping.after, List.foldl_append, List.foldl_cons, List.foldl_nil]

/-- What is clean and unmarked has been so since a clean pass of the non-profile slice, with no
failure since. -/
theorem clean_since (hmem : h ∈ (Bookkeeping.after cfg steps).cleanUnmarked) :
    ∃ before since, steps = before ++ since ∧ (∀ q, Action.pass q ∈ since → ¬ q.FailedFor h) ∧
      ∃ q, Action.pass q ∈ since ∧ q.slice = .nonProfile ∧ q.CleanFor h := by
  induction steps using List.reverseRecOn with
  | nil => cases hmem
  | append_singleton steps a ih =>
    rw [after_append] at hmem
    cases a with
    | pass p =>
      rcases foldl_clean hmem with ⟨hold, hnot⟩ | ⟨hin, hclean, hslice⟩
      · obtain ⟨before, since, rfl, hsafe, q, hq, hslice, hclean⟩ := ih hold
        refine ⟨before, since ++ [.pass p], List.append_assoc _ _ _, fun r hr => ?_, q,
          List.mem_append_left _ hq, hslice, hclean⟩
        rcases List.mem_append.mp hr with hr | hr
        · exact hsafe r hr
        · obtain rfl := Action.pass.inj (List.mem_singleton.mp hr)
          -- a failure is of a snapshot of the pass
          intro hf
          obtain ⟨e, he, heq⟩ := List.mem_map.mp hf
          exact hnot (List.mem_map.mpr ⟨e, (List.mem_filter.mp he).1, heq⟩) hf
      · refine ⟨steps, [.pass p], rfl, fun r hr => ?_, p, List.mem_singleton.mpr rfl, hslice, hin,
          hclean⟩
        obtain rfl := Action.pass.inj (List.mem_singleton.mp hr)
        exact hclean
    | abandoned =>
      obtain ⟨before, since, rfl, hsafe, q, hq, hslice, hclean⟩ := ih hmem
      refine ⟨before, since ++ [.abandoned], List.append_assoc _ _ _, fun r hr => ?_, q,
        List.mem_append_left _ hq, hslice, hclean⟩
      rcases List.mem_append.mp hr with hr | hr
      · exact hsafe r hr
      · cases List.mem_singleton.mp hr
    | forget => cases hmem

/-- **Snapshot retirement is sound.** Whatever passes a process runs, a snapshot is to be marked
only if, since some pass, none failed for it and each synced type was let through by a pass
that was clean for it. -/
theorem retirement_sound (cfg : SyncOrchestratorConfig) (steps : List Action) (p : JudgedPass)
    (h : Hash)
    (hmark : h ∈ (Bookkeeping.judge cfg (Bookkeeping.after cfg steps) p).toMark) :
    ∃ before since, steps ++ [.pass p] = before ++ since ∧
      (∀ q, Action.pass q ∈ since → ¬ q.FailedFor h) ∧
      ∀ t, cfg.Synced t → ∃ q, Action.pass q ∈ since ∧ q.CleanFor h ∧
        passes (q.slice.filter cfg) t = true := by
  rcases foldl_toMark hmark with hnil | ⟨hin, hclean, hslice, hcase⟩
  · cases hnil
  -- a pass that covers everything proves the snapshot by itself
  by_cases hcovers : passCoversAllSyncedTypes (p.slice.filter cfg) cfg.entityTypes = true
  · refine ⟨steps, [.pass p], rfl, fun q hq => ?_, fun t ht => ?_⟩
    · obtain rfl := Action.pass.inj (List.mem_singleton.mp hq)
      exact hclean
    · exact ⟨p, List.mem_singleton.mpr rfl, ⟨hin, hclean⟩, passes_of_covers hcovers ht.2⟩
  · obtain ⟨before, since, rfl, hsafe, q, hq, hqslice, hqclean⟩ :=
      clean_since (hcase.resolve_left hcovers)
    refine ⟨before, since ++ [.pass p], List.append_assoc _ _ _, fun r hr => ?_, fun t ht => ?_⟩
    · rcases List.mem_append.mp hr with hr | hr
      · exact hsafe r hr
      · obtain rfl := Action.pass.inj (List.mem_singleton.mp hr)
        exact hclean
    · rcases List.mem_cons.mp ht.1 with rfl | hnon
      · refine ⟨p, List.mem_append_right _ (List.mem_singleton.mpr rfl), ⟨hin, hclean⟩, ?_⟩
        cases hs : p.slice with
        | nonProfile =>
          rw [hs] at hslice
          cases hslice
        | profile => rfl
        | all => exact ht.2
      · refine ⟨q, List.mem_append_left _ hq, hqclean, ?_⟩
        rw [hqslice]
        exact passes_nonProfileFilter hnon ht.2

/-- A snapshot that deployed without trouble. -/
def cleanEntry (h : Hash) : PassEntry := ⟨h, [['u']], false, ⟨2, 2, 0⟩⟩

/-- The two slices of a phased bootstrap. -/
theorem retirement_sound_phased :
    ['a'] ∈ (Bookkeeping.judge defaultConfig
        (Bookkeeping.after defaultConfig [.pass ⟨.nonProfile, [cleanEntry ['a']], []⟩])
        ⟨.profile, [cleanEntry ['a']], []⟩).toMark ∧
      ∃ before since, [Action.pass ⟨.nonProfile, [cleanEntry ['a']], []⟩] ++
          [.pass ⟨.profile, [cleanEntry ['a']], []⟩] = before ++ since ∧
        (∀ q, Action.pass q ∈ since → ¬ q.FailedFor ['a']) ∧
        ∀ t, defaultConfig.Synced t → ∃ q, Action.pass q ∈ since ∧ q.CleanFor ['a'] ∧
          passes (q.slice.filter defaultConfig) t = true :=
  ⟨by decide, retirement_sound defaultConfig [.pass ⟨.nonProfile, [cleanEntry ['a']], []⟩]
    ⟨.profile, [cleanEntry ['a']], []⟩ ['a'] (by decide)⟩

end Runs

end Catalyrst.Sync
