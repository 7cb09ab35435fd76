import Mathlib
import Catalyrst.Lib.Calls
import Catalyrst.Lib.Machine
import Catalyrst.Snapshots.Division

/-!
# Generating snapshots

A pass of `generate_snapshots_multi` as a program over its database and storage
calls, and the world these calls go to: the deployments with the transactions that
are still open, the table of snapshots, the files and the process-wide set of
verified hashes. Any call may fail, with or without its effect.
-/

namespace Catalyrst.Snapshots

open Catalyrst.Lib

abbrev Text := List Char
abbrev Hash := Text
abbrev Bytes := Text

/-- A line of a snapshot file. -/
structure SnapshotSyncDeployment where
  entityId : Text
  entityType : Text
  pointers : List Text
  authChain : Text
  entityTimestamp : ℤ
deriving DecidableEq, Repr

structure SnapshotMetadata where
  hash : Option Hash
  timeRange : TimeRange
  replacedSnapshotHashes : List Hash
  numberOfEntities : ℕ
  generationTimestamp : ℤ
deriving DecidableEq, Repr

/-- How the lines make up a file, and `hash_bytes_v1`. -/
structure Format where
  render : List SnapshotSyncDeployment → Bytes
  hashBytes : Bytes → Hash

def Format.hashOf (fmt : Format) (ds : List SnapshotSyncDeployment) : Hash :=
  fmt.hashBytes (fmt.render ds)

/-- Files are the ids they list, and their own hash. -/
def plain : Format := ⟨fun ds => ds.flatMap SnapshotSyncDeployment.entityId, fun b => b⟩

/-- A row of `deployments`; `deleted` is `deleter_deployment IS NOT NULL`. -/
structure DeploymentRow where
  deployment : SnapshotSyncDeployment
  deleted : Bool
  localTimestamp : ℤ
deriving DecidableEq, Repr

/-- An open transaction that deploys. `now()` is the time it began. -/
structure Transaction where
  begun : ℤ
  deploys : List SnapshotSyncDeployment
deriving DecidableEq, Repr

structure World where
  clock : ℤ
  deployments : List DeploymentRow
  transactions : List Transaction
  snapshots : List SnapshotMetadata
  /-- The content under each key. -/
  storage : Hash → Option Bytes
  /-- `VERIFIED` -/
  verified : List Hash
  /-- The `generation_timestamp` taken last. -/
  lastGeneration : Option ℤ
  /-- The intervals read so far, with the timestamps their snapshots get. -/
  reads : List (TimeRange × ℤ)

def TimeRange.Includes (r : TimeRange) (t : ℤ) : Prop :=
  r.initTimestamp ≤ t ∧ t ≤ r.endTimestamp

instance (r : TimeRange) (t : ℤ) : Decidable (r.Includes t) :=
  inferInstanceAs (Decidable (_ ∧ _))

/-- `s` lies in `r`, the bounds included. -/
def TimeRange.Within (s r : TimeRange) : Prop :=
  r.initTimestamp ≤ s.initTimestamp ∧ s.endTimestamp ≤ r.endTimestamp

instance (s r : TimeRange) : Decidable (s.Within r) := inferInstanceAs (Decidable (_ ∧ _))

/-- The test of `get_snapshot_hashes_not_in_time_range`. -/
def TimeRange.Apart (s r : TimeRange) : Prop :=
  s.initTimestamp ≤ s.endTimestamp ∧
    (r.endTimestamp ≤ s.initTimestamp ∨ s.endTimestamp ≤ r.initTimestamp)

instance (s r : TimeRange) : Decidable (s.Apart r) := inferInstanceAs (Decidable (_ ∧ (_ ∨ _)))

namespace World

variable (w : World)

def activeIn (r : TimeRange) : List SnapshotSyncDeployment :=
  ((w.deployments.filter fun d => d.deleted = false ∧ r.Includes d.deployment.entityTimestamp).map
    DeploymentRow.deployment).insertionSort fun a b => a.entityTimestamp ≤ b.entityTimestamp

def contained (r : TimeRange) : List SnapshotMetadata :=
  w.snapshots.filter fun s => s.timeRange.Within r

def isOutdated (s : SnapshotMetadata) : Bool :=
  w.deployments.any fun d => d.deleted = false ∧
    s.timeRange.Includes d.deployment.entityTimestamp ∧ s.generationTimestamp < d.localTimestamp

def hashesNotIn (hashes : List Hash) (r : TimeRange) : List Hash :=
  (w.snapshots.filter fun s => s.timeRange.Apart r).filterMap fun s =>
    s.hash.filter (· ∈ hashes)

def deleteInRange (hashes : List Hash) (r : TimeRange) : World :=
  { w with snapshots := w.snapshots.filter fun s => ¬ (s.timeRange.Within r ∧ s.hash.any (· ∈ hashes)) }

def deleteByRange (r : TimeRange) : World :=
  { w with snapshots := w.snapshots.filter fun s => s.timeRange ≠ r }

def moves (r : TimeRange) (old : Hash) (s : SnapshotMetadata) : Bool :=
  s.hash = some old ∧ s.timeRange = r

def updateHash (r : TimeRange) (old new : Hash) : World :=
  { w with snapshots := w.snapshots.map fun s => if moves r old s then { s with hash := some new } else s }

def storeFile (h : Hash) (b : Bytes) : World := { w with storage := Function.update w.storage h (some b) }

def deleteFile (h : Hash) : World := { w with storage := Function.update w.storage h none }

def rekey (src dst : Hash) (b : Bytes) : World :=
  { w with storage := Function.update (Function.update w.storage src none) dst (some b) }

def noteRead (r : TimeRange) : World :=
  { w with reads := w.lastGeneration.toList.map (r, ·) ++ w.reads }

/-- The primary key of `snapshots`. -/
def hasRange (r : TimeRange) : Bool := w.snapshots.any fun s => s.timeRange = r

end World

inductive Call where
  | findContained (r : TimeRange)
  | snapshotIsOutdated (s : SnapshotMetadata)
  | alreadyVerified (h : Hash)
  | rememberVerified (h : Hash)
  | storedContentHash (h : Hash)
  | rekey (src dst : Hash)
  | updateSnapshotHash (r : TimeRange) (old new : Hash)
  | hashesNotInTimeRange (hashes : List Hash) (r : TimeRange)
  | deleteSnapshots (hashes : List Hash) (r : TimeRange)
  | deleteFile (h : Hash)
  | now
  | streamActive (r : TimeRange)
  | store (h : Hash) (b : Bytes)
  | saveSnapshot (s : SnapshotMetadata)
  | getAllSnapshots
  | deleteByTimeRange (r : TimeRange)

/-- `none` is an error. -/
abbrev Answer : Call → Type
  | .findContained _ => Option (List SnapshotMetadata)
  | .snapshotIsOutdated _ => Option Bool
  | .alreadyVerified _ => Bool
  | .rememberVerified _ => Unit
  | .storedContentHash _ => Option (Option Hash)
  | .rekey _ _ => Option Bool
  | .updateSnapshotHash _ _ _ => Option Bool
  | .hashesNotInTimeRange _ _ => Option (List Hash)
  | .deleteSnapshots _ _ => Option Unit
  | .deleteFile _ => Option Unit
  | .now => ℤ
  | .streamActive _ => Option (List SnapshotSyncDeployment)
  | .store _ _ => Option Unit
  | .saveSnapshot _ => Option Unit
  | .getAllSnapshots => Option (List SnapshotMetadata)
  | .deleteByTimeRange _ => Option Unit

/-- How a call goes: well, with an error, or with an error after its effect. -/
inductive Outcome where
  | ok
  | failed
  | lost
deriving DecidableEq, Repr

/-- The answer to a read. -/
def Outcome.read {α : Type} (o : Outcome) (a : α) : Option α :=
  match o with
  | .ok => some a
  | _ => none

/-- The answer to a write and the world after it. -/
def Outcome.write {α : Type} (o : Outcome) (a : α) (w w' : World) : Option α × World :=
  match o with
  | .ok => (some a, w')
  | .failed => (none, w)
  | .lost => (none, w')

def serve (fmt : Format) (w : World) (o : Outcome) : (c : Call) → Answer c × World
  | .findContained r => (o.read (w.contained r), w)
  | .snapshotIsOutdated s => (o.read (w.isOutdated s), w)
  -- a poisoned lock answers false
  | .alreadyVerified h => (decide (o = .ok ∧ h ∈ w.verified), w)
  | .rememberVerified h => ((), if o = .failed then w else { w with verified := h :: w.verified })
  | .storedContentHash h => (o.read ((w.storage h).map fmt.hashBytes), w)
  | .rekey src dst =>
    match w.storage src with
    | some b => o.write true w (w.rekey src dst b)
    | none => o.write false w w
  | .updateSnapshotHash r old new =>
    o.write (w.snapshots.any (World.moves r old)) w (w.updateHash r old new)
  | .hashesNotInTimeRange hashes r => (o.read (w.hashesNotIn hashes r), w)
  | .deleteSnapshots hashes r => o.write () w (w.deleteInRange hashes r)
  | .deleteFile h => o.write () w (w.deleteFile h)
  | .now => (w.clock, { w with lastGeneration := some w.clock })
  | .streamActive r => (o.read (w.activeIn r), if o = .ok then w.noteRead r else w)
  | .store h b => o.write () w (w.storeFile h b)
  | .saveSnapshot s =>
    if w.hasRange s.timeRange then (none, w)
    else o.write () w { w with snapshots := w.snapshots ++ [s] }
  | .getAllSnapshots => (o.read w.snapshots, w)
  | .deleteByTimeRange r => o.write () w (w.deleteByRange r)

abbrev Pass := Prog Call Answer

def reusableSnapshot (candidate : SnapshotMetadata) : Pass (Option SnapshotMetadata) :=
  match candidate.hash with
  | none => .ret none
  | some advertised =>
    .call (.alreadyVerified advertised) fun seen =>
      if seen then .ret (some candidate)
      else .call (.storedContentHash advertised) fun stored =>
        match stored with
        | none => .ret none
        | some none => .ret none
        | some (some actual) =>
          if actual = advertised then
            .call (.rememberVerified advertised) fun _ => .ret (some candidate)
          else .call (.rekey advertised actual) fun renamed =>
            if renamed = some true then
              .call (.updateSnapshotHash candidate.timeRange advertised actual) fun moved =>
                if moved = some true then
                  .call (.rememberVerified actual) fun _ =>
                    .ret (some { candidate with hash := some actual })
                else .ret none
            else .ret none

/-- `number_of_entities` is an `i32`. -/
def maxEntities : ℕ := 2 ^ 31

def generateSnapshot (fmt : Format) (timeRange : TimeRange) (replacedHashes : List Hash) :
    Pass (Option SnapshotMetadata) :=
  .call .now fun generationTimestamp =>
    .call (.streamActive timeRange) fun deployments =>
      match deployments with
      | none => .ret none
      | some deployments =>
        if maxEntities ≤ deployments.length then .ret none
        else
          let hash := fmt.hashOf deployments
          .call (.store hash (fmt.render deployments)) fun stored =>
            if stored = none then .ret none
            else
              let metadata : SnapshotMetadata :=
                { hash := some hash
                  timeRange := timeRange
                  replacedSnapshotHashes := replacedHashes.filter (· ≠ hash)
                  numberOfEntities := deployments.length
                  generationTimestamp := generationTimestamp }
              .call (.saveSnapshot metadata) fun saved =>
                if saved = none then .ret none else .ret (some metadata)

/-- `for h in &stale_hashes`, without those to keep. -/
def deleteFiles (keep : List Hash) : List Hash → Pass Unit
  | [] => .ret ()
  | h :: hashes =>
    if h ∈ keep then deleteFiles keep hashes
    else .call (.deleteFile h) fun _ => deleteFiles keep hashes

/-- The stale rows of an interval and their files. -/
def dropStale (staleHashes : List Hash) (interval : TimeRange) : Pass Unit :=
  if staleHashes = [] then .ret ()
  else
    .call (.hashesNotInTimeRange staleHashes interval) fun keep =>
      -- unwrap_or_default
      let keep := keep.getD []
      .call (.deleteSnapshots staleHashes interval) fun deleted =>
        if deleted = none then .ret () else deleteFiles keep staleHashes

/-- The reuse decision of an interval. -/
def tryReuse (saved : List SnapshotMetadata) (interval : TimeRange) :
    Pass (Option SnapshotMetadata) :=
  -- the bounds are whole milliseconds, so less than 1.0 apart is equal
  match saved.filter fun s => s.timeRange = interval with
  | [candidate] =>
    .call (.snapshotIsOutdated candidate) fun outdated =>
      if outdated.getD true then .ret none else reusableSnapshot candidate
  | _ => .ret none

def snapshotInterval (fmt : Format) (interval : TimeRange) : Pass (Option SnapshotMetadata) :=
  .call (.findContained interval) fun saved =>
    match saved with
    | none => .ret none
    | some saved =>
      (tryReuse saved interval).bind fun reused =>
        match reused with
        | some metadata => .ret (some metadata)
        | none =>
          let staleHashes := saved.filterMap SnapshotMetadata.hash
          (dropStale staleHashes interval).bind fun _ =>
            generateSnapshot fmt interval staleHashes

def snapshotIntervals (fmt : Format) :
    List TimeRange → List SnapshotMetadata → Pass (Option (List SnapshotMetadata))
  | [], result => .ret (some result)
  | interval :: intervals, result =>
    (snapshotInterval fmt interval).bind fun metadata =>
      match metadata with
      | none => .ret none
      | some metadata => snapshotIntervals fmt intervals (result ++ [metadata])

/-- The pruning of rows outside the division. -/
def pruneRows (validHashes : List Hash) (validRanges : List TimeRange) :
    List SnapshotMetadata → Pass Unit
  | [] => .ret ()
  | snap :: all =>
    if snap.timeRange ∈ validRanges then pruneRows validHashes validRanges all
    else
      .call (.deleteByTimeRange snap.timeRange) fun deleted =>
        match deleted, snap.hash with
        | some (), some h =>
          if h ∈ validHashes then pruneRows validHashes validRanges all
          else .call (.deleteFile h) fun _ => pruneRows validHashes validRanges all
        | _, _ => pruneRows validHashes validRanges all

def generateSnapshotsMulti (fmt : Format) (whole : TimeRange) :
    Pass (Option (List SnapshotMetadata)) :=
  (snapshotIntervals fmt (Db.divideTimeInYearsMonthsWeeksAndDays whole).1 []).bind fun result =>
    match result with
    | none => .ret none
    | some result =>
      .call .getAllSnapshots fun all =>
        match all with
        | none => .ret (some result)
        | some all =>
          (pruneRows (result.filterMap SnapshotMetadata.hash)
            (result.map SnapshotMetadata.timeRange) all).bind fun _ => .ret (some result)

/-- What happens to the deployments beside the pass. -/
inductive Event where
  | tick (t : ℤ)
  | begin (deploys : List SnapshotSyncDeployment)
  /-- The transaction commits: it deletes the listed deployments, its own included. -/
  | commit (i : ℕ) (deleted : List Text)

def World.happen (w : World) : Event → Option World
  | .tick t => if w.clock ≤ t then some { w with clock := t } else none
  | .begin deploys => some { w with transactions := w.transactions ++ [⟨w.clock, deploys⟩] }
  | .commit i deleted =>
    w.transactions[i]?.map fun tx =>
      { w with
        transactions := w.transactions.eraseIdx i
        deployments := (w.deployments ++ tx.deploys.map fun d => ⟨d, false, tx.begun⟩).map fun d =>
          if d.deployment.entityId ∈ deleted then { d with deleted := true } else d }

/-- The generator: the world, the pass that runs, and the end of the last range. -/
structure Generator where
  world : World
  running : Option (Pass (Option (List SnapshotMetadata)))
  lastEnd : Option ℤ

inductive Step where
  | event (e : Event)
  /-- A pass begins over the time until `e`. -/
  | start (e : ℤ)
  /-- The pass makes its next call. -/
  | serve (o : Outcome)
  /-- The pass has returned. -/
  | finish

namespace Generator

def step (fmt : Format) (init : ℤ) (g : Generator) : Step → Option Generator
  | .event e => (g.world.happen e).map fun w => { g with world := w }
  | .start e =>
    match g.running with
    | some _ => none
    | none =>
      if g.lastEnd.all (· ≤ e) then
        some { g with running := some (generateSnapshotsMulti fmt ⟨init, e⟩), lastEnd := some e }
      else none
  | .serve o =>
    match g.running with
    | some (.call c k) =>
      some { g with world := (Snapshots.serve fmt g.world o c).2
                    running := some (k (Snapshots.serve fmt g.world o c).1) }
    | _ => none
  | .finish =>
    match g.running with
    | some (.ret _) => some { g with running := none }
    | _ => none

/-- No snapshots yet; the files may be anything. -/
def new (clock : ℤ) (storage : Hash → Option Bytes) : Generator :=
  ⟨⟨clock, [], [], [], storage, [], none, []⟩, none, none⟩

variable {fmt : Format} {init e : ℤ} {g g' : Generator}

theorem step_start (h : g.step fmt init (.start e) = some g') :
    g.running = none ∧ g.lastEnd.all (· ≤ e) ∧
      g' = { g with running := some (generateSnapshotsMulti fmt ⟨init, e⟩), lastEnd := some e } := by
  unfold step at h
  dsimp only at h
  split at h
  · cases h
  · rename_i hrunning
    split at h
    · rename_i hlater
      exact ⟨hrunning, hlater, (Option.some.inj h).symm⟩
    · cases h

theorem step_serve {o : Outcome} (h : g.step fmt init (.serve o) = some g') :
    ∃ c k, g.running = some (.call c k) ∧
      g' = { g with world := (Snapshots.serve fmt g.world o c).2
                    running := some (k (Snapshots.serve fmt g.world o c).1) } := by
  unfold step at h
  dsimp only at h
  split at h
  · rename_i c k hrunning
    exact ⟨c, k, hrunning, (Option.some.inj h).symm⟩
  · cases h

theorem step_finish (h : g.step fmt init .finish = some g') :
    ∃ r, g.running = some (.ret r) ∧ g' = { g with running := none } := by
  unfold step at h
  dsimp only at h
  split at h
  · rename_i r hrunning
    exact ⟨r, hrunning, (Option.some.inj h).symm⟩
  · cases h

end Generator

def Generator.returned (g : Generator) : Option (List SnapshotMetadata) :=
  match g.running with
  | some (.ret (some metas)) => some metas
  | _ => none

theorem running_of_returned {g : Generator} {metas : List SnapshotMetadata}
    (h : g.returned = some metas) : g.running = some (.ret (some metas)) := by
  unfold Generator.returned at h
  split at h
  · rename_i hr
    rw [hr, Option.some.inj h]
  · cases h

/-- The answers of the world under a side condition on the outcomes. -/
def answers (fmt : Format) (fits : World → Outcome → Call → Prop) (w : World) (c : Call)
    (r : Answer c) (w' : World) : Prop :=
  ∃ o, fits w o c ∧ serve fmt w o c = (r, w')

/-- Beside the pass only the deployments change. -/
def Quiet (w w' : World) : Prop :=
  w'.snapshots = w.snapshots ∧ w'.storage = w.storage ∧ w'.verified = w.verified

theorem quiet_refl (w : World) : Quiet w w := ⟨rfl, rfl, rfl⟩

theorem quiet_trans (a b c : World) (h : Quiet a b) (h' : Quiet b c) : Quiet a c :=
  ⟨h'.1.trans h.1, h'.2.1.trans h.2.1, h'.2.2.trans h.2.2⟩

theorem happen_tick {w w' : World} {t : ℤ} (h : w.happen (.tick t) = some w') :
    w' = { w with clock := t } := by
  unfold World.happen at h
  dsimp only at h
  split at h
  · exact (Option.some.inj h).symm
  · cases h

theorem happen_quiet {w w' : World} {e : Event} (h : w.happen e = some w') : Quiet w w' := by
  cases e with
  | tick t =>
    obtain rfl := happen_tick h
    exact ⟨rfl, rfl, rfl⟩
  | begin deploys =>
    obtain rfl := Option.some.inj h
    exact ⟨rfl, rfl, rfl⟩
  | commit i deleted =>
    obtain ⟨tx, -, rfl⟩ := Option.map_eq_some_iff.mp h
    exact ⟨rfl, rfl, rfl⟩

end Catalyrst.Snapshots
