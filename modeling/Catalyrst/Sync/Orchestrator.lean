import Mathlib
import Catalyrst.Sync.PointerChanges

/-!
# The orchestrator of content sync, as one server sees it

The bootstrap is a script of passes over all servers; what a pass does to one server
depends on the phase the server is in. A phased bootstrap runs the snapshots and the
pointer changes twice, for the non-profile types and then for the profiles, with the
phases reset in between. A failed script starts over, and what survives of it is the
phase and the resume mark of each server. Servers that are held back go through further
rounds, and a server that made it gets a stream of its own.

What the other servers, the network and the database do is an input of each step.
-/

namespace Catalyrst.Sync

abbrev Hash := List Char

inductive ServerPhase where
  | bootstrappingSnapshots
  | bootstrappingPointerChanges
  | syncing
  deriving DecidableEq

def pointerChangesShiftMs : Timestamp := 20 * 60000

def profileType : EntityType := ['p', 'r', 'o', 'f', 'i', 'l', 'e']

def nonProfileTypes : List EntityType :=
  [['s', 'c', 'e', 'n', 'e'], ['w', 'e', 'a', 'r', 'a', 'b', 'l', 'e'], ['e', 'm', 'o', 't', 'e'],
    ['s', 't', 'o', 'r', 'e'], ['o', 'u', 't', 'f', 'i', 't', 's']]

structure SyncOrchestratorConfig where
  fromTimestamp : Timestamp
  phasedSync : Bool
  entityTypes : Option (List EntityType)
  /-- Of the configuration of the deployer. -/
  ignoredTypes : List EntityType
  profileMaxAgeMs : Timestamp
  /-- The node is started with `from_timestamp: 0`. -/
  fromTimestamp_nonneg : 0 ≤ fromTimestamp

def defaultConfig : SyncOrchestratorConfig where
  fromTimestamp := 0
  phasedSync := true
  entityTypes := none
  ignoredTypes := []
  profileMaxAgeMs := 31536000000
  fromTimestamp_nonneg := le_rfl

namespace SyncOrchestratorConfig

variable (cfg : SyncOrchestratorConfig)

/-- Whether the deployer leaves out an entity at the time `nowMs` because of its age. -/
def ageFiltered (nowMs : Timestamp) (d : SyncDeployment) : Bool :=
  decide (d.entityType = profileType ∧ d.entityTimestamp < nowMs - cfg.profileMaxAgeMs)

def syncedType (t : EntityType) : Bool :=
  passes cfg.entityTypes t && decide (t ∈ profileType :: nonProfileTypes) &&
    decide (t ∉ cfg.ignoredTypes)

/-- Whether the node is to have an entity. -/
def wanted (nowMs : Timestamp) (d : SyncDeployment) : Bool :=
  cfg.syncedType d.entityType && !cfg.ageFiltered nowMs d &&
    decide (cfg.fromTimestamp ≤ d.entityTimestamp)

/-! ### Scripts -/

def nonProfileFilter : List EntityType :=
  nonProfileTypes.filter fun t => passes cfg.entityTypes t

def phased : Bool :=
  cfg.phasedSync && cfg.entityTypes.all fun allow =>
    decide (profileType ∈ allow) && nonProfileTypes.any fun t => decide (t ∈ allow)

end SyncOrchestratorConfig

/-- A pass of a bootstrap. -/
inductive Op where
  /-- `resume_servers_from_cursors`. -/
  | resume
  | snapshots (entityTypeFilter : Option (List EntityType)) (markProcessed : Bool)
  | pointers (entityTypeFilter : Option (List EntityType))
  /-- Phase 3: the servers without a stream go back to their snapshots. -/
  | reset
  /-- `start_steady_state_sync`. -/
  | start
  deriving DecidableEq

def runPhasedBootstrap (cfg : SyncOrchestratorConfig) : List Op :=
  [.resume, .snapshots (some cfg.nonProfileFilter) false, .pointers (some cfg.nonProfileFilter),
    .reset, .snapshots (some [profileType]) true, .pointers (some [profileType]), .start]

def runFullBootstrap (cfg : SyncOrchestratorConfig) : List Op :=
  [.resume, .snapshots cfg.entityTypes true, .pointers cfg.entityTypes, .start]

def runBootstrap (cfg : SyncOrchestratorConfig) : List Op :=
  if cfg.phased then runPhasedBootstrap cfg else runFullBootstrap cfg

/-- A round of `retry_bootstrap_stragglers`. -/
def stragglerRound (cfg : SyncOrchestratorConfig) : List Op :=
  [.snapshots cfg.entityTypes true, .pointers cfg.entityTypes, .start]

/-! ### Snapshot passes -/

inductive SnapshotPassVerdict where
  | failed
  | cleanUnmarked
  | retire
  | unproven
  deriving DecidableEq

def passCoversAllSyncedTypes (passFilter allowlist : Option (List EntityType)) : Bool :=
  match passFilter, allowlist with
  | none, _ => true
  | some f, some allow => allow.all fun t => decide (t ∈ f)
  | some _, none => false

/-- A pass that covers the synced types lets every allowed type through. -/
theorem passes_of_covers {f allowlist : Option (List EntityType)} {t : EntityType}
    (hf : passCoversAllSyncedTypes f allowlist = true) (ht : passes allowlist t = true) :
    passes f t = true := by
  cases f with
  | none => rfl
  | some types =>
    cases allowlist with
    | none => cases hf
    | some allow =>
      simp only [passCoversAllSyncedTypes, List.all_eq_true, decide_eq_true_eq] at hf
      simp only [passes, Option.all_some, decide_eq_true_eq] at ht ⊢
      exact hf t ht

theorem passes_nonProfileFilter {cfg : SyncOrchestratorConfig} {t : EntityType}
    (ht : t ∈ nonProfileTypes) (hpass : passes cfg.entityTypes t = true) :
    passes (some cfg.nonProfileFilter) t = true := by
  simp only [passes, Option.all_some, decide_eq_true_eq, SyncOrchestratorConfig.nonProfileFilter]
  exact List.mem_filter.mpr ⟨ht, hpass⟩

def snapshotPassVerdict (failedThisPass markProcessed coversAllSyncedTypes failedEarlier
    cleanUnmarkedEarlier : Bool) : SnapshotPassVerdict :=
  if failedThisPass then .failed
  else if !markProcessed then .cleanUnmarked
  else if coversAllSyncedTypes then .retire
  else if !failedEarlier && cleanUnmarkedEarlier then .retire
  else .unproven

theorem snapshotPassVerdict_failed {failed mark covers earlier clean : Bool} :
    snapshotPassVerdict failed mark covers earlier clean = .failed ↔ failed = true := by
  cases failed <;> cases mark <;> cases covers <;> cases earlier <;> cases clean <;> decide

theorem snapshotPassVerdict_retire {failed mark covers earlier clean : Bool}
    (h : snapshotPassVerdict failed mark covers earlier clean = .retire) :
    failed = false ∧ mark = true ∧ (covers = true ∨ clean = true) := by
  revert h
  cases failed <;> cases mark <;> cases covers <;> cases earlier <;> cases clean <;> decide

theorem snapshotPassVerdict_cleanUnmarked {failed mark covers earlier clean : Bool}
    (h : snapshotPassVerdict failed mark covers earlier clean = .cleanUnmarked) :
    failed = false ∧ mark = false := by
  revert h
  cases failed <;> cases mark <;> cases covers <;> cases earlier <;> cases clean <;> decide

def resumePoint (ownCursor : Option Timestamp) (globalFrontier : Timestamp) : Timestamp :=
  ownCursor.getD globalFrontier

/-- What a peer serves: the changes of its history, and the lines of each snapshot file. -/
structure Peer where
  history : List Change
  contents : Hash → List SyncDeployment

def usableSnapshotLine (d : SyncDeployment) (nowMs : Timestamp) : Bool :=
  isUsableTimestamp d.entityTimestamp nowMs &&
    d.localTimestamp.all fun ts => isUsableTimestamp ts nowMs

/-- The stream of a server that syncs. -/
structure SteadyStream where
  /-- Where the current connection started. -/
  fromTimestamp : Timestamp
  confirmedTimestamp : Timestamp
  deriving DecidableEq

structure Node where
  now : Timestamp
  /-- The entities in `deployments` or `failed_deployments`. -/
  durable : Finset EntityId
  processedSnapshots : Finset Hash
  /-- The row of `server_sync_cursors` of the server. -/
  cursor : Option Timestamp
  syncFrontier : Timestamp
  phase : ServerPhase
  lastSnapshotTimestamp : Timestamp
  syncTask : Option SteadyStream
  failedSnapshotHashes : Finset Hash
  unmarkedCleanSnapshots : Finset Hash
  /-- What is left of the script. -/
  todo : List Op
  /-- Whether the script is a round for the servers held back. -/
  straggling : Bool

/-- How a snapshot pass goes. -/
structure SnapshotPass where
  /-- The snapshots of the server, with the ends of their time ranges, if they could be fetched. -/
  listing : Option (List (Hash × Timestamp))
  discarded : ℕ
  /-- What the other servers of the pass advertise. -/
  others : List Hash
  /-- Snapshots that replace processed ones. -/
  newlyMarked : List Hash
  /-- Snapshots before the genesis timestamp, or in the node's own snapshot store. -/
  skipped : List Hash
  /-- Snapshots that could not be downloaded, handed over, or accounted for. -/
  failed : List Hash
  /-- What becomes durable during the pass. -/
  written : Finset EntityId
  /-- Snapshots whose mark could not be stored. -/
  unmarked : List Hash
  cursorWritten : Bool

/-- How a poll of pointer changes goes. -/
structure Poll where
  /-- The peer's time at its last page. -/
  horizon : Timestamp
  written : Finset EntityId
  /-- Whether the poll reached its last page and its report was complete, without losses. -/
  drained : Bool
  cursorWritten : Bool
  frontierWritten : Bool
  /-- Whether the `on_idle` that ends a pass over pointer changes succeeds. -/
  idle : Bool

/-- What happens besides the server's own passes. -/
structure Elsewhere where
  elapsed : ℕ
  written : Finset EntityId
  newlyMarked : List Hash
  frontier : Timestamp

/-- `INSERT … ON CONFLICT DO UPDATE SET cursor_ms = GREATEST(…)`. -/
def advanceServerSyncCursor (cursor : Option Timestamp) (ts : Timestamp) : Option Timestamp :=
  some (cursor.elim ts fun c => max c ts)

namespace SnapshotPass

/-- The listing of the server, if it takes part in the pass. -/
def own (p : SnapshotPass) (n : Node) : Option (List (Hash × Timestamp)) :=
  if n.phase = .bootstrappingSnapshots then p.listing else none

def ownHashes (p : SnapshotPass) (n : Node) : List Hash := ((p.own n).getD []).map Prod.fst

def deployable (p : SnapshotPass) (n : Node) : Finset Hash :=
  (p.ownHashes n ++ p.others).toFinset.filter fun h =>
    h ∉ n.processedSnapshots ∧ h ∉ p.newlyMarked ∧ h ∉ p.skipped

/-- A snapshot with an unusable line fails. -/
def failedOn (p : SnapshotPass) (peer : Peer) (n : Node) (h : Hash) : Bool :=
  decide (h ∈ p.failed) || (peer.contents h).any fun d => !usableSnapshotLine d n.now

section

variable (p : SnapshotPass) (peer : Peer) (cfg : SyncOrchestratorConfig) (n : Node)
  (entityTypeFilter : Option (List EntityType)) (markProcessed : Bool)

def verdict (h : Hash) : SnapshotPassVerdict :=
  snapshotPassVerdict (p.failedOn peer n h) markProcessed
    (passCoversAllSyncedTypes entityTypeFilter cfg.entityTypes)
    (decide (h ∈ n.failedSnapshotHashes)) (decide (h ∈ n.unmarkedCleanSnapshots))

/-- The snapshots of the pass with a given verdict. -/
def judged (v : SnapshotPassVerdict) : Finset Hash :=
  (p.deployable n).filter fun h => p.verdict peer cfg n entityTypeFilter markProcessed h = v

/-- Whether the server has to stay with its snapshots. -/
def held : Bool :=
  decide (0 < p.discarded) || (p.ownHashes n).any fun h =>
    decide (h ∈ p.judged peer cfg n entityTypeFilter markProcessed .failed) ||
      decide (h ∈ p.judged peer cfg n entityTypeFilter markProcessed .unproven)

end

/-- The greatest end of the listed time ranges. -/
def lastTs (cfg : SyncOrchestratorConfig) (listing : List (Hash × Timestamp)) : Timestamp :=
  (listing.map Prod.snd).max?.getD cfg.fromTimestamp

end SnapshotPass

namespace Node

def new (cfg : SyncOrchestratorConfig) (now : Timestamp) : Node where
  now := now
  durable := ∅
  processedSnapshots := ∅
  cursor := none
  syncFrontier := 0
  phase := .bootstrappingSnapshots
  lastSnapshotTimestamp := cfg.fromTimestamp
  syncTask := none
  failedSnapshotHashes := ∅
  unmarkedCleanSnapshots := ∅
  todo := runBootstrap cfg
  straggling := false

/-- `sync_with_servers` for a server that is already there. -/
def rebootstrap (cfg : SyncOrchestratorConfig) (n : Node) : Node :=
  { n with todo := runBootstrap cfg, straggling := false }

/-- `sync_with_servers` for a server that was removed or is new. -/
def addServer (cfg : SyncOrchestratorConfig) (n : Node) : Node :=
  { n with
    phase := .bootstrappingSnapshots
    lastSnapshotTimestamp := cfg.fromTimestamp
    syncTask := none
    todo := runBootstrap cfg
    straggling := false }

/-- The cross-pass bookkeeping is dropped. -/
def clearBookkeeping (n : Node) : Node :=
  { n with failedSnapshotHashes := ∅, unmarkedCleanSnapshots := ∅ }

def resumeFromCursor (n : Node) : Node :=
  let resume := resumePoint n.cursor n.syncFrontier
  if 0 < resume then
    { n with lastSnapshotTimestamp := max n.lastSnapshotTimestamp resume }
  else n

/-- What a snapshot pass concludes about the snapshots themselves. -/
def concludePass (peer : Peer) (cfg : SyncOrchestratorConfig) (n : Node)
    (entityTypeFilter : Option (List EntityType)) (markProcessed : Bool) (p : SnapshotPass) : Node :=
  let judged := p.judged peer cfg n entityTypeFilter markProcessed
  { n with
    durable := n.durable ∪ p.written
    processedSnapshots := n.processedSnapshots ∪ p.newlyMarked.toFinset ∪
      (judged .retire \ p.unmarked.toFinset)
    failedSnapshotHashes := (n.failedSnapshotHashes ∪ judged .failed) \ judged .retire
    unmarkedCleanSnapshots :=
      ((n.unmarkedCleanSnapshots \ judged .failed) ∪ judged .cleanUnmarked) \ judged .retire }

def bootstrapFromSnapshots (peer : Peer) (cfg : SyncOrchestratorConfig) (n : Node)
    (entityTypeFilter : Option (List EntityType)) (markProcessed : Bool) (p : SnapshotPass) : Node :=
  let concluded := n.concludePass peer cfg entityTypeFilter markProcessed p
  match p.own n with
  | none => concluded
  | some listing =>
    if p.held peer cfg n entityTypeFilter markProcessed then concluded
    else
      let ts := max n.lastSnapshotTimestamp (SnapshotPass.lastTs cfg listing)
      { concluded with
        lastSnapshotTimestamp := ts
        phase := .bootstrappingPointerChanges
        cursor := if p.cursorWritten then advanceServerSyncCursor n.cursor ts else n.cursor }

/-- The mark of a poll that starts at `fromTimestamp`, and what it hands to the deployer. -/
def readPoll (peer : Peer) (n : Node) (entityTypeFilter : Option (List EntityType))
    (fromTimestamp : Timestamp) (p : Poll) : Timestamp × List SyncDeployment :=
  readItems entityTypeFilter fromTimestamp n.now fromTimestamp
    (served peer.history fromTimestamp p.horizon)

/-- The confirmed boundary of a poll is stored. -/
def persistBoundary (n : Node) (lastPersisted confirmed : Timestamp)
    (cursorWritten frontierWritten : Bool) : Node :=
  if lastPersisted < confirmed then
    { n with
      cursor := if cursorWritten then advanceServerSyncCursor n.cursor confirmed else n.cursor
      syncFrontier := if frontierWritten then max n.syncFrontier confirmed else n.syncFrontier }
  else n

def streamFrom (n : Node) : Timestamp := max (n.lastSnapshotTimestamp - pointerChangesShiftMs) 0

def bootstrapFromPointerChanges (peer : Peer) (n : Node)
    (entityTypeFilter : Option (List EntityType)) (p : Poll) : Node :=
  let after := { n with durable := n.durable ∪ p.written }
  if n.phase = .bootstrappingPointerChanges then
    if p.drained then
      let mark := (n.readPoll peer entityTypeFilter n.streamFrom p).1
      { after.persistBoundary n.streamFrom mark p.cursorWritten p.frontierWritten with
        lastSnapshotTimestamp := max n.lastSnapshotTimestamp mark
        phase := .syncing }
    else
      -- `progress` never left the start of the stream
      { after with lastSnapshotTimestamp := max n.lastSnapshotTimestamp n.streamFrom }
  else after

def resetPhase (n : Node) : Node :=
  if n.syncTask = none then { n with phase := .bootstrappingSnapshots } else n

def startSteadyStateSync (n : Node) : Node :=
  if n.phase = .syncing ∧ n.syncTask = none then
    { n with syncTask := some ⟨n.lastSnapshotTimestamp, n.lastSnapshotTimestamp⟩ }
  else n

/-- One poll of the server's stream. -/
def pollSteady (peer : Peer) (cfg : SyncOrchestratorConfig) (n : Node) (s : SteadyStream)
    (p : Poll) : Node :=
  let after := { n with durable := n.durable ∪ p.written }
  if p.drained then
    let mark := (n.readPoll peer cfg.entityTypes s.confirmedTimestamp p).1
    { after.persistBoundary s.confirmedTimestamp mark p.cursorWritten p.frontierWritten with
      syncTask := some { s with confirmedTimestamp := mark } }
  else after

/-- A connection ends; the next one starts from what was confirmed. -/
def reconnect (n : Node) (s : SteadyStream) (cursorWritten frontierWritten : Bool) : Node :=
  { n.persistBoundary s.fromTimestamp s.confirmedTimestamp cursorWritten frontierWritten with
    syncTask := some { s with fromTimestamp := s.confirmedTimestamp }
    lastSnapshotTimestamp := max n.lastSnapshotTimestamp s.confirmedTimestamp }

def elsewhere (n : Node) (e : Elsewhere) : Node :=
  { n with
    now := n.now + e.elapsed
    durable := n.durable ∪ e.written
    processedSnapshots := n.processedSnapshots ∪ e.newlyMarked.toFinset
    syncFrontier := max n.syncFrontier e.frontier }

/-- What is to be done after a pass has failed. -/
def onError (cfg : SyncOrchestratorConfig) (n : Node) (rest : List Op) : List Op :=
  if n.straggling then rest else runBootstrap cfg

inductive Action where
  | resume
  | snapshots (p : SnapshotPass)
  | pointers (p : Poll)
  | reset
  | start
  /-- A pass ends with an error before it changes anything of the server. -/
  | fail
  /-- Another round for the servers held back. -/
  | straggle
  /-- Every server syncs. -/
  | forget
  | rebootstrap
  | addServer
  /-- The process ends and starts again: what it had in memory is lost. -/
  | restart
  | poll (p : Poll)
  | reconnect (cursorWritten frontierWritten : Bool)
  | elsewhere (e : Elsewhere)

def step (peer : Peer) (cfg : SyncOrchestratorConfig) (n : Node) : Action → Option Node
  | .resume =>
    match n.todo with
    | .resume :: rest => some { n.resumeFromCursor with todo := rest }
    | _ => none
  | .snapshots p =>
    match n.todo with
    | .snapshots f mark :: rest => some { n.bootstrapFromSnapshots peer cfg f mark p with todo := rest }
    | _ => none
  | .pointers p =>
    match n.todo with
    | .pointers f :: rest =>
      some { n.bootstrapFromPointerChanges peer f p with
        todo := if p.idle then rest else n.onError cfg rest }
    | _ => none
  | .reset =>
    match n.todo with
    | .reset :: rest => some { n.resetPhase with todo := rest }
    | _ => none
  | .start =>
    match n.todo with
    | .start :: rest => some { n.startSteadyStateSync with todo := rest }
    | _ => none
  | .fail =>
    match n.todo with
    | .resume :: _ => some { n with todo := runBootstrap cfg }
    | .snapshots _ _ :: rest => some { n with todo := n.onError cfg rest }
    | .pointers _ :: rest => some { n with todo := n.onError cfg rest }
    | _ => none
  | .straggle =>
    if n.todo = [] then some { n with todo := stragglerRound cfg, straggling := true } else none
  | .forget => if n.todo = [] ∧ n.phase = .syncing then some n.clearBookkeeping else none
  | .rebootstrap => some (n.rebootstrap cfg)
  | .addServer => some (n.addServer cfg)
  | .restart => some (n.addServer cfg).clearBookkeeping
  | .poll p => n.syncTask.map fun s => n.pollSteady peer cfg s p
  | .reconnect c f => n.syncTask.map fun s => n.reconnect s c f
  | .elsewhere e => some (n.elsewhere e)

end Node

end Catalyrst.Sync
