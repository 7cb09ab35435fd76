import Mathlib
import Catalyrst.Lib.Instances
import Catalyrst.Lib.Machine

/-!
# The deployer of content sync

Streams hand entities to the batch deployer (`schedule_entity_deployment`), which
runs a task for each. A task puts its entity into the buffer of the sync deployer
and acknowledges it; the buffer is written to the database in batches by flush
tasks. The buffer is taken by a task that fills it, by the timer, and by `flush`,
which `on_idle` calls once no task is left. Whoever takes it counts its flush only
after the lock of the buffer is released: the two are steps of their own here, as
is every access to a counter that another step waits for.
-/

namespace Catalyrst.Sync

open Catalyrst.Lib

abbrev EntityId := List Char

/-- Which stream's report. -/
abbrev ReportId := ℕ

structure DeploymentReport where
  scheduled : ℕ
  acknowledged : ℕ
  lost : ℕ

namespace DeploymentReport

def new : DeploymentReport := ⟨0, 0, 0⟩

def recordLost (r : DeploymentReport) : DeploymentReport := { r with lost := r.lost + 1 }

def recordScheduled (r : DeploymentReport) : DeploymentReport :=
  { r with scheduled := r.scheduled + 1 }

def recordAcknowledged (r : DeploymentReport) : DeploymentReport :=
  { r with acknowledged := r.acknowledged + 1 }

def isComplete (r : DeploymentReport) : Bool := decide (r.scheduled ≤ r.acknowledged)

end DeploymentReport

/-- An entity of the buffer: what a flush needs to know of it. -/
structure ParsedEntity where
  entityId : EntityId
  report : Option ReportId
  deriving DecidableEq

def batchSize : ℕ := 500

/-! ### Processes -/

/-- Where a task of `schedule_entity_deployment` stands. -/
inductive TaskStage where
  /-- The queue's `in_flight` is raised. -/
  | counted
  /-- Counted as scheduled and spawned: downloading, then `deploy_entity`. -/
  | deploying
  /-- `deploy_entity` has taken the full buffer and is about to trigger its flush. -/
  | triggering (entities : List ParsedEntity)
  /-- The deployment failed and the failure is to be recorded. -/
  | failed
  /-- Deployed or recorded; to be acknowledged. -/
  | accounted
  /-- The queue's `in_flight` is to be lowered. -/
  | leaving
  | gone
  deriving DecidableEq

structure Task where
  entity : ParsedEntity
  stage : TaskStage

/-- Where a flush spawned by `spawn_flush` stands. -/
inductive FlushStage where
  | writing
  /-- The batch could not be written; `rest` is to be recorded, `seen` are the ids met. -/
  | recording (rest : List ParsedEntity) (seen : List EntityId)
  | leaving
  | gone
  deriving DecidableEq

structure Flush where
  entities : List ParsedEntity
  stage : FlushStage

/-- Where a call of `on_idle` stands. -/
inductive DrainStage where
  | waiting
  /-- No task was in flight; `flush` is about to take the buffer. -/
  | flushing
  | triggering (entities : List ParsedEntity)
  /-- `flush` waits for the flushes in flight. -/
  | polling
  | returned
  deriving DecidableEq

structure Drain where
  report : ReportId
  /-- What the stream had scheduled when it made the call. -/
  scheduled : List ParsedEntity
  stage : DrainStage

structure Deployer where
  /-- `LiveSyncDeployer::batch`. -/
  batch : List ParsedEntity
  /-- `BatchDeployer::in_flight`. -/
  tasksInFlight : ℕ
  /-- `LiveSyncDeployer::in_flight`. -/
  flushesInFlight : ℕ
  reports : ReportId → DeploymentReport
  deployments : Finset EntityId
  failedDeployments : Finset EntityId
  tasks : List Task
  flushes : List Flush
  drains : List Drain
  /-- What the timer has taken and not triggered yet. -/
  timer : Option (List ParsedEntity)
  /-- Everything handed to the deployer so far. -/
  scheduled : List ParsedEntity

namespace Deployer

def new : Deployer where
  batch := []
  tasksInFlight := 0
  flushesInFlight := 0
  reports _ := DeploymentReport.new
  deployments := ∅
  failedDeployments := ∅
  tasks := []
  flushes := []
  drains := []
  timer := none
  scheduled := []

/-! ### Steps -/

def modifyReport (s : Deployer) (report : Option ReportId)
    (f : DeploymentReport → DeploymentReport) : Deployer :=
  { s with
    reports := report.elim s.reports fun r => Function.update s.reports r (f (s.reports r)) }

def setTask (s : Deployer) (i : ℕ) (t : Task) (stage : TaskStage) : Deployer :=
  { s with tasks := s.tasks.set i { t with stage := stage } }

def setFlush (s : Deployer) (j : ℕ) (f : Flush) (stage : FlushStage) : Deployer :=
  { s with flushes := s.flushes.set j { f with stage := stage } }

def setDrain (s : Deployer) (k : ℕ) (d : Drain) (stage : DrainStage) : Deployer :=
  { s with drains := s.drains.set k { d with stage := stage } }

def spawnFlush (s : Deployer) (entities : List ParsedEntity) : Deployer :=
  if entities.isEmpty then s
  else
    { s with
      flushesInFlight := s.flushesInFlight + 1
      flushes := s.flushes ++ [⟨entities, .writing⟩] }

def reportFailure (s : Deployer) (id : EntityId) : Deployer :=
  { s with failedDeployments := insert id s.failedDeployments }

def scheduleEntityDeployment (s : Deployer) (entity : ParsedEntity) : Deployer :=
  { s with
    tasksInFlight := s.tasksInFlight + 1
    tasks := s.tasks ++ [⟨entity, .counted⟩]
    scheduled := s.scheduled ++ [entity] }

/-- The next step of a task; `ok` is how its deployment or its record of a failure goes. -/
def taskStep (s : Deployer) (i : ℕ) (ok : Bool) : Option Deployer :=
  s.tasks[i]?.bind fun t =>
    match t.stage with
    | .counted => some ((s.modifyReport t.entity.report .recordScheduled).setTask i t .deploying)
    | .deploying =>
      if ok then
        let buf := s.batch ++ [t.entity]
        if batchSize ≤ buf.length then
          some ({ s with batch := [] }.setTask i t (.triggering buf))
        else some ({ s with batch := buf }.setTask i t .accounted)
      else some (s.setTask i t .failed)
    | .triggering entities => some ((s.spawnFlush entities).setTask i t .accounted)
    | .failed =>
      if ok then some ((s.reportFailure t.entity.entityId).setTask i t .accounted)
      else some ((s.modifyReport t.entity.report .recordLost).setTask i t .leaving)
    | .accounted => some ((s.modifyReport t.entity.report .recordAcknowledged).setTask i t .leaving)
    | .leaving => some ({ s with tasksInFlight := s.tasksInFlight - 1 }.setTask i t .gone)
    | .gone => none

/-- The next step of a flush; `ok` is how its write or its record of a failure goes. -/
def flushStep (s : Deployer) (j : ℕ) (ok : Bool) : Option Deployer :=
  s.flushes[j]?.bind fun f =>
    match f.stage with
    | .writing =>
      if ok then
        let ids := (f.entities.map ParsedEntity.entityId).toFinset
        some ({ s with deployments := s.deployments ∪ ids }.setFlush j f .leaving)
      else some (s.setFlush j f (.recording f.entities []))
    | .recording [] _ => some (s.setFlush j f .leaving)
    | .recording (e :: rest) seen =>
      if e.entityId ∈ seen then some (s.setFlush j f (.recording rest seen))
      else if ok then
        some ((s.reportFailure e.entityId).setFlush j f (.recording rest (e.entityId :: seen)))
      else
        some ((s.modifyReport e.report .recordLost).setFlush j f
          (.recording rest (e.entityId :: seen)))
    | .leaving => some ({ s with flushesInFlight := s.flushesInFlight - 1 }.setFlush j f .gone)
    | .gone => none

/-- The background loop: it takes a buffer that is not empty, then triggers its flush. -/
def timerStep (s : Deployer) : Option Deployer :=
  match s.timer with
  | none => if s.batch.isEmpty then none else some { s with batch := [], timer := some s.batch }
  | some entities => some { s.spawnFlush entities with timer := none }

def callOnIdle (s : Deployer) (r : ReportId) : Deployer :=
  { s with
    drains := s.drains ++ [⟨r, s.scheduled.filter fun e => e.report = some r, .waiting⟩] }

/-- The next step of a call of `on_idle`, where it need not wait. -/
def drainStep (s : Deployer) (k : ℕ) : Option Deployer :=
  s.drains[k]?.bind fun d =>
    match d.stage with
    | .waiting => if s.tasksInFlight = 0 then some (s.setDrain k d .flushing) else none
    | .flushing => some ({ s with batch := [] }.setDrain k d (.triggering s.batch))
    | .triggering entities => some ((s.spawnFlush entities).setDrain k d .polling)
    | .polling => if s.flushesInFlight = 0 then some (s.setDrain k d .returned) else none
    | .returned => none

inductive Action where
  | schedule (entity : ParsedEntity)
  | onIdle (r : ReportId)
  | task (i : ℕ) (ok : Bool)
  | flush (j : ℕ) (ok : Bool)
  | timer
  | drain (k : ℕ)
  deriving DecidableEq

def step (s : Deployer) : Action → Option Deployer
  | .schedule entity => some (s.scheduleEntityDeployment entity)
  | .onIdle r => some (s.callOnIdle r)
  | .task i ok => s.taskStep i ok
  | .flush j ok => s.flushStep j ok
  | .timer => s.timerStep
  | .drain k => s.drainStep k

/-! ### What a step does -/

variable {s t : Deployer}

/-- A new flush changes the table of the flushes and their number only. -/
theorem spawnFlush_eq (s : Deployer) (entities : List ParsedEntity) :
    s.spawnFlush entities =
      { s with flushes := (s.spawnFlush entities).flushes
               flushesInFlight := (s.spawnFlush entities).flushesInFlight } := by
  unfold spawnFlush
  split
  · rfl
  · rfl

/-- The steps of a task, with the state that each leaves. -/
inductive TaskMove (s : Deployer) (i : ℕ) (a : Task) : Deployer → Prop
  | count (hst : a.stage = .counted) :
      TaskMove s i a ((s.modifyReport a.entity.report .recordScheduled).setTask i a .deploying)
  | fill (hfull : batchSize ≤ (s.batch ++ [a.entity]).length) (hst : a.stage = .deploying) :
      TaskMove s i a ({ s with batch := [] }.setTask i a (.triggering (s.batch ++ [a.entity])))
  | push (hroom : (s.batch ++ [a.entity]).length < batchSize) (hst : a.stage = .deploying) :
      TaskMove s i a ({ s with batch := s.batch ++ [a.entity] }.setTask i a .accounted)
  | fail (hst : a.stage = .deploying) : TaskMove s i a (s.setTask i a .failed)
  | trigger {entities : List ParsedEntity} (hst : a.stage = .triggering entities) :
      TaskMove s i a ((s.spawnFlush entities).setTask i a .accounted)
  | record (hst : a.stage = .failed) :
      TaskMove s i a ((s.reportFailure a.entity.entityId).setTask i a .accounted)
  | lose (hst : a.stage = .failed) :
      TaskMove s i a ((s.modifyReport a.entity.report .recordLost).setTask i a .leaving)
  | acknowledge (hst : a.stage = .accounted) :
      TaskMove s i a ((s.modifyReport a.entity.report .recordAcknowledged).setTask i a .leaving)
  | leave (hst : a.stage = .leaving) :
      TaskMove s i a ({ s with tasksInFlight := s.tasksInFlight - 1 }.setTask i a .gone)

theorem taskStep_move {i : ℕ} {ok : Bool} (h : s.taskStep i ok = some t) :
    ∃ a, s.tasks[i]? = some a ∧ TaskMove s i a t := by
  obtain ⟨a, ha, h⟩ := Option.bind_eq_some_iff.mp h
  refine ⟨a, ha, ?_⟩
  split at h
  · rename_i hst
    obtain rfl := Option.some.inj h
    exact .count hst
  · rename_i hst
    split at h
    · dsimp only at h
      split at h
      · rename_i hfull
        obtain rfl := Option.some.inj h
        exact .fill hfull hst
      · rename_i hroom
        obtain rfl := Option.some.inj h
        exact .push (not_le.mp hroom) hst
    · obtain rfl := Option.some.inj h
      exact .fail hst
  · rename_i entities hst
    obtain rfl := Option.some.inj h
    exact .trigger hst
  · rename_i hst
    split at h
    · obtain rfl := Option.some.inj h
      exact .record hst
    · obtain rfl := Option.some.inj h
      exact .lose hst
  · rename_i hst
    obtain rfl := Option.some.inj h
    exact .acknowledge hst
  · rename_i hst
    obtain rfl := Option.some.inj h
    exact .leave hst
  · cases h

/-- The steps of a flush, by how its write or its record of a failure goes. -/
inductive FlushMove (s : Deployer) (j : ℕ) (f : Flush) : Bool → Deployer → Prop
  | write (hst : f.stage = .writing) :
      FlushMove s j f true ({ s with deployments :=
        s.deployments ∪ (f.entities.map ParsedEntity.entityId).toFinset }.setFlush j f .leaving)
  | fail (hst : f.stage = .writing) :
      FlushMove s j f false (s.setFlush j f (.recording f.entities []))
  | recorded {seen : List EntityId} {ok : Bool} (hst : f.stage = .recording [] seen) :
      FlushMove s j f ok (s.setFlush j f .leaving)
  | met {e : ParsedEntity} {rest : List ParsedEntity} {seen : List EntityId} {ok : Bool}
      (hst : f.stage = .recording (e :: rest) seen) (hmet : e.entityId ∈ seen) :
      FlushMove s j f ok (s.setFlush j f (.recording rest seen))
  | record {e : ParsedEntity} {rest : List ParsedEntity} {seen : List EntityId}
      (hst : f.stage = .recording (e :: rest) seen) (hnew : e.entityId ∉ seen) :
      FlushMove s j f true
        ((s.reportFailure e.entityId).setFlush j f (.recording rest (e.entityId :: seen)))
  | lose {e : ParsedEntity} {rest : List ParsedEntity} {seen : List EntityId}
      (hst : f.stage = .recording (e :: rest) seen) (hnew : e.entityId ∉ seen) :
      FlushMove s j f false
        ((s.modifyReport e.report .recordLost).setFlush j f (.recording rest (e.entityId :: seen)))
  | leave {ok : Bool} (hst : f.stage = .leaving) :
      FlushMove s j f ok ({ s with flushesInFlight := s.flushesInFlight - 1 }.setFlush j f .gone)

theorem flushStep_move {j : ℕ} {ok : Bool} (h : s.flushStep j ok = some t) :
    ∃ f, s.flushes[j]? = some f ∧ FlushMove s j f ok t := by
  obtain ⟨f, hf, h⟩ := Option.bind_eq_some_iff.mp h
  refine ⟨f, hf, ?_⟩
  split at h
  · rename_i hst
    cases ok with
    | true =>
      obtain rfl := Option.some.inj h
      exact .write hst
    | false =>
      obtain rfl := Option.some.inj h
      exact .fail hst
  · rename_i hst
    obtain rfl := Option.some.inj h
    exact .recorded hst
  · rename_i x rest seen hst
    split at h
    · rename_i hmet
      obtain rfl := Option.some.inj h
      exact .met hst hmet
    · rename_i hnew
      cases ok with
      | true =>
        obtain rfl := Option.some.inj h
        exact .record hst hnew
      | false =>
        obtain rfl := Option.some.inj h
        exact .lose hst hnew
  · rename_i hst
    obtain rfl := Option.some.inj h
    exact .leave hst
  · cases h

/-- The steps of a call of `on_idle`, where it need not wait. -/
inductive DrainMove (s : Deployer) (k : ℕ) (d : Drain) : Deployer → Prop
  | idle (hst : d.stage = .waiting) (hidle : s.tasksInFlight = 0) :
      DrainMove s k d (s.setDrain k d .flushing)
  | take (hst : d.stage = .flushing) :
      DrainMove s k d ({ s with batch := [] }.setDrain k d (.triggering s.batch))
  | trigger {entities : List ParsedEntity} (hst : d.stage = .triggering entities) :
      DrainMove s k d ((s.spawnFlush entities).setDrain k d .polling)
  | done (hst : d.stage = .polling) (hdone : s.flushesInFlight = 0) :
      DrainMove s k d (s.setDrain k d .returned)

theorem drainStep_move {k : ℕ} (h : s.drainStep k = some t) :
    ∃ d, s.drains[k]? = some d ∧ DrainMove s k d t := by
  obtain ⟨d, hd, h⟩ := Option.bind_eq_some_iff.mp h
  refine ⟨d, hd, ?_⟩
  split at h
  · rename_i hst
    split at h
    · rename_i hidle
      obtain rfl := Option.some.inj h
      exact .idle hst hidle
    · cases h
  · rename_i hst
    obtain rfl := Option.some.inj h
    exact .take hst
  · rename_i entities hst
    obtain rfl := Option.some.inj h
    exact .trigger hst
  · rename_i hst
    split at h
    · rename_i hdone
      obtain rfl := Option.some.inj h
      exact .done hst hdone
    · cases h
  · cases h

end Deployer

end Catalyrst.Sync
