import Catalyrst.Lib.Texts

/-!
# Quests and their state (`state.rs`, `validation.rs`)

A quest is a directed graph of steps; a step is done when all its tasks are, and then its
successors become current. The state is replayed from events. An event is offered to the
current steps one after the other, in the order in which the hash map of the state before it
happens to be iterated: the order is an argument of `applyEvent`.
-/

namespace Catalyrst.Quests

open Catalyrst.Lib.Texts

abbrev Text := List Char

structure Action where
  type : Text
  parameters : AList fun _ : Text => Text

/-- Entry by entry, so that it evaluates. -/
instance : DecidableEq Action := fun a b =>
  decidable_of_iff (a.type = b.type ∧ a.parameters.entries = b.parameters.entries)
    ⟨fun h => by
      obtain ⟨typeA, paramsA⟩ := a
      obtain ⟨typeB, paramsB⟩ := b
      exact Action.mk.injEq .. ▸ ⟨h.1, AList.ext h.2⟩, fun h => h ▸ ⟨rfl, rfl⟩⟩

structure Task where
  id : Text
  description : Text
  actionItems : List Action
  deriving DecidableEq

structure Step where
  id : Text
  description : Text
  tasks : List Task
  deriving DecidableEq

structure Connection where
  stepFrom : Text
  stepTo : Text
  deriving DecidableEq

structure QuestDefinition where
  steps : List Step
  connections : List Connection
  deriving DecidableEq

structure Event where
  id : ℕ
  address : Text
  action : Option Action
  deriving DecidableEq

structure StepContent where
  toDos : List Task
  tasksCompleted : List Task
  deriving DecidableEq

abbrev CurrentSteps := Finmap fun _ : Text => StepContent

structure QuestState where
  currentSteps : CurrentSteps
  requiredSteps : List Text
  /-- A `u32`. -/
  stepsLeft : ℕ
  stepsCompleted : List Text
  deriving DecidableEq

def startStepId : Text := ['_', 'S', 'T', 'A', 'R', 'T', '_']
def endStepId : Text := ['_', 'E', 'N', 'D', '_']

namespace QuestDefinition

def containsStep (d : QuestDefinition) (stepId : Text) : Bool := d.steps.any fun s => s.id = stepId

def stepsWithoutTo (d : QuestDefinition) : List Text :=
  ((d.steps.map Step.id).filter fun id => !d.connections.any fun c => c.stepFrom = id).dedup

def stepsWithoutFrom (d : QuestDefinition) : List Text :=
  ((d.steps.map Step.id).filter fun id => !d.connections.any fun c => c.stepTo = id).dedup

end QuestDefinition

/-! ### The validator -/

inductive QuestValidationError where
  | invalidDefinition
  | noStartingNode
  | noEndNode
  | missingDescriptionForStep (stepId : Text)
  | missingDescriptionForTask (taskId : Text)
  | missingStepDefinition (stepId : Text)
  | notUniqueIdForStep (stepId : Text)
  | notUniqueIdForStepTask (stepId : Text)
  | missingTasksForStep (stepId : Text)
  | actionItemTypeNotValid (type : Text)
  | actionItemParametersNotValid (type : Text)
  deriving DecidableEq

abbrev Validated := Except QuestValidationError

def custom : Text := ['C', 'U', 'S', 'T', 'O', 'M']
def location : Text := ['L', 'O', 'C', 'A', 'T', 'I', 'O', 'N']
def emote : Text := ['E', 'M', 'O', 'T', 'E']
def jump : Text := ['J', 'U', 'M', 'P']

def Action.has (item : Action) (key : Text) : Bool := (item.parameters.lookup key).isSome

def validateActionItem (item : Action) : Validated Unit :=
  if item.type = custom then
    if item.parameters.entries = [] then .error (.actionItemParametersNotValid custom) else .ok ()
  else if item.type = location then
    if item.has ['x'] && item.has ['y'] then .ok ()
    else .error (.actionItemParametersNotValid location)
  else if item.type = emote then
    if item.has ['x'] && item.has ['y'] && item.has ['i', 'd'] then .ok ()
    else .error (.actionItemParametersNotValid emote)
  else if item.type = jump then
    if item.has ['x'] && item.has ['y'] then .ok ()
    else .error (.actionItemParametersNotValid jump)
  else .error (.actionItemTypeNotValid item.type)

/-- The loop over the tasks of a step; returns the task ids seen so far. -/
def validateTasks (stepId : Text) : List Text → List Task → Validated (List Text)
  | seen, [] => .ok seen
  | seen, task :: tasks => do
    if task.id ∈ seen then throw (.notUniqueIdForStepTask stepId)
    if task.description = [] then throw (.missingDescriptionForTask task.id)
    task.actionItems.forM validateActionItem
    validateTasks stepId (task.id :: seen) tasks

/-- The loop over the steps, with the task ids and the step ids seen so far. -/
def validateSteps : List Text → List Text → List Step → Validated Unit
  | _, _, [] => .ok ()
  | taskIds, stepIds, step :: steps => do
    if step.tasks = [] then throw (.missingTasksForStep step.id)
    if step.id ∈ stepIds then throw (.notUniqueIdForStep step.id)
    if step.description = [] then throw (.missingDescriptionForStep step.id)
    let taskIds ← validateTasks step.id taskIds step.tasks
    validateSteps taskIds (step.id :: stepIds) steps

def validateConnection (d : QuestDefinition) (c : Connection) : Validated Unit :=
  if !d.containsStep c.stepFrom then .error (.missingStepDefinition c.stepFrom)
  else if !d.containsStep c.stepTo then .error (.missingStepDefinition c.stepTo)
  else .ok ()

def validateDefinition (d : QuestDefinition) : Validated Unit := do
  if d.steps = [] then throw .invalidDefinition
  d.connections.forM (validateConnection d)
  if d.stepsWithoutFrom = [] then throw .noStartingNode
  if d.stepsWithoutTo = [] then throw .noEndNode
  validateSteps [] [] d.steps

/-! ### The graph -/

structure QuestGraph where
  edges : List (Text × Text)
  totalSteps : ℕ
  tasksByStep : Text → Option (List Task)

namespace QuestGraph

def next (g : QuestGraph) (source : Text) : List Text :=
  (g.edges.filter fun e => e.1 = source).map Prod.snd

def prev (g : QuestGraph) (target : Text) : List Text :=
  (g.edges.filter fun e => e.2 = target).map Prod.fst

def requiredForEnd (g : QuestGraph) : List Text := g.prev endStepId

/-- A later step overwrites an earlier one of the same id. -/
def ofDefinition (d : QuestDefinition) : QuestGraph where
  edges :=
    (d.connections.filter fun c => d.containsStep c.stepFrom && d.containsStep c.stepTo).map
        (fun c => (c.stepFrom, c.stepTo)) ++
      d.stepsWithoutTo.map (fun id => (id, endStepId)) ++
      d.stepsWithoutFrom.map fun id => (startStepId, id)
  totalSteps := d.steps.length
  tasksByStep := fun id => (d.steps.reverse.find? fun s => s.id = id).map Step.tasks

/-- A quest may have no definition. -/
def ofQuest : Option QuestDefinition → QuestGraph
  | some d => ofDefinition d
  | none => ⟨[], 0, fun _ => none⟩

/-- The content of a step nobody has worked on. -/
def fresh (g : QuestGraph) (stepId : Text) : StepContent := ⟨(g.tasksByStep stepId).getD [], []⟩

end QuestGraph

/-! ### Matching -/

def matchesAction (action other : Action) : Bool :=
  eqIgnoreAsciiCase action.type other.type &&
    (action.parameters.entries.length = other.parameters.entries.length) &&
    action.parameters.entries.all fun p =>
      match other.parameters.lookup p.1 with
      | some value => eqIgnoreAsciiCase p.2 value
      | none => false

/-- The task without its first matching item, if there is one. -/
def Task.strike (action : Action) (task : Task) : Option Task :=
  (task.actionItems.findIdx? fun item => matchesAction item action).map fun matched =>
    { task with actionItems := task.actionItems.eraseIdx matched }

def Task.isDone (task : Task) : Bool := task.actionItems = []

/-- A task that loses its last item leaves the to-dos. -/
def Task.remaining (action : Action) (task : Task) : Option Task :=
  match task.strike action with
  | some struck => if struck.isDone then none else some struck
  | none => some task

def StepContent.advance (action : Action) (step : StepContent) : StepContent where
  toDos := step.toDos.filterMap (Task.remaining action)
  tasksCompleted := step.tasksCompleted ++ step.toDos.filterMap fun task =>
    (task.strike action).filter Task.isDone

/-! ### Replay -/

def isCompleted (state : QuestState) : Bool :=
  state.requiredSteps.all fun step => state.stepsCompleted.contains step

def u32 : ℕ := 2 ^ 32

def initialState (g : QuestGraph) : QuestState where
  currentSteps := ((g.next startStepId).map fun step => ⟨step, g.fresh step⟩).toFinmap
  requiredSteps := g.requiredForEnd
  stepsLeft := g.totalSteps % u32
  stepsCompleted := []

/-- The successors of a finished step become current, whatever they were before. -/
def activate (g : QuestGraph) (steps : CurrentSteps) (succs : List Text) : CurrentSteps :=
  succs.foldl (fun steps succ => if succ ≠ endStepId then steps.insert succ (g.fresh succ) else steps)
    steps

def finishStep (g : QuestGraph) (state : QuestState) (stepId : Text) : QuestState :=
  { state with
    currentSteps := activate g (state.currentSteps.erase stepId) (g.next stepId)
    stepsLeft := state.stepsLeft - 1
    stepsCompleted := state.stepsCompleted ++ [stepId] }

/-- The body of the loop: `state` is the one before the event, `next` the one under way. -/
def visitStep (g : QuestGraph) (action : Action) (state : QuestState) (next : QuestState)
    (stepId : Text) : QuestState :=
  match state.currentSteps.lookup stepId with
  | none => next
  | some content =>
    if content.toDos = [] then next
    else
      match next.currentSteps.lookup stepId with
      | none => next
      | some step =>
        let next := { next with
          currentSteps := next.currentSteps.insert stepId (step.advance action) }
        if (step.advance action).toDos = [] then finishStep g next stepId else next

def applyEvent (g : QuestGraph) (order : List Text) (state : QuestState) (event : Event) :
    QuestState :=
  match event.action with
  | none => state
  | some action => order.foldl (visitStep g action state) state

/-- The lists in which the hash map may be iterated. -/
def Enumerates (order : List Text) (steps : CurrentSteps) : Prop :=
  order.Nodup ∧ order.toFinset = steps.keys

instance (order : List Text) (steps : CurrentSteps) : Decidable (Enumerates order steps) :=
  inferInstanceAs (Decidable (_ ∧ _))

/-- One event of a replay, with the order in which the map is iterated for it. -/
def replayStep (g : QuestGraph) (state : QuestState) (a : Event × List Text) : Option QuestState :=
  if Enumerates a.2 state.currentSteps then some (applyEvent g a.2 state a.1) else none

end Catalyrst.Quests
