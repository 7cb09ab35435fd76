import Mathlib
import Catalyrst.Lib.Procs
import Catalyrst.Sync.Deployer

/-!
# What a drained report says

An entity that has been scheduled is, at any time, settled (written, recorded, or
counted as lost on its report), or held somewhere: by its task, in the buffer, by
whoever has taken the buffer, or by a flush. It moves through these in that order.
`on_idle` waits for the tasks, empties the buffer and waits for the flushes, so that
nothing of its stream is left but what another has taken and not counted yet.
-/

namespace Catalyrst.Sync

open Catalyrst.Lib

/-! ### Who holds an entity -/

/-- What the task still has to hand over or to record. -/
def Task.owed (t : Task) : List ParsedEntity :=
  match t.stage with
  | .counted | .deploying | .failed => [t.entity]
  | _ => []

/-- What the task has taken from the buffer and not triggered yet. -/
def Task.held (t : Task) : List ParsedEntity :=
  match t.stage with
  | .triggering entities => entities
  | _ => []

/-- What the flush still has to write or to record. -/
def Flush.owed (f : Flush) : List ParsedEntity :=
  match f.stage with
  | .writing => f.entities
  | .recording rest _ => rest
  | _ => []

/-- The entity a failing flush is about to record stands in the rest of the batch for no other
report. -/
def FlushStage.OneReport : FlushStage → Prop
  | .recording (e :: rest) seen =>
    e.entityId ∉ seen → ∀ e' ∈ rest, e'.entityId = e.entityId → e'.report = e.report
  | _ => True

def Drain.held (d : Drain) : List ParsedEntity :=
  match d.stage with
  | .triggering entities => entities
  | _ => []

namespace Deployer

variable {s t : Deployer} {e : ParsedEntity}

/-- What has been taken from the buffer and is in no flush yet. -/
def taken (s : Deployer) : List ParsedEntity :=
  s.tasks.flatMap Task.held ++ (s.timer.getD [] ++ s.drains.flatMap Drain.held)

theorem mem_taken : e ∈ s.taken ↔
    e ∈ s.tasks.flatMap Task.held ∨ e ∈ s.timer.getD [] ∨ e ∈ s.drains.flatMap Drain.held := by
  rw [taken, List.mem_append, List.mem_append]

/-- Written, recorded, or counted as lost on its report. -/
def Settled (s : Deployer) (e : ParsedEntity) : Prop :=
  (e.entityId ∈ s.deployments ∨ e.entityId ∈ s.failedDeployments) ∨
    ∀ r, e.report = some r → 0 < (s.reports r).lost

def Dispatched (s : Deployer) (e : ParsedEntity) : Prop :=
  s.Settled e ∨ e ∈ s.taken ∨ e ∈ s.flushes.flatMap Flush.owed

def Handed (s : Deployer) (e : ParsedEntity) : Prop := s.Dispatched e ∨ e ∈ s.batch

def Tracked (s : Deployer) (e : ParsedEntity) : Prop :=
  s.Handed e ∨ e ∈ s.tasks.flatMap Task.owed

/-- Nothing falls back or gets lost on the way from `s` to `t`. -/
structure Keeps (s t : Deployer) : Prop where
  settled : ∀ e, s.Settled e → t.Settled e
  taken : ∀ e ∈ s.taken, t.Dispatched e
  flushes : ∀ e ∈ s.flushes.flatMap Flush.owed, t.Dispatched e
  batch : ∀ e ∈ s.batch, t.Handed e
  tasks : ∀ e ∈ s.tasks.flatMap Task.owed, t.Tracked e

namespace Keeps

theorem dispatched (h : Keeps s t) (he : s.Dispatched e) : t.Dispatched e := by
  rcases he with he | he | he
  · exact Or.inl (h.settled e he)
  · exact h.taken e he
  · exact h.flushes e he

theorem handed (h : Keeps s t) (he : s.Handed e) : t.Handed e := by
  rcases he with he | he
  · exact Or.inl (h.dispatched he)
  · exact h.batch e he

theorem tracked (h : Keeps s t) (he : s.Tracked e) : t.Tracked e := by
  rcases he with he | he
  · exact Or.inl (h.handed he)
  · exact h.tasks e he

theorem trans {u : Deployer} (h : Keeps s t) (h' : Keeps t u) : Keeps s u where
  settled e he := h'.settled e (h.settled e he)
  taken e he := h'.dispatched (h.taken e he)
  flushes e he := h'.dispatched (h.flushes e he)
  batch e he := h'.handed (h.batch e he)
  tasks e he := h'.tracked (h.tasks e he)

end Keeps

theorem Settled.mono (hd : s.deployments ⊆ t.deployments)
    (hf : s.failedDeployments ⊆ t.failedDeployments)
    (hl : ∀ r, (s.reports r).lost ≤ (t.reports r).lost) (h : s.Settled e) : t.Settled e := by
  rcases h with (h | h) | h
  · exact Or.inl (Or.inl (hd h))
  · exact Or.inl (Or.inr (hf h))
  · exact Or.inr fun r hr => lt_of_lt_of_le (h r hr) (hl r)

/-- A change of the tables and counters that leaves what is held where it is. -/
theorem Keeps.of_same (hset : ∀ e, s.Settled e → t.Settled e) (htaken : s.taken ⊆ t.taken)
    (hflush : s.flushes.flatMap Flush.owed ⊆ t.flushes.flatMap Flush.owed)
    (hbatch : s.batch ⊆ t.batch)
    (htasks : s.tasks.flatMap Task.owed ⊆ t.tasks.flatMap Task.owed) : Keeps s t where
  settled := hset
  taken _ he := Or.inr (Or.inl (htaken he))
  flushes _ he := Or.inr (Or.inr (hflush he))
  batch _ he := Or.inr (hbatch he)
  tasks _ he := Or.inr (htasks he)

/-! ### The parts of a step -/

theorem le_lost_modifyReport (s : Deployer) (report : Option ReportId)
    {f : DeploymentReport → DeploymentReport} (hf : ∀ r, r.lost ≤ (f r).lost) (r : ReportId) :
    (s.reports r).lost ≤ ((s.modifyReport report f).reports r).lost := by
  cases report with
  | none => exact le_rfl
  | some r' =>
    show _ ≤ (Function.update s.reports r' (f (s.reports r')) r).lost
    by_cases h : r = r'
    · rw [h, Function.update_self]
      exact hf _
    · rw [Function.update_of_ne h]

theorem keeps_modifyReport (s : Deployer) (report : Option ReportId)
    {f : DeploymentReport → DeploymentReport} (hf : ∀ r, r.lost ≤ (f r).lost) :
    Keeps s (s.modifyReport report f) :=
  Keeps.of_same
    (fun _ => Settled.mono (Finset.Subset.refl _) (Finset.Subset.refl _)
      (s.le_lost_modifyReport report hf))
    (List.Subset.refl _) (List.Subset.refl _) (List.Subset.refl _) (List.Subset.refl _)

/-- A loss counted on the report of an entity settles it. -/
theorem settled_recordLost (s : Deployer) {report : Option ReportId} (h : e.report = report) :
    (s.modifyReport report .recordLost).Settled e := by
  refine Or.inr fun r hr => ?_
  rw [← h, hr]
  show 0 < (Function.update s.reports r (s.reports r).recordLost r).lost
  rw [Function.update_self]
  exact Nat.succ_pos _

theorem keeps_reportFailure (s : Deployer) (id : EntityId) : Keeps s (s.reportFailure id) :=
  Keeps.of_same
    (fun _ => Settled.mono (Finset.Subset.refl _) (Finset.subset_insert _ _) fun _ => le_rfl)
    (List.Subset.refl _) (List.Subset.refl _) (List.Subset.refl _) (List.Subset.refl _)

theorem keeps_deployments (s : Deployer) (ids : Finset EntityId) :
    Keeps s { s with deployments := s.deployments ∪ ids } :=
  Keeps.of_same
    (fun _ => Settled.mono Finset.subset_union_left (Finset.Subset.refl _) fun _ => le_rfl)
    (List.Subset.refl _) (List.Subset.refl _) (List.Subset.refl _) (List.Subset.refl _)

theorem settled_reportFailure (s : Deployer) (e : ParsedEntity) :
    (s.reportFailure e.entityId).Settled e :=
  Or.inl (Or.inr (Finset.mem_insert_self _ _))

theorem owed_subset_spawnFlush (s : Deployer) (entities : List ParsedEntity) :
    s.flushes.flatMap Flush.owed ⊆ (s.spawnFlush entities).flushes.flatMap Flush.owed := by
  unfold spawnFlush
  split
  · exact List.Subset.refl _
  · rw [List.flatMap_append]
    exact List.subset_append_left _ _

theorem keeps_spawnFlush (s : Deployer) (entities : List ParsedEntity) :
    Keeps s (s.spawnFlush entities) := by
  have howed := s.owed_subset_spawnFlush entities
  rw [s.spawnFlush_eq entities] at howed ⊢
  exact Keeps.of_same (fun _ h => h) (List.Subset.refl _) howed (List.Subset.refl _)
    (List.Subset.refl _)

theorem mem_owed_spawnFlush (s : Deployer) {entities : List ParsedEntity} (he : e ∈ entities) :
    e ∈ (s.spawnFlush entities).flushes.flatMap Flush.owed := by
  have hne : entities.isEmpty = false := by
    rw [List.isEmpty_eq_false_iff]
    exact List.ne_nil_of_mem he
  rw [spawnFlush, hne, if_neg Bool.false_ne_true, List.flatMap_append]
  exact List.mem_append_right _ (List.mem_flatMap.mpr ⟨_, List.mem_singleton_self _, he⟩)

theorem keeps_push (s : Deployer) (e : ParsedEntity) :
    Keeps s { s with batch := s.batch ++ [e] } :=
  Keeps.of_same (fun _ h => h) (List.Subset.refl _) (List.Subset.refl _)
    (List.subset_append_left _ _) (List.Subset.refl _)

/-- The buffer is taken: its entities are with whoever took it. -/
theorem Keeps.of_emptied (h : Keeps { s with batch := [] } t) (hbatch : ∀ e ∈ s.batch, t.Handed e) :
    Keeps s t where
  settled := h.settled
  taken := h.taken
  flushes := h.flushes
  batch := hbatch
  tasks := h.tasks

/-! ### One process moves on -/

section

variable {i : ℕ}

theorem keeps_setTask {a : Task} (h : s.tasks[i]? = some a) (stage : TaskStage)
    (hheld : ∀ e ∈ a.held, (s.setTask i a stage).Dispatched e)
    (howed : ∀ e ∈ a.owed, (s.setTask i a stage).Tracked e) : Keeps s (s.setTask i a stage) where
  settled _ he := he
  taken e he := by
    rcases List.mem_append.mp he with he | he
    · rcases Procs.mem_flatMap_set h { a with stage := stage } he with he | he
      · exact hheld e he
      · exact Or.inr (Or.inl (List.mem_append_left _ he))
    · exact Or.inr (Or.inl (List.mem_append_right _ he))
  flushes _ he := Or.inr (Or.inr he)
  batch _ he := Or.inr he
  tasks e he := by
    rcases Procs.mem_flatMap_set h { a with stage := stage } he with he | he
    · exact howed e he
    · exact Or.inr he

theorem keeps_setFlush {f : Flush} (h : s.flushes[i]? = some f) (stage : FlushStage)
    (howed : ∀ e ∈ f.owed, (s.setFlush i f stage).Dispatched e) :
    Keeps s (s.setFlush i f stage) where
  settled _ he := he
  taken _ he := Or.inr (Or.inl he)
  flushes e he := by
    rcases Procs.mem_flatMap_set h { f with stage := stage } he with he | he
    · exact howed e he
    · exact Or.inr (Or.inr he)
  batch _ he := Or.inr he
  tasks _ he := Or.inr he

theorem keeps_setDrain {d : Drain} (h : s.drains[i]? = some d) (stage : DrainStage)
    (hheld : ∀ e ∈ d.held, (s.setDrain i d stage).Dispatched e) :
    Keeps s (s.setDrain i d stage) where
  settled _ he := he
  taken e he := by
    rcases List.mem_append.mp he with he | he
    · exact Or.inr (Or.inl (List.mem_append_left _ he))
    · rcases List.mem_append.mp he with he | he
      · exact Or.inr (Or.inl (List.mem_append_right _ (List.mem_append_left _ he)))
      · rcases Procs.mem_flatMap_set h { d with stage := stage } he with he | he
        · exact hheld e he
        · exact Or.inr (Or.inl (List.mem_append_right _ (List.mem_append_right _ he)))
  flushes _ he := Or.inr (Or.inr he)
  batch _ he := Or.inr he
  tasks _ he := Or.inr he

theorem mem_taken_setTask {a : Task} (h : s.tasks[i]? = some a) {entities : List ParsedEntity}
    (he : e ∈ entities) : e ∈ (s.setTask i a (.triggering entities)).taken :=
  List.mem_append_left _ (Procs.mem_flatMap_set_self h he)

theorem mem_taken_setDrain {d : Drain} (h : s.drains[i]? = some d) {entities : List ParsedEntity}
    (he : e ∈ entities) : e ∈ (s.setDrain i d (.triggering entities)).taken :=
  List.mem_append_right _ (List.mem_append_right _ (Procs.mem_flatMap_set_self h he))

end

/-! ### What a step keeps -/

theorem taskStep_keeps {i : ℕ} {ok : Bool} (h : s.taskStep i ok = some t) : Keeps s t := by
  obtain ⟨a, ha, hmove⟩ := taskStep_move h
  cases hmove with
  | count hst =>
    have hk : Keeps s (s.modifyReport a.entity.report .recordScheduled) :=
      s.keeps_modifyReport a.entity.report fun _ => le_rfl
    have ha' : (s.modifyReport a.entity.report .recordScheduled).tasks[i]? = some a := ha
    refine hk.trans (keeps_setTask ha' _ (by simp [Task.held, hst]) ?_)
    intro e he
    refine Or.inr (Procs.mem_flatMap_set_self ha ?_)
    simpa [Task.owed, hst] using he
  | fill _ hst =>
    have ha' : ({ s with batch := [] } : Deployer).tasks[i]? = some a := ha
    refine Keeps.of_emptied (keeps_setTask ha' _ (by simp [Task.held, hst]) ?_) ?_
    · intro e he
      have hself : e = a.entity := by simpa [Task.owed, hst] using he
      refine Or.inl (Or.inl (Or.inr (Or.inl (mem_taken_setTask ha' ?_))))
      rw [hself]
      exact List.mem_append_right _ (List.mem_singleton_self _)
    · intro e he
      exact Or.inl (Or.inr (Or.inl (mem_taken_setTask ha' (List.mem_append_left _ he))))
  | push _ hst =>
    have ha' : ({ s with batch := s.batch ++ [a.entity] } : Deployer).tasks[i]? = some a := ha
    refine (s.keeps_push a.entity).trans (keeps_setTask ha' _ (by simp [Task.held, hst]) ?_)
    intro e he
    have hself : e = a.entity := by simpa [Task.owed, hst] using he
    rw [hself]
    exact Or.inl (Or.inr (List.mem_append_right _ (List.mem_singleton_self _)))
  | fail hst =>
    refine keeps_setTask ha _ (by simp [Task.held, hst]) ?_
    intro e he
    refine Or.inr (Procs.mem_flatMap_set_self ha ?_)
    simpa [Task.owed, hst] using he
  | @trigger entities hst =>
    have ha' : (s.spawnFlush entities).tasks[i]? = some a := by
      rw [s.spawnFlush_eq entities]
      exact ha
    refine (s.keeps_spawnFlush entities).trans
      (keeps_setTask ha' _ ?_ (by simp [Task.owed, hst]))
    intro e he
    have he' : e ∈ entities := by simpa [Task.held, hst] using he
    exact Or.inr (Or.inr (s.mem_owed_spawnFlush he'))
  | record hst =>
    have ha' : (s.reportFailure a.entity.entityId).tasks[i]? = some a := ha
    refine (s.keeps_reportFailure _).trans (keeps_setTask ha' _ (by simp [Task.held, hst]) ?_)
    intro e he
    have hself : e = a.entity := by simpa [Task.owed, hst] using he
    rw [hself]
    exact Or.inl (Or.inl (Or.inl (s.settled_reportFailure a.entity)))
  | lose hst =>
    have hk : Keeps s (s.modifyReport a.entity.report .recordLost) :=
      s.keeps_modifyReport a.entity.report fun _ => Nat.le_succ _
    have ha' : (s.modifyReport a.entity.report .recordLost).tasks[i]? = some a := ha
    refine hk.trans (keeps_setTask ha' _ (by simp [Task.held, hst]) ?_)
    intro e he
    have hself : e = a.entity := by simpa [Task.owed, hst] using he
    rw [hself]
    exact Or.inl (Or.inl (Or.inl (s.settled_recordLost rfl)))
  | acknowledge hst =>
    have hk : Keeps s (s.modifyReport a.entity.report .recordAcknowledged) :=
      s.keeps_modifyReport a.entity.report fun _ => le_rfl
    have ha' : (s.modifyReport a.entity.report .recordAcknowledged).tasks[i]? = some a := ha
    exact hk.trans (keeps_setTask ha' _ (by simp [Task.held, hst]) (by simp [Task.owed, hst]))
  | leave hst =>
    have ha' : ({ s with tasksInFlight := s.tasksInFlight - 1 } : Deployer).tasks[i]? = some a := ha
    have hk := keeps_setTask ha' .gone (by simp [Task.held, hst]) (by simp [Task.owed, hst])
    exact ⟨hk.settled, hk.taken, hk.flushes, hk.batch, hk.tasks⟩

/-- A step that keeps clear of the two slips of the code: a loss counted for an entity while
the rest of the batch holds the same entity for another report, and a return of `on_idle`
while an entity of its stream has been taken from the buffer and its flush is not counted. -/
def Careful (s : Deployer) : Action → Prop
  | .flush j ok => ok = false → ∀ f ∈ s.flushes[j]?.toList, f.stage.OneReport
  | .drain k => ∀ d ∈ s.drains[k]?.toList, d.stage = .polling →
      ∀ e ∈ s.taken, e.report ≠ some d.report
  | _ => True

/-- The entities a failing flush has met are settled. -/
def SeenSettled (s : Deployer) : Prop :=
  ∀ f ∈ s.flushes, ∀ rest seen, f.stage = .recording rest seen →
    ∀ e ∈ rest, e.entityId ∈ seen → s.Settled e

theorem flushStep_keeps {j : ℕ} {ok : Bool} (hseen : s.SeenSettled)
    (h : s.flushStep j ok = some t) : Keeps s t := by
  obtain ⟨f, hf, hmove⟩ := flushStep_move h
  have hrest : ∀ (s' : Deployer) (rest : List ParsedEntity) (seen' : List EntityId),
      s'.flushes[j]? = some f → ∀ e ∈ rest,
        (s'.setFlush j f (.recording rest seen')).Dispatched e :=
    fun s' rest seen' hf' e he => Or.inr (Or.inr (Procs.mem_flatMap_set_self hf' he))
  cases hmove with
  | write hst =>
    have hf' : ({ s with deployments :=
        s.deployments ∪ (f.entities.map ParsedEntity.entityId).toFinset } : Deployer).flushes[j]? =
      some f := hf
    refine (s.keeps_deployments _).trans (keeps_setFlush hf' _ ?_)
    intro e he
    have hin : e ∈ f.entities := by simpa [Flush.owed, hst] using he
    refine Or.inl (Or.inl (Or.inl (Finset.mem_union_right _ ?_)))
    rw [List.mem_toFinset]
    exact List.mem_map_of_mem hin
  | fail hst =>
    refine keeps_setFlush hf _ ?_
    intro e he
    have hin : e ∈ f.entities := by simpa [Flush.owed, hst] using he
    exact hrest s f.entities [] hf e hin
  | recorded hst => exact keeps_setFlush hf _ (by simp [Flush.owed, hst])
  | @met x rest seen _ hst hmet =>
    refine keeps_setFlush hf _ ?_
    intro e he
    have hcase : e = x ∨ e ∈ rest := by simpa [Flush.owed, hst] using he
    rcases hcase with rfl | he
    · exact Or.inl (hseen f (List.mem_of_getElem? hf) _ _ hst e List.mem_cons_self hmet)
    · exact hrest s rest seen hf e he
  | @record x rest seen hst _ =>
    have hf' : (s.reportFailure x.entityId).flushes[j]? = some f := hf
    refine (s.keeps_reportFailure _).trans (keeps_setFlush hf' _ ?_)
    intro e he
    have hcase : e = x ∨ e ∈ rest := by simpa [Flush.owed, hst] using he
    rcases hcase with rfl | he
    · exact Or.inl (s.settled_reportFailure e)
    · exact hrest _ rest _ hf' e he
  | @lose x rest seen hst _ =>
    have hk : Keeps s (s.modifyReport x.report .recordLost) :=
      s.keeps_modifyReport x.report fun _ => Nat.le_succ _
    have hf' : (s.modifyReport x.report .recordLost).flushes[j]? = some f := hf
    refine hk.trans (keeps_setFlush hf' _ ?_)
    intro e he
    have hcase : e = x ∨ e ∈ rest := by simpa [Flush.owed, hst] using he
    rcases hcase with rfl | he
    · exact Or.inl (s.settled_recordLost rfl)
    · exact hrest _ rest _ hf' e he
  | leave hst =>
    have hf' : ({ s with flushesInFlight := s.flushesInFlight - 1 } : Deployer).flushes[j]? =
      some f := hf
    have hk := keeps_setFlush hf' .gone (by simp [Flush.owed, hst])
    exact ⟨hk.settled, hk.taken, hk.flushes, hk.batch, hk.tasks⟩

theorem timerStep_keeps (h : s.timerStep = some t) : Keeps s t := by
  unfold timerStep at h
  split at h
  · rename_i htimer
    split at h
    · cases h
    · obtain rfl := Option.some.inj h
      refine ⟨fun _ he => he, ?_, fun _ he => Or.inr (Or.inr he), ?_, fun _ he => Or.inr he⟩
      · intro e he
        rw [mem_taken, htimer] at he
        refine Or.inr (Or.inl (mem_taken.mpr ?_))
        rcases he with he | he | he
        · exact Or.inl he
        · exact absurd he List.not_mem_nil
        · exact Or.inr (Or.inr he)
      · intro e he
        exact Or.inl (Or.inr (Or.inl (mem_taken.mpr (Or.inr (Or.inl he)))))
  · rename_i entities htimer
    obtain rfl := Option.some.inj h
    have hnew : ∀ e ∈ entities, e ∈ (s.spawnFlush entities).flushes.flatMap Flush.owed :=
      fun _ he => s.mem_owed_spawnFlush he
    have howed := s.owed_subset_spawnFlush entities
    rw [s.spawnFlush_eq entities] at hnew howed ⊢
    refine ⟨fun _ he => he, ?_, fun _ he => Or.inr (Or.inr (howed he)), fun _ he => Or.inr he,
      fun _ he => Or.inr he⟩
    intro e he
    rw [mem_taken, htimer] at he
    rcases he with he | he | he
    · exact Or.inr (Or.inl (mem_taken.mpr (Or.inl he)))
    · exact Or.inr (Or.inr (hnew e he))
    · exact Or.inr (Or.inl (mem_taken.mpr (Or.inr (Or.inr he))))

theorem drainStep_keeps {k : ℕ} (h : s.drainStep k = some t) : Keeps s t := by
  obtain ⟨d, hd, hmove⟩ := drainStep_move h
  cases hmove with
  | idle hst _ => exact keeps_setDrain hd _ (by simp [Drain.held, hst])
  | take hst =>
    have hd' : ({ s with batch := [] } : Deployer).drains[k]? = some d := hd
    refine Keeps.of_emptied (keeps_setDrain hd' _ (by simp [Drain.held, hst])) ?_
    intro e he
    exact Or.inl (Or.inr (Or.inl (mem_taken_setDrain hd' he)))
  | @trigger entities hst =>
    have hd' : (s.spawnFlush entities).drains[k]? = some d := by
      rw [s.spawnFlush_eq entities]
      exact hd
    refine (s.keeps_spawnFlush entities).trans (keeps_setDrain hd' _ ?_)
    intro e he
    have he' : e ∈ entities := by simpa [Drain.held, hst] using he
    exact Or.inr (Or.inr (s.mem_owed_spawnFlush he'))
  | done hst _ => exact keeps_setDrain hd _ (by simp [Drain.held, hst])

theorem schedule_keeps (s : Deployer) (x : ParsedEntity) :
    Keeps s (s.scheduleEntityDeployment x) := by
  refine ⟨fun _ he => he, ?_, fun _ he => Or.inr (Or.inr he), fun _ he => Or.inr he, ?_⟩
  · intro e he
    refine Or.inr (Or.inl (mem_taken.mpr ?_))
    simp only [scheduleEntityDeployment, List.flatMap_append]
    exact (mem_taken.mp he).imp_left (List.mem_append_left _)
  · intro e he
    refine Or.inr ?_
    simp only [scheduleEntityDeployment, List.flatMap_append]
    exact List.mem_append_left _ he

theorem onIdle_keeps (s : Deployer) (r : ReportId) : Keeps s (s.callOnIdle r) := by
  refine ⟨fun _ he => he, ?_, fun _ he => Or.inr (Or.inr he), fun _ he => Or.inr he,
    fun _ he => Or.inr he⟩
  intro e he
  refine Or.inr (Or.inl (mem_taken.mpr ?_))
  simp only [callOnIdle, List.flatMap_append]
  exact (mem_taken.mp he).imp_right fun h => h.imp_right (List.mem_append_left _)

theorem step_keeps {a : Action} (hseen : s.SeenSettled) (h : s.step a = some t) : Keeps s t := by
  cases a with
  | schedule x =>
    obtain rfl := Option.some.inj h
    exact s.schedule_keeps x
  | onIdle r =>
    obtain rfl := Option.some.inj h
    exact s.onIdle_keeps r
  | task i ok => exact taskStep_keeps h
  | flush j ok => exact flushStep_keeps hseen h
  | timer => exact timerStep_keeps h
  | drain k => exact drainStep_keeps h

/-! ### The counters -/

end Deployer

def Task.live (t : Task) : Bool := decide (t.stage ≠ .gone)

def Flush.live (f : Flush) : Bool := decide (f.stage ≠ .gone)

namespace Deployer

variable {s t : Deployer} {e : ParsedEntity}

/-- The counters count the processes that have not gone. -/
structure Counted (s : Deployer) : Prop where
  tasks : s.tasksInFlight = s.tasks.countP Task.live
  flushes : s.flushesInFlight = s.flushes.countP Flush.live

/-- What a step of a task does to the tables: it moves the task on, lowers the counter when
the task goes, and may spawn a flush. -/
theorem taskStep_shape {i : ℕ} {ok : Bool} (h : s.taskStep i ok = some t) :
    ∃ a stage entities, s.tasks[i]? = some a ∧ a.live = true ∧
      t.tasks = s.tasks.set i { a with stage := stage } ∧
      t.tasksInFlight = (if Task.live { a with stage := stage } then s.tasksInFlight
        else s.tasksInFlight - 1) ∧
      t.flushes = (s.spawnFlush entities).flushes ∧
      t.flushesInFlight = (s.spawnFlush entities).flushesInFlight ∧
      t.drains = s.drains ∧ t.scheduled = s.scheduled := by
  obtain ⟨a, ha, hmove⟩ := taskStep_move h
  have hlive : a.live = true := by cases hmove <;> rename_i hst <;> simp [Task.live, hst]
  cases hmove with
  | count hst => exact ⟨a, _, [], ha, hlive, rfl, rfl, rfl, rfl, rfl, rfl⟩
  | fill _ hst => exact ⟨a, _, [], ha, hlive, rfl, rfl, rfl, rfl, rfl, rfl⟩
  | push _ hst => exact ⟨a, _, [], ha, hlive, rfl, rfl, rfl, rfl, rfl, rfl⟩
  | fail hst => exact ⟨a, _, [], ha, hlive, rfl, rfl, rfl, rfl, rfl, rfl⟩
  | @trigger entities hst =>
    refine ⟨a, .accounted, entities, ha, hlive, ?_, ?_, rfl, rfl, ?_, ?_⟩
    all_goals
      rw [s.spawnFlush_eq entities]
      rfl
  | record hst => exact ⟨a, _, [], ha, hlive, rfl, rfl, rfl, rfl, rfl, rfl⟩
  | lose hst => exact ⟨a, _, [], ha, hlive, rfl, rfl, rfl, rfl, rfl, rfl⟩
  | acknowledge hst => exact ⟨a, _, [], ha, hlive, rfl, rfl, rfl, rfl, rfl, rfl⟩
  | leave hst => exact ⟨a, _, [], ha, hlive, rfl, rfl, rfl, rfl, rfl, rfl⟩

theorem flushStep_shape {j : ℕ} {ok : Bool} (h : s.flushStep j ok = some t) :
    ∃ f stage, s.flushes[j]? = some f ∧ f.live = true ∧
      t.flushes = s.flushes.set j { f with stage := stage } ∧
      t.flushesInFlight = (if Flush.live { f with stage := stage } then s.flushesInFlight
        else s.flushesInFlight - 1) ∧
      t.tasks = s.tasks ∧ t.tasksInFlight = s.tasksInFlight ∧
      t.drains = s.drains ∧ t.scheduled = s.scheduled := by
  obtain ⟨f, hf, hmove⟩ := flushStep_move h
  cases hmove with
  | write hst => exact ⟨f, _, hf, by simp [Flush.live, hst], rfl, rfl, rfl, rfl, rfl, rfl⟩
  | fail hst => exact ⟨f, _, hf, by simp [Flush.live, hst], rfl, rfl, rfl, rfl, rfl, rfl⟩
  | recorded hst => exact ⟨f, _, hf, by simp [Flush.live, hst], rfl, rfl, rfl, rfl, rfl, rfl⟩
  | met hst _ => exact ⟨f, _, hf, by simp [Flush.live, hst], rfl, rfl, rfl, rfl, rfl, rfl⟩
  | record hst _ => exact ⟨f, _, hf, by simp [Flush.live, hst], rfl, rfl, rfl, rfl, rfl, rfl⟩
  | lose hst _ => exact ⟨f, _, hf, by simp [Flush.live, hst], rfl, rfl, rfl, rfl, rfl, rfl⟩
  | leave hst => exact ⟨f, _, hf, by simp [Flush.live, hst], rfl, rfl, rfl, rfl, rfl, rfl⟩

theorem timerStep_shape (h : s.timerStep = some t) :
    ∃ entities, t.flushes = (s.spawnFlush entities).flushes ∧
      t.flushesInFlight = (s.spawnFlush entities).flushesInFlight ∧
      t.tasks = s.tasks ∧ t.tasksInFlight = s.tasksInFlight ∧
      t.drains = s.drains ∧ t.scheduled = s.scheduled := by
  unfold timerStep at h
  split at h
  · split at h
    · cases h
    · obtain rfl := Option.some.inj h
      exact ⟨[], rfl, rfl, rfl, rfl, rfl, rfl⟩
  · rename_i entities _
    obtain rfl := Option.some.inj h
    refine ⟨entities, rfl, rfl, ?_, ?_, ?_, ?_⟩
    all_goals rw [s.spawnFlush_eq entities]

/-- How a call of `on_idle` goes on, with what it has waited for. -/
inductive Advances (s : Deployer) : DrainStage → DrainStage → List ParsedEntity → Prop
  | idle (h : s.tasksInFlight = 0) : Advances s .waiting .flushing []
  | take : Advances s .flushing (.triggering s.batch) []
  | trigger (entities : List ParsedEntity) :
      Advances s (.triggering entities) .polling entities
  | done (h : s.flushesInFlight = 0) : Advances s .polling .returned []

theorem drainStep_shape {k : ℕ} (h : s.drainStep k = some t) :
    ∃ d stage entities, s.drains[k]? = some d ∧ s.Advances d.stage stage entities ∧
      t.drains = s.drains.set k { d with stage := stage } ∧
      t.flushes = (s.spawnFlush entities).flushes ∧
      t.flushesInFlight = (s.spawnFlush entities).flushesInFlight ∧
      t.tasks = s.tasks ∧ t.tasksInFlight = s.tasksInFlight ∧ t.scheduled = s.scheduled := by
  obtain ⟨d, hd, hmove⟩ := drainStep_move h
  cases hmove with
  | idle hst hidle => exact ⟨d, _, [], hd, hst ▸ .idle hidle, rfl, rfl, rfl, rfl, rfl, rfl⟩
  | take hst => exact ⟨d, _, [], hd, hst ▸ .take, rfl, rfl, rfl, rfl, rfl, rfl⟩
  | @trigger entities hst =>
    refine ⟨d, .polling, entities, hd, hst ▸ .trigger entities, ?_, rfl, rfl, ?_, ?_, ?_⟩
    all_goals
      rw [s.spawnFlush_eq entities]
      rfl
  | done hst hdone => exact ⟨d, _, [], hd, hst ▸ .done hdone, rfl, rfl, rfl, rfl, rfl, rfl⟩

theorem Counted.spawnFlush (h : s.Counted) (entities : List ParsedEntity) :
    (s.spawnFlush entities).flushesInFlight =
      (s.spawnFlush entities).flushes.countP Flush.live := by
  unfold Deployer.spawnFlush
  split
  · exact h.flushes
  · dsimp only
    rw [List.countP_append, h.flushes]
    rfl

theorem Counted.step (hc : s.Counted) {a : Action} (h : s.step a = some t) : t.Counted := by
  cases a with
  | schedule x =>
    obtain rfl := Option.some.inj h
    refine ⟨?_, hc.flushes⟩
    simp only [scheduleEntityDeployment, List.countP_append, hc.tasks]
    rfl
  | onIdle r =>
    obtain rfl := Option.some.inj h
    exact ⟨hc.tasks, hc.flushes⟩
  | task i ok =>
    obtain ⟨a, stage, entities, ha, hlive, htasks, hcount, hflushes, hfc, -, -⟩ := taskStep_shape h
    refine ⟨?_, ?_⟩
    · rw [hcount, htasks, hc.tasks, Procs.countP_move ha hlive]
    · rw [hfc, hflushes]
      exact hc.spawnFlush entities
  | flush j ok =>
    obtain ⟨f, stage, hf, hlive, hflushes, hcount, htasks, htc, -, -⟩ := flushStep_shape h
    refine ⟨?_, ?_⟩
    · rw [htc, htasks]
      exact hc.tasks
    · rw [hcount, hflushes, hc.flushes, Procs.countP_move hf hlive]
  | timer =>
    obtain ⟨entities, hflushes, hfc, htasks, htc, -, -⟩ := timerStep_shape h
    refine ⟨by rw [htc, htasks, hc.tasks], ?_⟩
    rw [hfc, hflushes]
    exact hc.spawnFlush entities
  | drain k =>
    obtain ⟨d, stage, entities, -, -, -, hflushes, hfc, htasks, htc, -⟩ := drainStep_shape h
    refine ⟨by rw [htc, htasks, hc.tasks], ?_⟩
    rw [hfc, hflushes]
    exact hc.spawnFlush entities

/-- With no task in flight, every entity scheduled has been handed over. -/
theorem Counted.handed (hc : s.Counted) (h : s.tasksInFlight = 0) (he : s.Tracked e) :
    s.Handed e := by
  rcases he with he | he
  · exact he
  · obtain ⟨a, ha, he⟩ := List.mem_flatMap.mp he
    have hgone : a.live = false := Procs.not_of_countP_eq_zero (hc.tasks ▸ h) ha
    have hst : a.stage = .gone := by simpa [Task.live] using hgone
    rw [Task.owed, hst] at he
    exact absurd he List.not_mem_nil

/-- With no flush in flight, what has been dispatched is settled or taken and not counted. -/
theorem Counted.settled (hc : s.Counted) (h : s.flushesInFlight = 0) (he : s.Dispatched e) :
    s.Settled e ∨ e ∈ s.taken := by
  rcases he with he | he | he
  · exact Or.inl he
  · exact Or.inr he
  · obtain ⟨f, hf, he⟩ := List.mem_flatMap.mp he
    have hgone : f.live = false := Procs.not_of_countP_eq_zero (hc.flushes ▸ h) hf
    have hst : f.stage = .gone := by simpa [Flush.live] using hgone
    rw [Flush.owed, hst] at he
    exact absurd he List.not_mem_nil

/-! ### The invariant -/

/-- How far what a call of `on_idle` waits for has come. -/
def Awaits (s : Deployer) (d : Drain) : Prop :=
  match d.stage with
  | .waiting => ∀ e ∈ d.scheduled, s.Tracked e
  | .flushing => ∀ e ∈ d.scheduled, s.Handed e
  | .triggering _ => ∀ e ∈ d.scheduled, s.Dispatched e
  | .polling => ∀ e ∈ d.scheduled, s.Dispatched e
  | .returned => True

structure Inv (s : Deployer) : Prop where
  counted : s.Counted
  seen : s.SeenSettled
  scheduled : ∀ e ∈ s.scheduled, s.Tracked e
  drains : ∀ d ∈ s.drains, s.Awaits d
  reports : ∀ d ∈ s.drains, ∀ e ∈ d.scheduled, e.report = some d.report

theorem Awaits.keeps {d : Drain} (h : s.Awaits d) (hk : Keeps s t) : t.Awaits d := by
  unfold Awaits at *
  split at h
  · exact fun e he => hk.tracked (h e he)
  · exact fun e he => hk.handed (h e he)
  · exact fun e he => hk.dispatched (h e he)
  · exact fun e he => hk.dispatched (h e he)
  · trivial

theorem Awaits.advance (hc : s.Counted) {d : Drain} (h : s.Awaits d) {k : ℕ} {stage : DrainStage}
    {entities : List ParsedEntity} (hd : s.drains[k]? = some d)
    (ha : s.Advances d.stage stage entities)
    (hdrains : t.drains = s.drains.set k { d with stage := stage }) (hk : Keeps s t) :
    t.Awaits { d with stage := stage } := by
  generalize hst : d.stage = old at ha
  cases ha with
  | idle hidle =>
    simp only [Awaits, hst] at h
    exact fun e he => hk.handed (hc.handed hidle (h e he))
  | take =>
    simp only [Awaits, hst] at h
    intro e he
    rcases h e he with hdisp | hbatch
    · exact hk.dispatched hdisp
    · refine Or.inr (Or.inl (mem_taken.mpr (Or.inr (Or.inr ?_))))
      rw [hdrains]
      exact Procs.mem_flatMap_set_self hd hbatch
  | trigger =>
    simp only [Awaits, hst] at h
    exact fun e he => hk.dispatched (h e he)
  | done => trivial

theorem SeenSettled.of_flushes (h : s.SeenSettled) (hk : Keeps s t) (entities : List ParsedEntity)
    (hf : t.flushes = (s.spawnFlush entities).flushes) : t.SeenSettled := by
  intro f hm rest seen hst e he hid
  rw [hf] at hm
  unfold spawnFlush at hm
  split at hm
  · exact hk.settled e (h f hm rest seen hst e he hid)
  · rcases List.mem_append.mp hm with hm | hm
    · exact hk.settled e (h f hm rest seen hst e he hid)
    · obtain rfl := List.mem_singleton.mp hm
      cases hst

theorem SeenSettled.set (h : s.SeenSettled) (hk : Keeps s t) {j : ℕ} {f : Flush}
    (hf : t.flushes = s.flushes.set j f)
    (hnew : ∀ rest seen, f.stage = .recording rest seen →
      ∀ e ∈ rest, e.entityId ∈ seen → t.Settled e) : t.SeenSettled := by
  intro f' hm rest seen hst e he hid
  rw [hf] at hm
  rcases List.mem_or_eq_of_mem_set hm with hm | rfl
  · exact hk.settled e (h f' hm rest seen hst e he hid)
  · exact hnew rest seen hst e he hid

theorem SeenSettled.flushStep (h : s.SeenSettled) {j : ℕ} {ok : Bool}
    (hcare : s.Careful (.flush j ok)) (hs : s.flushStep j ok = some t) : t.SeenSettled := by
  have hk := flushStep_keeps h hs
  obtain ⟨f, hf, hmove⟩ := flushStep_move hs
  -- what the flush had met before stays settled
  have hmet : ∀ x rest seen, f.stage = .recording (x :: rest) seen →
      ∀ e ∈ rest, e.entityId ∈ seen → t.Settled e := by
    intro x rest seen hst e he hid
    exact hk.settled e
      (h f (List.mem_of_getElem? hf) _ _ hst e (List.mem_cons_of_mem x he) hid)
  cases hmove with
  | write hst => exact h.set hk rfl fun _ _ hst => nomatch hst
  | fail hst =>
    refine h.set hk rfl ?_
    intro rest seen hst e _ hid
    cases hst
    exact absurd hid List.not_mem_nil
  | recorded hst => exact h.set hk rfl fun _ _ hst => nomatch hst
  | met hst _ =>
    refine h.set hk rfl ?_
    intro rest' seen' hst' e he hid
    cases hst'
    exact hmet _ _ _ hst e he hid
  | record hst _ =>
    refine h.set hk rfl ?_
    intro rest' seen' hst' e he hid
    cases hst'
    rcases List.mem_cons.mp hid with hid | hid
    · have hset := s.settled_reportFailure e
      rw [hid] at hset
      exact hset
    · exact hmet _ _ _ hst e he hid
  | @lose x rest seen hst hnew =>
    refine h.set hk rfl ?_
    intro rest' seen' hst' e he hid
    cases hst'
    rcases List.mem_cons.mp hid with hid | hid
    · have hsame : e.report = x.report := by
        have hone := hcare rfl f (by rw [hf]; exact List.mem_singleton_self f)
        rw [hst] at hone
        exact hone hnew e he hid
      exact s.settled_recordLost hsame
    · exact hmet _ _ _ hst e he hid
  | leave hst => exact h.set hk rfl fun _ _ hst => nomatch hst

theorem inv_new : new.Inv where
  counted := ⟨rfl, rfl⟩
  seen _ hf := absurd hf List.not_mem_nil
  scheduled _ he := absurd he List.not_mem_nil
  drains _ hd := absurd hd List.not_mem_nil
  reports _ hd := absurd hd List.not_mem_nil

theorem Inv.step (h : s.Inv) {a : Action} (hcare : s.Careful a) (hs : s.step a = some t) :
    t.Inv := by
  have hk := step_keeps h.seen hs
  have hcounted := h.counted.step hs
  have hdrains : ∀ d ∈ s.drains, t.Awaits d := fun d hd => (h.drains d hd).keeps hk
  have hsched : ∀ e ∈ s.scheduled, t.Tracked e := fun e he => hk.tracked (h.scheduled e he)
  cases a with
  | schedule x =>
    obtain rfl := Option.some.inj hs
    refine ⟨hcounted, h.seen.of_flushes hk [] rfl, ?_, hdrains, h.reports⟩
    intro e he
    rcases List.mem_append.mp he with he | he
    · exact hsched e he
    · obtain rfl := List.mem_singleton.mp he
      refine Or.inr ?_
      simp only [scheduleEntityDeployment, List.flatMap_append]
      exact List.mem_append_right _ (List.mem_singleton_self _)
  | onIdle r =>
    obtain rfl := Option.some.inj hs
    refine ⟨hcounted, h.seen.of_flushes hk [] rfl, hsched, ?_, ?_⟩
    · intro d hd
      rcases List.mem_append.mp hd with hd | hd
      · exact hdrains d hd
      · obtain rfl := List.mem_singleton.mp hd
        exact fun e he => hsched e (List.mem_filter.mp he).1
    · intro d hd
      rcases List.mem_append.mp hd with hd | hd
      · exact h.reports d hd
      · obtain rfl := List.mem_singleton.mp hd
        intro e he
        simpa using (List.mem_filter.mp he).2
  | task i ok =>
    obtain ⟨_, _, entities, -, -, -, -, hf, -, hd, hsc⟩ := taskStep_shape hs
    exact ⟨hcounted, h.seen.of_flushes hk entities hf, hsc ▸ hsched, hd ▸ hdrains, hd ▸ h.reports⟩
  | flush j ok =>
    obtain ⟨_, _, -, -, -, -, -, -, hd, hsc⟩ := flushStep_shape hs
    exact ⟨hcounted, h.seen.flushStep hcare hs, hsc ▸ hsched, hd ▸ hdrains, hd ▸ h.reports⟩
  | timer =>
    obtain ⟨entities, hf, -, -, -, hd, hsc⟩ := timerStep_shape hs
    exact ⟨hcounted, h.seen.of_flushes hk entities hf, hsc ▸ hsched, hd ▸ hdrains, hd ▸ h.reports⟩
  | drain k =>
    obtain ⟨d, stage, entities, hd, ha, hset, hf, -, -, -, hsc⟩ := drainStep_shape hs
    have hmem : d ∈ s.drains := List.mem_of_getElem? hd
    refine ⟨hcounted, h.seen.of_flushes hk entities hf, hsc ▸ hsched, ?_, ?_⟩
    · intro d' hd'
      rw [hset] at hd'
      rcases List.mem_or_eq_of_mem_set hd' with hd' | rfl
      · exact hdrains d' hd'
      · exact (h.drains d hmem).advance h.counted hd ha hset hk
    · intro d' hd'
      rw [hset] at hd'
      rcases List.mem_or_eq_of_mem_set hd' with hd' | rfl
      · exact h.reports d' hd'
      · exact h.reports d hmem

/-! ### What `on_idle` promises -/

/-- When the step is a call of `on_idle` returning and the report of its stream is then
complete and free of losses, everything the stream had scheduled before the call is written
or recorded. -/
def DurableAfter (s : Deployer) (a : Action) : Prop :=
  ∀ k d t, a = .drain k → s.drains[k]? = some d → d.stage = .polling → s.step a = some t →
    (t.reports d.report).isComplete = true → (t.reports d.report).lost = 0 →
      ∀ e ∈ d.scheduled, e.entityId ∈ t.deployments ∨ e.entityId ∈ t.failedDeployments

theorem Inv.durableAfter (h : s.Inv) {a : Action} (hcare : s.Careful a) : s.DurableAfter a := by
  rintro k d t rfl hd hst hs - hlost e he
  have hmem : d ∈ s.drains := List.mem_of_getElem? hd
  have hawaits := h.drains d hmem
  have hreport := h.reports d hmem e he
  simp only [Awaits, hst] at hawaits
  simp only [Deployer.step, drainStep, hd, Option.bind_some, hst] at hs
  split at hs
  · rename_i hidle
    obtain rfl := Option.some.inj hs
    rcases h.counted.settled hidle (hawaits e he) with hset | htaken
    · rcases hset with hset | hset
      · exact hset
      · exact absurd hlost (hset d.report hreport).ne'
    · have hclear := hcare d (by rw [hd]; exact List.mem_singleton_self d) hst
      exact absurd hreport (hclear e htaken)
  · cases hs

end Deployer

open Deployer in
/-- In a run that keeps clear of the two slips, whatever a stream scheduled before a call of
`on_idle` is durable when the call returns with a complete report without losses. -/
theorem drained_report_durable (actions : List Action)
    (h : Machine.Meets step (fun s a => s.Careful a) new actions) :
    Machine.Meets step (fun s a => s.DurableAfter a) new actions := by
  refine Machine.meets_of_invariant step ?_ ?_ actions new inv_new h
  · intro s a t hs hcare hst
    exact hs.step hcare hst
  · intro s a hs hcare
    exact hs.durableAfter hcare

namespace Deployer

instance : DecidablePred FlushStage.OneReport
  | .recording (e :: rest) seen => inferInstanceAs (Decidable (e.entityId ∉ seen →
      ∀ e' ∈ rest, e'.entityId = e.entityId → e'.report = e.report))
  | .recording [] _ => isTrue trivial
  | .writing => isTrue trivial
  | .leaving => isTrue trivial
  | .gone => isTrue trivial

instance (s : Deployer) : DecidablePred s.Careful
  | .flush j ok => inferInstanceAs (Decidable (ok = false →
      ∀ f ∈ s.flushes[j]?.toList, f.stage.OneReport))
  | .drain k => inferInstanceAs (Decidable (∀ d ∈ s.drains[k]?.toList, d.stage = .polling →
      ∀ e ∈ s.taken, e.report ≠ some d.report))
  | .schedule _ => isTrue trivial
  | .onIdle _ => isTrue trivial
  | .task _ _ => isTrue trivial
  | .timer => isTrue trivial

/-- The steps of a task whose entity reaches the buffer. -/
def buffers (i : ℕ) : List Action := List.replicate 4 (.task i true)

/-- Two streams schedule one entity each. The batch of both cannot be written; the first
entity is recorded and the second lost. -/
def lossy : List Action :=
  [.schedule ⟨['a'], some 0⟩, .schedule ⟨['b'], some 1⟩] ++ buffers 0 ++ buffers 1 ++
    [.onIdle 0, .onIdle 1, .drain 0, .drain 1, .drain 0, .drain 0, .drain 1, .drain 1,
      .flush 0 false, .flush 0 true, .flush 0 false, .flush 0 true, .flush 0 true,
      .drain 0, .drain 1]

/-- The timer has taken the buffer and not counted its flush when `on_idle` looks. -/
def raced : List Action :=
  [.schedule ⟨['a'], some 0⟩] ++ buffers 0 ++
    [.onIdle 0, .drain 0, .timer, .drain 0, .drain 0]

end Deployer

open Deployer in
theorem drained_report_durable_lossy :
    Machine.Meets step (fun s a => s.DurableAfter a) new lossy :=
  drained_report_durable lossy (by decide)

open Deployer in
/-- A call of `on_idle` returns with a complete report without losses while the only entity of
its stream is neither written nor recorded. -/
theorem drained_report_not_durable :
    ¬ Machine.Meets step (fun s a => s.DurableAfter a) new (raced ++ [.drain 0]) := by
  intro h
  have hrun : ((Machine.run step new raced).bind fun s => (s.step (.drain 0)).bind fun t =>
      (s.drains[0]?).map fun d => (decide (d.stage = .polling), d.scheduled,
        (t.reports d.report).isComplete, (t.reports d.report).lost,
        decide (['a'] ∈ t.deployments ∨ ['a'] ∈ t.failedDeployments))) =
      some (true, [⟨['a'], some 0⟩], true, 0, false) := by
    decide
  obtain ⟨s, hs, hrun⟩ := Option.bind_eq_some_iff.mp hrun
  obtain ⟨t, ht, hrun⟩ := Option.bind_eq_some_iff.mp hrun
  obtain ⟨d, hd, hrun⟩ := Option.map_eq_some_iff.mp hrun
  simp only [Prod.mk.injEq, decide_eq_true_eq, decide_eq_false_iff_not] at hrun
  obtain ⟨hst, hsched, hcomplete, hlost, hnone⟩ := hrun
  refine hnone (Machine.meets_last step h hs 0 d t rfl hd hst ht hcomplete hlost ⟨['a'], some 0⟩ ?_)
  rw [hsched]
  exact List.mem_singleton_self _

end Catalyrst.Sync
