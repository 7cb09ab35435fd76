import Catalyrst.Lib.Machine
import Catalyrst.Quests.State

/-!
# Progress of a quest

A step that finishes makes its successors current whatever they were before, so a join, a
diamond or a cycle may bring a finished step back or wipe the work on a current one. In a
replay where no finishing step meets such a successor progress is well founded.
-/

namespace Catalyrst.Quests
open Catalyrst.Lib

/-! ### What is left of a step -/

/-- The same task with some of its items struck off, but not the last one. -/
structure Task.Remains (left task : Task) : Prop where
  id : left.id = task.id
  description : left.description = task.description
  items : left.actionItems.Sublist task.actionItems
  nonempty : left.actionItems = [] → task.actionItems = []

/-- Nothing that was matched in `x` is unmatched in `y`. -/
structure StepContent.Keeps (x y : StepContent) : Prop where
  toDos : ∀ left ∈ y.toDos, ∃ task ∈ x.toDos, left.Remains task
  tasksCompleted : x.tasksCompleted <+: y.tasksCompleted

theorem Task.Remains.refl (task : Task) : task.Remains task :=
  ⟨rfl, rfl, List.Sublist.refl _, fun h => h⟩

theorem Task.Remains.trans {a b c : Task} (h : a.Remains b) (h' : b.Remains c) : a.Remains c :=
  ⟨h.id.trans h'.id, h.description.trans h'.description, h.items.trans h'.items,
    fun he => h'.nonempty (h.nonempty he)⟩

theorem StepContent.Keeps.refl (x : StepContent) : x.Keeps x :=
  ⟨fun task ht => ⟨task, ht, .refl task⟩, List.prefix_refl _⟩

theorem StepContent.Keeps.trans {x y z : StepContent} (h : x.Keeps y) (h' : y.Keeps z) :
    x.Keeps z := by
  refine ⟨fun left hl => ?_, h.tasksCompleted.trans h'.tasksCompleted⟩
  obtain ⟨task, ht, hr⟩ := h'.toDos left hl
  obtain ⟨origin, ho, hr'⟩ := h.toDos task ht
  exact ⟨origin, ho, hr.trans hr'⟩

theorem Task.strike_some {action : Action} {task struck : Task}
    (h : task.strike action = some struck) :
    ∃ i, struck = { task with actionItems := task.actionItems.eraseIdx i } := by
  obtain ⟨i, _, rfl⟩ := Option.map_eq_some_iff.mp h
  exact ⟨i, rfl⟩

theorem mem_advance {action : Action} {x : StepContent} {left : Task}
    (h : left ∈ (x.advance action).toDos) : ∃ task ∈ x.toDos,
      (task.strike action = none ∧ left = task) ∨
        (task.strike action = some left ∧ left.isDone = false) := by
  obtain ⟨task, ht, hleft⟩ := List.mem_filterMap.mp h
  refine ⟨task, ht, ?_⟩
  unfold Task.remaining at hleft
  split at hleft
  · rename_i struck hstruck
    split at hleft
    · cases hleft
    · rename_i hdone
      obtain rfl := Option.some.inj hleft
      exact Or.inr ⟨hstruck, Bool.not_eq_true _ ▸ hdone⟩
  · rename_i hnone
    exact Or.inl ⟨hnone, (Option.some.inj hleft).symm⟩

theorem StepContent.keeps_advance (action : Action) (x : StepContent) : x.Keeps (x.advance action) := by
  refine ⟨fun left hl => ?_, List.prefix_append _ _⟩
  obtain ⟨task, ht, ⟨_, rfl⟩ | ⟨hstruck, hdone⟩⟩ := mem_advance hl
  · exact ⟨left, ht, .refl left⟩
  · obtain ⟨i, rfl⟩ := Task.strike_some hstruck
    refine ⟨task, ht, rfl, rfl, List.eraseIdx_sublist .., fun he => ?_⟩
    rw [Task.isDone, he] at hdone
    cases hdone

theorem advance_nonempty {action : Action} {x : StepContent} (h : (x.advance action).toDos ≠ []) :
    x.toDos ≠ [] := by
  rintro hx
  refine h ?_
  show x.toDos.filterMap _ = []
  rw [hx]
  rfl

/-! ### One event -/

def StepContent.finishes (action : Action) (x : StepContent) : Bool :=
  x.toDos ≠ [] ∧ (x.advance action).toDos = []

/-- The steps that the event finishes. -/
def finishes (action : Action) (state : QuestState) (stepId : Text) : Bool :=
  (state.currentSteps.lookup stepId).any (StepContent.finishes action)

theorem finishes_iff {action : Action} {state : QuestState} {stepId : Text} :
    finishes action state stepId = true ↔ ∃ x, state.currentSteps.lookup stepId = some x ∧
      x.toDos ≠ [] ∧ (x.advance action).toDos = [] := by
  unfold finishes
  cases state.currentSteps.lookup stepId with
  | none => simp
  | some x => simp [StepContent.finishes]

/-- No step that the event finishes has a successor that is done, or that is current and has
been worked on or is finished by the event too. -/
def Smooth (g : QuestGraph) (state : QuestState) (a : Event × List Text) : Prop :=
  ∀ action ∈ a.1.action, ∀ s ∈ a.2, finishes action state s = true → ∀ c ∈ g.next s,
    c ≠ endStepId → c ∉ state.stepsCompleted ∧
      ∀ x ∈ state.currentSteps.lookup c, x = g.fresh c ∧ finishes action state c = false

section Event

variable {g : QuestGraph} {action : Action} {state next : QuestState} {order visited : List Text}

theorem finishes_of_lookup {k : Text} {x : StepContent}
    (hk : state.currentSteps.lookup k = some x) :
    finishes action state k = x.finishes action := by
  rw [finishes, hk, Option.any_some]

theorem not_finishes_idle {k : Text} {x : StepContent}
    (hk : state.currentSteps.lookup k = some x) (hx : x.toDos = []) :
    finishes action state k = false := by
  rw [finishes_of_lookup hk]
  simp [StepContent.finishes, hx]

theorem finishes_iff_done {k : Text} {x : StepContent}
    (hk : state.currentSteps.lookup k = some x) (hx : x.toDos ≠ []) :
    finishes action state k = true ↔ (x.advance action).toDos = [] := by
  rw [finishes_of_lookup hk]
  simp [StepContent.finishes, hx]

theorem filter_visited {k : Text} (hfin : finishes action state k = true) :
    (visited ++ [k]).filter (finishes action state) =
      visited.filter (finishes action state) ++ [k] := by
  rw [List.filter_append, List.filter_cons_of_pos hfin, List.filter_nil]

theorem filter_visited_of_not {k : Text} (hnot : finishes action state k = false) :
    (visited ++ [k]).filter (finishes action state) =
      visited.filter (finishes action state) := by
  rw [List.filter_append, List.filter_cons_of_neg (by simp [hnot]), List.filter_nil,
    List.append_nil]

theorem lookup_activate (steps : CurrentSteps) (succs : List Text) (k : Text) :
    (activate g steps succs).lookup k =
      if k ∈ succs ∧ k ≠ endStepId then some (g.fresh k) else steps.lookup k := by
  induction succs generalizing steps with
  | nil => simp [activate]
  | cons succ succs ih =>
    have hcons : activate g steps (succ :: succs) =
        activate g (if succ ≠ endStepId then steps.insert succ (g.fresh succ) else steps) succs :=
      rfl
    rw [hcons, ih]
    by_cases hin : k ∈ succs ∧ k ≠ endStepId
    · rw [if_pos hin, if_pos ⟨List.mem_cons_of_mem _ hin.1, hin.2⟩]
    · rw [if_neg hin]
      by_cases hk : k = succ
      · subst hk
        by_cases hend : k = endStepId
        · rw [if_neg (by simp [hend]), if_neg (by simp [hend])]
        · rw [if_pos hend, if_pos ⟨List.mem_cons_self .., hend⟩, Finmap.lookup_insert]
      · have hcons' : ¬ (k ∈ succ :: succs ∧ k ≠ endStepId) := by
          rintro ⟨hmem, hend⟩
          exact hin ⟨(List.mem_cons.mp hmem).resolve_left hk, hend⟩
        rw [if_neg hcons']
        split
        · exact Finmap.lookup_insert_of_ne _ hk
        · rfl

theorem visitStep_idle {k : Text} {x : StepContent} (hk : state.currentSteps.lookup k = some x)
    (hx : x.toDos = []) : visitStep g action state next k = next := by
  simp only [visitStep, hk, hx, if_true]

theorem visitStep_active {k : Text} {x y : StepContent} (hk : state.currentSteps.lookup k = some x)
    (hx : x.toDos ≠ []) (hy : next.currentSteps.lookup k = some y) :
    visitStep g action state next k =
      if (y.advance action).toDos = [] then
        finishStep g { next with
          currentSteps := next.currentSteps.insert k (y.advance action) } k
      else { next with currentSteps := next.currentSteps.insert k (y.advance action) } := by
  simp only [visitStep, hk, hy, if_neg hx]

theorem lookup_finishStep (k c : Text) :
    (finishStep g next k).currentSteps.lookup c =
      if c ∈ g.next k ∧ c ≠ endStepId then some (g.fresh c)
      else if c = k then none else next.currentSteps.lookup c := by
  rw [finishStep, lookup_activate]
  refine if_congr Iff.rfl rfl ?_
  split
  · rename_i hc
    rw [hc, Finmap.lookup_erase]
  · rename_i hc
    rw [Finmap.lookup_erase_ne hc]

/-- The state in the middle of an event, after the steps in `visited`. -/
structure Midway (g : QuestGraph) (action : Action) (state : QuestState) (visited : List Text)
    (next : QuestState) : Prop where
  completed : next.stepsCompleted =
    state.stepsCompleted ++ visited.filter (finishes action state)
  left : next.stepsLeft = state.stepsLeft - (visited.filter (finishes action state)).length
  unvisited : ∀ k ∉ visited, ∀ x, state.currentSteps.lookup k = some x →
    next.currentSteps.lookup k = some x
  finished : ∀ k ∈ visited, finishes action state k = true → next.currentSteps.lookup k = none
  worked : ∀ k ∈ visited, finishes action state k = false → ∀ x,
    state.currentSteps.lookup k = some x →
      ∃ y, next.currentSteps.lookup k = some y ∧ (y = x ∨ y = x.advance action)
  activated : ∀ k y, state.currentSteps.lookup k = none → next.currentSteps.lookup k = some y →
    y = g.fresh k ∧ k ≠ endStepId ∧ ∃ s ∈ visited, finishes action state s = true ∧ k ∈ g.next s

theorem midway_nil : Midway g action state [] state where
  completed := (List.append_nil _).symm
  left := rfl
  unvisited _ _ _ h := h
  finished _ h := by cases h
  worked _ h := by cases h
  activated k y hnone hsome := by
    rw [hnone] at hsome
    cases hsome

theorem Midway.idle (h : Midway g action state visited next) {k : Text} {x : StepContent}
    (hk : state.currentSteps.lookup k = some x) (hx : x.toDos = []) (hnew : k ∉ visited) :
    Midway g action state (visited ++ [k]) next := by
  have hnot : finishes action state k = false := not_finishes_idle hk hx
  refine ⟨?_, ?_, ?_, ?_, ?_, ?_⟩
  · rw [filter_visited_of_not hnot, h.completed]
  · rw [filter_visited_of_not hnot, h.left]
  · intro c hc
    exact h.unvisited c fun hv => hc (List.mem_append_left _ hv)
  · intro c hc hf
    obtain hv | hself := List.mem_append.mp hc
    · exact h.finished c hv hf
    · rw [List.mem_singleton.mp hself, hnot] at hf
      cases hf
  · intro c hc hf y hy
    obtain hv | hself := List.mem_append.mp hc
    · exact h.worked c hv hf y hy
    · obtain rfl := List.mem_singleton.mp hself
      exact ⟨y, h.unvisited c hnew y hy, Or.inl rfl⟩
  · intro c y hnone hsome
    obtain ⟨hfresh, hend, s, hs, hrest⟩ := h.activated c y hnone hsome
    exact ⟨hfresh, hend, s, List.mem_append_left _ hs, hrest⟩

theorem Midway.work (h : Midway g action state visited next) {k : Text} {x : StepContent}
    (hk : state.currentSteps.lookup k = some x) (hnot : finishes action state k = false) :
    Midway g action state (visited ++ [k])
      { next with currentSteps := next.currentSteps.insert k (x.advance action) } := by
  have hother : ∀ c, c ≠ k → (next.currentSteps.insert k (x.advance action)).lookup c =
      next.currentSteps.lookup c := fun c hc => Finmap.lookup_insert_of_ne _ hc
  refine ⟨?_, ?_, ?_, ?_, ?_, ?_⟩
  · rw [filter_visited_of_not hnot, ← h.completed]
  · rw [filter_visited_of_not hnot, ← h.left]
  · intro c hc y hy
    have hne : c ≠ k := by
      rintro rfl
      exact hc (List.mem_append_right _ (List.mem_singleton.mpr rfl))
    rw [hother c hne]
    exact h.unvisited c (fun hv => hc (List.mem_append_left _ hv)) y hy
  · intro c hc hf
    have hne : c ≠ k := by
      rintro rfl
      rw [hnot] at hf
      cases hf
    have hv : c ∈ visited := (List.mem_append.mp hc).resolve_right fun hself =>
      hne (List.mem_singleton.mp hself)
    rw [hother c hne]
    exact h.finished c hv hf
  · intro c hc hf y hy
    by_cases hck : c = k
    · subst hck
      rw [hk] at hy
      obtain rfl := Option.some.inj hy
      exact ⟨_, Finmap.lookup_insert _, Or.inr rfl⟩
    · have hv : c ∈ visited := (List.mem_append.mp hc).resolve_right fun hself =>
        hck (List.mem_singleton.mp hself)
      rw [hother c hck]
      exact h.worked c hv hf y hy
  · intro c y hnone hsome
    have hne : c ≠ k := by
      rintro rfl
      rw [hk] at hnone
      cases hnone
    rw [hother c hne] at hsome
    obtain ⟨hfresh, hend, s, hs, hrest⟩ := h.activated c y hnone hsome
    exact ⟨hfresh, hend, s, List.mem_append_left _ hs, hrest⟩

/-- A step finishes; its successors are new, or current and as fresh as they become. -/
theorem Midway.finish (h : Midway g action state visited next) {k : Text} {x : StepContent}
    (hk : state.currentSteps.lookup k = some x) (hfin : finishes action state k = true)
    (hsmooth : ∀ c ∈ g.next k, c ≠ endStepId → ∀ y ∈ state.currentSteps.lookup c,
      y = g.fresh c ∧ finishes action state c = false) (y : StepContent) :
    Midway g action state (visited ++ [k])
      (finishStep g { next with currentSteps := next.currentSteps.insert k y } k) := by
  have hlookup : ∀ c, c ≠ k → (finishStep g { next with
      currentSteps := next.currentSteps.insert k y } k).currentSteps.lookup c =
        if c ∈ g.next k ∧ c ≠ endStepId then some (g.fresh c)
        else next.currentSteps.lookup c := by
    intro c hc
    rw [lookup_finishStep, if_neg hc]
    refine if_congr Iff.rfl rfl ?_
    exact Finmap.lookup_insert_of_ne _ hc
  -- a successor that was current is as it becomes, and not one of the finishing steps
  have hsucc : ∀ c z, state.currentSteps.lookup c = some z → c ∈ g.next k ∧ c ≠ endStepId →
      z = g.fresh c ∧ finishes action state c = false :=
    fun c z hz hin => hsmooth c hin.1 hin.2 z hz
  refine ⟨?_, ?_, ?_, ?_, ?_, ?_⟩
  · show next.stepsCompleted ++ [k] = _
    rw [h.completed, filter_visited hfin, List.append_assoc]
  · show next.stepsLeft - 1 = _
    rw [h.left, filter_visited hfin, List.length_append, List.length_singleton, Nat.sub_sub]
  · intro c hc z hz
    have hne : c ≠ k := by
      rintro rfl
      exact hc (List.mem_append_right _ (List.mem_singleton.mpr rfl))
    rw [hlookup c hne]
    split
    · rename_i hin
      rw [(hsucc c z hz hin).1]
    · exact h.unvisited c (fun hv => hc (List.mem_append_left _ hv)) z hz
  · intro c hc hf
    obtain ⟨z, hz, _⟩ := finishes_iff.mp hf
    have hout : ¬ (c ∈ g.next k ∧ c ≠ endStepId) := by
      intro hin
      rw [(hsucc c z hz hin).2] at hf
      cases hf
    by_cases hck : c = k
    · rw [lookup_finishStep, if_neg hout, if_pos hck]
    · rw [hlookup c hck, if_neg hout]
      refine h.finished c ?_ hf
      exact (List.mem_append.mp hc).resolve_right fun hself => hck (List.mem_singleton.mp hself)
  · intro c hc hf z hz
    have hne : c ≠ k := by
      rintro rfl
      rw [hfin] at hf
      cases hf
    rw [hlookup c hne]
    split
    · rename_i hin
      exact ⟨_, rfl, Or.inl (hsucc c z hz hin).1.symm⟩
    · refine h.worked c ?_ hf z hz
      exact (List.mem_append.mp hc).resolve_right fun hself => hne (List.mem_singleton.mp hself)
  · intro c z hnone hsome
    have hne : c ≠ k := by
      rintro rfl
      rw [hk] at hnone
      cases hnone
    rw [hlookup c hne] at hsome
    split at hsome
    · rename_i hin
      obtain rfl := Option.some.inj hsome
      exact ⟨rfl, hin.2, k, List.mem_append_right _ (List.mem_singleton.mpr rfl), hfin, hin.1⟩
    · obtain ⟨hfresh, hend, s, hs, hrest⟩ := h.activated c z hnone hsome
      exact ⟨hfresh, hend, s, List.mem_append_left _ hs, hrest⟩

theorem Midway.visit (h : Midway g action state visited next) {k : Text} {x : StepContent}
    (hk : state.currentSteps.lookup k = some x) (hnew : k ∉ visited)
    (hsmooth : finishes action state k = true → ∀ c ∈ g.next k, c ≠ endStepId →
      ∀ y ∈ state.currentSteps.lookup c, y = g.fresh c ∧ finishes action state c = false) :
    Midway g action state (visited ++ [k]) (visitStep g action state next k) := by
  by_cases hx : x.toDos = []
  · rw [visitStep_idle hk hx]
    exact h.idle hk hx hnew
  · rw [visitStep_active hk hx (h.unvisited k hnew x hk)]
    split
    · rename_i hdone
      have hfin : finishes action state k = true := (finishes_iff_done hk hx).mpr hdone
      exact h.finish hk hfin (hsmooth hfin) _
    · rename_i hleft
      refine h.work hk ?_
      rw [← Bool.not_eq_true, finishes_iff_done hk hx]
      exact hleft

theorem Midway.visitAll (h : Midway g action state visited next)
    (hnodup : (visited ++ order).Nodup)
    (hcurrent : ∀ k ∈ order, ∃ x, state.currentSteps.lookup k = some x)
    (hsmooth : ∀ s ∈ order, finishes action state s = true → ∀ c ∈ g.next s, c ≠ endStepId →
      ∀ y ∈ state.currentSteps.lookup c, y = g.fresh c ∧ finishes action state c = false) :
    Midway g action state (visited ++ order) (order.foldl (visitStep g action state) next) := by
  induction order generalizing visited next with
  | nil => rwa [List.append_nil]
  | cons k order ih =>
    obtain ⟨x, hk⟩ := hcurrent k List.mem_cons_self
    have hnew : k ∉ visited := fun hv =>
      (List.disjoint_of_nodup_append hnodup) hv List.mem_cons_self
    rw [List.append_cons] at hnodup ⊢
    exact ih (h.visit hk hnew (hsmooth k List.mem_cons_self)) hnodup
      (fun c hc => hcurrent c (List.mem_cons_of_mem k hc))
      fun s hs => hsmooth s (List.mem_cons_of_mem k hs)

theorem Enumerates.mem_iff (h : Enumerates order state.currentSteps) (k : Text) :
    k ∈ order ↔ ∃ x, state.currentSteps.lookup k = some x := by
  rw [← List.mem_toFinset, h.2, Finmap.mem_keys, Finmap.mem_iff]

theorem replayStep_some {a : Event × List Text} (h : replayStep g state a = some next) :
    Enumerates a.2 state.currentSteps ∧ applyEvent g a.2 state a.1 = next := by
  unfold replayStep at h
  split at h
  · rename_i henum
    exact ⟨henum, Option.some.inj h⟩
  · cases h

/-- One event of a smooth replay: nothing happens, or all current steps are visited. -/
theorem replayStep_smooth {a : Event × List Text} (hstep : replayStep g state a = some next)
    (hsmooth : Smooth g state a) :
    next = state ∨ ∃ action ∈ a.1.action, Midway g action state a.2 next := by
  obtain ⟨henum, rfl⟩ := replayStep_some hstep
  unfold applyEvent
  cases haction : a.1.action with
  | none => exact Or.inl rfl
  | some action =>
    refine Or.inr ⟨action, rfl, ?_⟩
    refine midway_nil.visitAll (by simpa using henum.1) (fun k => (henum.mem_iff k).mp) ?_
    intro s hs hfin c hc hend
    exact (hsmooth action haction s hs hfin c hc hend).2

end Event

/-! ### Whole replays -/

structure Sound (d : QuestDefinition) (state : QuestState) : Prop where
  nodup : state.stepsCompleted.Nodup
  apart : ∀ k ∈ state.stepsCompleted, state.currentSteps.lookup k = none
  known : ∀ k ∈ state.stepsCompleted, k ∈ d.steps.map Step.id
  active : ∀ k x, state.currentSteps.lookup k = some x → x.toDos ≠ [] → k ∈ d.steps.map Step.id
  count : state.stepsLeft + state.stepsCompleted.length = d.steps.length

section Replay

variable {d : QuestDefinition} {state next : QuestState}

theorem fresh_known {k : Text} (h : ((QuestGraph.ofDefinition d).fresh k).toDos ≠ []) :
    k ∈ d.steps.map Step.id := by
  change ((d.steps.reverse.find? fun s => s.id = k).map Step.tasks).getD [] ≠ [] at h
  cases hfind : d.steps.reverse.find? fun s => s.id = k with
  | none =>
    rw [hfind] at h
    exact absurd rfl h
  | some s =>
    have hmem := List.mem_reverse.mp (List.mem_of_find?_eq_some hfind)
    have hid : s.id = k := by simpa using List.find?_some hfind
    exact List.mem_map.mpr ⟨s, hmem, hid⟩

theorem lookup_initialState {g : QuestGraph} {k : Text} {x : StepContent}
    (h : (initialState g).currentSteps.lookup k = some x) : x = g.fresh k := by
  change Finmap.lookup k (List.toFinmap _) = _ at h
  rw [Finmap.dlookup_list_toFinmap] at h
  obtain ⟨step, _, heq⟩ := List.mem_map.mp (List.of_mem_dlookup h)
  cases heq
  rfl

theorem sound_initial (hsize : d.steps.length < u32) :
    Sound d (initialState (QuestGraph.ofDefinition d)) where
  nodup := List.nodup_nil
  apart _ h := by cases h
  known _ h := by cases h
  active k x hk hx := by
    rw [lookup_initialState hk] at hx
    exact fresh_known hx
  count := by
    show d.steps.length % u32 + 0 = _
    rw [Nat.mod_eq_of_lt hsize, Nat.add_zero]

theorem Sound.midway (h : Sound d state) {action : Action} {order : List Text}
    (henum : Enumerates order state.currentSteps)
    (hmid : Midway (QuestGraph.ofDefinition d) action state order next)
    (hnew : ∀ s ∈ order, finishes action state s = true → ∀ c ∈ (QuestGraph.ofDefinition d).next s,
      c ≠ endStepId → c ∉ state.stepsCompleted) : Sound d next := by
  have hfin : ∀ k ∈ order.filter (finishes action state), k ∈ order ∧ ∃ x,
      state.currentSteps.lookup k = some x ∧ x.toDos ≠ [] := by
    intro k hk
    obtain ⟨hmem, hf⟩ := List.mem_filter.mp hk
    obtain ⟨x, hx, hne, _⟩ := finishes_iff.mp hf
    exact ⟨hmem, x, hx, hne⟩
  have hnodup : (state.stepsCompleted ++ order.filter (finishes action state)).Nodup := by
    refine List.nodup_append.mpr ⟨h.nodup, henum.1.filter _, ?_⟩
    rintro k hk _ hk' rfl
    obtain ⟨_, x, hx, _⟩ := hfin k hk'
    rw [h.apart k hk] at hx
    cases hx
  have hknown : ∀ k ∈ state.stepsCompleted ++ order.filter (finishes action state),
      k ∈ d.steps.map Step.id := by
    intro k hk
    obtain hold | hdone := List.mem_append.mp hk
    · exact h.known k hold
    · obtain ⟨_, x, hx, hne⟩ := hfin k hdone
      exact h.active k x hx hne
  have hlength := (hnodup.subperm hknown).length_le
  refine ⟨by rw [hmid.completed]; exact hnodup, fun k hk => ?_, by rw [hmid.completed]; exact hknown,
    fun k y hy hne => ?_, ?_⟩
  · rw [hmid.completed] at hk
    obtain hold | hdone := List.mem_append.mp hk
    · cases hsome : next.currentSteps.lookup k with
      | none => rfl
      | some y =>
        obtain ⟨_, hend, s, hs, hf, hin⟩ := hmid.activated k y (h.apart k hold) hsome
        exact absurd hold (hnew s hs hf k hin hend)
    · obtain ⟨hmem, hf⟩ := List.mem_filter.mp hdone
      exact hmid.finished k hmem hf
  · cases hold : state.currentSteps.lookup k with
    | none =>
      rw [(hmid.activated k y hold hy).1] at hne
      exact fresh_known hne
    | some x =>
      refine h.active k x hold ?_
      have hmem : k ∈ order := (henum.mem_iff k).mpr ⟨x, hold⟩
      cases hf : finishes action state k with
      | true =>
        rw [hmid.finished k hmem hf] at hy
        cases hy
      | false =>
        obtain ⟨z, hz, hcases⟩ := hmid.worked k hmem hf x hold
        rw [hy] at hz
        obtain rfl := Option.some.inj hz
        obtain rfl | rfl := hcases
        · exact hne
        · exact advance_nonempty hne
  · rw [hmid.completed, hmid.left]
    have hcount := h.count
    rw [List.length_append, List.length_map] at *
    omega

theorem Sound.step (h : Sound d state) {a : Event × List Text}
    (hsmooth : Smooth (QuestGraph.ofDefinition d) state a)
    (hstep : replayStep (QuestGraph.ofDefinition d) state a = some next) : Sound d next := by
  obtain rfl | ⟨action, haction, hmid⟩ := replayStep_smooth hstep hsmooth
  · exact h
  · refine h.midway (replayStep_some hstep).1 hmid fun s hs hf c hc hend => ?_
    exact (hsmooth action haction s hs hf c hc hend).1

/-- A step that is current before and after a smooth event loses nothing. -/
theorem keeps_of_smooth {g : QuestGraph} {a : Event × List Text} (hsmooth : Smooth g state a)
    (hstep : replayStep g state a = some next) {k : Text} {x y : StepContent}
    (hx : state.currentSteps.lookup k = some x) (hy : next.currentSteps.lookup k = some y) :
    x.Keeps y := by
  obtain rfl | ⟨action, _, hmid⟩ := replayStep_smooth hstep hsmooth
  · rw [hx] at hy
    obtain rfl := Option.some.inj hy
    exact .refl x
  · have hmem : k ∈ a.2 := ((replayStep_some hstep).1.mem_iff k).mpr ⟨x, hx⟩
    cases hf : finishes action state k with
    | true =>
      rw [hmid.finished k hmem hf] at hy
      cases hy
    | false =>
      obtain ⟨z, hz, hcases⟩ := hmid.worked k hmem hf x hx
      rw [hy] at hz
      obtain rfl := Option.some.inj hz
      obtain rfl | rfl := hcases
      · exact .refl _
      · exact StepContent.keeps_advance action x

end Replay

/-- In a smooth replay no step is done twice, none is done and current, the count of the steps
left is right, and the next event takes nothing back. -/
theorem progress_well_founded (d : QuestDefinition) (hsize : d.steps.length < u32)
    (replay : List (Event × List Text)) (state : QuestState)
    (hrun : Machine.run (replayStep (QuestGraph.ofDefinition d))
      (initialState (QuestGraph.ofDefinition d)) replay = some state)
    (hmeets : Machine.Meets (replayStep (QuestGraph.ofDefinition d))
      (Smooth (QuestGraph.ofDefinition d)) (initialState (QuestGraph.ofDefinition d)) replay) :
    state.stepsCompleted.Nodup ∧ (∀ k ∈ state.stepsCompleted, k ∉ state.currentSteps) ∧
      state.stepsLeft + state.stepsCompleted.length = d.steps.length ∧
      ∀ a next, Smooth (QuestGraph.ofDefinition d) state a →
        replayStep (QuestGraph.ofDefinition d) state a = some next → ∀ k x y,
          state.currentSteps.lookup k = some x → next.currentSteps.lookup k = some y → x.Keeps y := by
  have hsound : Sound d state := Machine.run_invariant_of_meets _
    (fun _ _ _ h hs hstep => Sound.step h hs hstep) replay _ state hmeets hrun (sound_initial hsize)
  refine ⟨hsound.nodup, fun k hk => ?_, hsound.count, fun a next hs hstep k x y hx hy => ?_⟩
  · exact Finmap.lookup_eq_none.mp (hsound.apart k hk)
  · exact keeps_of_smooth hs hstep hx hy

/-! ### Forests -/

/-- Every step is the successor of at most one node, and none has the name of the start node. -/
structure Forest (d : QuestDefinition) : Prop where
  start : startStepId ∉ d.steps.map Step.id
  parent : ∀ c s s', c ∈ (QuestGraph.ofDefinition d).next s →
    c ∈ (QuestGraph.ofDefinition d).next s' → c ≠ endStepId → s = s'

/-- A step is reached from the start or from a finished step. -/
def Reached (g : QuestGraph) (state : QuestState) : Prop :=
  ∀ c, (c ∈ state.stepsCompleted ∨ ∃ x, state.currentSteps.lookup c = some x) →
    c ∈ g.next startStepId ∨ ∃ s ∈ state.stepsCompleted, c ∈ g.next s

theorem reached_initial (g : QuestGraph) : Reached g (initialState g) := by
  rintro c (hdone | ⟨x, hx⟩)
  · cases hdone
  · change Finmap.lookup c (List.toFinmap _) = _ at hx
    rw [Finmap.dlookup_list_toFinmap] at hx
    obtain ⟨step, hstep, heq⟩ := List.mem_map.mp (List.of_mem_dlookup hx)
    cases heq
    exact Or.inl hstep

theorem Reached.smooth {d : QuestDefinition} (hforest : Forest d) {state : QuestState}
    (hsound : Sound d state) (h : Reached (QuestGraph.ofDefinition d) state)
    (a : Event × List Text) : Smooth (QuestGraph.ofDefinition d) state a := by
  intro action _ s _ hf c hc hend
  obtain ⟨x, hx, hne, _⟩ := finishes_iff.mp hf
  -- the only way to the successor is through the step, which is not done
  have hnot : ¬ (c ∈ state.stepsCompleted ∨ ∃ y, state.currentSteps.lookup c = some y) := by
    intro hreached
    obtain hstart | ⟨s', hdone, hs'⟩ := h c hreached
    · obtain rfl := hforest.parent c s startStepId hc hstart hend
      exact hforest.start (hsound.active _ x hx hne)
    · obtain rfl := hforest.parent c s s' hc hs' hend
      rw [hsound.apart s hdone] at hx
      cases hx
  exact ⟨fun hdone => hnot (Or.inl hdone), fun y hy => absurd (Or.inr ⟨y, hy⟩) hnot⟩

theorem Reached.step {g : QuestGraph} {state next : QuestState} (h : Reached g state)
    {a : Event × List Text} (hsmooth : Smooth g state a)
    (hstep : replayStep g state a = some next) : Reached g next := by
  obtain rfl | ⟨action, _, hmid⟩ := replayStep_smooth hstep hsmooth
  · exact h
  · have hold : ∀ c, (c ∈ g.next startStepId ∨ ∃ s ∈ state.stepsCompleted, c ∈ g.next s) →
        c ∈ g.next startStepId ∨ ∃ s ∈ next.stepsCompleted, c ∈ g.next s := by
      rintro c (hstart | ⟨s, hs, hc⟩)
      · exact Or.inl hstart
      · refine Or.inr ⟨s, ?_, hc⟩
        rw [hmid.completed]
        exact List.mem_append_left _ hs
    rintro c (hdone | ⟨y, hy⟩)
    · rw [hmid.completed] at hdone
      obtain hbefore | hnow := List.mem_append.mp hdone
      · exact hold c (h c (Or.inl hbefore))
      · obtain ⟨x, hx, _⟩ := finishes_iff.mp (List.mem_filter.mp hnow).2
        exact hold c (h c (Or.inr ⟨x, hx⟩))
    · cases hc : state.currentSteps.lookup c with
      | some x => exact hold c (h c (Or.inr ⟨x, hc⟩))
      | none =>
        obtain ⟨_, _, s, hs, hf, hin⟩ := hmid.activated c y hc hy
        refine Or.inr ⟨s, ?_, hin⟩
        rw [hmid.completed]
        exact List.mem_append_right _ (List.mem_filter.mpr ⟨hs, hf⟩)

/-- The quests whose every replay is smooth, whatever the events. -/
theorem forest_smooth {d : QuestDefinition} (hforest : Forest d) (hsize : d.steps.length < u32)
    (replay : List (Event × List Text)) :
    Machine.Meets (replayStep (QuestGraph.ofDefinition d)) (Smooth (QuestGraph.ofDefinition d))
      (initialState (QuestGraph.ofDefinition d)) replay := by
  have hall : Machine.Meets (replayStep (QuestGraph.ofDefinition d)) (fun _ _ => True)
      (initialState (QuestGraph.ofDefinition d)) replay :=
    Machine.meets_of_forall _ (fun _ _ => trivial) _
  refine Machine.meets_of_invariant (replayStep (QuestGraph.ofDefinition d))
    (P := fun s => Sound d s ∧ Reached (QuestGraph.ofDefinition d) s) ?_ ?_ replay _
    ⟨sound_initial hsize, reached_initial _⟩ hall
  · rintro s a s' ⟨hsound, hreached⟩ _ hstep
    have hs := hreached.smooth hforest hsound a
    exact ⟨hsound.step hs hstep, hreached.step hs hstep⟩
  · rintro s a ⟨hsound, hreached⟩ _
    exact hreached.smooth hforest hsound a

/-! ### A join -/

def shout (word : Char) : Action := ⟨custom, AList.singleton ['w'] [word]⟩

def said (id : ℕ) (word : Char) : Event := ⟨id, ['u'], some (shout word)⟩

/-- Two steps to start with, and one that follows both. -/
def join : QuestDefinition where
  steps := [⟨['A'], ['a'], [⟨['1'], ['a'], [shout 'a']⟩]⟩, ⟨['B'], ['b'], [⟨['2'], ['b'], [shout 'b']⟩]⟩,
    ⟨['J'], ['j'], [⟨['3'], ['j'], [shout 'j', shout 'k']⟩]⟩]
  connections := [⟨['A'], ['J']⟩, ⟨['B'], ['J']⟩]

def joinGraph : QuestGraph := QuestGraph.ofDefinition join

/-- Both ways into the join are gone before anything is done there. -/
def bothFirst : List (Event × List Text) :=
  [(said 1 'a', [['A'], ['B']]), (said 2 'b', [['J'], ['B']]), (said 3 'j', [['J']])]

/-- One way in, all the work, and then the other way in. -/
def oneFirst : List (Event × List Text) :=
  [(said 1 'a', [['A'], ['B']]), (said 2 'j', [['J'], ['B']]), (said 3 'k', [['J'], ['B']]),
    (said 4 'b', [['B']]), (said 5 'j', [['J']]), (said 6 'k', [['J']])]

instance decidableSmooth (g : QuestGraph) (state : QuestState) (a : Event × List Text) :
    Decidable (Smooth g state a) :=
  inferInstanceAs (Decidable (∀ action ∈ a.1.action, ∀ s ∈ a.2, finishes action state s = true →
    ∀ c ∈ g.next s, c ≠ endStepId → c ∉ state.stepsCompleted ∧
      ∀ x ∈ state.currentSteps.lookup c, x = g.fresh c ∧ finishes action state c = false))

theorem progress_well_founded_join : validateDefinition join = .ok () ∧ ∃ state,
    Machine.run (replayStep joinGraph) (initialState joinGraph) bothFirst = some state ∧
      state.stepsCompleted = [['A'], ['B']] ∧ state.stepsCompleted.Nodup ∧
      state.stepsLeft + state.stepsCompleted.length = join.steps.length := by
  have hend : (Machine.run (replayStep joinGraph) (initialState joinGraph) bothFirst).map
      QuestState.stepsCompleted = some [['A'], ['B']] := by decide
  obtain ⟨state, hrun, hdone⟩ := Option.map_eq_some_iff.mp hend
  have hmeets : Machine.Meets (replayStep joinGraph) (Smooth joinGraph) (initialState joinGraph)
      bothFirst := by decide
  obtain ⟨hnodup, _, hcount, _⟩ := progress_well_founded join (by decide) bothFirst state hrun hmeets
  exact ⟨by decide, state, hrun, hdone, hnodup, hcount⟩

/-- The second way in brings the finished join back, and it is finished again; had only half of
its work been done, that half would be lost. -/
theorem join_repeated : validateDefinition join = .ok () ∧
    (Machine.run (replayStep joinGraph) (initialState joinGraph) oneFirst).map
      (fun s => (s.stepsCompleted, s.stepsLeft)) = some ([['A'], ['J'], ['B'], ['J']], 0) ∧
    (Machine.run (replayStep joinGraph) (initialState joinGraph) (oneFirst.take 4)).map
      (fun s => (s.stepsCompleted, (s.currentSteps.lookup ['J']).isSome)) =
        some ([['A'], ['J'], ['B']], true) ∧
    ∃ state next x y,
      Machine.run (replayStep joinGraph) (initialState joinGraph) (oneFirst.take 2) = some state ∧
      replayStep joinGraph state (said 3 'b', [['B'], ['J']]) = some next ∧
      state.currentSteps.lookup ['J'] = some x ∧ next.currentSteps.lookup ['J'] = some y ∧
      ¬ x.Keeps y := by
  refine ⟨by decide, by decide, by decide, ?_⟩
  have hend : ((Machine.run (replayStep joinGraph) (initialState joinGraph) (oneFirst.take 2)).bind
      fun s => (replayStep joinGraph s (said 3 'b', [['B'], ['J']])).map fun n =>
        (s.currentSteps.lookup ['J'], n.currentSteps.lookup ['J'])) =
      some (some ⟨[⟨['3'], ['j'], [shout 'k']⟩], []⟩,
        some ⟨[⟨['3'], ['j'], [shout 'j', shout 'k']⟩], []⟩) := by decide
  obtain ⟨state, hrun, hrest⟩ := Option.bind_eq_some_iff.mp hend
  obtain ⟨next, hstep, hpair⟩ := Option.map_eq_some_iff.mp hrest
  refine ⟨state, next, _, _, hrun, hstep, congrArg Prod.fst hpair, congrArg Prod.snd hpair, ?_⟩
  intro hkeeps
  obtain ⟨task, htask, hremains⟩ := hkeeps.toDos _ List.mem_cons_self
  obtain rfl := List.mem_singleton.mp htask
  have hlength := hremains.items.length_le
  simp at hlength

end Catalyrst.Quests
