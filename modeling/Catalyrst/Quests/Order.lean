import Catalyrst.Quests.Progress

/-!
# The order of the steps within an event

Two current steps interfere within one event only when one of them finishes and makes the
other current again. If the event then finds nothing to match in the fresh content of the
other step, the order in which the map is iterated does not matter; if it does, two orders
end differently.
-/

namespace Catalyrst.Quests
open Catalyrst.Lib

/-! ### What an event finds in a step -/

def Task.hit (action : Action) (task : Task) : Bool :=
  task.actionItems.any fun item => matchesAction item action

def StepContent.hit (action : Action) (x : StepContent) : Bool := x.toDos.any (Task.hit action)

section Hits

variable {action : Action}

theorem Task.strike_eq_none {task : Task} : task.strike action = none ↔ task.hit action = false := by
  simp [Task.strike, Task.hit]

theorem Task.strike_length {task struck : Task} (h : task.strike action = some struck) :
    struck.actionItems.length + 1 = task.actionItems.length := by
  obtain ⟨i, hi, rfl⟩ := Option.map_eq_some_iff.mp h
  have hlt := (List.findIdx?_eq_some_iff_getElem.mp hi).1
  show (task.actionItems.eraseIdx i).length + 1 = _
  rw [List.length_eraseIdx_of_lt hlt]
  omega

theorem advance_of_not_hit {x : StepContent} (h : x.hit action = false) : x.advance action = x := by
  have hnone : ∀ task ∈ x.toDos, task.strike action = none := by
    intro task ht
    rw [Task.strike_eq_none, ← Bool.not_eq_true]
    intro hhit
    have hx : x.hit action = true := List.any_eq_true.mpr ⟨task, ht, hhit⟩
    rw [h] at hx
    cases hx
  have htoDos : (x.advance action).toDos = x.toDos := by
    show x.toDos.filterMap _ = _
    refine (List.filterMap_congr fun task ht => ?_).trans List.filterMap_some
    rw [Task.remaining, hnone task ht]
  have hcompleted : (x.advance action).tasksCompleted = x.tasksCompleted := by
    show x.tasksCompleted ++ x.toDos.filterMap _ = _
    have hnil : x.toDos.filterMap (fun task => (task.strike action).filter Task.isDone) = [] := by
      refine List.filterMap_eq_nil_iff.mpr fun task ht => ?_
      rw [hnone task ht]
      rfl
    rw [hnil, List.append_nil]
  cases x
  exact StepContent.mk.injEq .. ▸ ⟨htoDos, hcompleted⟩

/-- The number of items still to be matched. -/
def openItems (tasks : List Task) : ℕ := (tasks.map fun task => task.actionItems.length).sum

theorem openItems_remaining (action : Action) (tasks : List Task) :
    openItems (tasks.filterMap (Task.remaining action)) + tasks.countP (Task.hit action) ≤
      openItems tasks := by
  induction tasks with
  | nil => exact le_rfl
  | cons task tasks ih =>
    rw [List.filterMap_cons, List.countP_cons, Task.remaining]
    cases hstrike : task.strike action with
    | none =>
      rw [Task.strike_eq_none] at hstrike
      simp only [openItems, List.map_cons, List.sum_cons, hstrike, Bool.false_eq_true, if_false]
        at ih ⊢
      omega
    | some struck =>
      have hlen := Task.strike_length hstrike
      have hhit : task.hit action = true := by
        rw [← Bool.not_eq_false, ← Task.strike_eq_none, hstrike]
        simp
      rw [hhit, if_pos rfl]
      simp only [openItems, List.map_cons, List.sum_cons] at ih ⊢
      cases struck.isDone with
      | true =>
        simp only [if_true]
        omega
      | false =>
        simp only [Bool.false_eq_true, if_false, List.map_cons, List.sum_cons]
        omega

theorem advance_ne_of_hit {x : StepContent} (h : x.hit action = true) : x.advance action ≠ x := by
  intro heq
  have hle := openItems_remaining action x.toDos
  have hcount : 0 < x.toDos.countP (Task.hit action) := by
    obtain ⟨task, ht, hhit⟩ := List.any_eq_true.mp h
    exact List.countP_pos_iff.mpr ⟨task, ht, hhit⟩
  have hsame : x.toDos.filterMap (Task.remaining action) = x.toDos :=
    congrArg StepContent.toDos heq
  rw [hsame] at hle
  omega

theorem hit_of_advance {x : StepContent} (hx : x.toDos ≠ []) (hdone : (x.advance action).toDos = []) :
    x.hit action = true := by
  rw [← Bool.not_eq_false]
  intro hnot
  rw [advance_of_not_hit hnot] at hdone
  exact hx hdone

/-- What is left of a step is hit only if the whole step is. -/
theorem StepContent.Keeps.hit {x y : StepContent} (h : x.Keeps y) (hy : y.hit action = true) :
    x.hit action = true := by
  obtain ⟨left, hleft, hitem⟩ := List.any_eq_true.mp hy
  obtain ⟨item, hmem, hmatch⟩ := List.any_eq_true.mp hitem
  obtain ⟨task, htask, hremains⟩ := h.toDos left hleft
  exact List.any_eq_true.mpr
    ⟨task, htask, List.any_eq_true.mpr ⟨item, hremains.items.subset hmem, hmatch⟩⟩

theorem StepContent.Keeps.nonempty {x y : StepContent} (h : x.Keeps y) (hy : y.toDos ≠ []) :
    x.toDos ≠ [] := by
  obtain ⟨left, hleft⟩ := List.exists_mem_of_ne_nil _ hy
  obtain ⟨task, htask, _⟩ := h.toDos left hleft
  exact List.ne_nil_of_mem htask

theorem Task.remaining_eq_none {task : Task} : task.remaining action = none ↔
    ∃ item, task.actionItems = [item] ∧ matchesAction item action = true := by
  constructor
  · intro h
    unfold Task.remaining at h
    split at h
    · rename_i struck hstrike
      have hlen := Task.strike_length hstrike
      split at h
      · rename_i hdone
        rw [of_decide_eq_true hdone, List.length_nil] at hlen
        obtain ⟨item, hitem⟩ := List.length_eq_one_iff.mp hlen.symm
        refine ⟨item, hitem, ?_⟩
        rw [← Bool.not_eq_false]
        intro hnot
        have hmiss : task.hit action = false := by
          rw [Task.hit, hitem, List.any_cons, hnot]
          rfl
        rw [Task.strike_eq_none.mpr hmiss] at hstrike
        cases hstrike
      · cases h
    · cases h
  · rintro ⟨item, hitem, hmatch⟩
    have hstrike : task.strike action = some { task with actionItems := [] } := by
      rw [Task.strike, hitem, List.findIdx?_cons, hmatch]
      rfl
    rw [Task.remaining, hstrike]
    rfl

/-- If the event finishes the fresh step it finishes what is left of it. -/
theorem StepContent.Keeps.done {x y : StepContent} (h : x.Keeps y)
    (hdone : (x.advance action).toDos = []) : (y.advance action).toDos = [] := by
  refine List.filterMap_eq_nil_iff.mpr fun left hleft => ?_
  obtain ⟨task, htask, hremains⟩ := h.toDos left hleft
  obtain ⟨item, hitem, hmatch⟩ := Task.remaining_eq_none.mp
    (List.filterMap_eq_nil_iff.mp hdone task htask)
  refine Task.remaining_eq_none.mpr ⟨item, ?_, hmatch⟩
  have hitems := hremains.items
  rw [hitem] at hitems
  obtain hempty | hfull := List.sublist_singleton.mp hitems
  · have htaskEmpty := hremains.nonempty hempty
    rw [hitem] at htaskEmpty
    cases htaskEmpty
  · exact hfull

end Hits

/-! ### Every step is what is left of a fresh one -/

/-- Every current step is what is left of its fresh content. -/
def Begun (g : QuestGraph) (state : QuestState) : Prop :=
  ∀ k x, state.currentSteps.lookup k = some x → (g.fresh k).Keeps x

section Event

variable {g : QuestGraph} {action : Action} {state next : QuestState} {order visited : List Text}

theorem begun_initial : Begun g (initialState g) := by
  intro k x hx
  rw [lookup_initialState hx]
  exact .refl _

/-- What a visit leaves of a step: itself, a fresh one, or, for the visited one, one event more. -/
theorem lookup_visitStep {k c : Text} {y : StepContent}
    (h : (visitStep g action state next k).currentSteps.lookup c = some y) :
    next.currentSteps.lookup c = some y ∨ y = g.fresh c ∨
      c = k ∧ ∃ x, next.currentSteps.lookup k = some x ∧ y = x.advance action := by
  unfold visitStep at h
  split at h
  · exact Or.inl h
  · split at h
    · exact Or.inl h
    · split at h
      · exact Or.inl h
      · rename_i x hx
        have hinsert : (next.currentSteps.insert k (x.advance action)).lookup c = some y →
            next.currentSteps.lookup c = some y ∨ y = g.fresh c ∨
              c = k ∧ ∃ x, next.currentSteps.lookup k = some x ∧ y = x.advance action := by
          intro hy
          by_cases hc : c = k
          · subst hc
            rw [Finmap.lookup_insert] at hy
            exact Or.inr (Or.inr ⟨rfl, x, hx, (Option.some.inj hy).symm⟩)
          · rw [Finmap.lookup_insert_of_ne _ hc] at hy
            exact Or.inl hy
        split at h
        · rw [lookup_finishStep] at h
          split at h
          · exact Or.inr (Or.inl (Option.some.inj h).symm)
          · split at h
            · cases h
            · exact hinsert h
        · exact hinsert h

theorem Begun.visit (h : Begun g next) (k : Text) : Begun g (visitStep g action state next k) := by
  intro c y hy
  obtain hold | rfl | ⟨rfl, x, hx, rfl⟩ := lookup_visitStep hy
  · exact h c y hold
  · exact .refl _
  · exact (h c x hx).trans (StepContent.keeps_advance action x)

theorem Begun.visitAll (h : Begun g next) (order : List Text) :
    Begun g (order.foldl (visitStep g action state) next) := by
  induction order generalizing next with
  | nil => exact h
  | cons k order ih => exact ih (h.visit k)

theorem Begun.applyEvent (h : Begun g state) (order : List Text) (event : Event) :
    Begun g (applyEvent g order state event) := by
  unfold Quests.applyEvent
  split
  · exact h
  · exact h.visitAll order

/-! ### A calm event -/

/-- A current successor of a finishing step is not hit by the event once it is fresh again, or
goes through all of it at once and starts over. -/
def Calm (g : QuestGraph) (state : QuestState) (event : Event) : Prop :=
  ∀ action ∈ event.action, ∀ s c x, finishes action state s = true → c ∈ g.next s →
    c ≠ endStepId → c ≠ s → state.currentSteps.lookup c = some x → x.toDos ≠ [] →
      (g.fresh c).hit action = false ∨
        (c ∈ g.next c ∧ ((g.fresh c).advance action).toDos = [])

/-- The visited finishing steps make `k` current again. -/
def reactivated (g : QuestGraph) (action : Action) (state : QuestState) (visited : List Text)
    (k : Text) : Prop :=
  ∃ s ∈ visited, finishes action state s = true ∧ k ∈ g.next s ∧ k ≠ endStepId

instance (g : QuestGraph) (action : Action) (state : QuestState) (visited : List Text) (k : Text) :
    Decidable (reactivated g action state visited k) :=
  inferInstanceAs (Decidable (∃ s ∈ visited, finishes action state s = true ∧ k ∈ g.next s ∧
    k ≠ endStepId))

/-- What a calm event makes of a step, once the steps in `visited` are through. -/
def settled (g : QuestGraph) (action : Action) (state : QuestState)
    (visited : List Text) (k : Text) : Option StepContent :=
  if reactivated g action state visited k then some (g.fresh k)
  else if k ∈ visited then
    (state.currentSteps.lookup k).bind fun x =>
      if finishes action state k then none else some (x.advance action)
  else state.currentSteps.lookup k

structure Settles (g : QuestGraph) (action : Action) (state : QuestState) (visited : List Text)
    (next : QuestState) : Prop where
  completed : next.stepsCompleted =
    state.stepsCompleted ++ visited.filter (finishes action state)
  left : next.stepsLeft = state.stepsLeft - (visited.filter (finishes action state)).length
  lookup : ∀ k, next.currentSteps.lookup k = settled g action state visited k

theorem settles_nil : Settles g action state [] state where
  completed := (List.append_nil _).symm
  left := rfl
  lookup k := by
    have hnot : ¬ reactivated g action state [] k := by
      rintro ⟨s, hs, _⟩
      cases hs
    rw [settled, if_neg hnot, if_neg List.not_mem_nil]

theorem reactivated_append (k c : Text) : reactivated g action state (visited ++ [k]) c ↔
    reactivated g action state visited c ∨
      finishes action state k = true ∧ c ∈ g.next k ∧ c ≠ endStepId := by
  simp only [reactivated, List.mem_append, List.mem_singleton]
  constructor
  · rintro ⟨s, hs | rfl, hrest⟩
    · exact Or.inl ⟨s, hs, hrest⟩
    · exact Or.inr hrest
  · rintro (⟨s, hs, hrest⟩ | hrest)
    · exact ⟨s, Or.inl hs, hrest⟩
    · exact ⟨k, Or.inr rfl, hrest⟩

theorem settled_unvisited {k : Text} (hnew : k ∉ visited) : settled g action state visited k =
    if reactivated g action state visited k then some (g.fresh k)
    else state.currentSteps.lookup k := by
  rw [settled, if_neg hnew]

theorem settled_other {k c : Text} (hc : c ≠ k)
    (hout : ¬ (finishes action state k = true ∧ c ∈ g.next k ∧ c ≠ endStepId)) :
    settled g action state (visited ++ [k]) c = settled g action state visited c := by
  have hmem : c ∈ visited ++ [k] ↔ c ∈ visited := by
    rw [List.mem_append, List.mem_singleton, or_iff_left hc]
  simp only [settled, reactivated_append, or_iff_left hout, hmem]

theorem settled_self {k : Text} {x : StepContent} (hk : state.currentSteps.lookup k = some x)
    (hout : ¬ (finishes action state k = true ∧ k ∈ g.next k ∧ k ≠ endStepId)) :
    settled g action state (visited ++ [k]) k =
      if reactivated g action state visited k then some (g.fresh k)
      else if finishes action state k then none else some (x.advance action) := by
  have hmem : k ∈ visited ++ [k] := List.mem_append_right _ (List.mem_singleton.mpr rfl)
  simp only [settled, reactivated_append, or_iff_left hout, hmem, if_true, hk, Option.bind_some]

theorem settled_activated {k c : Text}
    (hin : finishes action state k = true ∧ c ∈ g.next k ∧ c ≠ endStepId) :
    settled g action state (visited ++ [k]) c = some (g.fresh c) := by
  rw [settled, if_pos ((reactivated_append k c).mpr (Or.inr hin))]

/-- The step as the visit finds it: it finishes if and only if it would have at the start. -/
theorem visited_content {k : Text} {x : StepContent} (hbegun : Begun g state)
    (hk : state.currentSteps.lookup k = some x) (hx : x.toDos ≠ [])
    (hnew : k ∉ visited) (hcalm : ∀ s, finishes action state s = true → k ∈ g.next s →
      k ≠ endStepId → k ≠ s → (g.fresh k).hit action = false ∨
        (k ∈ g.next k ∧ ((g.fresh k).advance action).toDos = [])) :
    ∃ y, settled g action state visited k = some y ∧
      ((y.advance action).toDos = [] ↔ finishes action state k = true) ∧
      (finishes action state k = false → some (y.advance action) =
        if reactivated g action state visited k then some (g.fresh k)
        else some (x.advance action)) ∧
      (finishes action state k = true → reactivated g action state visited k →
        k ∈ g.next k ∧ k ≠ endStepId) := by
  have hfin : finishes action state k = true ↔ (x.advance action).toDos = [] :=
    finishes_iff_done hk hx
  rw [settled_unvisited hnew]
  by_cases hre : reactivated g action state visited k
  · have hkeeps := hbegun k x hk
    obtain ⟨s, hs, hfs, hin, hend⟩ := hre
    have hne : k ≠ s := fun heq => hnew (heq ▸ hs)
    rw [if_pos ⟨s, hs, hfs, hin, hend⟩]
    refine ⟨g.fresh k, rfl, ?_⟩
    obtain hmiss | ⟨hself, hdone⟩ := hcalm s hfs hin hend hne
    · have hmissed : x.hit action = false := by
        rw [← Bool.not_eq_true]
        intro hhit
        rw [hkeeps.hit hhit] at hmiss
        cases hmiss
      have hnot : ¬ finishes action state k = true := by
        rw [hfin, advance_of_not_hit hmissed]
        exact hx
      rw [advance_of_not_hit hmiss]
      refine ⟨iff_of_false (hkeeps.nonempty hx) hnot, fun _ => ?_, fun h => absurd h hnot⟩
      rw [if_pos ⟨s, hs, hfs, hin, hend⟩]
    · have hyes : finishes action state k = true := hfin.mpr (hkeeps.done hdone)
      refine ⟨iff_of_true hdone hyes, fun h => ?_, fun _ _ => ⟨hself, hend⟩⟩
      rw [hyes] at h
      cases h
  · rw [if_neg hre, hk]
    refine ⟨x, rfl, hfin.symm, fun _ => ?_, fun _ h => absurd h hre⟩
    rw [if_neg hre]

theorem Settles.idle (h : Settles g action state visited next) {k : Text} {x : StepContent}
    (hk : state.currentSteps.lookup k = some x) (hx : x.toDos = []) (hnew : k ∉ visited) :
    Settles g action state (visited ++ [k]) next := by
  have hnot : finishes action state k = false := not_finishes_idle hk hx
  have hout : ∀ c, ¬ (finishes action state k = true ∧ c ∈ g.next k ∧ c ≠ endStepId) := by
    rintro c ⟨hf, _⟩
    rw [hnot] at hf
    cases hf
  have hmiss : x.hit action = false := by
    rw [StepContent.hit, hx]
    rfl
  refine ⟨by rw [filter_visited_of_not hnot, h.completed],
    by rw [filter_visited_of_not hnot, h.left], fun c => ?_⟩
  by_cases hc : c = k
  · subst hc
    rw [settled_self hk (hout c), h.lookup, settled_unvisited hnew, hk, hnot,
      advance_of_not_hit hmiss]
    rfl
  · rw [settled_other hc (hout c), h.lookup]

theorem Settles.visit (h : Settles g action state visited next) (hbegun : Begun g state) {k : Text}
    {x : StepContent} (hk : state.currentSteps.lookup k = some x) (hnew : k ∉ visited)
    (hcalm : ∀ s, finishes action state s = true → k ∈ g.next s → k ≠ endStepId → k ≠ s →
      x.toDos ≠ [] → (g.fresh k).hit action = false ∨
        (k ∈ g.next k ∧ ((g.fresh k).advance action).toDos = [])) :
    Settles g action state (visited ++ [k]) (visitStep g action state next k) := by
  by_cases hx : x.toDos = []
  · rw [visitStep_idle hk hx]
    exact h.idle hk hx hnew
  · obtain ⟨y, hy, hdone, hwork, hself⟩ := visited_content hbegun hk hx hnew
      fun s hf hin hend hne => hcalm s hf hin hend hne hx
    rw [visitStep_active hk hx ((h.lookup k).trans hy)]
    cases hf : finishes action state k with
    | true =>
      rw [if_pos (hdone.mpr hf)]
      refine ⟨?_, ?_, fun c => ?_⟩
      · show next.stepsCompleted ++ [k] = _
        rw [h.completed, filter_visited hf, List.append_assoc]
      · show next.stepsLeft - 1 = _
        rw [h.left, filter_visited hf, List.length_append, List.length_singleton, Nat.sub_sub]
      · rw [lookup_finishStep]
        split
        · rename_i hin
          exact (settled_activated ⟨hf, hin⟩).symm
        · rename_i hin
          have hout : ¬ (finishes action state k = true ∧ c ∈ g.next k ∧ c ≠ endStepId) :=
            fun hall => hin hall.2
          split
          · rename_i hc
            subst hc
            have hre : ¬ reactivated g action state visited c := fun hre => hin (hself hf hre)
            rw [settled_self hk hout, if_neg hre, hf, if_pos rfl]
          · rename_i hc
            rw [settled_other hc hout, ← h.lookup]
            exact Finmap.lookup_insert_of_ne _ hc
    | false =>
      have hleft : (y.advance action).toDos ≠ [] := by
        rw [Ne, hdone, hf]
        simp
      have hout : ∀ c, ¬ (finishes action state k = true ∧ c ∈ g.next k ∧ c ≠ endStepId) := by
        rintro c ⟨hyes, _⟩
        rw [hf] at hyes
        cases hyes
      rw [if_neg hleft]
      refine ⟨by rw [filter_visited_of_not hf, ← h.completed],
        by rw [filter_visited_of_not hf, ← h.left], fun c => ?_⟩
      by_cases hc : c = k
      · subst hc
        show (next.currentSteps.insert c (y.advance action)).lookup c = _
        rw [Finmap.lookup_insert, settled_self hk (hout c), hf]
        exact hwork hf
      · rw [settled_other hc (hout c), ← h.lookup]
        exact Finmap.lookup_insert_of_ne _ hc

theorem Settles.visitAll (h : Settles g action state visited next) (hbegun : Begun g state)
    (hnodup : (visited ++ order).Nodup)
    (hcurrent : ∀ k ∈ order, ∃ x, state.currentSteps.lookup k = some x)
    (hcalm : ∀ s c x, finishes action state s = true → c ∈ g.next s → c ≠ endStepId → c ≠ s →
      state.currentSteps.lookup c = some x → x.toDos ≠ [] → (g.fresh c).hit action = false ∨
        (c ∈ g.next c ∧ ((g.fresh c).advance action).toDos = [])) :
    Settles g action state (visited ++ order) (order.foldl (visitStep g action state) next) := by
  induction order generalizing visited next with
  | nil => rwa [List.append_nil]
  | cons k order ih =>
    obtain ⟨x, hk⟩ := hcurrent k List.mem_cons_self
    have hnew : k ∉ visited := fun hv =>
      (List.disjoint_of_nodup_append hnodup) hv List.mem_cons_self
    rw [List.append_cons] at hnodup ⊢
    refine ih (h.visit hbegun hk hnew fun s hf hin hend hne hx => ?_) hnodup fun c hc =>
      hcurrent c (List.mem_cons_of_mem k hc)
    exact hcalm s k x hf hin hend hne hk hx

theorem settled_congr {order order' : List Text} {state' : QuestState}
    (hsteps : state.currentSteps = state'.currentSteps) (hmem : ∀ k, k ∈ order ↔ k ∈ order')
    (k : Text) : settled g action state order k = settled g action state' order' k := by
  have hfin : finishes action state = finishes action state' := by
    funext c
    rw [finishes, finishes, hsteps]
  have hre : reactivated g action state order k ↔ reactivated g action state' order' k := by
    simp only [reactivated, hfin, hmem]
  rw [settled, settled, hfin, hsteps]
  exact if_congr hre rfl (if_congr (hmem k) rfl rfl)

/-- What a player is shown. -/
structure SameView (a b : QuestState) : Prop where
  currentSteps : a.currentSteps = b.currentSteps
  stepsLeft : a.stepsLeft = b.stepsLeft
  stepsCompleted : ∀ k, k ∈ a.stepsCompleted ↔ k ∈ b.stepsCompleted

theorem SameView.refl (a : QuestState) : SameView a a := ⟨rfl, rfl, fun _ => Iff.rfl⟩

theorem Calm.congr {event : Event} {state' : QuestState} (h : Calm g state event)
    (hsteps : state.currentSteps = state'.currentSteps) : Calm g state' event := by
  have hfin : ∀ action, finishes action state' = finishes action state := by
    intro action
    funext c
    rw [finishes, finishes, hsteps]
  intro action haction s c x
  rw [hfin, ← hsteps]
  exact h action haction s c x

/-- A calm event does the same in whatever order the steps are visited. -/
theorem Calm.sameView {event : Event} {state' : QuestState} {order' : List Text}
    (h : Calm g state event) (hbegun : Begun g state) (hview : SameView state state')
    (henum : Enumerates order state.currentSteps) (henum' : Enumerates order' state'.currentSteps) :
    SameView (applyEvent g order state event) (applyEvent g order' state' event) := by
  unfold applyEvent
  cases haction : event.action with
  | none => exact hview
  | some action =>
    have hfin : finishes action state' = finishes action state := by
      funext c
      rw [finishes, finishes, hview.currentSteps]
    have hbegun' : Begun g state' := fun k x hx => hbegun k x (hview.currentSteps ▸ hx)
    have hone := settles_nil.visitAll hbegun (by simpa using henum.1)
      (fun k => (henum.mem_iff k).mp) (h action haction)
    have htwo := settles_nil.visitAll hbegun' (by simpa using henum'.1)
      (fun k => (henum'.mem_iff k).mp) ((h.congr hview.currentSteps) action haction)
    rw [List.nil_append] at hone htwo
    have hmem : ∀ k, k ∈ order ↔ k ∈ order' := by
      intro k
      rw [henum.mem_iff, henum'.mem_iff, hview.currentSteps]
    have hperm : order.Perm order' := (List.perm_ext_iff_of_nodup henum.1 henum'.1).mpr hmem
    refine ⟨Finmap.ext_lookup fun k => ?_, ?_, fun k => ?_⟩
    · rw [hone.lookup, htwo.lookup]
      exact settled_congr hview.currentSteps hmem k
    · rw [hone.left, htwo.left, hview.stepsLeft, hfin, (hperm.filter _).length_eq]
    · rw [hone.completed, htwo.completed, List.mem_append, List.mem_append, hview.stepsCompleted,
        hfin, (hperm.filter _).mem_iff]

/-! ### Two orders that disagree otherwise -/

theorem lookup_visit_other {k c : Text} (hc : c ≠ k) :
    (visitStep g action state next k).currentSteps.lookup c = next.currentSteps.lookup c ∨
      (visitStep g action state next k).currentSteps.lookup c = some (g.fresh c) := by
  unfold visitStep
  split
  · exact Or.inl rfl
  · split
    · exact Or.inl rfl
    · split
      · exact Or.inl rfl
      · dsimp only
        split
        · rw [lookup_finishStep, if_neg hc]
          split
          · exact Or.inr rfl
          · exact Or.inl (Finmap.lookup_insert_of_ne _ hc)
        · exact Or.inl (Finmap.lookup_insert_of_ne _ hc)

/-- The visits of the others leave a step as it is or make it fresh. -/
theorem lookup_visit_others {c : Text} (rest : List Text) (hc : c ∉ rest) :
    (rest.foldl (visitStep g action state) next).currentSteps.lookup c =
        next.currentSteps.lookup c ∨
      (rest.foldl (visitStep g action state) next).currentSteps.lookup c = some (g.fresh c) := by
  induction rest generalizing next with
  | nil => exact Or.inl rfl
  | cons k rest ih =>
    have hk : c ≠ k := fun heq => hc (heq ▸ List.mem_cons_self)
    have hrest : c ∉ rest := fun hin => hc (List.mem_cons_of_mem k hin)
    obtain hsame | hfresh := ih hrest
    · rw [List.foldl_cons, hsame]
      exact lookup_visit_other hk
    · exact Or.inr hfresh

theorem stays_fresh {c : Text} (rest : List Text) (hc : c ∉ rest)
    (h : next.currentSteps.lookup c = some (g.fresh c)) :
    (rest.foldl (visitStep g action state) next).currentSteps.lookup c = some (g.fresh c) := by
  obtain hsame | hfresh := lookup_visit_others rest hc
  · rw [hsame, h]
  · exact hfresh

theorem stays_unworked {c : Text} (rest : List Text) (hc : c ∉ rest)
    (h : ∀ y ∈ next.currentSteps.lookup c, y = g.fresh c) :
    ∀ y ∈ (rest.foldl (visitStep g action state) next).currentSteps.lookup c, y = g.fresh c := by
  obtain hsame | hfresh := lookup_visit_others rest hc
  · rw [hsame]
    exact h
  · intro y hy
    rw [hfresh] at hy
    exact (Option.some.inj hy).symm

theorem lookup_visit_finishing {s c : Text} {x y : StepContent}
    (hs : state.currentSteps.lookup s = some x) (hx : x.toDos ≠ [])
    (hy : next.currentSteps.lookup s = some y) (hdone : (y.advance action).toDos = []) :
    (visitStep g action state next s).currentSteps.lookup c =
      if c ∈ g.next s ∧ c ≠ endStepId then some (g.fresh c)
      else if c = s then none else next.currentSteps.lookup c := by
  rw [visitStep_active hs hx hy, if_pos hdone, lookup_finishStep]
  refine if_congr Iff.rfl rfl ?_
  split
  · rfl
  · rename_i hc
    exact Finmap.lookup_insert_of_ne _ hc

theorem lookup_visit_working {c : Text} {x y : StepContent}
    (hc : state.currentSteps.lookup c = some x) (hx : x.toDos ≠ [])
    (hy : next.currentSteps.lookup c = some y) (hleft : (y.advance action).toDos ≠ []) :
    visitStep g action state next c =
      { next with currentSteps := next.currentSteps.insert c (y.advance action) } := by
  rw [visitStep_active hc hx hy, if_neg hleft]

theorem lookup_of_visit_last {c : Text} {x : StepContent} {steps : QuestState}
    (hc : state.currentSteps.lookup c = some x) (hx : x.toDos ≠ [])
    (hfresh : steps.currentSteps.lookup c = some (g.fresh c)) :
    (visitStep g action state steps c).currentSteps.lookup c =
      if ((g.fresh c).advance action).toDos = [] then
        if c ∈ g.next c ∧ c ≠ endStepId then some (g.fresh c) else none
      else some ((g.fresh c).advance action) := by
  split
  · rename_i hdone
    rw [lookup_visit_finishing hc hx hfresh hdone, if_pos rfl]
  · rename_i hleft
    rw [lookup_visit_working hc hx hfresh hleft]
    exact Finmap.lookup_insert _

/-- Visited last, after a finishing predecessor that was visited first, a step has had its
fresh content offered to the event. -/
theorem lookup_last {s c : Text} {x xs : StepContent} {rest : List Text}
    (hs : state.currentSteps.lookup s = some xs) (hsx : xs.toDos ≠ [])
    (hdone : (xs.advance action).toDos = []) (hc : state.currentSteps.lookup c = some x)
    (hx : x.toDos ≠ []) (hin : c ∈ g.next s) (hend : c ≠ endStepId) (hrest : c ∉ rest) :
    ((s :: rest ++ [c]).foldl (visitStep g action state) state).currentSteps.lookup c =
      if ((g.fresh c).advance action).toDos = [] then
        if c ∈ g.next c ∧ c ≠ endStepId then some (g.fresh c) else none
      else some ((g.fresh c).advance action) := by
  rw [List.foldl_append, List.foldl_cons, List.foldl_cons, List.foldl_nil]
  have hfirst : (visitStep g action state state s).currentSteps.lookup c = some (g.fresh c) := by
    rw [lookup_visit_finishing hs hsx hs hdone, if_pos ⟨hin, hend⟩]
  exact lookup_of_visit_last hc hx (stays_fresh rest hrest hfirst)

/-- A step that the event does not finish from scratch: worked on if it comes last, fresh or
gone if it comes first. -/
theorem disagree_working {s c : Text} {x xs : StepContent} {rest : List Text} (hne : c ≠ s)
    (hs : state.currentSteps.lookup s = some xs) (hsx : xs.toDos ≠ [])
    (hdone : (xs.advance action).toDos = []) (hc : state.currentSteps.lookup c = some x)
    (hx : x.toDos ≠ []) (hin : c ∈ g.next s) (hend : c ≠ endStepId) (hrest : c ∉ rest)
    (hhit : (g.fresh c).hit action = true) (hleft : ((g.fresh c).advance action).toDos ≠ []) :
    ((s :: rest ++ [c]).foldl (visitStep g action state) state).currentSteps.lookup c ≠
      ((c :: s :: rest).foldl (visitStep g action state) state).currentSteps.lookup c := by
  have hfirst : ∀ y ∈ ((c :: s :: rest).foldl (visitStep g action state) state).currentSteps.lookup c,
      y = g.fresh c := by
    rw [List.foldl_cons, List.foldl_cons]
    by_cases hcdone : (x.advance action).toDos = []
    · -- it finishes at once
      refine stays_unworked (s :: rest) (by simp [hne, hrest]) fun y hy => ?_
      rw [Option.mem_def, lookup_visit_finishing hc hx hc hcdone, if_pos rfl] at hy
      split at hy
      · exact (Option.some.inj hy).symm
      · cases hy
    · -- its predecessor finishes after it
      refine stays_unworked rest hrest fun y hy => ?_
      have hsame : (visitStep g action state state c).currentSteps.lookup s = some xs := by
        rw [lookup_visit_working hc hx hc hcdone]
        exact (Finmap.lookup_insert_of_ne _ hne.symm).trans hs
      rw [Option.mem_def, lookup_visit_finishing hs hsx hsame hdone, if_pos ⟨hin, hend⟩] at hy
      exact (Option.some.inj hy).symm
  rw [lookup_last hs hsx hdone hc hx hin hend hrest, if_neg hleft]
  intro heq
  exact advance_ne_of_hit hhit (hfirst _ heq.symm)

/-- A step that the event finishes from scratch, and that does not follow itself: gone if it
comes last, and back if its predecessor finishes after it. -/
theorem disagree_finishing {s c : Text} {x xs : StepContent} {rest : List Text} (hne : c ≠ s)
    (hs : state.currentSteps.lookup s = some xs) (hsx : xs.toDos ≠ [])
    (hdone : (xs.advance action).toDos = []) (hc : state.currentSteps.lookup c = some x)
    (hx : x.toDos ≠ []) (hcdone : (x.advance action).toDos = []) (hin : c ∈ g.next s)
    (hend : c ≠ endStepId) (hrest : c ∉ rest) (hall : ((g.fresh c).advance action).toDos = [])
    (hself : c ∉ g.next c)
    (hagain : s ∈ g.next c → s ≠ endStepId → ((g.fresh s).advance action).toDos = []) :
    ((s :: rest ++ [c]).foldl (visitStep g action state) state).currentSteps.lookup c ≠
      ((c :: s :: rest).foldl (visitStep g action state) state).currentSteps.lookup c := by
  have hsecond : ∃ y, (visitStep g action state state c).currentSteps.lookup s = some y ∧
      (y.advance action).toDos = [] := by
    rw [lookup_visit_finishing hc hx hc hcdone]
    split
    · rename_i hback
      exact ⟨_, rfl, hagain hback.1 hback.2⟩
    · rw [if_neg hne.symm]
      exact ⟨xs, hs, hdone⟩
  obtain ⟨y, hy, hydone⟩ := hsecond
  have hback : ((c :: s :: rest).foldl (visitStep g action state) state).currentSteps.lookup c =
      some (g.fresh c) := by
    rw [List.foldl_cons, List.foldl_cons]
    refine stays_fresh rest hrest ?_
    rw [lookup_visit_finishing hs hsx hy hydone, if_pos ⟨hin, hend⟩]
  rw [lookup_last hs hsx hdone hc hx hin hend hrest, if_pos hall, if_neg fun h => hself h.1, hback]
  exact (Option.some_ne_none _).symm

theorem enumerates_iff {steps : CurrentSteps} : Enumerates order steps ↔
    order.Nodup ∧ ∀ k, k ∈ order ↔ k ∈ steps := by
  simp only [Enumerates, Finset.ext_iff, List.mem_toFinset, Finmap.mem_keys]

/-- The two orders for a pair of steps. -/
theorem enumerates_pair {steps : CurrentSteps} {s c : Text} (henum : Enumerates order steps)
    (hs : s ∈ order) (hc : c ∈ order) (hne : c ≠ s) :
    Enumerates (s :: order.filter (fun k => k ≠ s ∧ k ≠ c) ++ [c]) steps ∧
      Enumerates (c :: s :: order.filter fun k => k ≠ s ∧ k ≠ c) steps := by
  obtain ⟨hnodup, hmem⟩ := enumerates_iff.mp henum
  have hrest := hnodup.filter fun k => k ≠ s ∧ k ≠ c
  have hcover : ∀ k, (k = s ∨ k = c ∨ k ∈ order ∧ k ≠ s ∧ k ≠ c) ↔ k ∈ steps := by
    intro k
    rw [← hmem]
    constructor
    · rintro (rfl | rfl | ⟨hk, _⟩)
      · exact hs
      · exact hc
      · exact hk
    · intro hk
      by_cases hks : k = s
      · exact Or.inl hks
      · by_cases hkc : k = c
        · exact Or.inr (Or.inl hkc)
        · exact Or.inr (Or.inr ⟨hk, hks, hkc⟩)
  refine ⟨enumerates_iff.mpr ⟨?_, fun k => ?_⟩, enumerates_iff.mpr ⟨?_, fun k => ?_⟩⟩
  · simpa [List.nodup_append, Ne.symm hne] using hrest
  · rw [← hcover]
    simp only [List.cons_append, List.mem_cons, List.mem_append, List.mem_filter,
      decide_eq_true_eq, List.not_mem_nil, or_false]
    tauto
  · simpa [hne] using hrest
  · rw [← hcover]
    simp only [List.mem_cons, List.mem_filter, decide_eq_true_eq]
    tauto

/-- An event that is not calm does different things in different orders. -/
theorem orders_disagree {event : Event} (hbegun : Begun g state)
    (henum : Enumerates order state.currentSteps) (h : ¬ Calm g state event) :
    ∃ one two, Enumerates one state.currentSteps ∧ Enumerates two state.currentSteps ∧
      (applyEvent g one state event).currentSteps ≠ (applyEvent g two state event).currentSteps := by
  unfold Calm at h
  push Not at h
  obtain ⟨action, haction, s, c, x, hf, hin, hend, hne, hc, hx, hhit, hself⟩ := h
  rw [Bool.ne_false_iff] at hhit
  rw [Option.mem_def] at haction
  obtain ⟨xs, hs, hsx, hdone⟩ := finishes_iff.mp hf
  have hsmem : s ∈ order := (henum.mem_iff s).mpr ⟨xs, hs⟩
  have hcmem : c ∈ order := (henum.mem_iff c).mpr ⟨x, hc⟩
  have happly : ∀ o, applyEvent g o state event = o.foldl (visitStep g action state) state := by
    intro o
    rw [applyEvent, haction]
  obtain ⟨hone, htwo⟩ := enumerates_pair henum hsmem hcmem hne
  have hcout : c ∉ order.filter fun k => k ≠ s ∧ k ≠ c := by simp
  have hsout : s ∉ order.filter fun k => k ≠ c ∧ k ≠ s := by simp
  by_cases hall : ((g.fresh c).advance action).toDos = []
  · have hcdone : (x.advance action).toDos = [] := (hbegun c x hc).done hall
    by_cases hagain : s ∈ g.next c → s ≠ endStepId → ((g.fresh s).advance action).toDos = []
    · refine ⟨_, _, hone, htwo, fun heq => ?_⟩
      rw [happly, happly] at heq
      exact disagree_finishing hne hs hsx hdone hc hx hcdone hin hend hcout hall
        (fun hin' => hself hin' hall) hagain (by rw [heq])
    · -- the predecessor is the one that is worked on or wiped
      push Not at hagain
      obtain ⟨hback, hsend, hleft⟩ := hagain
      obtain ⟨hone', htwo'⟩ := enumerates_pair henum hcmem hsmem hne.symm
      refine ⟨_, _, hone', htwo', fun heq => ?_⟩
      rw [happly, happly] at heq
      have hshit : (g.fresh s).hit action = true := (hbegun s xs hs).hit (hit_of_advance hsx hdone)
      exact disagree_working hne.symm hc hx hcdone hs hsx hback hsend hsout hshit hleft
        (by rw [heq])
  · refine ⟨_, _, hone, htwo, fun heq => ?_⟩
    rw [happly, happly] at heq
    exact disagree_working hne hs hsx hdone hc hx hin hend hcout hhit hall (by rw [heq])

end Event

/-! ### Whole replays -/

/-- Every two replays of the same events, or of the first ones, show the same. -/
def OrderFree (g : QuestGraph) (events : List Event) : Prop :=
  ∀ (one two : List (Event × List Text)) (rest : List Event) (state state' : QuestState),
    one.map Prod.fst ++ rest = events → two.map Prod.fst = one.map Prod.fst →
      Machine.run (replayStep g) (initialState g) one = some state →
      Machine.run (replayStep g) (initialState g) two = some state' → SameView state state'

/-- Every event of every replay is calm. -/
def CalmThroughout (g : QuestGraph) (state : QuestState) (events : List Event) : Prop :=
  ∀ (replay : List (Event × List Text)) (event : Event) (rest : List Event) (reached : QuestState),
    replay.map Prod.fst ++ event :: rest = events →
      Machine.run (replayStep g) state replay = some reached → Calm g reached event

section Replays

variable {g : QuestGraph} {state state' next : QuestState}

theorem Begun.step (h : Begun g state) {a : Event × List Text}
    (hstep : replayStep g state a = some next) : Begun g next := by
  obtain ⟨_, rfl⟩ := replayStep_some hstep
  exact h.applyEvent a.2 a.1

theorem CalmThroughout.tail {event : Event} {events : List Event} {order : List Text}
    (h : CalmThroughout g state (event :: events))
    (hstep : replayStep g state (event, order) = some next) : CalmThroughout g next events := by
  intro replay e rest reached hsplit hrun
  refine h ((event, order) :: replay) e rest reached (congrArg (event :: ·) hsplit) ?_
  rw [Machine.run_cons, hstep]
  exact hrun

theorem replays_agree {one two : List (Event × List Text)} {rest events : List Event}
    {reached reached' : QuestState} (hcalm : CalmThroughout g state events) (hbegun : Begun g state)
    (hview : SameView state state') (hone : one.map Prod.fst ++ rest = events)
    (htwo : two.map Prod.fst = one.map Prod.fst)
    (hrun : Machine.run (replayStep g) state one = some reached)
    (hrun' : Machine.run (replayStep g) state' two = some reached') : SameView reached reached' := by
  induction one generalizing two events state state' with
  | nil =>
    obtain rfl := List.map_eq_nil_iff.mp htwo
    obtain rfl := Option.some.inj hrun
    obtain rfl := Option.some.inj hrun'
    exact hview
  | cons a one ih =>
    obtain ⟨event, order⟩ := a
    obtain ⟨⟨event', order'⟩, two, rfl, hhead, htail⟩ := List.map_eq_cons_iff.mp htwo
    obtain rfl : event' = event := hhead
    subst hone
    obtain ⟨t, hstep, hrest⟩ := Option.bind_eq_some_iff.mp hrun
    obtain ⟨t', hstep', hrest'⟩ := Option.bind_eq_some_iff.mp hrun'
    refine ih (hcalm.tail hstep) (hbegun.step hstep) ?_ rfl htail hrest hrest'
    obtain ⟨henum, rfl⟩ := replayStep_some hstep
    obtain ⟨henum', rfl⟩ := replayStep_some hstep'
    exact (hcalm [] event' _ state rfl rfl).sameView hbegun hview henum henum'

end Replays

/-- Replays do not depend on the order of the map exactly when all their events are calm. -/
theorem replay_order_free_iff (d : QuestDefinition) (events : List Event) :
    OrderFree (QuestGraph.ofDefinition d) events ↔
      CalmThroughout (QuestGraph.ofDefinition d) (initialState (QuestGraph.ofDefinition d)) events := by
  constructor
  · intro h replay event rest reached hsplit hrun
    by_contra hcalm
    have hbegun : Begun (QuestGraph.ofDefinition d) reached := Machine.run_invariant _
      (fun _ _ _ hb hstep => Begun.step hb hstep) replay _ reached hrun begun_initial
    have hkeys : Enumerates reached.currentSteps.keys.toList reached.currentSteps :=
      ⟨Finset.nodup_toList _, Finset.toList_toFinset _⟩
    obtain ⟨one, two, hone, htwo, hne⟩ := orders_disagree hbegun hkeys hcalm
    have hlast : ∀ o, Enumerates o reached.currentSteps →
        Machine.run (replayStep (QuestGraph.ofDefinition d))
          (initialState (QuestGraph.ofDefinition d)) (replay ++ [(event, o)]) =
            some (applyEvent (QuestGraph.ofDefinition d) o reached event) := by
      intro o ho
      rw [Machine.run_snoc, hrun, Option.bind_some, replayStep, if_pos ho]
    refine hne (h _ _ rest _ _ ?_ ?_ (hlast one hone) (hlast two htwo)).currentSteps
    · rw [List.map_append, List.append_assoc]
      exact hsplit
    · rw [List.map_append, List.map_append]
      rfl
  · intro hcalm one two rest state state' hone htwo hrun hrun'
    exact replays_agree hcalm begun_initial (.refl _) hone htwo hrun hrun'

/-- The second way in finishes with the word that is also the first one of the join. -/
def echo : QuestDefinition where
  steps := [⟨['A'], ['a'], [⟨['1'], ['a'], [shout 'a']⟩]⟩, ⟨['B'], ['b'], [⟨['2'], ['b'], [shout 'b']⟩]⟩,
    ⟨['J'], ['j'], [⟨['3'], ['j'], [shout 'b', shout 'k']⟩]⟩]
  connections := [⟨['A'], ['J']⟩, ⟨['B'], ['J']⟩]

def predecessorFirst : List (Event × List Text) :=
  [(said 1 'a', [['A'], ['B']]), (said 2 'b', [['B'], ['J']])]

def predecessorLast : List (Event × List Text) :=
  [(said 1 'a', [['A'], ['B']]), (said 2 'b', [['J'], ['B']])]

theorem echo_depends_on_order : validateDefinition echo = .ok () ∧
    ¬ OrderFree (QuestGraph.ofDefinition echo) [said 1 'a', said 2 'b'] := by
  refine ⟨by decide, fun h => ?_⟩
  have hfirst : (Machine.run (replayStep (QuestGraph.ofDefinition echo))
      (initialState (QuestGraph.ofDefinition echo)) predecessorFirst).map
        (fun s => s.currentSteps.lookup ['J']) =
      some (some ⟨[⟨['3'], ['j'], [shout 'k']⟩], []⟩) := by decide
  have hlast : (Machine.run (replayStep (QuestGraph.ofDefinition echo))
      (initialState (QuestGraph.ofDefinition echo)) predecessorLast).map
        (fun s => s.currentSteps.lookup ['J']) =
      some (some ⟨[⟨['3'], ['j'], [shout 'b', shout 'k']⟩], []⟩) := by decide
  obtain ⟨state, hrun, hlook⟩ := Option.map_eq_some_iff.mp hfirst
  obtain ⟨state', hrun', hlook'⟩ := Option.map_eq_some_iff.mp hlast
  have hsame := (h predecessorFirst predecessorLast [] state state' rfl rfl hrun hrun').currentSteps
  rw [← hsame, hlook] at hlook'
  simp at hlook'

end Catalyrst.Quests
