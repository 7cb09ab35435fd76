import Catalyrst.Quests.Progress

/-!
# The event processor (`processor.rs`)

The events of a user are processed one at a time: each is offered to all active instances of
the user and stored for those whose state it changes. The state of an instance is folded from
its stored events. The key of the `events` table is the event's id alone, so an event can be
stored for one instance only. How the current steps are iterated is a parameter here.
-/

namespace Catalyrst.Quests
open Catalyrst.Lib

/-- An order in which the hash maps are iterated. -/
structure Iteration where
  order : CurrentSteps → List Text
  enumerates : ∀ steps, Enumerates (order steps) steps

structure QuestInstance where
  id : ℕ
  quest : Option QuestDefinition
  userAddress : Text
  deriving DecidableEq

structure StoredEvent where
  id : ℕ
  userAddress : Text
  event : Event
  questInstanceId : ℕ

structure Db where
  questInstances : List QuestInstance
  /-- The `quest_instance_id` column of `abandoned_quest_instances`. -/
  abandoned : List ℕ
  /-- In the order of their timestamps. -/
  events : List StoredEvent

namespace Db

def getActiveUserQuestInstances (db : Db) (user : Text) : List QuestInstance :=
  db.questInstances.filter fun i => i.userAddress = user ∧ i.id ∉ db.abandoned

def getEvents (db : Db) (instanceId : ℕ) : List Event :=
  (db.events.filter fun e => e.questInstanceId = instanceId).map StoredEvent.event

/-- `none` is the violation of the primary key. -/
def addEvent (db : Db) (event : Event) (instanceId : ℕ) : Option Db :=
  if event.id ∈ db.events.map StoredEvent.id then none
  else some { db with
    events := db.events ++ [⟨event.id, event.address, event, instanceId⟩] }

end Db

section Process

variable (iter : Iteration)

def apply (g : QuestGraph) (state : QuestState) (event : Event) : QuestState :=
  applyEvent g (iter.order state.currentSteps) state event

def getState (quest : Option QuestDefinition) (events : List Event) : QuestState :=
  events.foldl (apply iter (QuestGraph.ofQuest quest)) (initialState (QuestGraph.ofQuest quest))

def foldState (db : Db) (i : QuestInstance) : QuestState := getState iter i.quest (db.getEvents i.id)

def stateChanged (a b : QuestState) : Bool := a ≠ b

/-- The body of the loop, with the number of instances the event was applied to. -/
def processInstance (event : Event) (acc : Db × ℕ) (i : QuestInstance) : Db × ℕ :=
  let questState := foldState iter acc.1 i
  if isCompleted questState then acc
  else if stateChanged questState (apply iter (QuestGraph.ofQuest i.quest) questState event) then
    match acc.1.addEvent event i.id with
    | some db => (db, acc.2 + 1)
    | none => acc
  else acc

/-- `instances` is what the query returned; an event applied to none of them is ignored. -/
def processEvent (db : Db) (event : Event) (instances : List QuestInstance) : Db × ℕ :=
  instances.foldl (processInstance iter event) (db, 0)

/-- The query returns the active instances in any order. -/
def processStep (db : Db) (a : Event × List QuestInstance) : Option Db :=
  if a.2.Perm (db.getActiveUserQuestInstances a.1.address) then
    some (processEvent iter db a.1 a.2).1
  else none

/-! ### What every instance should come to -/

/-- The state after all the events of the user, up to completion. -/
def fullState (i : QuestInstance) (events : List Event) : QuestState :=
  (events.filter fun e => e.address = i.userAddress).foldl
    (fun state e => if isCompleted state then state
      else apply iter (QuestGraph.ofQuest i.quest) state e)
    (initialState (QuestGraph.ofQuest i.quest))

def UpToDate (db : Db) (events : List Event) : Prop :=
  ∀ i ∈ db.questInstances, i.id ∉ db.abandoned → foldState iter db i = fullState iter i events

/-- The event moves an instance that is not complete. -/
def advances (db : Db) (event : Event) (i : QuestInstance) : Bool :=
  !isCompleted (foldState iter db i) &&
    stateChanged (foldState iter db i)
      (apply iter (QuestGraph.ofQuest i.quest) (foldState iter db i) event)

/-- The event moves at most one active instance of its user. -/
def MovesOne (db : Db) (a : Event × List QuestInstance) : Prop :=
  ∀ i ∈ db.getActiveUserQuestInstances a.1.address,
    ∀ j ∈ db.getActiveUserQuestInstances a.1.address,
      advances iter db a.1 i = true → advances iter db a.1 j = true → i = j

end Process

section Loop

variable {iter : Iteration} {db : Db} {event : Event} {instances : List QuestInstance}

theorem processInstance_eq (acc : Db × ℕ) (i : QuestInstance) :
    processInstance iter event acc i =
      if advances iter acc.1 event i then
        match acc.1.addEvent event i.id with
        | some db => (db, acc.2 + 1)
        | none => acc
      else acc := by
  unfold processInstance advances
  dsimp only
  cases isCompleted (foldState iter acc.1 i) with
  | true => simp only [if_true, Bool.not_true, Bool.false_and, Bool.false_eq_true, if_false]
  | false => simp only [Bool.false_eq_true, if_false, Bool.not_false, Bool.true_and]

/-- Once the event is stored no other instance gets it. -/
theorem foldl_stored (n : ℕ) (hstored : event.id ∈ db.events.map StoredEvent.id) :
    instances.foldl (processInstance iter event) (db, n) = (db, n) := by
  induction instances with
  | nil => rfl
  | cons i instances ih =>
    have hsame : processInstance iter event (db, n) i = (db, n) := by
      rw [processInstance_eq, Db.addEvent, if_pos hstored]
      split
      · rfl
      · rfl
    rw [List.foldl_cons, hsame, ih]

/-- The event goes to the first instance it moves. -/
theorem processEvent_events (hnew : event.id ∉ db.events.map StoredEvent.id) :
    (processEvent iter db event instances).1 = { db with
      events := db.events ++ ((instances.find? (advances iter db event)).map fun i =>
        ⟨event.id, event.address, event, i.id⟩).toList } := by
  unfold processEvent
  induction instances with
  | nil => simp
  | cons i instances ih =>
    rw [List.foldl_cons, processInstance_eq, List.find?_cons]
    cases hadv : advances iter db event i with
    | false => exact ih
    | true =>
      simp only [if_true, Db.addEvent, if_neg hnew]
      rw [foldl_stored]
      · rfl
      · simp

theorem getEvents_append (rows : List StoredEvent) (instanceId : ℕ) :
    { db with events := db.events ++ rows }.getEvents instanceId =
      db.getEvents instanceId ++
        (rows.filter fun e => e.questInstanceId = instanceId).map StoredEvent.event := by
  rw [Db.getEvents, Db.getEvents, List.filter_append, List.map_append]

/-- An instance takes one step if it is the first one that the event moves. -/
theorem foldState_processEvent (hnew : event.id ∉ db.events.map StoredEvent.id)
    (hids : (db.questInstances.map QuestInstance.id).Nodup)
    (hinstances : ∀ j ∈ instances, j ∈ db.questInstances) {i : QuestInstance}
    (hi : i ∈ db.questInstances) :
    foldState iter (processEvent iter db event instances).1 i =
      if instances.find? (advances iter db event) = some i then
        apply iter (QuestGraph.ofQuest i.quest) (foldState iter db i) event
      else foldState iter db i := by
  rw [processEvent_events hnew, foldState, getEvents_append]
  cases hfind : instances.find? (advances iter db event) with
  | none =>
    rw [if_neg (by simp)]
    simp only [Option.map_none, Option.toList_none, List.filter_nil, List.map_nil,
      List.append_nil]
    rfl
  | some j =>
    have hj : j ∈ db.questInstances := hinstances j (List.mem_of_find?_eq_some hfind)
    simp only [Option.map_some, Option.toList_some, Option.some.injEq]
    by_cases hij : j = i
    · subst hij
      rw [if_pos rfl, List.filter_cons_of_pos (by simp), List.filter_nil, List.map_cons,
        List.map_nil, getState, List.foldl_append]
      rfl
    · have hid : j.id ≠ i.id := fun heq => hij (List.inj_on_of_nodup_map hids hj hi heq)
      rw [if_neg hij, List.filter_cons_of_neg (by simp [hid]), List.filter_nil, List.map_nil,
        List.append_nil]
      rfl

theorem fullState_snoc (i : QuestInstance) (events : List Event) :
    fullState iter i (events ++ [event]) =
      if event.address = i.userAddress ∧ isCompleted (fullState iter i events) = false then
        apply iter (QuestGraph.ofQuest i.quest) (fullState iter i events) event
      else fullState iter i events := by
  unfold fullState
  rw [List.filter_append]
  by_cases haddr : event.address = i.userAddress
  · rw [List.filter_cons_of_pos (by simp [haddr]), List.filter_nil, List.foldl_append,
      List.foldl_cons, List.foldl_nil]
    generalize List.foldl _ _ _ = state
    cases isCompleted state with
    | true => simp
    | false => simp [haddr]
  · rw [List.filter_cons_of_neg (by simp [haddr]), List.filter_nil, List.append_nil,
      if_neg fun h => haddr h.1]

theorem advances_iff {i : QuestInstance} : advances iter db event i = true ↔
    isCompleted (foldState iter db i) = false ∧
      apply iter (QuestGraph.ofQuest i.quest) (foldState iter db i) event ≠ foldState iter db i := by
  simp only [advances, stateChanged, Bool.and_eq_true, Bool.not_eq_true', decide_eq_true_eq]
  exact and_congr_right fun _ => ne_comm

/-- One event: all instances stay up to date exactly if it moves at most one of them. -/
theorem upToDate_processEvent_iff {events : List Event} (hup : UpToDate iter db events)
    (hnew : event.id ∉ db.events.map StoredEvent.id)
    (hids : (db.questInstances.map QuestInstance.id).Nodup)
    (hperm : instances.Perm (db.getActiveUserQuestInstances event.address)) :
    UpToDate iter (processEvent iter db event instances).1 (events ++ [event]) ↔
      MovesOne iter db (event, instances) := by
  have hactive : ∀ i, i ∈ db.getActiveUserQuestInstances event.address ↔
      i ∈ db.questInstances ∧ i.userAddress = event.address ∧ i.id ∉ db.abandoned := by
    intro i
    simp only [Db.getActiveUserQuestInstances, List.mem_filter, decide_eq_true_eq]
  have hinstances : ∀ j ∈ instances, j ∈ db.questInstances :=
    fun j hj => ((hactive j).mp (hperm.mem_iff.mp hj)).1
  have hrest : (processEvent iter db event instances).1.questInstances = db.questInstances ∧
      (processEvent iter db event instances).1.abandoned = db.abandoned := by
    rw [processEvent_events hnew]
    exact ⟨rfl, rfl⟩
  constructor
  · intro hafter
    -- an instance that the event moves is the one it is stored for
    have hfirst : ∀ i ∈ db.getActiveUserQuestInstances event.address,
        advances iter db event i = true → instances.find? (advances iter db event) = some i := by
      intro i hi hadv
      obtain ⟨hmem, haddr, hkept⟩ := (hactive i).mp hi
      obtain ⟨hopen, hchanged⟩ := advances_iff.mp hadv
      have hstate := hafter i (hrest.1 ▸ hmem) (hrest.2 ▸ hkept)
      by_contra hother
      rw [foldState_processEvent hnew hids hinstances hmem, if_neg hother, fullState_snoc,
        ← hup i hmem hkept, if_pos ⟨haddr.symm, hopen⟩] at hstate
      exact hchanged hstate.symm
    intro i hi j hj hadvi hadvj
    exact Option.some.inj ((hfirst i hi hadvi).symm.trans (hfirst j hj hadvj))
  · intro hone i hi hkept
    rw [hrest.1] at hi
    rw [hrest.2] at hkept
    rw [foldState_processEvent hnew hids hinstances hi, fullState_snoc, ← hup i hi hkept]
    by_cases hmoves : event.address = i.userAddress ∧ advances iter db event i = true
    · have hin : i ∈ db.getActiveUserQuestInstances event.address :=
        (hactive i).mpr ⟨hi, hmoves.1.symm, hkept⟩
      have hfind : instances.find? (advances iter db event) = some i := by
        cases hfound : instances.find? (advances iter db event) with
        | none =>
          have hnone := List.find?_eq_none.mp hfound i (hperm.mem_iff.mpr hin)
          exact absurd hmoves.2 hnone
        | some j =>
          have hj := hperm.mem_iff.mp (List.mem_of_find?_eq_some hfound)
          exact congrArg some (hone j hj i hin (List.find?_some hfound) hmoves.2)
      rw [if_pos hfind, if_pos ⟨hmoves.1, (advances_iff.mp hmoves.2).1⟩]
    · have hfind : instances.find? (advances iter db event) ≠ some i := by
        intro hfound
        have hin := hperm.mem_iff.mp (List.mem_of_find?_eq_some hfound)
        exact hmoves ⟨((hactive i).mp hin).2.1.symm, List.find?_some hfound⟩
      rw [if_neg hfind]
      split
      · rename_i hopen
        by_contra hchanged
        exact hmoves ⟨hopen.1, advances_iff.mpr ⟨hopen.2, fun heq => hchanged heq.symm⟩⟩
      · rfl

end Loop

/-! ### Whole runs -/

section Runs

variable {iter : Iteration} {db next : Db}

theorem processStep_some {a : Event × List QuestInstance} (h : processStep iter db a = some next) :
    a.2.Perm (db.getActiveUserQuestInstances a.1.address) ∧
      (processEvent iter db a.1 a.2).1 = next := by
  unfold processStep at h
  split at h
  · rename_i hperm
    exact ⟨hperm, Option.some.inj h⟩
  · cases h

/-- What the induction carries: the instances have distinct ids and the stored events are among
those already processed. -/
structure Stored (db : Db) (ids : List ℕ) : Prop where
  instances : (db.questInstances.map QuestInstance.id).Nodup
  events : ∀ id ∈ db.events.map StoredEvent.id, id ∈ ids

theorem Stored.step {ids : List ℕ} (h : Stored db ids) {a : Event × List QuestInstance}
    (hnew : a.1.id ∉ ids) (hstep : processStep iter db a = some next) :
    Stored next (ids ++ [a.1.id]) := by
  obtain ⟨_, rfl⟩ := processStep_some hstep
  rw [processEvent_events fun hid => hnew (h.events _ hid)]
  refine ⟨h.instances, fun id hid => ?_⟩
  rw [List.map_append, List.mem_append] at hid
  obtain hold | hrow := hid
  · exact List.mem_append_left _ (h.events id hold)
  · obtain ⟨row, hmem, rfl⟩ := List.mem_map.mp hrow
    obtain ⟨i, _, rfl⟩ := Option.map_eq_some_iff.mp (Option.mem_toList.mp hmem)
    exact List.mem_append_right _ (List.mem_singleton.mpr rfl)

theorem runs_upToDate_iff {run : List (Event × List QuestInstance)} {events : List Event} {last : Db}
    (hup : UpToDate iter db events) (hstored : Stored db (events.map Event.id))
    (hdistinct : ((events ++ run.map Prod.fst).map Event.id).Nodup)
    (hrun : Machine.run (processStep iter) db run = some last) :
    (∀ before rest reached, before ++ rest = run →
      Machine.run (processStep iter) db before = some reached →
        UpToDate iter reached (events ++ before.map Prod.fst)) ↔
      Machine.Meets (processStep iter) (MovesOne iter) db run := by
  induction run generalizing db events with
  | nil =>
    refine iff_of_true (fun before rest reached hsplit hreached => ?_) trivial
    obtain ⟨rfl, rfl⟩ := List.append_eq_nil_iff.mp hsplit
    obtain rfl := Option.some.inj hreached
    rwa [List.map_nil, List.append_nil]
  | cons a run ih =>
    obtain ⟨t, hstep, hrest⟩ := Option.bind_eq_some_iff.mp hrun
    obtain ⟨hperm, ht⟩ := processStep_some hstep
    have hnew : a.1.id ∉ events.map Event.id := by
      rw [List.map_cons, List.map_append, List.map_cons] at hdistinct
      exact fun hin => (List.disjoint_of_nodup_append hdistinct) hin List.mem_cons_self
    have hone := upToDate_processEvent_iff hup (fun hid => hnew (hstored.events _ hid))
      hstored.instances hperm
    rw [ht] at hone
    have hstored' : Stored t ((events ++ [a.1]).map Event.id) := by
      rw [List.map_append]
      exact hstored.step hnew hstep
    have hdistinct' : ((events ++ [a.1] ++ run.map Prod.fst).map Event.id).Nodup := by
      rw [List.append_assoc]
      exact hdistinct
    have happend : ∀ before : List (Event × List QuestInstance),
        events ++ [a.1] ++ before.map Prod.fst = events ++ (a :: before).map Prod.fst := by
      intro before
      rw [List.append_assoc]
      rfl
    rw [Machine.meets_cons_some _ hstep]
    constructor
    · intro h
      have hup' : UpToDate iter t (events ++ [a.1]) :=
        h [a] run t rfl (by rw [Machine.run_cons, hstep]; rfl)
      refine ⟨hone.mp hup', (ih hup' hstored' hdistinct' hrest).mp ?_⟩
      intro before rest reached hsplit hreached
      rw [happend]
      refine h (a :: before) rest reached (congrArg (a :: ·) hsplit) ?_
      rw [Machine.run_cons, hstep]
      exact hreached
    · rintro ⟨hmoves, hmeets⟩ before rest reached hsplit hreached
      have hup' : UpToDate iter t (events ++ [a.1]) := hone.mpr hmoves
      cases before with
      | nil =>
        obtain rfl := Option.some.inj hreached
        rwa [List.map_nil, List.append_nil]
      | cons b before =>
        obtain ⟨rfl, hsplit'⟩ := List.cons.inj hsplit
        rw [Machine.run_cons, hstep] at hreached
        rw [← happend]
        exact (ih hup' hstored' hdistinct' hrest).mpr hmeets before rest reached hsplit' hreached

end Runs

/-- After every event of a run each active instance has the state of all its user's events, up
to its completion, exactly if no event of the run moves two of them. -/
theorem events_reach_quests_iff (iter : Iteration) (db last : Db)
    (run : List (Event × List QuestInstance)) (hempty : db.events = [])
    (hids : (db.questInstances.map QuestInstance.id).Nodup)
    (hdistinct : (run.map fun a => a.1.id).Nodup)
    (hrun : Machine.run (processStep iter) db run = some last) :
    (∀ before rest reached, before ++ rest = run →
      Machine.run (processStep iter) db before = some reached →
        UpToDate iter reached (before.map Prod.fst)) ↔
      Machine.Meets (processStep iter) (MovesOne iter) db run := by
  have hup : UpToDate iter db [] := by
    intro i _ _
    rw [foldState, Db.getEvents, hempty]
    rfl
  have hstored : Stored db [] := by
    refine ⟨hids, fun id hid => ?_⟩
    rw [hempty] at hid
    cases hid
  refine runs_upToDate_iff hup hstored ?_ hrun
  rw [List.nil_append, List.map_map]
  exact hdistinct

/-! ### Two quests of one user -/

/-- The keys of the map, sorted. -/
def sortedKeys (steps : CurrentSteps) : List Text :=
  Quot.liftOn steps.keys.val (List.insertionSort (· ≤ ·)) fun a b h =>
    ((List.perm_insertionSort _ a).trans (h.trans (List.perm_insertionSort _ b).symm)).eq_of_pairwise'
      (List.pairwise_insertionSort _ a) (List.pairwise_insertionSort _ b)

theorem sortedKeys_coe (steps : CurrentSteps) : (sortedKeys steps : Multiset Text) = steps.keys.val := by
  unfold sortedKeys
  induction steps.keys.val using Quot.ind with
  | mk l => exact Quot.sound (List.perm_insertionSort _ l)

def alphabetical : Iteration where
  order := sortedKeys
  enumerates steps := by
    have hcoe := sortedKeys_coe steps
    refine ⟨?_, Finset.ext fun k => ?_⟩
    · rw [← Multiset.coe_nodup, hcoe]
      exact steps.keys.nodup
    · rw [List.mem_toFinset, ← Multiset.mem_coe, hcoe, Finset.mem_val]

def oneWord (word : Char) : QuestDefinition :=
  ⟨[⟨['S'], ['s'], [⟨['1'], ['t'], [shout word]⟩]⟩], []⟩

def errand (id : ℕ) (word : Char) : QuestInstance := ⟨id, some (oneWord word), ['u']⟩

def twoWords : Db := ⟨[errand 1 'a', errand 2 'b'], [], []⟩

def sameWord : Db := ⟨[errand 1 'a', errand 2 'a'], [], []⟩

instance (iter : Iteration) (db : Db) (a : Event × List QuestInstance) :
    Decidable (MovesOne iter db a) :=
  inferInstanceAs (Decidable (∀ i ∈ db.getActiveUserQuestInstances a.1.address,
    ∀ j ∈ db.getActiveUserQuestInstances a.1.address,
      advances iter db a.1 i = true → advances iter db a.1 j = true → i = j))

theorem events_reach_quests_iff_twoWords : ∃ last,
    Machine.run (processStep alphabetical) twoWords
      [(said 1 'a', [errand 1 'a', errand 2 'b']), (said 2 'b', [errand 2 'b', errand 1 'a'])] =
        some last ∧
      UpToDate alphabetical last [said 1 'a', said 2 'b'] ∧
      isCompleted (foldState alphabetical last (errand 2 'b')) = true := by
  have hend : (Machine.run (processStep alphabetical) twoWords
      [(said 1 'a', [errand 1 'a', errand 2 'b']), (said 2 'b', [errand 2 'b', errand 1 'a'])]).map
        (fun db => isCompleted (foldState alphabetical db (errand 2 'b'))) = some true := by
    decide
  obtain ⟨last, hrun, hdone⟩ := Option.map_eq_some_iff.mp hend
  have hmeets : Machine.Meets (processStep alphabetical) (MovesOne alphabetical) twoWords
      [(said 1 'a', [errand 1 'a', errand 2 'b']), (said 2 'b', [errand 2 'b', errand 1 'a'])] := by
    decide
  refine ⟨last, hrun, ?_, hdone⟩
  exact (events_reach_quests_iff alphabetical twoWords last _ rfl (by decide) (by decide) hrun).mpr
    hmeets _ [] last (List.append_nil _) hrun

/-- The event moves both quests and is stored for the first one only. -/
theorem second_quest_misses_event : ∃ last,
    Machine.run (processStep alphabetical) sameWord
      [(said 1 'a', [errand 1 'a', errand 2 'a'])] = some last ∧
      ¬ UpToDate alphabetical last [said 1 'a'] := by
  have hend : (Machine.run (processStep alphabetical) sameWord
      [(said 1 'a', [errand 1 'a', errand 2 'a'])]).map
        (fun db => (decide (errand 2 'a' ∈ db.questInstances ∧ 2 ∉ db.abandoned),
          isCompleted (foldState alphabetical db (errand 2 'a')))) = some (true, false) := by
    decide
  have hfull : isCompleted (fullState alphabetical (errand 2 'a') [said 1 'a']) = true := by
    decide
  obtain ⟨last, hrun, hlast⟩ := Option.map_eq_some_iff.mp hend
  obtain ⟨hmem, hopen⟩ := Prod.mk.inj hlast
  obtain ⟨hin, hkept⟩ := of_decide_eq_true hmem
  refine ⟨last, hrun, fun h => ?_⟩
  rw [← h (errand 2 'a') hin hkept, hopen] at hfull
  cases hfull

end Catalyrst.Quests
