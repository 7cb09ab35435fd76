import Catalyrst.SceneState.Crdt.Frame
import Catalyrst.SceneState.Runtime.Authority

/-!
# The relay runtime (`runtime.rs`, `RelayRuntime`)

Slots, assigned ranges and the engine stand behind one lock each. Every call is
a function of the runtime; `on_client_close` is the composition of its three
lock-protected steps.
-/

namespace Catalyrst.SceneState
open Catalyrst.Lib

structure InitState where
  start : U32
  size : U32
  reservedLocalEntities : U32
  crdtState : Bytes

structure RelayRuntime where
  config : ServerTransportConfig
  engine : CrdtEngine
  slots : ClientSlots
  /-- The range each live client was given when it opened. -/
  assigned : OrdMap U32 Range

namespace RelayRuntime

def new (config : ServerTransportConfig) : RelayRuntime := ⟨config, CrdtEngine.new, ∅, ∅⟩

def foreignRanges (rt : RelayRuntime) (except : U32) : List Range :=
  (rt.assigned.toList.filter fun entry => decide (entry.1 ≠ except)).map Prod.snd

def allocateClientIndex (rt : RelayRuntime) : U32 × RelayRuntime :=
  let r := rt.slots.acquire
  (r.1, { rt with slots := r.2 })

def onClientOpen (rt : RelayRuntime) (index : U32) : InitState × RelayRuntime :=
  let range := rt.config.rangeForClient index
  (⟨range.1, range.2, rt.config.reservedLocalEntities, rt.engine.snapshot⟩,
    { rt with assigned := rt.assigned.insert index range })

/-- The messages of a client's body that reach the engine. -/
def admitted (rt : RelayRuntime) (index : U32) (body : Bytes) : List CrdtMessage :=
  match rt.assigned[index]? with
  | none => []
  | some (start, size) =>
    (AuthorityGuard.mk (.client start size) rt.config.networkFloor (rt.foreignRanges index)).filter
      (decodeClientBatch body start size)

/-- The bodies to relay, and the runtime after. -/
def onClientCrdt (rt : RelayRuntime) (index : U32) (body : Bytes) : List Bytes × RelayRuntime :=
  match rt.assigned[index]? with
  | none => ([], rt)
  | some _ =>
    let msgs := rt.admitted index body
    if msgs = [] then ([], rt)
    else
      let r := rt.engine.applyBatch msgs
      (if r.1 = [] then [] else [encodeBatch r.1], { rt with engine := r.2 })

/-! ### Closing, step by step -/

def removeAssigned (rt : RelayRuntime) (index : U32) : RelayRuntime :=
  { rt with assigned := rt.assigned.erase index }

def releaseSlot (rt : RelayRuntime) (index : U32) : RelayRuntime :=
  { rt with slots := rt.slots.release index }

def reclaim (rt : RelayRuntime) (range : Range) : List Bytes × RelayRuntime :=
  let r := rt.engine.reclaimRange range.1 range.2
  (if r.1 = [] then [] else [encodeBatch r.1], { rt with engine := r.2 })

def onClientClose (rt : RelayRuntime) (index : U32) : List Bytes × RelayRuntime :=
  let assigned := rt.assigned[index]?
  let rt := (rt.removeAssigned index).releaseSlot index
  match assigned with
  | none => ([], rt)
  | some range => rt.reclaim range

/-! ### What each call does -/

theorem mem_foreignRanges (rt : RelayRuntime) (except : U32) (r : Range) :
    r ∈ rt.foreignRanges except ↔ ∃ j, j ≠ except ∧ rt.assigned[j]? = some r := by
  simp only [foreignRanges, List.mem_map, List.mem_filter, decide_eq_true_eq]
  constructor
  · rintro ⟨⟨j, r'⟩, ⟨hin, hne⟩, rfl⟩
    exact ⟨j, hne, (OrdMap.mem_entries _ _ _).mp hin⟩
  · rintro ⟨j, hne, hj⟩
    exact ⟨(j, r), ⟨(OrdMap.mem_entries _ _ _).mpr hj, hne⟩, rfl⟩

/-- What a message that reaches the engine satisfies. -/
theorem admitted_spec {rt : RelayRuntime} {index : U32} {body : Bytes} {m : CrdtMessage}
    (h : m ∈ rt.admitted index body) : ∃ range, rt.assigned[index]? = some range ∧
      range.Holds (entityNumber m.entity).val ∧
      rt.config.networkFloor.val ≤ (entityNumber m.entity).val ∧ m ∈ decodeBatch body ∧
      ∀ parent, AuthorityGuard.namedParent m = some parent →
        ∀ j r, j ≠ index → rt.assigned[j]? = some r → ¬ r.Holds (entityNumber parent).val := by
  unfold admitted at h
  cases hr : rt.assigned[index]? with
  | none =>
    rw [hr] at h
    cases h
  | some range =>
    rw [hr] at h
    obtain ⟨hin, hadmits⟩ := List.mem_filter.mp h
    obtain ⟨hfloor, hholds, hparent⟩ := AuthorityGuard.admits_client hadmits
    refine ⟨range, rfl, hholds, hfloor, (List.mem_filter.mp hin).1, ?_⟩
    intro parent hp j r hj hrj
    exact hparent parent hp r ((mem_foreignRanges rt index r).mpr ⟨j, hj, hrj⟩)

/-- A client's body changes the engine by its admitted messages and nothing else. -/
theorem onClientCrdt_snd (rt : RelayRuntime) (index : U32) (body : Bytes) :
    (rt.onClientCrdt index body).2 =
      { rt with engine := rt.engine.applyAll (rt.admitted index body) } := by
  unfold onClientCrdt
  cases hr : rt.assigned[index]? with
  | none =>
    simp only [admitted, hr]
    rfl
  | some range =>
    dsimp only
    split
    · rename_i hnil
      rw [hnil]
      rfl
    · rw [CrdtEngine.applyBatch_snd]

/-- The messages of a client's body that the engine accepts. -/
def accepted (rt : RelayRuntime) (index : U32) (body : Bytes) : List CrdtMessage :=
  (rt.engine.applyBatch (rt.admitted index body)).1

theorem accepted_subset (rt : RelayRuntime) (index : U32) (body : Bytes) :
    rt.accepted index body ⊆ rt.admitted index body := CrdtEngine.applyBatch_fst_subset _ _

/-- The accepted messages are relayed in one body. -/
theorem onClientCrdt_fst (rt : RelayRuntime) (index : U32) (body : Bytes) :
    (rt.onClientCrdt index body).1 =
      if rt.accepted index body = [] then [] else [encodeBatch (rt.accepted index body)] := by
  unfold onClientCrdt accepted
  cases hr : rt.assigned[index]? with
  | none =>
    have hnil : rt.admitted index body = [] := by simp only [admitted, hr]
    rw [hnil]
    rfl
  | some range =>
    dsimp only
    split
    · rename_i hnil
      rw [hnil]
      rfl
    · rfl

theorem onClientClose_snd (rt : RelayRuntime) (index : U32) :
    (rt.onClientClose index).2 =
      { rt with
        assigned := rt.assigned.erase index
        slots := rt.slots.erase index
        engine := match rt.assigned[index]? with
          | none => rt.engine
          | some range => (rt.engine.reclaimRange range.1 range.2).2 } := by
  unfold onClientClose
  cases rt.assigned[index]? with
  | none => rfl
  | some range => rfl

/-! ### The invariant of the runtime -/

/-- The engine has no caps and only live cells, and every assigned range is the
one its slot stands for. -/
structure Wf (rt : RelayRuntime) : Prop where
  uncapped : rt.engine.Uncapped
  live : rt.engine.Live
  assigned : ∀ (i : U32) (r : Range), rt.assigned[i]? = some r → r = rt.config.rangeForClient i

theorem new_wf (config : ServerTransportConfig) : (new config).Wf := by
  refine ⟨CrdtEngine.new_uncapped, CrdtEngine.new_live, fun i r h => ?_⟩
  rw [show (new config).assigned[i]? = none from Std.ExtTreeMap.getElem?_empty] at h
  cases h

variable {rt : RelayRuntime}

theorem Wf.allocate (h : rt.Wf) : rt.allocateClientIndex.2.Wf := ⟨h.uncapped, h.live, h.assigned⟩

theorem Wf.open (h : rt.Wf) (index : U32) : (rt.onClientOpen index).2.Wf := by
  refine ⟨h.uncapped, h.live, fun i r hi => ?_⟩
  simp only [onClientOpen, OrdMap.find_insert] at hi
  split at hi
  · rename_i heq
    rw [← Option.some.inj hi, ← heq]
    rfl
  · exact h.assigned i r hi

theorem Wf.crdt (h : rt.Wf) (index : U32) (body : Bytes) : (rt.onClientCrdt index body).2.Wf := by
  rw [onClientCrdt_snd]
  exact ⟨CrdtEngine.applyAll_uncapped h.uncapped _,
    CrdtEngine.applyAll_live h.uncapped.components h.live _, h.assigned⟩

theorem Wf.removeAssigned (h : rt.Wf) (index : U32) : (rt.removeAssigned index).Wf := by
  refine ⟨h.uncapped, h.live, fun i r hi => ?_⟩
  simp only [RelayRuntime.removeAssigned, OrdMap.find_erase] at hi
  split at hi
  · cases hi
  · exact h.assigned i r hi

theorem Wf.releaseSlot (h : rt.Wf) (index : U32) : (rt.releaseSlot index).Wf :=
  ⟨h.uncapped, h.live, h.assigned⟩

theorem Wf.reclaim (h : rt.Wf) (range : Range) : (rt.reclaim range).2.Wf :=
  ⟨CrdtEngine.reclaimRange_uncapped h.uncapped _ _,
    CrdtEngine.reclaimRange_live h.uncapped h.live _ _, h.assigned⟩

theorem Wf.close (h : rt.Wf) (index : U32) : (rt.onClientClose index).2.Wf := by
  have hstep := (h.removeAssigned index).releaseSlot index
  unfold onClientClose
  cases rt.assigned[index]? with
  | none => exact hstep
  | some range => exact hstep.reclaim range

/-- A client's body leaves every number outside its range, and every number
below the network floor, as it was. -/
theorem Wf.crdt_sameAt (h : rt.Wf) (index : U32) (body : Bytes) (number : U16)
    (hout : (∀ r, rt.assigned[index]? = some r → ¬ r.Holds number.val) ∨
      number.val < rt.config.networkFloor.val) :
    CrdtEngine.SameAt number rt.engine (rt.onClientCrdt index body).2.engine := by
  rw [onClientCrdt_snd]
  refine CrdtEngine.applyAll_sameAt h.uncapped fun m hm heq => ?_
  obtain ⟨range, hr, hholds, hfloor, _⟩ := admitted_spec hm
  subst heq
  rcases hout with hout | hout
  · exact hout range hr hholds
  · omega

end RelayRuntime

end Catalyrst.SceneState
