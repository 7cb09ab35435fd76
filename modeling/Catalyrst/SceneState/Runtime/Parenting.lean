import Catalyrst.SceneState.Runtime.Isolation

/-!
# Authority over the scene graph

A Transform payload names a parent. The guard compares that parent with the
ranges assigned when the message arrives; the payload stays stored when further
slots are opened.
-/

namespace Catalyrst.SceneState
open Catalyrst.Lib CrdtEngine Replica

namespace Parenting
open Isolation

/-- A Transform stored for an entity of a live client's range names no entity of
another live client's range. -/
def Respected (s : State) : Prop :=
  ∀ (c d : ℕ) (r r' : Range), c ≠ d → liveRange s c = some r → liveRange s d = some r' →
    ∀ (k : CellKey) (timestamp : U32) (data : Bytes) (parent : U32),
      s.rt.engine.lww[k]? = some ⟨timestamp, some data⟩ → r.Holds k.number.val →
      transformParent k.componentId data = some parent → ¬ r'.Holds (entityNumber parent).val

/-- The Transform puts that reach the engine name no entity in the range of
another slot that nobody holds at that moment. -/
def NoDormantParent (s : State) : Act → Prop
  | .crdt index body =>
    ∀ entity componentId timestamp data parent,
      .put entity componentId timestamp data ∈ s.rt.admitted index body →
      transformParent componentId data = some parent →
      ∀ j, j ≠ index → s.rt.assigned[j]? = none →
        ¬ (s.rt.config.rangeForClient j).Holds (entityNumber parent).val
  | _ => True

/-- The invariant behind it: a Transform stored inside a slot's range names no
entity of any other slot, held or not. -/
structure Inv (s : State) : Prop where
  base : Isolation.Inv s
  parents : ∀ (k : CellKey) (timestamp : U32) (data : Bytes) (parent : U32),
    s.rt.engine.lww[k]? = some ⟨timestamp, some data⟩ →
    transformParent k.componentId data = some parent →
    ∀ i j, (s.rt.config.rangeForClient i).Holds k.number.val → j ≠ i →
      ¬ (s.rt.config.rangeForClient j).Holds (entityNumber parent).val

theorem init_inv (config : ServerTransportConfig) : Inv (init config) := by
  refine ⟨Isolation.init_inv config, fun k timestamp data parent h => ?_⟩
  rw [show (init config).rt.engine.lww[k]? = none from Std.ExtTreeMap.getElem?_empty] at h
  cases h

/-- A written payload comes from a put of the same cell. -/
theorem delta_eq_put {m : CrdtMessage} {k : CellKey} {timestamp : U32} {data : Bytes}
    (h : (delta m).2 k = ((⟨timestamp, some data⟩ : LwwCell) : WithBot LwwCell)) :
    ∃ entity componentId, m = .put entity componentId timestamp data ∧
      k = cellKey entity componentId := by
  have hwrite : ∀ (key : CellKey) (c : LwwCell),
      (write key c).2 k = ((⟨timestamp, some data⟩ : LwwCell) : WithBot LwwCell) →
      k = key ∧ c = ⟨timestamp, some data⟩ := by
    intro key c hw
    by_cases hk : k = key
    · simp only [write, if_pos hk] at hw
      exact ⟨hk, WithBot.coe_injective hw⟩
    · simp only [write, if_neg hk] at hw
      exact absurd hw.symm WithBot.coe_ne_bot
  cases m with
  | put entity componentId timestamp' data' =>
    obtain ⟨hk, hc⟩ := hwrite _ _ h
    cases hc
    exact ⟨entity, componentId, rfl, hk⟩
  | deleteComponent entity componentId timestamp' =>
    obtain ⟨_, hc⟩ := hwrite _ _ h
    cases hc
  | deleteEntity entity => exact absurd h.symm WithBot.coe_ne_bot
  | append entity componentId timestamp' data' => exact absurd h.symm WithBot.coe_ne_bot

theorem crdt_inv {s : State} (h : Inv s) {index : U32} {body : Bytes}
    (hok : NoDormantParent s (.crdt index body)) :
    Inv ⟨(s.rt.onClientCrdt index body).2, s.conns⟩ := by
  have hstep : Isolation.step s (.crdt index body) =
      some ⟨(s.rt.onClientCrdt index body).2, s.conns⟩ := rfl
  refine ⟨Isolation.step_inv h.base hstep, ?_⟩
  rw [RelayRuntime.onClientCrdt_snd]
  intro k timestamp data parent hk hp i j hi hj
  rcases find_applyAll_origin h.base.wf.uncapped.components h.base.wf.live _ hk with
    hold | ⟨m, hm, hd⟩
  · exact h.parents k timestamp data parent hold hp i j hi hj
  · obtain ⟨entity, componentId, rfl, rfl⟩ := delta_eq_put hd
    obtain ⟨range, hr, hholds, _, _, hforeign⟩ := RelayRuntime.admitted_spec hm
    rw [h.base.wf.assigned index range hr] at hholds
    -- the written entity lies in the sender's own slot
    have hindex : i = index := ServerTransportConfig.holds_unique hi hholds
    subst hindex
    intro hin
    cases hj' : s.rt.assigned[j]? with
    | none => exact hok entity componentId timestamp data parent hm hp j hj hj' hin
    | some r =>
      refine hforeign parent hp j r hj hj' ?_
      rw [h.base.wf.assigned j r hj']
      exact hin

theorem close_inv {s : State} (h : Inv s) {conn : ℕ} {c : Conn} (hc : s.conns[conn]? = some c) :
    Inv ⟨(s.rt.onClientClose c.index).2, s.conns.erase conn⟩ := by
  refine ⟨Isolation.close_inv h.base hc, ?_⟩
  rw [RelayRuntime.onClientClose_snd]
  intro k timestamp data parent hk hp
  refine h.parents k timestamp data parent ?_ hp
  dsimp only at hk
  split at hk
  · exact hk
  · -- a reclaim stores nothing
    rw [reclaimRange_snd] at hk
    rcases find_applyAll_origin h.base.wf.uncapped.components h.base.wf.live _ hk with
      hold | ⟨m, hm, hd⟩
    · exact hold
    · obtain ⟨entity, componentId, rfl, _⟩ := delta_eq_put hd
      obtain ⟨q, hq, _⟩ := reclaimRange_origin _ _ _ hm
      cases hq

theorem step_inv {s t : State} {a : Act} (h : Inv s) (hok : NoDormantParent s a)
    (hs : step s a = some t) : Inv t := by
  have hbase := Isolation.step_inv h.base hs
  rcases step_cases hs with ⟨conn, _, _, rfl⟩ | ⟨conn, index, _, hc, rfl⟩ |
    ⟨index, body, rfl, rfl⟩ | ⟨conn, c, _, hc, rfl⟩
  · exact ⟨hbase, h.parents⟩
  · exact ⟨hbase, h.parents⟩
  · exact crdt_inv h hok
  · exact close_inv h hc

theorem Inv.respected {s : State} (h : Inv s) : Respected s := by
  intro c d r r' hne hr hr' k timestamp data parent hk hin hp hforeign
  obtain ⟨i, hc, hi⟩ := liveRange_some hr
  obtain ⟨j, hd, hj⟩ := liveRange_some hr'
  have hi' := h.base.wf.assigned i r hi
  have hj' := h.base.wf.assigned j r' hj
  subst hi'
  subst hj'
  have hdiff : j ≠ i := by
    rintro rfl
    have hmax := h.base.slots.distinct c d j hne (by rw [slotOf, hc]; rfl) (by rw [slotOf, hd]; rfl)
    rw [hmax] at hin
    exact ServerTransportConfig.not_holds_u32Max _ _ hin
  exact h.parents k timestamp data parent hk hp i j hin hdiff hforeign

end Parenting

/-- In every run whose Transform puts name no parent inside a slot that nobody
holds, the scene graph respects the clients' ranges in every state reached. -/
theorem parents_respect_ranges (config : ServerTransportConfig) (acts : List Isolation.Act)
    (s : Isolation.State)
    (hok : Machine.Meets Isolation.step Parenting.NoDormantParent (Isolation.init config) acts)
    (hrun : Machine.run Isolation.step (Isolation.init config) acts = some s) :
    Parenting.Respected s :=
  (Machine.run_invariant_of_meets Isolation.step
    (fun _ _ _ hp ha hs => Parenting.step_inv hp ha hs) acts _ s hok hrun
    (Parenting.init_inv config)).respected

/-- A Transform payload whose parent is the entity `parent`. -/
def Parenting.transformTo (parent : U32) : Bytes := List.replicate 40 0 ++ leBytes parent

/-- One client opens and parents its entity inside its own range. -/
theorem parents_respect_ranges_own :
    let acts : List Isolation.Act := [.allocate 0, .open 0,
      .crdt 0 (encodeBatch [.put 1024 1 1 (Parenting.transformTo 1030)]), .allocate 1, .open 1]
    Machine.Meets Isolation.step Parenting.NoDormantParent (Isolation.init .default) acts ∧
    ∀ s, Machine.run Isolation.step (Isolation.init .default) acts = some s →
      Parenting.Respected s := by
  intro acts
  have hmeets : Machine.Meets Isolation.step Parenting.NoDormantParent (Isolation.init .default)
      acts := by
    refine ⟨trivial, fun s h => ⟨trivial, fun s' h' => ⟨?_, fun t _ => ⟨trivial, fun u _ =>
      ⟨trivial, fun _ _ => trivial⟩⟩⟩⟩⟩
    have hrun : Machine.run Isolation.step (Isolation.init .default) [.allocate 0, .open 0] =
        some s' := by
      rw [Machine.run_cons, h, Option.bind_some, Machine.run_cons, h']
      rfl
    have hstate : (Machine.run Isolation.step (Isolation.init .default) [.allocate 0, .open 0]).map
        (fun s => (s.rt.config,
          s.rt.admitted 0 (encodeBatch [.put 1024 1 1 (Parenting.transformTo 1030)]))) =
        some (.default, [.put 1024 1 1 (Parenting.transformTo 1030)]) := by decide
    rw [hrun] at hstate
    have hconfig : s'.rt.config = .default := congrArg Prod.fst (Option.some.inj hstate)
    have hmsgs := congrArg Prod.snd (Option.some.inj hstate)
    intro entity componentId timestamp data parent hm hp j hj _ hin
    dsimp only at hmsgs
    rw [hmsgs] at hm
    cases List.mem_singleton.mp hm
    have hparent : parent = 1030 := by
      have h1030 : transformParent 1 (Parenting.transformTo 1030) = some 1030 := by decide
      rw [h1030] at hp
      exact (Option.some.inj hp).symm
    subst hparent
    have hown : (s'.rt.config.rangeForClient 0).Holds (entityNumber 1030).val := by
      rw [hconfig]
      decide
    exact hj (ServerTransportConfig.holds_unique hin hown)
  exact ⟨hmeets, fun s hs => parents_respect_ranges .default acts s hmeets hs⟩

/-- Client 0 names an entity of the slot next to its own while that slot is
free; then client 1 opens the slot and owns the parent. -/
theorem parent_becomes_foreign :
    ∃ s, Machine.run Isolation.step (Isolation.init .default)
      [.allocate 0, .open 0, .crdt 0 (encodeBatch [.put 1024 1 1 (Parenting.transformTo 1536)]),
        .allocate 1, .open 1] = some s ∧
      Isolation.liveRange s 0 = some (1024, 512) ∧ Isolation.liveRange s 1 = some (1536, 512) ∧
      s.rt.engine.lww[(⟨1024, 0, 1⟩ : CellKey)]? = some ⟨1, some (Parenting.transformTo 1536)⟩ ∧
      transformParent 1 (Parenting.transformTo 1536) = some 1536 ∧
      ¬ Parenting.Respected s := by
  have hstate : (Machine.run Isolation.step (Isolation.init .default)
      [.allocate 0, .open 0, .crdt 0 (encodeBatch [.put 1024 1 1 (Parenting.transformTo 1536)]),
        .allocate 1, .open 1]).map
      (fun s => (Isolation.liveRange s 0, Isolation.liveRange s 1,
        s.rt.engine.lww[(⟨1024, 0, 1⟩ : CellKey)]?)) =
      some (some (1024, 512), some (1536, 512),
        some ⟨1, some (Parenting.transformTo 1536)⟩) := by decide +kernel
  obtain ⟨s, hrun, hs⟩ := Option.map_eq_some_iff.mp hstate
  have h0 : Isolation.liveRange s 0 = some (1024, 512) := congrArg Prod.fst hs
  have h1 : Isolation.liveRange s 1 = some (1536, 512) := congrArg (fun x => x.2.1) hs
  have hcell : s.rt.engine.lww[(⟨1024, 0, 1⟩ : CellKey)]? =
      some ⟨1, some (Parenting.transformTo 1536)⟩ := congrArg (fun x => x.2.2) hs
  have hparent : transformParent 1 (Parenting.transformTo 1536) = some 1536 := by decide
  refine ⟨s, hrun, h0, h1, hcell, hparent, fun hresp => ?_⟩
  exact hresp 0 1 _ _ (by decide) h0 h1 _ 1 _ 1536 hcell (by decide) hparent (by decide)

end Catalyrst.SceneState
