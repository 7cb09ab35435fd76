import Catalyrst.SceneState.Crdt.Snapshot
import Catalyrst.SceneState.Runtime.Relay

/-!
# What the relayed bodies carry

An observer builds its engine from the snapshot it is served when it opens and
applies every body that later calls return. Ignored messages change nothing,
accepted ones are relayed, and a reclaim relays one removal per stored number,
so the observer's cells and removals stay those of the server.
-/

namespace Catalyrst.SceneState
open Catalyrst.Lib CrdtEngine Replica

namespace CrdtEngine

/-! ### Stored entities -/

/-- A cell or a channel is stored under this generation of this number. -/
def Stores (e : CrdtEngine) (number generation : U16) : Prop :=
  ∃ k : CellKey, k.number = number ∧ k.generation = generation ∧
    ((∃ c, e.lww[k]? = some c) ∨ ∃ l, e.appends[k]? = some l)

/-- A channel, like a cell, only ever exists for a live entity. -/
def ChannelsLive (e : CrdtEngine) : Prop :=
  ∀ (k : CellKey) (l : List Bytes), e.appends[k]? = some l → ¬ Masked e.view.1 k

theorem new_channelsLive : new.ChannelsLive := by
  intro k l h
  rw [show new.appends[k]? = none from Std.ExtTreeMap.getElem?_empty] at h
  cases h

theorem tombstone_channelsLive {e : CrdtEngine} (hc : e.ChannelsLive) (entity : U32) :
    (e.tombstone entity).2.ChannelsLive := by
  cases h : e.isDead entity with
  | true =>
    rw [tombstone_dead h]
    exact hc
  | false =>
    intro k l hk hm
    have hstored : (if k.number = entityNumber entity ∧ k.generation ≤ entityGeneration entity
        then none else e.appends[k]?) = some l := by
      rw [tombstone_alive h] at hk
      exact (find_purge_appends _ _ _ _).symm.trans hk
    have hrem : (e.tombstone entity).2.view.1 =
        e.view.1 ⊔ (removal (entityNumber entity) (entityGeneration entity)).1 :=
      funext fun n => removed_tombstone e entity n
    rw [hrem, masked_sup_removal] at hm
    split at hstored
    · cases hstored
    · rename_i hout
      rcases hm with hm | hm
      · exact hc k l hstored hm
      · exact hout hm

theorem apply_channelsLive {e : CrdtEngine} (hu : e.Uncapped) (hc : e.ChannelsLive)
    (m : CrdtMessage) : (e.apply m).2.ChannelsLive := by
  have hset : ∀ (entity componentId timestamp : U32) (data : Option Bytes),
      (e.lwwSet entity componentId timestamp data).2.ChannelsLive := by
    intro entity componentId timestamp data k l hk
    obtain ⟨happends, hdeleted, _⟩ := lwwSet_frame e entity componentId timestamp data
    rw [happends] at hk
    have hrem : (e.lwwSet entity componentId timestamp data).2.view.1 = e.view.1 := by
      funext n
      show (e.lwwSet entity componentId timestamp data).2.deleted[n]? = e.deleted[n]?
      rw [hdeleted]
    rw [hrem]
    exact hc k l hk
  cases h : e.isDead m.entity with
  | true =>
    rw [apply_dead h]
    exact hc
  | false =>
    cases m with
    | put entity componentId timestamp data =>
      simp only [apply, h, Bool.false_eq_true, if_false]
      exact hset entity componentId timestamp (some data)
    | deleteComponent entity componentId timestamp =>
      simp only [apply, h, Bool.false_eq_true, if_false]
      exact hset entity componentId timestamp none
    | deleteEntity entity =>
      rw [apply_deleteEntity_snd]
      exact tombstone_channelsLive hc entity
    | append entity componentId timestamp data =>
      simp only [apply, h, Bool.false_eq_true, if_false]
      rw [append_uncapped hu]
      intro k l hk
      show ¬ Masked e.view.1 k
      by_cases hkey : cellKey entity componentId = k
      · rw [← hkey, ← isDead_iff_masked]
        exact fun hd => absurd (h.symm.trans hd) (by decide)
      · simp only [pushValue, OrdMap.find_insert, if_neg hkey] at hk
        exact hc k l hk

theorem applyAll_channelsLive {e : CrdtEngine} (hu : e.Uncapped) (hc : e.ChannelsLive)
    (msgs : List CrdtMessage) : (e.applyAll msgs).ChannelsLive := by
  induction msgs generalizing e with
  | nil => exact hc
  | cons m msgs ih => exact ih (apply_uncapped hu m) (apply_channelsLive hu hc m)

/-! ### The removals of a reclaim -/

/-- A removal opens no channel. -/
theorem find_tombstone_appends {e : CrdtEngine} {entity : U32} {k : CellKey} {l : List Bytes}
    (hk : (e.tombstone entity).2.appends[k]? = some l) : e.appends[k]? = some l := by
  cases h : e.isDead entity with
  | true =>
    rw [tombstone_dead h] at hk
    exact hk
  | false =>
    rw [tombstone_alive h, find_purge_appends] at hk
    split at hk
    · cases hk
    · exact hk

theorem applyAll_removals_appends {e : CrdtEngine} {entries : List (U16 × U16)} {k : CellKey}
    {l : List Bytes} (h : (e.applyAll (entries.map removalMessage)).appends[k]? = some l) :
    e.appends[k]? = some l := by
  induction entries generalizing e with
  | nil => exact h
  | cons entry entries ih =>
    rw [List.map_cons, applyAll_cons] at h
    have hone := ih h
    rw [removalMessage, apply_deleteEntity_snd] at hone
    exact find_tombstone_appends hone

/-- The victims of a block: the stored numbers, each at its highest stored generation. -/
theorem victims_find (e : CrdtEngine) {lo hi : ℕ} (hlo : lo < hi) (hhi : hi ≤ 65536)
    (number g : U16) : (e.victims lo hi)[number]? = some g ↔
      (lo ≤ number.val ∧ number.val < hi) ∧ e.Stores number g ∧
        ∀ g', e.Stores number g' → g' ≤ g := by
  have hkeys := fun k => mem_victimKeys e hlo hhi k
  constructor
  · intro h
    rcases foldl_noteVictim_origin _ _ h with hnone | ⟨k, hk, rfl, rfl⟩
    · rw [Std.ExtTreeMap.getElem?_empty] at hnone
      cases hnone
    · obtain ⟨hb, hstored⟩ := (hkeys k).mp hk
      refine ⟨hb, ⟨k, rfl, rfl, hstored⟩, ?_⟩
      rintro g' ⟨q, hqn, rfl, hq⟩
      have hqin := (hkeys q).mpr ⟨by rw [hqn]; exact hb, hq⟩
      obtain ⟨g, hg, hle⟩ := foldl_noteVictim_covers _ ∅ hqin
      rw [hqn] at hg
      have heq : k.generation = g := Option.some.inj (h.symm.trans hg)
      rw [heq]
      exact hle
  · rintro ⟨hb, ⟨k, rfl, rfl, hstored⟩, hmax⟩
    obtain ⟨g, hg, hle⟩ := foldl_noteVictim_covers _ ∅ ((hkeys k).mpr ⟨hb, hstored⟩)
    refine hg.trans (congrArg some ?_)
    -- the victim's generation is itself a stored one
    rcases foldl_noteVictim_origin _ _ hg with hnone | ⟨q, hq, hqn, rfl⟩
    · rw [Std.ExtTreeMap.getElem?_empty] at hnone
      cases hnone
    · exact le_antisymm (hmax _ ⟨q, hqn, rfl, ((hkeys q).mp hq).2⟩) hle

/-- A reclaim returns one removal for each stored number of the range, at its
highest stored generation. -/
theorem reclaimRange_fst (e : CrdtEngine) (start size : U32) : ∃ deletes : List (U16 × U16),
    (e.reclaimRange start size).1 = deletes.map removalMessage ∧
    (deletes.map Prod.fst).Nodup ∧
    ∀ number g, (number, g) ∈ deletes ↔ reclaims start size number ∧ e.Stores number g ∧
      ∀ g', e.Stores number g' → g' ≤ g := by
  have hspace : MAX_ENTITY_NUMBERS = 65536 := rfl
  by_cases hle : min (saturatingAdd start size) MAX_ENTITY_NUMBERS ≤
      min start.val MAX_ENTITY_NUMBERS
  · refine ⟨[], ?_, List.nodup_nil, fun number g => ?_⟩
    · simp only [reclaimRange, if_pos hle, List.map_nil]
    · refine iff_of_false List.not_mem_nil ?_
      rintro ⟨⟨hlo, hhi⟩, _⟩
      have hnum := number.isLt
      omega
  · have hlt := not_le.mp hle
    refine ⟨(e.victims (min start.val MAX_ENTITY_NUMBERS)
      (min (saturatingAdd start size) MAX_ENTITY_NUMBERS)).toList, ?_, ?_, fun number g => ?_⟩
    · simp only [reclaimRange, if_neg hle]
    · rw [Std.ExtTreeMap.map_fst_toList_eq_keys]
      exact (OrdMap.keys_ascending _).imp fun h => ne_of_lt h
    · have hnum := number.isLt
      rw [OrdMap.mem_entries, victims_find e hlt (by omega)]
      refine and_congr_left fun _ => ?_
      unfold reclaims
      omega

/-- After a reclaim no channel of the range is left. -/
theorem reclaimRange_clears_appends {e : CrdtEngine} (hu : e.Uncapped) (hl : e.Live)
    (hc : e.ChannelsLive) (start size : U32) {k : CellKey} (hr : reclaims start size k.number) :
    (e.reclaimRange start size).2.appends[k]? = none := by
  cases hafter : (e.reclaimRange start size).2.appends[k]? with
  | none => rfl
  | some l =>
    exfalso
    rw [reclaimRange_snd] at hafter
    have hlive := applyAll_channelsLive hu hc _ k l hafter
    -- the channel was stored before, so a removal of the reclaim masks it
    have hbefore : e.appends[k]? = some l := by
      obtain ⟨deletes, hd, _⟩ := reclaimRange_fst e start size
      rw [hd] at hafter
      exact applyAll_removals_appends hafter
    obtain ⟨g, hle, hin⟩ := reclaimRange_covers e start size hr (Or.inr ⟨l, hbefore⟩)
    refine hlive ?_
    rw [view_applyAll hu.components hl]
    have hd := (delta_le_joined hin).1 k.number
    simp only [delta, removal, entityNumber_packEntity, entityGeneration_packEntity,
      if_true] at hd
    exact ((WithBot.coe_le_coe.mpr hle).trans hd).trans (le_sup_right (a := e.view.1 k.number))

/-! ### Stored payloads are short enough for the wire -/

def CellsFit (e : CrdtEngine) : Prop :=
  ∀ (k : CellKey) (c : LwwCell), e.lww[k]? = some c → c.payloadLength + 24 < 4294967296

theorem applyAll_cellsFit {e : CrdtEngine} (hcap : e.maxComponents = none) (hl : e.Live)
    (hf : e.CellsFit) {msgs : List CrdtMessage} (hm : ∀ m ∈ msgs, m.Fits) :
    (e.applyAll msgs).CellsFit := by
  intro k c h
  rcases find_applyAll_origin hcap hl msgs h with hold | ⟨m, hin, hd⟩
  · exact hf k c hold
  · rw [payloadLength_of_delta hd]
    exact hm m hin

theorem CellsFit.snapshotMessages {e : CrdtEngine} (hf : e.CellsFit) :
    ∀ m ∈ e.snapshotMessages, m.Fits := by
  intro m hm
  rcases List.mem_append.mp hm with hm | hm
  · obtain ⟨entry, _, rfl⟩ := List.mem_map.mp hm
    show (0 : ℕ) + 24 < 4294967296
    norm_num
  · obtain ⟨⟨k, c⟩, hin, rfl⟩ := List.mem_map.mp hm
    rw [CrdtMessage.Fits, cellMessage_payloadLength]
    exact hf k c ((OrdMap.mem_entries _ _ _).mp hin)

/-- Apply the bodies received from the server, in order. -/
def hear (e : CrdtEngine) (bodies : List Bytes) : CrdtEngine :=
  bodies.foldl (fun e body => e.applyAll (decodeBatch body)) e

/-- A relay of messages that fit is heard as those messages. -/
theorem hear_relayed (e : CrdtEngine) {msgs : List CrdtMessage} (hf : ∀ m ∈ msgs, m.Fits) :
    e.hear (if msgs = [] then [] else [encodeBatch msgs]) = e.applyAll msgs := by
  split
  · rename_i hnil
    rw [hnil]
    rfl
  · show e.applyAll (decodeBatch (encodeBatch msgs)) = e.applyAll msgs
    rw [decodeBatch_encodeBatch msgs hf]

end CrdtEngine

/-! ### Runs of the relay runtime -/

inductive Call where
  | allocateClientIndex
  | onClientOpen (index : U32)
  | onClientCrdt (index : U32) (body : Bytes)
  | onClientClose (index : U32)
  | snapshot

namespace RelayRuntime

/-- The bodies a call returns for the room, and the runtime after it. -/
def call (rt : RelayRuntime) : Call → List Bytes × RelayRuntime
  | .allocateClientIndex => ([], rt.allocateClientIndex.2)
  | .onClientOpen index => ([], (rt.onClientOpen index).2)
  | .onClientCrdt index body => rt.onClientCrdt index body
  | .onClientClose index => rt.onClientClose index
  | .snapshot => ([], rt)

def callAll (rt : RelayRuntime) (calls : List Call) : RelayRuntime :=
  calls.foldl (fun rt c => (rt.call c).2) rt

/-- The runtime and an observer that hears what every call returns. -/
def observe (rt : RelayRuntime) (observer : CrdtEngine) (calls : List Call) :
    RelayRuntime × CrdtEngine :=
  calls.foldl (fun s c => ((s.1.call c).2, s.2.hear (s.1.call c).1)) (rt, observer)

/-- What holds of a runtime after any calls. -/
structure Sound (rt : RelayRuntime) : Prop where
  wf : rt.Wf
  channels : rt.engine.ChannelsLive
  cells : rt.engine.CellsFit

theorem new_sound (config : ServerTransportConfig) : (new config).Sound := by
  refine ⟨new_wf config, new_channelsLive, fun k c h => ?_⟩
  rw [show (new config).engine.lww[k]? = none from Std.ExtTreeMap.getElem?_empty] at h
  cases h

variable {rt : RelayRuntime}

theorem accepted_fits (rt : RelayRuntime) (index : U32) (body : Bytes) :
    ∀ m ∈ rt.accepted index body, m.Fits := by
  intro m hm
  obtain ⟨_, _, _, _, hin, _⟩ := admitted_spec (rt.accepted_subset index body hm)
  exact decodeBatch_fits body m hin

/-- One call: the engine applies some messages, and the returned bodies are heard
as exactly these. -/
theorem Wf.call_messages (h : rt.Wf) (c : Call) : ∃ msgs : List CrdtMessage,
    (∀ m ∈ msgs, m.Fits) ∧ (rt.call c).2.engine = rt.engine.applyAll msgs ∧
    ∀ e : CrdtEngine, e.hear (rt.call c).1 = e.applyAll msgs := by
  have hidle : ∃ msgs : List CrdtMessage, (∀ m ∈ msgs, m.Fits) ∧
      rt.engine = rt.engine.applyAll msgs ∧ ∀ e : CrdtEngine, e.hear [] = e.applyAll msgs :=
    ⟨[], fun m hm => absurd hm List.not_mem_nil, rfl, fun _ => rfl⟩
  cases c with
  | allocateClientIndex => exact hidle
  | onClientOpen index => exact hidle
  | snapshot => exact hidle
  | onClientCrdt index body =>
    have hf := rt.accepted_fits index body
    refine ⟨rt.accepted index body, hf, ?_, fun e => ?_⟩
    · show (rt.onClientCrdt index body).2.engine = _
      rw [onClientCrdt_snd, accepted, applyAll_accepted h.uncapped]
    · show e.hear (rt.onClientCrdt index body).1 = _
      rw [onClientCrdt_fst, hear_relayed e hf]
  | onClientClose index =>
    simp only [call, onClientClose]
    cases rt.assigned[index]? with
    | none => exact hidle
    | some range =>
      have hf := reclaimRange_fits rt.engine range.1 range.2
      exact ⟨_, hf, reclaimRange_snd _ _ _, fun e => hear_relayed e hf⟩

theorem Wf.call (h : rt.Wf) (c : Call) : (rt.call c).2.Wf := by
  cases c with
  | allocateClientIndex => exact h.allocate
  | onClientOpen index => exact h.open index
  | onClientCrdt index body => exact h.crdt index body
  | onClientClose index => exact h.close index
  | snapshot => exact h

theorem Sound.call (h : rt.Sound) (c : Call) : (rt.call c).2.Sound := by
  obtain ⟨msgs, hf, he, _⟩ := h.wf.call_messages c
  refine ⟨h.wf.call c, ?_, ?_⟩
  · rw [he]
    exact applyAll_channelsLive h.wf.uncapped h.channels msgs
  · rw [he]
    exact applyAll_cellsFit h.wf.uncapped.components h.wf.live h.cells hf

theorem Sound.callAll (h : rt.Sound) (calls : List Call) : (rt.callAll calls).Sound := by
  induction calls generalizing rt with
  | nil => exact h
  | cons c calls ih => exact ih (h.call c)

/-! ### The observer -/

/-- The observer's cells and removals are the server's. -/
structure Mirrors (rt : RelayRuntime) (observer : CrdtEngine) : Prop where
  view : observer.view = rt.engine.view
  live : observer.Live
  uncapped : observer.maxComponents = none

/-- The snapshot served at an open builds an engine that mirrors the server's. -/
theorem Sound.open_mirrors (h : rt.Sound) (index : U32) :
    Mirrors (rt.onClientOpen index).2
      (CrdtEngine.new.hear [(rt.onClientOpen index).1.crdtState]) := by
  have hdecode : CrdtEngine.new.hear [(rt.onClientOpen index).1.crdtState] =
      CrdtEngine.new.applyAll rt.engine.snapshotMessages :=
    congrArg CrdtEngine.new.applyAll (decodeBatch_encodeBatch _ h.cells.snapshotMessages)
  rw [hdecode]
  exact ⟨view_replay h.wf.live, applyAll_live rfl new_live _, applyAll_maxComponents _ _⟩

theorem Mirrors.call {observer : CrdtEngine} (hm : Mirrors rt observer) (h : rt.Wf) (c : Call) :
    Mirrors (rt.call c).2 (observer.hear (rt.call c).1) := by
  obtain ⟨msgs, _, he, hheard⟩ := h.call_messages c
  rw [hheard]
  refine ⟨?_, applyAll_live hm.uncapped hm.live msgs, ?_⟩
  · rw [he, view_applyAll hm.uncapped hm.live, view_applyAll h.uncapped.components h.live, hm.view]
  · rw [applyAll_maxComponents, hm.uncapped]

theorem Mirrors.observe {observer : CrdtEngine} (hm : Mirrors rt observer) (h : rt.Wf)
    (calls : List Call) :
    (rt.observe observer calls).1 = rt.callAll calls ∧
      Mirrors (rt.callAll calls) (rt.observe observer calls).2 := by
  induction calls generalizing rt observer with
  | nil => exact ⟨rfl, hm⟩
  | cons c calls ih => exact ih (hm.call h c) (h.call c)

/-! ### What a close returns -/

/-- The bodies and effect of a close: nothing without an assigned range; else the
removals of the stored numbers of the range, which leave no cell of it. -/
def Reclaimed (rt : RelayRuntime) (index : U32) : Prop :=
  match rt.assigned[index]? with
  | none => (rt.onClientClose index).1 = [] ∧ (rt.onClientClose index).2.engine = rt.engine
  | some (start, size) => ∃ deletes : List (U16 × U16),
    (rt.onClientClose index).1 =
      (if deletes = [] then [] else [encodeBatch (deletes.map removalMessage)]) ∧
    (deletes.map Prod.fst).Nodup ∧
    (∀ number g, (number, g) ∈ deletes ↔ reclaims start size number ∧
      rt.engine.Stores number g ∧ ∀ g', rt.engine.Stores number g' → g' ≤ g) ∧
    (∀ number, reclaims start size number →
      ∀ g, ¬ (rt.onClientClose index).2.engine.Stores number g) ∧
    ∀ number, ¬ reclaims start size number →
      SameAt number rt.engine (rt.onClientClose index).2.engine

theorem Sound.reclaimed (h : rt.Sound) (index : U32) : rt.Reclaimed index := by
  unfold Reclaimed onClientClose
  cases rt.assigned[index]? with
  | none => exact ⟨rfl, rfl⟩
  | some range =>
    obtain ⟨start, size⟩ := range
    obtain ⟨deletes, hd, hnodup, hmem⟩ := reclaimRange_fst rt.engine start size
    refine ⟨deletes, ?_, hnodup, hmem, ?_, ?_⟩
    · show (if (rt.engine.reclaimRange start size).1 = [] then []
        else [encodeBatch (rt.engine.reclaimRange start size).1]) = _
      simp only [hd, List.map_eq_nil_iff]
    · rintro number hr g ⟨k, rfl, _, ⟨c, hc⟩ | ⟨l, hl⟩⟩
      · have hnone := reclaimRange_clears h.wf.uncapped h.wf.live start size hr
        exact absurd (hnone.symm.trans hc) (by simp)
      · have hnone := reclaimRange_clears_appends h.wf.uncapped h.wf.live h.channels start size hr
        exact absurd (hnone.symm.trans hl) (by simp)
    · exact fun number hn => reclaimRange_sameAt h.wf.uncapped start size hn

/-- After any calls, an observer that opens and then hears every body returned has
the server's cells and removals after each later call, and a close returns exactly
the removals that clear the departed range. -/
theorem relay_carries_change (config : ServerTransportConfig) (before : List Call) (index : U32)
    (later : List Call) :
    let opened := ((new config).callAll before).onClientOpen index
    let observed := opened.2.observe (CrdtEngine.new.hear [opened.1.crdtState]) later
    observed.1 = opened.2.callAll later ∧
    observed.2.lww = observed.1.engine.lww ∧ observed.2.deleted = observed.1.engine.deleted ∧
    ∀ i, observed.1.Reclaimed i := by
  intro opened observed
  have hs := (new_sound config).callAll before
  have hopen : opened.2.Sound := hs.call (.onClientOpen index)
  obtain ⟨hrun, hm⟩ := (hs.open_mirrors index).observe hopen.wf later
  have hrun' : observed.1 = opened.2.callAll later := hrun
  obtain ⟨hlww, hdeleted⟩ := (view_eq_iff _ _).mp hm.view
  refine ⟨hrun', ?_, ?_, fun i => ?_⟩
  · rw [hrun']
    exact hlww
  · rw [hrun']
    exact hdeleted
  · rw [hrun']
    exact (hopen.callAll later).reclaimed i

end RelayRuntime

end Catalyrst.SceneState
