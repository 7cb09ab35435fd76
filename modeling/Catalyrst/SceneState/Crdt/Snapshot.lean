import Catalyrst.SceneState.Crdt.Convergence

/-!
# The snapshot determines the state

`snapshot` lists the removals and then the cells. Replaying the bytes into an
empty engine restores the cells and the removals, because the deltas of the
listed messages join to exactly the replica that was stored.
-/

namespace Catalyrst.SceneState
open Catalyrst.Lib CrdtEngine Replica

def LwwCell.payloadLength (c : LwwCell) : ℕ := (c.data.map List.length).getD 0

namespace CrdtEngine

/-! ### The listed messages join to the stored replica -/

@[simp] theorem delta_removalMessage (entry : U16 × U16) :
    delta (removalMessage entry) = removal entry.1 entry.2 := by
  simp only [removalMessage, delta, entityNumber_packEntity, entityGeneration_packEntity]

@[simp] theorem delta_cellMessage (entry : CellKey × LwwCell) :
    delta (cellMessage entry) = write entry.1 entry.2 := by
  obtain ⟨⟨number, generation, componentId⟩, ⟨timestamp, data⟩⟩ := entry
  cases data <;>
    simp only [cellMessage, delta, cellKey, entityNumber_packEntity, entityGeneration_packEntity]

theorem removal_le_iff (number generation : U16) (r : Replica) :
    removal number generation ≤ r ↔ (generation : WithBot U16) ≤ r.1 number := by
  constructor
  · intro h
    have hn := h.1 number
    simpa only [removal, if_true] using hn
  · intro h
    refine ⟨fun n => ?_, bot_le⟩
    by_cases hn : n = number
    · subst hn
      simpa only [removal, if_true] using h
    · simp only [removal, if_neg hn, bot_le]

theorem write_le_iff (key : CellKey) (c : LwwCell) (r : Replica) :
    write key c ≤ r ↔ (c : WithBot LwwCell) ≤ r.2 key := by
  constructor
  · intro h
    have hk := h.2 key
    simpa only [write, if_true] using hk
  · intro h
    refine ⟨bot_le, fun k => ?_⟩
    by_cases hk : k = key
    · subst hk
      simpa only [write, if_true] using h
    · simp only [write, if_neg hk, bot_le]

theorem joined_snapshotMessages (e : CrdtEngine) : joined e.snapshotMessages = e.view := by
  apply le_antisymm
  · refine (MaskedJoin.joinAll_le _ _).mpr fun d hd => ?_
    obtain ⟨m, hm, rfl⟩ := List.mem_map.mp hd
    rcases List.mem_append.mp hm with hm | hm
    · obtain ⟨⟨number, generation⟩, hin, rfl⟩ := List.mem_map.mp hm
      rw [delta_removalMessage, removal_le_iff]
      exact le_of_eq ((OrdMap.mem_entries _ _ _).mp hin).symm
    · obtain ⟨⟨key, c⟩, hin, rfl⟩ := List.mem_map.mp hm
      rw [delta_cellMessage, write_le_iff]
      exact le_of_eq ((OrdMap.mem_entries _ _ _).mp hin).symm
  · refine ⟨fun n => ?_, fun k => ?_⟩
    · cases h : e.deleted[n]? with
      | none => exact (show e.removed n = ⊥ from h).le.trans bot_le
      | some generation =>
        have hin : removalMessage (n, generation) ∈ e.snapshotMessages :=
          List.mem_append_left _ (List.mem_map_of_mem ((OrdMap.mem_entries _ _ _).mpr h))
        have hle := delta_le_joined hin
        rw [delta_removalMessage, removal_le_iff] at hle
        exact (show e.removed n = _ from h).le.trans hle
    · cases h : e.lww[k]? with
      | none => exact (show e.cell k = ⊥ from h).le.trans bot_le
      | some c =>
        have hin : cellMessage (k, c) ∈ e.snapshotMessages :=
          List.mem_append_right _ (List.mem_map_of_mem ((OrdMap.mem_entries _ _ _).mpr h))
        have hle := delta_le_joined hin
        rw [delta_cellMessage, write_le_iff] at hle
        exact (show e.cell k = _ from h).le.trans hle

/-- Replaying the messages of a snapshot restores the cells and removals. -/
theorem view_replay {e : CrdtEngine} (hl : e.Live) :
    (new.applyAll e.snapshotMessages).view = e.view := by
  rw [view_applyAll_new, joined_snapshotMessages]
  exact hl

/-! ### Stored payloads came in messages -/

theorem payloadLength_of_delta {m : CrdtMessage} {k : CellKey} {c : LwwCell}
    (h : (delta m).2 k = c) : c.payloadLength = m.payloadLength := by
  have hwrite : ∀ (key : CellKey) (c' : LwwCell), (write key c').2 k = c → c' = c := by
    intro key c' hw
    by_cases hk : k = key
    · simp only [write, if_pos hk] at hw
      exact WithBot.coe_injective hw
    · simp only [write, if_neg hk] at hw
      exact absurd hw.symm WithBot.coe_ne_bot
  cases m with
  | put entity componentId timestamp data =>
    have hc := hwrite _ _ h
    subst hc
    rfl
  | deleteComponent entity componentId timestamp =>
    have hc := hwrite _ _ h
    subst hc
    rfl
  | deleteEntity entity => exact absurd h.symm WithBot.coe_ne_bot
  | append entity componentId timestamp data => exact absurd h.symm WithBot.coe_ne_bot

theorem cellMessage_payloadLength (k : CellKey) (c : LwwCell) :
    (cellMessage (k, c)).payloadLength = c.payloadLength := by
  obtain ⟨timestamp, data⟩ := c
  cases data <;> rfl

/-- Every message of the snapshot fits when every received message did. -/
theorem snapshotMessages_fits (msgs : List CrdtMessage) (hf : ∀ m ∈ msgs, m.Fits) :
    ∀ m ∈ (new.applyAll msgs).snapshotMessages, m.Fits := by
  intro m hm
  rcases List.mem_append.mp hm with hm | hm
  · obtain ⟨entry, _, rfl⟩ := List.mem_map.mp hm
    show (0 : ℕ) + 24 < 4294967296
    norm_num
  · obtain ⟨⟨k, c⟩, hin, rfl⟩ := List.mem_map.mp hm
    have hc : (new.applyAll msgs).view.2 k = c := (OrdMap.mem_entries _ _ _).mp hin
    rw [view_applyAll_new] at hc
    have hlive : ¬ Masked (joined msgs).1 k := by
      intro hk
      rw [mask_of_masked hk] at hc
      exact absurd hc.symm WithBot.coe_ne_bot
    rw [mask_of_not_masked hlive] at hc
    obtain ⟨m, hin, hd⟩ := joined_attained msgs k c hc
    have hfit := hf m hin
    rw [CrdtMessage.Fits, cellMessage_payloadLength, payloadLength_of_delta hd]
    exact hfit

/-! ### Runs of `apply` and `reclaim_range` -/

inductive Op where
  | apply (m : CrdtMessage)
  | reclaimRange (start size : U32)

def Op.Fits : Op → Prop
  | .apply m => m.Fits
  | .reclaimRange _ _ => True

def perform (e : CrdtEngine) : Op → CrdtEngine
  | .apply m => (e.apply m).2
  | .reclaimRange start size => (e.reclaimRange start size).2

def performAll (e : CrdtEngine) (ops : List Op) : CrdtEngine := ops.foldl perform e

theorem reclaimRange_fits (e : CrdtEngine) (start size : U32) :
    ∀ m ∈ (e.reclaimRange start size).1, m.Fits := by
  intro m hm
  unfold reclaimRange at hm
  dsimp only at hm
  split at hm
  · cases hm
  · obtain ⟨entry, _, rfl⟩ := List.mem_map.mp hm
    show (0 : ℕ) + 24 < 4294967296
    norm_num

/-- A run is the application of the messages it received or produced. -/
theorem performAll_log (ops : List Op) (hf : ∀ op ∈ ops, op.Fits) :
    ∃ msgs, new.performAll ops = new.applyAll msgs ∧ ∀ m ∈ msgs, m.Fits := by
  induction ops using List.reverseRecOn with
  | nil => exact ⟨[], rfl, fun m hm => by cases hm⟩
  | append_singleton ops op ih =>
    obtain ⟨msgs, he, hfit⟩ := ih fun o ho => hf o (List.mem_append_left _ ho)
    have hop := hf op (List.mem_append_right _ (List.mem_singleton_self _))
    have hstep : new.performAll (ops ++ [op]) = (new.applyAll msgs).perform op := by
      rw [← he]
      exact List.foldl_concat ..
    cases op with
    | apply m =>
      refine ⟨msgs ++ [m], ?_, ?_⟩
      · rw [hstep, applyAll_append]
        rfl
      · intro x hx
        rcases List.mem_append.mp hx with hx | hx
        · exact hfit x hx
        · rw [List.mem_singleton.mp hx]
          exact hop
    | reclaimRange start size =>
      refine ⟨msgs ++ ((new.applyAll msgs).reclaimRange start size).1, ?_, ?_⟩
      · rw [hstep, applyAll_append, ← reclaimRange_snd]
        rfl
      · intro x hx
        rcases List.mem_append.mp hx with hx | hx
        · exact hfit x hx
        · exact reclaimRange_fits _ _ _ x hx

/-- The accepted messages of each batch in turn, and the engine at the end. -/
def applyBatches : CrdtEngine → List (List CrdtMessage) → List (List CrdtMessage) × CrdtEngine
  | e, [] => ([], e)
  | e, batch :: batches =>
    let r := e.applyBatch batch
    let rest := r.2.applyBatches batches
    (r.1 :: rest.1, rest.2)

theorem SameCells.applyBatches {e f : CrdtEngine} (h : e.SameCells f)
    (batches : List (List CrdtMessage)) :
    (e.applyBatches batches).1 = (f.applyBatches batches).1 ∧
      (e.applyBatches batches).2.SameCells (f.applyBatches batches).2 := by
  induction batches generalizing e f with
  | nil => exact ⟨rfl, h⟩
  | cons batch batches ih =>
    have hb := h.applyBatch batch
    have hrest := ih hb.2
    refine ⟨?_, hrest.2⟩
    simp only [CrdtEngine.applyBatches, hb.1, hrest.1]

end CrdtEngine

/-- Decoding and replaying the snapshot of a reachable engine gives the same
cells and removals, and from there on the same accepted messages and snapshots. -/
theorem snapshot_determines_state (ops : List Op) (hf : ∀ op ∈ ops, op.Fits) :
    let e := new.performAll ops
    let r := new.applyAll (decodeBatch e.snapshot)
    r.lww = e.lww ∧ r.deleted = e.deleted ∧
    ∀ batches : List (List CrdtMessage),
      (e.applyBatches batches).1 = (r.applyBatches batches).1 ∧
      (e.applyBatches batches).2.snapshot = (r.applyBatches batches).2.snapshot := by
  intro e r
  obtain ⟨msgs, he, hfit⟩ := performAll_log ops hf
  have hdecode : decodeBatch e.snapshot = e.snapshotMessages := by
    refine decodeBatch_encodeBatch _ ?_
    show ∀ m ∈ (new.performAll ops).snapshotMessages, m.Fits
    rw [he]
    exact snapshotMessages_fits msgs hfit
  have hlive : e.Live := by
    show (new.performAll ops).Live
    rw [he]
    exact applyAll_live rfl new_live msgs
  have hcap : e.maxComponents = r.maxComponents := by
    show (new.performAll ops).maxComponents = (new.applyAll _).maxComponents
    rw [he, applyAll_maxComponents, applyAll_maxComponents]
  have hview : e.view = r.view := by
    show e.view = (new.applyAll (decodeBatch e.snapshot)).view
    rw [hdecode, view_replay hlive]
  have hs := SameCells.of_view hview hcap
  refine ⟨hs.lww.symm, hs.deleted.symm, fun batches => ?_⟩
  have hb := hs.applyBatches batches
  exact ⟨hb.1, hb.2.snapshot⟩

/-- A removal, a live higher generation of the same number, a component
tombstone and a reclaim. -/
theorem snapshot_determines_state_run :
    let ops : List Op := [.apply (.put 7 1 3 [1]), .apply (.deleteEntity 7),
      .apply (.put 65543 1 1 [2]), .apply (.deleteComponent 9 2 5), .reclaimRange 20 5]
    (∀ op ∈ ops, op.Fits) ∧
    (new.applyAll (decodeBatch (new.performAll ops).snapshot)).lww = (new.performAll ops).lww := by
  have hfits : ∀ op ∈ ([.apply (.put 7 1 3 [1]), .apply (.deleteEntity 7),
      .apply (.put 65543 1 1 [2]), .apply (.deleteComponent 9 2 5),
      .reclaimRange 20 5] : List Op), op.Fits := by
    intro op hop
    simp only [List.mem_cons, List.not_mem_nil, or_false] at hop
    rcases hop with rfl | rfl | rfl | rfl | rfl <;>
      simp [Op.Fits, CrdtMessage.Fits, CrdtMessage.payloadLength]
  exact ⟨hfits, (snapshot_determines_state _ hfits).1⟩

end Catalyrst.SceneState
