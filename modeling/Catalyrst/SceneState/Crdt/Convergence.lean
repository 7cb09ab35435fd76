import Catalyrst.SceneState.Crdt.Replica

/-!
# Convergence of the uncapped engine

The cells and the removals of an engine are all that decides its answers and
its snapshot. Together with the masked-join refinement this makes the state, the
snapshot and every later answer a function of the set of messages received.
-/

namespace Catalyrst.SceneState
open Catalyrst.Lib CrdtEngine Replica

namespace CrdtEngine

/-- Two engines that may differ in their append channels only. -/
structure SameCells (e f : CrdtEngine) : Prop where
  lww : e.lww = f.lww
  deleted : e.deleted = f.deleted
  maxComponents : e.maxComponents = f.maxComponents

theorem SameCells.of_view {e f : CrdtEngine} (h : e.view = f.view)
    (hcap : e.maxComponents = f.maxComponents) : e.SameCells f := by
  obtain ⟨hl, hd⟩ := (view_eq_iff e f).mp h
  exact ⟨hl, hd, hcap⟩

theorem SameCells.isDead {e f : CrdtEngine} (h : e.SameCells f) (entity : U32) :
    e.isDead entity = f.isDead entity := by
  simp only [CrdtEngine.isDead, h.deleted]

theorem SameCells.snapshot {e f : CrdtEngine} (h : e.SameCells f) : e.snapshot = f.snapshot := by
  simp only [CrdtEngine.snapshot, snapshotMessages, h.lww, h.deleted]

theorem SameCells.tombstone {e f : CrdtEngine} (h : e.SameCells f) (entity : U32) :
    (e.tombstone entity).1 = (f.tombstone entity).1 ∧
      (e.tombstone entity).2.SameCells (f.tombstone entity).2 := by
  have hd := h.isDead entity
  cases hf : f.isDead entity with
  | true =>
    rw [hf] at hd
    rw [tombstone_dead hd, tombstone_dead hf]
    exact ⟨rfl, h⟩
  | false =>
    rw [hf] at hd
    rw [tombstone_alive hd, tombstone_alive hf]
    refine ⟨rfl, ?_, ?_, ?_⟩
    · simp only [purge, h.lww]
    · simp only [purge, h.deleted]
    · exact h.maxComponents

theorem SameCells.lwwSet {e f : CrdtEngine} (h : e.SameCells f)
    (entity componentId timestamp : U32) (data : Option Bytes) :
    (e.lwwSet entity componentId timestamp data).1 =
      (f.lwwSet entity componentId timestamp data).1 ∧
    (e.lwwSet entity componentId timestamp data).2.SameCells
      (f.lwwSet entity componentId timestamp data).2 := by
  obtain ⟨lww, appends, deleted, cap, channels⟩ := e
  obtain ⟨lww', appends', deleted', cap', channels'⟩ := f
  obtain ⟨rfl, rfl, rfl⟩ := h
  simp only [CrdtEngine.lwwSet, enforceCellCap]
  -- both engines read the same cell, so both take the same branch
  cases lww[cellKey entity componentId]? with
  | none =>
    dsimp only
    split
    · split
      · exact ⟨rfl, rfl, rfl, rfl⟩
      · exact ⟨rfl, rfl, rfl, rfl⟩
    · exact ⟨rfl, rfl, rfl, rfl⟩
  | some cur =>
    dsimp only
    split
    · exact ⟨rfl, rfl, rfl, rfl⟩
    · exact ⟨rfl, rfl, rfl, rfl⟩

theorem SameCells.append {e f : CrdtEngine} (h : e.SameCells f) (entity componentId : U32)
    (data : Bytes) :
    (e.append entity componentId data).1 = (f.append entity componentId data).1 ∧
      (e.append entity componentId data).2.SameCells (f.append entity componentId data).2 := by
  obtain ⟨he, hel, hed, hec⟩ := append_frame e entity componentId data
  obtain ⟨hf, hfl, hfd, hfc⟩ := append_frame f entity componentId data
  refine ⟨he.trans hf.symm, ?_, ?_, ?_⟩
  · rw [hel, hfl, h.lww]
  · rw [hed, hfd, h.deleted]
  · rw [hec, hfc, h.maxComponents]

/-- Engines with the same cells answer alike and keep the same cells. -/
theorem SameCells.apply {e f : CrdtEngine} (h : e.SameCells f) (m : CrdtMessage) :
    (e.apply m).1 = (f.apply m).1 ∧ (e.apply m).2.SameCells (f.apply m).2 := by
  have hd := h.isDead m.entity
  cases hf : f.isDead m.entity with
  | true =>
    rw [hf] at hd
    rw [apply_dead hd, apply_dead hf]
    exact ⟨rfl, h⟩
  | false =>
    rw [hf] at hd
    simp only [CrdtEngine.apply, hd, hf, Bool.false_eq_true, if_false]
    cases m with
    | put entity componentId timestamp data => exact h.lwwSet entity componentId timestamp _
    | deleteComponent entity componentId timestamp =>
      exact h.lwwSet entity componentId timestamp none
    | deleteEntity entity =>
      have ht := h.tombstone entity
      refine ⟨?_, ht.2⟩
      dsimp only
      rw [ht.1]
    | append entity componentId timestamp data => exact h.append entity componentId data

theorem SameCells.applyAll {e f : CrdtEngine} (h : e.SameCells f) (msgs : List CrdtMessage) :
    (e.applyAll msgs).SameCells (f.applyAll msgs) := by
  induction msgs generalizing e f with
  | nil => exact h
  | cons m msgs ih => exact ih (h.apply m).2

theorem SameCells.applyBatch {e f : CrdtEngine} (h : e.SameCells f) (msgs : List CrdtMessage) :
    (e.applyBatch msgs).1 = (f.applyBatch msgs).1 ∧
      (e.applyBatch msgs).2.SameCells (f.applyBatch msgs).2 := by
  induction msgs generalizing e f with
  | nil => exact ⟨rfl, h⟩
  | cons m msgs ih =>
    have ha := h.apply m
    have hrest := ih ha.2
    refine ⟨?_, hrest.2⟩
    simp only [CrdtEngine.applyBatch, ha.1, hrest.1]

/-- Messages received in any order, any number of times. -/
theorem sameCells_of_same_messages {l l' : List CrdtMessage} (h : ∀ m, m ∈ l ↔ m ∈ l') :
    (new.applyAll l).SameCells (new.applyAll l') := by
  refine SameCells.of_view ?_ ?_
  · rw [view_applyAll_new, view_applyAll_new, joined_congr h]
  · rw [applyAll_maxComponents, applyAll_maxComponents]

end CrdtEngine

/-- Strong convergence: lists with the same messages, whatever the order and
the number of copies, lead to the same cells, removals and snapshot, and to the
same answer to every message after any further traffic. -/
theorem applyAll_converges (l l' : List CrdtMessage) (h : ∀ m, m ∈ l ↔ m ∈ l') :
    (new.applyAll l).lww = (new.applyAll l').lww ∧
    (new.applyAll l).deleted = (new.applyAll l').deleted ∧
    (new.applyAll l).snapshot = (new.applyAll l').snapshot ∧
    ∀ (later : List CrdtMessage) (m : CrdtMessage),
      (((new.applyAll l).applyAll later).apply m).1 =
        (((new.applyAll l').applyAll later).apply m).1 := by
  have hs := sameCells_of_same_messages h
  exact ⟨hs.lww, hs.deleted, hs.snapshot, fun later m => ((hs.applyAll later).apply m).1⟩

/-- A removal before, between and after the writes it covers, with a live
higher generation of the same number and a duplicated message. -/
theorem applyAll_converges_reordered :
    let a : CrdtMessage := .put 7 1 3 [1]
    let b : CrdtMessage := .deleteComponent 7 1 4
    let c : CrdtMessage := .deleteEntity 7
    let d : CrdtMessage := .put 65543 1 1 [2]
    (new.applyAll [a, b, c, d]).lww = (new.applyAll [d, c, b, c, a]).lww ∧
    (new.applyAll [a, b, c, d]).lww.toList = [(⟨7, 1, 1⟩, ⟨1, some [2]⟩)] := by
  refine ⟨(applyAll_converges _ _ ?_).1, by decide⟩
  intro m
  simp only [List.mem_cons, List.not_mem_nil, or_false]
  constructor
  · rintro (h | h | h | h) <;> simp [h]
  · rintro (h | h | h | h | h) <;> simp [h]

end Catalyrst.SceneState
