import Catalyrst.Lib.MaskedJoin
import Catalyrst.SceneState.Crdt.Engine

/-!
# What the engine computes: a masked join of deltas

A replica is two families of join-semilattice values: the high-water generation
of each entity number and the largest write of each cell. A message is a small
replica, its delta. The engine without a cell cap refines this: applying a
message joins its delta in and forgets the cells of removed entities.
-/

namespace Catalyrst.SceneState
open Catalyrst.Lib CrdtEngine

/-- Highest removed generation of each number, and largest write of each cell. -/
abbrev Replica := (U16 → WithBot U16) × (CellKey → WithBot LwwCell)

namespace Replica

/-- The removals of `r` cover the entity of the cell `k`. -/
def Masked (r : U16 → WithBot U16) (k : CellKey) : Prop :=
  (k.generation : WithBot U16) ≤ r k.number

instance (r : U16 → WithBot U16) (k : CellKey) : Decidable (Masked r k) :=
  inferInstanceAs (Decidable (_ ≤ _))

/-- Forget the cells of removed entities. -/
def mask (r : Replica) : Replica := (r.1, fun k => if Masked r.1 k then ⊥ else r.2 k)

theorem mask_of_masked {r : Replica} {k : CellKey} (h : Masked r.1 k) : (mask r).2 k = ⊥ := if_pos h

theorem mask_of_not_masked {r : Replica} {k : CellKey} (h : ¬ Masked r.1 k) :
    (mask r).2 k = r.2 k := if_neg h

theorem mask_stable : MaskedJoin.Stable mask where
  bot := by
    refine Prod.ext rfl (funext fun k => ?_)
    simp [mask]
  join := by
    intro a b
    refine Prod.ext rfl (funext fun k => ?_)
    by_cases h : Masked (a ⊔ b).1 k
    · have hm : Masked (mask a ⊔ b).1 k := h
      rw [mask_of_masked hm, mask_of_masked h]
    · have hm : ¬ Masked (mask a ⊔ b).1 k := h
      have ha : ¬ Masked a.1 k := by
        intro hk
        have hle : a.1 k.number ≤ (a ⊔ b).1 k.number := le_sup_left
        exact h (le_trans hk hle)
      rw [mask_of_not_masked hm, mask_of_not_masked h]
      show (mask a).2 k ⊔ b.2 k = a.2 k ⊔ b.2 k
      rw [mask_of_not_masked ha]

def removal (number generation : U16) : Replica :=
  (fun n => if n = number then (generation : WithBot U16) else ⊥, ⊥)

def write (key : CellKey) (cell : LwwCell) : Replica :=
  (⊥, fun k => if k = key then (cell : WithBot LwwCell) else ⊥)

/-- What a message adds to a replica; events on append channels add nothing. -/
def delta : CrdtMessage → Replica
  | .put entity componentId timestamp data =>
    write (cellKey entity componentId) ⟨timestamp, some data⟩
  | .deleteComponent entity componentId timestamp =>
    write (cellKey entity componentId) ⟨timestamp, none⟩
  | .deleteEntity entity => removal (entityNumber entity) (entityGeneration entity)
  | .append _ _ _ _ => ⊥

/-- The join of the deltas of a list of messages. -/
def joined (msgs : List CrdtMessage) : Replica := MaskedJoin.joinAll (msgs.map delta)

theorem joined_append (a b : List CrdtMessage) : joined (a ++ b) = joined a ⊔ joined b := by
  simp only [joined, List.map_append, MaskedJoin.joinAll_append]

theorem joined_cons (m : CrdtMessage) (msgs : List CrdtMessage) :
    joined (m :: msgs) = delta m ⊔ joined msgs := by
  simp only [joined, List.map_cons, MaskedJoin.joinAll_cons]

theorem delta_le_joined {m : CrdtMessage} {msgs : List CrdtMessage} (h : m ∈ msgs) :
    delta m ≤ joined msgs := MaskedJoin.le_joinAll (List.mem_map_of_mem h)

theorem joined_congr {a b : List CrdtMessage} (h : ∀ m, m ∈ a ↔ m ∈ b) : joined a = joined b := by
  refine MaskedJoin.joinAll_congr fun d => ?_
  simp only [List.mem_map, h]

/-- A joined write is one of the writes. -/
theorem joined_attained (msgs : List CrdtMessage) (k : CellKey) (c : LwwCell)
    (h : (joined msgs).2 k = c) : ∃ m ∈ msgs, (delta m).2 k = c := by
  induction msgs with
  | nil => exact absurd h.symm (WithBot.coe_ne_bot)
  | cons m msgs ih =>
    rw [joined_cons] at h
    rcases max_choice ((delta m).2 k) ((joined msgs).2 k) with hmax | hmax
    · exact ⟨m, List.mem_cons_self .., hmax.symm.trans h⟩
    · obtain ⟨m', hin, hm'⟩ := ih (hmax.symm.trans h)
      exact ⟨m', List.mem_cons_of_mem _ hin, hm'⟩

end Replica

namespace CrdtEngine
open Replica

/-- The stored removals and cells, read as the families of a replica. -/
def removed (e : CrdtEngine) (n : U16) : WithBot U16 := e.deleted[n]?

def cell (e : CrdtEngine) (k : CellKey) : WithBot LwwCell := e.lww[k]?

def view (e : CrdtEngine) : Replica := (e.removed, e.cell)

/-- A cell only ever exists for a live entity. -/
def Live (e : CrdtEngine) : Prop := mask e.view = e.view

theorem view_eq_iff (e f : CrdtEngine) : e.view = f.view ↔ e.lww = f.lww ∧ e.deleted = f.deleted := by
  constructor
  · intro h
    refine ⟨OrdMap.ext_find fun k => ?_, OrdMap.ext_find fun n => ?_⟩
    · exact congrFun (congrArg Prod.snd h) k
    · exact congrFun (congrArg Prod.fst h) n
  · rintro ⟨hl, hd⟩
    refine Prod.ext (funext fun n => ?_) (funext fun k => ?_)
    · show e.deleted[n]? = f.deleted[n]?
      rw [hd]
    · show e.lww[k]? = f.lww[k]?
      rw [hl]

theorem isDead_iff_masked (e : CrdtEngine) (entity componentId : U32) :
    e.isDead entity = true ↔ Masked e.view.1 (cellKey entity componentId) := by
  rw [isDead_iff]
  show _ ↔ (entityGeneration entity : WithBot U16) ≤ e.removed (entityNumber entity)
  unfold removed
  cases h : e.deleted[entityNumber entity]? with
  | none =>
    refine iff_of_false ?_ (WithBot.not_coe_le_bot (entityGeneration entity))
    rintro ⟨r, hr, _⟩
    cases hr
  | some r =>
    constructor
    · rintro ⟨r', hr, hle⟩
      cases hr
      exact WithBot.coe_le_coe.mpr hle
    · intro hle
      exact ⟨r, rfl, WithBot.coe_le_coe.mp hle⟩

theorem Live.find_eq_none {e : CrdtEngine} (h : e.Live) {k : CellKey} (hk : Masked e.view.1 k) :
    e.lww[k]? = none := by
  have hv : (mask e.view).2 k = e.view.2 k := congrFun (congrArg Prod.snd h) k
  rw [mask_of_masked hk] at hv
  exact hv.symm

theorem Live.of_find {e : CrdtEngine} (h : ∀ k, Masked e.view.1 k → e.lww[k]? = none) : e.Live := by
  refine Prod.ext rfl (funext fun k => ?_)
  by_cases hk : Masked e.view.1 k
  · rw [mask_of_masked hk]
    exact (h k hk).symm
  · exact mask_of_not_masked hk

/-! ### The engine without a cap refines the masked join -/

theorem cell_lwwSet {e : CrdtEngine} (hcap : e.maxComponents = none)
    (entity componentId timestamp : U32) (data : Option Bytes) (k : CellKey) :
    (e.lwwSet entity componentId timestamp data).2.cell k =
      e.cell k ⊔ (write (cellKey entity componentId) ⟨timestamp, data⟩).2 k := by
  unfold lwwSet cell
  dsimp only [write]
  cases hcur : e.lww[cellKey entity componentId]? with
  | none =>
    simp only [enforceCellCap, hcap, Cap.exceededBy, Bool.false_eq_true, if_false,
      OrdMap.find_insert]
    by_cases hk : k = cellKey entity componentId
    · subst hk
      rw [hcur, if_pos rfl, if_pos rfl]
      exact (bot_sup_eq _).symm
    · rw [if_neg (Ne.symm hk), if_neg hk]
      exact (sup_bot_eq _).symm
  | some cur =>
    by_cases hk : k = cellKey entity componentId
    · subst hk
      rw [hcur, if_pos rfl]
      dsimp only
      split
      · rename_i hacc
        have hlt := (LwwCell.accepts_iff _ _).mp hacc
        simp only [OrdMap.find_insert, if_true]
        exact (sup_eq_right.mpr (WithBot.coe_le_coe.mpr hlt.le)).symm
      · rename_i hacc
        have hle : (⟨timestamp, data⟩ : LwwCell) ≤ cur := by
          rw [LwwCell.accepts_iff] at hacc
          exact not_lt.mp hacc
        rw [hcur]
        exact (sup_eq_left.mpr (WithBot.coe_le_coe.mpr hle)).symm
    · rw [if_neg hk]
      refine Eq.trans ?_ (sup_bot_eq (e.cell k)).symm
      show _ = e.lww[k]?
      dsimp only
      split
      · simp only [OrdMap.find_insert, if_neg (Ne.symm hk)]
      · rfl

theorem removed_tombstone (e : CrdtEngine) (entity : U32) (n : U16) :
    (e.tombstone entity).2.removed n =
      e.removed n ⊔ (removal (entityNumber entity) (entityGeneration entity)).1 n := by
  unfold removed
  dsimp only [removal]
  by_cases hn : n = entityNumber entity
  · subst hn
    rw [if_pos rfl]
    cases h : e.isDead entity with
    | true =>
      obtain ⟨r, hr, hle⟩ := (isDead_iff e entity).mp h
      rw [tombstone_dead h, hr]
      exact (sup_eq_left.mpr (WithBot.coe_le_coe.mpr hle)).symm
    | false =>
      rw [tombstone_alive h]
      simp only [purge, OrdMap.find_insert, if_true]
      refine (sup_eq_right.mpr ?_).symm
      cases hr : e.deleted[entityNumber entity]? with
      | none => exact bot_le
      | some r =>
        have hlt : ¬ entityGeneration entity ≤ r := by
          intro hle
          rw [(isDead_iff e entity).mpr ⟨r, hr, hle⟩] at h
          cases h
        exact WithBot.coe_le_coe.mpr (le_of_not_ge hlt)
  · rw [if_neg hn]
    refine Eq.trans ?_ (sup_bot_eq (e.removed n)).symm
    show (e.tombstone entity).2.deleted[n]? = e.deleted[n]?
    cases h : e.isDead entity with
    | true => rw [tombstone_dead h]
    | false =>
      rw [tombstone_alive h]
      simp only [purge, OrdMap.find_insert, if_neg (Ne.symm hn)]

theorem find_tombstone_lww {e : CrdtEngine} (hl : e.Live) (entity : U32) (k : CellKey) :
    (e.tombstone entity).2.lww[k]? =
      if k.number = entityNumber entity ∧ k.generation ≤ entityGeneration entity then none
      else e.lww[k]? := by
  cases h : e.isDead entity with
  | true =>
    rw [tombstone_dead h]
    split
    · rename_i hk
      obtain ⟨r, hr, hle⟩ := (isDead_iff e entity).mp h
      refine hl.find_eq_none ?_
      show (k.generation : WithBot U16) ≤ e.removed k.number
      rw [removed, hk.1, hr]
      exact WithBot.coe_le_coe.mpr (hk.2.trans hle)
    · rfl
  | false =>
    rw [tombstone_alive h]
    exact find_purge_lww _ _ _ _

theorem view_of_find {e : CrdtEngine} {r : Replica} (hd : ∀ n, e.removed n = r.1 n)
    (hc : ∀ k, e.cell k = r.2 k) : e.view = r := Prod.ext (funext hd) (funext hc)

theorem masked_sup_removal (r : U16 → WithBot U16) (number generation : U16) (k : CellKey) :
    Masked (r ⊔ (removal number generation).1) k ↔
      Masked r k ∨ k.number = number ∧ k.generation ≤ generation := by
  show (k.generation : WithBot U16) ≤ r k.number ⊔ (removal number generation).1 k.number ↔ _
  rw [le_sup_iff]
  refine or_congr Iff.rfl ?_
  dsimp only [removal]
  by_cases hn : k.number = number
  · rw [if_pos hn, WithBot.coe_le_coe]
    exact (and_iff_right hn).symm
  · rw [if_neg hn]
    exact iff_of_false (WithBot.not_coe_le_bot _) fun h => hn h.1

/-- A write to a removed entity is masked. -/
theorem mask_write_dead {e : CrdtEngine} (hl : e.Live) {key : CellKey}
    (h : Masked e.view.1 key) (c : LwwCell) : mask (e.view ⊔ write key c) = e.view := by
  refine Prod.ext ?_ (funext fun k => ?_)
  · exact sup_bot_eq e.view.1
  · have hfst : (e.view ⊔ write key c).1 = e.view.1 := sup_bot_eq e.view.1
    by_cases hk : Masked e.view.1 k
    · rw [mask_of_masked (hfst.symm ▸ hk)]
      exact (hl.find_eq_none hk).symm
    · rw [mask_of_not_masked (hfst.symm ▸ hk)]
      have hne : k ≠ key := fun heq => hk (heq ▸ h)
      show e.cell k ⊔ (if k = key then (c : WithBot LwwCell) else ⊥) = e.cell k
      rw [if_neg hne, sup_bot_eq]

theorem view_lwwSet {e : CrdtEngine} (hcap : e.maxComponents = none) (hl : e.Live)
    (entity componentId timestamp : U32) (data : Option Bytes) (ha : e.isDead entity = false) :
    (e.lwwSet entity componentId timestamp data).2.view =
      mask (e.view ⊔ write (cellKey entity componentId) ⟨timestamp, data⟩) := by
  have halive : ¬ Masked e.view.1 (cellKey entity componentId) := by
    rw [← isDead_iff_masked, ha]
    simp
  refine view_of_find (fun n => ?_) (fun k => ?_)
  · show (e.lwwSet entity componentId timestamp data).2.deleted[n]? = _
    rw [(lwwSet_frame e entity componentId timestamp data).2.1]
    exact (sup_bot_eq (e.removed n)).symm
  · rw [cell_lwwSet hcap]
    have hfst : (e.view ⊔ write (cellKey entity componentId) ⟨timestamp, data⟩).1 = e.view.1 :=
      sup_bot_eq e.view.1
    by_cases hk : Masked e.view.1 k
    · have hne : k ≠ cellKey entity componentId := fun heq => halive (heq ▸ hk)
      rw [mask_of_masked (hfst.symm ▸ hk), show e.cell k = ⊥ from hl.find_eq_none hk]
      simp only [write, if_neg hne, sup_bot_eq]
    · rw [mask_of_not_masked (hfst.symm ▸ hk)]
      rfl

theorem view_tombstone {e : CrdtEngine} (hl : e.Live) (entity : U32) :
    (e.tombstone entity).2.view =
      mask (e.view ⊔ removal (entityNumber entity) (entityGeneration entity)) := by
  refine view_of_find (fun n => removed_tombstone e entity n) (fun k => ?_)
  show (e.tombstone entity).2.lww[k]? = _
  rw [find_tombstone_lww hl]
  have hiff := masked_sup_removal e.view.1 (entityNumber entity) (entityGeneration entity) k
  split
  · rename_i hk
    exact (mask_of_masked (hiff.mpr (Or.inr hk))).symm
  · rename_i hk
    by_cases hm : Masked e.view.1 k
    · rw [mask_of_masked (hiff.mpr (Or.inl hm))]
      exact hl.find_eq_none hm
    · rw [mask_of_not_masked fun h => (hiff.mp h).elim hm hk]
      exact (sup_bot_eq (e.cell k)).symm

/-- One message: the engine joins the delta in, under the mask. -/
theorem view_apply {e : CrdtEngine} (hcap : e.maxComponents = none) (hl : e.Live)
    (m : CrdtMessage) : (e.apply m).2.view = mask (e.view ⊔ delta m) := by
  cases h : e.isDead m.entity with
  | true =>
    cases m with
    | put entity componentId timestamp data =>
      rw [apply_dead h]
      exact (mask_write_dead hl ((isDead_iff_masked e entity componentId).mp h) _).symm
    | deleteComponent entity componentId timestamp =>
      rw [apply_dead h]
      exact (mask_write_dead hl ((isDead_iff_masked e entity componentId).mp h) _).symm
    | deleteEntity entity =>
      rw [apply_deleteEntity_snd]
      exact view_tombstone hl entity
    | append entity componentId timestamp data =>
      rw [apply_dead h]
      exact (congrArg mask (sup_bot_eq e.view)).trans hl |>.symm
  | false =>
    cases m with
    | put entity componentId timestamp data =>
      simp only [apply, h, Bool.false_eq_true, if_false]
      exact view_lwwSet hcap hl entity componentId timestamp (some data) h
    | deleteComponent entity componentId timestamp =>
      simp only [apply, h, Bool.false_eq_true, if_false]
      exact view_lwwSet hcap hl entity componentId timestamp none h
    | deleteEntity entity =>
      rw [apply_deleteEntity_snd]
      exact view_tombstone hl entity
    | append entity componentId timestamp data =>
      simp only [apply, h, Bool.false_eq_true, if_false]
      have hf := append_frame e entity componentId data
      rw [(view_eq_iff _ e).mpr ⟨hf.2.1, hf.2.2.1⟩]
      exact (congrArg mask (sup_bot_eq e.view)).trans hl |>.symm

theorem new_live : new.Live := by
  refine Live.of_find fun k _ => ?_
  exact Std.ExtTreeMap.getElem?_empty

theorem apply_live {e : CrdtEngine} (hcap : e.maxComponents = none) (hl : e.Live)
    (m : CrdtMessage) : (e.apply m).2.Live := by
  rw [Live, view_apply hcap hl, mask_stable.idem]

/-- A whole run: the engine holds the mask of the join of all deltas. -/
theorem view_applyAll {e : CrdtEngine} (hcap : e.maxComponents = none) (hl : e.Live)
    (msgs : List CrdtMessage) : (e.applyAll msgs).view = mask (e.view ⊔ joined msgs) := by
  have hfold : (e.applyAll msgs).view =
      (msgs.map delta).foldl (fun s d => mask (s ⊔ d)) e.view := by
    induction msgs generalizing e with
    | nil => rfl
    | cons m msgs ih =>
      have hcap' : (e.apply m).2.maxComponents = none := by rw [apply_maxComponents, hcap]
      rw [applyAll_cons, ih hcap' (apply_live hcap hl m), view_apply hcap hl]
      rfl
  rw [hfold]
  have hstart : e.view = mask e.view := hl.symm
  rw [hstart, mask_stable.foldl_receive, ← hstart]
  rfl

theorem applyAll_live {e : CrdtEngine} (hcap : e.maxComponents = none) (hl : e.Live)
    (msgs : List CrdtMessage) : (e.applyAll msgs).Live := by
  rw [Live, view_applyAll hcap hl, mask_stable.idem]

theorem view_new : new.view = ⊥ :=
  view_of_find (fun _ => Std.ExtTreeMap.getElem?_empty) fun _ => Std.ExtTreeMap.getElem?_empty

/-- From the empty engine: the state is a function of the joined deltas. -/
theorem view_applyAll_new (msgs : List CrdtMessage) : (new.applyAll msgs).view = mask (joined msgs) := by
  rw [view_applyAll rfl new_live, view_new, bot_sup_eq]

/-- A stored cell was stored before or came in one of the messages. -/
theorem find_applyAll_origin {e : CrdtEngine} (hcap : e.maxComponents = none) (hl : e.Live)
    (msgs : List CrdtMessage) {k : CellKey} {c : LwwCell}
    (h : (e.applyAll msgs).lww[k]? = some c) :
    e.lww[k]? = some c ∨ ∃ m ∈ msgs, (delta m).2 k = c := by
  have hview : (e.applyAll msgs).cell k = (mask (e.view ⊔ joined msgs)).2 k :=
    congrFun (congrArg Prod.snd (view_applyAll hcap hl msgs)) k
  have hc : (mask (e.view ⊔ joined msgs)).2 k = c := hview.symm.trans h
  have hlive : ¬ Masked (e.view ⊔ joined msgs).1 k := by
    intro hk
    rw [mask_of_masked hk] at hc
    exact absurd hc.symm WithBot.coe_ne_bot
  rw [mask_of_not_masked hlive] at hc
  rcases max_choice (e.cell k) ((joined msgs).2 k) with hmax | hmax
  · exact Or.inl (hmax.symm.trans hc)
  · exact Or.inr (joined_attained msgs k c (hmax.symm.trans hc))

end CrdtEngine

end Catalyrst.SceneState
