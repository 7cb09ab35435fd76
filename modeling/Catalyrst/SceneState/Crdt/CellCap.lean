import Catalyrst.Lib.Rank
import Catalyrst.SceneState.Crdt.Snapshot

/-!
# The cell cap (`with_cap`, `enforce_cell_cap`)

An over-full store evicts its largest key. The keys below the cap among all the
keys ever written are never evicted; what removals do to the rest decides
whether the surviving cells depend on the order of arrival.
-/

namespace Catalyrst.SceneState
open Catalyrst.Lib CrdtEngine Replica

namespace CrdtEngine

/-! ### Evicting the largest key -/

/-- The keys of the stored cells. -/
def keySet (e : CrdtEngine) : Finset CellKey := OrdMap.keySet e.lww

theorem mem_keySet (e : CrdtEngine) (k : CellKey) : k ∈ e.keySet ↔ ∃ c, e.lww[k]? = some c :=
  OrdMap.mem_keySet e.lww k

theorem notMem_keySet (e : CrdtEngine) (k : CellKey) : k ∉ e.keySet ↔ e.cell k = ⊥ := by
  rw [mem_keySet, cell]
  cases e.lww[k]? with
  | none =>
    refine iff_of_true ?_ rfl
    rintro ⟨c, hc⟩
    cases hc
  | some c => exact iff_of_false (fun h => h ⟨c, rfl⟩) WithBot.coe_ne_bot

/-- `enforce_cell_cap` either finds room or evicts the largest key. -/
theorem enforceCellCap_cases {e : CrdtEngine} {n : ℕ} (hcap : e.maxComponents = some n)
    (inserted : CellKey) :
    (e.keySet.card ≤ n ∧ (e.enforceCellCap inserted).2 = e) ∨
    ∃ largest ∈ e.keySet, n < e.keySet.card ∧ (∀ k ∈ e.keySet, k ≤ largest) ∧
      (e.enforceCellCap inserted).2 = { e with lww := e.lww.erase largest } := by
  have hcard : e.keySet.card = e.lww.size := OrdMap.card_keySet e.lww
  unfold enforceCellCap
  simp only [hcap, Cap.exceededBy, decide_eq_true_eq]
  split
  · rename_i hover
    cases hlast : OrdMap.lastKey e.lww with
    | none =>
      have hempty : e.keySet = ∅ := by
        refine Finset.eq_empty_of_forall_notMem fun k hk => ?_
        obtain ⟨c, hc⟩ := (mem_keySet e k).mp hk
        rw [OrdMap.lastKey_none hlast] at hc
        cases hc
      rw [hempty, Finset.card_empty] at hcard
      omega
    | some largest =>
      obtain ⟨hin, hmax⟩ := OrdMap.lastKey_some hlast
      refine Or.inr ⟨largest, (mem_keySet e largest).mpr hin, by omega, ?_, rfl⟩
      intro k hk
      obtain ⟨c, hc⟩ := (mem_keySet e k).mp hk
      exact hmax k c hc
  · rename_i hroom
    exact Or.inl ⟨by omega, rfl⟩

/-- The engine with one cell replaced, before the cap is enforced. -/
def store (e : CrdtEngine) (key : CellKey) (c : LwwCell) : CrdtEngine :=
  { e with lww := e.lww.insert key c }

theorem keySet_store (e : CrdtEngine) (key : CellKey) (c : LwwCell) :
    (e.store key c).keySet = insert key e.keySet := OrdMap.keySet_insert _ _ _

theorem lwwSet_vacant {e : CrdtEngine} {entity componentId : U32}
    (h : e.lww[cellKey entity componentId]? = none) (timestamp : U32) (data : Option Bytes) :
    (e.lwwSet entity componentId timestamp data).2 =
      ((e.store (cellKey entity componentId) ⟨timestamp, data⟩).enforceCellCap
        (cellKey entity componentId)).2 := by
  simp only [lwwSet, h]
  rfl

theorem lwwSet_occupied {e : CrdtEngine} {entity componentId : U32} {cur : LwwCell}
    (h : e.lww[cellKey entity componentId]? = some cur) (timestamp : U32) (data : Option Bytes) :
    (e.lwwSet entity componentId timestamp data).2 =
      if (LwwCell.mk timestamp data).accepts cur then
        e.store (cellKey entity componentId) ⟨timestamp, data⟩ else e := by
  simp only [lwwSet, h]
  split
  · rfl
  · rfl

/-- A write leaves the key set inside the old keys and the written one, and the
store within its cap. -/
theorem keySet_lwwSet {e : CrdtEngine} {n : ℕ} (hcap : e.maxComponents = some n)
    (hsize : e.keySet.card ≤ n) (entity componentId timestamp : U32) (data : Option Bytes) :
    (e.lwwSet entity componentId timestamp data).2.keySet ⊆
      insert (cellKey entity componentId) e.keySet ∧
    (e.lwwSet entity componentId timestamp data).2.keySet.card ≤ n := by
  have hset := keySet_store e (cellKey entity componentId) ⟨timestamp, data⟩
  cases hcur : e.lww[cellKey entity componentId]? with
  | none =>
    rw [lwwSet_vacant hcur]
    rcases enforceCellCap_cases (e := e.store (cellKey entity componentId) ⟨timestamp, data⟩)
        hcap (cellKey entity componentId) with ⟨hroom, heq⟩ | ⟨largest, hin, _, _, heq⟩
    · rw [heq]
      exact ⟨hset.subset, hroom⟩
    · have herase : ((e.store (cellKey entity componentId) ⟨timestamp, data⟩).enforceCellCap
          (cellKey entity componentId)).2.keySet =
          (insert (cellKey entity componentId) e.keySet).erase largest := by
        rw [heq, ← hset]
        exact OrdMap.keySet_erase _ _
      rw [hset] at hin
      rw [herase, Finset.card_erase_of_mem hin]
      have hcard := Finset.card_insert_le (cellKey entity componentId) e.keySet
      exact ⟨Finset.erase_subset _ _, by omega⟩
  | some cur =>
    have hmem : cellKey entity componentId ∈ e.keySet := (mem_keySet e _).mpr ⟨cur, hcur⟩
    rw [lwwSet_occupied hcur]
    split
    · rw [hset, Finset.insert_eq_of_mem hmem]
      exact ⟨subset_rfl, hsize⟩
    · exact ⟨Finset.subset_insert _ _, hsize⟩

/-- A key whose rank among the offered keys is below the cap is never evicted:
its cell is joined with the write, as without a cap. -/
theorem cell_lwwSet_capped {e : CrdtEngine} {n : ℕ} {K : Finset CellKey}
    (hcap : e.maxComponents = some n) (hkeys : e.keySet ⊆ K)
    (entity componentId timestamp : U32) (data : Option Bytes)
    (hin : cellKey entity componentId ∈ K) (k : CellKey) (hk : rank K k < n) :
    (e.lwwSet entity componentId timestamp data).2.cell k =
      e.cell k ⊔ (write (cellKey entity componentId) ⟨timestamp, data⟩).2 k := by
  have huncapped := cell_lwwSet (e := { e with maxComponents := none }) rfl
    entity componentId timestamp data k
  cases hcur : e.lww[cellKey entity componentId]? with
  | none =>
    have hset := keySet_store e (cellKey entity componentId) ⟨timestamp, data⟩
    have hinsert : (e.store (cellKey entity componentId) ⟨timestamp, data⟩).cell k =
        e.cell k ⊔ (write (cellKey entity componentId) ⟨timestamp, data⟩).2 k := by
      rw [lwwSet_vacant (e := { e with maxComponents := none }) hcur] at huncapped
      exact huncapped
    rw [lwwSet_vacant hcur]
    rcases enforceCellCap_cases (e := e.store (cellKey entity componentId) ⟨timestamp, data⟩)
        hcap (cellKey entity componentId) with ⟨_, heq⟩ | ⟨largest, hlargest, hover, hmax, heq⟩
    · rw [heq]
      exact hinsert
    · have hsub : insert (cellKey entity componentId) e.keySet ⊆ K :=
        Finset.insert_subset hin hkeys
      rw [hset] at hlargest hover hmax
      have hrank := le_rank_of_greatest hsub hlargest hmax hover
      have hne : largest ≠ k := by
        rintro rfl
        omega
      rw [heq]
      refine Eq.trans ?_ hinsert
      simp only [cell, OrdMap.find_erase, if_neg hne]
      rfl
  | some cur =>
    rw [lwwSet_occupied (e := { e with maxComponents := none }) hcur] at huncapped
    rw [lwwSet_occupied hcur]
    split
    · rename_i hacc
      rw [if_pos hacc] at huncapped
      exact huncapped
    · rename_i hacc
      rw [if_neg hacc] at huncapped
      exact huncapped

/-! ### The invariant of a capped run -/

/-- Removals accumulate, whatever the cap. -/
theorem removed_apply (e : CrdtEngine) (m : CrdtMessage) :
    (e.apply m).2.view.1 = e.view.1 ⊔ (delta m).1 := by
  have hframe : ∀ f : CrdtEngine, f.deleted = e.deleted → f.view.1 = e.view.1 ⊔ ⊥ := by
    intro f hf
    rw [sup_bot_eq]
    funext n
    show f.deleted[n]? = e.deleted[n]?
    rw [hf]
  cases m with
  | deleteEntity entity =>
    rw [apply_deleteEntity_snd]
    exact funext fun n => removed_tombstone e entity n
  | put entity componentId timestamp data =>
    cases h : e.isDead entity with
    | true =>
      rw [apply_dead (m := .put entity componentId timestamp data) h]
      exact hframe e rfl
    | false =>
      simp only [apply, CrdtMessage.entity, h, Bool.false_eq_true, if_false]
      exact hframe _ (lwwSet_frame _ _ _ _ _).2.1
  | deleteComponent entity componentId timestamp =>
    cases h : e.isDead entity with
    | true =>
      rw [apply_dead (m := .deleteComponent entity componentId timestamp) h]
      exact hframe e rfl
    | false =>
      simp only [apply, CrdtMessage.entity, h, Bool.false_eq_true, if_false]
      exact hframe _ (lwwSet_frame _ _ _ _ _).2.1
  | append entity componentId timestamp data =>
    cases h : e.isDead entity with
    | true =>
      rw [apply_dead (m := .append entity componentId timestamp data) h]
      exact hframe e rfl
    | false =>
      simp only [apply, CrdtMessage.entity, h, Bool.false_eq_true, if_false]
      exact hframe _ (append_frame _ _ _ _).2.2.1

theorem removed_applyAll (e : CrdtEngine) (msgs : List CrdtMessage) :
    (e.applyAll msgs).view.1 = e.view.1 ⊔ (joined msgs).1 := by
  induction msgs generalizing e with
  | nil => exact (sup_bot_eq e.view.1).symm
  | cons m msgs ih =>
    rw [applyAll_cons, ih, removed_apply, sup_assoc, joined_cons]
    rfl

/-- The state of a capped engine while messages arrive: `K` bounds the keys that
were offered alive, `R` the removals of the whole run, `w` holds the writes so
far. Below the cap and outside the removals the engine has lost nothing. -/
structure Resident (n : ℕ) (K : Finset CellKey) (R : U16 → WithBot U16)
    (w : CellKey → WithBot LwwCell) (e : CrdtEngine) : Prop where
  cap : e.maxComponents = some n
  live : e.Live
  size : e.keySet.card ≤ n
  keys : e.keySet ⊆ K
  removed : e.view.1 ≤ R
  value : ∀ k ∈ K, rank K k < n → ¬ Masked R k → e.cell k = w k

section Steps

variable {n : ℕ} {K : Finset CellKey} {R : U16 → WithBot U16} {w : CellKey → WithBot LwwCell}
  {e : CrdtEngine}

theorem masked_mono {r r' : U16 → WithBot U16} (h : r ≤ r') {k : CellKey} (hk : Masked r k) :
    Masked r' k := le_trans hk (h k.number)

/-- Nothing happens to the cells and nothing relevant was written. -/
theorem Resident.idle (h : Resident n K R w e) {f : CrdtEngine} (hcap : f.maxComponents = some n)
    (hl : f.lww = e.lww) (hd : f.deleted = e.deleted) {d : CellKey → WithBot LwwCell}
    (hw : ∀ k, ¬ Masked R k → d k = ⊥) : Resident n K R (w ⊔ d) f := by
  have hview : f.view = e.view := (view_eq_iff f e).mpr ⟨hl, hd⟩
  have hset : f.keySet = e.keySet := by rw [CrdtEngine.keySet, CrdtEngine.keySet, hl]
  refine ⟨hcap, ?_, ?_, ?_, ?_, ?_⟩
  · rw [Live, hview]
    exact h.live
  · rw [hset]
    exact h.size
  · rw [hset]
    exact h.keys
  · rw [hview]
    exact h.removed
  · intro k hk hr hm
    have hcell : f.cell k = e.cell k := congrFun (congrArg Prod.snd hview) k
    show f.cell k = w k ⊔ d k
    rw [hcell, hw k hm, sup_bot_eq]
    exact h.value k hk hr hm

theorem Resident.lwwSet (h : Resident n K R w e) (entity componentId timestamp : U32)
    (data : Option Bytes) (ha : e.isDead entity = false) (hin : cellKey entity componentId ∈ K) :
    Resident n K R (w ⊔ (write (cellKey entity componentId) ⟨timestamp, data⟩).2)
      (e.lwwSet entity componentId timestamp data).2 := by
  obtain ⟨_, hdel, hcap⟩ := lwwSet_frame e entity componentId timestamp data
  obtain ⟨hsub, hcard⟩ := keySet_lwwSet h.cap h.size entity componentId timestamp data
  have hfst : (e.lwwSet entity componentId timestamp data).2.view.1 = e.view.1 := by
    funext n
    show (e.lwwSet entity componentId timestamp data).2.deleted[n]? = e.deleted[n]?
    rw [hdel]
  refine ⟨hcap.trans h.cap, Live.of_find fun k hk => ?_, hcard, ?_, ?_, ?_⟩
  · rw [hfst] at hk
    refine (notMem_keySet _ k).mp fun hmem => ?_
    rcases Finset.mem_insert.mp (hsub hmem) with rfl | hold
    · rw [(isDead_iff_masked e entity componentId).mpr hk] at ha
      cases ha
    · exact (notMem_keySet e k).mpr (h.live.find_eq_none hk) hold
  · exact hsub.trans (Finset.insert_subset hin h.keys)
  · rw [hfst]
    exact h.removed
  · intro k hk hr hm
    rw [cell_lwwSet_capped h.cap h.keys entity componentId timestamp data hin k hr,
      h.value k hk hr hm]
    rfl

theorem Resident.tombstone (h : Resident n K R w e) (entity : U32)
    (hR : (removal (entityNumber entity) (entityGeneration entity)).1 ≤ R) :
    Resident n K R (w ⊔ ⊥) (e.tombstone entity).2 := by
  have hview := view_tombstone h.live entity
  have hsub : (e.tombstone entity).2.keySet ⊆ e.keySet := by
    intro k hk
    obtain ⟨c, hc⟩ := (mem_keySet _ k).mp hk
    rw [find_tombstone_lww h.live] at hc
    split at hc
    · cases hc
    · exact (mem_keySet e k).mpr ⟨c, hc⟩
  refine ⟨?_, ?_, (Finset.card_le_card hsub).trans h.size, hsub.trans h.keys, ?_, ?_⟩
  · rw [tombstone_maxComponents, h.cap]
  · rw [Live, hview, mask_stable.idem]
  · rw [hview]
    exact sup_le h.removed hR
  · intro k hk hr hm
    have hkeep : ¬ (k.number = entityNumber entity ∧ k.generation ≤ entityGeneration entity) := by
      rintro ⟨hn, hg⟩
      refine hm (masked_mono hR ?_)
      show (k.generation : WithBot U16) ≤ (removal _ _).1 k.number
      simp only [removal, if_pos hn]
      exact WithBot.coe_le_coe.mpr hg
    rw [sup_bot_eq, ← h.value k hk hr hm]
    show (e.tombstone entity).2.lww[k]? = e.lww[k]?
    rw [find_tombstone_lww h.live, if_neg hkeep]

/-- A write that arrives for a removed entity concerns no live key. -/
theorem write_dead (h : Resident n K R w e) {entity : U32} (hd : e.isDead entity = true)
    (componentId : U32) (c : LwwCell) (k : CellKey) (hm : ¬ Masked R k) :
    (write (cellKey entity componentId) c).2 k = ⊥ := by
  have hne : k ≠ cellKey entity componentId := by
    rintro rfl
    exact hm (masked_mono h.removed ((isDead_iff_masked e entity componentId).mp hd))
  simp only [write, if_neg hne]

/-- The step lemma: one message, whose removal lies in `R` and whose key lies in
`K` unless it is already removed. -/
theorem Resident.apply (h : Resident n K R w e) (m : CrdtMessage) (hR : (delta m).1 ≤ R)
    (hK : ∀ k, (delta m).2 k ≠ ⊥ → k ∈ K ∨ Masked e.view.1 k) :
    Resident n K R (w ⊔ (delta m).2) (e.apply m).2 := by
  have hwrite : ∀ (entity componentId timestamp : U32) (data : Option Bytes),
      (write (cellKey entity componentId) ⟨timestamp, data⟩).2 = (delta m).2 →
      e.isDead entity = false → cellKey entity componentId ∈ K := by
    intro entity componentId timestamp data hd ha
    have hne : (delta m).2 (cellKey entity componentId) ≠ ⊥ := by
      rw [← hd]
      simp only [write, if_true]
      exact WithBot.coe_ne_bot
    rcases hK _ hne with hin | hmasked
    · exact hin
    · rw [(isDead_iff_masked e entity componentId).mpr hmasked] at ha
      cases ha
  cases m with
  | put entity componentId timestamp data =>
    cases hd : e.isDead entity with
    | true =>
      rw [apply_dead (m := .put entity componentId timestamp data) hd]
      exact h.idle h.cap rfl rfl (write_dead h hd componentId _)
    | false =>
      simp only [CrdtEngine.apply, CrdtMessage.entity, hd, Bool.false_eq_true, if_false]
      exact h.lwwSet entity componentId timestamp (some data) hd
        (hwrite entity componentId timestamp (some data) rfl hd)
  | deleteComponent entity componentId timestamp =>
    cases hd : e.isDead entity with
    | true =>
      rw [apply_dead (m := .deleteComponent entity componentId timestamp) hd]
      exact h.idle h.cap rfl rfl (write_dead h hd componentId _)
    | false =>
      simp only [CrdtEngine.apply, CrdtMessage.entity, hd, Bool.false_eq_true, if_false]
      exact h.lwwSet entity componentId timestamp none hd
        (hwrite entity componentId timestamp none rfl hd)
  | deleteEntity entity =>
    rw [apply_deleteEntity_snd]
    exact h.tombstone entity hR
  | append entity componentId timestamp data =>
    cases hd : e.isDead entity with
    | true =>
      rw [apply_dead (m := .append entity componentId timestamp data) hd]
      exact h.idle h.cap rfl rfl fun k _ => rfl
    | false =>
      simp only [CrdtEngine.apply, CrdtMessage.entity, hd, Bool.false_eq_true, if_false]
      obtain ⟨_, hl, hdel, hcap⟩ := append_frame e entity componentId data
      exact h.idle (hcap.trans h.cap) hl hdel fun k _ => rfl

/-- The run lemma. -/
theorem Resident.applyAll (h : Resident n K R w e) (msgs : List CrdtMessage)
    (hR : ∀ m ∈ msgs, (delta m).1 ≤ R)
    (hK : ∀ m ∈ msgs, ∀ k, (delta m).2 k ≠ ⊥ → k ∈ K ∨ Masked e.view.1 k) :
    Resident n K R (w ⊔ (joined msgs).2) (e.applyAll msgs) := by
  induction msgs generalizing e w with
  | nil =>
    have hw : w ⊔ (joined []).2 = w := sup_bot_eq w
    rw [hw]
    exact h
  | cons m msgs ih =>
    have hm := h.apply m (hR m (List.mem_cons_self ..)) (hK m (List.mem_cons_self ..))
    have hw : w ⊔ (joined (m :: msgs)).2 = w ⊔ (delta m).2 ⊔ (joined msgs).2 := by
      rw [joined_cons, sup_assoc]
      rfl
    rw [hw]
    refine ih hm (fun x hx => hR x (List.mem_cons_of_mem _ hx)) fun x hx k hk => ?_
    rcases hK x (List.mem_cons_of_mem _ hx) k hk with hin | hmasked
    · exact Or.inl hin
    · refine Or.inr (masked_mono ?_ hmasked)
      rw [removed_apply]
      exact le_sup_left

end Steps

/-! ### When the surviving cells do not depend on the order -/

def writtenKey : CrdtMessage → Option CellKey
  | .put entity componentId _ _ => some (cellKey entity componentId)
  | .deleteComponent entity componentId _ => some (cellKey entity componentId)
  | .deleteEntity _ => none
  | .append _ _ _ _ => none

/-- The keys of all the cell writes of a list of messages. -/
def keysWritten (msgs : List CrdtMessage) : Finset CellKey := (msgs.filterMap writtenKey).toFinset

/-- No removed key takes a place below the cap from a live key above it. -/
def CapSafe (n : ℕ) (K : Finset CellKey) (R : U16 → WithBot U16) : Prop :=
  ∀ d ∈ K, ∀ k ∈ K, Masked R d → rank K d < n → ¬ Masked R k → rank K k < n

theorem mem_keysWritten (msgs : List CrdtMessage) (k : CellKey) :
    k ∈ keysWritten msgs ↔ ∃ m ∈ msgs, writtenKey m = some k := by
  simp only [keysWritten, List.mem_toFinset, List.mem_filterMap]

theorem delta_ne_bot_iff (m : CrdtMessage) (k : CellKey) :
    (delta m).2 k ≠ ⊥ ↔ writtenKey m = some k := by
  have hwrite : ∀ (key : CellKey) (c : LwwCell), (write key c).2 k ≠ ⊥ ↔ some key = some k := by
    intro key c
    by_cases hk : k = key
    · subst hk
      refine iff_of_true ?_ rfl
      simp only [write, if_true]
      exact WithBot.coe_ne_bot
    · simp only [write, if_neg hk]
      exact iff_of_false (fun h => h rfl) fun h => hk (Option.some.inj h).symm
  cases m with
  | put entity componentId timestamp data => exact hwrite _ _
  | deleteComponent entity componentId timestamp => exact hwrite _ _
  | deleteEntity entity => exact iff_of_false (fun h => h rfl) fun h => by cases h
  | append entity componentId timestamp data => exact iff_of_false (fun h => h rfl) fun h => by cases h

theorem joined_ne_bot {msgs : List CrdtMessage} {k : CellKey} (h : k ∈ keysWritten msgs) :
    (joined msgs).2 k ≠ ⊥ := by
  obtain ⟨m, hm, hw⟩ := (mem_keysWritten msgs k).mp h
  have hd := (delta_ne_bot_iff m k).mpr hw
  exact fun hbot => hd (le_bot_iff.mp (hbot ▸ (delta_le_joined hm).2 k))

theorem keysWritten_congr {l l' : List CrdtMessage} (h : ∀ m, m ∈ l ↔ m ∈ l') :
    keysWritten l = keysWritten l' := by
  ext k
  simp only [mem_keysWritten, h]

/-- What a resident state holds when no live key was crowded out. -/
theorem Resident.cell_eq {n : ℕ} {K : Finset CellKey} {R : U16 → WithBot U16}
    {w : CellKey → WithBot LwwCell} {e : CrdtEngine} (h : Resident n K R w e)
    (hview : e.view.1 = R) (hw : ∀ k ∈ K, w k ≠ ⊥) (hsafe : CapSafe n K R) (k : CellKey) :
    e.cell k = if k ∈ lowest n K ∧ ¬ Masked R k then w k else ⊥ := by
  split
  · rename_i hk
    obtain ⟨hin, hr⟩ := mem_lowest.mp hk.1
    exact h.value k hin hr hk.2
  · rename_i hk
    refine (notMem_keySet e k).mp fun hmem => hk ?_
    have hlive : ¬ Masked R k := by
      intro hm
      refine (notMem_keySet e k).mpr (h.live.find_eq_none ?_) hmem
      rw [hview]
      exact hm
    refine ⟨?_, hlive⟩
    by_contra hout
    have hkK := h.keys hmem
    have hrank : n ≤ rank K k := by
      by_contra hlt
      exact hout (mem_lowest.mpr ⟨hkK, not_le.mp hlt⟩)
    -- a live key above the cap leaves no removed key below it, so the store is full
    have hfull : lowest n K ⊆ e.keySet := by
      intro d hd
      obtain ⟨hdK, hdr⟩ := mem_lowest.mp hd
      have hdlive : ¬ Masked R d := by
        intro hm
        have := hsafe d hdK k hkK hm hdr hlive
        omega
      by_contra hnot
      rw [notMem_keySet, h.value d hdK hdr hdlive] at hnot
      exact hw d hdK hnot
    rw [eq_lowest_of_full hfull h.size hkK hrank] at hmem
    exact hout hmem

theorem resident_withCap (n : ℕ) (K : Finset CellKey) (R : U16 → WithBot U16) :
    Resident (max n 1) K R ⊥ (withCap n) := by
  have hnone : ∀ k, (withCap n).cell k = ⊥ := fun k => Std.ExtTreeMap.getElem?_empty
  have hempty : (withCap n).keySet = ∅ :=
    Finset.eq_empty_of_forall_notMem fun k => (notMem_keySet _ k).mpr (hnone k)
  refine ⟨rfl, Live.of_find fun k _ => hnone k, ?_, ?_, ?_, fun k _ _ _ => hnone k⟩
  · rw [hempty]
    exact Nat.zero_le _
  · rw [hempty]
    exact Finset.empty_subset _
  · intro number
    exact (show (withCap n).removed number = ⊥ from Std.ExtTreeMap.getElem?_empty).le.trans bot_le

theorem withCap_removed (n : ℕ) (msgs : List CrdtMessage) :
    ((withCap n).applyAll msgs).view.1 = (joined msgs).1 := by
  have hbot : (withCap n).view.1 = ⊥ := funext fun _ => Std.ExtTreeMap.getElem?_empty
  rw [removed_applyAll, hbot, bot_sup_eq]

/-- A whole run of a capped engine, with every written key offered. -/
theorem resident_applyAll (n : ℕ) (msgs : List CrdtMessage) :
    Resident (max n 1) (keysWritten msgs) (joined msgs).1 (joined msgs).2
      ((withCap n).applyAll msgs) := by
  have h := (resident_withCap n (keysWritten msgs) (joined msgs).1).applyAll msgs
    (fun m hm => (delta_le_joined hm).1) fun m hm k hk =>
      Or.inl ((mem_keysWritten msgs k).mpr ⟨m, hm, (delta_ne_bot_iff m k).mp hk⟩)
  rwa [bot_sup_eq] at h

theorem cell_withCap {n : ℕ} {msgs : List CrdtMessage}
    (hsafe : CapSafe (max n 1) (keysWritten msgs) (joined msgs).1) (k : CellKey) :
    ((withCap n).applyAll msgs).cell k =
      if k ∈ lowest (max n 1) (keysWritten msgs) ∧ ¬ Masked (joined msgs).1 k then
        (joined msgs).2 k else ⊥ :=
  (resident_applyAll n msgs).cell_eq (withCap_removed n msgs) (fun _ hk => joined_ne_bot hk) hsafe k

/-- Under the condition the order does not matter. -/
theorem withCap_sameCells {n : ℕ} {l l' : List CrdtMessage} (h : ∀ m, m ∈ l ↔ m ∈ l')
    (hsafe : CapSafe (max n 1) (keysWritten l) (joined l).1) :
    ((withCap n).applyAll l).SameCells ((withCap n).applyAll l') := by
  have hjoined := joined_congr h
  have hkeys := keysWritten_congr h
  have hsafe' : CapSafe (max n 1) (keysWritten l') (joined l').1 := by
    rw [← hkeys, ← hjoined]
    exact hsafe
  refine SameCells.of_view (Prod.ext ?_ (funext fun k => ?_)) ?_
  · rw [withCap_removed, withCap_removed, hjoined]
  · show ((withCap n).applyAll l).cell k = ((withCap n).applyAll l').cell k
    rw [cell_withCap hsafe, cell_withCap hsafe', hjoined, hkeys]
  · rw [applyAll_maxComponents, applyAll_maxComponents]

end CrdtEngine

end Catalyrst.SceneState
