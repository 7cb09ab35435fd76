import Catalyrst.Lib.OrdMap
import Catalyrst.SceneState.Crdt.Wire

/-!
# The CRDT merge engine (`crdt.rs`, `CrdtEngine`)

Two disjoint stores: last-write-wins cells fed by PUT_COMPONENT and
DELETE_COMPONENT, and grow-only channels fed by APPEND_VALUE. Removal is a
version G-Set: one high-water generation per entity number.
-/

namespace Catalyrst.SceneState
open Catalyrst.Lib

/-! ### Keys and cells -/

/-- `(entity number, entity generation, component id)`, ordered as the tuple. -/
structure CellKey where
  number : U16
  generation : U16
  componentId : U32

namespace CellKey

def lex (k : CellKey) : U16 ×ₗ U16 ×ₗ U32 :=
  toLex (k.number, toLex (k.generation, k.componentId))

theorem lex_injective : Function.Injective lex := by
  intro a b h
  cases a
  cases b
  simpa [lex] using h

instance : LinearOrder CellKey := LinearOrder.lift' lex lex_injective

theorem le_iff (a b : CellKey) : a ≤ b ↔ a.number < b.number ∨ a.number = b.number ∧
    (a.generation < b.generation ∨ a.generation = b.generation ∧ a.componentId ≤ b.componentId) := by
  show a.lex ≤ b.lex ↔ _
  simp only [lex, Prod.Lex.toLex_le_toLex]

/-- The closed interval of one number up to one generation. -/
theorem between_iff (k : CellKey) (number generation : U16) :
    (⟨number, 0, 0⟩ : CellKey) ≤ k ∧ k ≤ ⟨number, generation, u32Max⟩ ↔
      k.number = number ∧ k.generation ≤ generation := by
  have h0 : (0 : U16) ≤ k.generation := Fin.zero_le _
  have hc0 : (0 : U32) ≤ k.componentId := Fin.zero_le _
  have hc1 := le_u32Max k.componentId
  simp only [le_iff]
  constructor
  · rintro ⟨hl, hr⟩
    have hn : k.number = number := by
      rcases hl with hl | hl
      · rcases hr with hr | hr
        · exact absurd hr (not_lt.mpr hl.le)
        · exact hr.1
      · exact hl.1.symm
    refine ⟨hn, ?_⟩
    rcases hr with hr | hr
    · exact absurd hn (ne_of_lt hr)
    · rcases hr.2 with h | h
      · exact h.le
      · exact h.1.le
  · rintro ⟨hn, hg⟩
    refine ⟨Or.inr ⟨hn.symm, ?_⟩, Or.inr ⟨hn, ?_⟩⟩
    · rcases h0.lt_or_eq with h | h
      · exact Or.inl h
      · exact Or.inr ⟨h, hc0⟩
    · rcases hg.lt_or_eq with h | h
      · exact Or.inl h
      · exact Or.inr ⟨h, hc1⟩

end CellKey

def cellKey (entity componentId : U32) : CellKey :=
  ⟨entityNumber entity, entityGeneration entity, componentId⟩

/-- `data_compare`: the tombstone `none` is below every payload; payloads by
length, then bytewise. -/
def dataCompare : Option Bytes → Option Bytes → Ordering
  | none, none => .eq
  | none, some _ => .lt
  | some _, none => .gt
  | some x, some y => if x.length ≠ y.length then cmp x.length y.length else cmp x y

structure LwwCell where
  timestamp : U32
  /-- `none` is the component tombstone. -/
  data : Option Bytes

/-- The comparison of `lww_set` on an occupied cell. -/
def LwwCell.accepts (new cur : LwwCell) : Bool :=
  match cmp new.timestamp cur.timestamp with
  | .gt => true
  | .lt => false
  | .eq => dataCompare new.data cur.data == .gt

namespace LwwCell

/-- The order that `accepts` decides: timestamp, then tombstone below payload,
then payload length, then bytes. -/
def lex (c : LwwCell) : U32 ×ₗ WithBot (ℕ ×ₗ Bytes) :=
  toLex (c.timestamp, WithBot.map (fun d => toLex (d.length, d)) c.data)

theorem lex_injective : Function.Injective lex := by
  intro a b h
  obtain ⟨ta, da⟩ := a
  obtain ⟨tb, db⟩ := b
  have hp := toLex.injective h
  have ht : ta = tb := congrArg Prod.fst hp
  have hd := congrArg Prod.snd hp
  have hinj : Function.Injective fun d : Bytes => (toLex (d.length, d) : ℕ ×ₗ Bytes) :=
    fun x y hxy => congrArg Prod.snd (toLex.injective hxy)
  have hdd : da = db := WithBot.map_injective hinj hd
  rw [ht, hdd]

instance : LinearOrder LwwCell := LinearOrder.lift' lex lex_injective

theorem dataCompare_gt_iff (x y : Option Bytes) : dataCompare x y = .gt ↔
    WithBot.map (fun d : Bytes => (toLex (d.length, d) : ℕ ×ₗ Bytes)) y <
      WithBot.map (fun d : Bytes => (toLex (d.length, d) : ℕ ×ₗ Bytes)) x := by
  cases x with
  | none =>
    have hbot : ¬ WithBot.map (fun d : Bytes => (toLex (d.length, d) : ℕ ×ₗ Bytes)) y <
        (⊥ : WithBot (ℕ ×ₗ Bytes)) := not_lt_bot
    have hne : dataCompare none y ≠ .gt := by cases y <;> simp [dataCompare]
    exact iff_of_false hne hbot
  | some x =>
    cases y with
    | none => exact iff_of_true rfl (WithBot.bot_lt_coe _)
    | some y =>
      have hc : WithBot.map (fun d : Bytes => (toLex (d.length, d) : ℕ ×ₗ Bytes)) (some y) <
          WithBot.map (fun d : Bytes => (toLex (d.length, d) : ℕ ×ₗ Bytes)) (some x) ↔
          y.length < x.length ∨ y.length = x.length ∧ y < x := by
        refine WithBot.coe_lt_coe.trans ?_
        simp only [Prod.Lex.toLex_lt_toLex]
      have hbytes : cmp x y = .gt ↔ y < x := by
        simp only [cmp, cmpUsing]
        split
        · rename_i hlt
          simp [lt_asymm hlt]
        · split <;> simp_all
      rw [hc]
      simp only [dataCompare]
      split
      · rename_i hne
        rw [cmp_eq_gt_iff]
        omega
      · rename_i heq
        rw [hbytes]
        have hlen : y.length = x.length := (not_not.mp heq).symm
        simp [hlen]

/-- A write replaces the stored cell exactly when it is the larger one. -/
theorem accepts_iff (new cur : LwwCell) : new.accepts cur = true ↔ cur < new := by
  have hlt : cur < new ↔ cur.timestamp < new.timestamp ∨ cur.timestamp = new.timestamp ∧
      dataCompare new.data cur.data = .gt := by
    rw [dataCompare_gt_iff]
    show cur.lex < new.lex ↔ _
    simp only [lex, Prod.Lex.toLex_lt_toLex]
  rw [hlt]
  unfold accepts
  cases h : cmp new.timestamp cur.timestamp with
  | lt =>
    have hts := cmp_eq_lt_iff _ _ |>.mp h
    simp [not_lt.mpr hts.le, (ne_of_lt hts).symm]
  | eq =>
    have hts := cmp_eq_eq_iff _ _ |>.mp h
    simp [hts]
  | gt =>
    have hts := cmp_eq_gt_iff _ _ |>.mp h
    simp [hts]

end LwwCell

/-! ### The engine -/

/-- A cap read from a `usize`; `none` is `usize::MAX`, which the length of a
map never exceeds. -/
abbrev Cap := Option ℕ

def Cap.exceededBy (cap : Cap) (len : ℕ) : Bool :=
  match cap with
  | none => false
  | some n => decide (n < len)

def Cap.reachedBy (cap : Cap) (len : ℕ) : Bool :=
  match cap with
  | none => false
  | some n => decide (n ≤ len)

inductive ApplyResult where
  | applied
  | ignored
  deriving DecidableEq

structure CrdtEngine where
  lww : OrdMap CellKey LwwCell
  /-- Appended payloads in arrival order, newest last. -/
  appends : OrdMap CellKey (List Bytes)
  /-- Entity number to the highest generation known removed. -/
  deleted : OrdMap U16 U16
  maxComponents : Cap
  maxAppendChannels : Cap

def MAX_ENTITY_NUMBERS : ℕ := 65536
def MAX_APPEND_VALUES_PER_CHANNEL : ℕ := 100

namespace CrdtEngine

def new : CrdtEngine := ⟨∅, ∅, ∅, none, none⟩

def withCap (maxComponents : ℕ) : CrdtEngine :=
  { new with
    maxComponents := some (max maxComponents 1)
    maxAppendChannels := some (max (max maxComponents 1 / MAX_APPEND_VALUES_PER_CHANNEL) 1) }

def isDead (e : CrdtEngine) (entity : U32) : Bool :=
  match e.deleted[entityNumber entity]? with
  | some removed => decide (entityGeneration entity ≤ removed)
  | none => false

/-- Drop every stored cell for generations `0..=generation` of `number`. -/
def purge (e : CrdtEngine) (number generation : U16) : CrdtEngine :=
  let lo : CellKey := ⟨number, 0, 0⟩
  let hi : CellKey := ⟨number, generation, u32Max⟩
  { e with
    lww := OrdMap.eraseAll e.lww ((OrdMap.range e.lww lo hi).map Prod.fst)
    appends := OrdMap.eraseAll e.appends ((OrdMap.range e.appends lo hi).map Prod.fst) }

/-- `tombstone`: whether the high-water mark was raised, and the engine after. -/
def tombstone (e : CrdtEngine) (entity : U32) : Bool × CrdtEngine :=
  let number := entityNumber entity
  let generation := entityGeneration entity
  if e.isDead entity then (false, e)
  else (true, ({ e with deleted := e.deleted.insert number generation }).purge number generation)

/-- Evict the largest key of an over-full store; whether `inserted` survived. -/
def enforceCellCap (e : CrdtEngine) (inserted : CellKey) : Bool × CrdtEngine :=
  if e.maxComponents.exceededBy e.lww.size then
    match OrdMap.lastKey e.lww with
    | some largest => (decide (largest ≠ inserted), { e with lww := e.lww.erase largest })
    | none => (true, e)
  else (true, e)

def lwwSet (e : CrdtEngine) (entity componentId timestamp : U32) (data : Option Bytes) :
    ApplyResult × CrdtEngine :=
  let key := cellKey entity componentId
  let cell : LwwCell := ⟨timestamp, data⟩
  match e.lww[key]? with
  | none =>
    let r := ({ e with lww := e.lww.insert key cell }).enforceCellCap key
    (if r.1 then .applied else .ignored, r.2)
  | some cur =>
    if cell.accepts cur then (.applied, { e with lww := e.lww.insert key cell })
    else (.ignored, e)

/-- Push onto one grow-only channel, keeping its newest values. -/
def pushValue (e : CrdtEngine) (key : CellKey) (data : Bytes) : CrdtEngine :=
  let channel := (e.appends[key]?).getD []
  let kept := if MAX_APPEND_VALUES_PER_CHANNEL ≤ channel.length then channel.tail else channel
  { e with appends := e.appends.insert key (kept ++ [data]) }

def append (e : CrdtEngine) (entity componentId : U32) (data : Bytes) :
    ApplyResult × CrdtEngine :=
  let key := cellKey entity componentId
  if (e.appends[key]?).isNone && e.maxAppendChannels.reachedBy e.appends.size then
    match OrdMap.lastKey e.appends with
    | some largest =>
      if key < largest then
        (.applied, ({ e with appends := e.appends.erase largest }).pushValue key data)
      else (.applied, e)
    | none => (.applied, e.pushValue key data)
  else (.applied, e.pushValue key data)

def apply (e : CrdtEngine) (msg : CrdtMessage) : ApplyResult × CrdtEngine :=
  if e.isDead msg.entity then (.ignored, e)
  else match msg with
    | .deleteEntity entity =>
      let r := e.tombstone entity
      (if r.1 then .applied else .ignored, r.2)
    | .put entity componentId timestamp data => e.lwwSet entity componentId timestamp (some data)
    | .deleteComponent entity componentId timestamp =>
      e.lwwSet entity componentId timestamp none
    | .append entity componentId _ data => e.append entity componentId data

/-- The accepted messages of a batch, in order, and the engine after it. -/
def applyBatch : CrdtEngine → List CrdtMessage → List CrdtMessage × CrdtEngine
  | e, [] => ([], e)
  | e, m :: msgs =>
    let r := e.apply m
    let rest := r.2.applyBatch msgs
    (if r.1 = .applied then m :: rest.1 else rest.1, rest.2)

/-- The engine after applying the messages one at a time. -/
def applyAll (e : CrdtEngine) (msgs : List CrdtMessage) : CrdtEngine :=
  msgs.foldl (fun e m => (e.apply m).2) e

/-! ### Snapshot and reclaim -/

def removalMessage (entry : U16 × U16) : CrdtMessage :=
  .deleteEntity (packEntity entry.1 entry.2)

def cellMessage (entry : CellKey × LwwCell) : CrdtMessage :=
  let entity := packEntity entry.1.number entry.1.generation
  match entry.2.data with
  | some data => .put entity entry.1.componentId entry.2.timestamp data
  | none => .deleteComponent entity entry.1.componentId entry.2.timestamp

/-- The messages of `snapshot`: removals first, then the cells, in key order. -/
def snapshotMessages (e : CrdtEngine) : List CrdtMessage :=
  e.deleted.toList.map removalMessage ++ e.lww.toList.map cellMessage

def snapshot (e : CrdtEngine) : Bytes := encodeBatch e.snapshotMessages

def wrap16 (n : ℕ) : U16 := ⟨n % 65536, Nat.mod_lt _ (by norm_num)⟩

/-- Raise the victim generation of the key's number to the key's generation. -/
def noteVictim (victims : OrdMap U16 U16) (key : CellKey) : OrdMap U16 U16 :=
  victims.insert key.number
    (match victims[key.number]? with
    | some generation => max generation key.generation
    | none => key.generation)

/-- Highest generation seen per number in `[lo, hi)`, across both stores. -/
def victims (e : CrdtEngine) (lo hi : ℕ) : OrdMap U16 U16 :=
  let loKey : CellKey := ⟨wrap16 lo, 0, 0⟩
  let hiKey : CellKey := ⟨wrap16 (hi - 1), u16Max, u32Max⟩
  ((OrdMap.range e.lww loKey hiKey).map Prod.fst ++
    (OrdMap.range e.appends loKey hiKey).map Prod.fst).foldl noteVictim ∅

/-- `reclaim_range`: kill every entity number of `[start, start + size)` that
has a stored cell, and return the removals to relay. -/
def reclaimRange (e : CrdtEngine) (start size : U32) : List CrdtMessage × CrdtEngine :=
  let lo := min start.val MAX_ENTITY_NUMBERS
  let hi := min (saturatingAdd start size) MAX_ENTITY_NUMBERS
  if hi ≤ lo then ([], e)
  else
    let out := (e.victims lo hi).toList
    (out.map removalMessage,
      out.foldl (fun e v => (e.tombstone (packEntity v.1 v.2)).2) e)

/-! ### What each operation does to the stores -/

theorem isDead_iff (e : CrdtEngine) (entity : U32) : e.isDead entity = true ↔
    ∃ r, e.deleted[entityNumber entity]? = some r ∧ entityGeneration entity ≤ r := by
  unfold isDead
  cases h : e.deleted[entityNumber entity]? with
  | none => simp
  | some r => simp

theorem find_purge_lww (e : CrdtEngine) (number generation : U16) (k : CellKey) :
    (e.purge number generation).lww[k]? =
      if k.number = number ∧ k.generation ≤ generation then none else e.lww[k]? := by
  simp only [purge, OrdMap.find_eraseRange, CellKey.between_iff]

theorem find_purge_appends (e : CrdtEngine) (number generation : U16) (k : CellKey) :
    (e.purge number generation).appends[k]? =
      if k.number = number ∧ k.generation ≤ generation then none else e.appends[k]? := by
  simp only [purge, OrdMap.find_eraseRange, CellKey.between_iff]

theorem tombstone_dead {e : CrdtEngine} {entity : U32} (h : e.isDead entity = true) :
    e.tombstone entity = (false, e) := by
  simp only [tombstone, h, if_true]

theorem tombstone_alive {e : CrdtEngine} {entity : U32} (h : e.isDead entity = false) :
    e.tombstone entity = (true,
      ({ e with
        deleted := e.deleted.insert (entityNumber entity) (entityGeneration entity) }).purge
        (entityNumber entity) (entityGeneration entity)) := by
  simp only [tombstone, h, Bool.false_eq_true, if_false]

theorem apply_dead {e : CrdtEngine} {m : CrdtMessage} (h : e.isDead m.entity = true) :
    e.apply m = (.ignored, e) := by
  simp only [apply, h, if_true]

/-- A removal goes through `tombstone` whether or not it carries news. -/
theorem apply_deleteEntity_snd (e : CrdtEngine) (entity : U32) :
    (e.apply (.deleteEntity entity)).2 = (e.tombstone entity).2 := by
  cases h : e.isDead entity with
  | true =>
    have hd : e.isDead (CrdtMessage.deleteEntity entity).entity = true := h
    rw [apply_dead hd, tombstone_dead h]
  | false => simp only [apply, CrdtMessage.entity, h, Bool.false_eq_true, if_false]

/-- An append touches the append channels only, and is always accepted. -/
theorem append_frame (e : CrdtEngine) (entity componentId : U32) (data : Bytes) :
    (e.append entity componentId data).1 = .applied ∧
    (e.append entity componentId data).2.lww = e.lww ∧
    (e.append entity componentId data).2.deleted = e.deleted ∧
    (e.append entity componentId data).2.maxComponents = e.maxComponents := by
  unfold append
  dsimp only
  split
  · split
    · split
      · exact ⟨rfl, rfl, rfl, rfl⟩
      · exact ⟨rfl, rfl, rfl, rfl⟩
    · exact ⟨rfl, rfl, rfl, rfl⟩
  · exact ⟨rfl, rfl, rfl, rfl⟩

theorem enforceCellCap_frame (e : CrdtEngine) (inserted : CellKey) :
    (e.enforceCellCap inserted).2.appends = e.appends ∧
    (e.enforceCellCap inserted).2.deleted = e.deleted ∧
    (e.enforceCellCap inserted).2.maxComponents = e.maxComponents := by
  unfold enforceCellCap
  split
  · split
    · exact ⟨rfl, rfl, rfl⟩
    · exact ⟨rfl, rfl, rfl⟩
  · exact ⟨rfl, rfl, rfl⟩

/-- A cell write touches the cells only. -/
theorem lwwSet_frame (e : CrdtEngine) (entity componentId timestamp : U32) (data : Option Bytes) :
    (e.lwwSet entity componentId timestamp data).2.appends = e.appends ∧
    (e.lwwSet entity componentId timestamp data).2.deleted = e.deleted ∧
    (e.lwwSet entity componentId timestamp data).2.maxComponents = e.maxComponents := by
  unfold lwwSet
  dsimp only
  split
  · exact enforceCellCap_frame _ _
  · split
    · exact ⟨rfl, rfl, rfl⟩
    · exact ⟨rfl, rfl, rfl⟩

theorem tombstone_maxComponents (e : CrdtEngine) (entity : U32) :
    (e.tombstone entity).2.maxComponents = e.maxComponents := by
  cases h : e.isDead entity with
  | true => rw [tombstone_dead h]
  | false => rw [tombstone_alive h, purge]

theorem apply_maxComponents (e : CrdtEngine) (m : CrdtMessage) :
    (e.apply m).2.maxComponents = e.maxComponents := by
  cases h : e.isDead m.entity with
  | true => rw [apply_dead h]
  | false =>
    cases m with
    | put entity componentId timestamp data =>
      simp only [apply, h, Bool.false_eq_true, if_false]
      exact (lwwSet_frame _ _ _ _ _).2.2
    | deleteComponent entity componentId timestamp =>
      simp only [apply, h, Bool.false_eq_true, if_false]
      exact (lwwSet_frame _ _ _ _ _).2.2
    | deleteEntity entity =>
      rw [apply_deleteEntity_snd]
      exact tombstone_maxComponents e entity
    | append entity componentId timestamp data =>
      simp only [apply, h, Bool.false_eq_true, if_false]
      exact (append_frame _ _ _ _).2.2.2

@[simp] theorem applyAll_cons (e : CrdtEngine) (m : CrdtMessage) (msgs : List CrdtMessage) :
    e.applyAll (m :: msgs) = (e.apply m).2.applyAll msgs := rfl

theorem applyAll_append (e : CrdtEngine) (a b : List CrdtMessage) :
    e.applyAll (a ++ b) = (e.applyAll a).applyAll b := List.foldl_append

theorem applyAll_maxComponents (e : CrdtEngine) (msgs : List CrdtMessage) :
    (e.applyAll msgs).maxComponents = e.maxComponents := by
  induction msgs generalizing e with
  | nil => rfl
  | cons m msgs ih => rw [applyAll_cons, ih, apply_maxComponents]

/-- A batch leaves the engine where its messages applied one at a time do. -/
theorem applyBatch_snd (e : CrdtEngine) (msgs : List CrdtMessage) :
    (e.applyBatch msgs).2 = e.applyAll msgs := by
  induction msgs generalizing e with
  | nil => rfl
  | cons m msgs ih => exact ih _

/-- The accepted messages are among the messages of the batch. -/
theorem applyBatch_fst_subset (e : CrdtEngine) (msgs : List CrdtMessage) :
    (e.applyBatch msgs).1 ⊆ msgs := by
  induction msgs generalizing e with
  | nil => exact List.Subset.refl _
  | cons m msgs ih =>
    simp only [applyBatch]
    split
    · exact List.cons_subset_cons m (ih _)
    · exact List.subset_cons_of_subset m (ih _)

/-- A reclaim is the application of the removals it returns. -/
theorem reclaimRange_snd (e : CrdtEngine) (start size : U32) :
    (e.reclaimRange start size).2 = e.applyAll (e.reclaimRange start size).1 := by
  unfold reclaimRange
  dsimp only
  split
  · rfl
  · rw [applyAll, List.foldl_map]
    simp only [removalMessage, apply_deleteEntity_snd]

end CrdtEngine

end Catalyrst.SceneState
