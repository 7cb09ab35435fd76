import Catalyrst.SceneState.Crdt.Replica

/-!
# Which entity numbers an operation touches

Without caps a message changes nothing outside the entity number it names, and
`reclaim_range` kills exactly the stored entities of its range.
-/

namespace Catalyrst.SceneState
open Catalyrst.Lib CrdtEngine Replica

namespace CrdtEngine

/-- The caps of `CrdtEngine::new`. -/
structure Uncapped (e : CrdtEngine) : Prop where
  components : e.maxComponents = none
  channels : e.maxAppendChannels = none

theorem new_uncapped : new.Uncapped := ⟨rfl, rfl⟩

/-- Two engines that store the same under one entity number. -/
structure SameAt (number : U16) (e f : CrdtEngine) : Prop where
  deleted : f.deleted[number]? = e.deleted[number]?
  lww : ∀ k : CellKey, k.number = number → f.lww[k]? = e.lww[k]?
  appends : ∀ k : CellKey, k.number = number → f.appends[k]? = e.appends[k]?

theorem SameAt.refl (number : U16) (e : CrdtEngine) : SameAt number e e :=
  ⟨rfl, fun _ _ => rfl, fun _ _ => rfl⟩

theorem SameAt.trans {number : U16} {e f g : CrdtEngine} (h : SameAt number e f)
    (h' : SameAt number f g) : SameAt number e g :=
  ⟨h'.deleted.trans h.deleted, fun k hk => (h'.lww k hk).trans (h.lww k hk),
    fun k hk => (h'.appends k hk).trans (h.appends k hk)⟩

theorem SameAt.isDead {e f : CrdtEngine} {entity : U32}
    (h : SameAt (entityNumber entity) e f) : f.isDead entity = e.isDead entity := by
  simp only [CrdtEngine.isDead, h.deleted]

/-! ### One message -/

theorem tombstone_sameAt (e : CrdtEngine) {entity : U32} {number : U16}
    (hn : number ≠ entityNumber entity) : SameAt number e (e.tombstone entity).2 := by
  cases h : e.isDead entity with
  | true =>
    rw [tombstone_dead h]
    exact SameAt.refl number e
  | false =>
    rw [tombstone_alive h]
    refine ⟨?_, fun k hk => ?_, fun k hk => ?_⟩
    · simp only [purge, OrdMap.find_insert, if_neg hn.symm]
    · have hout : ¬ (k.number = entityNumber entity ∧ k.generation ≤ entityGeneration entity) :=
        fun hin => hn (hk ▸ hin.1)
      rw [find_purge_lww, if_neg hout]
    · have hout : ¬ (k.number = entityNumber entity ∧ k.generation ≤ entityGeneration entity) :=
        fun hin => hn (hk ▸ hin.1)
      rw [find_purge_appends, if_neg hout]

theorem tombstone_uncapped {e : CrdtEngine} (hu : e.Uncapped) (entity : U32) :
    (e.tombstone entity).2.Uncapped := by
  cases h : e.isDead entity with
  | true =>
    rw [tombstone_dead h]
    exact hu
  | false =>
    rw [tombstone_alive h]
    exact ⟨hu.components, hu.channels⟩

theorem enforceCellCap_channels (e : CrdtEngine) (inserted : CellKey) :
    (e.enforceCellCap inserted).2.maxAppendChannels = e.maxAppendChannels := by
  unfold enforceCellCap
  split
  · split
    · rfl
    · rfl
  · rfl

theorem lwwSet_uncapped {e : CrdtEngine} (hu : e.Uncapped) (entity componentId timestamp : U32)
    (data : Option Bytes) : (e.lwwSet entity componentId timestamp data).2.Uncapped := by
  refine ⟨(lwwSet_frame e entity componentId timestamp data).2.2.trans hu.components, ?_⟩
  unfold lwwSet
  dsimp only
  split
  · exact (enforceCellCap_channels _ _).trans hu.channels
  · split
    · exact hu.channels
    · exact hu.channels

theorem lwwSet_sameAt {e : CrdtEngine} (hu : e.Uncapped) {entity : U32} {number : U16}
    (hn : number ≠ entityNumber entity) (componentId timestamp : U32) (data : Option Bytes) :
    SameAt number e (e.lwwSet entity componentId timestamp data).2 := by
  obtain ⟨happends, hdeleted, _⟩ := lwwSet_frame e entity componentId timestamp data
  refine ⟨by rw [hdeleted], fun k hk => ?_, fun k _ => by rw [happends]⟩
  have hcell := cell_lwwSet hu.components entity componentId timestamp data k
  have hne : k ≠ cellKey entity componentId := by
    rintro rfl
    exact hn hk.symm
  simp only [write, if_neg hne, sup_bot_eq] at hcell
  exact hcell

/-- Without a channel cap an append always pushes. -/
theorem append_uncapped {e : CrdtEngine} (hu : e.Uncapped) (entity componentId : U32)
    (data : Bytes) : e.append entity componentId data =
      (.applied, e.pushValue (cellKey entity componentId) data) := by
  simp only [append, hu.channels, Cap.reachedBy, Bool.and_false, Bool.false_eq_true, if_false]

theorem append_sameAt {e : CrdtEngine} (hu : e.Uncapped) {entity : U32} {number : U16}
    (hn : number ≠ entityNumber entity) (componentId : U32) (data : Bytes) :
    SameAt number e (e.append entity componentId data).2 := by
  rw [append_uncapped hu]
  refine ⟨rfl, fun _ _ => rfl, fun k hk => ?_⟩
  have hne : cellKey entity componentId ≠ k := by
    rintro rfl
    exact hn hk.symm
  simp only [pushValue, OrdMap.find_insert, if_neg hne]

theorem apply_uncapped {e : CrdtEngine} (hu : e.Uncapped) (m : CrdtMessage) :
    (e.apply m).2.Uncapped := by
  cases h : e.isDead m.entity with
  | true =>
    rw [apply_dead h]
    exact hu
  | false =>
    simp only [apply, h, Bool.false_eq_true, if_false]
    cases m with
    | put entity componentId timestamp data => exact lwwSet_uncapped hu _ _ _ _
    | deleteComponent entity componentId timestamp => exact lwwSet_uncapped hu _ _ _ _
    | deleteEntity entity => exact tombstone_uncapped hu entity
    | append entity componentId timestamp data =>
      dsimp only
      rw [append_uncapped hu]
      exact ⟨hu.components, hu.channels⟩

theorem apply_sameAt {e : CrdtEngine} (hu : e.Uncapped) {m : CrdtMessage} {number : U16}
    (hn : number ≠ entityNumber m.entity) : SameAt number e (e.apply m).2 := by
  cases h : e.isDead m.entity with
  | true =>
    rw [apply_dead h]
    exact SameAt.refl number e
  | false =>
    simp only [apply, h, Bool.false_eq_true, if_false]
    cases m with
    | put entity componentId timestamp data => exact lwwSet_sameAt hu hn _ _ _
    | deleteComponent entity componentId timestamp => exact lwwSet_sameAt hu hn _ _ _
    | deleteEntity entity => exact tombstone_sameAt e hn
    | append entity componentId timestamp data => exact append_sameAt hu hn _ _

/-- Without a cap an ignored message leaves the engine as it is. -/
theorem apply_ignored {e : CrdtEngine} (hu : e.Uncapped) {m : CrdtMessage}
    (h : (e.apply m).1 ≠ .applied) : (e.apply m).2 = e := by
  cases hd : e.isDead m.entity with
  | true => rw [apply_dead hd]
  | false =>
    have hset : ∀ (entity componentId timestamp : U32) (data : Option Bytes),
        (e.lwwSet entity componentId timestamp data).1 ≠ .applied →
        (e.lwwSet entity componentId timestamp data).2 = e := by
      intro entity componentId timestamp data hne
      simp only [lwwSet, enforceCellCap, hu.components, Cap.exceededBy, Bool.false_eq_true,
        if_false] at hne ⊢
      cases hcur : e.lww[cellKey entity componentId]? with
      | none =>
        rw [hcur] at hne
        exact absurd rfl hne
      | some cur =>
        rw [hcur] at hne
        dsimp only at hne ⊢
        split at hne
        · exact absurd rfl hne
        · rename_i hacc
          rw [if_neg hacc]
    simp only [apply, hd, Bool.false_eq_true, if_false] at h ⊢
    cases m with
    | put entity componentId timestamp data => exact hset _ _ _ _ h
    | deleteComponent entity componentId timestamp => exact hset _ _ _ _ h
    | deleteEntity entity =>
      dsimp only at h ⊢
      rw [show e.tombstone entity = _ from tombstone_alive hd] at h
      exact absurd rfl h
    | append entity componentId timestamp data =>
      exact absurd (append_frame e entity componentId data).1 h

/-- The accepted messages alone lead to the same engine. -/
theorem applyAll_accepted {e : CrdtEngine} (hu : e.Uncapped) (msgs : List CrdtMessage) :
    e.applyAll (e.applyBatch msgs).1 = e.applyAll msgs := by
  induction msgs generalizing e with
  | nil => rfl
  | cons m msgs ih =>
    simp only [applyBatch]
    split
    · exact ih (apply_uncapped hu m)
    · rename_i hne
      have hsame := apply_ignored hu hne
      rw [applyAll_cons, hsame]
      exact ih hu

theorem applyAll_uncapped {e : CrdtEngine} (hu : e.Uncapped) (msgs : List CrdtMessage) :
    (e.applyAll msgs).Uncapped := by
  induction msgs generalizing e with
  | nil => exact hu
  | cons m msgs ih => exact ih (apply_uncapped hu m)

theorem applyAll_sameAt {e : CrdtEngine} (hu : e.Uncapped) {msgs : List CrdtMessage}
    {number : U16} (hn : ∀ m ∈ msgs, number ≠ entityNumber m.entity) :
    SameAt number e (e.applyAll msgs) := by
  induction msgs generalizing e with
  | nil => exact SameAt.refl number e
  | cons m msgs ih =>
    have hm := apply_sameAt hu (hn m (List.mem_cons_self ..))
    exact hm.trans (ih (apply_uncapped hu m) fun x hx => hn x (List.mem_cons_of_mem _ hx))

/-! ### The same message on two engines that agree on its number -/

section Congruence

variable {number : U16} {e f : CrdtEngine}

theorem SameAt.tombstone (h : SameAt number e f) {entity : U32} (hn : entityNumber entity = number) :
    SameAt number (e.tombstone entity).2 (f.tombstone entity).2 := by
  subst hn
  have hdead := h.isDead
  cases hd : e.isDead entity with
  | true =>
    rw [hd] at hdead
    rw [tombstone_dead hd, tombstone_dead hdead]
    exact h
  | false =>
    rw [hd] at hdead
    rw [tombstone_alive hd, tombstone_alive hdead]
    refine ⟨?_, fun k hk => ?_, fun k hk => ?_⟩
    · simp only [purge, OrdMap.find_insert, if_true]
    · rw [find_purge_lww, find_purge_lww]
      split
      · rfl
      · exact h.lww k hk
    · rw [find_purge_appends, find_purge_appends]
      split
      · rfl
      · exact h.appends k hk

theorem SameAt.lwwSet (h : SameAt number e f) (he : e.Uncapped) (hf : f.Uncapped) {entity : U32}
    (componentId timestamp : U32) (data : Option Bytes) :
    SameAt number (e.lwwSet entity componentId timestamp data).2
      (f.lwwSet entity componentId timestamp data).2 := by
  obtain ⟨hea, hed, _⟩ := lwwSet_frame e entity componentId timestamp data
  obtain ⟨hfa, hfd, _⟩ := lwwSet_frame f entity componentId timestamp data
  refine ⟨?_, fun k hk => ?_, fun k hk => ?_⟩
  · rw [hed, hfd]
    exact h.deleted
  · have hce := cell_lwwSet he.components entity componentId timestamp data k
    have hcf := cell_lwwSet hf.components entity componentId timestamp data k
    have hsame : f.cell k = e.cell k := h.lww k hk
    rw [hsame] at hcf
    exact hcf.trans hce.symm
  · rw [hea, hfa]
    exact h.appends k hk

theorem SameAt.append (h : SameAt number e f) (he : e.Uncapped) (hf : f.Uncapped) {entity : U32}
    (hn : entityNumber entity = number) (componentId : U32) (data : Bytes) :
    SameAt number (e.append entity componentId data).2 (f.append entity componentId data).2 := by
  rw [append_uncapped he, append_uncapped hf]
  refine ⟨h.deleted, h.lww, fun k hk => ?_⟩
  have hkey := h.appends (cellKey entity componentId) hn
  simp only [pushValue, OrdMap.find_insert, hkey]
  split
  · rfl
  · exact h.appends k hk

theorem SameAt.apply (h : SameAt number e f) (he : e.Uncapped) (hf : f.Uncapped)
    (m : CrdtMessage) : SameAt number (e.apply m).2 (f.apply m).2 := by
  by_cases hn : entityNumber m.entity = number
  · have hdead : f.isDead m.entity = e.isDead m.entity := by
      subst hn
      exact h.isDead
    cases hd : e.isDead m.entity with
    | true =>
      rw [hd] at hdead
      rw [apply_dead hd, apply_dead hdead]
      exact h
    | false =>
      rw [hd] at hdead
      simp only [CrdtEngine.apply, hd, hdead, Bool.false_eq_true, if_false]
      cases m with
      | put entity componentId timestamp data => exact h.lwwSet he hf componentId timestamp _
      | deleteComponent entity componentId timestamp =>
        exact h.lwwSet he hf componentId timestamp none
      | deleteEntity entity => exact h.tombstone hn
      | append entity componentId timestamp data => exact h.append he hf hn componentId data
  · -- a message for another number changes neither
    have hout := apply_sameAt he (Ne.symm hn)
    have hback : SameAt number (e.apply m).2 e :=
      ⟨hout.deleted.symm, fun k hk => (hout.lww k hk).symm, fun k hk => (hout.appends k hk).symm⟩
    exact (hback.trans h).trans (apply_sameAt hf (Ne.symm hn))

theorem SameAt.applyAll (h : SameAt number e f) (he : e.Uncapped) (hf : f.Uncapped)
    (msgs : List CrdtMessage) : SameAt number (e.applyAll msgs) (f.applyAll msgs) := by
  induction msgs generalizing e f with
  | nil => exact h
  | cons m msgs ih => exact ih (h.apply he hf m) (apply_uncapped he m) (apply_uncapped hf m)

end Congruence

/-! ### Reclaiming a range -/

theorem noteVictim_find (victims : OrdMap U16 U16) (key : CellKey) (number : U16) :
    (noteVictim victims key)[number]? =
      if key.number = number then
        some (match victims[number]? with
          | some generation => max generation key.generation
          | none => key.generation)
      else victims[number]? := by
  by_cases h : key.number = number
  · subst h
    unfold noteVictim
    exact (OrdMap.find_insert _ _ _ _).trans ((if_pos rfl).trans (if_pos rfl).symm)
  · simp only [noteVictim, OrdMap.find_insert, if_neg h]

/-- The victims so far only grow. -/
theorem foldl_noteVictim_ge (keys : List CellKey) (victims : OrdMap U16 U16) (number g : U16)
    (h : victims[number]? = some g) :
    ∃ g', (keys.foldl noteVictim victims)[number]? = some g' ∧ g ≤ g' := by
  induction keys generalizing victims g with
  | nil => exact ⟨g, h, le_rfl⟩
  | cons key keys ih =>
    by_cases hk : key.number = number
    · have hstep : (noteVictim victims key)[number]? = some (max g key.generation) := by
        rw [noteVictim_find, if_pos hk, h]
      obtain ⟨g', hg', hle⟩ := ih (noteVictim victims key) _ hstep
      exact ⟨g', hg', (le_max_left _ _).trans hle⟩
    · have hstep : (noteVictim victims key)[number]? = some g := by
        rw [noteVictim_find, if_neg hk, h]
      exact ih (noteVictim victims key) g hstep

theorem foldl_noteVictim_covers (keys : List CellKey) (victims : OrdMap U16 U16) {key : CellKey}
    (h : key ∈ keys) :
    ∃ g, (keys.foldl noteVictim victims)[key.number]? = some g ∧ key.generation ≤ g := by
  induction keys generalizing victims with
  | nil => cases h
  | cons q keys ih =>
    rcases List.mem_cons.mp h with rfl | hin
    · have hstep : ∃ g, (noteVictim victims key)[key.number]? = some g ∧ key.generation ≤ g := by
        rw [noteVictim_find, if_pos rfl]
        cases victims[key.number]? with
        | none => exact ⟨key.generation, rfl, le_rfl⟩
        | some g => exact ⟨max g key.generation, rfl, le_max_right _ _⟩
      obtain ⟨g, hg, hle⟩ := hstep
      obtain ⟨g', hg', hle'⟩ := foldl_noteVictim_ge keys _ key.number g hg
      exact ⟨g', hg', hle.trans hle'⟩
    · exact ih (noteVictim victims q) hin

theorem foldl_noteVictim_origin (keys : List CellKey) (victims : OrdMap U16 U16) {number g : U16}
    (h : (keys.foldl noteVictim victims)[number]? = some g) :
    victims[number]? = some g ∨ ∃ key ∈ keys, key.number = number ∧ key.generation = g := by
  induction keys generalizing victims with
  | nil => exact Or.inl h
  | cons key keys ih =>
    rcases ih (noteVictim victims key) h with hv | ⟨q, hq, hqn⟩
    · rw [noteVictim_find] at hv
      split at hv
      · rename_i hk
        have hhere : ∃ q ∈ key :: keys, q.number = number ∧ q.generation = key.generation :=
          ⟨key, List.mem_cons_self .., hk, rfl⟩
        cases hold : victims[number]? with
        | none =>
          rw [hold] at hv
          rw [← Option.some.inj hv]
          exact Or.inr hhere
        | some g' =>
          rw [hold] at hv
          rcases max_choice g' key.generation with hmax | hmax
          · left
            rw [← Option.some.inj hv]
            exact congrArg some hmax.symm
          · right
            rw [← Option.some.inj hv]
            simpa only [hmax] using hhere
      · exact Or.inl hv
    · exact Or.inr ⟨q, List.mem_cons_of_mem _ hq, hqn⟩

/-- The key interval of a block of numbers. -/
theorem CellKey.numbers_iff (k : CellKey) (lo hi : U16) :
    (⟨lo, 0, 0⟩ : CellKey) ≤ k ∧ k ≤ ⟨hi, u16Max, u32Max⟩ ↔ lo ≤ k.number ∧ k.number ≤ hi := by
  have h0 : (0 : U16) ≤ k.generation := Fin.zero_le _
  have hc0 : (0 : U32) ≤ k.componentId := Fin.zero_le _
  have h1 := le_u16Max k.generation
  have hc1 := le_u32Max k.componentId
  simp only [CellKey.le_iff]
  refine and_congr ?_ ?_
  · constructor
    · rintro (h | ⟨h, _⟩)
      · exact h.le
      · exact h.le
    · intro h
      rcases h.lt_or_eq with h | h
      · exact Or.inl h
      · refine Or.inr ⟨h, ?_⟩
        rcases h0.lt_or_eq with hg | hg
        · exact Or.inl hg
        · exact Or.inr ⟨hg, hc0⟩
  · constructor
    · rintro (h | ⟨h, _⟩)
      · exact h.le
      · exact h.le
    · intro h
      rcases h.lt_or_eq with h | h
      · exact Or.inl h
      · refine Or.inr ⟨h, ?_⟩
        rcases h1.lt_or_eq with hg | hg
        · exact Or.inl hg
        · exact Or.inr ⟨hg, hc1⟩

/-- The keys of both stores whose number lies in a block. -/
theorem mem_victimKeys (e : CrdtEngine) {lo hi : ℕ} (hlo : lo < hi) (hhi : hi ≤ 65536)
    (k : CellKey) :
    k ∈ (OrdMap.range e.lww ⟨wrap16 lo, 0, 0⟩ ⟨wrap16 (hi - 1), u16Max, u32Max⟩).map Prod.fst ++
        (OrdMap.range e.appends ⟨wrap16 lo, 0, 0⟩ ⟨wrap16 (hi - 1), u16Max, u32Max⟩).map Prod.fst ↔
      (lo ≤ k.number.val ∧ k.number.val < hi) ∧
        ((∃ c, e.lww[k]? = some c) ∨ ∃ l, e.appends[k]? = some l) := by
  have hbounds : wrap16 lo ≤ k.number ∧ k.number ≤ wrap16 (hi - 1) ↔
      lo ≤ k.number.val ∧ k.number.val < hi := by
    have h1 : (wrap16 lo).val = lo := Nat.mod_eq_of_lt (by omega)
    have h2 : (wrap16 (hi - 1)).val = hi - 1 := Nat.mod_eq_of_lt (by omega)
    rw [Fin.le_def, Fin.le_def, h1, h2]
    omega
  simp only [List.mem_append, List.mem_map, Prod.exists, exists_and_right, exists_eq_right,
    OrdMap.mem_range, CellKey.numbers_iff, hbounds]
  constructor
  · rintro (⟨hc, hin⟩ | ⟨hl, hin⟩)
    · exact ⟨hin, Or.inl hc⟩
    · exact ⟨hin, Or.inr hl⟩
  · rintro ⟨hin, hc | hl⟩
    · exact Or.inl ⟨hc, hin⟩
    · exact Or.inr ⟨hl, hin⟩

/-- The numbers a reclaim covers. -/
def reclaims (start size : U32) (number : U16) : Prop :=
  start.val ≤ number.val ∧ number.val < saturatingAdd start size

/-- Every removal a reclaim returns names a stored entity of the range, at a
stored generation. -/
theorem reclaimRange_origin (e : CrdtEngine) (start size : U32) {m : CrdtMessage}
    (h : m ∈ (e.reclaimRange start size).1) : ∃ k : CellKey,
      m = .deleteEntity (packEntity k.number k.generation) ∧ reclaims start size k.number ∧
      ((∃ c, e.lww[k]? = some c) ∨ ∃ l, e.appends[k]? = some l) := by
  unfold reclaimRange at h
  dsimp only at h
  split at h
  · cases h
  · rename_i hlt
    obtain ⟨⟨number, g⟩, hin, rfl⟩ := List.mem_map.mp h
    have hspace : MAX_ENTITY_NUMBERS = 65536 := rfl
    have hfind := (OrdMap.mem_entries _ _ _).mp hin
    rcases foldl_noteVictim_origin _ _ hfind with hnone | ⟨k, hk, rfl, rfl⟩
    · rw [Std.ExtTreeMap.getElem?_empty] at hnone
      cases hnone
    · obtain ⟨hb, hstored⟩ := (mem_victimKeys e (by omega) (by omega) k).mp hk
      exact ⟨k, rfl, ⟨by omega, by omega⟩, hstored⟩

/-- Every stored entity of the range is removed by a message of the reclaim. -/
theorem reclaimRange_covers (e : CrdtEngine) (start size : U32) {k : CellKey}
    (hr : reclaims start size k.number)
    (hs : (∃ c, e.lww[k]? = some c) ∨ ∃ l, e.appends[k]? = some l) :
    ∃ g, k.generation ≤ g ∧
      .deleteEntity (packEntity k.number g) ∈ (e.reclaimRange start size).1 := by
  have hspace : MAX_ENTITY_NUMBERS = 65536 := rfl
  have hnum := k.number.isLt
  have hlt : min start.val MAX_ENTITY_NUMBERS <
      min (saturatingAdd start size) MAX_ENTITY_NUMBERS := by
    obtain ⟨hlo, hhi⟩ := hr
    omega
  have hk := (mem_victimKeys e hlt (by omega) k).mpr
    ⟨⟨by have := hr.1; omega, by have := hr.2; omega⟩, hs⟩
  obtain ⟨g, hg, hle⟩ := foldl_noteVictim_covers _ ∅ hk
  refine ⟨g, hle, ?_⟩
  unfold reclaimRange
  dsimp only
  rw [if_neg (not_le.mpr hlt)]
  exact List.mem_map.mpr ⟨(k.number, g), (OrdMap.mem_entries _ _ _).mpr hg, rfl⟩

theorem reclaimRange_sameAt {e : CrdtEngine} (hu : e.Uncapped) (start size : U32) {number : U16}
    (hn : ¬ reclaims start size number) : SameAt number e (e.reclaimRange start size).2 := by
  rw [reclaimRange_snd]
  refine applyAll_sameAt hu fun m hm heq => ?_
  obtain ⟨k, rfl, hk, _⟩ := reclaimRange_origin e start size hm
  simp only [CrdtMessage.entity, entityNumber_packEntity] at heq
  exact hn (heq ▸ hk)

theorem reclaimRange_uncapped {e : CrdtEngine} (hu : e.Uncapped) (start size : U32) :
    (e.reclaimRange start size).2.Uncapped := by
  rw [reclaimRange_snd]
  exact applyAll_uncapped hu _

theorem reclaimRange_live {e : CrdtEngine} (hu : e.Uncapped) (hl : e.Live) (start size : U32) :
    (e.reclaimRange start size).2.Live := by
  rw [reclaimRange_snd]
  exact applyAll_live hu.components hl _

/-- After a reclaim no cell of the range is left. -/
theorem reclaimRange_clears {e : CrdtEngine} (hu : e.Uncapped) (hl : e.Live) (start size : U32)
    {k : CellKey} (hr : reclaims start size k.number) :
    (e.reclaimRange start size).2.lww[k]? = none := by
  have hview := view_applyAll hu.components hl (e.reclaimRange start size).1
  rw [← reclaimRange_snd] at hview
  have hcell : (e.reclaimRange start size).2.cell k =
      (mask (e.view ⊔ joined (e.reclaimRange start size).1)).2 k :=
    congrFun (congrArg Prod.snd hview) k
  refine Eq.trans hcell ?_
  cases hc : e.lww[k]? with
  | some c =>
    obtain ⟨g, hle, hin⟩ := reclaimRange_covers e start size hr (Or.inl ⟨c, hc⟩)
    refine mask_of_masked (le_trans ?_ (le_sup_right (a := e.view.1 k.number)))
    have hd := (delta_le_joined hin).1 k.number
    simp only [delta, removal, entityNumber_packEntity, entityGeneration_packEntity,
      if_true] at hd
    exact (WithBot.coe_le_coe.mpr hle).trans hd
  | none =>
    by_cases hm : Masked (e.view ⊔ joined (e.reclaimRange start size).1).1 k
    · exact mask_of_masked hm
    · rw [mask_of_not_masked hm]
      show e.cell k ⊔ (joined (e.reclaimRange start size).1).2 k = ⊥
      rw [show e.cell k = ⊥ from hc, bot_sup_eq]
      -- a reclaim writes no cell
      refine le_bot_iff.mp ?_
      have hle : joined (e.reclaimRange start size).1 ≤
          ((joined (e.reclaimRange start size).1).1, ⊥) := by
        refine (MaskedJoin.joinAll_le _ _).mpr fun d hd => ?_
        obtain ⟨m, hin, rfl⟩ := List.mem_map.mp hd
        obtain ⟨q, rfl, _⟩ := reclaimRange_origin e start size hin
        exact ⟨(delta_le_joined hin).1, le_rfl⟩
      exact hle.2 k

end CrdtEngine

end Catalyrst.SceneState
