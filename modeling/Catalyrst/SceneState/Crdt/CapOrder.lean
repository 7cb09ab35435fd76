import Catalyrst.SceneState.Crdt.CellCap

/-!
# Order of arrival under a cell cap

The condition under which the cell cap keeps convergence is exact: when a
removed entity takes a place below the cap from a live one, the writes followed
by the removals and the removals followed by the writes end differently. Without
removals the survivors are known: the least keys written, each with its greatest write.
-/

namespace Catalyrst.SceneState
open Catalyrst.Lib CrdtEngine Replica

namespace CrdtEngine

/-! ### Two orders that disagree otherwise -/

def isRemoval : CrdtMessage → Bool
  | .deleteEntity _ => true
  | _ => false

def removalsOf (msgs : List CrdtMessage) : List CrdtMessage := msgs.filter isRemoval

def othersOf (msgs : List CrdtMessage) : List CrdtMessage := msgs.filter fun m => !isRemoval m

theorem removals_then_others (msgs : List CrdtMessage) :
    msgs.Perm (removalsOf msgs ++ othersOf msgs) := (List.filter_append_perm isRemoval msgs).symm

theorem others_then_removals (msgs : List CrdtMessage) :
    msgs.Perm (othersOf msgs ++ removalsOf msgs) :=
  (removals_then_others msgs).trans List.perm_append_comm

theorem delta_snd_of_removal {m : CrdtMessage} (h : isRemoval m = true) : (delta m).2 = ⊥ := by
  cases m with
  | deleteEntity entity => rfl
  | put entity componentId timestamp data => cases h
  | deleteComponent entity componentId timestamp => cases h
  | append entity componentId timestamp data => cases h

theorem delta_fst_of_other {m : CrdtMessage} (h : (!isRemoval m) = true) : (delta m).1 = ⊥ := by
  cases m with
  | deleteEntity entity => cases h
  | put entity componentId timestamp data => rfl
  | deleteComponent entity componentId timestamp => rfl
  | append entity componentId timestamp data => rfl

theorem joined_removalsOf_snd (msgs : List CrdtMessage) : (joined (removalsOf msgs)).2 = ⊥ := by
  have hle : joined (removalsOf msgs) ≤ ((joined (removalsOf msgs)).1, ⊥) := by
    refine (MaskedJoin.joinAll_le _ _).mpr fun d hd => ?_
    obtain ⟨m, hm, rfl⟩ := List.mem_map.mp hd
    exact ⟨(delta_le_joined hm).1, (delta_snd_of_removal (List.mem_filter.mp hm).2).le⟩
  exact le_bot_iff.mp hle.2

theorem joined_othersOf_fst (msgs : List CrdtMessage) : (joined (othersOf msgs)).1 = ⊥ := by
  have hle : joined (othersOf msgs) ≤ (⊥, (joined (othersOf msgs)).2) := by
    refine (MaskedJoin.joinAll_le _ _).mpr fun d hd => ?_
    obtain ⟨m, hm, rfl⟩ := List.mem_map.mp hd
    exact ⟨(delta_fst_of_other (List.mem_filter.mp hm).2).le, (delta_le_joined hm).2⟩
  exact le_bot_iff.mp hle.1

/-- The removals and the writes of a list are the two halves of its join. -/
theorem joined_split (msgs : List CrdtMessage) :
    joined msgs = ((joined (removalsOf msgs)).1, (joined (othersOf msgs)).2) := by
  have h : joined msgs = joined (removalsOf msgs) ⊔ joined (othersOf msgs) := by
    rw [← joined_append]
    exact joined_congr fun m => (removals_then_others msgs).mem_iff
  rw [h]
  refine Prod.ext ?_ ?_
  · show (joined (removalsOf msgs)).1 ⊔ (joined (othersOf msgs)).1 = _
    rw [joined_othersOf_fst, sup_bot_eq]
  · show (joined (removalsOf msgs)).2 ⊔ (joined (othersOf msgs)).2 = _
    rw [joined_removalsOf_snd, bot_sup_eq]

theorem keysWritten_othersOf (msgs : List CrdtMessage) :
    keysWritten (othersOf msgs) = keysWritten msgs := by
  ext k
  simp only [mem_keysWritten, othersOf, List.mem_filter]
  constructor
  · rintro ⟨m, ⟨hm, _⟩, hw⟩
    exact ⟨m, hm, hw⟩
  · rintro ⟨m, hm, hw⟩
    refine ⟨m, ⟨hm, ?_⟩, hw⟩
    cases m with
    | deleteEntity entity => cases hw
    | put entity componentId timestamp data => rfl
    | deleteComponent entity componentId timestamp => rfl
    | append entity componentId timestamp data => rfl

theorem keySet_removals {e : CrdtEngine} (hl : e.Live) (msgs : List CrdtMessage)
    (h : ∀ m ∈ msgs, isRemoval m = true) : (e.applyAll msgs).keySet ⊆ e.keySet := by
  induction msgs generalizing e with
  | nil => exact subset_rfl
  | cons m msgs ih =>
    have hm := h m (List.mem_cons_self ..)
    cases m with
    | deleteEntity entity =>
      rw [applyAll_cons, apply_deleteEntity_snd]
      have hlive : (e.tombstone entity).2.Live := by
        rw [Live, view_tombstone hl, mask_stable.idem]
      refine (ih hlive fun x hx => h x (List.mem_cons_of_mem _ hx)).trans fun k hk => ?_
      obtain ⟨c, hc⟩ := (mem_keySet _ k).mp hk
      rw [find_tombstone_lww hl] at hc
      split at hc
      · cases hc
      · exact (mem_keySet e k).mpr ⟨c, hc⟩
    | put entity componentId timestamp data => cases hm
    | deleteComponent entity componentId timestamp => cases hm
    | append entity componentId timestamp data => cases hm

/-- Writes first: only keys below the cap survive. -/
theorem keySet_others_first (n : ℕ) (msgs : List CrdtMessage) :
    ((withCap n).applyAll (othersOf msgs ++ removalsOf msgs)).keySet ⊆
      lowest (max n 1) (keysWritten msgs) := by
  have hres := resident_applyAll n (othersOf msgs)
  have hsafe : CapSafe (max n 1) (keysWritten (othersOf msgs)) (joined (othersOf msgs)).1 := by
    intro d _ _ _ hm
    rw [joined_othersOf_fst] at hm
    exact absurd hm (WithBot.not_coe_le_bot _)
  rw [applyAll_append]
  refine (keySet_removals hres.live _ fun m hm => (List.mem_filter.mp hm).2).trans fun k hk => ?_
  by_contra hout
  refine (notMem_keySet _ k).mpr ?_ hk
  rw [cell_withCap hsafe, keysWritten_othersOf, if_neg fun h => hout h.1]

/-- Removals first: only live keys compete for the cap. -/
theorem resident_removals_first (n : ℕ) (msgs : List CrdtMessage) :
    Resident (max n 1) ((keysWritten msgs).filter fun k => ¬ Masked (joined msgs).1 k)
      (joined msgs).1 (joined msgs).2
      ((withCap n).applyAll (removalsOf msgs ++ othersOf msgs)) := by
  have hbase := (resident_withCap n ((keysWritten msgs).filter fun k => ¬ Masked (joined msgs).1 k)
    (joined msgs).1).applyAll (removalsOf msgs)
    (fun m hm => (delta_le_joined (List.mem_filter.mp hm).1).1) fun m hm k hk => by
      rw [delta_snd_of_removal (List.mem_filter.mp hm).2] at hk
      exact absurd rfl hk
  have hview : ((withCap n).applyAll (removalsOf msgs)).view.1 = (joined msgs).1 := by
    rw [withCap_removed, joined_split msgs]
  have hall := hbase.applyAll (othersOf msgs)
    (fun m hm => (delta_le_joined (List.mem_filter.mp hm).1).1) fun m hm k hk => by
      by_cases hmask : Masked (joined msgs).1 k
      · exact Or.inr (hview ▸ hmask)
      · refine Or.inl (Finset.mem_filter.mpr ⟨(mem_keysWritten msgs k).mpr ⟨m, ?_, ?_⟩, hmask⟩)
        · exact (List.mem_filter.mp hm).1
        · exact (delta_ne_bot_iff m k).mp hk
  have hw : (⊥ ⊔ (joined (removalsOf msgs)).2 ⊔ (joined (othersOf msgs)).2 :
      CellKey → WithBot LwwCell) = (joined msgs).2 := by
    rw [joined_removalsOf_snd, bot_sup_eq, bot_sup_eq, joined_split msgs]
  rw [applyAll_append, ← hw]
  exact hall

/-- A snapshot with more cells and the same values is longer. -/
theorem snapshot_length_lt {e f : CrdtEngine} (hd : e.deleted = f.deleted)
    (hsub : ∀ (k : CellKey) (c : LwwCell), e.lww[k]? = some c → f.lww[k]? = some c)
    (hcard : e.keySet.card < f.keySet.card) : e.snapshot.length < f.snapshot.length := by
  have hnodup : e.lww.toList.Nodup := by
    have hkeys : (e.lww.toList.map Prod.fst).Nodup := by
      rw [Std.ExtTreeMap.map_fst_toList_eq_keys]
      exact (OrdMap.keys_ascending e.lww).imp fun h => ne_of_lt h
    exact List.Nodup.of_map _ hkeys
  have hsubset : e.lww.toList ⊆ f.lww.toList := by
    rintro ⟨k, c⟩ hin
    exact (OrdMap.mem_entries _ _ _).mpr (hsub k c ((OrdMap.mem_entries _ _ _).mp hin))
  obtain ⟨mid, hmid, hsublist⟩ := List.subperm_of_subset hnodup hsubset
  obtain ⟨rest, hrestperm⟩ := hsublist.exists_perm_append
  have hperm := hrestperm.trans (hmid.append_right rest)
  have hlen : (encodeBatch (f.lww.toList.map cellMessage)).length =
      (encodeBatch (e.lww.toList.map cellMessage)).length +
        (encodeBatch (rest.map cellMessage)).length := by
    rw [← List.length_append, ← encodeBatch_append, ← List.map_append]
    exact ((hperm.map cellMessage).flatMap_right _).length_eq
  have hrest : e.lww.size + rest.length = f.lww.size := by
    have := hperm.length_eq
    rw [List.length_append, Std.ExtTreeMap.length_toList, Std.ExtTreeMap.length_toList] at this
    exact this.symm
  have hce : e.keySet.card = e.lww.size := OrdMap.card_keySet e.lww
  have hcf : f.keySet.card = f.lww.size := OrdMap.card_keySet f.lww
  have hbytes := encodeBatch_length (rest.map cellMessage)
  rw [List.length_map] at hbytes
  simp only [snapshot, snapshotMessages, encodeBatch_append, List.length_append, hd]
  omega

/-- A removed key below the cap and a live key above it: the store that saw the
removals first keeps more cells. -/
theorem snapshot_others_first_lt {n : ℕ} {msgs : List CrdtMessage}
    (h : ¬ CapSafe (max n 1) (keysWritten msgs) (joined msgs).1) :
    ((withCap n).applyAll (othersOf msgs ++ removalsOf msgs)).snapshot.length <
      ((withCap n).applyAll (removalsOf msgs ++ othersOf msgs)).snapshot.length := by
  simp only [CapSafe, not_forall] at h
  obtain ⟨d, hdK, k, hkK, hdm, hdr, hkm, hkr⟩ := h
  have hjoin : joined (othersOf msgs ++ removalsOf msgs) = joined msgs :=
    joined_congr fun m => (others_then_removals msgs).mem_iff.symm
  have hkeys : keysWritten (othersOf msgs ++ removalsOf msgs) = keysWritten msgs :=
    keysWritten_congr fun m => (others_then_removals msgs).mem_iff.symm
  have hfirst := resident_applyAll n (othersOf msgs ++ removalsOf msgs)
  have hremoved := withCap_removed n (othersOf msgs ++ removalsOf msgs)
  rw [hjoin] at hremoved
  rw [hjoin, hkeys] at hfirst
  have hsecond := resident_removals_first n msgs
  have hremoved' := withCap_removed n (removalsOf msgs ++ othersOf msgs)
  rw [joined_congr fun m => (removals_then_others msgs).mem_iff.symm] at hremoved'
  -- the keys left by the first order are the live ones below the cap
  have hkept : ∀ q ∈ ((withCap n).applyAll (othersOf msgs ++ removalsOf msgs)).keySet,
      q ∈ lowest (max n 1) (keysWritten msgs) ∧ ¬ Masked (joined msgs).1 q := by
    intro q hq
    refine ⟨keySet_others_first n msgs hq, fun hm => ?_⟩
    exact (notMem_keySet _ q).mpr (hfirst.live.find_eq_none (hremoved.symm ▸ hm)) hq
  have hsub : ∀ (q : CellKey) (c : LwwCell),
      ((withCap n).applyAll (othersOf msgs ++ removalsOf msgs)).lww[q]? = some c →
      ((withCap n).applyAll (removalsOf msgs ++ othersOf msgs)).lww[q]? = some c := by
    intro q c hq
    obtain ⟨hlow, hlive⟩ := hkept q ((mem_keySet _ q).mpr ⟨c, hq⟩)
    obtain ⟨hqK, hqr⟩ := mem_lowest.mp hlow
    have h1 := hfirst.value q hqK hqr hlive
    have h2 := hsecond.value q (Finset.mem_filter.mpr ⟨hqK, hlive⟩)
      ((rank_mono_set (Finset.filter_subset _ _) q).trans_lt hqr) hlive
    exact (h2.trans h1.symm).trans hq
  refine snapshot_length_lt ?_ hsub ?_
  · refine OrdMap.ext_find fun number => ?_
    exact congrFun (hremoved.trans hremoved'.symm) number
  · -- count: the first order keeps at most `A`, which misses `d` below and `k` above the cap
    have hA : ((withCap n).applyAll (othersOf msgs ++ removalsOf msgs)).keySet ⊆
        (lowest (max n 1) (keysWritten msgs)).filter fun q => ¬ Masked (joined msgs).1 q :=
      fun q hq => Finset.mem_filter.mpr (hkept q hq)
    have hAd : ((lowest (max n 1) (keysWritten msgs)).filter fun q =>
        ¬ Masked (joined msgs).1 q).card < (lowest (max n 1) (keysWritten msgs)).card := by
      refine Finset.card_lt_card ⟨Finset.filter_subset _ _, fun hall => ?_⟩
      exact (Finset.mem_filter.mp (hall (mem_lowest.mpr ⟨hdK, hdr⟩))).2 hdm
    have hAk : ((lowest (max n 1) (keysWritten msgs)).filter fun q =>
        ¬ Masked (joined msgs).1 q).card <
        ((keysWritten msgs).filter fun q => ¬ Masked (joined msgs).1 q).card := by
      refine Finset.card_lt_card ⟨Finset.filter_subset_filter _ (Finset.filter_subset _ _), ?_⟩
      intro hall
      have hk := hall (Finset.mem_filter.mpr ⟨hkK, hkm⟩)
      exact hkr (mem_lowest.mp (Finset.mem_filter.mp hk).1).2
    have hlow : lowest (max n 1) ((keysWritten msgs).filter fun q =>
        ¬ Masked (joined msgs).1 q) ⊆
        ((withCap n).applyAll (removalsOf msgs ++ othersOf msgs)).keySet := by
      intro q hq
      obtain ⟨hqK, hqr⟩ := mem_lowest.mp hq
      obtain ⟨hqw, hqm⟩ := Finset.mem_filter.mp hqK
      by_contra hnot
      rw [notMem_keySet, hsecond.value q hqK hqr hqm] at hnot
      exact joined_ne_bot hqw hnot
    have hc1 := Finset.card_le_card hA
    have hc2 := Finset.card_le_card hlow
    rw [card_lowest] at hAd hc2
    omega

end CrdtEngine

/-- The cell cap keeps convergence for a list of messages exactly when no key
of a removed entity is among the `max n 1` least written keys while a live
written key is beyond them. -/
theorem withCap_converges_iff (n : ℕ) (l : List CrdtMessage) :
    (∀ l', l.Perm l' →
      ((withCap n).applyAll l').snapshot = ((withCap n).applyAll l).snapshot) ↔
    CapSafe (max n 1) (keysWritten l) (joined l).1 := by
  constructor
  · intro hconv
    by_contra hunsafe
    have hlt := snapshot_others_first_lt hunsafe
    rw [hconv _ (others_then_removals l), hconv _ (removals_then_others l)] at hlt
    exact lt_irrefl _ hlt
  · intro hsafe l' hperm
    exact (withCap_sameCells (fun m => hperm.mem_iff) hsafe).snapshot.symm

/-- Cap 1: the smaller key crowds the larger one out and is then removed; the
other order never stores the smaller key. -/
theorem withCap_order_dependent :
    let a : CrdtMessage := .put 1 1 1 [7]
    let b : CrdtMessage := .put 2 1 1 [8]
    let c : CrdtMessage := .deleteEntity 1
    [a, b, c].Perm [c, a, b] ∧
    ((withCap 1).applyAll [a, b, c]).lww.toList = [] ∧
    ((withCap 1).applyAll [c, a, b]).lww.toList = [(⟨2, 0, 1⟩, ⟨1, some [8]⟩)] ∧
    ((withCap 1).applyAll [a, b, c]).snapshot ≠ ((withCap 1).applyAll [c, a, b]).snapshot := by
  decide

/-! ### The survivors when no entity is removed -/

namespace CrdtEngine

/-- The cell a `Put` or a `DeleteComponent` offers; `None` for the other kinds. -/
def cellWrite : CrdtMessage → Option (CellKey × LwwCell)
  | .put entity componentId timestamp data =>
    some (cellKey entity componentId, ⟨timestamp, some data⟩)
  | .deleteComponent entity componentId timestamp =>
    some (cellKey entity componentId, ⟨timestamp, none⟩)
  | .deleteEntity _ => none
  | .append _ _ _ _ => none

theorem delta_eq_coe_iff (m : CrdtMessage) (k : CellKey) (c : LwwCell) :
    (delta m).2 k = c ↔ cellWrite m = some (k, c) := by
  have hwrite : ∀ (key : CellKey) (d : LwwCell),
      (write key d).2 k = c ↔ some (key, d) = some (k, c) := by
    intro key d
    by_cases hk : k = key
    · subst hk
      simp only [write, if_true, WithBot.coe_inj, Option.some.injEq, Prod.mk.injEq, true_and]
    · simp only [write, if_neg hk, Option.some.injEq, Prod.mk.injEq]
      exact iff_of_false (fun h => WithBot.coe_ne_bot h.symm) fun h => hk h.1.symm
  cases m with
  | put entity componentId timestamp data => exact hwrite _ _
  | deleteComponent entity componentId timestamp => exact hwrite _ _
  | deleteEntity entity =>
    exact iff_of_false (fun h => WithBot.coe_ne_bot h.symm) fun h => by cases h
  | append entity componentId timestamp data =>
    exact iff_of_false (fun h => WithBot.coe_ne_bot h.symm) fun h => by cases h

theorem isRemoval_of_cellWrite {m : CrdtMessage} (h : (cellWrite m).isSome = true) :
    (!isRemoval m) = true := by
  cases m with
  | deleteEntity entity => cases h
  | put entity componentId timestamp data => rfl
  | deleteComponent entity componentId timestamp => rfl
  | append entity componentId timestamp data => rfl

/-- A joined write is the greatest of the writes to its key. -/
theorem joined_isGreatest {msgs : List CrdtMessage} {k : CellKey} {c : LwwCell}
    (h : (joined msgs).2 k = c) :
    IsGreatest {d | ∃ m ∈ msgs, cellWrite m = some (k, d)} c := by
  constructor
  · obtain ⟨m, hm, hd⟩ := joined_attained msgs k c h
    exact ⟨m, hm, (delta_eq_coe_iff m k c).mp hd⟩
  · rintro d ⟨m, hm, hd⟩
    have hle := (delta_le_joined hm).2 k
    rw [h, (delta_eq_coe_iff m k d).mpr hd] at hle
    exact WithBot.coe_le_coe.mp hle

theorem not_masked_bot (k : CellKey) : ¬ Masked ⊥ k := WithBot.not_coe_le_bot _

theorem cell_withCap_writes {n : ℕ} {msgs : List CrdtMessage} (hn : 1 ≤ n)
    (hw : ∀ m ∈ msgs, (cellWrite m).isSome = true) (k : CellKey) :
    ((withCap n).applyAll msgs).cell k =
      if k ∈ lowest n (keysWritten msgs) then (joined msgs).2 k else ⊥ := by
  have hothers : othersOf msgs = msgs :=
    List.filter_eq_self.mpr fun m hm => isRemoval_of_cellWrite (hw m hm)
  have hbot : (joined msgs).1 = ⊥ := by
    rw [← hothers]
    exact joined_othersOf_fst msgs
  have hsafe : CapSafe (max n 1) (keysWritten msgs) (joined msgs).1 := by
    intro d _ _ _ hm
    rw [hbot] at hm
    exact absurd hm (not_masked_bot d)
  rw [cell_withCap hsafe, hbot, max_eq_left hn]
  simp only [not_masked_bot, not_false_eq_true, and_true]

end CrdtEngine

/-- Without entity removals a capped engine holds exactly the least `n` of the
keys written, and each of them holds the greatest write it was ever offered. -/
theorem withCap_keeps_lowest (n : ℕ) (hn : 1 ≤ n) (msgs : List CrdtMessage)
    (hw : ∀ m ∈ msgs, (cellWrite m).isSome = true) :
    ((withCap n).applyAll msgs).keySet ⊆ keysWritten msgs ∧
    ((withCap n).applyAll msgs).keySet.card = min n (keysWritten msgs).card ∧
    (∀ k ∈ ((withCap n).applyAll msgs).keySet, ∀ q ∈ keysWritten msgs,
      q ∉ ((withCap n).applyAll msgs).keySet → k < q) ∧
    ∀ (k : CellKey) (c : LwwCell), ((withCap n).applyAll msgs).lww[k]? = some c →
      IsGreatest {d | ∃ m ∈ msgs, cellWrite m = some (k, d)} c := by
  have hkeys : ((withCap n).applyAll msgs).keySet = lowest n (keysWritten msgs) := by
    ext k
    rw [← not_iff_not, notMem_keySet, cell_withCap_writes hn hw]
    split
    · rename_i hk
      exact iff_of_false (joined_ne_bot (mem_lowest.mp hk).1) (not_not.mpr hk)
    · rename_i hk
      exact iff_of_true rfl hk
  refine ⟨?_, ?_, ?_, ?_⟩
  · rw [hkeys]
    exact Finset.filter_subset _ _
  · rw [hkeys, card_lowest]
  · rw [hkeys]
    intro k hk q hq hout
    obtain ⟨_, hkr⟩ := mem_lowest.mp hk
    by_contra hle
    refine hout (mem_lowest.mpr ⟨hq, lt_of_le_of_lt ?_ hkr⟩)
    exact rank_mono (not_lt.mp hle)
  · intro k c hc
    have hcell : ((withCap n).applyAll msgs).cell k = c := hc
    rw [cell_withCap_writes hn hw] at hcell
    split at hcell
    · exact joined_isGreatest hcell
    · exact absurd hcell.symm WithBot.coe_ne_bot

/-- Cap 2: the middle key comes and goes, the first cell takes three writes. -/
theorem withCap_keeps_lowest_two :
    let msgs : List CrdtMessage := [.put 3 1 1 [7], .put 2 1 1 [8], .put 1 1 5 [9],
      .deleteComponent 1 1 5, .put 1 1 5 [2, 2], .put 3 1 9 [1]]
    ((withCap 2).applyAll msgs).lww.toList =
      [(⟨1, 0, 1⟩, ⟨5, some [2, 2]⟩), (⟨2, 0, 1⟩, ⟨1, some [8]⟩)] ∧
    ((withCap 2).applyAll msgs).keySet.card = min 2 (keysWritten msgs).card := by
  refine ⟨by decide, ?_⟩
  exact (withCap_keeps_lowest 2 (by decide) _ (by decide)).2.1

end Catalyrst.SceneState
