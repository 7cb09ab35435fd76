import Catalyrst.Lib.Instances

/-!
# Ordered maps

`OrdMap κ ν` is the standard library's extensional tree map over a linear
order. Two maps with the same lookups are equal, and the entries are listed in
strictly ascending key order, which is what an ordered map of a programming
language promises. This module adds the operations a range scan needs (`range`,
`eraseAll`, `lastKey`) with one lookup lemma each.
-/

namespace Catalyrst.Lib

abbrev OrdMap (κ : Type*) (ν : Type*) [LinearOrder κ] := Std.ExtTreeMap κ ν compare

namespace OrdMap

variable {κ : Type*} {ν : Type*} [LinearOrder κ]

/-! ### Lookups -/

@[simp] theorem find_insert (m : OrdMap κ ν) (k a : κ) (v : ν) :
    (m.insert k v)[a]? = if k = a then some v else m[a]? := by
  rw [Std.ExtTreeMap.getElem?_insert]
  simp only [Std.LawfulEqCmp.compare_eq_iff_eq]

@[simp] theorem find_erase (m : OrdMap κ ν) (k a : κ) :
    (m.erase k)[a]? = if k = a then none else m[a]? := by
  rw [Std.ExtTreeMap.getElem?_erase]
  simp only [Std.LawfulEqCmp.compare_eq_iff_eq]

theorem find_insertIfNew (m : OrdMap κ ν) (k a : κ) (v : ν) :
    (m.insertIfNew k v)[a]? = (m[a]?).or (if k = a then some v else none) := by
  rw [Std.ExtTreeMap.getElem?_insertIfNew]
  simp only [Std.LawfulEqCmp.compare_eq_iff_eq, Std.ExtTreeMap.mem_iff_isSome_getElem?]
  by_cases h : k = a
  · subst h
    cases m[k]? with
    | none => simp
    | some w => simp
  · simp [h]

@[simp] theorem find_modify (m : OrdMap κ ν) (k a : κ) (f : ν → ν) :
    (m.modify k f)[a]? = if k = a then m[a]?.map f else m[a]? := by
  rw [Std.ExtTreeMap.getElem?_modify]
  simp only [Std.LawfulEqCmp.compare_eq_iff_eq]
  split
  · rename_i h
    rw [h]
  · rfl

@[simp] theorem find_map {μ : Type*} (m : OrdMap κ ν) (f : κ → ν → μ) (a : κ) :
    (m.map f)[a]? = m[a]?.map (f a) :=
  Std.ExtTreeMap.getElem?_map

theorem ext_find {m n : OrdMap κ ν} (h : ∀ k : κ, m[k]? = n[k]?) : m = n :=
  Std.ExtTreeMap.ext_getElem? fun k => h k

theorem mem_entries (m : OrdMap κ ν) (k : κ) (v : ν) : (k, v) ∈ m.toList ↔ m[k]? = some v :=
  Std.ExtTreeMap.mem_toList_iff_getElem?_eq_some

theorem mem_keys (m : OrdMap κ ν) (k : κ) : k ∈ m.keys ↔ ∃ v, m[k]? = some v := by
  rw [Std.ExtTreeMap.mem_keys, Std.ExtTreeMap.mem_iff_isSome_getElem?, Option.isSome_iff_exists]

theorem keys_ascending (m : OrdMap κ ν) : m.keys.Pairwise (· < ·) := by
  have h := Std.ExtTreeMap.ordered_keys (t := m)
  simpa only [compare_lt_iff_lt] using h

/-! ### The set of keys -/

def keySet (m : OrdMap κ ν) : Finset κ := m.keys.toFinset

theorem mem_keySet (m : OrdMap κ ν) (k : κ) : k ∈ keySet m ↔ ∃ v, m[k]? = some v := by
  rw [keySet, List.mem_toFinset, mem_keys]

theorem card_keySet (m : OrdMap κ ν) : (keySet m).card = m.size := by
  have hnodup : m.keys.Nodup := (keys_ascending m).imp fun h => ne_of_lt h
  rw [keySet, List.toFinset_card_of_nodup hnodup, Std.ExtTreeMap.length_keys]

theorem keySet_insert (m : OrdMap κ ν) (k : κ) (v : ν) :
    keySet (m.insert k v) = insert k (keySet m) := by
  ext a
  simp only [mem_keySet, find_insert, Finset.mem_insert]
  by_cases h : k = a
  · simp [h]
  · simp [h, Ne.symm h]

theorem keySet_erase (m : OrdMap κ ν) (k : κ) : keySet (m.erase k) = (keySet m).erase k := by
  ext a
  simp only [mem_keySet, find_erase, Finset.mem_erase]
  by_cases h : k = a
  · simp [h]
  · simp [h, Ne.symm h]

/-! ### Range scans -/

/-- The entries with key in the closed interval `[lo, hi]`, ascending. -/
def range (m : OrdMap κ ν) (lo hi : κ) : List (κ × ν) :=
  m.toList.filter fun e => decide (lo ≤ e.1 ∧ e.1 ≤ hi)

theorem mem_range (m : OrdMap κ ν) (lo hi k : κ) (v : ν) :
    (k, v) ∈ range m lo hi ↔ m[k]? = some v ∧ lo ≤ k ∧ k ≤ hi := by
  simp only [range, List.mem_filter, mem_entries, decide_eq_true_eq]

def eraseAll (m : OrdMap κ ν) (ks : List κ) : OrdMap κ ν := ks.foldl (fun n k => n.erase k) m

theorem find_eraseAll (m : OrdMap κ ν) (ks : List κ) (a : κ) :
    (eraseAll m ks)[a]? = if a ∈ ks then none else m[a]? := by
  induction ks generalizing m with
  | nil => simp [eraseAll]
  | cons k ks ih =>
    have hs : eraseAll m (k :: ks) = eraseAll (m.erase k) ks := rfl
    rw [hs, ih, find_erase]
    by_cases ha : a ∈ ks
    · simp [ha]
    · by_cases hk : k = a
      · simp [hk]
      · simp [ha, hk, Ne.symm hk]

/-- Erasing the keys of a range scan removes exactly the keys of the interval. -/
theorem find_eraseRange (m : OrdMap κ ν) (lo hi a : κ) :
    (eraseAll m ((range m lo hi).map Prod.fst))[a]? = if lo ≤ a ∧ a ≤ hi then none else m[a]? := by
  rw [find_eraseAll]
  by_cases ha : lo ≤ a ∧ a ≤ hi
  · cases hm : m[a]? with
    | none => simp
    | some v =>
      have hin : a ∈ (range m lo hi).map Prod.fst :=
        List.mem_map.mpr ⟨(a, v), (mem_range m lo hi a v).mpr ⟨hm, ha⟩, rfl⟩
      simp [hin, ha]
  · have hout : a ∉ (range m lo hi).map Prod.fst := by
      intro hin
      obtain ⟨⟨k, v⟩, hk, rfl⟩ := List.mem_map.mp hin
      exact ha ((mem_range m lo hi k v).mp hk).2
    simp [hout, ha]

/-! ### Inserting a list of entries -/

/-- The entries of a list inserted one after the other. -/
def insertAll (m : OrdMap κ ν) (es : List (κ × ν)) : OrdMap κ ν :=
  es.foldl (fun n e => n.insert e.1 e.2) m

theorem insertAll_cons (m : OrdMap κ ν) (e : κ × ν) (es : List (κ × ν)) :
    insertAll m (e :: es) = insertAll (m.insert e.1 e.2) es := rfl

theorem insertAll_append (m : OrdMap κ ν) (es fs : List (κ × ν)) :
    insertAll m (es ++ fs) = insertAll (insertAll m es) fs := List.foldl_append

theorem find_insertAll_of_notMem (m : OrdMap κ ν) {es : List (κ × ν)} {k : κ}
    (h : k ∉ es.map Prod.fst) : (insertAll m es)[k]? = m[k]? := by
  induction es generalizing m with
  | nil => rfl
  | cons e es ih =>
    rw [List.map_cons, List.mem_cons, not_or] at h
    rw [insertAll_cons, ih _ h.2, find_insert, if_neg (Ne.symm h.1)]

theorem find_insertAll_of_mem (m : OrdMap κ ν) {es : List (κ × ν)} {k : κ} {v : ν}
    (hnodup : (es.map Prod.fst).Nodup) (h : (k, v) ∈ es) : (insertAll m es)[k]? = some v := by
  induction es generalizing m with
  | nil => exact absurd h List.not_mem_nil
  | cons e es ih =>
    rw [List.map_cons, List.nodup_cons] at hnodup
    rw [insertAll_cons]
    rcases List.mem_cons.mp h with rfl | h
    · rw [find_insertAll_of_notMem _ hnodup.1, find_insert, if_pos rfl]
    · exact ih _ hnodup.2 h

/-- A listed key holds the value of one of its entries. -/
theorem exists_find_insertAll (m : OrdMap κ ν) {es : List (κ × ν)} {k : κ}
    (h : k ∈ es.map Prod.fst) : ∃ v, (k, v) ∈ es ∧ (insertAll m es)[k]? = some v := by
  induction es generalizing m with
  | nil => exact absurd h List.not_mem_nil
  | cons e es ih =>
    rw [insertAll_cons]
    by_cases hrest : k ∈ es.map Prod.fst
    · obtain ⟨v, hv, hf⟩ := ih (m.insert e.1 e.2) hrest
      exact ⟨v, List.mem_cons_of_mem e hv, hf⟩
    · have hk : k = e.1 := by
        rw [List.map_cons, List.mem_cons] at h
        exact h.resolve_right hrest
      refine ⟨e.2, hk ▸ List.mem_cons_self, ?_⟩
      rw [find_insertAll_of_notMem _ hrest, find_insert, if_pos hk.symm]

theorem mem_of_find_insertAll {es : List (κ × ν)} {k : κ} {v : ν}
    (h : (insertAll (∅ : OrdMap κ ν) es)[k]? = some v) : (k, v) ∈ es := by
  by_cases hk : k ∈ es.map Prod.fst
  · obtain ⟨w, hw, hf⟩ := exists_find_insertAll ∅ hk
    have he : w = v := Option.some.inj (hf.symm.trans h)
    exact he ▸ hw
  · rw [find_insertAll_of_notMem _ hk] at h
    simp at h

/-! ### Rows by key -/

/-- The rows of some keys put in place of those there. -/
def upsert (m : OrdMap κ ν) (keys : List κ) (row : κ → Option ν) : OrdMap κ ν :=
  keys.foldl (fun n k => ((row k).map (n.insert k)).getD n) m

theorem find_upsert (m : OrdMap κ ν) (keys : List κ) (row : κ → Option ν) (a : κ) :
    (upsert m keys row)[a]? = if a ∈ keys then (row a).or m[a]? else m[a]? := by
  induction keys generalizing m with
  | nil => simp [upsert]
  | cons k keys ih =>
    have hstep : upsert m (k :: keys) row = upsert (((row k).map (m.insert k)).getD m) keys row := rfl
    have hone : (((row k).map (m.insert k)).getD m)[a]? = if k = a then (row a).or m[a]? else m[a]? := by
      by_cases hk : k = a
      · subst hk
        cases row k with
        | none => simp
        | some v => simp
      · cases row k with
        | none => simp [hk]
        | some v => simp [hk]
    rw [hstep, ih, hone]
    by_cases hk : k = a
    · subst hk
      cases row k with
      | none => simp
      | some v => simp
    · simp [hk, Ne.symm hk]

/-- Values that name their own keys, in the order of the keys. -/
theorem values_eq {m : OrdMap κ ν} {key : ν → κ} (hkey : ∀ k v, m[k]? = some v → key v = k)
    {vs : List ν} (hsorted : vs.Pairwise fun v w => key v < key w)
    (hmem : ∀ v, v ∈ vs ↔ m[key v]? = some v) : m.toList.map Prod.snd = vs := by
  have hpairs : m.toList.Pairwise fun a b => a.1 < b.1 := by
    have hkeys := keys_ascending m
    rw [← Std.ExtTreeMap.map_fst_toList_eq_keys] at hkeys
    exact List.pairwise_map.mp hkeys
  have hvalues : (m.toList.map Prod.snd).Pairwise fun v w => key v < key w := by
    refine List.pairwise_map.mpr (hpairs.imp_of_mem ?_)
    intro a b ha hb hlt
    rwa [hkey _ _ ((mem_entries m _ _).mp ha), hkey _ _ ((mem_entries m _ _).mp hb)]
  have hperm : (m.toList.map Prod.snd).Perm vs := by
    refine (List.perm_ext_iff_of_nodup (hvalues.imp ?_) (hsorted.imp ?_)).mpr ?_
    · intro v w hlt heq
      exact hlt.ne (congrArg key heq)
    · intro v w hlt heq
      exact hlt.ne (congrArg key heq)
    · intro v
      rw [hmem, List.mem_map]
      constructor
      · rintro ⟨⟨k, w⟩, hin, rfl⟩
        have hfind := (mem_entries m k w).mp hin
        rwa [hkey _ _ hfind]
      · intro hfind
        exact ⟨(key v, v), (mem_entries m _ _).mpr hfind, rfl⟩
  refine hperm.eq_of_pairwise ?_ hvalues hsorted
  intro v w _ _ hlt hgt
  exact absurd hlt hgt.asymm

/-! ### The greatest key -/

/-- The greatest key, if any. -/
def lastKey (m : OrdMap κ ν) : Option κ := m.keys.getLast?

theorem lastKey_some {m : OrdMap κ ν} {k : κ} (h : lastKey m = some k) :
    (∃ v, m[k]? = some v) ∧ ∀ a v, m[a]? = some v → a ≤ k := by
  have hmax : m.maxKey? = some k := by
    rw [Std.ExtTreeMap.maxKey?_eq_getLast?_keys]
    exact h
  rw [Std.ExtTreeMap.maxKey?_eq_some_iff_mem_and_forall] at hmax
  refine ⟨?_, ?_⟩
  · rw [← mem_keys, Std.ExtTreeMap.mem_keys]
    exact hmax.1
  · intro a v ha
    have hin : a ∈ m := by
      rw [← Std.ExtTreeMap.mem_keys, mem_keys]
      exact ⟨v, ha⟩
    exact compare_le_iff_le.mp (Ordering.isLE_iff_ne_gt.mp (hmax.2 a hin))

theorem lastKey_none {m : OrdMap κ ν} (h : lastKey m = none) (a : κ) : m[a]? = none := by
  have hk : m.keys = [] := List.getLast?_eq_none_iff.mp h
  cases hm : m[a]? with
  | none => rfl
  | some v =>
    have hin : a ∈ m.keys := (mem_keys m a).mpr ⟨v, hm⟩
    rw [hk] at hin
    cases hin

end OrdMap

end Catalyrst.Lib
