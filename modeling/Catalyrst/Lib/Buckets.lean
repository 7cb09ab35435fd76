import Catalyrst.Lib.OrdMap

/-!
# Items in buckets

An index puts every item in the bucket of its key and remembers the key, so that an
item can be moved. How an item is taken out of its bucket is a parameter: whatever
order it leaves the rest in will do.
-/

namespace Catalyrst.Lib

variable {κ : Type*} {ι : Type*} [LinearOrder κ] [LinearOrder ι]

structure Buckets (κ ι : Type*) [LinearOrder κ] [LinearOrder ι] where
  buckets : OrdMap κ (List ι)
  keyOf : OrdMap ι κ

namespace Buckets

variable (drop : List ι → ι → List ι)

def bucket (t : Buckets κ ι) (k : κ) : List ι := t.buckets[k]?.getD []

/-- An empty bucket is not kept. -/
def remove (t : Buckets κ ι) (i : ι) : Buckets κ ι :=
  match t.keyOf[i]? with
  | none => t
  | some k =>
    let buckets := match t.buckets[k]? with
      | none => t.buckets
      | some bucket =>
        let bucket := drop bucket i
        if bucket = [] then t.buckets.erase k else t.buckets.insert k bucket
    ⟨buckets, t.keyOf.erase i⟩

def set (t : Buckets κ ι) (i : ι) (k : κ) : Buckets κ ι :=
  if t.keyOf[i]? = some k then t
  else
    let t := t.remove drop i
    ⟨t.buckets.insert k (t.buckets[k]?.getD [] ++ [i]), t.keyOf.insert i k⟩

/-- Every item is once in the bucket of its key, and in no other. -/
structure Indexed (t : Buckets κ ι) : Prop where
  mem : ∀ k i, i ∈ t.bucket k ↔ t.keyOf[i]? = some k
  nodup : ∀ k, (t.bucket k).Nodup

theorem indexed_empty : (⟨∅, ∅⟩ : Buckets κ ι).Indexed :=
  ⟨fun k i => by simp [bucket], fun k => by simp [bucket]⟩

variable {drop} {t : Buckets κ ι}

theorem keyOf_remove (drop : List ι → ι → List ι) (t : Buckets κ ι) (i j : ι) :
    (t.remove drop i).keyOf[j]? = if i = j then none else t.keyOf[j]? := by
  unfold remove
  split
  · rename_i hnone
    split
    · rename_i heq
      rw [← heq, hnone]
    · rfl
  · exact OrdMap.find_erase _ _ _

theorem keyOf_set (drop : List ι → ι → List ι) (t : Buckets κ ι) (i j : ι) (k : κ) :
    (t.set drop i k).keyOf[j]? = if i = j then some k else t.keyOf[j]? := by
  unfold set
  split
  · rename_i hsame
    split
    · rename_i heq
      rw [← heq, hsame]
    · rfl
  · dsimp only
    rw [OrdMap.find_insert, keyOf_remove]
    split <;> rfl

/-- Only the bucket of the item's key changes, and it loses the item. -/
theorem bucket_remove (hdrop : ∀ b i, (drop b i).Perm (b.erase i)) (h : t.Indexed) (i : ι) (k : κ) :
    ((t.remove drop i).bucket k).Perm ((t.bucket k).erase i) := by
  unfold remove
  split
  · rename_i hnone
    rw [List.erase_of_not_mem fun hmem => by simpa [hnone] using (h.mem k i).mp hmem]
  · rename_i k' hkey
    by_cases hk : k' = k
    · subst hk
      cases hb : t.buckets[k']? with
      | none =>
        simp [bucket, hb]
      | some b =>
        have hbucket : t.bucket k' = b := by rw [bucket, hb, Option.getD_some]
        rw [hbucket]
        dsimp only
        split
        · rename_i hempty
          have hperm := hdrop b i
          rw [hempty] at hperm
          simpa [bucket] using hperm
        · simpa [bucket] using hdrop b i
    · have hnot : i ∉ t.bucket k := by
        intro hmem
        rw [h.mem, hkey] at hmem
        exact hk (Option.some.inj hmem)
      rw [List.erase_of_not_mem hnot]
      cases hb : t.buckets[k']? with
      | none => exact List.Perm.refl _
      | some b =>
        dsimp only
        split
        · simp [bucket, hk]
        · simp [bucket, hk]

theorem Indexed.remove (hdrop : ∀ b i, (drop b i).Perm (b.erase i)) (h : t.Indexed) (i : ι) :
    (t.remove drop i).Indexed := by
  refine ⟨fun k j => ?_, fun k => ?_⟩
  · rw [(bucket_remove hdrop h i k).mem_iff, (h.nodup k).mem_erase_iff, h.mem, keyOf_remove]
    split
    · rename_i heq
      simp [heq]
    · rename_i hne
      exact and_iff_right (Ne.symm hne)
  · exact (bucket_remove hdrop h i k).nodup_iff.mpr ((h.nodup k).erase i)

theorem Indexed.set (hdrop : ∀ b i, (drop b i).Perm (b.erase i)) (h : t.Indexed) (i : ι) (k : κ) :
    (t.set drop i k).Indexed := by
  have hbucket : ∀ k', t.keyOf[i]? ≠ some k → (t.set drop i k).bucket k' =
      if k = k' then (t.remove drop i).bucket k ++ [i] else (t.remove drop i).bucket k' := by
    intro k' hne
    unfold Buckets.set
    rw [if_neg hne]
    simp only [bucket, OrdMap.find_insert]
    split <;> rfl
  by_cases hsame : t.keyOf[i]? = some k
  · rw [Buckets.set, if_pos hsame]
    exact h
  · have hrest := h.remove hdrop i
    have hgone : ∀ k', i ∉ (t.remove drop i).bucket k' := by
      intro k' hmem
      rw [hrest.mem, keyOf_remove, if_pos rfl] at hmem
      cases hmem
    refine ⟨fun k' j => ?_, fun k' => ?_⟩
    · rw [hbucket k' hsame, keyOf_set]
      by_cases hij : i = j
      · subst hij
        rw [if_pos rfl]
        split
        · rename_i hk
          simp [hk]
        · rename_i hk
          simp [hgone k', hk]
      · rw [if_neg hij]
        have hother : j ∈ (t.remove drop i).bucket k' ↔ t.keyOf[j]? = some k' := by
          rw [hrest.mem, keyOf_remove, if_neg hij]
        split
        · rename_i hk
          subst hk
          simp [hother, Ne.symm hij]
        · exact hother
    · rw [hbucket k' hsame]
      split
      · exact List.nodup_append.mpr ⟨hrest.nodup k, List.nodup_singleton i,
          fun a ha b hb hab => hgone k ((hab.trans (List.mem_singleton.mp hb)) ▸ ha)⟩
      · exact hrest.nodup k'

/-! ### Queries -/

/-- Distinct buckets, one after the other. -/
theorem Indexed.mem_flatMap (h : t.Indexed) (ks : List κ) (i : ι) :
    i ∈ ks.flatMap t.bucket ↔ ∃ k ∈ ks, t.keyOf[i]? = some k := by
  rw [List.mem_flatMap]
  exact exists_congr fun k => and_congr_right fun _ => h.mem k i

theorem Indexed.nodup_flatMap (h : t.Indexed) {ks : List κ} (hks : ks.Nodup) :
    (ks.flatMap t.bucket).Nodup := by
  rw [List.nodup_flatMap]
  refine ⟨fun k _ => h.nodup k, hks.imp fun {k k'} hne => ?_⟩
  intro i hi hi'
  rw [h.mem] at hi hi'
  exact hne (Option.some.inj (hi.symm.trans hi'))

omit [LinearOrder ι] in
/-- Distinct items report distinct subjects. -/
theorem nodup_subjects {β : Type*} {items : List ι} (hitems : items.Nodup) {f : ι → Option β}
    (subject : β → ι) (hf : ∀ i b, f i = some b → subject b = i) :
    ((items.filterMap f).map subject).Nodup := by
  rw [List.map_filterMap]
  refine hitems.filterMap fun i j k hi hj => ?_
  obtain ⟨b, hb, rfl⟩ := Option.map_eq_some_iff.mp hi
  obtain ⟨c, hc, heq⟩ := Option.map_eq_some_iff.mp hj
  rw [← hf i b hb, ← hf j c hc, heq]

/-- Reading the buckets of some keys finds what going through all items finds, provided that those
items are in these buckets. -/
theorem Indexed.perm_filterMap {β : Type*} (h : t.Indexed) {ks : List κ} (hks : ks.Nodup)
    {items : List ι} (hitems : items.Nodup) {f g : ι → Option β} (subject : β → ι)
    (hf : ∀ i b, f i = some b → subject b = i) (hg : ∀ i b, g i = some b → subject b = i)
    (hfound : ∀ i b, (∃ k ∈ ks, t.keyOf[i]? = some k) ∧ f i = some b ↔ i ∈ items ∧ g i = some b) :
    ((ks.flatMap t.bucket).filterMap f).Perm (items.filterMap g) := by
  rw [List.perm_ext_iff_of_nodup (nodup_subjects (h.nodup_flatMap hks) subject hf).of_map
    (nodup_subjects hitems subject hg).of_map]
  intro b
  rw [List.mem_filterMap, List.mem_filterMap]
  refine exists_congr fun i => ?_
  rw [h.mem_flatMap]
  exact hfound i b

end Buckets

end Catalyrst.Lib
