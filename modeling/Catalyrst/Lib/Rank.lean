import Mathlib

/-!
# Ranks and the least members of a finite set

`rank s a` counts the members of `s` below `a`; `lowest n s` are the `n` least
members. A store that evicts its greatest member when it overflows never evicts
one of the `n` least members of everything it was offered.
-/

namespace Catalyrst.Lib

variable {α : Type*} [LinearOrder α]

def rank (s : Finset α) (a : α) : ℕ := (s.filter (· < a)).card

def lowest (n : ℕ) (s : Finset α) : Finset α := s.filter fun a => rank s a < n

theorem mem_lowest {n : ℕ} {s : Finset α} {a : α} : a ∈ lowest n s ↔ a ∈ s ∧ rank s a < n :=
  Finset.mem_filter

theorem rank_mono_set {s t : Finset α} (h : s ⊆ t) (a : α) : rank s a ≤ rank t a :=
  Finset.card_le_card (Finset.filter_subset_filter _ h)

theorem rank_mono {s : Finset α} {a b : α} (h : a ≤ b) : rank s a ≤ rank s b := by
  refine Finset.card_le_card fun c hc => ?_
  obtain ⟨hs, hlt⟩ := Finset.mem_filter.mp hc
  exact Finset.mem_filter.mpr ⟨hs, hlt.trans_le h⟩

theorem rank_lt_card {s : Finset α} {a : α} (ha : a ∈ s) : rank s a < s.card := by
  refine Finset.card_lt_card ⟨Finset.filter_subset _ _, fun h => ?_⟩
  exact lt_irrefl a (Finset.mem_filter.mp (h ha)).2

theorem rank_lt_rank {s : Finset α} {a b : α} (ha : a ∈ s) (hab : a < b) : rank s a < rank s b := by
  refine Finset.card_lt_card ⟨?_, fun h => ?_⟩
  · intro c hc
    obtain ⟨hs, hlt⟩ := Finset.mem_filter.mp hc
    exact Finset.mem_filter.mpr ⟨hs, hlt.trans hab⟩
  · exact lt_irrefl a (Finset.mem_filter.mp (h (Finset.mem_filter.mpr ⟨ha, hab⟩))).2

theorem rank_injOn (s : Finset α) : Set.InjOn (rank s) s := by
  intro a ha b hb hab
  rcases lt_trichotomy a b with h | h | h
  · exact absurd hab (rank_lt_rank ha h).ne
  · exact h
  · exact absurd hab.symm (rank_lt_rank hb h).ne

/-- The ranks of the members are exactly the numbers below the cardinality. -/
theorem image_rank (s : Finset α) : s.image (rank s) = Finset.range s.card := by
  refine Finset.eq_of_subset_of_card_le ?_ ?_
  · intro r hr
    obtain ⟨a, ha, rfl⟩ := Finset.mem_image.mp hr
    exact Finset.mem_range.mpr (rank_lt_card ha)
  · rw [Finset.card_range, Finset.card_image_of_injOn (rank_injOn s)]

theorem card_lowest (n : ℕ) (s : Finset α) : (lowest n s).card = min n s.card := by
  have hinj : Set.InjOn (rank s) (lowest n s) :=
    (rank_injOn s).mono (Finset.coe_subset.mpr (Finset.filter_subset _ _))
  have himage : (lowest n s).image (rank s) = Finset.range (min n s.card) := by
    ext r
    simp only [Finset.mem_image, mem_lowest, Finset.mem_range, lt_min_iff]
    constructor
    · rintro ⟨a, ⟨ha, hn⟩, rfl⟩
      exact ⟨hn, rank_lt_card ha⟩
    · rintro ⟨hn, hc⟩
      have hr : r ∈ s.image (rank s) := by
        rw [image_rank]
        exact Finset.mem_range.mpr hc
      obtain ⟨a, ha, rfl⟩ := Finset.mem_image.mp hr
      exact ⟨a, ⟨ha, hn⟩, rfl⟩
  rw [← Finset.card_image_of_injOn hinj, himage, Finset.card_range]

/-- The greatest member of an overfull part has rank at least `n` in the whole. -/
theorem le_rank_of_greatest {n : ℕ} {s t : Finset α} (hts : t ⊆ s) {a : α} (ha : a ∈ t)
    (hmax : ∀ b ∈ t, b ≤ a) (hn : n < t.card) : n ≤ rank s a := by
  have hsub : t.erase a ⊆ s.filter (· < a) := by
    intro b hb
    obtain ⟨hne, hbt⟩ := Finset.mem_erase.mp hb
    exact Finset.mem_filter.mpr ⟨hts hbt, lt_of_le_of_ne (hmax b hbt) hne⟩
  have hcard := Finset.card_le_card hsub
  rw [Finset.card_erase_of_mem ha] at hcard
  exact (Nat.le_sub_one_of_lt hn).trans hcard

/-- A part of size at most `n` that contains the `n` least members is them, as
soon as the whole has a member beyond. -/
theorem eq_lowest_of_full {n : ℕ} {s t : Finset α} (hlow : lowest n s ⊆ t) (hcard : t.card ≤ n)
    {a : α} (ha : a ∈ s) (hna : n ≤ rank s a) : t = lowest n s := by
  have hs := rank_lt_card ha
  refine (Finset.eq_of_subset_of_card_le hlow ?_).symm
  rw [card_lowest, min_eq_left (by omega)]
  exact hcard

end Catalyrst.Lib
