import Mathlib

/-!
# Greedy division with look-ahead

A length is cut into pieces of decreasing sizes. A piece of a size is cut as long as
what remains holds that piece and one piece of each smaller size, so the tail is
always worked off in small pieces. `Cut sizes r` are the cutting points of a length
`r`. For sizes that divide one another the points of a longer length, as far as they
lie within a shorter one, are points of the shorter one too (`Cut.shorten`).
-/

namespace Catalyrst.Lib.Greedy

/-- How many pieces of size `s` are cut while at least `t` remains. -/
def count (s t r : ℤ) : ℤ := max ((r - t) / s + 1) 0

section Count

variable {s t r r' : ℤ}

theorem count_nonneg : 0 ≤ count s t r := le_max_right _ _

theorem count_lt (hs : 0 < s) : r - count s t r * s < t := by
  have hfloor : r - t < ((r - t) / s + 1) * s := by
    rw [add_mul, one_mul, mul_comm]
    exact Int.lt_mul_ediv_self_add hs
  have hle : ((r - t) / s + 1) * s ≤ count s t r * s :=
    mul_le_mul_of_nonneg_right (le_max_left _ _) hs.le
  omega

theorem le_of_count_pos (hs : 0 < s) (h : 0 < count s t r) : t ≤ r - (count s t r - 1) * s := by
  have heq : count s t r = (r - t) / s + 1 := by
    rcases max_choice ((r - t) / s + 1) 0 with hm | hm
    · exact hm
    · exact absurd h (by rw [count, hm]; exact lt_irrefl 0)
  have hfloor : (r - t) / s * s ≤ r - t := Int.ediv_mul_le _ hs.ne'
  rw [heq, add_sub_cancel_right]
  omega

theorem count_eq (hs : 0 < s) {k : ℤ} (hk : 0 ≤ k) (hlt : r - k * s < t)
    (hle : k = 0 ∨ t ≤ r - (k - 1) * s) : count s t r = k := by
  have hc := count_lt (t := t) (r := r) hs
  have hnn : 0 ≤ count s t r := count_nonneg
  rcases lt_trichotomy (count s t r) k with h | h | h
  · rcases hle with rfl | hle
    · omega
    · have hmul : count s t r * s ≤ (k - 1) * s := mul_le_mul_of_nonneg_right (by omega) hs.le
      omega
  · exact h
  · have hge := le_of_count_pos (t := t) (r := r) hs (by omega)
    have hmul : k * s ≤ (count s t r - 1) * s := mul_le_mul_of_nonneg_right (by omega) hs.le
    omega

theorem count_eq_zero (hs : 0 < s) (h : r < t) : count s t r = 0 :=
  count_eq hs le_rfl (by omega) (Or.inl rfl)

/-- One turn of the loop. -/
theorem count_sub (hs : 0 < s) (h : t ≤ r) : count s t (r - s) = count s t r - 1 := by
  have hpos : 0 < count s t r := by
    by_contra hzero
    have hzero' : count s t r = 0 := le_antisymm (by omega) count_nonneg
    have hlt := count_lt (t := t) (r := r) hs
    rw [hzero'] at hlt
    omega
  have hlt := count_lt (t := t) (r := r) hs
  refine count_eq hs (by omega) ?_ ?_
  · rw [sub_mul, one_mul]
    omega
  · by_cases hone : count s t r = 1
    · exact Or.inl (by omega)
    · refine Or.inr ?_
      have hge := le_of_count_pos hs hpos
      rw [sub_mul, one_mul] at hge
      rw [sub_mul, sub_mul, one_mul]
      omega

theorem count_mono (hs : 0 < s) (h : r ≤ r') : count s t r ≤ count s t r' := by
  refine max_le_max ?_ le_rfl
  have hdiv : (r - t) / s ≤ (r' - t) / s := Int.ediv_le_ediv hs (by omega)
  omega

end Count

/-- Each size is positive, a multiple of the next one and no less than all smaller ones
together. -/
def Nested : List ℤ → Prop
  | [] => True
  | s :: sizes => 0 < s ∧ (∀ u ∈ sizes.head?, u ∣ s) ∧ sizes.sum ≤ s ∧ Nested sizes

/-- The cutting points of a length `r`. -/
def Cut : List ℤ → ℤ → ℤ → Prop
  | [], _, b => b = 0
  | s :: sizes, r, b =>
    (∃ j, 0 ≤ j ∧ j ≤ count s (s + sizes.sum) r ∧ b = j * s) ∨
      Cut sizes (r - count s (s + sizes.sum) r * s) (b - count s (s + sizes.sum) r * s)

theorem Nested.sum_nonneg {sizes : List ℤ} (h : Nested sizes) : 0 ≤ sizes.sum := by
  induction sizes with
  | nil => simp
  | cons s sizes ih =>
    rw [List.sum_cons]
    have hs := h.1
    have hrest := ih h.2.2.2
    omega

theorem Cut.nonneg {sizes : List ℤ} (h : Nested sizes) {r b : ℤ} (hb : Cut sizes r b) : 0 ≤ b := by
  induction sizes generalizing r b with
  | nil => exact hb.ge
  | cons s sizes ih =>
    rcases hb with ⟨j, hj, -, rfl⟩ | hb
    · exact mul_nonneg hj h.1.le
    · have hrest := ih h.2.2.2 hb
      have hk : 0 ≤ count s (s + sizes.sum) r * s := mul_nonneg count_nonneg h.1.le
      omega

/-- Every multiple of the largest size within the length is a cutting point. -/
theorem cut_mul {s : ℤ} {sizes : List ℤ} (h : Nested (s :: sizes)) {r c : ℤ} (hc : 0 ≤ c)
    (hle : c * s ≤ r) : Cut (s :: sizes) r (c * s) := by
  induction sizes generalizing s r c with
  | nil =>
    refine Or.inl ⟨c, hc, ?_, rfl⟩
    have hlt := count_lt (t := s + [].sum) (r := r) h.1
    have hk : 0 ≤ count s (s + [].sum) r := count_nonneg
    by_contra hgt
    have hmul : (count s (s + [].sum) r + 1) * s ≤ c * s :=
      mul_le_mul_of_nonneg_right (by omega) h.1.le
    rw [add_mul, one_mul] at hmul
    rw [List.sum_nil, add_zero] at hlt hmul
    omega
  | cons u sizes ih =>
    obtain ⟨hs, hdvd, hsum, hrest⟩ := h
    set t := s + (u :: sizes).sum
    have hlt : r - count s t r * s < t := count_lt hs
    have hk : 0 ≤ count s t r := count_nonneg
    by_cases hck : c ≤ count s t r
    · exact Or.inl ⟨c, hc, hck, rfl⟩
    · -- the length holds one piece more than was cut; it is made up of smaller ones
      have hc1 : c = count s t r + 1 := by
        by_contra hne
        have hmul : (count s t r + 2) * s ≤ c * s := mul_le_mul_of_nonneg_right (by omega) hs.le
        rw [add_mul] at hmul
        omega
      refine Or.inr ?_
      change Cut (u :: sizes) (r - count s t r * s) (c * s - count s t r * s)
      have hone : c * s - count s t r * s = s := by
        rw [hc1, add_mul, one_mul, add_sub_cancel_left]
      obtain ⟨d, hd⟩ := hdvd u rfl
      have hu := hrest.1
      have hd0 : 0 ≤ d := by
        by_contra hneg
        have hmul : u * d ≤ 0 := mul_nonpos_of_nonneg_of_nonpos hu.le (by omega)
        omega
      rw [hone, hd, mul_comm u d]
      refine ih hrest hd0 ?_
      rw [mul_comm d u, ← hd]
      omega

/-- A point before the first full look-ahead of a longer tail is still one when a piece
of the next larger size is put before it. -/
theorem Cut.carry {s : ℤ} {sizes : List ℤ} (h : Nested (s :: sizes)) {r r' b : ℤ}
    (hcut : Cut sizes r' b) (hr' : sizes.sum ≤ r') (hb : b < sizes.sum) (hle : s + b ≤ r)
    (hlt : r < s + sizes.sum) : Cut sizes r (s + b) := by
  induction sizes generalizing s r r' b with
  | nil =>
    rw [hcut, List.sum_nil] at hb
    exact absurd hb (lt_irrefl 0)
  | cons u sizes ih =>
    obtain ⟨hs, hdvd, hsum, hrest⟩ := h
    obtain ⟨hu, -, husum, hnested⟩ := id hrest
    obtain ⟨d, hd⟩ := hdvd u rfl
    have hd0 : 0 < d := by
      by_contra hneg
      have hmul : u * d ≤ 0 := mul_nonpos_of_nonneg_of_nonpos hu.le (by omega)
      omega
    rw [List.sum_cons] at hr' hb hlt
    set t := u + sizes.sum with ht
    rcases hcut with ⟨j, hj, -, rfl⟩ | hcut
    · have hmul : s + j * u = (d + j) * u := by rw [add_mul, hd, mul_comm u d]
      rw [hmul] at hle ⊢
      exact cut_mul hrest (by omega) hle
    · rw [← ht] at hcut
      have hb'' := hcut.nonneg hnested
      -- of the longer tail exactly one piece of size u lies before b
      have hpos : 0 < count u t r' := by
        by_contra hzero
        have hzero' : count u t r' = 0 := le_antisymm (by omega) count_nonneg
        have hc := count_lt (t := t) (r := r') hu
        rw [hzero'] at hc
        omega
      have hone : count u t r' = 1 := by
        by_contra hne
        have hmul : 2 * u ≤ count u t r' * u := mul_le_mul_of_nonneg_right (by omega) hu.le
        omega
      have hge := le_of_count_pos hu hpos
      rw [hone] at hcut hge hb''
      have hcount : count u t r = d := by
        refine count_eq hu hd0.le ?_ (Or.inr ?_)
        · rw [mul_comm d u, ← hd]
          omega
        · rw [sub_mul, mul_comm d u, ← hd]
          omega
      refine Or.inr ?_
      rw [← ht, hcount, mul_comm d u, ← hd]
      have hgoal : s + b - s = u + (b - 1 * u) := by omega
      rw [hgoal]
      refine ih hrest hcut ?_ ?_ ?_ ?_
      · omega
      · omega
      · omega
      · omega

/-- **Shortening keeps the points.** The cutting points of a longer length that lie within
a shorter one are cutting points of the shorter one. -/
theorem Cut.shorten {sizes : List ℤ} (h : Nested sizes) {r r' b : ℤ} (hr : r ≤ r')
    (hcut : Cut sizes r' b) (hb : b ≤ r) : Cut sizes r b := by
  induction sizes generalizing r r' b with
  | nil => exact hcut
  | cons s sizes ih =>
    rcases hcut with ⟨j, hj, -, rfl⟩ | hcut
    · exact cut_mul h hj hb
    · obtain ⟨hs, -, hsum, hnested⟩ := id h
      set t := s + sizes.sum with ht
      have hmono : count s t r ≤ count s t r' := count_mono hs hr
      have hlt : r - count s t r * s < t := count_lt hs
      have hb' := hcut.nonneg hnested
      refine Or.inr ?_
      rw [← ht]
      rcases hmono.eq_or_lt with heq | hgt
      · rw [← heq] at hcut
        exact ih hnested (by omega) hcut (by omega)
      · -- the longer length cuts one piece more, and b lies behind it
        have hnext : count s t r' = count s t r + 1 := by
          by_contra hne
          have hmul : (count s t r + 2) * s ≤ count s t r' * s :=
            mul_le_mul_of_nonneg_right (by omega) hs.le
          rw [add_mul] at hmul
          omega
        have hge := le_of_count_pos hs (lt_of_le_of_lt count_nonneg hgt)
        rw [hnext, add_sub_cancel_right] at hge
        rw [hnext, add_mul, one_mul] at hcut hb'
        have hgoal : b - count s t r * s = s + (b - (count s t r * s + s)) := by omega
        rw [hgoal]
        refine Cut.carry h hcut ?_ ?_ ?_ ?_
        · omega
        · omega
        · omega
        · omega

end Catalyrst.Lib.Greedy
