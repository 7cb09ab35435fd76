import Mathlib
import Catalyrst.Lib.Greedy
import Catalyrst.Lib.Instances

/-!
# Dividing time into years, months, weeks and days

`divide_time_in_years_months_weeks_and_days`, once in the snapshot generator on `f64`
and once in the sync crate on `i64`. Both are read on integers: the timestamps are
whole milliseconds far below 2^53, where `f64` is exact.
-/

namespace Catalyrst.Snapshots

open Catalyrst.Lib

structure TimeRange where
  initTimestamp : ℤ
  endTimestamp : ℤ
deriving DecidableEq, Repr

abbrev Size := {n : ℤ // 0 < n}

def msPerDay : ℤ := 86400000
def msPerWeek : ℤ := 7 * msPerDay
def msPerMonth : ℤ := 4 * msPerWeek
def msPerYear : ℤ := 12 * msPerMonth

def intervalSizes : List Size :=
  [⟨msPerYear, by decide⟩, ⟨msPerMonth, by decide⟩, ⟨msPerWeek, by decide⟩, ⟨msPerDay, by decide⟩]

/-- `interval_sizes.get(idx)`, or a default. -/
def sizeOr (sizes : List Size) (k : ℕ) (default : ℤ) : ℤ :=
  (sizes[k]?).elim default Subtype.val

namespace Db

/-- `while remaining >= threshold`. -/
def pushIntervals (size : Size) (threshold : ℤ) (intervals : List TimeRange) (init remaining : ℤ) :
    List TimeRange × ℤ × ℤ :=
  if threshold ≤ remaining then
    pushIntervals size threshold (intervals ++ [⟨init, init + size⟩]) (init + size)
      (remaining - size)
  else (intervals, init, remaining)
termination_by (remaining - threshold + 1).toNat
decreasing_by
  have := size.2
  omega

/-- The loop over `interval_sizes`, from one index on. -/
def divideFrom : List Size → List TimeRange → ℤ → ℤ → List TimeRange × ℤ × ℤ
  | [], intervals, init, remaining => (intervals, init, remaining)
  | size :: sizes, intervals, init, remaining =>
    let nextSize := sizeOr sizes 0 size
    let numberOfNextInCurrent := size.1 / nextSize
    let next1 := sizeOr sizes 0 0
    let next2 := sizeOr sizes 1 0
    let next3 := sizeOr sizes 2 0
    let threshold := numberOfNextInCurrent * nextSize + next1 + next2 + next3
    let pushed := pushIntervals size threshold intervals init remaining
    divideFrom sizes pushed.1 pushed.2.1 pushed.2.2

/-- `catalyrst-db`: the intervals and the remainder. -/
def divideTimeInYearsMonthsWeeksAndDays (timeRange : TimeRange) : List TimeRange × TimeRange :=
  let timeSizeMs := timeRange.endTimestamp - timeRange.initTimestamp
  let divided := divideFrom intervalSizes [] timeRange.initTimestamp timeSizeMs
  (divided.1, ⟨divided.2.1, timeRange.endTimestamp⟩)

end Db

namespace Server

def minNeeded (size : Size) (sizes : List Size) : ℤ :=
  let nextSize := sizeOr sizes 0 size
  let numNextInCurrent := size.1 / nextSize
  numNextInCurrent * nextSize + sizeOr sizes 0 0 + sizeOr sizes 1 0 + sizeOr sizes 2 0

/-- The `loop` of one interval size, which computes `min_needed` in every round. -/
def cutIntervals (size : Size) (sizes : List Size) (intervals : List TimeRange)
    (init remaining : ℤ) : List TimeRange × ℤ × ℤ :=
  if remaining < minNeeded size sizes then (intervals, init, remaining)
  else
    cutIntervals size sizes (intervals ++ [⟨init, init + size⟩]) (init + size) (remaining - size)
termination_by (remaining - minNeeded size sizes + 1).toNat
decreasing_by
  have := size.2
  omega

def divideFrom : List Size → List TimeRange → ℤ → ℤ → List TimeRange × ℤ × ℤ
  | [], intervals, init, remaining => (intervals, init, remaining)
  | size :: sizes, intervals, init, remaining =>
    let cut := cutIntervals size sizes intervals init remaining
    divideFrom sizes cut.1 cut.2.1 cut.2.2

/-- `catalyrst-server`: the fields of `TimeRangeDivision`. -/
def divideTimeInYearsMonthsWeeksAndDays (timeRange : TimeRange) : List TimeRange × TimeRange :=
  let totalSize := timeRange.endTimestamp - timeRange.initTimestamp
  let divided := divideFrom intervalSizes [] timeRange.initTimestamp totalSize
  (divided.1, ⟨divided.2.1, timeRange.endTimestamp⟩)

theorem cutIntervals_eq (size : Size) (sizes : List Size) (intervals : List TimeRange)
    (init remaining : ℤ) :
    cutIntervals size sizes intervals init remaining =
      Db.pushIntervals size (minNeeded size sizes) intervals init remaining := by
  fun_induction cutIntervals size sizes intervals init remaining with
  | case1 intervals init remaining h =>
    rw [Db.pushIntervals, if_neg (not_le.mpr h)]
  | case2 intervals init remaining h ih =>
    rw [Db.pushIntervals, if_pos (not_lt.mp h), ih]

theorem divideFrom_eq (sizes : List Size) (intervals : List TimeRange) (init remaining : ℤ) :
    divideFrom sizes intervals init remaining = Db.divideFrom sizes intervals init remaining := by
  induction sizes generalizing intervals init remaining with
  | nil => rfl
  | cons size sizes ih =>
    simp only [divideFrom, Db.divideFrom, cutIntervals_eq, minNeeded, ih]

end Server

/-- The ranges follow one another from `a` to `b`. -/
def Spans : List TimeRange → ℤ → ℤ → Prop
  | [], a, b => a = b
  | iv :: ivs, a, b => iv.initTimestamp = a ∧ a < iv.endTimestamp ∧ Spans ivs iv.endTimestamp b

/-- `b` is an end of one of the ranges that start at `a`, or `a` itself. -/
def Boundary (ivs : List TimeRange) (a b : ℤ) : Prop :=
  ∃ front back, ivs = front ++ back ∧ Spans front a b

section Spans

variable {ivs front back : List TimeRange} {iv : TimeRange} {a b c z : ℤ}

theorem Spans.le (h : Spans ivs a b) : a ≤ b := by
  induction ivs generalizing a with
  | nil => exact le_of_eq h
  | cons iv ivs ih => exact h.2.1.le.trans (ih h.2.2)

theorem Spans.eq (h : Spans ivs a b) (h' : Spans ivs a c) : b = c := by
  induction ivs generalizing a with
  | nil => exact h.symm.trans h'
  | cons iv ivs ih => exact ih h.2.2 h'.2.2

theorem spans_append : Spans (front ++ back) a c ↔ ∃ b, Spans front a b ∧ Spans back b c := by
  induction front generalizing a with
  | nil => simp [Spans]
  | cons iv front ih =>
    simp only [List.cons_append, Spans, ih]
    constructor
    · rintro ⟨hi, hlt, b, hf, hb⟩
      exact ⟨b, ⟨hi, hlt, hf⟩, hb⟩
    · rintro ⟨b, ⟨hi, hlt, hf⟩, hb⟩
      exact ⟨hi, hlt, b, hf, hb⟩

/-- The ranges between two boundaries. -/
theorem Boundary.between (hb : Boundary ivs a b) (hc : Boundary ivs a c) (hlt : b < c) :
    ∃ l₁ l₂ l₃, ivs = l₁ ++ l₂ ++ l₃ ∧ Spans l₂ b c := by
  obtain ⟨front, back, rfl, hfront⟩ := hb
  obtain ⟨front', back', heq, hfront'⟩ := hc
  rcases List.append_eq_append_iff.mp heq with ⟨m, rfl, rfl⟩ | ⟨m, rfl, rfl⟩
  · obtain ⟨d, hd, hm⟩ := spans_append.mp hfront'
    rw [hd.eq hfront] at hm
    exact ⟨front, m, back', by simp, hm⟩
  · -- the boundary c would come first
    obtain ⟨d, hd, hm⟩ := spans_append.mp hfront
    rw [hd.eq hfront'] at hm
    exact absurd hm.le (not_le.mpr hlt)

theorem boundary_of_mem (h : Spans ivs a z) (hiv : iv ∈ ivs) :
    Boundary ivs a iv.initTimestamp ∧ Boundary ivs a iv.endTimestamp ∧
      iv.initTimestamp < iv.endTimestamp := by
  obtain ⟨front, back, rfl⟩ := List.append_of_mem hiv
  obtain ⟨b, hfront, hi, hlt, hback⟩ := spans_append.mp h
  rw [← hi] at hfront hlt
  refine ⟨⟨front, iv :: back, rfl, hfront⟩, ⟨front ++ [iv], back, by simp, ?_⟩, hlt⟩
  exact spans_append.mpr ⟨_, hfront, rfl, hlt, rfl⟩

theorem boundary_cons (hi : iv.initTimestamp = a) (hlt : a < iv.endTimestamp) :
    Boundary (iv :: ivs) a b ↔ b = a ∨ Boundary ivs iv.endTimestamp b := by
  constructor
  · rintro ⟨l, m, heq, hl⟩
    cases l with
    | nil => exact Or.inl hl.symm
    | cons x l =>
      obtain ⟨rfl, rfl⟩ := List.cons_eq_cons.mp heq
      exact Or.inr ⟨l, m, rfl, hl.2.2⟩
  · rintro (rfl | ⟨l, m, rfl, hl⟩)
    · exact ⟨[], iv :: ivs, rfl, rfl⟩
    · exact ⟨iv :: l, m, rfl, hi, hlt, hl⟩

/-- No boundary lies inside one of the ranges. -/
theorem boundary_outside (h : Spans ivs a z) (hiv : iv ∈ ivs) (hb : Boundary ivs a b) :
    b ≤ iv.initTimestamp ∨ iv.endTimestamp ≤ b := by
  induction ivs generalizing a with
  | nil => cases hiv
  | cons x ivs ih =>
    obtain ⟨hi, hlt, hrest⟩ := h
    rcases (boundary_cons hi hlt).mp hb with rfl | hb
    · refine Or.inl ?_
      rcases List.mem_cons.mp hiv with rfl | hiv
      · exact hi.ge
      · obtain ⟨⟨front, back, -, hf⟩, -⟩ := boundary_of_mem hrest hiv
        exact hlt.le.trans hf.le
    · rcases List.mem_cons.mp hiv with rfl | hiv
      · obtain ⟨front, back, -, hf⟩ := hb
        exact Or.inr hf.le
      · exact ih hrest hiv hb

/-- The boundaries of a concatenation. -/
theorem boundary_append (h : Spans front a b) :
    Boundary (front ++ back) a c ↔ Boundary front a c ∨ Boundary back b c := by
  constructor
  · rintro ⟨l, m, heq, hl⟩
    rcases List.append_eq_append_iff.mp heq with ⟨k, rfl, rfl⟩ | ⟨k, rfl, rfl⟩
    · obtain ⟨d, hd, hk⟩ := spans_append.mp hl
      rw [hd.eq h] at hk
      exact Or.inr ⟨k, m, rfl, hk⟩
    · exact Or.inl ⟨l, k, rfl, hl⟩
  · rintro (⟨l, m, rfl, hl⟩ | ⟨l, m, rfl, hl⟩)
    · exact ⟨l, m ++ back, by simp, hl⟩
    · exact ⟨front ++ l, m, by simp, spans_append.mpr ⟨b, h, hl⟩⟩

theorem boundary_nil : Boundary [] a b ↔ a = b := by
  constructor
  · rintro ⟨l, m, heq, hl⟩
    rw [(List.append_eq_nil_iff.mp heq.symm).1] at hl
    exact hl
  · rintro rfl
    exact ⟨[], [], rfl, rfl⟩

end Spans

section Divide

/-- What the loop of one size appends: as many intervals as `count` says. -/
theorem pushIntervals_spec (size : Size) (threshold : ℤ) (intervals : List TimeRange)
    (init remaining : ℤ) :
    ∃ ivs, Db.pushIntervals size threshold intervals init remaining =
        (intervals ++ ivs, init + Greedy.count size threshold remaining * size,
          remaining - Greedy.count size threshold remaining * size) ∧
      Spans ivs init (init + Greedy.count size threshold remaining * size) ∧
      ∀ b, Boundary ivs init b ↔
        ∃ j, 0 ≤ j ∧ j ≤ Greedy.count size threshold remaining ∧ b - init = j * size := by
  fun_induction Db.pushIntervals size threshold intervals init remaining with
  | case1 intervals init remaining h ih =>
    obtain ⟨ivs, heq, hspans, hbound⟩ := ih
    rw [Greedy.count_sub size.2 h] at heq hspans hbound
    set k := Greedy.count size threshold remaining with hk
    have hpos : 0 ≤ k - 1 := by
      rw [hk, ← Greedy.count_sub size.2 h]
      exact Greedy.count_nonneg
    have hlt : init < init + size := by
      have := size.2
      omega
    have hend : init + size + (k - 1) * size = init + k * size := by ring
    have hrest : remaining - size - (k - 1) * size = remaining - k * size := by ring
    refine ⟨⟨init, init + size⟩ :: ivs, ?_, ⟨rfl, hlt, hend ▸ hspans⟩, fun b => ?_⟩
    · rw [heq, hend, hrest, List.append_assoc]
      rfl
    · rw [boundary_cons rfl hlt, hbound]
      constructor
      · rintro (rfl | ⟨j, hj, hjk, hb⟩)
        · exact ⟨0, le_rfl, by omega, by ring⟩
        · exact ⟨j + 1, by omega, by omega, by linarith⟩
      · rintro ⟨j, hj, hjk, hb⟩
        by_cases hzero : j = 0
        · refine Or.inl ?_
          rw [hzero] at hb
          linarith
        · exact Or.inr ⟨j - 1, by omega, by omega, by linarith⟩
  | case2 intervals init remaining h =>
    have hzero := Greedy.count_eq_zero size.2 (not_le.mp h)
    refine ⟨[], by simp [hzero], by simp [hzero, Spans], fun b => ?_⟩
    rw [boundary_nil, hzero]
    constructor
    · rintro rfl
      exact ⟨0, le_rfl, le_rfl, by ring⟩
    · rintro ⟨j, hj, hj0, hb⟩
      obtain rfl : j = 0 := le_antisymm hj0 hj
      omega

/-- The look-ahead of a size is that size and all smaller ones. -/
theorem minNeeded_eq {size : Size} {sizes : List Size}
    (hn : Greedy.Nested ((size :: sizes).map Subtype.val)) (hl : sizes.length ≤ 3) :
    Server.minNeeded size sizes = size + (sizes.map Subtype.val).sum := by
  obtain ⟨-, hdvd, -, -⟩ := hn
  match sizes, hl with
  | [], _ => simp [Server.minNeeded, sizeOr, Int.ediv_self size.2.ne']
  | [a], _ =>
    have ha : a.1 ∣ size.1 := hdvd a.1 rfl
    simp [Server.minNeeded, sizeOr, Int.ediv_mul_cancel ha]
  | [a, b], _ =>
    have ha : a.1 ∣ size.1 := hdvd a.1 rfl
    simp [Server.minNeeded, sizeOr, Int.ediv_mul_cancel ha]
    ring
  | [a, b, c], _ =>
    have ha : a.1 ∣ size.1 := hdvd a.1 rfl
    simp [Server.minNeeded, sizeOr, Int.ediv_mul_cancel ha]
    ring

theorem divideFrom_cons (size : Size) (sizes : List Size) (intervals : List TimeRange)
    (init remaining : ℤ) :
    Db.divideFrom (size :: sizes) intervals init remaining =
      Db.divideFrom sizes
        (Db.pushIntervals size (Server.minNeeded size sizes) intervals init remaining).1
        (Db.pushIntervals size (Server.minNeeded size sizes) intervals init remaining).2.1
        (Db.pushIntervals size (Server.minNeeded size sizes) intervals init remaining).2.2 := rfl

/-- The division of a length into nested sizes: consecutive intervals that end at the cutting
points. -/
theorem divideFrom_spec {sizes : List Size} (hn : Greedy.Nested (sizes.map Subtype.val))
    (hl : sizes.length ≤ 4) (intervals : List TimeRange) (init remaining : ℤ) :
    ∃ ivs z, Db.divideFrom sizes intervals init remaining =
        (intervals ++ ivs, z, init + remaining - z) ∧ Spans ivs init z ∧
      (∀ b, Boundary ivs init b ↔ Greedy.Cut (sizes.map Subtype.val) remaining (b - init)) ∧
      (0 ≤ remaining → z ≤ init + remaining) ∧ (remaining < 0 → ivs = []) := by
  induction sizes generalizing intervals init remaining with
  | nil =>
    refine ⟨[], init, by simp [Db.divideFrom], rfl, fun b => ?_, by omega, fun _ => rfl⟩
    rw [boundary_nil]
    simp only [List.map_nil, Greedy.Cut]
    omega
  | cons size sizes ih =>
    have hthreshold := minNeeded_eq hn (by simp at hl; omega)
    obtain ⟨hs, -, -, hnested⟩ := id hn
    obtain ⟨front, hpush, hfront, hbound⟩ :=
      pushIntervals_spec size (Server.minNeeded size sizes) intervals init remaining
    rw [hthreshold] at hpush hfront hbound
    set k := Greedy.count size.1 (size.1 + (sizes.map Subtype.val).sum) remaining with hk
    have hknn : 0 ≤ k := Greedy.count_nonneg
    have hsum := hnested.sum_nonneg
    obtain ⟨back, z, hdiv, hback, hboundback, hz, hnone⟩ := ih hnested (by simp at hl; omega)
      (intervals ++ front) (init + k * size) (remaining - k * size)
    have hkeep : 0 ≤ remaining → 0 ≤ remaining - k * size.1 := by
      intro hr
      rcases hknn.eq_or_lt with hzero | hpos
      · rw [← hzero]
        omega
      · have hge := Greedy.le_of_count_pos hs hpos
        rw [← hk, sub_mul, one_mul] at hge
        omega
    refine ⟨front ++ back, z, ?_, spans_append.mpr ⟨_, hfront, hback⟩, fun b => ?_, ?_, ?_⟩
    · rw [divideFrom_cons, hthreshold, hpush]
      dsimp only
      rw [hdiv, List.append_assoc]
      congr 2
      ring
    · rw [boundary_append hfront, hbound, hboundback]
      simp only [List.map_cons, Greedy.Cut]
      rw [← hk]
      have hsub : b - (init + k * size.1) = b - init - k * size.1 := by ring
      rw [hsub]
    · intro hr
      have hz' := hz (hkeep hr)
      omega
    · intro hr
      have hzero : k = 0 := Greedy.count_eq_zero hs (by omega)
      have hfnil : front = [] := by
        cases front with
        | nil => rfl
        | cons iv front =>
          rw [hzero] at hfront
          have hle := hfront.2.2.le
          have hlt := hfront.2.1
          omega
      rw [hfnil, hnone (by rw [hzero]; omega)]
      rfl

theorem intervalSizes_nested : Greedy.Nested (intervalSizes.map Subtype.val) := by
  simp only [intervalSizes, List.map_cons, List.map_nil, Greedy.Nested]
  decide

/-- The division of a time range. -/
theorem divide_spec (init e : ℤ) :
    ∃ z, (Db.divideTimeInYearsMonthsWeeksAndDays ⟨init, e⟩).2 = ⟨z, e⟩ ∧
      Spans (Db.divideTimeInYearsMonthsWeeksAndDays ⟨init, e⟩).1 init z ∧
      (∀ b, Boundary (Db.divideTimeInYearsMonthsWeeksAndDays ⟨init, e⟩).1 init b ↔
        Greedy.Cut (intervalSizes.map Subtype.val) (e - init) (b - init)) ∧
      ((Db.divideTimeInYearsMonthsWeeksAndDays ⟨init, e⟩).1 ≠ [] → z ≤ e) := by
  obtain ⟨ivs, z, hdiv, hspans, hbound, hz, hnone⟩ :=
    divideFrom_spec intervalSizes_nested (by decide) [] init (e - init)
  simp only [Db.divideTimeInYearsMonthsWeeksAndDays, hdiv, List.nil_append]
  refine ⟨z, rfl, hspans, hbound, fun hne => ?_⟩
  by_cases hr : 0 ≤ e - init
  · have hz' := hz hr
    omega
  · exact absurd (hnone (by omega)) hne

theorem mem_getLast_of_spans {ivs : List TimeRange} {last : TimeRange} {a z : ℤ}
    (h : Spans ivs a z) (hlast : ivs.getLast? = some last) : last.endTimestamp = z := by
  obtain ⟨front, rfl⟩ := List.getLast?_eq_some_iff.mp hlast
  obtain ⟨b, -, hb⟩ := spans_append.mp h
  exact hb.2.2

/-- A boundary of a later division is one of the earlier division, as far as that reaches. -/
theorem boundary_earlier {init e e' b : ℤ} (h : e ≤ e')
    (hb : Boundary (Db.divideTimeInYearsMonthsWeeksAndDays ⟨init, e'⟩).1 init b) (hbe : b ≤ e) :
    Boundary (Db.divideTimeInYearsMonthsWeeksAndDays ⟨init, e⟩).1 init b := by
  obtain ⟨-, -, -, hbound, -⟩ := divide_spec init e
  obtain ⟨-, -, -, hbound', -⟩ := divide_spec init e'
  refine (hbound b).mpr ?_
  exact Greedy.Cut.shorten intervalSizes_nested (by omega) ((hbound' b).mp hb) (by omega)

/-- **Later divisions coarsen earlier ones.** An interval of a later division that lies
within the earlier division is made up of consecutive intervals of it; and the two
implementations divide alike. -/
theorem divide_coarsens (init e e' : ℤ) (h : e ≤ e') :
    (∀ last, (Db.divideTimeInYearsMonthsWeeksAndDays ⟨init, e⟩).1.getLast? = some last →
      ∀ iv ∈ (Db.divideTimeInYearsMonthsWeeksAndDays ⟨init, e'⟩).1,
        iv.endTimestamp ≤ last.endTimestamp →
        ∃ l₁ l₂ l₃, (Db.divideTimeInYearsMonthsWeeksAndDays ⟨init, e⟩).1 = l₁ ++ l₂ ++ l₃ ∧
          l₂ ≠ [] ∧ Spans l₂ iv.initTimestamp iv.endTimestamp) ∧
    ∀ timeRange, Server.divideTimeInYearsMonthsWeeksAndDays timeRange =
      Db.divideTimeInYearsMonthsWeeksAndDays timeRange := by
  constructor
  · intro last hlast iv hiv hle
    obtain ⟨z, -, hspans, -, hz⟩ := divide_spec init e
    obtain ⟨z', -, hspans', -, -⟩ := divide_spec init e'
    have hne : (Db.divideTimeInYearsMonthsWeeksAndDays ⟨init, e⟩).1 ≠ [] := by
      intro hnil
      rw [hnil] at hlast
      cases hlast
    have hzle := hz hne
    rw [mem_getLast_of_spans hspans hlast] at hle
    obtain ⟨hfirst, hend, hlt⟩ := boundary_of_mem hspans' hiv
    obtain ⟨l₁, l₂, l₃, heq, hl₂⟩ :=
      (boundary_earlier h hfirst (by omega)).between (boundary_earlier h hend (by omega)) hlt
    refine ⟨l₁, l₂, l₃, heq, ?_, hl₂⟩
    rintro rfl
    exact absurd hl₂ hlt.ne
  · intro timeRange
    simp only [Server.divideTimeInYearsMonthsWeeksAndDays, Db.divideTimeInYearsMonthsWeeksAndDays,
      Server.divideFrom_eq]

/-- The month that the 36th day completes consists of the four weeks before it. -/
theorem divide_coarsens_month :
    ∃ l₁ l₂ l₃, (Db.divideTimeInYearsMonthsWeeksAndDays ⟨0, 35 * msPerDay⟩).1 = l₁ ++ l₂ ++ l₃ ∧
      l₂ ≠ [] ∧ Spans l₂ 0 msPerMonth :=
  (divide_coarsens 0 (35 * msPerDay) (36 * msPerDay) (by decide)).1
    ⟨34 * msPerDay, 35 * msPerDay⟩ (by decide +kernel) ⟨0, msPerMonth⟩ (by decide +kernel) (by decide)

/-- The intervals of the passes until `e`. -/
abbrev intervalsUntil (init e : ℤ) : List TimeRange :=
  (Db.divideTimeInYearsMonthsWeeksAndDays ⟨init, e⟩).1

section Nesting

variable {init e e₀ e' : ℤ} {r iv : TimeRange}

theorem interval_proper (hr : r ∈ intervalsUntil init e) :
    r.initTimestamp < r.endTimestamp ∧ r.endTimestamp ≤ e := by
  obtain ⟨z, -, hspans, -, hz⟩ := divide_spec init e
  obtain ⟨-, ⟨front, back, heq, hfront⟩, hlt⟩ := boundary_of_mem hspans hr
  refine ⟨hlt, ?_⟩
  have hne : intervalsUntil init e ≠ [] := List.ne_nil_of_mem hr
  obtain ⟨b, hb, hback⟩ := spans_append.mp (heq ▸ hspans)
  rw [hb.eq hfront] at hback
  exact hback.le.trans (hz hne)

theorem intervalsUntil_nodup : (intervalsUntil init e).Nodup := by
  obtain ⟨z, -, hspans, -, -⟩ := divide_spec init e
  have hnodup : ∀ (ivs : List TimeRange) (a : ℤ), Spans ivs a z → ivs.Nodup := by
    intro ivs
    induction ivs with
    | nil => exact fun _ _ => List.nodup_nil
    | cons iv ivs ih =>
      intro a h
      refine List.nodup_cons.mpr ⟨fun hmem => ?_, ih _ h.2.2⟩
      obtain ⟨⟨front, back, -, hfront⟩, -⟩ := boundary_of_mem h.2.2 hmem
      have hle := hfront.le
      have hi := h.1
      have hlt := h.2.1
      omega
  exact hnodup _ _ hspans

/-- An interval of an earlier division lies within an interval of a later one or beside it. -/
theorem within_or_beside (h : e₀ ≤ e) (hr : r ∈ intervalsUntil init e₀)
    (hiv : iv ∈ intervalsUntil init e) :
    (iv.initTimestamp ≤ r.initTimestamp ∧ r.endTimestamp ≤ iv.endTimestamp) ∨
      iv.endTimestamp ≤ r.initTimestamp ∨ r.endTimestamp ≤ iv.initTimestamp := by
  obtain ⟨z, -, hspans, -, -⟩ := divide_spec init e
  obtain ⟨z₀, -, hspans₀, -, -⟩ := divide_spec init e₀
  obtain ⟨hrlt, hre⟩ := interval_proper hr
  obtain ⟨hfirst, hend, hlt⟩ := boundary_of_mem hspans hiv
  have hout : ∀ b, Boundary (intervalsUntil init e) init b →
      b ≤ r.initTimestamp ∨ r.endTimestamp ≤ b := by
    intro b hb
    by_cases hbe : b ≤ e₀
    · exact boundary_outside hspans₀ hr (boundary_earlier h hb hbe)
    · exact Or.inr (by omega)
  have h₁ := hout _ hfirst
  have h₂ := hout _ hend
  omega

theorem eq_of_within (hr : r ∈ intervalsUntil init e) (hiv : iv ∈ intervalsUntil init e)
    (h₁ : iv.initTimestamp ≤ r.initTimestamp) (h₂ : r.endTimestamp ≤ iv.endTimestamp) : r = iv := by
  obtain ⟨z, -, hspans, -, -⟩ := divide_spec init e
  obtain ⟨hfirst, hend, hlt⟩ := boundary_of_mem hspans hr
  have hi := boundary_outside hspans hiv hfirst
  have he := boundary_outside hspans hiv hend
  have hinit : r.initTimestamp = iv.initTimestamp := by omega
  have hfin : r.endTimestamp = iv.endTimestamp := by omega
  cases r
  cases iv
  simp only [TimeRange.mk.injEq]
  exact ⟨hinit, hfin⟩

/-- An interval of an earlier and of a later division is one of every division between. -/
theorem mem_between (h₀ : e₀ ≤ e) (h : e ≤ e') (hr₀ : r ∈ intervalsUntil init e₀)
    (hr' : r ∈ intervalsUntil init e') : r ∈ intervalsUntil init e := by
  obtain ⟨z', -, hspans', -, -⟩ := divide_spec init e'
  obtain ⟨z, -, hspans, -, -⟩ := divide_spec init e
  obtain ⟨z₀, -, hspans₀, -, -⟩ := divide_spec init e₀
  obtain ⟨hlt, hre⟩ := interval_proper hr₀
  obtain ⟨hfirst, hend, -⟩ := boundary_of_mem hspans' hr'
  obtain ⟨l₁, l₂, l₃, heq, hl₂⟩ :=
    (boundary_earlier h hfirst (by omega)).between (boundary_earlier h hend (by omega)) hlt
  -- the first range between the two ends already reaches the second
  cases l₂ with
  | nil => exact absurd hl₂ hlt.ne
  | cons first rest =>
    obtain ⟨hi, hfl, hrest⟩ := hl₂
    have hmem : first ∈ intervalsUntil init e := by
      rw [intervalsUntil, heq]
      simp
    obtain ⟨-, hfend, -⟩ := boundary_of_mem hspans hmem
    have hle := hrest.le
    have hout := boundary_outside hspans₀ hr₀ (boundary_earlier h₀ hfend (by omega))
    have heqend : first.endTimestamp = r.endTimestamp := by omega
    have hsame : first = r := by
      cases first
      cases r
      simp only [TimeRange.mk.injEq]
      exact ⟨hi, heqend⟩
    exact hsame ▸ hmem

end Nesting

end Divide

end Catalyrst.Snapshots
