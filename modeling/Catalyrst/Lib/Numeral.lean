import Catalyrst.Lib.Instances

/-!
# Decimal numerals

A string of digits is read as a natural number or, behind a point, as a fraction. What the
position of the first digit that is not zero says about the size, and when comparing the
strings is comparing the values.
-/

namespace Catalyrst.Lib.Numeral

def IsDigits (s : List Char) : Prop := ∀ c ∈ s, c.isDigit = true

/-- `digits` as a whole number. -/
def wholeOf (s : List Char) : ℕ := Nat.ofDigitChars 10 s 0

/-- `digits` behind a point. -/
def fractionOf (s : List Char) : ℚ := wholeOf s / 10 ^ s.length

def digitOf (c : Char) : ℕ := c.toNat - '0'.toNat

variable {s t : List Char} {c d : Char}

theorem IsDigits.of_cons (h : IsDigits (c :: s)) : c.isDigit = true ∧ IsDigits s :=
  ⟨h c List.mem_cons_self, fun x hx => h x (List.mem_cons_of_mem c hx)⟩

theorem isDigits_append : IsDigits (s ++ t) ↔ IsDigits s ∧ IsDigits t := by
  unfold IsDigits
  simp only [List.mem_append]
  exact ⟨fun h => ⟨fun c hc => h c (.inl hc), fun c hc => h c (.inr hc)⟩,
    fun h c hc => hc.elim (h.1 c) (h.2 c)⟩

theorem toNat_of_isDigit (h : c.isDigit = true) : 48 ≤ c.toNat ∧ c.toNat ≤ 57 := by
  simp only [Char.isDigit, Bool.and_eq_true, decide_eq_true_eq] at h
  exact h

theorem digitOf_le (h : c.isDigit = true) : digitOf c ≤ 9 := by
  obtain ⟨-, hle⟩ := toNat_of_isDigit h
  have hzero : '0'.toNat = 48 := rfl
  unfold digitOf
  omega

theorem digitOf_pos (h : c.isDigit = true) (hne : c ≠ '0') : 1 ≤ digitOf c := by
  obtain ⟨hge, -⟩ := toNat_of_isDigit h
  have hnat : c.toNat ≠ 48 := fun h => hne (Char.toNat_inj.mp h)
  have hzero : '0'.toNat = 48 := rfl
  unfold digitOf
  omega

theorem wholeOf_nil : wholeOf [] = 0 := rfl

theorem wholeOf_append (s t : List Char) : wholeOf (s ++ t) = wholeOf s * 10 ^ t.length + wholeOf t := by
  unfold wholeOf
  rw [Nat.ofDigitChars_append, Nat.ofDigitChars_eq_ofDigitChars_zero, Nat.mul_comm]

theorem wholeOf_singleton (c : Char) : wholeOf [c] = digitOf c := by
  unfold wholeOf digitOf
  rw [Nat.ofDigitChars_cons, Nat.ofDigitChars_nil, Nat.mul_zero, Nat.zero_add]

theorem wholeOf_cons (c : Char) (s : List Char) :
    wholeOf (c :: s) = digitOf c * 10 ^ s.length + wholeOf s := by
  rw [← wholeOf_singleton, ← wholeOf_append]
  rfl

theorem wholeOf_lt (h : IsDigits s) : wholeOf s < 10 ^ s.length := by
  induction s with
  | nil => exact Nat.one_pos
  | cons c s ih =>
    obtain ⟨hc, hs⟩ := h.of_cons
    have hdigit : digitOf c * 10 ^ s.length ≤ 9 * 10 ^ s.length :=
      Nat.mul_le_mul_right _ (digitOf_le hc)
    have hrest := ih hs
    rw [wholeOf_cons, List.length_cons, pow_succ]
    omega

/-- A number without leading zeros has all its places. -/
theorem le_wholeOf (hc : c.isDigit = true) (hne : c ≠ '0') : 10 ^ s.length ≤ wholeOf (c :: s) := by
  have hdigit : 1 * 10 ^ s.length ≤ digitOf c * 10 ^ s.length :=
    Nat.mul_le_mul_right _ (digitOf_pos hc hne)
  rw [wholeOf_cons]
  omega

theorem wholeOf_zero_cons (s : List Char) : wholeOf ('0' :: s) = wholeOf s := by
  rw [wholeOf_cons]
  simp [digitOf]

/-- The first digit that is not zero gives the size. -/
theorem wholeOf_bounds (h : IsDigits s) (hk : s.findIdx (· ≠ '0') < s.length) :
    10 ^ (s.length - s.findIdx (· ≠ '0') - 1) ≤ wholeOf s ∧
      wholeOf s < 10 ^ (s.length - s.findIdx (· ≠ '0')) := by
  induction s with
  | nil => cases hk
  | cons c s ih =>
    obtain ⟨hc, hs⟩ := h.of_cons
    rw [List.findIdx_cons] at hk ⊢
    by_cases hzero : c = '0'
    · subst hzero
      simp only [ne_eq, not_true_eq_false, decide_false, cond_false, List.length_cons] at hk ⊢
      rw [wholeOf_zero_cons, Nat.add_sub_add_right]
      exact ih hs (Nat.lt_of_add_lt_add_right hk)
    · simp only [ne_eq, hzero, not_false_eq_true, decide_true, cond_true, List.length_cons,
        Nat.sub_zero, Nat.add_sub_cancel]
      exact ⟨le_wholeOf hc hzero, wholeOf_lt h⟩

/-! ### Fractions -/

theorem fractionOf_nil : fractionOf [] = 0 := by
  simp [fractionOf, wholeOf_nil]

theorem fractionOf_cons (c : Char) (s : List Char) :
    fractionOf (c :: s) = (digitOf c + fractionOf s) / 10 := by
  have hpow : (10 : ℚ) ^ s.length ≠ 0 := by positivity
  unfold fractionOf
  rw [wholeOf_cons, List.length_cons, pow_succ]
  push_cast
  field_simp

theorem fractionOf_nonneg (s : List Char) : 0 ≤ fractionOf s := by
  unfold fractionOf
  positivity

theorem fractionOf_lt_one (h : IsDigits s) : fractionOf s < 1 := by
  unfold fractionOf
  rw [div_lt_one (by positivity)]
  exact_mod_cast wholeOf_lt h

theorem fractionOf_append_zeros (s : List Char) (n : ℕ) :
    fractionOf (s ++ List.replicate n '0') = fractionOf s := by
  have hzeros : wholeOf (List.replicate n '0') = 0 := by
    unfold wholeOf
    rw [Nat.ofDigitChars_replicate_zero, Nat.mul_zero]
  have hpow : (10 : ℚ) ^ n ≠ 0 := by positivity
  unfold fractionOf
  rw [wholeOf_append, hzeros, List.length_append, List.length_replicate, pow_add]
  push_cast
  field_simp
  ring

/-- A fraction that does not end in a zero is positive, unless it is empty. -/
theorem fractionOf_pos (h : IsDigits s) (hlast : s.getLast? ≠ some '0') (hne : s ≠ []) :
    0 < fractionOf s := by
  induction s with
  | nil => exact absurd rfl hne
  | cons c s ih =>
    obtain ⟨hc, hs⟩ := h.of_cons
    rw [fractionOf_cons]
    cases s with
    | nil =>
      have hpos : 1 ≤ digitOf c := digitOf_pos hc fun hzero => hlast (by rw [hzero]; rfl)
      have hdigit : (1 : ℚ) ≤ digitOf c := by exact_mod_cast hpos
      rw [fractionOf_nil]
      linarith
    | cons d s =>
      have hrest : 0 < fractionOf (d :: s) := ih hs hlast (List.cons_ne_nil d s)
      have hdigit : (0 : ℚ) ≤ digitOf c := by positivity
      linarith

/-! ### Comparing -/

theorem compare_cast (m n : ℕ) : compare (m : ℚ) n = compare m n := by
  rcases lt_trichotomy m n with h | rfl | h
  · rw [compare_lt_iff_lt.mpr h, compare_lt_iff_lt.mpr (by exact_mod_cast h)]
  · rw [compare_eq_iff_eq.mpr rfl, compare_eq_iff_eq.mpr rfl]
  · rw [compare_gt_iff_gt.mpr h, compare_gt_iff_gt.mpr (by exact_mod_cast h)]

/-- The whole parts decide, and then the fractions. -/
theorem compare_parts {m n : ℕ} {x y : ℚ} (hx : 0 ≤ x ∧ x < 1) (hy : 0 ≤ y ∧ y < 1) :
    compare ((m : ℚ) + x) (n + y) = (compare m n).then (compare x y) := by
  rcases lt_trichotomy m n with h | rfl | h
  · have hle : (m : ℚ) + 1 ≤ n := by exact_mod_cast h
    rw [compare_lt_iff_lt.mpr h, compare_lt_iff_lt.mpr (by linarith [hx.2, hy.1])]
    rfl
  · rw [compare_eq_iff_eq.mpr (rfl : m = m), Ordering.eq_then]
    rcases lt_trichotomy x y with h | rfl | h
    · rw [compare_lt_iff_lt.mpr h, compare_lt_iff_lt.mpr (by linarith)]
    · rw [compare_eq_iff_eq.mpr rfl, compare_eq_iff_eq.mpr rfl]
    · rw [compare_gt_iff_gt.mpr h, compare_gt_iff_gt.mpr (by linarith)]
  · have hle : (n : ℚ) + 1 ≤ m := by exact_mod_cast h
    rw [compare_gt_iff_gt.mpr h, compare_gt_iff_gt.mpr (by linarith [hy.2, hx.1])]
    rfl

theorem compare_mul {x y z : ℚ} (hz : 0 < z) : compare (x * z) (y * z) = compare x y := by
  rcases lt_trichotomy x y with h | rfl | h
  · rw [compare_lt_iff_lt.mpr h, compare_lt_iff_lt.mpr (mul_lt_mul_of_pos_right h hz)]
  · rw [compare_eq_iff_eq.mpr rfl, compare_eq_iff_eq.mpr rfl]
  · rw [compare_gt_iff_gt.mpr h, compare_gt_iff_gt.mpr (mul_lt_mul_of_pos_right h hz)]

theorem compare_digits (hc : c.isDigit = true) (hd : d.isDigit = true) :
    compare c d = compare (digitOf c) (digitOf d) := by
  obtain ⟨hcge, -⟩ := toNat_of_isDigit hc
  obtain ⟨hdge, -⟩ := toNat_of_isDigit hd
  have hzero : '0'.toNat = 48 := rfl
  unfold digitOf
  rcases lt_trichotomy c d with h | rfl | h
  · have hlt : c.toNat < d.toNat := h
    rw [compare_lt_iff_lt.mpr h, compare_lt_iff_lt.mpr (by omega)]
  · rw [compare_eq_iff_eq.mpr rfl, compare_eq_iff_eq.mpr rfl]
  · have hlt : d.toNat < c.toNat := h
    rw [compare_gt_iff_gt.mpr h, compare_gt_iff_gt.mpr (by show _ < _; omega)]

theorem compare_fraction_cons (hc : c.isDigit = true) (hd : d.isDigit = true) (hs : IsDigits s)
    (ht : IsDigits t) : compare (fractionOf (c :: s)) (fractionOf (d :: t)) =
      (compare c d).then (compare (fractionOf s) (fractionOf t)) := by
  have hx := And.intro (fractionOf_nonneg s) (fractionOf_lt_one hs)
  have hy := And.intro (fractionOf_nonneg t) (fractionOf_lt_one ht)
  have htenth : (0 : ℚ) < 10⁻¹ := by norm_num
  rw [fractionOf_cons, fractionOf_cons, div_eq_mul_inv, div_eq_mul_inv, compare_mul htenth,
    compare_parts hx hy, compare_digits hc hd]

/-- Strings of one length compare as the numbers they are. -/
theorem compareLex_of_length_eq (hs : IsDigits s) (ht : IsDigits t) (hlen : s.length = t.length) :
    List.compareLex compare s t = compare (fractionOf s) (fractionOf t) := by
  induction s generalizing t with
  | nil =>
    rw [List.eq_nil_of_length_eq_zero hlen.symm, List.compareLex_nil_nil]
    exact (compare_eq_iff_eq.mpr rfl).symm
  | cons c s ih =>
    cases t with
    | nil => cases hlen
    | cons d t =>
      obtain ⟨hc, hs⟩ := hs.of_cons
      obtain ⟨hd, ht⟩ := ht.of_cons
      rw [List.compareLex_cons_cons, compare_fraction_cons hc hd hs ht,
        ih hs ht (Nat.succ.inj hlen)]

/-- Fractions without trailing zeros compare as their digits do. -/
theorem compareLex_fraction (hs : IsDigits s) (ht : IsDigits t) (hslast : s.getLast? ≠ some '0')
    (htlast : t.getLast? ≠ some '0') :
    List.compareLex compare s t = compare (fractionOf s) (fractionOf t) := by
  induction s generalizing t with
  | nil =>
    cases t with
    | nil =>
      rw [List.compareLex_nil_nil]
      exact (compare_eq_iff_eq.mpr rfl).symm
    | cons d t =>
      have hpos := fractionOf_pos ht htlast (List.cons_ne_nil d t)
      rw [List.compareLex_nil_cons, fractionOf_nil, compare_lt_iff_lt.mpr hpos]
  | cons c s ih =>
    cases t with
    | nil =>
      have hpos := fractionOf_pos hs hslast (List.cons_ne_nil c s)
      rw [List.compareLex_cons_nil, fractionOf_nil, compare_gt_iff_gt.mpr hpos]
    | cons d t =>
      obtain ⟨hc, hs⟩ := hs.of_cons
      obtain ⟨hd, ht⟩ := ht.of_cons
      have hrest : ∀ {x : Char} {u : List Char}, (x :: u).getLast? ≠ some '0' →
          u.getLast? ≠ some '0' := by
        intro x u h
        cases u with
        | nil => exact fun hnone => nomatch hnone
        | cons y u => exact h
      rw [List.compareLex_cons_cons, compare_fraction_cons hc hd hs ht,
        ih hs ht (hrest hslast) (hrest htlast)]

theorem wholeOf_eq (s : List Char) : (wholeOf s : ℚ) = fractionOf s * 10 ^ s.length := by
  have hpow : (10 : ℚ) ^ s.length ≠ 0 := by positivity
  rw [fractionOf, div_mul_cancel₀ _ hpow]

theorem wholeOf_lt_of_length_lt (hs : IsDigits s) (ht : IsDigits t) (hhead : t.head? ≠ some '0')
    (hlen : s.length < t.length) : wholeOf s < wholeOf t := by
  cases t with
  | nil => cases hlen
  | cons d t =>
    have hd : d ≠ '0' := fun h => hhead (by rw [h]; rfl)
    calc wholeOf s < 10 ^ s.length := wholeOf_lt hs
      _ ≤ 10 ^ t.length := Nat.pow_le_pow_right (by norm_num) (Nat.le_of_lt_succ hlen)
      _ ≤ wholeOf (d :: t) := le_wholeOf ht.of_cons.1 hd

/-- Whole numbers without leading zeros compare by their lengths, and then as their digits do. -/
theorem compareLex_whole (hs : IsDigits s) (ht : IsDigits t) (hshead : s.head? ≠ some '0')
    (hthead : t.head? ≠ some '0') :
    (compare s.length t.length).then (List.compareLex compare s t) =
      compare (wholeOf s) (wholeOf t) := by
  rcases lt_trichotomy s.length t.length with h | h | h
  · rw [compare_lt_iff_lt.mpr h, compare_lt_iff_lt.mpr (wholeOf_lt_of_length_lt hs ht hthead h)]
    rfl
  · rw [compare_eq_iff_eq.mpr h, Ordering.eq_then, compareLex_of_length_eq hs ht h, ← compare_cast,
      wholeOf_eq, wholeOf_eq, h, compare_mul (by positivity)]
  · rw [compare_gt_iff_gt.mpr h, compare_gt_iff_gt.mpr (wholeOf_lt_of_length_lt ht hs hshead h)]
    rfl

/-! ### Numerals without leading zeros -/

theorem digitChar_digitOf (h : c.isDigit = true) : Nat.digitChar (digitOf c) = c := by
  obtain ⟨hlo, hhi⟩ := toNat_of_isDigit h
  have hzero : '0'.toNat = 48 := rfl
  obtain ⟨k, hk⟩ : ∃ k, c.toNat = 48 + k := ⟨c.toNat - 48, by omega⟩
  have hc : c = Char.ofNat (48 + k) := by rw [← hk, Char.ofNat_toNat]
  have hdigit : digitOf c = k := by
    rw [digitOf, hzero]
    omega
  rw [hdigit, hc]
  have hlt : k < 10 := by omega
  interval_cases k <;> rfl

theorem toDigits_wholeOf (h : IsDigits s) (hne : s ≠ []) (hhead : 1 < s.length → s.head? ≠ some '0') :
    Nat.toDigits 10 (wholeOf s) = s := by
  induction s using List.reverseRecOn with
  | nil => exact absurd rfl hne
  | append_singleton s c ih =>
    obtain ⟨hs, hc⟩ := isDigits_append.mp h
    have hdigit := hc c (List.mem_singleton_self c)
    have hle := digitOf_le hdigit
    have hvalue : wholeOf (s ++ [c]) = wholeOf s * 10 + digitOf c := by
      rw [wholeOf_append, wholeOf_singleton, List.length_singleton, pow_one]
    cases s with
    | nil =>
      rw [List.nil_append, wholeOf_singleton, Nat.toDigits_of_lt_base (by omega),
        digitChar_digitOf hdigit]
    | cons d s =>
      have hd : d ≠ '0' := by
        intro hd
        exact hhead (by simp) (by rw [hd]; rfl)
      have hpos : 1 ≤ wholeOf (d :: s) :=
        le_trans (Nat.one_le_pow _ _ (by norm_num)) (le_wholeOf (hs d List.mem_cons_self) hd)
      have hrest := ih hs (List.cons_ne_nil d s) (fun _ => by simpa using hd)
      rw [hvalue, Nat.toDigits_of_base_le (by norm_num) (by omega),
        show (wholeOf (d :: s) * 10 + digitOf c) / 10 = wholeOf (d :: s) by omega,
        show (wholeOf (d :: s) * 10 + digitOf c) % 10 = digitOf c by omega, hrest,
        digitChar_digitOf hdigit]

/-! ### Signed numerals -/

def showInt : ℤ → List Char
  | .ofNat n => Nat.toDigits 10 n
  | .negSucc n => '-' :: Nat.toDigits 10 (n + 1)

/-- The number of digits behind at most one sign. -/
def readInt : List Char → Option ℤ
  | '-' :: s => if s ≠ [] ∧ s.all Char.isDigit = true then some (-(wholeOf s : ℤ)) else none
  | '+' :: s => if s ≠ [] ∧ s.all Char.isDigit = true then some (wholeOf s : ℤ) else none
  | s => if s ≠ [] ∧ s.all Char.isDigit = true then some (wholeOf s : ℤ) else none

/-- `str::parse::<i64>`: the number, if it has sixty-four bits. -/
def parseI64 (s : List Char) : Option ℤ := (readInt s).filter fun n => -2 ^ 63 ≤ n ∧ n < 2 ^ 63

theorem digits_toDigits (n : ℕ) : IsDigits (Nat.toDigits 10 n) := fun _ hc =>
  Nat.isDigit_of_mem_toDigits (by norm_num) (by norm_num) hc

theorem wholeOf_toDigits (n : ℕ) : wholeOf (Nat.toDigits 10 n) = n := Nat.ofDigitChars_ten_toDigits

theorem toDigits_ne_nil (n : ℕ) : Nat.toDigits 10 n ≠ [] := List.ne_nil_of_length_pos
  Nat.length_toDigits_pos

theorem not_minus_of_digits {s : List Char} (h : IsDigits s) : s.head? ≠ some '-' := by
  cases s with
  | nil => simp
  | cons c s =>
    intro hc
    have hdigit := h c List.mem_cons_self
    rw [Option.some.inj hc] at hdigit
    cases hdigit

theorem mem_showInt {n : ℤ} {c : Char} (h : c ∈ showInt n) : c.isDigit = true ∨ c = '-' := by
  cases n with
  | ofNat n => exact .inl (digits_toDigits n c h)
  | negSucc n =>
    rcases List.mem_cons.mp h with rfl | h
    · exact .inr rfl
    · exact .inl (digits_toDigits _ c h)

theorem head_toDigits {n : ℕ} (hpos : 0 < n) : (Nat.toDigits 10 n).head? ≠ some '0' := by
  induction n using Nat.strong_induction_on with
  | _ n ih =>
    by_cases hlt : n < 10
    · rw [Nat.toDigits_of_lt_base hlt]
      interval_cases n <;> decide
    · have hrest := ih (n / 10) (by omega) (by omega)
      rw [Nat.toDigits_of_base_le (by norm_num) (by omega), List.head?_append]
      cases hhead : (Nat.toDigits 10 (n / 10)).head? with
      | none => exact absurd (List.head?_eq_none_iff.mp hhead) (toDigits_ne_nil _)
      | some c =>
        rw [hhead] at hrest
        exact hrest

theorem showInt_minus {n : ℤ} (h : (showInt n).head? = some '-') : n < 0 := by
  cases n with
  | ofNat n => exact absurd h (not_minus_of_digits (digits_toDigits n))
  | negSucc n => exact Int.negSucc_lt_zero n

theorem readInt_showInt (n : ℤ) : readInt (showInt n) = some n := by
  have hdigits : ∀ m, (Nat.toDigits 10 m).all Char.isDigit = true :=
    fun m => List.all_eq_true.mpr (digits_toDigits m)
  cases n with
  | ofNat n =>
    unfold readInt
    split
    · rename_i heq
      exact absurd (congrArg List.head? heq) (not_minus_of_digits (digits_toDigits n))
    · rename_i s heq
      have hplus := digits_toDigits n '+' (by
        rw [show Nat.toDigits 10 n = '+' :: s from heq]
        exact List.mem_cons_self)
      cases hplus
    · rw [showInt, if_pos ⟨toDigits_ne_nil n, hdigits n⟩, wholeOf_toDigits]
      rfl
  | negSucc n =>
    rw [showInt, readInt, if_pos ⟨toDigits_ne_nil _, hdigits _⟩, wholeOf_toDigits]
    rfl

theorem parseI64_showInt {n : ℤ} (hlo : -2 ^ 63 ≤ n) (hhi : n < 2 ^ 63) :
    parseI64 (showInt n) = some n := by
  rw [parseI64, readInt_showInt, Option.filter_some, if_pos (by simpa using ⟨hlo, hhi⟩)]

theorem parseI64_bounds {s : List Char} {n : ℤ} (h : parseI64 s = some n) :
    -2 ^ 63 ≤ n ∧ n < 2 ^ 63 := by
  have hfilter := (Option.filter_eq_some_iff.mp h).2
  simpa using hfilter

end Catalyrst.Lib.Numeral
