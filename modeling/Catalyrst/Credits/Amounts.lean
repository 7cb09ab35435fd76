import Mathlib
import Catalyrst.Credits.Money
import Catalyrst.Lib.Numeral
import Catalyrst.Lib.Texts

/-!
# What counts as an amount

The gate of `CreditAmount` decides from the positions of the digits alone, with an exponent
that is only read up to a million. It accepts exactly the literals of the grammar whose value
lies within the bounds. The comparison of a fresh price with a charge looks at trimmed strings
of digits, and agrees with the values too.
-/

namespace Catalyrst.Credits

open Catalyrst.Lib Catalyrst.Lib.Numeral Catalyrst.Lib.Texts

/-! ### The grammar -/

inductive Sign : Bool → Text → Prop
  | none : Sign false []
  | plus : Sign false ['+']
  | minus : Sign true ['-']

/-- `digits[.digits*] | .digits`. -/
inductive Mantissa : Text → Text → Text → Prop
  | whole {i : Text} (hne : i ≠ []) (hi : IsDigits i) : Mantissa i [] i
  | point {i f : Text} (hne : i ≠ []) (hi : IsDigits i) (hf : IsDigits f) :
      Mantissa i f (i ++ '.' :: f)
  | fraction {f : Text} (hne : f ≠ []) (hf : IsDigits f) : Mantissa [] f ('.' :: f)

/-- `([eE][+-]?digits)?`. -/
inductive Exponent : Bool → Text → Text → Prop
  | none : Exponent false [] []
  | some {marker : Char} {negative : Bool} {sign digits : Text} (hm : marker = 'e' ∨ marker = 'E')
      (hs : Sign negative sign) (hne : digits ≠ []) (hd : IsDigits digits) :
      Exponent negative digits (marker :: (sign ++ digits))

/-- The literal that a text is. -/
def Grammar (l : Literal) (s : Text) : Prop :=
  ∃ sign mantissa exponent, Sign l.negative sign ∧ Mantissa l.intDigits l.fracDigits mantissa ∧
    Exponent l.expNegative l.expDigits exponent ∧ s = sign ++ (mantissa ++ exponent)

section Scan

variable {l l' : Literal} {s t i f e ds sg : Text} {b : Bool}

theorem takeWhile_isDigits (s : Text) : IsDigits (s.takeWhile Char.isDigit) :=
  fun _ hc => List.mem_takeWhile_imp hc

/-- What is left of a text behind its sign. -/
theorem sign_spec (h : Literal.sign s = (b, t)) : ∃ sg, Sign b sg ∧ s = sg ++ t := by
  unfold Literal.sign at h
  split at h
  · obtain ⟨rfl, rfl⟩ := Prod.mk.inj h
    exact ⟨_, .minus, rfl⟩
  · obtain ⟨rfl, rfl⟩ := Prod.mk.inj h
    exact ⟨_, .plus, rfl⟩
  · obtain ⟨rfl, rfl⟩ := Prod.mk.inj h
    exact ⟨_, .none, rfl⟩

theorem exponent_grammar (h : Literal.exponent l s = some l') (hneg : l.expNegative = false)
    (hdigits : l.expDigits = []) :
    Exponent l'.expNegative l'.expDigits s ∧ l'.negative = l.negative ∧
      l'.intDigits = l.intDigits ∧ l'.fracDigits = l.fracDigits := by
  cases s with
  | nil =>
    obtain rfl := Option.some.inj h
    rw [hneg, hdigits]
    exact ⟨.none, rfl, rfl, rfl⟩
  | cons c s =>
    rw [Literal.exponent] at h
    split at h
    · rename_i hmarker
      obtain ⟨b, t, hsign⟩ : ∃ b t, Literal.sign s = (b, t) := ⟨_, _, rfl⟩
      obtain ⟨sg, hsg, rfl⟩ := sign_spec hsign
      simp only [hsign] at h
      split at h
      · cases h
      · rename_i hfull
        push Not at hfull
        obtain rfl := Option.some.inj h
        have hall : t.takeWhile Char.isDigit = t := by
          have hsplit := List.takeWhile_append_dropWhile (p := Char.isDigit) (l := t)
          rwa [hfull.2, List.append_nil] at hsplit
        have hexp := Exponent.some hmarker hsg hfull.1 (takeWhile_isDigits t)
        rw [hall] at hexp ⊢
        exact ⟨hexp, rfl, rfl, rfl⟩
    · cases h

theorem fraction_spec (h : Literal.fraction s = (f, t)) :
    IsDigits f ∧ (s = '.' :: (f ++ t) ∨ f = [] ∧ s = t) := by
  unfold Literal.fraction at h
  split at h
  · obtain ⟨rfl, rfl⟩ := Prod.mk.inj h
    exact ⟨takeWhile_isDigits _, .inl (by rw [List.takeWhile_append_dropWhile])⟩
  · obtain ⟨rfl, rfl⟩ := Prod.mk.inj h
    exact ⟨fun _ hc => (nomatch hc), .inr ⟨rfl, rfl⟩⟩

/-- What is scanned is a text of the grammar. -/
theorem grammar_of_scan (h : Literal.scan s = some l) : Grammar l s := by
  obtain ⟨b, t, hsign⟩ : ∃ b t, Literal.sign s = (b, t) := ⟨_, _, rfl⟩
  obtain ⟨sg, hsg, rfl⟩ := sign_spec hsign
  obtain ⟨f, u, hfraction⟩ : ∃ f u, Literal.fraction (t.dropWhile Char.isDigit) = (f, u) :=
    ⟨_, _, rfl⟩
  obtain ⟨hf, hcase⟩ := fraction_spec hfraction
  have hi := takeWhile_isDigits t
  have hsplit := List.takeWhile_append_dropWhile (p := Char.isDigit) (l := t)
  simp only [Literal.scan, hsign, hfraction] at h
  split at h
  · cases h
  rename_i hne
  obtain ⟨hexp, hneg, hint, hfrac⟩ := exponent_grammar h rfl rfl
  dsimp only at hneg hint hfrac
  have hmantissa : ∃ m, Mantissa l.intDigits l.fracDigits m ∧ t = m ++ u := by
    rw [hint, hfrac]
    rcases hcase with hpoint | ⟨rfl, hwhole⟩
    · rw [hpoint] at hsplit
      by_cases hnil : t.takeWhile Char.isDigit = []
      · rw [hnil, List.nil_append] at hne hsplit
        rw [hnil]
        exact ⟨_, .fraction hne hf, hsplit.symm⟩
      · refine ⟨_, .point hnil hi hf, ?_⟩
        rw [List.append_assoc]
        exact hsplit.symm
    · rw [List.append_nil] at hne
      rw [hwhole] at hsplit
      exact ⟨_, .whole hne hi, hsplit.symm⟩
  obtain ⟨m, hm, rfl⟩ := hmantissa
  exact ⟨sg, m, u, hneg ▸ hsg, hm, hexp, rfl⟩

/-- A text that does not go on with a digit. -/
def Stops (s : Text) : Prop := s.takeWhile Char.isDigit = []

theorem takeWhile_append_stops (hi : IsDigits i) (ht : Stops t) :
    (i ++ t).takeWhile Char.isDigit = i ∧ (i ++ t).dropWhile Char.isDigit = t := by
  have hdrop : t.dropWhile Char.isDigit = t := by
    have hsplit := List.takeWhile_append_dropWhile (p := Char.isDigit) (l := t)
    rwa [ht, List.nil_append] at hsplit
  rw [List.takeWhile_append_of_pos hi, List.dropWhile_append_of_pos hi, ht, hdrop, List.append_nil]
  exact ⟨rfl, rfl⟩

theorem stops_point (s : Text) : Stops ('.' :: s) := rfl

theorem Exponent.stops (h : Exponent b ds e) : Stops e := by
  cases h with
  | none => rfl
  | some hm _ _ _ =>
    rcases hm with rfl | rfl
    · rfl
    · rfl

theorem sign_append (h : Sign b sg) (hplus : t.head? ≠ some '+') (hminus : t.head? ≠ some '-') :
    Literal.sign (sg ++ t) = (b, t) := by
  cases h with
  | none =>
    rw [List.nil_append]
    unfold Literal.sign
    split
    · exact absurd rfl hminus
    · exact absurd rfl hplus
    · rfl
  | plus => rfl
  | minus => rfl

theorem digit_head (hi : IsDigits i) (hne : i ≠ []) {c : Char} (hc : c.isDigit = false) :
    (i ++ t).head? ≠ some c := by
  cases i with
  | nil => exact absurd rfl hne
  | cons d i =>
    intro h
    obtain rfl := Option.some.inj h
    rw [hi.of_cons.1] at hc
    cases hc

/-- The exponent is read back. -/
theorem exponent_append (h : Exponent b ds e) (hneg : l.expNegative = false)
    (hdigits : l.expDigits = []) :
    Literal.exponent l e = some { l with expNegative := b, expDigits := ds } := by
  cases h with
  | none =>
    rw [Literal.exponent, ← hneg, ← hdigits]
  | some hm hs hne hd =>
    have hhead : ∀ c : Char, c.isDigit = false → ds.head? ≠ some c := by
      intro c hc
      have := digit_head (t := []) hd hne hc
      rwa [List.append_nil] at this
    obtain ⟨htake, hdrop⟩ := takeWhile_append_stops (t := []) hd rfl
    rw [List.append_nil] at htake hdrop
    rw [Literal.exponent, if_pos hm, sign_append hs (hhead _ rfl) (hhead _ rfl)]
    dsimp only
    rw [htake, hdrop, if_neg (by simp [hne])]

theorem fraction_append (h : Exponent b ds e) (hf : IsDigits f) :
    Literal.fraction ('.' :: (f ++ e)) = (f, e) ∧ Literal.fraction e = ([], e) := by
  obtain ⟨htake, hdrop⟩ := takeWhile_append_stops hf h.stops
  refine ⟨?_, ?_⟩
  · rw [Literal.fraction, htake, hdrop]
  · cases h with
    | none => rfl
    | some hm _ _ _ =>
      rcases hm with rfl | rfl
      · rfl
      · rfl

theorem scan_of_parts {u : Text} (hsg : Sign b sg) (hi : IsDigits i) (hu : Stops u)
    (hplus : (i ++ u).head? ≠ some '+') (hminus : (i ++ u).head? ≠ some '-')
    (hfraction : Literal.fraction u = (f, e)) (hne : i ++ f ≠ []) :
    Literal.scan (sg ++ (i ++ u)) = Literal.exponent ⟨b, i, f, false, []⟩ e := by
  obtain ⟨htake, hdrop⟩ := takeWhile_append_stops hi hu
  rw [Literal.scan, sign_append hsg hplus hminus]
  dsimp only
  rw [htake, hdrop, hfraction]
  dsimp only
  rw [if_neg hne]

/-- A text of the grammar is scanned to its literal. -/
theorem scan_of_grammar (h : Grammar l s) : Literal.scan s = some l := by
  obtain ⟨sg, m, e, hsg, hm, he, rfl⟩ := h
  obtain ⟨negative, i, f, b, ds⟩ := l
  dsimp only at hsg hm he
  have hexp := exponent_append (l := ⟨negative, i, f, false, []⟩) he rfl rfl
  cases hm with
  | whole hne hi =>
    rw [scan_of_parts hsg hi he.stops (digit_head hi hne rfl) (digit_head hi hne rfl)
      (fraction_append he hi).2 (by rwa [List.append_nil])]
    exact hexp
  | point hne hi hf =>
    rw [List.append_assoc, List.cons_append, scan_of_parts hsg hi (stops_point _) (digit_head hi hne rfl)
      (digit_head hi hne rfl) (fraction_append he hf).1 fun h => hne (List.append_eq_nil_iff.mp h).1]
    exact hexp
  | fraction hne hf =>
    have hscan := scan_of_parts (i := []) (u := '.' :: (f ++ e)) hsg (fun _ hc => (nomatch hc)) rfl
      (fun h => nomatch h) (fun h => nomatch h) (fraction_append he hf).1 hne
    rw [List.cons_append]
    exact hscan.trans hexp

end Scan

/-! ### The value and the position of its first digit -/

/-- The exponent as it is written. -/
def Literal.exp (l : Literal) : ℤ :=
  if l.expNegative then -(wholeOf l.expDigits : ℤ) else wholeOf l.expDigits

/-- The number of bytes. -/
def utf8Length (s : Text) : ℕ := (s.map Char.utf8Size).sum

section Magnitude

variable {l : Literal} {s : Text} {d : Decimal}

theorem value_eq (hneg : l.negative = false) :
    l.value = wholeOf l.digits * (10 : ℚ) ^ (l.exp - l.fracDigits.length) := by
  have hscale : l.scale = l.exp - l.fracDigits.length := rfl
  rw [← hscale]
  simp only [Literal.value, hneg, Bool.false_eq_true, if_false, Rat.mkRat_eq_div]
  push_cast
  rcases le_total 0 l.scale with h | h
  · obtain ⟨n, hn⟩ := Int.eq_ofNat_of_zero_le h
    rw [hn]
    simp [wholeOf]
  · obtain ⟨n, hn⟩ := Int.eq_ofNat_of_zero_le (neg_nonneg.mpr h)
    have hs : l.scale = -(n : ℤ) := by omega
    rw [hs]
    simp [wholeOf, div_eq_mul_inv]

/-- The value lies between two powers of ten that the first digit which is not zero gives. -/
theorem value_bounds (hdigits : IsDigits l.digits) (hneg : l.negative = false)
    (hk : l.digits.findIdx (· ≠ '0') < l.digits.length) :
    (10 : ℚ) ^ (l.intDigits.length - l.digits.findIdx (· ≠ '0') - 1 + l.exp) ≤ l.value ∧
      l.value < (10 : ℚ) ^ (l.intDigits.length - l.digits.findIdx (· ≠ '0') - 1 + l.exp + 1) := by
  obtain ⟨hlower, hupper⟩ := wholeOf_bounds hdigits hk
  have hlength : l.digits.length = l.intDigits.length + l.fracDigits.length :=
    List.length_append
  generalize l.digits.findIdx (· ≠ '0') = k at *
  have hpos : (0 : ℚ) < 10 ^ (l.exp - l.fracDigits.length) := by positivity
  rw [value_eq hneg]
  constructor
  · calc (10 : ℚ) ^ (l.intDigits.length - k - 1 + l.exp)
        = 10 ^ (l.digits.length - k - 1 : ℕ) * 10 ^ (l.exp - l.fracDigits.length) := by
          rw [← zpow_natCast, ← zpow_add₀ (by norm_num)]
          congr 1
          omega
      _ ≤ wholeOf l.digits * 10 ^ (l.exp - l.fracDigits.length) := by
          refine mul_le_mul_of_nonneg_right ?_ hpos.le
          exact_mod_cast hlower
  · calc (wholeOf l.digits : ℚ) * 10 ^ (l.exp - l.fracDigits.length)
        < 10 ^ (l.digits.length - k : ℕ) * 10 ^ (l.exp - l.fracDigits.length) := by
          refine mul_lt_mul_of_pos_right ?_ hpos
          exact_mod_cast hupper
      _ = 10 ^ (l.intDigits.length - k - 1 + l.exp + 1) := by
          rw [← zpow_natCast, ← zpow_add₀ (by norm_num)]
          congr 1
          omega

/-- Within the bounds, by the position alone. -/
theorem value_range (hdigits : IsDigits l.digits) (hneg : l.negative = false)
    (hk : l.digits.findIdx (· ≠ '0') < l.digits.length) :
    ((10 : ℚ) ^ (-1000 : ℤ) ≤ l.value ∧ l.value < 10 ^ 30) ↔
      -1000 ≤ l.intDigits.length - l.digits.findIdx (· ≠ '0') - 1 + l.exp ∧
        l.intDigits.length - l.digits.findIdx (· ≠ '0') - 1 + l.exp < 30 := by
  obtain ⟨hlower, hupper⟩ := value_bounds hdigits hneg hk
  generalize (l.intDigits.length : ℤ) - l.digits.findIdx (· ≠ '0') - 1 + l.exp = m at *
  have hten : (1 : ℚ) < 10 := by norm_num
  have hthirty : (10 : ℚ) ^ 30 = 10 ^ (30 : ℤ) := by norm_num
  rw [hthirty]
  refine and_congr ⟨fun h => ?_, fun h => ?_⟩ ⟨fun h => ?_, fun h => ?_⟩
  · have hlt : (-1000 : ℤ) < m + 1 := (zpow_lt_zpow_iff_right₀ hten).mp (h.trans_lt hupper)
    omega
  · exact ((zpow_le_zpow_iff_right₀ hten).mpr h).trans hlower
  · exact (zpow_lt_zpow_iff_right₀ hten).mp (hlower.trans_lt h)
  · exact hupper.trans_le ((zpow_le_zpow_iff_right₀ hten).mpr (by omega))

theorem value_of_negative (hneg : l.negative = true) :
    l.value = -{ l with negative := false }.value := by
  have hscale : { l with negative := false }.scale = l.scale := rfl
  have hdigits : { l with negative := false }.digits = l.digits := rfl
  simp only [Literal.value, hneg, hscale, hdigits, Bool.false_eq_true, if_false, if_true,
    Rat.mkRat_eq_div]
  push_cast
  exact neg_div _ _

/-- The exponent is cut at a million, far beyond what the digits can make up for. -/
theorem saturated_range {a : ℤ} {n : ℕ} {b : Bool} (hlower : -4096 ≤ a) (hupper : a ≤ 4096) :
    (-1000 ≤ a + (if b then -min (n : ℤ) 1000000 else min (n : ℤ) 1000000) ∧
      a + (if b then -min (n : ℤ) 1000000 else min (n : ℤ) 1000000) < 30) ↔
    -1000 ≤ a + (if b then -(n : ℤ) else n) ∧ a + (if b then -(n : ℤ) else n) < 30 := by
  cases b with
  | true =>
    simp only [if_true]
    omega
  | false =>
    simp only [Bool.false_eq_true, if_false]
    omega

end Magnitude

/-! ### The gate -/

section Gate

variable {l l' : Literal} {s : Text}

theorem IsDigits.ascii {ds : Text} (h : IsDigits ds) : ∀ c ∈ ds, c.toNat < 128 := by
  intro c hc
  have := (toNat_of_isDigit (h c hc)).2
  omega

theorem Sign.ascii {b : Bool} {sg : Text} (h : Sign b sg) : ∀ c ∈ sg, c.toNat < 128 := by
  cases h with
  | none => simp
  | plus => simp
  | minus => simp

theorem Mantissa.ascii {i f m : Text} (h : Mantissa i f m) : ∀ c ∈ m, c.toNat < 128 := by
  cases h with
  | whole _ hi => exact IsDigits.ascii hi
  | point _ hi hf =>
    simp only [List.mem_append, List.mem_cons]
    rintro c (hc | rfl | hc)
    · exact IsDigits.ascii hi c hc
    · decide
    · exact IsDigits.ascii hf c hc
  | fraction _ hf =>
    simp only [List.mem_cons]
    rintro c (rfl | hc)
    · decide
    · exact IsDigits.ascii hf c hc

theorem Exponent.ascii {b : Bool} {ds e : Text} (h : Exponent b ds e) : ∀ c ∈ e, c.toNat < 128 := by
  cases h with
  | none => simp
  | some hmarker hs _ hd =>
    simp only [List.mem_cons, List.mem_append]
    rintro c (rfl | hc | hc)
    · rcases hmarker with rfl | rfl
      · decide
      · decide
    · exact hs.ascii c hc
    · exact IsDigits.ascii hd c hc

/-- A byte for each character. -/
theorem Grammar.utf8Length (h : Grammar l s) : utf8Length s = s.length := by
  obtain ⟨sg, m, e, hsg, hm, he, hs⟩ := h
  have hascii : ∀ c ∈ s, c.toNat < 128 := by
    rw [hs]
    simp only [List.mem_append]
    rintro c (hc | hc | hc)
    · exact hsg.ascii c hc
    · exact hm.ascii c hc
    · exact he.ascii c hc
  have hone : s.map Char.utf8Size = s.map fun _ => 1 := by
    refine List.map_congr_left fun c hc => ?_
    have hlt := hascii c hc
    unfold Char.utf8Size
    exact if_pos (UInt32.le_iff_toNat_le.mpr (by show c.toNat ≤ 127; omega))
  rw [Credits.utf8Length, hone]
  simp

theorem Grammar.unique (h : Grammar l s) (h' : Grammar l' s) : l = l' :=
  Option.some.inj ((scan_of_grammar h).symm.trans (scan_of_grammar h'))

theorem Mantissa.length_digits {i f m : Text} (h : Mantissa i f m) :
    (i ++ f).length ≤ m.length ∧ m ≠ [] := by
  cases h with
  | whole hne _ =>
    rw [List.append_nil]
    exact ⟨le_rfl, hne⟩
  | point hne _ _ => simp
  | fraction hne _ => simp

theorem Grammar.length_digits (h : Grammar l s) : s ≠ [] ∧ l.digits.length ≤ s.length := by
  obtain ⟨sg, m, e, -, hm, -, rfl⟩ := h
  obtain ⟨hlen, hne⟩ := hm.length_digits
  constructor
  · simp [hne]
  · rw [List.length_append, List.length_append]
    exact hlen.trans (by omega)

/-- What the gate does with a literal of the grammar. -/
theorem parse_grammar (h : Grammar l s) (hlen : s.length ≤ maxLiteralLen) (err : String) :
    CreditAmount.parse s err =
      if l.value = 0 then .ok ⟨s, true⟩
      else if (10 : ℚ) ^ (-1000 : ℤ) ≤ l.value ∧ l.value < 10 ^ 30 then .ok ⟨s, false⟩
      else .error (.badRequest err) := by
  have hscan := scan_of_grammar h
  have hdigits : IsDigits l.digits := scan_digits hscan
  obtain ⟨hne, hcount⟩ := h.length_digits
  have hint : l.intDigits.length ≤ l.digits.length := by
    rw [Literal.digits, List.length_append]
    omega
  have hparse : Decimal.parse s = some
      { negative := l.negative
        hasNonzeroDigit := decide (l.digits.findIdx (· ≠ '0') < l.digits.length)
        firstSignificant := l.digits.findIdx (· ≠ '0')
        intLen := l.intDigits.length
        exp := if l.expNegative then -min (wholeOf l.expDigits : ℤ) 1000000
          else min (wholeOf l.expDigits : ℤ) 1000000 } := by
    rw [Decimal.parse, if_neg (by rw [not_or]; exact ⟨hne, not_lt.mpr hlen⟩), hscan]
    rfl
  rw [CreditAmount.parse, hparse]
  dsimp only
  by_cases hk : l.digits.findIdx (· ≠ '0') < l.digits.length
  · -- a digit counts: the value is not zero, and the sign and the position decide
    have hpos : 0 < { l with negative := false }.value := by
      refine lt_of_lt_of_le ?_ (value_bounds (l := { l with negative := false }) hdigits rfl hk).1
      positivity
    simp only [hk, decide_true, Bool.not_true, Bool.false_eq_true, if_false]
    cases hneg : l.negative with
    | true =>
      have hvalue : l.value < 0 := by
        rw [value_of_negative hneg]
        linarith
      have hlow : ¬ ((10 : ℚ) ^ (-1000 : ℤ) ≤ l.value ∧ l.value < 10 ^ 30) := by
        rintro ⟨hle, -⟩
        have hten : (0 : ℚ) < 10 ^ (-1000 : ℤ) := by positivity
        linarith
      rw [if_pos rfl, if_neg hvalue.ne, if_neg hlow]
    | false =>
      have hsame : { l with negative := false } = l := by
        rw [← hneg]
      rw [hsame] at hpos
      have hrange := value_range hdigits hneg hk
      have hlength : (l.digits.length : ℤ) ≤ 4096 := by
        have hmax : maxLiteralLen = 4096 := rfl
        omega
      rw [if_neg Bool.false_ne_true, if_neg hpos.ne']
      refine if_congr ?_ rfl rfl
      rw [hrange]
      simp only [Decimal.magnitudeExp, minMagnitudeExp, maxMagnitudeExp, Literal.exp]
      exact saturated_range (by omega) (by omega)
  · have hnone : ¬ ∃ c ∈ l.digits, c ≠ '0' := by
      rintro ⟨c, hc, hne⟩
      exact hk (List.findIdx_lt_length.mpr ⟨c, hc, decide_eq_true hne⟩)
    rw [if_pos (value_eq_zero hscan hnone)]
    simp only [hk, decide_false, Bool.not_false, if_true]

/-- Nothing else gets through. -/
theorem parse_only {err : String} {a : CreditAmount} (h : CreditAmount.parse s err = .ok a) :
    utf8Length s ≤ 4096 ∧ ∃ l, Grammar l s ∧ a.text = s ∧ (a.zero = true ↔ l.value = 0) ∧
      (l.value = 0 ∨ (10 : ℚ) ^ (-1000 : ℤ) ≤ l.value ∧ l.value < 10 ^ 30) := by
  have hsome : ∃ d, Decimal.parse s = some d := by
    unfold CreditAmount.parse at h
    cases hd : Decimal.parse s with
    | none =>
      rw [hd] at h
      cases h
    | some d => exact ⟨d, rfl⟩
  obtain ⟨d, hd⟩ := hsome
  have hlen : s.length ≤ maxLiteralLen := by
    unfold Decimal.parse at hd
    split at hd
    · cases hd
    · rename_i hne
      exact not_lt.mp fun hlt => hne (Or.inr hlt)
  obtain ⟨l, hl, -⟩ := decimal_spec hd
  have hgrammar := grammar_of_scan hl
  rw [parse_grammar hgrammar hlen] at h
  refine ⟨hgrammar.utf8Length.trans_le hlen, l, hgrammar, ?_⟩
  split at h
  · rename_i hzero
    obtain rfl := Except.ok.inj h
    exact ⟨rfl, iff_of_true rfl hzero, Or.inl hzero⟩
  · rename_i hzero
    split at h
    · rename_i hrange
      obtain rfl := Except.ok.inj h
      exact ⟨rfl, iff_of_false Bool.false_ne_true hzero, Or.inr hrange⟩
    · cases h

theorem parseNonNegative_iff : (∃ a, CreditAmount.parseNonNegative s = .ok a) ↔
    utf8Length s ≤ 4096 ∧ ∃ l, Grammar l s ∧
      (l.value = 0 ∨ (10 : ℚ) ^ (-1000 : ℤ) ≤ l.value ∧ l.value < 10 ^ 30) := by
  constructor
  · rintro ⟨a, ha⟩
    obtain ⟨hlen, l, hl, -, -, hvalue⟩ := parse_only ha
    exact ⟨hlen, l, hl, hvalue⟩
  · rintro ⟨hlen, l, hl, hvalue⟩
    rw [hl.utf8Length] at hlen
    unfold CreditAmount.parseNonNegative
    rw [parse_grammar hl hlen]
    by_cases hzero : l.value = 0
    · exact ⟨_, if_pos hzero⟩
    · rw [if_neg hzero]
      exact ⟨_, if_pos (hvalue.resolve_left hzero)⟩

theorem parsePositive_ok {a : CreditAmount} : CreditAmount.parsePositive s = .ok a ↔
    CreditAmount.parse s CreditAmount.badPositiveAmount = .ok a ∧ a.zero = false := by
  unfold CreditAmount.parsePositive
  cases CreditAmount.parse s CreditAmount.badPositiveAmount with
  | error e => exact iff_of_false (fun h => nomatch h) fun h => nomatch h.1
  | ok b =>
    cases hzero : b.zero with
    | true =>
      refine iff_of_false ?_ ?_
      · rw [Except.bind, if_pos hzero]
        exact fun h => nomatch h
      · rintro ⟨hb, ha⟩
        rw [← Except.ok.inj hb, hzero] at ha
        cases ha
    | false =>
      rw [Except.bind, if_neg (Bool.eq_false_iff.mp hzero)]
      refine (and_iff_left_of_imp fun hb => ?_).symm
      rw [← Except.ok.inj hb]
      exact hzero

theorem parsePositive_iff : (∃ a, CreditAmount.parsePositive s = .ok a) ↔
    utf8Length s ≤ 4096 ∧ ∃ l, Grammar l s ∧ (10 : ℚ) ^ (-1000 : ℤ) ≤ l.value ∧
      l.value < 10 ^ 30 := by
  constructor
  · rintro ⟨a, ha⟩
    obtain ⟨hparse, hzero⟩ := parsePositive_ok.mp ha
    obtain ⟨hlen, l, hl, -, hiff, hvalue⟩ := parse_only hparse
    have hne : l.value ≠ 0 := by
      rw [hzero] at hiff
      exact fun h => Bool.false_ne_true (hiff.mpr h)
    exact ⟨hlen, l, hl, hvalue.resolve_left hne⟩
  · rintro ⟨hlen, l, hl, hrange⟩
    rw [hl.utf8Length] at hlen
    have hne : l.value ≠ 0 := by
      have hten : (0 : ℚ) < 10 ^ (-1000 : ℤ) := by positivity
      exact (hten.trans_le hrange.1).ne'
    refine ⟨⟨s, false⟩, parsePositive_ok.mpr ⟨?_, rfl⟩⟩
    rw [parse_grammar hl hlen, if_neg hne, if_pos hrange]

end Gate

/-! ### The fresh price and the charge -/

/-- `split_once('.').unwrap_or((s, ""))`. -/
def splitPoint : Text → Text × Text
  | [] => ([], [])
  | c :: s => if c = '.' then ([], s) else (c :: (splitPoint s).1, (splitPoint s).2)

def splitValidatedDecimal (s : Text) : Option (Text × Text) :=
  let (intPart, fracPart) := splitPoint (trim s)
  if intPart = [] ∧ fracPart = [] then none
  else if ¬ intPart.all Char.isDigit ∨ ¬ fracPart.all Char.isDigit then none
  else some (intPart, fracPart)

def parseNonnegDecimal (s : Text) : Option (Text × Text) :=
  (splitValidatedDecimal s).map fun (intPart, fracPart) =>
    (intPart.dropWhile (· = '0'), fracPart.rdropWhile (· = '0'))

def cmpDecimal (a b : Text × Text) : Ordering :=
  (compare a.1.length b.1.length).then
    ((List.compareLex compare a.1 b.1).then (List.compareLex compare a.2 b.2))

def freshPriceExceedsCharge (chargedCredits freshCredits : Text) : Bool :=
  match parseNonnegDecimal chargedCredits, parseNonnegDecimal freshCredits with
  | some charged, some fresh => cmpDecimal fresh charged = .gt
  | _, _ => true

/-- `digits*[.digits*]` with at least one digit. -/
inductive Plain : Text → Text → Text → Prop
  | whole {i : Text} (hne : i ≠ []) (hi : IsDigits i) : Plain i [] i
  | point {i f : Text} (hne : i ++ f ≠ []) (hi : IsDigits i) (hf : IsDigits f) :
      Plain i f (i ++ '.' :: f)

/-- The value of `i.f`. -/
def decimalValue (i f : Text) : ℚ := wholeOf i + fractionOf f

section Fresh

variable {s i f i' f' : Text}

theorem splitPoint_digits (hi : IsDigits i) :
    splitPoint i = (i, []) ∧ splitPoint (i ++ '.' :: f) = (i, f) := by
  induction i with
  | nil => exact ⟨rfl, rfl⟩
  | cons c i ih =>
    obtain ⟨hc, hrest⟩ := hi.of_cons
    obtain ⟨hwhole, hpoint⟩ := ih hrest
    have hne : c ≠ '.' := by
      rintro rfl
      cases hc
    rw [List.cons_append, splitPoint, splitPoint, if_neg hne, if_neg hne, hwhole, hpoint]
    exact ⟨rfl, rfl⟩

theorem splitPoint_spec (s : Text) : s = (splitPoint s).1 ++ '.' :: (splitPoint s).2 ∨
    s = (splitPoint s).1 ∧ (splitPoint s).2 = [] := by
  induction s with
  | nil => exact Or.inr ⟨rfl, rfl⟩
  | cons c s ih =>
    rw [splitPoint]
    split
    · rename_i hc
      exact Or.inl (by rw [hc]; rfl)
    · rcases ih with h | ⟨h, hnil⟩
      · exact Or.inl (congrArg (c :: ·) h)
      · exact Or.inr ⟨congrArg (c :: ·) h, hnil⟩

theorem isDigits_all : s.all Char.isDigit = true ↔ IsDigits s := List.all_eq_true

theorem Plain.isDigits (h : Plain i f s) : IsDigits i ∧ IsDigits f ∧ ¬ (i = [] ∧ f = []) := by
  cases h with
  | whole hne hi => exact ⟨hi, fun _ hc => (nomatch hc), fun h => hne h.1⟩
  | point hne hi hf => exact ⟨hi, hf, fun h => hne (List.append_eq_nil_iff.mpr h)⟩

theorem splitValidatedDecimal_iff : splitValidatedDecimal s = some (i, f) ↔ Plain i f (trim s) := by
  unfold splitValidatedDecimal
  generalize trim s = t
  constructor
  · intro h
    have hspec := splitPoint_spec t
    dsimp only at h
    split at h
    · cases h
    rename_i hne
    split at h
    · cases h
    rename_i hall
    obtain ⟨hi, hf⟩ := Prod.mk.inj (Option.some.inj h)
    rw [hi, hf] at hspec hne hall
    rw [not_or, not_not, not_not, isDigits_all, isDigits_all] at hall
    rcases hspec with rfl | ⟨rfl, rfl⟩
    · exact .point (fun hnil => hne (List.append_eq_nil_iff.mp hnil)) hall.1 hall.2
    · exact .whole (fun hnil => hne ⟨hnil, rfl⟩) hall.1
  · intro h
    obtain ⟨hi, hf, hne⟩ := h.isDigits
    have hsplit : splitPoint t = (i, f) := by
      cases h with
      | whole _ _ => exact (splitPoint_digits (f := []) hi).1
      | point _ _ _ => exact (splitPoint_digits hi).2
    rw [hsplit]
    dsimp only
    rw [if_neg hne, if_neg]
    rw [not_or, not_not, not_not, isDigits_all, isDigits_all]
    exact ⟨hi, hf⟩

theorem dropWhile_zeros (s : Text) : ∃ n, s = List.replicate n '0' ++ s.dropWhile (· = '0') := by
  refine ⟨(s.takeWhile (· = '0')).length, ?_⟩
  have hzeros : s.takeWhile (· = '0') = List.replicate (s.takeWhile (· = '0')).length '0' :=
    List.eq_replicate_of_mem fun c hc => by simpa using List.mem_takeWhile_imp hc
  rw [← hzeros, List.takeWhile_append_dropWhile]

/-- Leading zeros do not count. -/
theorem wholeOf_dropWhile (s : Text) : wholeOf (s.dropWhile (· = '0')) = wholeOf s := by
  obtain ⟨n, hn⟩ := dropWhile_zeros s
  have hzeros : wholeOf (List.replicate n '0') = 0 := by
    rw [wholeOf, Nat.ofDigitChars_replicate_zero, Nat.mul_zero]
  conv_rhs => rw [hn, wholeOf_append, hzeros, Nat.zero_mul, Nat.zero_add]

/-- Trailing zeros of a fraction do not count. -/
theorem fractionOf_rdropWhile (s : Text) : fractionOf (s.rdropWhile (· = '0')) = fractionOf s := by
  obtain ⟨n, hn⟩ := dropWhile_zeros s.reverse
  have hs : s = s.rdropWhile (· = '0') ++ List.replicate n '0' := by
    have hrev := congrArg List.reverse hn
    rwa [List.reverse_reverse, List.reverse_append, List.reverse_replicate] at hrev
  conv_rhs => rw [hs, fractionOf_append_zeros]

theorem head_dropWhile_zeros (s : Text) : (s.dropWhile (· = '0')).head? ≠ some '0' := by
  intro h
  have hnot := List.head?_dropWhile_not (· = '0') s
  rw [h] at hnot
  simp at hnot

theorem last_rdropWhile_zeros (s : Text) : (s.rdropWhile (· = '0')).getLast? ≠ some '0' := by
  rw [List.rdropWhile, List.getLast?_reverse]
  exact head_dropWhile_zeros s.reverse

theorem IsDigits.sublist {t : Text} (h : IsDigits s) (hsub : t.Sublist s) : IsDigits t :=
  fun c hc => h c (hsub.subset hc)

/-- The comparison of the trimmed digits is that of the values. -/
theorem cmpDecimal_eq (hi : IsDigits i) (hf : IsDigits f) (hi' : IsDigits i') (hf' : IsDigits f') :
    cmpDecimal (i.dropWhile (· = '0'), f.rdropWhile (· = '0'))
        (i'.dropWhile (· = '0'), f'.rdropWhile (· = '0')) =
      compare (decimalValue i f) (decimalValue i' f') := by
  have hsuffix : ∀ s : Text, (s.dropWhile (· = '0')).Sublist s := fun s =>
    (List.dropWhile_suffix _).sublist
  have hstart : ∀ s : Text, (s.rdropWhile (· = '0')).Sublist s := fun s =>
    (List.rdropWhile_prefix _ _).sublist
  have hwhole := compareLex_whole (IsDigits.sublist hi (hsuffix i)) (IsDigits.sublist hi' (hsuffix i'))
    (head_dropWhile_zeros i) (head_dropWhile_zeros i')
  have hfraction := compareLex_fraction (IsDigits.sublist hf (hstart f))
    (IsDigits.sublist hf' (hstart f')) (last_rdropWhile_zeros f) (last_rdropWhile_zeros f')
  rw [wholeOf_dropWhile, wholeOf_dropWhile] at hwhole
  rw [fractionOf_rdropWhile, fractionOf_rdropWhile] at hfraction
  rw [cmpDecimal, ← Ordering.then_assoc, hwhole, hfraction, decimalValue, decimalValue,
    compare_parts ⟨fractionOf_nonneg f, fractionOf_lt_one hf⟩
      ⟨fractionOf_nonneg f', fractionOf_lt_one hf'⟩]

theorem freshPrice_iff (charged fresh : Text) : freshPriceExceedsCharge charged fresh = false ↔
    ∃ i f i' f', Plain i f (trim charged) ∧ Plain i' f' (trim fresh) ∧
      decimalValue i' f' ≤ decimalValue i f := by
  unfold freshPriceExceedsCharge parseNonnegDecimal
  cases hc : splitValidatedDecimal charged with
  | none =>
    refine iff_of_false (fun h => nomatch h) ?_
    rintro ⟨i, f, _, _, h, -⟩
    rw [splitValidatedDecimal_iff.mpr h] at hc
    cases hc
  | some p =>
    obtain ⟨i, f⟩ := p
    cases hf : splitValidatedDecimal fresh with
    | none =>
      refine iff_of_false (fun h => nomatch h) ?_
      rintro ⟨_, _, i', f', -, h, -⟩
      rw [splitValidatedDecimal_iff.mpr h] at hf
      cases hf
    | some p =>
      obtain ⟨i', f'⟩ := p
      have hplain := splitValidatedDecimal_iff.mp hc
      have hplain' := splitValidatedDecimal_iff.mp hf
      obtain ⟨hi, hfr, -⟩ := hplain.isDigits
      obtain ⟨hi', hfr', -⟩ := hplain'.isDigits
      simp only [Option.map_some, cmpDecimal_eq hi' hfr' hi hfr, decide_eq_false_iff_not]
      rw [compare_gt_iff_gt, not_lt]
      constructor
      · exact fun h => ⟨i, f, i', f', hplain, hplain', h⟩
      · rintro ⟨_, _, _, _, h, h', hle⟩
        obtain ⟨rfl, rfl⟩ := Prod.mk.inj (Option.some.inj ((splitValidatedDecimal_iff.mpr h).symm.trans hc))
        obtain ⟨rfl, rfl⟩ :=
          Prod.mk.inj (Option.some.inj ((splitValidatedDecimal_iff.mpr h').symm.trans hf))
        exact hle

end Fresh

/-- **What counts as an amount.** The gate accepts as positive exactly the literals of at most
4096 bytes whose value is within the bounds, and as non-negative also those of value zero. It
keeps the literal, and knows which is zero. A fresh price does not exceed a charge exactly if
both are plain decimals and the one's value is at most the other's. -/
theorem amounts_exact (s charged fresh : Text) :
    ((∃ a, CreditAmount.parsePositive s = .ok a) ↔
      utf8Length s ≤ 4096 ∧ ∃ l, Grammar l s ∧ (10 : ℚ) ^ (-1000 : ℤ) ≤ l.value ∧
        l.value < 10 ^ 30) ∧
    ((∃ a, CreditAmount.parseNonNegative s = .ok a) ↔
      utf8Length s ≤ 4096 ∧ ∃ l, Grammar l s ∧
        (l.value = 0 ∨ (10 : ℚ) ^ (-1000 : ℤ) ≤ l.value ∧ l.value < 10 ^ 30)) ∧
    (∀ a, CreditAmount.parsePositive s = .ok a ∨ CreditAmount.parseNonNegative s = .ok a →
      a.text = s ∧ ∃ l, Grammar l s ∧ (a.zero = true ↔ l.value = 0)) ∧
    (freshPriceExceedsCharge charged fresh = false ↔
      ∃ i f i' f', Plain i f (trim charged) ∧ Plain i' f' (trim fresh) ∧
        decimalValue i' f' ≤ decimalValue i f) := by
  refine ⟨parsePositive_iff, parseNonNegative_iff, ?_, freshPrice_iff charged fresh⟩
  intro a ha
  have hparse : ∃ err, CreditAmount.parse s err = .ok a := by
    rcases ha with hpositive | hnonneg
    · exact ⟨_, (parsePositive_ok.mp hpositive).1⟩
    · exact ⟨_, hnonneg⟩
  obtain ⟨err, herr⟩ := hparse
  obtain ⟨-, l, hl, htext, hzero, -⟩ := parse_only herr
  exact ⟨htext, l, hl, hzero⟩

/-- Leading and trailing zeros do not matter, and a sign is not read. -/
example : freshPriceExceedsCharge ['0', '3', '.', '5', '0'] [' ', '3', '.', '5'] = false ∧
    freshPriceExceedsCharge ['3'] ['-', '1'] = true := by decide

end Catalyrst.Credits
