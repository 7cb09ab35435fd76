import Catalyrst.Lib.Instances

/-!
# Credit amounts

`CreditAmount` is the gate every amount passes before it moves a balance. It reads the
literal by its digits alone, and the database reads the same literal as a `NUMERIC`: what
is accepted as positive is positive there, and what is accepted as zero is zero.
-/

namespace Catalyrst.Credits

abbrev Text := List Char

/-- The errors of the HTTP layer, with their messages. -/
inductive ApiError where
  | badRequest (message : String)
  | paymentRequired (message : String)
  | conflict (message : String)
  | notFound (message : String)
  /-- A statement failed. -/
  | internal
  deriving DecidableEq

/-- The parts of `[+-]?(digits[.digits] | .digits)[eE[+-]digits]`. -/
structure Literal where
  negative : Bool
  intDigits : Text
  fracDigits : Text
  expNegative : Bool
  expDigits : Text
  deriving DecidableEq

namespace Literal

/-- A sign, if there is one. -/
def sign : Text → Bool × Text
  | '-' :: s => (true, s)
  | '+' :: s => (false, s)
  | s => (false, s)

def fraction : Text → Text × Text
  | '.' :: s => (s.takeWhile Char.isDigit, s.dropWhile Char.isDigit)
  | s => ([], s)

def exponent (l : Literal) : Text → Option Literal
  | [] => some l
  | c :: s =>
    if c = 'e' ∨ c = 'E' then
      let (negExp, s) := sign s
      let digits := s.takeWhile Char.isDigit
      if digits = [] ∨ s.dropWhile Char.isDigit ≠ [] then none
      else some { l with expNegative := negExp, expDigits := digits }
    else none

def scan (s : Text) : Option Literal :=
  let (negative, s) := sign s
  let intDigits := s.takeWhile Char.isDigit
  let (fracDigits, rest) := fraction (s.dropWhile Char.isDigit)
  if intDigits ++ fracDigits = [] then none
  else exponent ⟨negative, intDigits, fracDigits, false, []⟩ rest

def digits (l : Literal) : Text := l.intDigits ++ l.fracDigits

/-- The power of ten of the last digit. -/
def scale (l : Literal) : ℤ :=
  (if l.expNegative then -(Nat.ofDigitChars 10 l.expDigits 0 : ℤ)
    else Nat.ofDigitChars 10 l.expDigits 0) - l.fracDigits.length

def value (l : Literal) : ℚ :=
  let unscaled : ℤ := Nat.ofDigitChars 10 l.digits 0 * 10 ^ l.scale.toNat
  mkRat (if l.negative then -unscaled else unscaled) (10 ^ (-l.scale).toNat)

end Literal

/-- `text::numeric`. -/
def numeric (s : Text) : ℚ := (Literal.scan s).elim 0 Literal.value

def maxMagnitudeExp : ℤ := 30
def minMagnitudeExp : ℤ := -1000
def maxLiteralLen : ℕ := 4096

structure Decimal where
  negative : Bool
  hasNonzeroDigit : Bool
  firstSignificant : ℕ
  intLen : ℕ
  exp : ℤ

namespace Decimal

def parse (s : Text) : Option Decimal :=
  if s = [] ∨ maxLiteralLen < s.length then none
  else (Literal.scan s).map fun l =>
    -- the exponent is read up to a million
    let exp : ℤ := min (Nat.ofDigitChars 10 l.expDigits 0) 1000000
    let firstSignificant := l.digits.findIdx (· ≠ '0')
    { negative := l.negative
      hasNonzeroDigit := decide (firstSignificant < l.digits.length)
      firstSignificant := firstSignificant
      intLen := l.intDigits.length
      exp := if l.expNegative then -exp else exp }

def magnitudeExp (d : Decimal) : ℤ := d.intLen - d.firstSignificant - 1 + d.exp

end Decimal

structure CreditAmount where
  text : Text
  zero : Bool

namespace CreditAmount

def badPositiveAmount : String :=
  "amount must be a finite decimal greater than zero (magnitude between 1e-1000 and 1e30)"

def badNonNegativeAmount : String :=
  "amount must be a finite decimal of zero or more (magnitude between 1e-1000 and 1e30)"

def parse (amount : Text) (err : String) : Except ApiError CreditAmount :=
  match Decimal.parse amount with
  | none => .error (.badRequest err)
  | some d =>
    if !d.hasNonzeroDigit then .ok ⟨amount, true⟩
    else if d.negative then .error (.badRequest err)
    else if minMagnitudeExp ≤ d.magnitudeExp ∧ d.magnitudeExp < maxMagnitudeExp then
      .ok ⟨amount, false⟩
    else .error (.badRequest err)

def parsePositive (amount : Text) : Except ApiError CreditAmount :=
  (parse amount badPositiveAmount).bind fun parsed =>
    if parsed.zero then .error (.badRequest badPositiveAmount) else .ok parsed

def parseNonNegative (amount : Text) : Except ApiError CreditAmount :=
  parse amount badNonNegativeAmount

/-- What the database reads. -/
def value (a : CreditAmount) : ℚ := numeric a.text

end CreditAmount

section Values

theorem digit_pos_iff {c : Char} (hc : c.isDigit = true) : 0 < c.toNat - '0'.toNat ↔ c ≠ '0' := by
  have hle : 48 ≤ c.toNat := by
    simp only [Char.isDigit, Bool.and_eq_true, decide_eq_true_eq] at hc
    exact hc.1
  constructor
  · rintro hpos rfl
    exact absurd hpos (lt_irrefl _)
  · intro hne
    have hnat : c.toNat ≠ 48 := fun h => hne (Char.toNat_inj.mp h)
    have hzero : '0'.toNat = 48 := rfl
    omega

theorem ofDigitChars_pos_iff {ds : Text} (hds : ∀ c ∈ ds, c.isDigit = true) (init : ℕ) :
    0 < Nat.ofDigitChars 10 ds init ↔ 0 < init ∨ ∃ c ∈ ds, c ≠ '0' := by
  induction ds generalizing init with
  | nil => simp
  | cons c ds ih =>
    have hc := digit_pos_iff (hds c List.mem_cons_self)
    rw [Nat.ofDigitChars_cons, ih fun x hx => hds x (List.mem_cons_of_mem _ hx)]
    simp only [List.mem_cons, exists_eq_or_imp, ← hc]
    have hadd : 0 < 10 * init + (c.toNat - '0'.toNat) ↔
        0 < init ∨ 0 < c.toNat - '0'.toNat := by omega
    rw [hadd, or_assoc]

theorem fraction_digits (s : Text) : ∀ c ∈ (Literal.fraction s).1, c.isDigit = true := by
  intro c hc
  unfold Literal.fraction at hc
  split at hc
  · exact List.mem_takeWhile_imp hc
  · cases hc

theorem exponent_digits {l l' : Literal} {s : Text} (h : l.exponent s = some l') :
    l'.digits = l.digits := by
  cases s with
  | nil => rw [Option.some.inj h]
  | cons c s =>
    simp only [Literal.exponent] at h
    split at h
    · split at h
      · cases h
      · rw [← Option.some.inj h]
        rfl
    · cases h

theorem scan_digits {s : Text} {l : Literal} (h : Literal.scan s = some l) :
    ∀ c ∈ l.digits, c.isDigit = true := by
  simp only [Literal.scan] at h
  split at h
  · cases h
  · rw [exponent_digits h]
    intro c hc
    rcases List.mem_append.mp hc with hc | hc
    · exact List.mem_takeWhile_imp hc
    · exact fraction_digits _ c hc

/-- A literal with a digit that counts has a value other than zero. -/
theorem value_pos {s : Text} {l : Literal} (h : Literal.scan s = some l) (hpos : l.negative = false)
    (hdigit : ∃ c ∈ l.digits, c ≠ '0') : 0 < l.value := by
  have hnat : 0 < Nat.ofDigitChars 10 l.digits 0 :=
    (ofDigitChars_pos_iff (scan_digits h) 0).mpr (Or.inr hdigit)
  simp only [Literal.value, hpos, Bool.false_eq_true, if_false, Rat.mkRat_eq_div]
  positivity

theorem value_eq_zero {s : Text} {l : Literal} (h : Literal.scan s = some l)
    (hdigit : ¬ ∃ c ∈ l.digits, c ≠ '0') : l.value = 0 := by
  have hnat : Nat.ofDigitChars 10 l.digits 0 = 0 := by
    by_contra hne
    rcases (ofDigitChars_pos_iff (scan_digits h) 0).mp (Nat.pos_of_ne_zero hne) with hpos | hex
    · exact absurd hpos (lt_irrefl _)
    · exact hdigit hex
  simp [Literal.value, hnat]

theorem decimal_spec {s : Text} {d : Decimal} (h : Decimal.parse s = some d) :
    ∃ l, Literal.scan s = some l ∧ d.negative = l.negative ∧
      (d.hasNonzeroDigit = true ↔ ∃ c ∈ l.digits, c ≠ '0') := by
  simp only [Decimal.parse] at h
  split at h
  · cases h
  obtain ⟨l, hl, rfl⟩ := Option.map_eq_some_iff.mp h
  exact ⟨l, hl, rfl, by simp [List.findIdx_lt_length]⟩

/-- The gate and the database agree on what is zero and what is positive. -/
theorem parse_spec {amount : Text} {err : String} {a : CreditAmount}
    (h : CreditAmount.parse amount err = .ok a) : a.value = numeric amount ∧
      ((a.zero = true ∧ numeric amount = 0) ∨ (a.zero = false ∧ 0 < numeric amount)) := by
  simp only [CreditAmount.parse] at h
  split at h
  · cases h
  rename_i d hd
  obtain ⟨l, hl, hneg, hdigit⟩ := decimal_spec hd
  have hnumeric : numeric amount = l.value := by simp [numeric, hl]
  rw [hnumeric]
  split at h
  · rename_i hzero
    obtain rfl := Except.ok.inj h
    refine ⟨hnumeric, Or.inl ⟨rfl, value_eq_zero hl fun hex => ?_⟩⟩
    rw [hdigit.mpr hex] at hzero
    cases hzero
  · rename_i hnonzero
    split at h
    · cases h
    rename_i hsign
    split at h
    · obtain rfl := Except.ok.inj h
      exact ⟨hnumeric, Or.inr ⟨rfl, value_pos hl (hneg ▸ Bool.eq_false_iff.mpr hsign)
        (hdigit.mp (by simpa using hnonzero))⟩⟩
    · cases h

theorem parsePositive_spec {amount : Text} {a : CreditAmount}
    (h : CreditAmount.parsePositive amount = .ok a) :
    a.value = numeric amount ∧ 0 < numeric amount := by
  unfold CreditAmount.parsePositive at h
  cases hp : CreditAmount.parse amount CreditAmount.badPositiveAmount with
  | error e =>
    rw [hp] at h
    cases h
  | ok parsed =>
    rw [hp] at h
    obtain ⟨hvalue, ⟨hzero, -⟩ | ⟨hzero, hpos⟩⟩ := parse_spec hp
    · simp [Except.bind, hzero] at h
    · simp only [Except.bind, hzero, Bool.false_eq_true, if_false] at h
      exact ⟨Except.ok.inj h ▸ hvalue, hpos⟩

/-- `1e-400` is positive for both. -/
example : (CreditAmount.parsePositive ['1', 'e', '-', '4', '0', '0']).isOk = true ∧
    (CreditAmount.parsePositive ['-', '5']).isOk = false := by decide

end Values

end Catalyrst.Credits
