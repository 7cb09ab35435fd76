import Mathlib
import Catalyrst.Credits.Amounts
import Catalyrst.Credits.Ledger
import Catalyrst.Lib.JsonWriter
import Catalyrst.Lib.Segments

/-!
# Purchase intents (`purchase_intent.rs`)

What a customer has signed is compared with the order at checkout: the items as one canonical
text, the total as a decimal that is accumulated in a `u128` at a growing scale, printed, and
read again. The charge itself is computed by the database.
-/

namespace Catalyrst.Credits.Intent

open Catalyrst.Lib Catalyrst.Lib.Fallible Catalyrst.Lib.Numeral Catalyrst.Lib.Texts

structure PurchaseIntentIn where
  items : Text
  totalCredits : Text

structure RepricedLine where
  itemId : Text
  collection : Text
  qty : ℤ
  unitPriceCredits : Text
  deriving DecidableEq

/-- Ordered lexicographically, as tuples are. -/
abbrev ItemTuple := Text ×ₗ Text ×ₗ ℤ

def RepricedLine.tuple (l : RepricedLine) : ItemTuple :=
  toLex (l.collection.map Char.toLower, toLex (l.itemId, l.qty))

/-- The JSON of a tuple. -/
def renderTuple (t : ItemTuple) : Text :=
  let (collection, rest) := ofLex t
  let (itemId, qty) := ofLex rest
  '[' :: (JsonWriter.string collection ++ ',' :: (JsonWriter.string itemId ++ ',' ::
    (JsonWriter.integer qty ++ [']'])))

def canonicalItems (lines : List RepricedLine) : Text :=
  JsonWriter.array renderTuple ((lines.map RepricedLine.tuple).insertionSort (· ≤ ·))

/-- The arithmetic of `u128` that notices an overflow. -/
def checked (n : ℕ) : Option ℕ := if n < 2 ^ 128 then some n else none

def parseDecimal (s : Text) : Option (ℕ × ℕ) :=
  let (intPart, fracPart) := splitPoint (trim s)
  if intPart = [] ∧ fracPart = [] then none
  else if 30 < intPart.length ∨ 18 < fracPart.length then none
  else if ¬ intPart.all Char.isDigit ∨ ¬ fracPart.all Char.isDigit then none
  else
    ((intPart ++ fracPart).foldlM (fun mantissa b =>
      (checked (mantissa * 10)).bind fun m => checked (m + digitOf b)) 0).map fun mantissa =>
        (mantissa, fracPart.length)

/-- The scale is raised by `steps` digits. -/
def rescale (mantissa : ℕ) : ℕ → Option ℕ
  | 0 => some mantissa
  | steps + 1 => (checked (mantissa * 10)).bind fun m => rescale m steps

def decimalEq (a b : Text) : Bool :=
  match parseDecimal a, parseDecimal b with
  | some (ma, sa), some (mb, sb) =>
    match rescale ma (max sa sb - sa), rescale mb (max sa sb - sb) with
    | some x, some y => x = y
    | _, _ => false
  | _, _ => false

/-- One turn of the loop of `lines_total`. -/
def addLine (state : ℕ × ℕ) (l : RepricedLine) : Option (ℕ × ℕ) :=
  if l.qty < 0 then none
  else
    (parseDecimal l.unitPriceCredits).bind fun (m, s) =>
      (checked (m * l.qty.toNat)).bind fun line =>
        (rescale state.1 (s - state.2)).bind fun acc =>
          (rescale line (max state.2 s - s)).bind fun x =>
            (checked (acc + x)).map fun acc => (acc, max state.2 s)

def formatScaled (mantissa scale : ℕ) : Text :=
  if scale = 0 then Nat.toDigits 10 mantissa
  else
    let digits := Nat.toDigits 10 mantissa
    let padded := List.replicate (scale + 1 - digits.length) '0' ++ digits
    let intPart := padded.take (padded.length - scale)
    let fracPart := (padded.drop (padded.length - scale)).rdropWhile (· = '0')
    if fracPart = [] then intPart else intPart ++ '.' :: fracPart

def linesTotal (lines : List RepricedLine) : Option Text :=
  (lines.foldlM addLine (0, 0)).map fun (acc, scale) => formatScaled acc scale

def itemsChanged : String :=
  "the items in this order changed after the purchase was signed — please review and sign again"

def totalChanged (signed current : Text) : String :=
  "the order total changed after the purchase was signed (signed " ++ String.ofList signed ++
    ", current " ++ String.ofList current ++ ") — please review and sign again"

def verifyIntentMatchesOrder (intent : PurchaseIntentIn) (repriced : List RepricedLine) :
    Except ApiError Unit :=
  if intent.items ≠ canonicalItems repriced then .error (.conflict itemsChanged)
  else
    match linesTotal repriced with
    | none => .error .internal
    | some total =>
      if decimalEq intent.totalCredits total then .ok ()
      else .error (.conflict (totalChanged intent.totalCredits total))

/-! ### Decimals are exact or refused -/

section Decimals

variable {s a b i f : Text} {m n k scale : ℕ}

theorem checked_some : checked n = some m ↔ n = m ∧ n < 2 ^ 128 := by
  unfold checked
  split
  · rename_i h
    rw [Option.some.injEq, and_iff_left h]
  · rename_i h
    exact iff_of_false (fun h => nomatch h) fun heq => h heq.2

theorem checked_of_lt (h : n < 2 ^ 128) : checked n = some n := if_pos h

theorem checked_of_le (h : 2 ^ 128 ≤ n) : checked n = none := if_neg (not_lt.mpr h)

theorem rescale_eq (h : m < 2 ^ 128) (k : ℕ) : rescale m k = checked (m * 10 ^ k) := by
  induction k generalizing m with
  | zero =>
    rw [rescale, pow_zero, mul_one, checked_of_lt h]
  | succ k ih =>
    have hpow : m * 10 ^ (k + 1) = m * 10 * 10 ^ k := by rw [pow_succ', mul_assoc]
    rw [rescale, hpow]
    by_cases hten : m * 10 < 2 ^ 128
    · rw [checked_of_lt hten, Option.bind_some, ih hten]
    · have hge := not_lt.mp hten
      rw [checked_of_le hge, checked_of_le (hge.trans (Nat.le_mul_of_pos_right _ (by positivity)))]
      rfl

/-- The digits are read, unless their value does not fit. -/
theorem readDigits_eq (ds : Text) (h : n < 2 ^ 128) :
    ds.foldlM (fun mantissa c =>
        (checked (mantissa * 10)).bind fun m => checked (m + digitOf c)) n =
      checked (n * 10 ^ ds.length + wholeOf ds) := by
  induction ds generalizing n with
  | nil =>
    rw [List.foldlM_nil, List.length_nil, pow_zero, mul_one, wholeOf_nil, add_zero, checked_of_lt h]
    rfl
  | cons c ds ih =>
    have hone : 1 ≤ 10 ^ ds.length := Nat.one_le_pow _ _ (by norm_num)
    have hvalue : n * 10 ^ (ds.length + 1) + wholeOf (c :: ds) =
        (n * 10 + digitOf c) * 10 ^ ds.length + wholeOf ds := by
      rw [wholeOf_cons]
      ring
    have hstep : (checked (n * 10)).bind (fun m => checked (m + digitOf c)) =
        checked (n * 10 + digitOf c) := by
      by_cases hten : n * 10 < 2 ^ 128
      · rw [checked_of_lt hten, Option.bind_some]
      · have hge := not_lt.mp hten
        rw [checked_of_le hge, checked_of_le (hge.trans (Nat.le_add_right _ _))]
        rfl
    rw [List.foldlM_cons, List.length_cons, hvalue, hstep]
    by_cases hfits : n * 10 + digitOf c < 2 ^ 128
    · rw [checked_of_lt hfits]
      exact ih hfits
    · have hge := not_lt.mp hfits
      have hmul : n * 10 + digitOf c ≤ (n * 10 + digitOf c) * 10 ^ ds.length :=
        Nat.le_mul_of_pos_right _ hone
      rw [checked_of_le hge, checked_of_le (hge.trans (hmul.trans (Nat.le_add_right _ _)))]
      rfl

theorem parseDecimal_spec (h : parseDecimal s = some (m, k)) :
    m < 2 ^ 128 ∧ ∃ i f, Plain i f (trim s) ∧ m = wholeOf (i ++ f) ∧ k = f.length := by
  unfold parseDecimal at h
  dsimp only at h
  split at h
  · cases h
  rename_i hne
  split at h
  · cases h
  split at h
  · cases h
  rename_i hall
  obtain ⟨x, hx, hpair⟩ := Option.map_eq_some_iff.mp h
  obtain ⟨rfl, rfl⟩ := Prod.mk.inj hpair
  rw [readDigits_eq _ (by norm_num), Nat.zero_mul, Nat.zero_add] at hx
  obtain ⟨hvalue, hlt⟩ := checked_some.mp hx
  refine ⟨hvalue ▸ hlt, (splitPoint (trim s)).1, (splitPoint (trim s)).2, ?_, hvalue.symm, rfl⟩
  refine splitValidatedDecimal_iff.mp ?_
  unfold splitValidatedDecimal
  dsimp only
  rw [if_neg hne, if_neg hall]

theorem decimalValue_eq (i f : Text) :
    decimalValue i f = wholeOf (i ++ f) / 10 ^ f.length := by
  have hpow : (10 : ℚ) ^ f.length ≠ 0 := by positivity
  rw [decimalValue, fractionOf, wholeOf_append]
  push_cast
  field_simp

/-- `price::numeric`, which skips white space. -/
def priceOf (s : Text) : ℚ := numeric (trim s)

/-- The database reads a plain decimal as what it is. -/
theorem priceOf_plain (h : Plain i f (trim s)) : priceOf s = decimalValue i f := by
  have hgrammar : Grammar ⟨false, i, f, false, []⟩ (trim s) := by
    refine ⟨[], trim s, [], .none, ?_, .none, by simp⟩
    generalize trim s = t at h
    cases h with
    | whole hne hi => exact .whole hne hi
    | point hne hi hf =>
      by_cases hnil : i = []
      · subst hnil
        exact .fraction hne hf
      · exact .point hnil hi hf
  have hscan := scan_of_grammar hgrammar
  have hvalue := value_eq (l := ⟨false, i, f, false, []⟩) rfl
  rw [priceOf, numeric, hscan, Option.elim_some, hvalue, decimalValue_eq]
  simp [Literal.exp, Literal.digits, wholeOf_nil, div_eq_mul_inv]

theorem parseDecimal_value (h : parseDecimal s = some (m, k)) : priceOf s = m / 10 ^ k := by
  obtain ⟨-, i, f, hplain, rfl, rfl⟩ := parseDecimal_spec h
  rw [priceOf_plain hplain, decimalValue_eq]

/-- A decimal at a larger scale. -/
theorem div_rescale (m : ℕ) (h : k ≤ scale) :
    (m : ℚ) / 10 ^ k = (m * 10 ^ (scale - k) : ℕ) / 10 ^ scale := by
  obtain ⟨n, rfl⟩ := Nat.exists_eq_add_of_le h
  have hpow : (10 : ℚ) ^ k ≠ 0 := by positivity
  have hpow' : (10 : ℚ) ^ n ≠ 0 := by positivity
  rw [Nat.add_sub_cancel_left, pow_add]
  push_cast
  field_simp

/-- Only decimals of one value compare equal. -/
theorem decimalEq_sound (h : decimalEq a b = true) :
    (∃ i f, Plain i f (trim a)) ∧ (∃ i f, Plain i f (trim b)) ∧ priceOf a = priceOf b := by
  unfold decimalEq at h
  cases ha : parseDecimal a with
  | none =>
    rw [ha] at h
    cases h
  | some p =>
    obtain ⟨ma, sa⟩ := p
    cases hb : parseDecimal b with
    | none =>
      rw [ha, hb] at h
      cases h
    | some q =>
      obtain ⟨mb, sb⟩ := q
      obtain ⟨hma, i, f, hplain, -⟩ := parseDecimal_spec ha
      obtain ⟨hmb, i', f', hplain', -⟩ := parseDecimal_spec hb
      rw [ha, hb] at h
      dsimp only at h
      rw [rescale_eq hma, rescale_eq hmb] at h
      split at h
      · rename_i x y hx hy
        obtain ⟨hx, -⟩ := checked_some.mp hx
        obtain ⟨hy, -⟩ := checked_some.mp hy
        have heq : ma * 10 ^ (max sa sb - sa) = mb * 10 ^ (max sa sb - sb) := by
          rw [hx, hy, of_decide_eq_true h]
        refine ⟨⟨i, f, hplain⟩, ⟨i', f', hplain'⟩, ?_⟩
        rw [parseDecimal_value ha, parseDecimal_value hb, div_rescale ma (le_max_left sa sb),
          div_rescale mb (le_max_right sa sb), heq]
      · cases h

theorem isDigits_toDigits (m : ℕ) : IsDigits (Nat.toDigits 10 m) :=
  fun _ hc => JsonWriter.toDigits_isDigit hc

/-- There is nothing to trim off a plain decimal. -/
theorem trim_plain (h : Plain i f s) : trim s = s := by
  have hdigit : ∀ c : Char, c.isDigit = true → isWhitespace c = false := by
    intro c hc
    obtain ⟨hge, hle⟩ := toNat_of_isDigit hc
    unfold isWhitespace
    rw [decide_eq_false_iff_not]
    omega
  refine trim_of_no_white fun c hc => ?_
  cases h with
  | whole _ hi => exact hdigit c (hi c hc)
  | point _ hi hf =>
    rcases List.mem_append.mp hc with hc | hc
    · exact hdigit c (hi c hc)
    · rcases List.mem_cons.mp hc with rfl | hc
      · decide
      · exact hdigit c (hf c hc)

/-- What is printed is exact. -/
theorem formatScaled_plain (m scale : ℕ) :
    ∃ i f, Plain i f (formatScaled m scale) ∧ decimalValue i f = m / 10 ^ scale := by
  have hvalue : wholeOf (Nat.toDigits 10 m) = m := Nat.ofDigitChars_ten_toDigits
  unfold formatScaled
  split
  · rename_i hzero
    subst hzero
    refine ⟨_, [], .whole Nat.toDigits_ne_nil (isDigits_toDigits m), ?_⟩
    rw [decimalValue, fractionOf_nil, hvalue]
    simp
  · dsimp only
    generalize hpadded : List.replicate (scale + 1 - (Nat.toDigits 10 m).length) '0' ++
      Nat.toDigits 10 m = padded
    have hlength : scale < padded.length := by
      rw [← hpadded, List.length_append, List.length_replicate]
      omega
    have hdigits : IsDigits padded := by
      rw [← hpadded, isDigits_append]
      refine ⟨fun c hc => ?_, isDigits_toDigits m⟩
      rw [List.eq_of_mem_replicate hc]
      rfl
    have hwhole : wholeOf padded = m := by
      rw [← hpadded, wholeOf_append, hvalue, wholeOf, Nat.ofDigitChars_replicate_zero, Nat.mul_zero,
        Nat.zero_mul, Nat.zero_add]
    generalize hi : padded.take (padded.length - scale) = i
    generalize hf : padded.drop (padded.length - scale) = f
    have hsplit : i ++ f = padded := by rw [← hi, ← hf, List.take_append_drop]
    have hscale : f.length = scale := by
      rw [← hf, List.length_drop]
      omega
    have hne : i ≠ [] := by
      rintro rfl
      rw [← hsplit, List.nil_append, hscale] at hlength
      exact lt_irrefl _ hlength
    rw [← hsplit, isDigits_append] at hdigits
    have hexact : decimalValue i (f.rdropWhile (· = '0')) = m / 10 ^ scale := by
      rw [← hwhole, ← hsplit, ← hscale, ← decimalValue_eq, decimalValue, decimalValue,
        fractionOf_rdropWhile]
    split
    · rename_i hnil
      rw [hnil] at hexact
      exact ⟨i, [], .whole hne hdigits.1, hexact⟩
    · refine ⟨i, _, .point ?_ hdigits.1 (IsDigits.sublist hdigits.2 ?_), hexact⟩
      · exact fun h => hne (List.append_eq_nil_iff.mp h).1
      · exact (List.rdropWhile_prefix _ _).sublist

theorem priceOf_formatScaled (m scale : ℕ) : priceOf (formatScaled m scale) = m / 10 ^ scale := by
  obtain ⟨i, f, hplain, hvalue⟩ := formatScaled_plain m scale
  rw [priceOf_plain (by rwa [trim_plain hplain]), hvalue]

end Decimals

/-! ### The total -/

/-- What a line adds, in its own scale, if there is no overflow. -/
def lineParts (l : RepricedLine) : Option (ℕ × ℕ) :=
  if l.qty < 0 then none
  else (parseDecimal l.unitPriceCredits).map fun (m, s) => (m * l.qty.toNat, s)

def RepricedLine.amount (l : RepricedLine) : ℕ := ((lineParts l).getD (0, 0)).1

def RepricedLine.scale (l : RepricedLine) : ℕ := ((lineParts l).getD (0, 0)).2

def topScale (scale : ℕ) (ls : List RepricedLine) : ℕ :=
  ls.foldl (fun s l => max s l.scale) scale

/-- The sum at a scale. -/
def sumAt (top : ℕ) (ls : List RepricedLine) : ℕ :=
  (ls.map fun l => l.amount * 10 ^ (top - l.scale)).sum

/-- The line as the checkout has it. -/
def RepricedLine.priced (l : RepricedLine) : Credits.RepricedLine :=
  ⟨priceOf l.unitPriceCredits, l.qty⟩

section Total

variable {acc scale x s top : ℕ} {l : RepricedLine} {ls ls' : List RepricedLine}

theorem addLine_none (h : lineParts l = none) (state : ℕ × ℕ) : addLine state l = none := by
  unfold lineParts at h
  unfold addLine
  split
  · rfl
  · rename_i hqty
    rw [if_neg hqty] at h
    rw [Option.map_eq_none_iff.mp h]
    rfl

/-- A line is added, unless the sum does not fit at the larger scale of the two. -/
theorem addLine_eq (h : lineParts l = some (x, s)) (hacc : acc < 2 ^ 128) :
    addLine (acc, scale) l =
      (checked (acc * 10 ^ (max scale s - scale) + x * 10 ^ (max scale s - s))).map fun acc =>
        (acc, max scale s) := by
  unfold lineParts at h
  split at h
  · cases h
  rename_i hqty
  obtain ⟨⟨m, k⟩, hm, hpair⟩ := Option.map_eq_some_iff.mp h
  obtain ⟨rfl, rfl⟩ := Prod.mk.inj hpair
  have hsteps : k - scale = max scale k - scale := by omega
  rw [addLine, if_neg hqty, hm, Option.bind_some]
  dsimp only
  rw [hsteps, rescale_eq hacc]
  generalize m * l.qty.toNat = x
  generalize hA : acc * 10 ^ (max scale k - scale) = A
  have hx : x ≤ x * 10 ^ (max scale k - k) := Nat.le_mul_of_pos_right _ (by positivity)
  -- each check passes if the last one does
  by_cases hfits : A + x * 10 ^ (max scale k - k) < 2 ^ 128
  · have hxfits : x < 2 ^ 128 := hx.trans_lt ((Nat.le_add_left _ A).trans_lt hfits)
    rw [checked_of_lt hxfits, checked_of_lt ((Nat.le_add_right A _).trans_lt hfits), Option.bind_some,
      Option.bind_some, rescale_eq hxfits, checked_of_lt ((Nat.le_add_left _ A).trans_lt hfits),
      Option.bind_some]
  · rw [checked_of_le (not_lt.mp hfits), Option.map_none]
    by_cases hxfits : x < 2 ^ 128
    · rw [checked_of_lt hxfits, Option.bind_some]
      by_cases hAfits : A < 2 ^ 128
      · rw [checked_of_lt hAfits, Option.bind_some, rescale_eq hxfits]
        by_cases hline : x * 10 ^ (max scale k - k) < 2 ^ 128
        · rw [checked_of_lt hline, Option.bind_some, checked_of_le (not_lt.mp hfits), Option.map_none]
        · rw [checked_of_le (not_lt.mp hline), Option.bind_none]
      · rw [checked_of_le (not_lt.mp hAfits), Option.bind_none]
    · rw [checked_of_le (not_lt.mp hxfits), Option.bind_none]

theorem le_topScale (scale : ℕ) (ls : List RepricedLine) : scale ≤ topScale scale ls := by
  induction ls generalizing scale with
  | nil => exact le_rfl
  | cons l ls ih => exact (le_max_left _ _).trans (ih _)

theorem scale_le_topScale (h : l ∈ ls) (scale : ℕ) : l.scale ≤ topScale scale ls := by
  induction ls generalizing scale with
  | nil => cases h
  | cons l' ls ih =>
    obtain rfl | hrest := List.mem_cons.mp h
    · exact (le_max_right _ _).trans (le_topScale _ ls)
    · exact ih hrest _

/-- The loop gives the whole sum at the largest scale, or nothing. -/
theorem foldlM_addLine (ls : List RepricedLine) (hacc : acc < 2 ^ 128) :
    ls.foldlM addLine (acc, scale) =
      if ls.all fun l => (lineParts l).isSome then
        (checked (acc * 10 ^ (topScale scale ls - scale) + sumAt (topScale scale ls) ls)).map
          fun total => (total, topScale scale ls)
      else none := by
  induction ls generalizing acc scale with
  | nil =>
    simp [topScale, sumAt, checked_of_lt hacc]
  | cons l ls ih =>
    rw [List.foldlM_cons]
    cases hl : lineParts l with
    | none =>
      rw [addLine_none hl, if_neg (by simp [hl])]
      rfl
    | some p =>
      obtain ⟨x, s⟩ := p
      have hamount : l.amount = x := by simp [RepricedLine.amount, hl]
      have hscale : l.scale = s := by simp [RepricedLine.scale, hl]
      have htop : topScale scale (l :: ls) = topScale (max scale s) ls := by
        rw [topScale, List.foldl_cons, hscale]
        rfl
      have hall : (l :: ls).all (fun l => (lineParts l).isSome) =
          ls.all fun l => (lineParts l).isSome := by simp [hl]
      have hle := le_topScale (max scale s) ls
      generalize hsum : acc * 10 ^ (max scale s - scale) + x * 10 ^ (max scale s - s) = acc'
      have htotal : acc * 10 ^ (topScale (max scale s) ls - scale) +
          sumAt (topScale (max scale s) ls) (l :: ls) =
            acc' * 10 ^ (topScale (max scale s) ls - max scale s) +
              sumAt (topScale (max scale s) ls) ls := by
        generalize topScale (max scale s) ls = top at hle ⊢
        have hleft : top - scale = (max scale s - scale) + (top - max scale s) := by omega
        have hright : top - s = (max scale s - s) + (top - max scale s) := by omega
        rw [← hsum, sumAt, List.map_cons, List.sum_cons, hamount, hscale, hleft, hright, pow_add,
          pow_add]
        unfold sumAt
        ring
      rw [addLine_eq hl hacc, hsum, htop, hall, htotal]
      by_cases hfits : acc' < 2 ^ 128
      · rw [checked_of_lt hfits, Option.map_some]
        exact ih hfits
      · have hge := not_lt.mp hfits
        have hmul : acc' ≤ acc' * 10 ^ (topScale (max scale s) ls - max scale s) :=
          Nat.le_mul_of_pos_right _ (by positivity)
        rw [checked_of_le hge, checked_of_le (hge.trans (hmul.trans (Nat.le_add_right _ _)))]
        simp

theorem lineParts_value (h : lineParts l = some (x, s)) :
    (x : ℚ) / 10 ^ s = priceOf l.unitPriceCredits * l.qty := by
  unfold lineParts at h
  split at h
  · cases h
  rename_i hqty
  obtain ⟨⟨m, k⟩, hm, hpair⟩ := Option.map_eq_some_iff.mp h
  obtain ⟨rfl, rfl⟩ := Prod.mk.inj hpair
  have hcast : ((l.qty.toNat : ℕ) : ℚ) = l.qty := by
    have hint : ((l.qty.toNat : ℕ) : ℤ) = l.qty := Int.toNat_of_nonneg (not_lt.mp hqty)
    exact_mod_cast hint
  rw [parseDecimal_value hm, Nat.cast_mul, hcast]
  ring

theorem sumAt_value (hall : ∀ l ∈ ls, (lineParts l).isSome) (htop : ∀ l ∈ ls, l.scale ≤ top) :
    (sumAt top ls : ℚ) / 10 ^ top = orderTotal (ls.map RepricedLine.priced) := by
  induction ls with
  | nil => simp [sumAt, orderTotal]
  | cons l ls ih =>
    obtain ⟨⟨x, s⟩, hl⟩ := Option.isSome_iff_exists.mp (hall l List.mem_cons_self)
    have hamount : l.amount = x := by simp [RepricedLine.amount, hl]
    have hscale : l.scale = s := by simp [RepricedLine.scale, hl]
    have hle : s ≤ top := hscale ▸ htop l List.mem_cons_self
    have hrest := ih (fun l' h => hall l' (List.mem_cons_of_mem _ h))
      fun l' h => htop l' (List.mem_cons_of_mem _ h)
    rw [sumAt, List.map_cons, List.sum_cons, Nat.cast_add, add_div, hamount, hscale,
      ← div_rescale x hle, lineParts_value hl]
    rw [orderTotal, List.map_cons, List.map_cons, List.sum_cons]
    exact congrArg _ hrest

/-- The total that is compared is the one that is charged. -/
theorem linesTotal_value {total : Text} (h : linesTotal ls = some total) :
    priceOf total = orderTotal (ls.map RepricedLine.priced) := by
  obtain ⟨⟨acc, scale⟩, hfold, rfl⟩ := Option.map_eq_some_iff.mp h
  rw [foldlM_addLine ls (by norm_num)] at hfold
  split at hfold
  · rename_i hall
    obtain ⟨total, htotal, hpair⟩ := Option.map_eq_some_iff.mp hfold
    obtain ⟨rfl, rfl⟩ := Prod.mk.inj hpair
    obtain ⟨hvalue, -⟩ := checked_some.mp htotal
    rw [Nat.zero_mul, Nat.zero_add] at hvalue
    rw [priceOf_formatScaled, ← hvalue]
    exact sumAt_value (List.all_eq_true.mp hall) fun l hl => scale_le_topScale hl 0
  · cases hfold

/-- The order of the lines does not matter, not even to an overflow. -/
theorem linesTotal_perm (h : ls.Perm ls') : linesTotal ls = linesTotal ls' := by
  have htop : topScale 0 ls = topScale 0 ls' :=
    h.foldl_eq' (fun l _ l' _ s => max_right_comm s l.scale l'.scale) 0
  have hsum : ∀ top, sumAt top ls = sumAt top ls' := fun top => (h.map _).sum_eq
  unfold linesTotal
  rw [foldlM_addLine ls (by norm_num), foldlM_addLine ls' (by norm_num), htop, hsum, h.all_eq]

theorem canonicalItems_perm (h : ls.Perm ls') : canonicalItems ls = canonicalItems ls' := by
  have hsorted : (ls.map RepricedLine.tuple).insertionSort (· ≤ ·) =
      (ls'.map RepricedLine.tuple).insertionSort (· ≤ ·) := by
    refine List.Perm.eq_of_sortedLE List.sortedLE_insertionSort List.sortedLE_insertionSort ?_
    exact (List.perm_insertionSort _ _).trans
      ((h.map _).trans (List.perm_insertionSort _ _).symm)
  rw [canonicalItems, canonicalItems, hsorted]

end Total

/-! ### The items -/

theorem renderTuple_selfDelimiting : JsonWriter.SelfDelimiting renderTuple := by
  intro t t' x y h
  have hshape : ∀ (u : ItemTuple) (z : Text), renderTuple u ++ z =
      '[' :: (JsonWriter.string (ofLex u).1 ++ ',' :: (JsonWriter.string (ofLex (ofLex u).2).1 ++
        ',' :: (JsonWriter.integer (ofLex (ofLex u).2).2 ++ ']' :: z))) := by
    intro u z
    simp [renderTuple]
  rw [hshape, hshape] at h
  obtain ⟨hcollection, hrest⟩ := JsonWriter.string_selfDelimiting _ _ _ _ (List.cons.inj h).2
  obtain ⟨hitem, hrest⟩ := JsonWriter.string_selfDelimiting _ _ _ _ (List.cons.inj hrest).2
  obtain ⟨hqty, hxy⟩ := Segments.append_cons_inj (JsonWriter.bracket_notMem_integer _)
    (JsonWriter.bracket_notMem_integer _) (List.cons.inj hrest).2
  refine ⟨?_, hxy⟩
  exact Prod.ext hcollection (Prod.ext hitem (JsonWriter.integer_inj hqty))

/-- The canonical text gives the items, in any order. -/
theorem canonicalItems_inj {ls ls' : List RepricedLine}
    (h : canonicalItems ls = canonicalItems ls') :
    (ls.map RepricedLine.tuple).Perm (ls'.map RepricedLine.tuple) := by
  have hend : ∀ (t : ItemTuple) (x : Text), renderTuple t ++ x ≠ [']'] := by
    intro t x heq
    exact absurd (List.cons.inj heq).1 (by decide)
  have hsorted := JsonWriter.array_inj renderTuple_selfDelimiting hend h
  refine (List.perm_insertionSort (· ≤ ·) _).symm.trans ?_
  rw [hsorted]
  exact List.perm_insertionSort _ _

/-! ### What is signed is charged -/

section Charge

variable {lower : Text → Text} {db db' : Db} {address : Address} {key totalText : Text}
  {repriced : List Credits.RepricedLine} {o : CheckoutOutcome}

/-- A new checkout debits the total, unless its key has been used for a spend before. -/
theorem runCheckout_debits (htotal : numeric totalText = orderTotal repriced)
    (hkey : db.spendIdempotency key = none)
    (h : db.runCheckout lower address key repriced totalText = (.ok o, db'))
    (hnew : o.replayed = false) :
    db'.available address = db.available address - orderTotal repriced := by
  unfold Db.runCheckout at h
  split at h
  · cases (Prod.mk.inj h).1
  split at h
  · split at h
    · rw [← Except.ok.inj (Prod.mk.inj h).1] at hnew
      cases hnew
    · cases (Prod.mk.inj h).1
  dsimp only at h
  split at h
  · cases (Prod.mk.inj h).1
  split at h
  · cases (Prod.mk.inj h).1
  obtain ⟨⟨spent, db₁⟩, hspend, hpair⟩ := map_ok.mp (transact_ok h)
  obtain ⟨-, rfl⟩ := Prod.mk.inj hpair
  rw [← htotal]
  rcases spendInTx_cases hspend with ⟨rfl, hzero, -⟩ | ⟨-, -, k, row, hk, hrow, -⟩ |
    ⟨u, -, -, -, hav, -, rfl⟩
  · rw [hzero, sub_zero]
    rfl
  · obtain rfl := Option.some.inj hk
    rw [show (db.addCheckout address key (orderTotal repriced) .fulfilling).spendIdempotency key =
      db.spendIdempotency key from rfl, hkey] at hrow
    cases hrow
  · refine Eq.trans ?_ hav
    exact (available_setCredits address).trans (if_pos rfl)

end Charge

/-- **A purchase is charged as it is signed.** An intent that passes holds the canonical text of
the lines, which gives their items, and its total is the sum that is charged. The verdict does
not depend on the order of the lines, two decimals that compare equal have one value, and what
is printed is the sum. -/
theorem signed_is_charged (intent : PurchaseIntentIn) (lines : List RepricedLine) :
    (verifyIntentMatchesOrder intent lines = .ok () →
      intent.items = canonicalItems lines ∧
      (∀ lines', intent.items = canonicalItems lines' →
        (lines'.map RepricedLine.tuple).Perm (lines.map RepricedLine.tuple)) ∧
      (∃ i f, Plain i f (trim intent.totalCredits) ∧
        decimalValue i f = orderTotal (lines.map RepricedLine.priced)) ∧
      ∀ (lower : Text → Text) (db : Db) address key totalText o db',
        numeric totalText = orderTotal (lines.map RepricedLine.priced) →
        db.spendIdempotency key = none →
        db.runCheckout lower address key (lines.map RepricedLine.priced) totalText = (.ok o, db') →
        o.replayed = false →
        db'.available address = db.available address - priceOf intent.totalCredits) ∧
    (∀ lines', lines.Perm lines' →
      verifyIntentMatchesOrder intent lines = verifyIntentMatchesOrder intent lines') ∧
    (∀ a b, decimalEq a b = true → ∃ i f i' f', Plain i f (trim a) ∧ Plain i' f' (trim b) ∧
      decimalValue i f = decimalValue i' f') ∧
    ∀ mantissa scale, priceOf (formatScaled mantissa scale) = mantissa / 10 ^ scale := by
  refine ⟨fun h => ?_, fun lines' hperm => ?_, fun a b h => ?_, priceOf_formatScaled⟩
  · unfold verifyIntentMatchesOrder at h
    split at h
    · cases h
    rename_i hitems
    rw [not_not] at hitems
    split at h
    · cases h
    rename_i total htotal
    split at h
    · rename_i heq
      obtain ⟨⟨i, f, hplain⟩, -, hvalue⟩ := decimalEq_sound heq
      have hcharge : priceOf intent.totalCredits = orderTotal (lines.map RepricedLine.priced) :=
        hvalue.trans (linesTotal_value htotal)
      refine ⟨hitems, fun lines' hsame => ?_, ⟨i, f, hplain, ?_⟩, ?_⟩
      · exact canonicalItems_inj (hsame.symm.trans hitems)
      · rw [← priceOf_plain hplain]
        exact hcharge
      · intro lower db address key totalText o db' hnumeric hkey hrun hnew
        rw [hcharge]
        exact runCheckout_debits hnumeric hkey hrun hnew
    · cases h
  · unfold verifyIntentMatchesOrder
    rw [canonicalItems_perm hperm, linesTotal_perm hperm]
  · obtain ⟨⟨i, f, hplain⟩, ⟨i', f', hplain'⟩, hvalue⟩ := decimalEq_sound h
    rw [priceOf_plain hplain, priceOf_plain hplain'] at hvalue
    exact ⟨i, f, i', f', hplain, hplain', hvalue⟩

/-- One unit at nothing and two at one and a half. -/
def twoLines : List RepricedLine :=
  [⟨['3'], ['B'], 1, ['0']⟩, ⟨['2'], ['A'], 2, ['1', '.', '5']⟩]

/-- The customer has signed `[["a","2",2],["b","3",1]]` for 3.00. -/
def signedForThree : PurchaseIntentIn where
  items := ['[', '[', '\x22', 'a', '\x22', ',', '\x22', '2', '\x22', ',', '2', ']', ',', '[', '\x22',
    'b', '\x22', ',', '\x22', '3', '\x22', ',', '1', ']', ']']
  totalCredits := ['3', '.', '0', '0']

/-- A cart, and ten credits. -/
def tenCredits : Db := { Db.new.setCredits ['w'] ⟨10, 1, by decide⟩ with carts := {['w']} }

theorem signed_is_charged_twoLines :
    signedForThree.items = canonicalItems twoLines ∧
      (∃ i f, Plain i f (trim signedForThree.totalCredits) ∧
        decimalValue i f = orderTotal (twoLines.map RepricedLine.priced)) ∧
      ∃ o db', tenCredits.runCheckout id ['w'] ['k'] (twoLines.map RepricedLine.priced) ['3', '.', '0'] =
          (.ok o, db') ∧
        db'.available ['w'] = tenCredits.available ['w'] - priceOf signedForThree.totalCredits := by
  obtain ⟨hitems, -, hvalue, hcharge⟩ :=
    (signed_is_charged signedForThree twoLines).1 (by decide)
  have hrun : (tenCredits.runCheckout id ['w'] ['k'] (twoLines.map RepricedLine.priced)
      ['3', '.', '0']).1.toOption.map CheckoutOutcome.replayed = some false := by
    decide +kernel
  refine ⟨hitems, hvalue, ?_⟩
  cases hres : tenCredits.runCheckout id ['w'] ['k'] (twoLines.map RepricedLine.priced)
      ['3', '.', '0'] with
  | mk outcome db' =>
    rw [hres] at hrun
    cases outcome with
    | error e => cases hrun
    | ok o =>
      exact ⟨o, db', rfl, hcharge id tenCredits ['w'] ['k'] ['3', '.', '0'] o db' (by decide +kernel)
        rfl hres (Option.some.inj hrun)⟩

end Catalyrst.Credits.Intent
