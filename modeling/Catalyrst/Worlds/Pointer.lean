import Catalyrst.Lib.Numeral
import Catalyrst.Lib.Texts

/-!
# Pointers to parcels

A parcel is written as two whole numbers with a comma between. Pointers are compared as texts, so
every spelling of a parcel is first brought to one.
-/

namespace Catalyrst.WorldScenes

open Catalyrst.Lib Catalyrst.Lib.Texts Catalyrst.Lib.Numeral

abbrev Text := List Char

def unsigned : Text → Text
  | '-' :: s => s
  | s => s

def parseAxis (part : Text) : Option ℤ :=
  if unsigned (trim part) ≠ [] ∧ (unsigned (trim part)).all Char.isDigit = true then
    parseI64 (trim part)
  else none

def parsePointer (s : Text) : Option (ℤ × ℤ) := do
  let (x, y) ← splitOnce ',' s
  let x ← parseAxis x
  let y ← parseAxis y
  return (x, y)

def showPointer (p : ℤ × ℤ) : Text := showInt p.1 ++ ',' :: showInt p.2

def canonicalizePointer (s : Text) : Text :=
  match parsePointer s with
  | some p => showPointer p
  | none => s

def isCanonicalAxis (value : Text) : Bool :=
  let digits := unsigned value
  if digits = [] ∨ digits.all Char.isDigit = false then false
  else if 1 < digits.length ∧ digits.head? = some '0' then false
  else !(decide (value.head? = some '-') && decide (digits = ['0']))

def isCanonicalPointer (s : Text) : Bool :=
  match splitOnce ',' s with
  | some (x, y) => isCanonicalAxis x && isCanonicalAxis y
  | none => false

/-! ### Axes -/

theorem isDigit_not_white {c : Char} (h : c.isDigit = true ∨ c = '-') : isWhitespace c = false := by
  have hcode : 45 ≤ c.toNat ∧ c.toNat ≤ 57 := by
    rcases h with hdigit | rfl
    · have := toNat_of_isDigit hdigit
      omega
    · decide
  simp only [isWhitespace, decide_eq_false_iff_not]
  omega

theorem unsigned_of_digits {s : Text} (h : IsDigits s) : unsigned s = s := by
  have hminus := not_minus_of_digits h
  unfold unsigned
  split
  · simp at hminus
  · rfl

theorem unsigned_showInt (n : ℤ) : unsigned (showInt n) = Nat.toDigits 10 n.natAbs := by
  cases n with
  | ofNat n => exact unsigned_of_digits (digits_toDigits n)
  | negSucc n => rfl

theorem trim_showInt (n : ℤ) : trim (showInt n) = showInt n :=
  trim_of_no_white fun _ hc => isDigit_not_white (mem_showInt hc)

theorem parseAxis_showInt {n : ℤ} (hlo : -2 ^ 63 ≤ n) (hhi : n < 2 ^ 63) :
    parseAxis (showInt n) = some n := by
  have hdigits : (Nat.toDigits 10 n.natAbs).all Char.isDigit = true :=
    List.all_eq_true.mpr (digits_toDigits n.natAbs)
  rw [parseAxis, trim_showInt, unsigned_showInt, if_pos ⟨toDigits_ne_nil _, hdigits⟩,
    parseI64_showInt hlo hhi]

theorem parseAxis_bounds {s : Text} {n : ℤ} (h : parseAxis s = some n) : -2 ^ 63 ≤ n ∧ n < 2 ^ 63 := by
  unfold parseAxis at h
  split_ifs at h
  exact parseI64_bounds h

theorem isCanonicalAxis_showInt (n : ℤ) : isCanonicalAxis (showInt n) = true := by
  have hdigits : (Nat.toDigits 10 n.natAbs).all Char.isDigit = true :=
    List.all_eq_true.mpr (digits_toDigits n.natAbs)
  have hzero : n.natAbs = 0 → Nat.toDigits 10 n.natAbs = ['0'] := by
    intro h
    rw [h]
    rfl
  have hhead : ¬(1 < (Nat.toDigits 10 n.natAbs).length ∧
      (Nat.toDigits 10 n.natAbs).head? = some '0') := by
    rintro ⟨hlen, hhead⟩
    rcases Nat.eq_zero_or_pos n.natAbs with h | h
    · rw [hzero h] at hlen
      simp at hlen
    · exact head_toDigits h hhead
  have hminus : ¬((showInt n).head? = some '-' ∧ Nat.toDigits 10 n.natAbs = ['0']) := by
    rintro ⟨hneg, hone⟩
    have hlt := showInt_minus hneg
    exact head_toDigits (n := n.natAbs) (by omega) (by rw [hone]; rfl)
  simp only [isCanonicalAxis, unsigned_showInt, toDigits_ne_nil, hdigits, hhead, false_or,
    if_false, Bool.true_eq_false]
  simpa using not_and_or.mp hminus

/-- A canonical axis is the spelling of its value. -/
theorem showInt_of_canonical {s : Text} {n : ℤ} (hs : isCanonicalAxis s = true)
    (h : parseAxis s = some n) : showInt n = s := by
  unfold isCanonicalAxis at hs
  dsimp only at hs
  split_ifs at hs with hempty hlead
  rw [not_or, Bool.not_eq_false] at hempty
  have hdigits : IsDigits (unsigned s) := List.all_eq_true.mp hempty.2
  have hback : Nat.toDigits 10 (wholeOf (unsigned s)) = unsigned s :=
    toDigits_wholeOf hdigits hempty.1 fun hlen hhead => hlead ⟨hlen, hhead⟩
  have htrim : trim s = s := by
    refine trim_of_no_white ?_
    intro c hc
    refine isDigit_not_white ?_
    unfold unsigned at hdigits
    split at hdigits
    · rcases List.mem_cons.mp hc with rfl | hc
      · exact .inr rfl
      · exact .inl (hdigits c hc)
    · exact .inl (hdigits c hc)
  unfold parseAxis at h
  rw [htrim, if_pos hempty] at h
  have hread : readInt s = some n := (Option.filter_eq_some_iff.mp h).1
  unfold readInt at hread
  split at hread
  · rename_i d
    split_ifs at hread
    obtain rfl := Option.some.inj hread
    rw [show unsigned ('-' :: d) = d from rfl] at hback hs
    have hpos : wholeOf d ≠ 0 := by
      intro hzero
      rw [hzero] at hback
      simp [← hback] at hs
    obtain ⟨k, hk⟩ := Nat.exists_eq_succ_of_ne_zero hpos
    rw [hk] at hback ⊢
    have hneg : (-((k.succ : ℕ) : ℤ)) = Int.negSucc k := rfl
    rw [hneg, showInt, ← hback]
  · exact absurd (hdigits '+' List.mem_cons_self) (by decide)
  · rename_i hminus hplus
    have hself : unsigned s = s := by
      unfold unsigned
      split
      · rename_i d
        exact absurd rfl (hminus d)
      · rfl
    split_ifs at hread
    obtain rfl := Option.some.inj hread
    rw [hself] at hback
    exact hback

/-! ### Pointers -/

theorem comma_not_mem_showInt (n : ℤ) : ',' ∉ showInt n := by
  intro h
  rcases mem_showInt h with hdigit | hminus
  · cases hdigit
  · cases hminus

theorem parsePointer_some {s : Text} {p : ℤ × ℤ} (h : parsePointer s = some p) :
    ∃ x y, splitOnce ',' s = some (x, y) ∧ parseAxis x = some p.1 ∧ parseAxis y = some p.2 := by
  unfold parsePointer at h
  obtain ⟨⟨x, y⟩, hsplit, h⟩ := Option.bind_eq_some_iff.mp h
  obtain ⟨a, ha, h⟩ := Option.bind_eq_some_iff.mp h
  obtain ⟨b, hb, h⟩ := Option.bind_eq_some_iff.mp h
  cases h
  exact ⟨x, y, hsplit, ha, hb⟩

theorem parsePointer_showPointer {s : Text} {p : ℤ × ℤ} (h : parsePointer s = some p) :
    parsePointer (showPointer p) = some p := by
  obtain ⟨x, y, -, hx, hy⟩ := parsePointer_some h
  have hbx := parseAxis_bounds hx
  have hby := parseAxis_bounds hy
  simp [parsePointer, showPointer, splitOnce_append (comma_not_mem_showInt p.1),
    parseAxis_showInt hbx.1 hbx.2, parseAxis_showInt hby.1 hby.2]

theorem isCanonicalPointer_showPointer (p : ℤ × ℤ) : isCanonicalPointer (showPointer p) = true := by
  simp [isCanonicalPointer, showPointer, splitOnce_append (comma_not_mem_showInt p.1),
    isCanonicalAxis_showInt]

/-- A canonical pointer is left as it is. -/
theorem canonicalizePointer_of_canonical {s : Text} (hs : isCanonicalPointer s = true) :
    canonicalizePointer s = s := by
  unfold canonicalizePointer
  cases hp : parsePointer s with
  | none => rfl
  | some p =>
    obtain ⟨x, y, hsplit, hx, hy⟩ := parsePointer_some hp
    simp only [isCanonicalPointer, hsplit, Bool.and_eq_true] at hs
    have hshow : showPointer p = x ++ ',' :: y := by
      rw [showPointer, showInt_of_canonical hs.1 hx, showInt_of_canonical hs.2 hy]
    rw [splitOnce_some hsplit]
    exact hshow

/-- Every spelling of a parcel is brought to one: two texts that name parcels have one canonical
form if and only if they name the same parcel; that form is canonical, names the parcel, and is the
only canonical one that does. -/
theorem canonicalizePointer_spec {s : Text} {p : ℤ × ℤ} (h : parsePointer s = some p) :
    parsePointer (canonicalizePointer s) = some p ∧
      isCanonicalPointer (canonicalizePointer s) = true ∧
      ∀ t, parsePointer t = some p ↔
        (parsePointer t).isSome ∧ canonicalizePointer t = canonicalizePointer s := by
  have hform : ∀ {t q}, parsePointer t = some q → canonicalizePointer t = showPointer q := by
    intro t q ht
    rw [canonicalizePointer, ht]
  rw [hform h]
  refine ⟨parsePointer_showPointer h, isCanonicalPointer_showPointer p, ?_⟩
  intro t
  constructor
  · intro ht
    exact ⟨by rw [ht]; rfl, hform ht⟩
  · rintro ⟨hsome, heq⟩
    obtain ⟨q, hq⟩ := Option.isSome_iff_exists.mp hsome
    have hback := parsePointer_showPointer hq
    rw [← hform hq, heq, parsePointer_showPointer h] at hback
    rw [hq, hback]

theorem canonicalizePointer_spec_padded :
    parsePointer (canonicalizePointer " -007 , -0".toList) = some (-7, 0) ∧
      isCanonicalPointer (canonicalizePointer " -007 , -0".toList) = true ∧
      ∀ t, parsePointer t = some (-7, 0) ↔
        (parsePointer t).isSome ∧
          canonicalizePointer t = canonicalizePointer " -007 , -0".toList :=
  canonicalizePointer_spec (by decide)

end Catalyrst.WorldScenes
