import Mathlib
import Catalyrst.Lib.JsonText

/-!
# Writing JSON

Strings, integers and arrays as a compact writer puts them out. A rendering is
self-delimiting if what follows it can be told from it; strings are, and so are tuples of
strings and integers, so that an array gives its elements back.
-/

namespace Catalyrst.Lib.JsonWriter

open JsonText

variable {α : Type}

/-- The characters with an escape of two characters. -/
def shortEscapes : List (Char × Char) :=
  [(quote, quote), (backslash, backslash), ('\x08', 'b'), ('\x0c', 'f'), ('\n', 'n'), ('\r', 'r'),
    ('\t', 't')]

def escapeChar (c : Char) : List Char :=
  match shortEscapes.lookup c with
  | some e => [backslash, e]
  | none =>
    if c.toNat < 32 then
      [backslash, 'u', '0', '0', Nat.digitChar (c.toNat / 16), Nat.digitChar (c.toNat % 16)]
    else [c]

def string (s : List Char) : List Char := quote :: (s.flatMap escapeChar ++ [quote])

def integer (n : ℤ) : List Char :=
  if n < 0 then '-' :: Nat.toDigits 10 n.natAbs else Nat.toDigits 10 n.natAbs

/-- What follows the first element of an array. -/
def arrayRest (render : α → List Char) : List α → List Char
  | [] => [']']
  | a :: l => ',' :: (render a ++ arrayRest render l)

def array (render : α → List Char) : List α → List Char
  | [] => ['[', ']']
  | a :: l => '[' :: (render a ++ arrayRest render l)

def SelfDelimiting (render : α → List Char) : Prop :=
  ∀ a b x y, render a ++ x = render b ++ y → a = b ∧ x = y

/-! ### Strings -/

section Strings

variable {c d e : Char} {s t x y : List Char}

theorem mem_of_lookup {α β : Type} [BEq α] [LawfulBEq α] {l : List (α × β)} {a : α} {b : β}
    (h : l.lookup a = some b) : (a, b) ∈ l := by
  obtain ⟨before, after, heq, -⟩ := List.lookup_eq_some_iff.mp h
  rw [heq]
  exact List.mem_append_right _ List.mem_cons_self

theorem lookup_inj (hc : shortEscapes.lookup c = some e) (hd : shortEscapes.lookup d = some e) :
    c = d := by
  have hall : ∀ p ∈ shortEscapes, ∀ q ∈ shortEscapes, p.2 = q.2 → p.1 = q.1 := by decide
  exact hall _ (mem_of_lookup hc) _ (mem_of_lookup hd) rfl

theorem lookup_ne_u (h : shortEscapes.lookup c = some e) : e ≠ 'u' := by
  have hall : ∀ p ∈ shortEscapes, p.2 ≠ 'u' := by decide
  exact hall _ (mem_of_lookup h)

theorem digitChar_inj {m n : ℕ} (hm : m < 16) (hn : n < 16)
    (h : Nat.digitChar m = Nat.digitChar n) : m = n := by
  have hall : ∀ m < 16, ∀ n < 16, Nat.digitChar m = Nat.digitChar n → m = n := by decide
  exact hall m hm n hn h

/-- A character is escaped in one of three ways. -/
theorem escapeChar_cases (c : Char) :
    (∃ e, shortEscapes.lookup c = some e ∧ escapeChar c = [backslash, e]) ∨
      (c.toNat < 32 ∧ escapeChar c = [backslash, 'u', '0', '0', Nat.digitChar (c.toNat / 16),
        Nat.digitChar (c.toNat % 16)]) ∨
      (c ≠ backslash ∧ c ≠ quote ∧ escapeChar c = [c]) := by
  unfold escapeChar
  split
  · rename_i e he
    exact Or.inl ⟨e, he, rfl⟩
  · rename_i hnone
    split
    · exact Or.inr (Or.inl ⟨‹_›, rfl⟩)
    · refine Or.inr (Or.inr ⟨?_, ?_, rfl⟩)
      · rintro rfl
        exact absurd hnone (by decide)
      · rintro rfl
        exact absurd hnone (by decide)

theorem escapeChar_inj (h : escapeChar c ++ x = escapeChar d ++ y) : c = d ∧ x = y := by
  rcases escapeChar_cases c with ⟨e, he, hc⟩ | ⟨hlt, hc⟩ | ⟨hne, -, hc⟩ <;>
    rcases escapeChar_cases d with ⟨e', he', hd⟩ | ⟨hlt', hd⟩ | ⟨hne', -, hd⟩ <;>
    rw [hc, hd] at h <;> simp only [List.cons_append, List.nil_append, List.cons.injEq] at h
  · obtain ⟨-, rfl, hrest⟩ := h
    exact ⟨lookup_inj he he', hrest⟩
  · exact absurd h.2.1 (lookup_ne_u he)
  · exact absurd h.1.symm hne'
  · exact absurd h.2.1.symm (lookup_ne_u he')
  · obtain ⟨-, -, -, -, hhigh, hlow, hrest⟩ := h
    have hdiv := digitChar_inj (by omega) (by omega) hhigh
    have hmod := digitChar_inj (by omega) (by omega) hlow
    exact ⟨Char.toNat_inj.mp (by omega), hrest⟩
  · exact absurd h.1.symm hne'
  · exact absurd h.1 hne
  · exact absurd h.1 hne
  · exact h

/-- No escape begins with a quote. -/
theorem escapeChar_ne_quote : quote :: x ≠ escapeChar c ++ y := by
  rcases escapeChar_cases c with ⟨e, -, hc⟩ | ⟨-, hc⟩ | ⟨-, hne, hc⟩ <;> rw [hc] <;> intro h
  · exact absurd (List.cons.inj h).1 (by decide)
  · exact absurd (List.cons.inj h).1 (by decide)
  · exact hne (List.cons.inj h).1.symm

theorem string_selfDelimiting : SelfDelimiting string := by
  have hbody : ∀ s t x y : List Char,
      s.flatMap escapeChar ++ quote :: x = t.flatMap escapeChar ++ quote :: y → s = t ∧ x = y := by
    intro s
    induction s with
    | nil =>
      intro t x y h
      cases t with
      | nil => exact ⟨rfl, (List.cons.inj h).2⟩
      | cons d t =>
        rw [List.flatMap_cons, List.append_assoc] at h
        exact absurd h escapeChar_ne_quote
    | cons c s ih =>
      intro t x y h
      cases t with
      | nil =>
        rw [List.flatMap_cons, List.append_assoc] at h
        exact absurd h.symm escapeChar_ne_quote
      | cons d t =>
        rw [List.flatMap_cons, List.flatMap_cons, List.append_assoc, List.append_assoc] at h
        obtain ⟨rfl, hrest⟩ := escapeChar_inj h
        obtain ⟨rfl, hxy⟩ := ih t x y hrest
        exact ⟨rfl, hxy⟩
  intro s t x y h
  rw [string, string, List.cons_append, List.cons_append, List.append_assoc, List.append_assoc] at h
  exact hbody s t x y (List.cons.inj h).2

end Strings

/-! ### Integers -/

theorem toDigits_isDigit {n : ℕ} {c : Char} (h : c ∈ Nat.toDigits 10 n) : c.isDigit = true :=
  Nat.isDigit_of_mem_toDigits (by norm_num) (by norm_num) h

theorem toDigits_inj {m n : ℕ} (h : Nat.toDigits 10 m = Nat.toDigits 10 n) : m = n := by
  have hvalue := congrArg (fun s => Nat.ofDigitChars 10 s 0) h
  simpa only [Nat.ofDigitChars_ten_toDigits] using hvalue

theorem integer_inj {m n : ℤ} (h : integer m = integer n) : m = n := by
  have hminus : ∀ k l : ℕ, '-' :: Nat.toDigits 10 k ≠ Nat.toDigits 10 l := by
    intro k l heq
    have hdigit := toDigits_isDigit (heq ▸ List.mem_cons_self : '-' ∈ Nat.toDigits 10 l)
    cases hdigit
  unfold integer at h
  split_ifs at h with hm hn hn
  · have := toDigits_inj (List.cons.inj h).2
    omega
  · exact absurd h (hminus _ _)
  · exact absurd h.symm (hminus _ _)
  · have := toDigits_inj h
    omega

theorem bracket_notMem_integer (n : ℤ) : ']' ∉ integer n := by
  have hdigits : ']' ∉ Nat.toDigits 10 n.natAbs := fun h => by
    cases toDigits_isDigit h
  unfold integer
  split
  · rw [List.mem_cons, not_or]
    exact ⟨by decide, hdigits⟩
  · exact hdigits

/-! ### Arrays -/

section Arrays

variable {render : α → List Char}

theorem arrayRest_inj (h : SelfDelimiting render) {l l' : List α}
    (heq : arrayRest render l = arrayRest render l') : l = l' := by
  induction l generalizing l' with
  | nil =>
    cases l' with
    | nil => rfl
    | cons b l' => exact absurd (List.cons.inj heq).1 (by decide)
  | cons a l ih =>
    cases l' with
    | nil => exact absurd (List.cons.inj heq).1 (by decide)
    | cons b l' =>
      obtain ⟨rfl, hrest⟩ := h a b _ _ (List.cons.inj heq).2
      rw [ih hrest]

/-- An array gives back its elements, if none of them looks like its end. -/
theorem array_inj (h : SelfDelimiting render) (hend : ∀ a x, render a ++ x ≠ [']'])
    {l l' : List α} (heq : array render l = array render l') : l = l' := by
  cases l with
  | nil =>
    cases l' with
    | nil => rfl
    | cons b l' => exact absurd (List.cons.inj heq).2.symm (hend b _)
  | cons a l =>
    cases l' with
    | nil => exact absurd (List.cons.inj heq).2 (hend a _)
    | cons b l' =>
      obtain ⟨rfl, hrest⟩ := h a b _ _ (List.cons.inj heq).2
      rw [arrayRest_inj h hrest]

end Arrays

end Catalyrst.Lib.JsonWriter
