import Catalyrst.Lib.Instances

/-!
# Texts

Cutting white space and prefixes off a text, cutting a text at a letter, and comparing texts
up to the case of their ASCII letters.
-/

namespace Catalyrst.Lib.Texts

/-- Unicode `White_Space`. -/
def isWhitespace (c : Char) : Bool :=
  decide ((9 ≤ c.toNat ∧ c.toNat ≤ 13) ∨ c.toNat = 32 ∨ c.toNat = 133 ∨ c.toNat = 160 ∨
    c.toNat = 5760 ∨ (8192 ≤ c.toNat ∧ c.toNat ≤ 8202) ∨ c.toNat = 8232 ∨ c.toNat = 8233 ∨
    c.toNat = 8239 ∨ c.toNat = 8287 ∨ c.toNat = 12288)

def trim (s : List Char) : List Char := (s.dropWhile isWhitespace).rdropWhile isWhitespace

theorem trim_of_no_white {s : List Char} (h : ∀ c ∈ s, isWhitespace c = false) : trim s = s := by
  have hdrop : s.dropWhile isWhitespace = s := by
    cases s with
    | nil => rfl
    | cons c s => simp [h c List.mem_cons_self]
  rw [trim, hdrop, List.rdropWhile_eq_self_iff]
  intro hne
  simp [h _ (List.getLast_mem hne)]

/-- What stands before and after the first `c`. -/
def splitOnce (c : Char) (s : List Char) : Option (List Char × List Char) :=
  if c ∈ s then some (s.takeWhile (· ≠ c), (s.dropWhile (· ≠ c)).tail) else none

theorem splitOnce_append {c : Char} {x : List Char} (hx : c ∉ x) (y : List Char) :
    splitOnce c (x ++ c :: y) = some (x, y) := by
  have htake : (x ++ c :: y).takeWhile (· ≠ c) = x := by
    rw [List.takeWhile_append_of_pos]
    · simp
    · intro d hd
      exact decide_eq_true fun h => hx (h ▸ hd)
  have hdrop : (x ++ c :: y).dropWhile (· ≠ c) = c :: y := by
    rw [List.dropWhile_append_of_pos]
    · simp
    · intro d hd
      exact decide_eq_true fun h => hx (h ▸ hd)
  rw [splitOnce, if_pos (by simp), htake, hdrop, List.tail_cons]

theorem splitOnce_some {c : Char} {s x y : List Char} (h : splitOnce c s = some (x, y)) :
    s = x ++ c :: y := by
  unfold splitOnce at h
  split_ifs at h with hmem
  obtain ⟨rfl, rfl⟩ := Prod.mk.inj (Option.some.inj h)
  have hcut := List.takeWhile_append_dropWhile (p := (· ≠ c)) (l := s)
  have hne : s.dropWhile (· ≠ c) ≠ [] := by
    intro hnil
    have hall := List.dropWhile_eq_nil_iff.mp hnil c hmem
    simp at hall
  have hhead : (s.dropWhile (· ≠ c)).head hne = c := by
    simpa using List.head_dropWhile_not (· ≠ c) hne
  conv_lhs => rw [← hcut, ← List.cons_head_tail hne, hhead]

theorem infix_intercalate {sep part : List Char} {parts : List (List Char)} (h : part ∈ parts) :
    part <:+: sep.intercalate parts := by
  induction parts with
  | nil => cases h
  | cons head parts ih =>
    cases parts with
    | nil => simp [List.mem_singleton.mp h]
    | cons next parts =>
      rw [List.intercalate_cons_cons]
      rcases List.mem_cons.mp h with rfl | h
      · exact (List.prefix_append_of_prefix (List.prefix_append _ _)).isInfix
      · exact (ih h).trans (List.suffix_append _ _).isInfix

theorem infix_of_mem_splitOn {c : Char} {s part : List Char} (h : part ∈ s.splitOn c) :
    part <:+: s := by
  have hjoin : [c].intercalate (s.splitOn c) = s := List.intercalate_splitOn c
  rw [← hjoin]
  exact infix_intercalate h

/-- What stands after the last `c`. -/
def afterLast (c : Char) (s : List Char) : Option (List Char) :=
  if c ∈ s then some (s.rtakeWhile (· ≠ c)) else none

/-- A text without every `0x` before it. -/
def trimStart0x : List Char → List Char
  | '0' :: 'x' :: s => trimStart0x s
  | s => s

/-- `str::eq_ignore_ascii_case`. -/
def eqIgnoreAsciiCase (s t : List Char) : Bool := s.map Char.toLower = t.map Char.toLower

end Catalyrst.Lib.Texts
