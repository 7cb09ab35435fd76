import Catalyrst.Lib.Instances

/-!
# Lengths and cuts in bytes

A text is a list of characters, and a character takes one to four bytes. A byte
position is a boundary if no character lies across it; a text can be truncated at
boundaries only.
-/

namespace Catalyrst.Lib.Utf8

def byteLength (s : List Char) : ℕ := (s.map Char.utf8Size).sum

def isCharBoundary : List Char → ℕ → Bool
  | _, 0 => true
  | [], _ + 1 => false
  | c :: s, n + 1 =>
    if c.utf8Size ≤ n + 1 then isCharBoundary s (n + 1 - c.utf8Size) else false

/-- The characters of the first `n` bytes. -/
def takeBytes : List Char → ℕ → List Char
  | [], _ => []
  | c :: s, n => if c.utf8Size ≤ n then c :: takeBytes s (n - c.utf8Size) else []

/-- The text cut to `n` bytes; there is none if the cut is within a character. -/
def truncate (n : ℕ) (s : List Char) : Option (List Char) :=
  if n ≤ byteLength s then
    if isCharBoundary s n then some (takeBytes s n) else none
  else some s

variable {c : Char} {s t : List Char} {n : ℕ}

theorem byteLength_cons : byteLength (c :: s) = c.utf8Size + byteLength s := by
  rw [byteLength, List.map_cons, List.sum_cons, byteLength]

theorem isCharBoundary_cons (hc : c.utf8Size ≤ n) :
    isCharBoundary (c :: s) n = isCharBoundary s (n - c.utf8Size) := by
  have hpos := c.utf8Size_pos
  obtain ⟨m, rfl⟩ : ∃ m, n = m + 1 := ⟨n - 1, by omega⟩
  exact if_pos hc

/-- A boundary is where a part of the text ends. -/
theorem isCharBoundary_iff : isCharBoundary s n = true ↔ ∃ p, p <+: s ∧ byteLength p = n := by
  induction s generalizing n with
  | nil =>
    cases n with
    | zero => exact iff_of_true rfl ⟨[], List.prefix_rfl, rfl⟩
    | succ n =>
      refine iff_of_false Bool.false_ne_true ?_
      rintro ⟨p, hp, hlen⟩
      rw [List.prefix_nil.mp hp] at hlen
      exact absurd hlen (Nat.succ_ne_zero n).symm
  | cons c s ih =>
    by_cases hc : c.utf8Size ≤ n
    · rw [isCharBoundary_cons hc, ih]
      constructor
      · rintro ⟨p, hp, hlen⟩
        refine ⟨c :: p, List.cons_prefix_cons.mpr ⟨rfl, hp⟩, ?_⟩
        rw [byteLength_cons]
        omega
      · rintro ⟨p, hp, hlen⟩
        cases p with
        | nil =>
          have hpos := c.utf8Size_pos
          have hzero : n = 0 := hlen.symm
          omega
        | cons d p =>
          obtain ⟨rfl, hrest⟩ := List.cons_prefix_cons.mp hp
          rw [byteLength_cons] at hlen
          exact ⟨p, hrest, by omega⟩
    · cases n with
      | zero => exact iff_of_true rfl ⟨[], List.nil_prefix, rfl⟩
      | succ n =>
        have hcut : isCharBoundary (c :: s) (n + 1) = false := if_neg hc
        rw [hcut]
        refine iff_of_false Bool.false_ne_true ?_
        rintro ⟨p, hp, hlen⟩
        cases p with
        | nil => exact absurd hlen (Nat.succ_ne_zero n).symm
        | cons d p =>
          obtain ⟨rfl, -⟩ := List.cons_prefix_cons.mp hp
          rw [byteLength_cons] at hlen
          omega

theorem isCharBoundary_byteLength : isCharBoundary s (byteLength s) = true :=
  isCharBoundary_iff.mpr ⟨s, List.prefix_rfl, rfl⟩

/-- A character lies across the position. -/
def Cuts (n : ℕ) (s : List Char) : Prop := n < byteLength s ∧ isCharBoundary s n = false

instance : Decidable (Cuts n s) := inferInstanceAs (Decidable (_ ∧ _))

theorem truncate_eq_none : truncate n s = none ↔ Cuts n s := by
  unfold truncate Cuts
  by_cases hle : n ≤ byteLength s
  · rw [if_pos hle]
    by_cases hb : isCharBoundary s n = true
    · rw [if_pos hb, hb]
      simp
    · have hlt : n < byteLength s := by
        refine lt_of_le_of_ne hle ?_
        rintro rfl
        exact hb isCharBoundary_byteLength
      rw [if_neg hb]
      simpa [hlt] using hb
  · rw [if_neg hle]
    simp [(not_le.mp hle).le]

/-! ### Texts of single bytes -/

def Ascii (s : List Char) : Prop := ∀ c ∈ s, c.utf8Size = 1

instance : Decidable (Ascii s) :=
  decidable_of_iff (s.all fun c => decide (c.utf8Size = 1)) (by simp [Ascii])

theorem utf8Size_of_lt (h : c.toNat < 128) : c.utf8Size = 1 := by
  unfold Char.utf8Size
  exact if_pos (UInt32.le_iff_toNat_le.mpr (by show c.toNat ≤ 127; omega))

theorem utf8Size_of_isDigit (h : c.isDigit = true) : c.utf8Size = 1 := by
  have hle : c ≤ '9' := (Bool.and_eq_true_iff.mp h).2 |> of_decide_eq_true
  have hlt : c.toNat ≤ 57 := hle
  exact utf8Size_of_lt (by omega)

theorem Ascii.cons (hc : c.utf8Size = 1) (hs : Ascii s) : Ascii (c :: s) := by
  intro d hd
  rcases List.mem_cons.mp hd with rfl | hd
  · exact hc
  · exact hs d hd

theorem Ascii.append (hs : Ascii s) (ht : Ascii t) : Ascii (s ++ t) := by
  intro c hc
  rcases List.mem_append.mp hc with hc | hc
  · exact hs c hc
  · exact ht c hc

theorem Ascii.isCharBoundary (h : Ascii s) (hn : n ≤ byteLength s) :
    Utf8.isCharBoundary s n = true := by
  induction s generalizing n with
  | nil =>
    obtain rfl : n = 0 := Nat.le_zero.mp hn
    rfl
  | cons c s ih =>
    cases n with
    | zero => rfl
    | succ n =>
      have hc := h c List.mem_cons_self
      rw [isCharBoundary_cons (by omega)]
      rw [byteLength_cons] at hn
      exact ih (fun d hd => h d (List.mem_cons_of_mem c hd)) (by omega)

/-- No character of a text of single bytes is cut. -/
theorem Ascii.not_cuts (h : Ascii s) : ¬ Cuts n s := by
  rintro ⟨hlt, hcut⟩
  rw [h.isCharBoundary hlt.le] at hcut
  exact Bool.false_ne_true hcut.symm

end Catalyrst.Lib.Utf8
