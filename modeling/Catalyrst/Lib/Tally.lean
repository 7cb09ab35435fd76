import Mathlib

/-!
# Tallies

The sum of `f` over the rows of a table that satisfy `p`, as an aggregate with a filter
computes it: how it changes when rows are appended or changed in place, and how the
tallies of a table compare.
-/

namespace Catalyrst.Lib

def tally {α M : Type*} [AddCommMonoid M] (p : α → Bool) (f : α → M) (rows : List α) : M :=
  ((rows.filter p).map f).sum

namespace Tally

variable {α M : Type*} [AddCommMonoid M] {p q : α → Bool} {f : α → M} {rows rows' : List α}

@[simp] theorem tally_nil (p : α → Bool) (f : α → M) : tally p f [] = 0 := rfl

theorem tally_cons (a : α) : tally p f (a :: rows) = (if p a then f a else 0) + tally p f rows := by
  unfold tally
  rw [List.filter_cons]
  split <;> simp

theorem tally_append : tally p f (rows ++ rows') = tally p f rows + tally p f rows' := by
  simp only [tally, List.filter_append, List.map_append, List.sum_append]

theorem tally_congr {g : α → M} (hp : ∀ a ∈ rows, p a = q a) (hf : ∀ a ∈ rows, q a = true → f a = g a) :
    tally p f rows = tally q g rows := by
  induction rows with
  | nil => rfl
  | cons a rows ih =>
    rw [tally_cons, tally_cons, ih (fun b hb => hp b (List.mem_cons_of_mem _ hb))
      (fun b hb => hf b (List.mem_cons_of_mem _ hb)), hp a List.mem_cons_self]
    split
    · rw [hf a List.mem_cons_self ‹_›]
    · rfl

theorem tally_eq_zero (h : ∀ a ∈ rows, p a = false) : tally p f rows = 0 := by
  induction rows with
  | nil => rfl
  | cons a rows ih =>
    rw [tally_cons, h a List.mem_cons_self, ih fun b hb => h b (List.mem_cons_of_mem _ hb)]
    simp

/-- Rows changed in place. -/
theorem tally_map (u : α → α) : tally p f (rows.map u) = tally (p ∘ u) (f ∘ u) rows := by
  simp only [tally, List.filter_map, List.map_map]

/-- What satisfies `p` splits by `q`. -/
theorem tally_split : tally p f rows =
    tally (fun a => p a && q a) f rows + tally (fun a => p a && !q a) f rows := by
  induction rows with
  | nil => simp
  | cons a rows ih =>
    simp only [tally_cons, ih]
    cases p a <;> cases q a <;> simp [add_assoc, add_left_comm]

end Tally

namespace Tally

variable {α M : Type*} [AddCommMonoid M] [PartialOrder M] [IsOrderedAddMonoid M] {p q : α → Bool}
  {f : α → M} {rows : List α}

theorem tally_nonneg (h : ∀ a ∈ rows, 0 ≤ f a) : 0 ≤ tally p f rows := by
  induction rows with
  | nil => exact le_rfl
  | cons a rows ih =>
    rw [tally_cons]
    refine add_nonneg ?_ (ih fun b hb => h b (List.mem_cons_of_mem _ hb))
    split
    · exact h a List.mem_cons_self
    · exact le_rfl

theorem tally_mono (hf : ∀ a ∈ rows, 0 ≤ f a) (hpq : ∀ a ∈ rows, p a = true → q a = true) :
    tally p f rows ≤ tally q f rows := by
  induction rows with
  | nil => exact le_rfl
  | cons a rows ih =>
    rw [tally_cons, tally_cons]
    refine add_le_add ?_ (ih (fun b hb => hf b (List.mem_cons_of_mem _ hb))
      fun b hb => hpq b (List.mem_cons_of_mem _ hb))
    by_cases hp : p a = true
    · rw [if_pos hp, if_pos (hpq a List.mem_cons_self hp)]
    · rw [if_neg hp]
      split
      · exact hf a List.mem_cons_self
      · exact le_rfl

end Tally

end Catalyrst.Lib
