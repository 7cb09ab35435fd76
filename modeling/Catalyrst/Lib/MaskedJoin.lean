import Mathlib

/-!
# Replicas that join updates under a mask

A replica holds an element of a join semilattice. Receiving an update joins it
in and then forgets what the joined state declares obsolete. When forgetting is
stable (what was forgotten once would be forgotten again), the state depends on
the set of updates received only, not on their order or multiplicity.
-/

namespace Catalyrst.Lib.MaskedJoin

variable {S : Type*} [SemilatticeSup S] [OrderBot S]

/-- The least upper bound of a list of updates. -/
def joinAll (ds : List S) : S := (ds : Multiset S).sup

@[simp] theorem joinAll_nil : joinAll ([] : List S) = ⊥ := Multiset.sup_zero

@[simp] theorem joinAll_cons (d : S) (ds : List S) : joinAll (d :: ds) = d ⊔ joinAll ds := by
  simp only [joinAll, ← Multiset.cons_coe, Multiset.sup_cons]

@[simp] theorem joinAll_append (ds es : List S) : joinAll (ds ++ es) = joinAll ds ⊔ joinAll es := by
  simp only [joinAll, ← Multiset.coe_add, Multiset.sup_add]

theorem joinAll_le (ds : List S) (a : S) : joinAll ds ≤ a ↔ ∀ d ∈ ds, d ≤ a := Multiset.sup_le

theorem le_joinAll {ds : List S} {d : S} (h : d ∈ ds) : d ≤ joinAll ds := Multiset.le_sup h

theorem joinAll_congr {ds es : List S} (h : ∀ d, d ∈ ds ↔ d ∈ es) : joinAll ds = joinAll es :=
  le_antisymm (Multiset.sup_mono fun d hd => (h d).mp hd)
    (Multiset.sup_mono fun d hd => (h d).mpr hd)

/-- A mask is stable when masking early loses nothing. -/
structure Stable (mask : S → S) : Prop where
  bot : mask ⊥ = ⊥
  join : ∀ a b, mask (mask a ⊔ b) = mask (a ⊔ b)

variable {mask : S → S}

theorem Stable.idem (h : Stable mask) (a : S) : mask (mask a) = mask a := by
  have hj := h.join a ⊥
  simpa only [sup_bot_eq] using hj

/-- Receiving updates one at a time ends in the mask of their join. -/
theorem Stable.foldl_receive (h : Stable mask) (ds : List S) (a : S) :
    ds.foldl (fun s d => mask (s ⊔ d)) (mask a) = mask (a ⊔ joinAll ds) := by
  induction ds generalizing a with
  | nil => simp only [List.foldl_nil, joinAll_nil, sup_bot_eq]
  | cons d ds ih => rw [List.foldl_cons, h.join, ih, joinAll_cons, sup_assoc]

end Catalyrst.Lib.MaskedJoin
