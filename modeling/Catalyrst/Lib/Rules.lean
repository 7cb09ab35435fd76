import Mathlib

/-!
# Sets closed under rules

A rule adds its conclusion to a set that holds its premises. The least set closed
under some rules that includes a given one holds what can be derived from it.
-/

namespace Catalyrst.Lib

variable {α : Type*}

structure Rule (α : Type*) where
  premises : List α
  conclusion : α

/-- The set holds the premises of the rule. -/
def Rule.Fires (r : Rule α) (s : Set α) : Prop := ∀ a ∈ r.premises, a ∈ s

/-- What the rules conclude from members of the set is in the set. -/
def ClosedUnder (rules : Set (Rule α)) (s : Set α) : Prop :=
  ∀ r ∈ rules, r.Fires s → r.conclusion ∈ s

inductive Derivable (rules : Set (Rule α)) (base : Set α) : α → Prop
  | base {a : α} (h : a ∈ base) : Derivable rules base a
  | rule {r : Rule α} (hr : r ∈ rules) (h : ∀ a ∈ r.premises, Derivable rules base a) :
    Derivable rules base r.conclusion

variable {rules : Set (Rule α)} {base s t : Set α}

theorem Rule.Fires.mono {r : Rule α} (h : r.Fires s) (hst : s ⊆ t) : r.Fires t :=
  fun a ha => hst (h a ha)

theorem closedUnder_derivable : ClosedUnder rules {a | Derivable rules base a} :=
  fun _ hr h => .rule hr h

theorem Derivable.mem {a : α} (h : Derivable rules base a) (hbase : base ⊆ s)
    (hclosed : ClosedUnder rules s) : a ∈ s := by
  induction h with
  | base ha => exact hbase ha
  | rule hr _ ih => exact hclosed _ hr ih

/-- The least closed set over `base` is the set of what can be derived from it. -/
theorem isLeast_closed_iff :
    IsLeast {s | base ⊆ s ∧ ClosedUnder rules s} t ↔ ∀ a, a ∈ t ↔ Derivable rules base a := by
  constructor
  · rintro ⟨⟨hbase, hclosed⟩, hleast⟩ a
    refine ⟨fun ha => ?_, fun ha => ha.mem hbase hclosed⟩
    exact hleast ⟨fun _ hb => .base hb, closedUnder_derivable⟩ ha
  · intro h
    obtain rfl : t = {a | Derivable rules base a} := Set.ext h
    refine ⟨⟨fun _ hb => .base hb, closedUnder_derivable⟩, ?_⟩
    rintro s ⟨hbase, hclosed⟩ a ha
    exact ha.mem hbase hclosed

end Catalyrst.Lib
