import Mathlib

/-!
# Standing members of a set under a relation of precedence

`follows y x` says that `y` overrules `x`. A member of a set stands when no member
of the set follows it. What stands in a union is found by comparing the new
members with all of them and the old ones with the new ones only.
-/

namespace Catalyrst.Lib

variable {α : Type*} (follows : α → α → Prop)

def Stands (s : Set α) (x : α) : Prop := ∀ y ∈ s, ¬ follows y x

variable {follows}

theorem stands_union {s t : Set α} {x : α} :
    Stands follows (s ∪ t) x ↔ Stands follows s x ∧ Stands follows t x := by
  constructor
  · intro h
    exact ⟨fun y hy => h y (Or.inl hy), fun y hy => h y (Or.inr hy)⟩
  · rintro ⟨hs, ht⟩ y (hy | hy)
    · exact hs y hy
    · exact ht y hy

theorem stands_congr {r q : α → α → Prop} {s : Set α} {x : α} (h : ∀ y ∈ s, r y x ↔ q y x) :
    Stands r s x ↔ Stands q s x :=
  forall₂_congr fun y hy => not_congr (h y hy)

/-- Two standing members that compare are one member. -/
theorem Stands.unique {s : Set α} {x y : α} (hx : Stands follows s x) (hy : Stands follows s y)
    (mx : x ∈ s) (my : y ∈ s) (hxy : x = y ∨ follows x y ∨ follows y x) : x = y := by
  rcases hxy with rfl | h | h
  · rfl
  · exact absurd h (hy x mx)
  · exact absurd h (hx y my)

end Catalyrst.Lib
