import Mathlib

/-!
# Exclusive locks

A table of locks that are held until their holder lets go of all of them at once. Taking
a lock that one holds already succeeds, and one that another holds has to wait.
-/

namespace Catalyrst.Lib

abbrev Locks (κ τ : Type*) := κ → Option τ

namespace Locks

variable {κ τ : Type*} [DecidableEq τ] {l l' : Locks κ τ} {k k' : κ} {t t' : τ}

def take [DecidableEq κ] (l : Locks κ τ) (k : κ) (t : τ) : Option (Locks κ τ) :=
  match l k with
  | none => some (Function.update l k (some t))
  | some holder => if holder = t then some l else none

def releaseAll (l : Locks κ τ) (t : τ) : Locks κ τ := fun k => if l k = some t then none else l k

theorem take_self [DecidableEq κ] (h : l.take k t = some l') : l' k = some t := by
  unfold take at h
  split at h
  · rw [← Option.some.inj h]
    exact Function.update_self k (some t) l
  · rename_i holder hk
    split at h
    · rename_i heq
      rw [← Option.some.inj h, hk, heq]
    · cases h

theorem take_other [DecidableEq κ] (h : l.take k t = some l') (hk : l k' = some t') : l' k' = some t' := by
  unfold take at h
  split at h
  · rename_i hnone
    have hne : k' ≠ k := by
      intro heq
      rw [heq, hnone] at hk
      cases hk
    rw [← Option.some.inj h, Function.update_of_ne hne]
    exact hk
  · split at h
    · rw [← Option.some.inj h]
      exact hk
    · cases h

theorem releaseAll_other (hk : l k' = some t') (hne : t' ≠ t) : l.releaseAll t k' = some t' := by
  unfold releaseAll
  rw [if_neg, hk]
  rw [hk]
  exact fun h => hne (Option.some.inj h)

end Locks

end Catalyrst.Lib
