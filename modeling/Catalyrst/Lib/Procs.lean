import Mathlib

/-!
# Tables of processes

The processes of a concurrent system stand in a list; a step replaces the entry of
one process. The lemmas say what a replacement does to what the processes hold
between them and to the number of processes of a kind.
-/

namespace Catalyrst.Lib.Procs

variable {α β : Type*} {l : List α} {i : ℕ} {a : α}

/-- What a process held is still held by another, or was held by the one replaced. -/
theorem mem_flatMap_set (h : l[i]? = some a) (b : α) {f : α → List β} {x : β}
    (hx : x ∈ l.flatMap f) : x ∈ f a ∨ x ∈ (l.set i b).flatMap f := by
  obtain ⟨c, hc, hxc⟩ := List.mem_flatMap.mp hx
  obtain ⟨j, hj⟩ := List.mem_iff_getElem?.mp hc
  by_cases hij : i = j
  · subst hij
    rw [h] at hj
    obtain rfl := Option.some.inj hj
    exact Or.inl hxc
  · refine Or.inr (List.mem_flatMap.mpr ⟨c, List.mem_iff_getElem?.mpr ⟨j, ?_⟩, hxc⟩)
    rw [List.getElem?_set_ne hij]
    exact hj

/-- The new entry holds what it holds. -/
theorem mem_flatMap_set_self (h : l[i]? = some a) {b : α} {f : α → List β} {x : β}
    (hx : x ∈ f b) : x ∈ (l.set i b).flatMap f := by
  have hi : i < l.length := (List.getElem?_eq_some_iff.mp h).1
  have hb : (l.set i b)[i]? = some b := List.getElem?_set_self hi
  exact List.mem_flatMap.mpr ⟨b, List.mem_iff_getElem?.mpr ⟨i, hb⟩, hx⟩

/-- What is settled or still owed by a process stays so, when the one replaced settles what it
owed or goes on owing it. -/
theorem settled_or_owed_set {settled settled' : Prop} (h : l[i]? = some a) {b : α}
    {f : α → List β} {x : β} (hsettled : settled → settled' ∨ x ∈ f b)
    (howed : x ∈ f a → settled' ∨ x ∈ f b) (hx : settled ∨ x ∈ l.flatMap f) :
    settled' ∨ x ∈ (l.set i b).flatMap f := by
  obtain hx | hx := hx
  · exact (hsettled hx).imp_right (mem_flatMap_set_self h)
  · obtain ha | hset := mem_flatMap_set h b hx
    · exact (howed ha).imp_right (mem_flatMap_set_self h)
    · exact Or.inr hset

theorem countP_set (h : l[i]? = some a) (b : α) (p : α → Bool) :
    (l.set i b).countP p + (if p a then 1 else 0) = l.countP p + (if p b then 1 else 0) := by
  induction l generalizing i with
  | nil => cases h
  | cons c l ih =>
    cases i with
    | zero =>
      obtain rfl := Option.some.inj h
      simp only [List.set_cons_zero, List.countP_cons]
      omega
    | succ i =>
      have hrest := ih (i := i) h
      simp only [List.set_cons_succ, List.countP_cons]
      omega

/-- A counter of the processes of a kind, lowered when one of them stops being of it. -/
theorem countP_move (h : l[i]? = some a) {p : α → Bool} (ha : p a = true) (b : α) :
    (l.set i b).countP p = if p b then l.countP p else l.countP p - 1 := by
  have hset := countP_set h b p
  rw [ha, if_pos rfl] at hset
  split
  · rename_i hb
    rw [hb, if_pos rfl] at hset
    omega
  · rename_i hb
    rw [if_neg hb] at hset
    omega

/-- Where no process is of a kind, none of the table is. -/
theorem not_of_countP_eq_zero {p : α → Bool} (h : l.countP p = 0) (ha : a ∈ l) : p a = false := by
  have hn := List.countP_eq_zero.mp h a ha
  simpa using hn

end Catalyrst.Lib.Procs
