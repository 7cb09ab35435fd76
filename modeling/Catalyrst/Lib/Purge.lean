import Mathlib

/-!
# Removing requests that do nothing

A server answers a list of requests one after the other, each in the state the last one
left. A request is idle in a state if it leaves the state and publishes nothing. Removing
requests that are idle where they are served changes nothing for the others.
-/

namespace Catalyrst.Lib.Purge

variable {σ ρ ε : Type*} (serve : σ → ρ → σ × List ε)

/-- The state after each request, and what it published. -/
def trace : σ → List ρ → List (σ × List ε)
  | _, [] => []
  | s, r :: rs => serve s r :: trace (serve s r).1 rs

/-- What holds of every request in the state it is served in. -/
def Throughout (P : σ → ρ → Prop) : σ → List ρ → Prop
  | _, [] => True
  | s, r :: rs => P s r ∧ Throughout P (serve s r).1 rs

/-- The requests with their answers. -/
def answered (s : σ) (rs : List ρ) : List (ρ × (σ × List ε)) := rs.zip (trace serve s rs)

variable {serve} {P Q : σ → ρ → Prop} {keep : ρ → Bool} {s : σ} {rs : List ρ}

theorem answered_cons (s : σ) (r : ρ) (rs : List ρ) :
    answered serve s (r :: rs) = (r, serve s r) :: answered serve (serve s r).1 rs := rfl

/-- Induction along the requests, with an invariant of the states. -/
theorem throughout_of_invariant {I : σ → Prop} (hstep : ∀ s r, I s → r ∈ rs → I (serve s r).1)
    (hP : ∀ s r, I s → r ∈ rs → P s r → Q s r) (hs : I s) (h : Throughout serve P s rs) :
    Throughout serve Q s rs := by
  induction rs generalizing s with
  | nil => trivial
  | cons r rs ih =>
    have hr : r ∈ r :: rs := List.mem_cons_self
    refine ⟨hP s r hs hr h.1, ?_⟩
    exact ih (fun t q ht hq => hstep t q ht (List.mem_cons_of_mem r hq))
      (fun t q ht hq => hP t q ht (List.mem_cons_of_mem r hq)) (hstep s r hs hr) h.2

theorem trace_filter (h : Throughout serve (fun s r => keep r = false → serve s r = (s, [])) s rs) :
    trace serve s (rs.filter keep) =
      ((answered serve s rs).filter fun a => keep a.1).map Prod.snd := by
  induction rs generalizing s with
  | nil => rfl
  | cons r rs ih =>
    rw [answered_cons]
    cases hkeep : keep r with
    | true =>
      rw [List.filter_cons_of_pos hkeep, List.filter_cons_of_pos (by exact hkeep), List.map_cons,
        ← ih h.2]
      rfl
    | false =>
      have hidle := h.1 hkeep
      have hrest := h.2
      rw [List.filter_cons_of_neg (by simp [hkeep]), List.filter_cons_of_neg (by simp [hkeep])]
      rw [hidle] at hrest ⊢
      exact ih hrest

/-- What is published is published by the requests that stay. -/
theorem published_filter
    (h : Throughout serve (fun s r => keep r = false → serve s r = (s, [])) s rs) :
    (trace serve s (rs.filter keep)).flatMap Prod.snd = (trace serve s rs).flatMap Prod.snd := by
  induction rs generalizing s with
  | nil => rfl
  | cons r rs ih =>
    cases hkeep : keep r with
    | true =>
      rw [List.filter_cons_of_pos hkeep, trace, trace, List.flatMap_cons, List.flatMap_cons, ih h.2]
    | false =>
      have hidle := h.1 hkeep
      have hrest := h.2
      rw [List.filter_cons_of_neg (by simp [hkeep]), trace, List.flatMap_cons]
      rw [hidle] at hrest ⊢
      rw [List.nil_append]
      exact ih hrest

end Catalyrst.Lib.Purge
