import Mathlib

/-!
# Cutting a list into chunks

`chunks n l` cuts `l` into pieces of `n`, the last one possibly shorter.
-/

namespace Catalyrst.Lib

variable {α β : Type*} {n : ℕ}

def chunks (n : ℕ) : List α → List (List α)
  | [] => []
  | a :: l => (a :: l.take (n - 1)) :: chunks n (l.drop (n - 1))
termination_by l => l.length
decreasing_by simp

@[simp] theorem chunks_nil : chunks n ([] : List α) = [] := by rw [chunks]

theorem chunks_cons (a : α) (l : List α) :
    chunks n (a :: l) = (a :: l.take (n - 1)) :: chunks n (l.drop (n - 1)) := by rw [chunks]

theorem flatten_chunks (l : List α) : (chunks n l).flatten = l := by
  fun_induction chunks n l with
  | case1 => rfl
  | case2 a l ih => rw [List.flatten_cons, ih, List.cons_append, List.take_append_drop]

theorem mem_of_mem_chunks {l c : List α} {a : α} (hc : c ∈ chunks n l) (ha : a ∈ c) : a ∈ l := by
  rw [← flatten_chunks (n := n) l]
  exact List.mem_flatten.mpr ⟨c, hc, ha⟩

theorem length_le_of_mem_chunks (hn : 0 < n) {l c : List α} (h : c ∈ chunks n l) :
    c.length ≤ n := by
  fun_induction chunks n l with
  | case1 => cases h
  | case2 a l ih =>
    obtain rfl | hrest := List.mem_cons.mp h
    · rw [List.length_cons, List.length_take]
      omega
    · exact ih hrest

theorem ne_nil_of_mem_chunks {l c : List α} (h : c ∈ chunks n l) : c ≠ [] := by
  fun_induction chunks n l with
  | case1 => cases h
  | case2 a l ih =>
    obtain rfl | hrest := List.mem_cons.mp h
    · exact List.cons_ne_nil _ _
    · exact ih hrest

theorem chunks_eq_nil {l : List α} : chunks n l = [] ↔ l = [] := by
  cases l with
  | nil => simp
  | cons a l => simp [chunks_cons]

/-- A full piece in front is the first chunk. -/
theorem chunks_append (hn : 0 < n) {p : List α} (hp : p.length = n) (l : List α) :
    chunks n (p ++ l) = p :: chunks n l := by
  cases p with
  | nil =>
    rw [List.length_nil] at hp
    omega
  | cons a p =>
    have hlen : p.length = n - 1 := by
      rw [List.length_cons] at hp
      omega
    rw [List.cons_append, chunks_cons, List.take_left' hlen, List.drop_left' hlen]

theorem chunks_of_length_le {l : List α} (hne : l ≠ []) (hl : l.length ≤ n) : chunks n l = [l] := by
  cases l with
  | nil => exact absurd rfl hne
  | cons a l =>
    rw [List.length_cons] at hl
    rw [chunks_cons, List.take_of_length_le (by omega), List.drop_of_length_le (by omega),
      chunks_nil]

/-- Full pieces and a last one. -/
theorem chunks_flatten_append (hn : 0 < n) {cs : List (List α)} (hfull : ∀ c ∈ cs, c.length = n)
    {l : List α} (hne : l ≠ []) (hl : l.length ≤ n) : chunks n (cs.flatten ++ l) = cs ++ [l] := by
  induction cs with
  | nil => exact chunks_of_length_le hne hl
  | cons c cs ih =>
    rw [List.flatten_cons, List.append_assoc, chunks_append hn (hfull c List.mem_cons_self),
      ih fun d hd => hfull d (List.mem_cons_of_mem c hd)]
    rfl

theorem chunks_map (f : α → β) (l : List α) : chunks n (l.map f) = (chunks n l).map (List.map f) := by
  fun_induction chunks n l with
  | case1 => rw [List.map_nil, chunks_nil, List.map_nil]
  | case2 a l ih =>
    rw [List.map_cons, chunks_cons, List.map_cons, ← List.map_take, ← List.map_drop, ih]
    rfl

/-- All chunks but the last are full. -/
theorem mul_length_chunks (hn : 0 < n) (l : List α) :
    n * (chunks n l).length ≤ l.length + (n - 1) := by
  fun_induction chunks n l with
  | case1 => simp
  | case2 a l ih =>
    rw [List.length_cons, List.length_cons, Nat.mul_add, Nat.mul_one]
    rw [List.length_drop] at ih
    by_cases hle : l.length ≤ n - 1
    · have hnil : l.drop (n - 1) = [] := List.drop_of_length_le hle
      rw [hnil, chunks_nil, List.length_nil, Nat.mul_zero]
      omega
    · omega

theorem length_chunks_lt (hn : 2 ≤ n) {l : List α} (hl : 2 ≤ l.length) :
    (chunks n l).length < l.length := by
  have hmul := mul_length_chunks (by omega : 0 < n) l
  by_contra hge
  have hle : n * l.length ≤ n * (chunks n l).length := Nat.mul_le_mul_left n (not_lt.mp hge)
  obtain ⟨m, rfl⟩ := Nat.exists_eq_add_of_le hn
  have hexp : (2 + m) * l.length = 2 * l.length + m * l.length := Nat.add_mul _ _ _
  have hm : m * 2 ≤ m * l.length := Nat.mul_le_mul_left m hl
  omega

end Catalyrst.Lib
