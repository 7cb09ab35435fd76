import Mathlib

/-!
# The token bucket

A bucket holds `burst` tokens at the time of the first call and gains one, never above
`burst`, after every further `interval`. A call is accepted if it finds a token, which it
spends.
-/

namespace Catalyrst.Lib.TokenBucket

def gain (burst tokens : ℕ) : ℕ := min (tokens + 1) burst

/-- How many of the times `t₀ + k * interval` with `1 ≤ k` have passed. -/
def ticks (interval t₀ t : ℕ) : ℕ := (t - t₀) / interval

/-- The answers to the calls, with `tokens` after the last call, at `s`. -/
def answers (burst interval t₀ : ℕ) : ℕ → ℕ → List ℕ → List Bool
  | _, _, [] => []
  | tokens, s, t :: ts =>
    let tokens := (gain burst)^[ticks interval t₀ t - ticks interval t₀ s] tokens
    if tokens = 0 then false :: answers burst interval t₀ 0 t ts
    else true :: answers burst interval t₀ (tokens - 1) t ts

/-- The answers to all calls: the bucket is full at the first one. -/
def ideal (burst interval : ℕ) : List ℕ → List Bool
  | [] => []
  | t₀ :: ts => answers burst interval t₀ burst t₀ (t₀ :: ts)

/-- How many calls up to `t` are accepted. -/
def acceptedBy (t : ℕ) (calls : List (ℕ × Bool)) : ℕ := calls.countP fun c => c.1 ≤ t ∧ c.2

variable {burst interval t₀ tokens s t : ℕ} {ts : List ℕ}

theorem iterate_gain (h : tokens ≤ burst) (n : ℕ) :
    (gain burst)^[n] tokens = min (tokens + n) burst := by
  induction n with
  | zero => exact (min_eq_left h).symm
  | succ n ih =>
    rw [Function.iterate_succ_apply', ih, gain]
    omega

theorem ticks_mono (h : s ≤ t) : ticks interval t₀ s ≤ ticks interval t₀ t :=
  Nat.div_le_div_right (Nat.sub_le_sub_right h t₀)

/-- No more calls are accepted than there are tokens, those gained included. -/
theorem acceptedBy_answers (t : ℕ) (h : tokens ≤ burst) (hsorted : (s :: ts).Pairwise (· ≤ ·)) :
    acceptedBy t (ts.zip (answers burst interval t₀ tokens s ts)) ≤
      tokens + (ticks interval t₀ t - ticks interval t₀ s) := by
  induction ts generalizing tokens s with
  | nil => exact Nat.zero_le _
  | cons u ts ih =>
    obtain ⟨hfirst, hrest⟩ := List.pairwise_cons.mp hsorted
    have hsu : ticks interval t₀ s ≤ ticks interval t₀ u := ticks_mono (hfirst u List.mem_cons_self)
    by_cases hut : u ≤ t
    · have hticks : ticks interval t₀ u ≤ ticks interval t₀ t := ticks_mono hut
      rw [answers, iterate_gain h]
      by_cases hzero : min (tokens + (ticks interval t₀ u - ticks interval t₀ s)) burst = 0
      · have hnext := ih (Nat.zero_le burst) hrest
        simp only [hzero, if_true, List.zip_cons_cons, acceptedBy, List.countP_cons, Bool.false_eq_true,
          and_false, decide_false, if_false] at hnext ⊢
        omega
      · have hnext := @ih (min (tokens + (ticks interval t₀ u - ticks interval t₀ s)) burst - 1) u
          (by omega) hrest
        simp only [hzero, if_false, List.zip_cons_cons, acceptedBy, List.countP_cons, hut, and_self,
          decide_true, if_true] at hnext ⊢
        omega
    · have hlate : ∀ c ∈ (u :: ts).zip (answers burst interval t₀ tokens s (u :: ts)), ¬ c.1 ≤ t := by
        intro c hc
        have hmem := (List.of_mem_zip hc).1
        rcases List.mem_cons.mp hmem with heq | hmem
        · rw [heq]
          exact hut
        · have hle := (List.pairwise_cons.mp hrest).1 c.1 hmem
          omega
      rw [acceptedBy, List.countP_eq_zero.mpr]
      · exact Nat.zero_le _
      · intro c hc
        simp [hlate c hc]

/-- The bound for the ideal bucket. -/
theorem acceptedBy_ideal (burst interval t : ℕ) (hsorted : (t₀ :: ts).Pairwise (· ≤ ·)) :
    acceptedBy t ((t₀ :: ts).zip (ideal burst interval (t₀ :: ts))) ≤
      burst + (t - t₀) / interval := by
  have hsorted' : (t₀ :: t₀ :: ts).Pairwise (· ≤ ·) := by
    refine List.pairwise_cons.mpr ⟨fun u hu => ?_, hsorted⟩
    rcases List.mem_cons.mp hu with rfl | hu
    · exact le_rfl
    · exact (List.pairwise_cons.mp hsorted).1 u hu
  have hbound := @acceptedBy_answers burst interval t₀ burst t₀ (t₀ :: ts) t le_rfl hsorted'
  rw [ticks, ticks, Nat.sub_self, Nat.zero_div, Nat.sub_zero] at hbound
  exact hbound

end Catalyrst.Lib.TokenBucket
