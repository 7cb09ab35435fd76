import Mathlib

/-!
# Rings of numbered values

A ring holds the last few of a sequence of values, each of which carries its number:
number `n` is written to slot `n % ring.length`, and whoever looks for `n` reads that
slot and compares the numbers. The slots start out with a default whose number is 0.
-/

namespace Catalyrst.Lib.Ring

variable {α : Type*} (num : α → ℕ) (d : α)

def read (ring : List α) (n : ℕ) : α := ring.getD (n % ring.length) d

def write (ring : List α) (a : α) : List α := ring.set (num a % ring.length) a

@[simp] theorem length_write (ring : List α) (a : α) :
    (write num ring a).length = ring.length := List.length_set

/-- The slot that was written holds the new value, the others what they held. -/
theorem read_write {ring : List α} (hpos : 0 < ring.length) (a : α) (n : ℕ) :
    read d (write num ring a) n = if num a % ring.length = n % ring.length then a
      else read d ring n := by
  have hn : n % ring.length < ring.length := Nat.mod_lt n hpos
  unfold read
  rw [length_write, List.getD_eq_getElem?_getD, List.getD_eq_getElem?_getD, write,
    List.getElem?_set]
  split
  · rename_i heq
    rw [heq, if_pos hn]
    rfl
  · rfl

theorem read_nil (n : ℕ) : read d [] n = d := rfl

/-- Numbers up to `last` were written: whoever finds a number in its slot has found the value of
that number in the history. -/
structure Holds (ring : List α) (history : ℕ → α) (last : ℕ) : Prop where
  found : ∀ n, num (read d ring n) = n → read d ring n = history n ∧ n ≤ last
  latest : read d ring last = history (num (read d ring last)) ∧ num (read d ring last) ≤ last
  newest : 0 < ring.length → num (read d ring last) = last

/-- A first value, with number 0. -/
theorem Holds.first (hd : num d = 0) (capacity : ℕ) {a : α} (ha : num a = 0) :
    ∃ history, Holds num d (write num (List.replicate capacity d) a) history 0 := by
  rcases Nat.eq_zero_or_pos capacity with rfl | hpos
  · refine ⟨fun _ => d, fun n hn => ?_, ?_, fun hlen => ?_⟩
    · simp only [write, List.replicate_zero, List.set_nil, read_nil, hd] at hn ⊢
      exact ⟨trivial, hn.ge⟩
    · simp only [write, List.replicate_zero, List.set_nil, read_nil, hd]
      exact ⟨trivial, le_rfl⟩
    · simp at hlen
  · have hlen : 0 < (List.replicate capacity d).length := by simpa using hpos
    have hdefault : ∀ n, read d (List.replicate capacity d) n = d := by
      intro n
      simp [read, List.getD_eq_getElem?_getD, Nat.mod_lt n hpos]
    refine ⟨fun _ => a, fun n hn => ?_, ?_, fun _ => ?_⟩
    · rw [read_write num d hlen, ha, hdefault] at hn ⊢
      split at hn
      · rename_i heq
        rw [if_pos heq]
        exact ⟨rfl, hn ▸ ha.le⟩
      · rename_i hne
        rw [hd] at hn
        exact absurd (by rw [← hn]) hne
    · rw [read_write num d hlen, ha, if_pos rfl, ha]
      exact ⟨rfl, le_rfl⟩
    · rw [read_write num d hlen, ha, if_pos rfl, ha]

variable {num d}

/-- The next value goes to the end of the history. -/
theorem Holds.next {ring : List α} {history : ℕ → α} {last : ℕ}
    (h : Holds num d ring history last) (hd : num d = 0) {a : α} (ha : num a = last + 1) :
    ∃ history', (∀ n ≤ last, history' n = history n) ∧
      Holds num d (write num ring a) history' (last + 1) := by
  rcases Nat.eq_zero_or_pos ring.length with hzero | hpos
  · -- nothing is ever held, and every look-up reads the default
    obtain rfl := List.length_eq_zero_iff.mp hzero
    have hdefault : d = history 0 := (h.found 0 hd).1
    refine ⟨history, fun _ _ => rfl, fun n hn => ?_, ?_, fun hlen => ?_⟩
    · simp only [write, List.set_nil, read_nil, hd] at hn ⊢
      exact ⟨hn ▸ hdefault, by omega⟩
    · simp only [write, List.set_nil, read_nil, hd]
      exact ⟨hdefault, by omega⟩
    · simp [write] at hlen
  · refine ⟨Function.update history (last + 1) a, fun n hn => ?_, fun n hn => ?_, ?_, fun _ => ?_⟩
    · rw [Function.update_of_ne (by omega)]
    · rw [read_write num d hpos] at hn ⊢
      split at hn
      · rename_i heq
        rw [if_pos heq, ← hn, ha, Function.update_self]
        exact ⟨rfl, le_rfl⟩
      · rename_i hne
        obtain ⟨hread, hle⟩ := h.found n hn
        rw [if_neg hne, Function.update_of_ne (by omega)]
        exact ⟨hread, by omega⟩
    · rw [read_write num d hpos, ha, if_pos rfl, ha, Function.update_self]
      exact ⟨rfl, le_rfl⟩
    · rw [read_write num d hpos, ha, if_pos rfl, ha]

/-! ### The window of a ring -/

variable (num d)

/-- The history is numbered, and the ring still holds the end of it that fits. -/
structure Window (ring : List α) (history : ℕ → α) (last : ℕ) : Prop where
  numbered : ∀ n ≤ last, num (history n) = n
  kept : ∀ n ≤ last, last < n + ring.length → read d ring n = history n

theorem Window.first {capacity : ℕ} (hpos : 0 < capacity) {a : α} (ha : num a = 0)
    (history : ℕ → α) : Window num d (write num (List.replicate capacity d) a)
      (Function.update history 0 a) 0 := by
  have hlen : 0 < (List.replicate capacity d).length := by simpa using hpos
  refine ⟨fun n hn => ?_, fun n hn _ => ?_⟩
  · rw [Nat.le_zero.mp hn, Function.update_self, ha]
  · rw [Nat.le_zero.mp hn, Function.update_self, read_write num d hlen, ha, if_pos rfl]

variable {num d}

theorem Window.next {ring : List α} {history : ℕ → α} {last : ℕ}
    (h : Window num d ring history last) (hpos : 0 < ring.length) {a : α} (ha : num a = last + 1) :
    Window num d (write num ring a) (Function.update history (last + 1) a) (last + 1) := by
  refine ⟨fun n hn => ?_, fun n hn hkept => ?_⟩
  · rcases Nat.lt_or_eq_of_le hn with hlt | rfl
    · rw [Function.update_of_ne (ne_of_lt hlt)]
      exact h.numbered n (Nat.le_of_lt_succ hlt)
    · rw [Function.update_self, ha]
  · rw [length_write] at hkept
    rw [read_write num d hpos, ha]
    rcases Nat.lt_or_eq_of_le hn with hlt | rfl
    · -- a number less than a lap behind has a slot of its own
      have hslot : (last + 1) % ring.length ≠ n % ring.length := by
        intro heq
        have hdvd : ring.length ∣ last + 1 - n := (Nat.modEq_iff_dvd' hlt.le).mp heq.symm
        have hle := Nat.le_of_dvd (by omega) hdvd
        omega
      rw [if_neg hslot, Function.update_of_ne (ne_of_lt hlt)]
      exact h.kept n (Nat.le_of_lt_succ hlt) (by omega)
    · rw [if_pos rfl, Function.update_self]

/-- A number is found in its slot as long as the ring has not come round to it again. -/
theorem Window.found_iff {ring : List α} {history : ℕ → α} {last : ℕ}
    (h : Window num d ring history last) (hpos : 0 < ring.length) {n : ℕ} (hn : n ≤ last) :
    num (read d ring n) = n ↔ last < n + ring.length := by
  constructor
  · intro hfound
    by_contra hold
    -- the latest number of the same slot
    have hle : (last - n) / ring.length * ring.length ≤ last - n := Nat.div_mul_le_self _ _
    have hlap : last - n < (last - n) / ring.length * ring.length + ring.length :=
      Nat.lt_div_mul_add hpos
    have hread : read d ring (n + (last - n) / ring.length * ring.length) = read d ring n := by
      rw [read, read, Nat.add_mul_mod_self_right]
    have hkept := h.kept (n + (last - n) / ring.length * ring.length) (by omega) (by omega)
    have hnum := h.numbered (n + (last - n) / ring.length * ring.length) (by omega)
    rw [← hkept, hread, hfound] at hnum
    omega
  · intro hkept
    rw [h.kept n hn hkept, h.numbered n hn]

end Catalyrst.Lib.Ring
