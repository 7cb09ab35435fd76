import Mathlib

/-!
# Who is present in a log

Entries of a log let a subject join, let it leave, or report on subjects. The
subjects present after a log are those whose last entry of the first two kinds is
a join; a log joins first when every report is about a present subject.
-/

namespace Catalyrst.Lib.Presence

variable {α β : Type*} (joins leaves : α → Option β) (reports : α → List β)

/-- Every report is preceded by a join of its subject with no leave in between. -/
def JoinsFirst (log : List α) : Prop :=
  ∀ pre m post, log = pre ++ m :: post → ∀ s ∈ reports m,
    ∃ a j b, pre = a ++ j :: b ∧ joins j = some s ∧ ∀ k ∈ b, leaves k ≠ some s

theorem joinsFirst_nil : JoinsFirst joins leaves reports [] := by
  intro pre m post h
  exact absurd h.symm (by simp)

variable [DecidableEq β]

/-- The presence after one more entry. -/
def enter (present : Finset β) (m : α) : Finset β :=
  (joins m).elim id insert ((leaves m).elim present present.erase)

def present (log : List α) : Finset β := log.foldl (enter joins leaves) ∅

theorem mem_enter (p : Finset β) (m : α) (s : β) :
    s ∈ enter joins leaves p m ↔ joins m = some s ∨ s ∈ p ∧ leaves m ≠ some s := by
  unfold enter
  cases hj : joins m with
  | none =>
    cases hl : leaves m with
    | none => simp
    | some l => simp [Finset.mem_erase, and_comm, eq_comm]
  | some j =>
    cases hl : leaves m with
    | none => simp [eq_comm]
    | some l => simp [Finset.mem_erase, and_comm, eq_comm]

theorem present_append (log : List α) (m : α) :
    present joins leaves (log ++ [m]) = enter joins leaves (present joins leaves log) m := by
  simp only [present, List.foldl_append, List.foldl_cons, List.foldl_nil]

/-- Presence, read off the log. -/
theorem mem_present_iff (log : List α) (s : β) :
    s ∈ present joins leaves log ↔
      ∃ a j b, log = a ++ j :: b ∧ joins j = some s ∧ ∀ k ∈ b, leaves k ≠ some s := by
  induction log using List.reverseRecOn with
  | nil => simp [present]
  | append_singleton log m ih =>
    rw [present_append, mem_enter, ih]
    constructor
    · rintro (hj | ⟨⟨a, j, b, rfl, hj, hb⟩, hl⟩)
      · exact ⟨log, m, [], rfl, hj, by simp⟩
      · refine ⟨a, j, b ++ [m], by simp, hj, fun k hk => ?_⟩
        rcases List.mem_append.mp hk with hk | hk
        · exact hb k hk
        · rw [List.mem_singleton.mp hk]
          exact hl
    · rintro ⟨a, j, b, heq, hj, hb⟩
      rcases List.eq_nil_or_concat' b with rfl | ⟨b', k, rfl⟩
      · have hlast := List.append_inj_right' heq rfl
        rw [List.singleton_inj] at hlast
        exact Or.inl (hlast ▸ hj)
      · rw [← List.cons_append, ← List.append_assoc] at heq
        obtain ⟨hlog, hlast⟩ := List.append_inj' heq rfl
        rw [List.singleton_inj] at hlast
        refine Or.inr ⟨⟨a, j, b', hlog, hj, fun l hl => hb l (by simp [hl])⟩, ?_⟩
        rw [hlast]
        exact hb k (by simp)

/-- One more entry: what it reports on must be present. -/
theorem joinsFirst_append (log : List α) (m : α) :
    JoinsFirst joins leaves reports (log ++ [m]) ↔
      JoinsFirst joins leaves reports log ∧ ∀ s ∈ reports m, s ∈ present joins leaves log := by
  constructor
  · intro h
    refine ⟨fun pre k post heq => h pre k (post ++ [m]) (by simp [heq]), fun s hs => ?_⟩
    exact (mem_present_iff joins leaves log s).mpr (h log m [] rfl s hs)
  · rintro ⟨h, hm⟩ pre k post heq s hs
    rcases List.eq_nil_or_concat' post with rfl | ⟨post', l, rfl⟩
    · obtain ⟨hlog, hlast⟩ := List.append_inj' heq rfl
      rw [List.singleton_inj] at hlast
      rw [← hlog]
      exact (mem_present_iff joins leaves log s).mp (hm s (hlast ▸ hs))
    · rw [← List.cons_append, ← List.append_assoc] at heq
      exact h pre k post' (List.append_inj' heq rfl).1 s hs

/-! ### Checking a log -/

/-- Every report is about a subject present at that point, from `p` on. -/
def Checks (p : Finset β) : List α → Prop
  | [] => True
  | m :: log => (∀ s ∈ reports m, s ∈ p) ∧ Checks (enter joins leaves p m) log

instance decidableChecks (log : List α) (p : Finset β) :
    Decidable (Checks joins leaves reports p log) :=
  match log with
  | [] => isTrue trivial
  | m :: log =>
    have := decidableChecks log (enter joins leaves p m)
    inferInstanceAs (Decidable (_ ∧ _))

theorem checks_append (log : List α) (m : α) (p : Finset β) :
    Checks joins leaves reports p (log ++ [m]) ↔ Checks joins leaves reports p log ∧
      ∀ s ∈ reports m, s ∈ log.foldl (enter joins leaves) p := by
  induction log generalizing p with
  | nil => simp [Checks]
  | cons k log ih =>
    simp only [List.cons_append, Checks, ih, List.foldl_cons]
    exact and_assoc.symm

theorem joinsFirst_iff_checks (log : List α) :
    JoinsFirst joins leaves reports log ↔ Checks joins leaves reports ∅ log := by
  induction log using List.reverseRecOn with
  | nil => exact ⟨fun _ => trivial, fun _ => joinsFirst_nil joins leaves reports⟩
  | append_singleton log m ih => rw [joinsFirst_append, checks_append, ih]; rfl

instance (log : List α) : Decidable (JoinsFirst joins leaves reports log) :=
  decidable_of_iff _ (joinsFirst_iff_checks joins leaves reports log).symm

end Catalyrst.Lib.Presence
