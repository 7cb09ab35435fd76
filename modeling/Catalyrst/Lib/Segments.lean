import Mathlib

/-!
# Lists joined by a separator

Where a list can be split at a separator in two ways, one of the two takes its middle part
from inside a part of the other.
-/

namespace Catalyrst.Lib.Segments

variable {α : Type} {x : α}

theorem append_cons_inj {s s' d d' : List α} (hs : x ∉ s) (hs' : x ∉ s')
    (h : s ++ x :: d = s' ++ x :: d') : s = s' ∧ d = d' := by
  induction s generalizing s' with
  | nil =>
    cases s' with
    | nil => exact ⟨rfl, (List.cons.inj h).2⟩
    | cons a s' => exact absurd ((List.cons.inj h).1 ▸ List.mem_cons_self) hs'
  | cons a s ih =>
    cases s' with
    | nil => exact absurd ((List.cons.inj h).1 ▸ List.mem_cons_self) hs
    | cons a' s' =>
      obtain ⟨rfl, hrest⟩ := List.cons.inj h
      obtain ⟨rfl, rfl⟩ := ih (fun hx => hs (List.mem_cons_of_mem _ hx))
        (fun hx => hs' (List.mem_cons_of_mem _ hx)) hrest
      exact ⟨rfl, rfl⟩

/-- `t` is what stands between two separators of `s`, its ends counted as such. -/
def Segment (x : α) (t s : List α) : Prop := x :: t ++ [x] <:+: x :: s ++ [x]

theorem segment_first (t d : List α) : Segment x t (t ++ x :: d) :=
  ⟨[], d ++ [x], by simp⟩

theorem segment_last (p t : List α) : Segment x t (p ++ x :: t) :=
  ⟨x :: p, [], by simp⟩

theorem segment_middle (p t d : List α) : Segment x t (p ++ x :: (t ++ x :: d)) :=
  ⟨x :: p, d ++ [x], by simp⟩

/-- A list split at `x` before and after a part without it. -/
def split (x : α) (p t d : List α) : List α := p ++ x :: (t ++ x :: d)

/-- The second part and the rest of the other split, seen from the split that starts earlier. -/
def Within (x : α) (d t' d' : List α) : Prop :=
  d = t' ++ x :: d' ∨ ∃ y, d = y ++ x :: (t' ++ x :: d')

/-- Part `t` and the first part of its split, seen from the split that starts later. -/
def Before (x : α) (p t p' : List α) : Prop :=
  p' = p ++ x :: t ∨ ∃ y, p' = p ++ x :: (t ++ x :: y)

theorem split_before {p t d p' t' d' : List α} (ht : x ∉ t)
    (h : split x p t d = split x p' t' d') {a : α} {r : List α} (hp : p' = p ++ a :: r) :
    Before x p t p' ∧ Within x d t' d' := by
  subst hp
  simp only [split, List.append_assoc, List.append_cancel_left_eq, List.cons_append,
    List.cons.injEq] at h
  obtain ⟨rfl, h⟩ := h
  obtain ⟨s, rfl, hs⟩ | ⟨s, rfl, hs⟩ := List.append_eq_append_iff.mp h
  · cases s with
    | nil =>
      simp only [List.nil_append, List.cons.injEq, true_and] at hs
      exact ⟨.inl (by simp), .inl hs⟩
    | cons b s =>
      simp only [List.cons_append, List.cons.injEq] at hs
      obtain ⟨rfl, hs⟩ := hs
      exact ⟨.inr ⟨s, by simp⟩, .inr ⟨s, hs⟩⟩
  · cases s with
    | nil =>
      simp only [List.nil_append, List.cons.injEq, true_and] at hs
      exact ⟨.inl (by simp), .inl hs.symm⟩
    | cons b s =>
      simp only [List.cons_append, List.cons.injEq] at hs
      exact absurd (hs.1 ▸ List.mem_append_right _ List.mem_cons_self) ht

theorem split_cases {p t d p' t' d' : List α} (ht : x ∉ t) (ht' : x ∉ t')
    (h : split x p t d = split x p' t' d') :
    (p = p' ∧ t = t' ∧ d = d') ∨ (Before x p t p' ∧ Within x d t' d') ∨
      (Before x p' t' p ∧ Within x d' t d) := by
  obtain ⟨s, rfl, -⟩ | ⟨s, rfl, -⟩ := List.append_eq_append_iff.mp h
  · cases s with
    | nil =>
      simp only [split, List.append_nil, List.append_cancel_left_eq, List.cons.injEq, true_and] at h
      obtain ⟨rfl, rfl⟩ := append_cons_inj ht ht' h
      exact .inl ⟨by simp, rfl, rfl⟩
    | cons a s => exact .inr (.inl (split_before ht h rfl))
  · cases s with
    | nil =>
      simp only [split, List.append_nil, List.append_cancel_left_eq, List.cons.injEq, true_and] at h
      obtain ⟨rfl, rfl⟩ := append_cons_inj ht ht' h
      exact .inl ⟨by simp, rfl, rfl⟩
    | cons a s => exact .inr (.inr (split_before ht' h.symm rfl))

theorem Within.segment {d t' d' : List α} (h : Within x d t' d') : Segment x t' d := by
  rcases h with rfl | ⟨y, rfl⟩
  · exact segment_first t' d'
  · exact segment_middle y t' d'

theorem Before.segment {p t p' : List α} (h : Before x p t p') : Segment x t p' := by
  rcases h with rfl | ⟨y, rfl⟩
  · exact segment_last p t
  · exact segment_middle p t y

theorem Before.count_lt [DecidableEq α] {p t p' : List α} (h : Before x p t p') :
    p.count x < p'.count x := by
  rcases h with rfl | ⟨y, rfl⟩ <;> simp only [List.count_append, List.count_cons_self] <;> omega

/-! ### Terminated parts -/

/-- Every part is followed by the separator. -/
def joined (x : α) (fs : List (List α)) : List α := fs.flatMap fun f => f ++ [x]

theorem joined_cons (f : List α) (fs : List (List α)) :
    joined x (f :: fs) = f ++ x :: joined x fs := by
  simp [joined]

theorem joined_append (fs gs : List (List α)) : joined x (fs ++ gs) = joined x fs ++ joined x gs :=
  List.flatMap_append

/-- The separator of the one side is that of the other, or comes before it. -/
theorem append_cons_cases {s s' t t' : List α} (hs : x ∉ s) (h : s ++ x :: t = s' ++ x :: t') :
    (s' = s ∧ t' = t) ∨ ∃ r, s' = s ++ x :: r ∧ t = r ++ x :: t' := by
  obtain ⟨r, rfl, hr⟩ | ⟨r, rfl, hr⟩ := List.append_eq_append_iff.mp h
  · cases r with
    | nil => exact .inl ⟨List.append_nil s, (List.cons.inj hr).2.symm⟩
    | cons b r =>
      obtain ⟨rfl, hrest⟩ := List.cons.inj hr
      exact .inr ⟨r, rfl, hrest⟩
  · cases r with
    | nil => exact .inl ⟨(List.append_nil s').symm, (List.cons.inj hr).2⟩
    | cons b r => exact absurd ((List.cons.inj hr).1 ▸ List.mem_append_right _ List.mem_cons_self) hs

theorem joined_eq_nil {fs : List (List α)} (h : joined x fs = []) : fs = [] := by
  cases fs with
  | nil => rfl
  | cons f fs => simp [joined_cons] at h

theorem joined_single {f : List α} (hf : x ∉ f) {gs : List (List α)}
    (h : f ++ [x] = joined x gs) : gs = [f] := by
  cases gs with
  | nil => simp [joined] at h
  | cons g gs =>
    rw [joined_cons] at h
    rcases append_cons_cases hf h with ⟨rfl, hnil⟩ | ⟨r, -, hr⟩
    · rw [joined_eq_nil hnil]
    · simp at hr

section Count

variable [DecidableEq α]

theorem length_le_count (gs : List (List α)) : gs.length ≤ (joined x gs).count x := by
  induction gs with
  | nil => exact Nat.zero_le _
  | cons g gs ih =>
    simp only [joined_cons, List.count_append, List.count_cons_self, List.length_cons]
    omega

theorem count_joined {fs : List (List α)} (hfs : ∀ f ∈ fs, x ∉ f) :
    (joined x fs).count x = fs.length := by
  induction fs with
  | nil => rfl
  | cons f fs ih =>
    rw [List.forall_mem_cons] at hfs
    simp only [joined_cons, List.count_append, List.count_cons_self, List.length_cons,
      List.count_eq_zero.mpr hfs.1, ih hfs.2]
    omega

/-- As many parts, and none of them with the separator in it on one side. -/
theorem joined_inj {fs gs : List (List α)} (hfs : ∀ f ∈ fs, x ∉ f) (hlen : gs.length = fs.length)
    (h : joined x fs = joined x gs) : gs = fs := by
  induction fs generalizing gs with
  | nil => exact List.length_eq_zero_iff.mp hlen
  | cons f fs ih =>
    cases gs with
    | nil => simp at hlen
    | cons g gs =>
      rw [List.forall_mem_cons] at hfs
      simp only [List.length_cons, Nat.add_right_cancel_iff] at hlen
      rw [joined_cons, joined_cons] at h
      rcases append_cons_cases hfs.1 h with ⟨rfl, hrest⟩ | ⟨r, -, hr⟩
      · rw [ih hfs.2 hlen hrest.symm]
      · have hcount := congrArg (List.count x) hr
        rw [count_joined hfs.2, List.count_append, List.count_cons_self] at hcount
        have hle := length_le_count (x := x) gs
        omega

end Count

/-- A separator inside a part can be taken for the one between two parts. -/
theorem exists_other_joined {fs : List (List α)} (hlen : 2 ≤ fs.length) {f : List α} (hf : f ∈ fs)
    (hx : x ∈ f) : ∃ gs, gs.length = fs.length ∧ joined x fs = joined x gs ∧ gs ≠ fs := by
  obtain ⟨pre, post, rfl⟩ := List.append_of_mem hf
  obtain ⟨s, t, rfl⟩ := List.append_of_mem hx
  cases post with
  | cons g post =>
    refine ⟨pre ++ s :: (t ++ x :: g) :: post, by simp, ?_, ?_⟩
    · simp [joined_append, joined_cons]
    · simp
  | nil =>
    obtain ⟨pre, g, rfl⟩ : ∃ pre' g, pre = pre' ++ [g] := by
      refine ⟨pre.dropLast, pre.getLast ?_, (List.dropLast_append_getLast _).symm⟩
      rintro rfl
      simp at hlen
    refine ⟨pre ++ [g ++ x :: s, t], by simp, ?_, ?_⟩
    · simp [joined_append, joined_cons]
    · simp

end Catalyrst.Lib.Segments
