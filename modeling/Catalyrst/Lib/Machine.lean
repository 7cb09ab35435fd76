import Mathlib

/-!
# Runs of a transition function

A machine is a partial step function `step : σ → α → Option σ`; `none` means
that the action is not enabled. `run` plays a list of actions, and the two
rules below turn a one-step argument into one about every run. `Meets` says
that every step of a run is taken in a state that satisfies a side condition.
-/

namespace Catalyrst.Lib.Machine

variable {σ α : Type*} (step : σ → α → Option σ)

def run : σ → List α → Option σ
  | s, [] => some s
  | s, a :: as => (step s a).bind fun t => run t as

def Meets (ok : σ → α → Prop) : σ → List α → Prop
  | _, [] => True
  | s, a :: as => ok s a ∧ ∀ t, step s a = some t → Meets ok t as

theorem run_cons (s : σ) (a : α) (as : List α) :
    run step s (a :: as) = (step s a).bind fun t => run step t as := rfl

theorem run_snoc (s : σ) (as : List α) (a : α) :
    run step s (as ++ [a]) = (run step s as).bind fun t => step t a := by
  induction as generalizing s with
  | nil =>
    show (step s a).bind some = step s a
    cases step s a with
    | none => rfl
    | some t => rfl
  | cons b as ih =>
    rw [List.cons_append, run_cons, run_cons, Option.bind_assoc]
    exact Option.bind_congr fun t _ => ih t

theorem meets_cons_none {ok : σ → α → Prop} {s : σ} {a : α} {as : List α} (h : step s a = none) :
    Meets step ok s (a :: as) ↔ ok s a := by
  refine and_iff_left fun t ht => ?_
  rw [h] at ht
  cases ht

theorem meets_cons_some {ok : σ → α → Prop} {s t : σ} {a : α} {as : List α}
    (h : step s a = some t) : Meets step ok s (a :: as) ↔ ok s a ∧ Meets step ok t as := by
  refine and_congr_right fun _ => ⟨fun hm => hm t h, fun hm u hu => ?_⟩
  have heq : t = u := Option.some.inj (h.symm.trans hu)
  exact heq ▸ hm

theorem meets_append_left {ok : σ → α → Prop} {as bs : List α} :
    ∀ {s : σ}, Meets step ok s (as ++ bs) → Meets step ok s as := by
  induction as with
  | nil => exact fun _ => trivial
  | cons a as ih => exact fun hm => ⟨hm.1, fun t ht => ih (hm.2 t ht)⟩

/-- The last step of a run. -/
theorem meets_last {ok : σ → α → Prop} {as : List α} {a : α} :
    ∀ {s t : σ}, Meets step ok s (as ++ [a]) → run step s as = some t → ok t a := by
  induction as with
  | nil =>
    intro s t hm hr
    have he : s = t := Option.some.inj hr
    exact he ▸ hm.1
  | cons b as ih =>
    intro s t hm hr
    obtain ⟨u, hu, hrest⟩ := Option.bind_eq_some_iff.mp hr
    exact ih (hm.2 u hu) hrest

/-- A side condition on the actions alone. -/
theorem meets_of_forall {ok : α → Prop} {as : List α} (h : ∀ a ∈ as, ok a) (s : σ) :
    Meets step (fun _ a => ok a) s as := by
  induction as generalizing s with
  | nil => trivial
  | cons a as ih =>
    exact ⟨h a List.mem_cons_self, fun t _ => ih (fun b hb => h b (List.mem_cons_of_mem a hb)) t⟩

/-- A decidable side condition can be checked along a run. -/
instance decidableMeets {ok : σ → α → Prop} [∀ s a, Decidable (ok s a)] :
    (as : List α) → (s : σ) → Decidable (Meets step ok s as)
  | [], _ => isTrue trivial
  | a :: as, s =>
    match h : step s a with
    | none => decidable_of_iff (ok s a) (meets_cons_none step h).symm
    | some t =>
      have : Decidable (Meets step ok t as) := decidableMeets as t
      decidable_of_iff (ok s a ∧ Meets step ok t as) (meets_cons_some step h).symm

/-- Induction along a run whose steps all meet a side condition. -/
theorem run_invariant_of_meets {ok : σ → α → Prop} {P : σ → Prop}
    (hstep : ∀ s a t, P s → ok s a → step s a = some t → P t) :
    ∀ (as : List α) (s t : σ), Meets step ok s as → run step s as = some t → P s → P t := by
  intro as
  induction as with
  | nil =>
    intro s t _ hr hs
    have he : s = t := Option.some.inj hr
    exact he ▸ hs
  | cons a as ih =>
    intro s t hm hr hs
    obtain ⟨u, hu, hrest⟩ := Option.bind_eq_some_iff.mp hr
    exact ih u t (hm.2 u hu) hrest (hstep s a u hs hm.1 hu)

/-- What every step of a run does, from an invariant of its states. -/
theorem meets_of_invariant {ok ok' : σ → α → Prop} {P : σ → Prop}
    (hstep : ∀ s a t, P s → ok s a → step s a = some t → P t)
    (hok : ∀ s a, P s → ok s a → ok' s a) :
    ∀ (as : List α) (s : σ), P s → Meets step ok s as → Meets step ok' s as := by
  intro as
  induction as with
  | nil =>
    intro s _ _
    trivial
  | cons a as ih =>
    intro s hs hm
    exact ⟨hok s a hs hm.1, fun t ht => ih t (hstep s a t hs hm.1 ht) (hm.2 t ht)⟩

/-- Induction along a run. -/
theorem run_invariant {P : σ → Prop} (hstep : ∀ s a t, P s → step s a = some t → P t)
    (as : List α) (s t : σ) (hr : run step s as = some t) (hs : P s) : P t := by
  have hm : Meets step (fun _ _ => True) s as := by
    clear hr hs
    induction as generalizing s with
    | nil => trivial
    | cons a as ih => exact ⟨trivial, fun u _ => ih u⟩
  exact run_invariant_of_meets step (fun s a u hp _ he => hstep s a u hp he) as s t hm hr hs

/-! ### A part of a machine -/

section Part

variable {σ' α' : Type*} {step' : σ' → α' → Option σ'} {view : σ → σ'} {part : α → Option α'}
  {P : σ → Prop} {as : List α} {s t : σ}

/-- The actions that `part` picks are steps of a machine of its own, the others leave it alone. -/
def IsPart (step' : σ' → α' → Option σ') (view : σ → σ') (part : α → Option α') (P : σ → Prop) :
    Prop :=
  ∀ s a t, P s → step s a = some t →
    P t ∧ (∀ b, part a = some b → step' (view s) b = some (view t)) ∧
      (part a = none → view t = view s)

theorem run_part (h : IsPart step step' view part P) (hs : P s) (hrun : run step s as = some t) :
    P t ∧ run step' (view s) (as.filterMap part) = some (view t) := by
  induction as generalizing s with
  | nil =>
    obtain rfl : s = t := Option.some.inj hrun
    exact ⟨hs, rfl⟩
  | cons a as ih =>
    obtain ⟨u, hu, hrest⟩ := Option.bind_eq_some_iff.mp hrun
    obtain ⟨hPu, hpart, hrun'⟩ := h s a u hs hu
    refine ⟨(ih hPu hrest).1, ?_⟩
    cases ha : part a with
    | none => rw [List.filterMap_cons_none ha, ← hrun' ha, (ih hPu hrest).2]
    | some b => rw [List.filterMap_cons_some ha, run_cons, hpart b ha, Option.bind_some, (ih hPu hrest).2]

/-- A side condition on the part, along a run of the whole. -/
theorem meets_part (h : IsPart step step' view part P) {ok : σ' → α' → Prop} (hs : P s)
    (hrun : run step s as = some t) :
    Meets step (fun s a => ∀ b, part a = some b → ok (view s) b) s as ↔
      Meets step' ok (view s) (as.filterMap part) := by
  induction as generalizing s with
  | nil => exact Iff.rfl
  | cons a as ih =>
    obtain ⟨u, hu, hrest⟩ := Option.bind_eq_some_iff.mp hrun
    obtain ⟨hPu, hpart, hother⟩ := h s a u hs hu
    rw [meets_cons_some step hu, ih hPu hrest]
    cases ha : part a with
    | none =>
      rw [List.filterMap_cons_none ha, hother ha]
      exact and_iff_right fun b hb => nomatch hb
    | some b =>
      rw [List.filterMap_cons_some ha, meets_cons_some step' (hpart b ha)]
      exact and_congr_left fun _ => ⟨fun hok => hok b rfl, fun hok c hc => Option.some.inj hc ▸ hok⟩

end Part

end Catalyrst.Lib.Machine
