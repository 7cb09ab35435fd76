import Mathlib

/-!
# Programs that call the outside world

A program is a tree of calls; what follows a call depends on its answer. Between two
calls the world may change by itself, as `rely` allows. `wp` is what must hold of the
world for every answer to lead to the postcondition. It is closed under `rely`, and
one served call leads from it to the `wp` of the rest.
-/

namespace Catalyrst.Lib

inductive Prog (C : Type) (R : C → Type) (α : Type) where
  | ret (a : α)
  | call (c : C) (k : R c → Prog C R α)

namespace Prog

variable {C : Type} {R : C → Type} {α β W : Type}

def bind : Prog C R α → (α → Prog C R β) → Prog C R β
  | .ret a, f => f a
  | .call c k, f => .call c fun r => (k r).bind f

/-- `answers w c r w'`: in the world `w` the call `c` may be answered by `r`, leaving `w'`. -/
def wp (rely : W → W → Prop) (answers : W → (c : C) → R c → W → Prop) :
    Prog C R α → (α → W → Prop) → W → Prop
  | .ret a, Q, w => ∀ w₁, rely w w₁ → Q a w₁
  | .call c k, Q, w =>
    ∀ w₁, rely w w₁ → ∀ r w₂, answers w₁ c r w₂ → wp rely answers (k r) Q w₂

section Rules

variable {rely : W → W → Prop} {answers : W → (c : C) → R c → W → Prop} {Q Q' : α → W → Prop}
  {p : Prog C R α} {w w₁ w₂ : W}

theorem wp_rely (htrans : ∀ a b c, rely a b → rely b c → rely a c)
    (h : wp rely answers p Q w) (hr : rely w w₁) : wp rely answers p Q w₁ := by
  cases p with
  | ret a => exact fun w₂ h₂ => h w₂ (htrans _ _ _ hr h₂)
  | call c k => exact fun w₂ h₂ => h w₂ (htrans _ _ _ hr h₂)

theorem wp_mono (hQ : ∀ a w, Q a w → Q' a w) (h : wp rely answers p Q w) :
    wp rely answers p Q' w := by
  induction p generalizing w with
  | ret a => exact fun w₁ hr => hQ a w₁ (h w₁ hr)
  | call c k ih => exact fun w₁ hr r w₂ ha => ih r (h w₁ hr r w₂ ha)

theorem wp_bind {f : α → Prog C R β} {Q : β → W → Prop} (hrefl : ∀ w, rely w w)
    (h : wp rely answers p (fun a => wp rely answers (f a) Q) w) :
    wp rely answers (p.bind f) Q w := by
  induction p generalizing w with
  | ret a => exact h w (hrefl w)
  | call c k ih => exact fun w₁ hr r w₂ ha => ih r (h w₁ hr r w₂ ha)

/-- One call is answered. -/
theorem wp_call {c : C} {k : R c → Prog C R α} {r : R c} (hrefl : ∀ w, rely w w)
    (h : wp rely answers (.call c k) Q w) (ha : answers w c r w₂) :
    wp rely answers (k r) Q w₂ :=
  h w (hrefl w) r w₂ ha

theorem wp_ret {a : α} (hrefl : ∀ w, rely w w) (h : wp rely answers (.ret a : Prog C R α) Q w) :
    Q a w :=
  h w (hrefl w)

end Rules

end Prog

end Catalyrst.Lib
