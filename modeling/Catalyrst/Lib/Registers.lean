import Mathlib

/-!
# Registers

Each event writes some registers of a family. What a register holds after a series of events is
what the last event that writes it has written.
-/

namespace Catalyrst.Lib

variable {ε κ β : Type*}

/-- The last event of a kind. -/
def latest (p : ε → Bool) (events : List ε) : Option ε := (events.filter p).getLast?

def replay (write : ε → κ → Option β) (events : List ε) (s : κ → β) : κ → β :=
  events.foldl (fun s e k => (write e k).getD (s k)) s

theorem latest_concat (p : ε → Bool) (events : List ε) (e : ε) :
    latest p (events ++ [e]) = if p e then some e else latest p events := by
  simp only [latest, List.filter_append, List.filter_cons, List.filter_nil]
  split
  · simp
  · simp

theorem latest_some {p : ε → Bool} {events : List ε} {e : ε} (h : latest p events = some e) :
    e ∈ events ∧ p e = true :=
  List.mem_filter.mp (List.mem_of_getLast? h)

theorem latest_eq_none {p : ε → Bool} {events : List ε} :
    latest p events = none ↔ ∀ e ∈ events, p e = false := by
  simp [latest]

theorem replay_concat (write : ε → κ → Option β) (events : List ε) (e : ε) (s : κ → β) (k : κ) :
    replay write (events ++ [e]) s k = (write e k).getD (replay write events s k) := by
  simp only [replay, List.foldl_append, List.foldl_cons, List.foldl_nil]

/-- Replaying all events and looking for the last one that writes a register agree. -/
theorem replay_eq_latest (write : ε → κ → Option β) {p : ε → Bool} {k : κ}
    (hp : ∀ e, p e = (write e k).isSome) (events : List ε) (s : κ → β) :
    replay write events s k = ((latest p events).bind fun e => write e k).getD (s k) := by
  induction events using List.reverseRecOn with
  | nil => rfl
  | append_singleton events e ih =>
    rw [replay_concat, latest_concat, hp e]
    cases hwrite : write e k with
    | none => simpa using ih
    | some b => simp [hwrite]

end Catalyrst.Lib
