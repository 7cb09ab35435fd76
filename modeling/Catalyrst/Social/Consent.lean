import Mathlib
import Catalyrst.Lib.Procs
import Catalyrst.Social.Friends

/-!
# Consent

A friendship is active when its latest action is an accept, whatever the calls do. That the
accept answers a request, and that no block stands beside it, depends on what happened between
the reads of the accepting call and its transaction.
-/

namespace Catalyrst.Social.Friends

open Catalyrst.Lib

/-! ### The latest action -/

theorem latest_cons (r : ActionRow) (rows : List ActionRow) :
    latest (r :: rows) =
      match latest rows with
      | none => some r
      | some l => if l.timestamp < r.timestamp then some r else some l := rfl

theorem latest_eq_none {rows : List ActionRow} (h : latest rows = none) : rows = [] := by
  cases rows with
  | nil => rfl
  | cons r rows =>
    rw [latest_cons] at h
    cases hl : latest rows with
    | none =>
      rw [hl] at h
      cases h
    | some l =>
      simp only [hl] at h
      split at h <;> cases h

theorem latest_spec {rows : List ActionRow} {l : ActionRow} (h : latest rows = some l) :
    l ∈ rows ∧ ∀ r ∈ rows, r.timestamp ≤ l.timestamp := by
  induction rows generalizing l with
  | nil => cases h
  | cons r rows ih =>
    rw [latest_cons] at h
    cases hrest : latest rows with
    | none =>
      rw [hrest] at h
      obtain rfl := Option.some.inj h
      rw [latest_eq_none hrest]
      simp
    | some m =>
      obtain ⟨hmem, hmax⟩ := ih hrest
      simp only [hrest] at h
      split at h
      · rename_i hlt
        obtain rfl := Option.some.inj h
        refine ⟨List.mem_cons_self, fun x hx => ?_⟩
        obtain rfl | hx := List.mem_cons.mp hx
        · exact le_refl _
        · exact (hmax x hx).trans hlt.le
      · rename_i hle
        obtain rfl := Option.some.inj h
        refine ⟨List.mem_cons_of_mem _ hmem, fun x hx => ?_⟩
        obtain rfl | hx := List.mem_cons.mp hx
        · exact not_lt.mp hle
        · exact hmax x hx

theorem latest_append {rows : List ActionRow} {r : ActionRow}
    (h : ∀ l, latest rows = some l → l.timestamp < r.timestamp) : latest (rows ++ [r]) = some r := by
  have hlast : ∀ x ∈ rows, x.timestamp < r.timestamp := by
    intro x hx
    cases hl : latest rows with
    | none => exact absurd hx (latest_eq_none hl ▸ List.not_mem_nil)
    | some l => exact ((latest_spec hl).2 x hx).trans_lt (h l hl)
  clear h
  induction rows with
  | nil => rfl
  | cons x rows ih =>
    have hx := hlast x List.mem_cons_self
    rw [List.cons_append, latest_cons, ih fun y hy => hlast y (List.mem_cons_of_mem x hy)]
    exact if_neg hx.le.not_gt

/-! ### What holds of the rows -/

/-- The request was the last action before the accept, and the other user made it. -/
def Friendship.Answered (f : Friendship) (rows : List ActionRow) (a : ActionRow) : Prop :=
  ∃ r ∈ rows, r.action = .request ∧ f.between r.actingUser a.actingUser = true ∧
    r.actingUser ≠ a.actingUser ∧ r.timestamp < a.timestamp ∧
      ∀ x ∈ rows, ¬ (r.timestamp < x.timestamp ∧ x.timestamp < a.timestamp)

def Store.Accepted (s : Store) (id : ℕ) : Prop :=
  ∃ a, latest (s.historyOf id) = some a ∧ a.action = .accept

/-- An active friendship was agreed to by both users. -/
structure Store.Consensual (s : Store) : Prop where
  active : ∀ f ∈ s.friendships, f.isActive = true ↔ s.Accepted f.id
  answered : ∀ f ∈ s.friendships, ∀ a, latest (s.historyOf f.id) = some a → a.action = .accept →
    f.Answered (s.historyOf f.id) a

/-- Friendships have a key and one row for a pair; only their users act on them. -/
structure Store.Keyed (s : Store) : Prop where
  ids : ∀ f ∈ s.friendships, ∀ g ∈ s.friendships, f.id = g.id → f = g
  pairs : ∀ f ∈ s.friendships, ∀ g ∈ s.friendships,
    ∀ a b, f.between a b = true → g.between a b = true → f = g
  recorded : ∀ r ∈ s.actions, ∃ f ∈ s.friendships,
    f.id = r.friendshipId ∧ ∃ other, f.between r.actingUser other = true

structure Store.Sound (s : Store) : Prop extends s.Keyed, s.Consensual

section Rows

variable {s : Store}

theorem between_swap (f : Friendship) (a b : Address) : f.between a b = f.between b a := by
  simp only [Friendship.between, decide_eq_decide]
  exact or_comm

theorem mem_setActive {id : ℕ} {b : Bool} {g : Friendship} (h : g ∈ (s.setActive id b).friendships) :
    ∃ f ∈ s.friendships, g = if f.id = id then { f with isActive := b } else f := by
  obtain ⟨f, hf, rfl⟩ := List.mem_map.mp h
  exact ⟨f, hf, rfl⟩

/-- An update of the flag keeps everything else of a friendship. -/
theorem setActive_of_mem {f : Friendship} (hf : f ∈ s.friendships) (id : ℕ) (b : Bool) :
    ∃ g ∈ (s.setActive id b).friendships, g.id = f.id ∧ g.between = f.between := by
  refine ⟨_, List.mem_map_of_mem hf, ?_⟩
  split <;> exact ⟨rfl, rfl⟩

theorem historyOf_record (row : ActionRow) (id : ℕ) :
    (s.record row).historyOf id =
      if row.friendshipId = id then s.historyOf id ++ [row] else s.historyOf id := by
  simp only [Store.historyOf, Store.record, List.filter_append]
  split
  · rename_i h
    simp [h]
  · rename_i h
    simp [h]

/-- The statements on blocks leave the rows as they are. -/
theorem sound_of_rows {t : Store} (hs : s.Sound) (hf : t.friendships = s.friendships)
    (ha : t.actions = s.actions) : t.Sound := by
  have hhistory : ∀ id, t.historyOf id = s.historyOf id := by
    intro id
    rw [Store.historyOf, ha, Store.historyOf]
  refine ⟨⟨?_, ?_, ?_⟩, ⟨?_, ?_⟩⟩
  · rw [hf]
    exact hs.ids
  · rw [hf]
    exact hs.pairs
  · rw [hf, ha]
    exact hs.recorded
  · simp only [Store.Accepted, hhistory, hf]
    exact hs.active
  · simp only [hhistory, hf]
    exact hs.answered

theorem find_between (hs : s.Keyed) {f : Friendship} (hf : f ∈ s.friendships) {a b : Address}
    (hb : f.between a b = true) : (s.friendships.find? fun g => g.between a b) = some f := by
  obtain ⟨g, hg⟩ : ∃ g, (s.friendships.find? fun g => g.between a b) = some g :=
    Option.isSome_iff_exists.mp (List.find?_isSome.mpr ⟨f, hf, hb⟩)
  have hgb : g.between a b = true := List.find?_some (p := fun g : Friendship => g.between a b) hg
  rw [hg, hs.pairs f hf g (List.mem_of_find?_eq_some hg) a b hb hgb]

/-- An accept passes the validation where the last action is a request of the other user. -/
theorem request_of_valid (hs : s.Keyed) {f : Friendship} (hf : f ∈ s.friendships) {me other : Address}
    (hb : f.between me other = true)
    (h : userActionValid me .accept other (s.lastFriendshipAction me other) = true) :
    ∃ r, latest (s.historyOf f.id) = some r ∧ r.action = .request ∧ r.actingUser ≠ me := by
  rw [Store.lastFriendshipAction, find_between hs hf hb] at h
  cases hl : latest (s.historyOf f.id) with
  | none => simp [userActionValid, transitionValid, hl] at h
  | some r =>
    refine ⟨r, rfl, ?_⟩
    simp only [userActionValid, transitionValid, Option.map_some, Option.bind_some, hl,
      Option.getD_some] at h
    by_cases hr : r.action = .request
    · by_cases hacting : r.actingUser = me
      · simp [hr, hacting] at h
      · exact ⟨hr, hacting⟩
    · simp [hr] at h

/-- Two users of one pair. -/
theorem between_of_ne {f : Friendship} {a b x y : Address} (ha : f.between a x = true)
    (hb : f.between b y = true) (hne : a ≠ b) : f.between a b = true := by
  simp only [Friendship.between, decide_eq_true_eq] at ha hb ⊢
  rcases ha with ⟨h₁, -⟩ | ⟨-, h₁⟩ <;> rcases hb with ⟨h₂, -⟩ | ⟨-, h₂⟩
  · exact absurd (h₁.symm.trans h₂) hne
  · exact Or.inl ⟨h₁, h₂⟩
  · exact Or.inr ⟨h₂, h₁⟩
  · exact absurd (h₁.symm.trans h₂) hne

/-- Friendships of one pair are between the same users. -/
theorem between_congr {f : Friendship} {a b c d : Address} (hab : f.between a b = true)
    (hcd : f.between c d = true) (g : Friendship) : g.between a b = g.between c d := by
  simp only [Friendship.between, decide_eq_true_eq] at hab hcd
  rcases hab with ⟨rfl, rfl⟩ | ⟨rfl, rfl⟩ <;> rcases hcd with ⟨rfl, rfl⟩ | ⟨rfl, rfl⟩
  · rfl
  · exact between_swap g _ _
  · exact between_swap g _ _
  · rfl

end Rows

/-! ### The transaction -/

section Transaction

variable {s : Store} {me other : Address} {action : Action} {now : ℤ}

/-- The store after an action on a friendship that is there. -/
def Store.acted (s : Store) (id : ℕ) (action : Action) (me : Address) (now : ℤ) : Store :=
  (s.setActive id action.impliesActive).record ⟨id, action, me, now⟩

/-- The store after a first request. -/
def Store.requested (s : Store) (fresh : ℕ) (me other : Address) (now : ℤ) : Store :=
  let rows := s.friendships ++ [⟨fresh, me, other, false⟩]
  Store.record { s with friendships := rows } ⟨fresh, .request, me, now⟩

theorem keyed_acted (hs : s.Keyed) {f : Friendship} (hf : f ∈ s.friendships)
    (hb : f.between me other = true) : (s.acted f.id action me now).Keyed := by
  refine ⟨fun g hg g' hg' hid => ?_, fun g hg g' hg' a b hab hab' => ?_, fun r hr => ?_⟩
  · obtain ⟨h, hh, rfl⟩ := mem_setActive hg
    obtain ⟨h', hh', rfl⟩ := mem_setActive hg'
    have hsame : h = h' := by
      refine hs.ids h hh h' hh' ?_
      split at hid <;> split at hid <;> exact hid
    rw [hsame]
  · obtain ⟨h, hh, rfl⟩ := mem_setActive hg
    obtain ⟨h', hh', rfl⟩ := mem_setActive hg'
    have hsame : h = h' := by
      refine hs.pairs h hh h' hh' a b ?_ ?_
      · split at hab <;> exact hab
      · split at hab' <;> exact hab'
    rw [hsame]
  · obtain hr | hr := List.mem_append.mp hr
    · obtain ⟨g, hg, hid, x, hx⟩ := hs.recorded r hr
      obtain ⟨g', hg', hid', hb'⟩ := setActive_of_mem hg f.id action.impliesActive
      exact ⟨g', hg', hid'.trans hid, x, hb' ▸ hx⟩
    · obtain rfl := List.mem_singleton.mp hr
      obtain ⟨g', hg', hid', hb'⟩ := setActive_of_mem hf f.id action.impliesActive
      exact ⟨g', hg', hid', other, hb' ▸ hb⟩

/-- An accept that is valid when it is recorded answers the request before it. -/
theorem answered_acted (hs : s.Keyed) {f : Friendship} (hf : f ∈ s.friendships)
    (hb : f.between me other = true)
    (hnow : ∀ l, latest (s.historyOf f.id) = some l → l.timestamp < now)
    (hvalid : userActionValid me .accept other (s.lastFriendshipAction me other) = true) :
    f.Answered (s.historyOf f.id ++ [⟨f.id, .accept, me, now⟩]) ⟨f.id, .accept, me, now⟩ := by
  obtain ⟨r, hr, hrequest, hother⟩ := request_of_valid hs hf hb hvalid
  obtain ⟨hmem, hmax⟩ := latest_spec hr
  have hrow : r ∈ s.actions ∧ r.friendshipId = f.id := by
    simpa [Store.historyOf] using hmem
  obtain ⟨g, hg, hid, x, hx⟩ := hs.recorded r hrow.1
  obtain rfl := hs.ids g hg f hf (hid.trans hrow.2)
  refine ⟨r, List.mem_append_left _ hmem, hrequest, between_of_ne hx hb hother, hother,
    hnow r hr, fun z hz hbetween => ?_⟩
  obtain hz | hz := List.mem_append.mp hz
  · exact absurd hbetween.1 (hmax z hz).not_gt
  · obtain rfl := List.mem_singleton.mp hz
    exact absurd hbetween.2 (lt_irrefl _)

theorem consensual_acted (hs : s.Sound) {f : Friendship} (hf : f ∈ s.friendships)
    (hb : f.between me other = true)
    (hnow : ∀ l, latest (s.historyOf f.id) = some l → l.timestamp < now)
    (hvalid : action = .accept →
      userActionValid me .accept other (s.lastFriendshipAction me other) = true) :
    (s.acted f.id action me now).Consensual := by
  have hhistory : ∀ id, (s.acted f.id action me now).historyOf id =
      if f.id = id then s.historyOf id ++ [⟨f.id, action, me, now⟩] else s.historyOf id :=
    fun id => historyOf_record _ id
  have hlatest : latest (s.historyOf f.id ++ [⟨f.id, action, me, now⟩]) =
      some ⟨f.id, action, me, now⟩ := latest_append hnow
  refine ⟨fun g hg => ?_, fun g hg a ha haccept => ?_⟩
  · obtain ⟨h, hh, rfl⟩ := mem_setActive hg
    by_cases hid : h.id = f.id
    · obtain rfl := hs.ids h hh f hf hid
      rw [Store.Accepted, if_pos rfl, hhistory, if_pos rfl, hlatest]
      simp [Action.impliesActive]
    · rw [Store.Accepted, if_neg hid, hhistory, if_neg (Ne.symm hid)]
      exact hs.active h hh
  · obtain ⟨h, hh, rfl⟩ := mem_setActive hg
    by_cases hid : h.id = f.id
    · obtain rfl := hs.ids h hh f hf hid
      rw [if_pos rfl, hhistory, if_pos rfl] at ha ⊢
      obtain rfl := Option.some.inj (hlatest.symm.trans ha)
      obtain rfl : action = .accept := haccept
      have hanswered := answered_acted hs.toKeyed hf hb hnow (hvalid rfl)
      exact hanswered
    · rw [if_neg hid, hhistory, if_neg (Ne.symm hid)] at ha ⊢
      exact hs.answered h hh a ha haccept

variable {fresh : ℕ}

theorem keyed_requested (hs : s.Keyed)
    (hnew : ∀ f ∈ s.friendships, f.id ≠ fresh ∧ f.between me other = false) :
    (s.requested fresh me other now).Keyed := by
  have hself : Friendship.between ⟨fresh, me, other, false⟩ me other = true := by
    simp [Friendship.between]
  have hpair : ∀ g ∈ s.friendships, ∀ a b,
      Friendship.between ⟨fresh, me, other, false⟩ a b = true → g.between a b ≠ true := by
    intro g hg a b hab hgab
    rw [between_congr hab hself, (hnew g hg).2] at hgab
    cases hgab
  refine ⟨fun g hg g' hg' hid => ?_, fun g hg g' hg' a b hab hab' => ?_, fun r hr => ?_⟩
  · obtain hg | hg := List.mem_append.mp hg <;> obtain hg' | hg' := List.mem_append.mp hg'
    · exact hs.ids g hg g' hg' hid
    · obtain rfl := List.mem_singleton.mp hg'
      exact absurd hid (hnew g hg).1
    · obtain rfl := List.mem_singleton.mp hg
      exact absurd hid.symm (hnew g' hg').1
    · rw [List.mem_singleton.mp hg, List.mem_singleton.mp hg']
  · obtain hg | hg := List.mem_append.mp hg <;> obtain hg' | hg' := List.mem_append.mp hg'
    · exact hs.pairs g hg g' hg' a b hab hab'
    · obtain rfl := List.mem_singleton.mp hg'
      exact absurd hab (hpair g hg a b hab')
    · obtain rfl := List.mem_singleton.mp hg
      exact absurd hab' (hpair g' hg' a b hab)
    · rw [List.mem_singleton.mp hg, List.mem_singleton.mp hg']
  · obtain hr | hr := List.mem_append.mp hr
    · obtain ⟨g, hg, hid, x, hx⟩ := hs.recorded r hr
      exact ⟨g, List.mem_append_left _ hg, hid, x, hx⟩
    · obtain rfl := List.mem_singleton.mp hr
      exact ⟨_, List.mem_append_right _ (List.mem_singleton_self _), rfl, other, hself⟩

theorem consensual_requested (hs : s.Sound)
    (hnew : ∀ f ∈ s.friendships, f.id ≠ fresh ∧ f.between me other = false) :
    (s.requested fresh me other now).Consensual := by
  have hhistory : ∀ id, (s.requested fresh me other now).historyOf id =
      if fresh = id then s.historyOf id ++ [⟨fresh, .request, me, now⟩] else s.historyOf id :=
    fun id => historyOf_record _ id
  have hempty : s.historyOf fresh = [] := by
    refine List.filter_eq_nil_iff.mpr fun r hr hid => ?_
    obtain ⟨f, hf, hfid, -⟩ := hs.recorded r hr
    exact (hnew f hf).1 (hfid.trans (of_decide_eq_true hid))
  refine ⟨fun g hg => ?_, fun g hg a ha haccept => ?_⟩
  · rw [Store.Accepted, hhistory]
    obtain hg | hg := List.mem_append.mp hg
    · rw [if_neg (hnew g hg).1.symm]
      exact hs.active g hg
    · obtain rfl := List.mem_singleton.mp hg
      simp [hempty, latest]
  · rw [hhistory] at ha ⊢
    obtain hg | hg := List.mem_append.mp hg
    · rw [if_neg (hnew g hg).1.symm] at ha ⊢
      exact hs.answered g hg a ha haccept
    · obtain rfl := List.mem_singleton.mp hg
      simp only [if_true, hempty, List.nil_append, latest] at ha
      obtain rfl := Option.some.inj ha
      cases haccept

end Transaction

/-! ### Steps of calls -/

/-- What a call that is about to write knows of the friendship. -/
def Progress.Held (s : Store) : Progress → Prop
  | .applying me other _ (some id) => ∃ f ∈ s.friendships, f.id = id ∧ f.between me other = true
  | .applying _ _ action none => action = .request
  | _ => True

/-- A transaction begins after those on the same friendship that are recorded, and for an
accept the checks of the call, made again, would pass. -/
def Progress.Timely (s : Store) (now : ℤ) : Progress → Prop
  | .applying me other action existing =>
    (∀ id ∈ existing, ∀ l ∈ latest (s.historyOf id), l.timestamp < now) ∧
      (action = .accept → s.isFriendshipBlocked me other = false ∧
        userActionValid me .accept other (s.lastFriendshipAction me other) = true)
  | _ => True

/-- A pair whose friendship the call will still end. -/
def Progress.blocksOwed : Progress → List (Address × Address)
  | .blocking me other => [(me, other), (other, me)]
  | .applying me other .block _ => [(me, other), (other, me)]
  | _ => []

/-- No active friendship of the pair stands beside a block. -/
def Store.Unblocked (s : Store) (pair : Address × Address) : Prop :=
  ∀ f ∈ s.friendships, (f.addressRequester, f.addressRequested) = pair → f.isActive = true →
    s.isFriendshipBlocked pair.1 pair.2 = false

section Steps

variable {s t : Store} {fresh : ℕ} {now : ℤ} {q next : Progress} {me other : Address} {action : Action}

theorem lastFriendshipAction_eq_none (h : s.lastFriendshipAction me other = none) :
    ∀ f ∈ s.friendships, f.between me other = false := by
  intro f hf
  rw [Store.lastFriendshipAction, Option.map_eq_none_iff, List.find?_eq_none] at h
  exact Bool.eq_false_iff.mpr (h f hf)

theorem lastFriendshipAction_eq_some {l : LastAction} (h : s.lastFriendshipAction me other = some l) :
    ∃ f ∈ s.friendships, f.id = l.friendshipId ∧ f.between me other = true := by
  obtain ⟨f, hf, rfl⟩ := Option.map_eq_some_iff.mp h
  exact ⟨f, List.mem_of_find?_eq_some hf, rfl,
    List.find?_some (p := fun g : Friendship => g.between me other) hf⟩

theorem held_applyToExisting : (applyToExisting s me other action).Held s := by
  unfold applyToExisting
  split
  · rename_i l hl
    exact lastFriendshipAction_eq_some hl
  · trivial

/-- Before its transaction a call leaves the rows as they are. -/
theorem advance_reads (h : advance s fresh now q = some (t, next))
    (hq : ∀ me other action existing, q ≠ .applying me other action existing) :
    t.friendships = s.friendships ∧ t.actions = s.actions ∧ next.Held s := by
  cases q with
  | ready call =>
    cases call with
    | upsertFriendship me other upsert =>
      simp only [advance] at h
      split_ifs at h
      all_goals
        obtain ⟨rfl, rfl⟩ := Prod.mk.inj (Option.some.inj h)
        exact ⟨rfl, rfl, trivial⟩
    | blockUser me other =>
      simp only [advance] at h
      split_ifs at h
      · obtain ⟨rfl, rfl⟩ := Prod.mk.inj (Option.some.inj h)
        exact ⟨rfl, rfl, trivial⟩
      · obtain ⟨rfl, rfl⟩ := Prod.mk.inj (Option.some.inj h)
        unfold Store.blockUser
        split <;> exact ⟨rfl, rfl, trivial⟩
    | unblockUser me other =>
      obtain ⟨rfl, rfl⟩ := Prod.mk.inj (Option.some.inj h)
      exact ⟨rfl, rfl, trivial⟩
  | unblocked me other upsert =>
    simp only [advance] at h
    split_ifs at h with hvalid
    · obtain ⟨rfl, rfl⟩ := Prod.mk.inj (Option.some.inj h)
      refine ⟨rfl, rfl, ?_⟩
      cases hlast : s.lastFriendshipAction me other with
      | some l => exact lastFriendshipAction_eq_some hlast
      | none =>
        rw [hlast] at hvalid
        cases upsert <;>
          simp [Progress.Held, userActionValid, transitionValid, Upsert.action] at hvalid ⊢
    · obtain ⟨rfl, rfl⟩ := Prod.mk.inj (Option.some.inj h)
      exact ⟨rfl, rfl, trivial⟩
  | blocking me other =>
    obtain ⟨rfl, rfl⟩ := Prod.mk.inj (Option.some.inj h)
    exact ⟨rfl, rfl, held_applyToExisting⟩
  | unblocking me other =>
    obtain ⟨rfl, rfl⟩ := Prod.mk.inj (Option.some.inj h)
    exact ⟨rfl, rfl, held_applyToExisting⟩
  | applying me other action existing => exact absurd rfl (hq me other action existing)
  | finished => cases h

/-- What a transaction can do. -/
theorem advance_writes {existing : Option ℕ}
    (h : advance s fresh now (.applying me other action existing) = some (t, next))
    (hheld : Progress.Held s (.applying me other action existing)) :
    next = .finished ∧
      (t = s ∧ existing = none ∨
        (∃ f ∈ s.friendships, existing = some f.id ∧ f.between me other = true ∧
          t = s.acted f.id action me now) ∨
        existing = none ∧ action = .request ∧
          (∀ f ∈ s.friendships, f.id ≠ fresh ∧ f.between me other = false) ∧
            t = s.requested fresh me other now) := by
  cases existing with
  | some id =>
    obtain ⟨f, hf, rfl, hb⟩ := hheld
    obtain ⟨rfl, rfl⟩ := Prod.mk.inj (Option.some.inj h)
    exact ⟨rfl, Or.inr (Or.inl ⟨f, hf, rfl, hb, rfl⟩)⟩
  | none =>
    obtain rfl : action = .request := hheld
    simp only [advance, Store.applyFriendshipAction] at h
    split_ifs at h with hany
    · obtain ⟨rfl, rfl⟩ := Prod.mk.inj (Option.some.inj h)
      exact ⟨rfl, Or.inl ⟨rfl, rfl⟩⟩
    · obtain ⟨rfl, rfl⟩ := Prod.mk.inj (Option.some.inj h)
      refine ⟨rfl, Or.inr (Or.inr ⟨rfl, rfl, fun f hf => ?_, rfl⟩)⟩
      simp only [List.any_eq_true, not_exists, not_and, decide_eq_true_eq, not_or,
        Bool.not_eq_true] at hany
      exact hany f hf

theorem sound_advance (hs : s.Sound) (hheld : q.Held s) (htimely : q.Timely s now)
    (h : advance s fresh now q = some (t, next)) : t.Sound := by
  by_cases hq : ∀ me other action existing, q ≠ .applying me other action existing
  · obtain ⟨hf, ha, -⟩ := advance_reads h hq
    exact sound_of_rows hs hf ha
  · push Not at hq
    obtain ⟨me, other, action, existing, rfl⟩ := hq
    obtain ⟨-, ⟨rfl, -⟩ | ⟨f, hf, rfl, hb, rfl⟩ | ⟨rfl, rfl, hnew, rfl⟩⟩ := advance_writes h hheld
    · exact hs
    · have hnow : ∀ l, latest (s.historyOf f.id) = some l → l.timestamp < now := htimely.1 f.id rfl
      exact ⟨keyed_acted hs.toKeyed hf hb,
        consensual_acted hs hf hb hnow fun haccept => (htimely.2 haccept).2⟩
    · exact ⟨keyed_requested hs.toKeyed hnew, consensual_requested hs hnew⟩

/-- Friendships stay, with their users. -/
theorem friendship_stays (hheld : q.Held s) (h : advance s fresh now q = some (t, next)) {f : Friendship}
    (hf : f ∈ s.friendships) : ∃ g ∈ t.friendships, g.id = f.id ∧ g.between = f.between := by
  by_cases hq : ∀ me other action existing, q ≠ .applying me other action existing
  · obtain ⟨hrows, -, -⟩ := advance_reads h hq
    exact ⟨f, hrows ▸ hf, rfl, rfl⟩
  · push Not at hq
    obtain ⟨me, other, action, existing, rfl⟩ := hq
    obtain ⟨-, ⟨rfl, -⟩ | ⟨g, hg, rfl, hb, rfl⟩ | ⟨rfl, rfl, hnew, rfl⟩⟩ := advance_writes h hheld
    · exact ⟨f, hf, rfl, rfl⟩
    · exact setActive_of_mem hf g.id action.impliesActive
    · exact ⟨f, List.mem_append_left _ hf, rfl, rfl⟩

theorem held_of_stays
    (hstays : ∀ f ∈ s.friendships, ∃ g ∈ t.friendships, g.id = f.id ∧ g.between = f.between)
    {p : Progress} (hp : p.Held s) : p.Held t := by
  cases p with
  | applying me other action existing =>
    cases existing with
    | some id =>
      obtain ⟨f, hf, hid, hb⟩ := hp
      obtain ⟨g, hg, hgid, hgb⟩ := hstays f hf
      exact ⟨g, hg, hgid.trans hid, hgb ▸ hb⟩
    | none => exact hp
  | ready call => trivial
  | unblocked me other upsert => trivial
  | blocking me other => trivial
  | unblocking me other => trivial
  | finished => trivial

theorem held_next (hheld : q.Held s) (h : advance s fresh now q = some (t, next)) : next.Held t := by
  by_cases hq : ∀ me other action existing, q ≠ .applying me other action existing
  · obtain ⟨-, -, hnext⟩ := advance_reads h hq
    exact held_of_stays (fun f hf => friendship_stays hheld h hf) hnext
  · push Not at hq
    obtain ⟨me, other, action, existing, rfl⟩ := hq
    obtain ⟨rfl, -⟩ := advance_writes h hheld
    trivial

/-! ### Blocks -/

theorem mem_pair_iff {f : Friendship} :
    (f.addressRequester, f.addressRequested) ∈ [(me, other), (other, me)] ↔ f.between me other = true := by
  simp [Friendship.between]

theorem isFriendshipBlocked_swap (a b : Address) :
    s.isFriendshipBlocked a b = s.isFriendshipBlocked b a := by
  simp only [Store.isFriendshipBlocked, decide_eq_decide]
  exact or_comm

/-- A block of another pair changes nothing for this one. -/
theorem unblocked_blockUser {pair : Address × Address} (hs : s.Unblocked pair)
    (hpair : pair ∉ [(me, other), (other, me)]) : (s.blockUser me other).Unblocked pair := by
  unfold Store.blockUser
  split
  · exact hs
  · intro f hf hfp hactive
    have hold := hs f hf hfp hactive
    simp only [List.mem_cons, List.not_mem_nil, or_false, not_or, Prod.ext_iff] at hpair
    simp only [Store.isFriendshipBlocked, List.mem_append, List.mem_singleton, Prod.mk.injEq,
      decide_eq_false_iff_not, not_or] at hold ⊢
    exact ⟨⟨hold.1, hpair.1⟩, hold.2, fun h => hpair.2 ⟨h.2, h.1⟩⟩

theorem unblocked_unblockUser {pair : Address × Address} (hs : s.Unblocked pair) :
    (s.unblockUser me other).Unblocked pair := by
  intro f hf hfp hactive
  have hold := hs f hf hfp hactive
  simp only [Store.isFriendshipBlocked, Store.unblockUser, List.mem_filter, decide_eq_false_iff_not,
    not_or] at hold ⊢
  exact ⟨fun h => hold.1 h.1, fun h => hold.2 h.1⟩

/-- An action other than an accept, and an accept where there is no block. -/
theorem unblocked_acted (hs : s.Keyed) {f : Friendship} (hf : f ∈ s.friendships)
    (hb : f.between me other = true)
    (hblock : action = .accept → s.isFriendshipBlocked me other = false) {pair : Address × Address}
    (hpair : s.Unblocked pair ∨ pair ∈ [(me, other), (other, me)]) :
    (s.acted f.id action me now).Unblocked pair := by
  intro g hg hgp hactive
  obtain ⟨h, hh, rfl⟩ := mem_setActive hg
  by_cases hid : h.id = f.id
  · obtain rfl := hs.ids h hh f hf hid
    rw [if_pos rfl] at hgp hactive
    have haccept : action = .accept := of_decide_eq_true hactive
    have hmem : pair ∈ [(me, other), (other, me)] := hgp ▸ mem_pair_iff.mpr hb
    simp only [List.mem_cons, List.not_mem_nil, or_false] at hmem
    obtain rfl | rfl := hmem
    · exact hblock haccept
    · exact (isFriendshipBlocked_swap _ _).trans (hblock haccept)
  · rw [if_neg hid] at hgp hactive
    obtain hpair | hpair := hpair
    · exact hpair h hh hgp hactive
    · rw [← hgp, mem_pair_iff] at hpair
      exact absurd (congrArg Friendship.id (hs.pairs h hh f hf me other hpair hb)) hid

theorem unblocked_requested {pair : Address × Address} (hs : s.Unblocked pair) :
    (s.requested fresh me other now).Unblocked pair := by
  intro g hg hgp hactive
  obtain hg | hg := List.mem_append.mp hg
  · exact hs g hg hgp hactive
  · obtain rfl := List.mem_singleton.mp hg
    cases hactive

theorem blocksOwed_applying {existing : Option ℕ} {pair : Address × Address}
    (h : pair ∈ (Progress.applying me other action existing).blocksOwed) :
    action = .block ∧ pair ∈ [(me, other), (other, me)] := by
  cases action with
  | block => exact ⟨rfl, h⟩
  | request => cases h
  | accept => cases h
  | cancel => cases h
  | reject => cases h
  | delete => cases h

/-- A block that is inserted still ends the friendship, if there is one. -/
theorem blocked_applyToExisting {pair : Address × Address} (hpair : pair ∈ [(me, other), (other, me)]) :
    s.Unblocked pair ∨ pair ∈ (applyToExisting s me other .block).blocksOwed := by
  unfold applyToExisting
  split
  · exact Or.inr hpair
  · rename_i hnone
    left
    intro f hf hfp
    rw [← hfp, mem_pair_iff, lastFriendshipAction_eq_none hnone f hf] at hpair
    cases hpair

/-- What a step does to a pair whose friendship is not active beside a block, or owed an end. -/
theorem blocked_advance (hs : s.Keyed) (hheld : q.Held s) (htimely : q.Timely s now)
    (h : advance s fresh now q = some (t, next)) (pair : Address × Address) :
    (s.Unblocked pair → t.Unblocked pair ∨ pair ∈ next.blocksOwed) ∧
      (pair ∈ q.blocksOwed → t.Unblocked pair ∨ pair ∈ next.blocksOwed) := by
  cases q with
  | ready call =>
    refine ⟨fun hpair => ?_, fun howed => absurd howed List.not_mem_nil⟩
    cases call with
    | upsertFriendship me other upsert =>
      simp only [advance] at h
      split_ifs at h
      all_goals
        obtain ⟨rfl, rfl⟩ := Prod.mk.inj (Option.some.inj h)
        exact Or.inl hpair
    | blockUser me other =>
      simp only [advance] at h
      split_ifs at h
      · obtain ⟨rfl, rfl⟩ := Prod.mk.inj (Option.some.inj h)
        exact Or.inl hpair
      · obtain ⟨rfl, rfl⟩ := Prod.mk.inj (Option.some.inj h)
        by_cases hmem : pair ∈ [(me, other), (other, me)]
        · exact Or.inr hmem
        · exact Or.inl (unblocked_blockUser hpair hmem)
    | unblockUser me other =>
      obtain ⟨rfl, rfl⟩ := Prod.mk.inj (Option.some.inj h)
      exact Or.inl (unblocked_unblockUser hpair)
  | unblocked me other upsert =>
    refine ⟨fun hpair => ?_, fun howed => absurd howed List.not_mem_nil⟩
    simp only [advance] at h
    split_ifs at h
    all_goals
      obtain ⟨rfl, rfl⟩ := Prod.mk.inj (Option.some.inj h)
      exact Or.inl hpair
  | blocking me other =>
    obtain ⟨rfl, rfl⟩ := Prod.mk.inj (Option.some.inj h)
    exact ⟨Or.inl, blocked_applyToExisting⟩
  | unblocking me other =>
    obtain ⟨rfl, rfl⟩ := Prod.mk.inj (Option.some.inj h)
    exact ⟨Or.inl, fun howed => absurd howed List.not_mem_nil⟩
  | applying me other action existing =>
    obtain ⟨rfl, hcases⟩ := advance_writes h hheld
    obtain ⟨rfl, rfl⟩ | ⟨f, hf, rfl, hb, rfl⟩ | ⟨rfl, rfl, -, rfl⟩ := hcases
    · refine ⟨Or.inl, fun howed => ?_⟩
      -- a block never finds nothing to write to
      obtain ⟨rfl, -⟩ := blocksOwed_applying howed
      cases hheld
    · have hblock : action = .accept → s.isFriendshipBlocked me other = false :=
        fun haccept => (htimely.2 haccept).1
      exact ⟨fun hpair => Or.inl (unblocked_acted hs hf hb hblock (Or.inl hpair)),
        fun howed => Or.inl (unblocked_acted hs hf hb hblock (Or.inr (blocksOwed_applying howed).2))⟩
    · exact ⟨fun hpair => Or.inl (unblocked_requested hpair), fun howed => absurd howed List.not_mem_nil⟩
  | finished => cases h

end Steps

/-! ### Runs -/

structure System.Sound (y : System) : Prop where
  store : y.store.Sound
  held : ∀ q ∈ y.calls, q.Held y.store
  blocked : ∀ pair, y.store.Unblocked pair ∨ pair ∈ y.calls.flatMap Progress.blocksOwed

/-- The step is not overtaken by another call. -/
def Undisturbed (y : System) : Event → Prop
  | .start _ => True
  | .statement i _ now => ∀ q ∈ y.calls[i]?, q.Timely y.store now

instance decidableTimely (s : Store) (now : ℤ) : (q : Progress) → Decidable (q.Timely s now)
  | .applying me other action existing =>
    inferInstanceAs (Decidable ((∀ id ∈ existing, ∀ l ∈ latest (s.historyOf id), l.timestamp < now) ∧
      (action = .accept → s.isFriendshipBlocked me other = false ∧
        userActionValid me .accept other (s.lastFriendshipAction me other) = true)))
  | .ready _ => inferInstanceAs (Decidable True)
  | .unblocked _ _ _ => inferInstanceAs (Decidable True)
  | .blocking _ _ => inferInstanceAs (Decidable True)
  | .unblocking _ _ => inferInstanceAs (Decidable True)
  | .finished => inferInstanceAs (Decidable True)

instance decidableUndisturbed (y : System) : (e : Event) → Decidable (Undisturbed y e)
  | .start _ => inferInstanceAs (Decidable True)
  | .statement i _ now => inferInstanceAs (Decidable (∀ q ∈ y.calls[i]?, q.Timely y.store now))

theorem sound_step (y : System) (e : Event) (z : System) (hy : y.Sound) (hok : Undisturbed y e)
    (h : y.step e = some z) : z.Sound := by
  cases e with
  | start call =>
    obtain rfl := Option.some.inj h
    refine ⟨hy.store, fun q hq => ?_, fun pair => (hy.blocked pair).imp_right fun hp => ?_⟩
    · obtain hq | hq := List.mem_append.mp hq
      · exact hy.held q hq
      · obtain rfl := List.mem_singleton.mp hq
        trivial
    · rw [List.flatMap_append]
      exact List.mem_append_left _ hp
  | statement i fresh now =>
    obtain ⟨q, hq, hrest⟩ := Option.bind_eq_some_iff.mp h
    obtain ⟨⟨t, next⟩, hadv, hz⟩ := Option.bind_eq_some_iff.mp hrest
    obtain rfl := Option.some.inj hz
    have hheld : q.Held y.store := hy.held q (List.mem_of_getElem? hq)
    refine ⟨sound_advance hy.store hheld (hok q hq) hadv, fun p hp => ?_, fun pair => ?_⟩
    · obtain hp | rfl := List.mem_or_eq_of_mem_set hp
      · exact held_of_stays (fun f hf => friendship_stays hheld hadv hf) (hy.held p hp)
      · exact held_next hheld hadv
    · obtain ⟨hkept, howed⟩ := blocked_advance hy.store.toKeyed hheld (hok q hq) hadv pair
      exact Procs.settled_or_owed_set hq hkept howed (hy.blocked pair)

def System.empty : System := ⟨⟨[], [], []⟩, []⟩

theorem sound_empty : System.empty.Sound := by
  refine ⟨⟨⟨?_, ?_, ?_⟩, ⟨?_, ?_⟩⟩, ?_, fun pair => Or.inl ?_⟩
  all_goals
    intro x hx
    cases hx

/-- While no call is in progress: an active friendship was agreed to and no block stands beside it. -/
theorem friendship_needs_consent (events : List Event) (y : System)
    (hmeets : Machine.Meets System.step Undisturbed System.empty events)
    (hrun : Machine.run System.step System.empty events = some y)
    (hdone : ∀ q ∈ y.calls, q = .finished) :
    y.store.Consensual ∧ ∀ f ∈ y.store.friendships, f.isActive = true →
      y.store.isFriendshipBlocked f.addressRequester f.addressRequested = false := by
  have hsound : y.Sound :=
    Machine.run_invariant_of_meets System.step sound_step events _ y hmeets hrun sound_empty
  refine ⟨hsound.store.toConsensual, fun f hf hactive => ?_⟩
  obtain hpair | hpair := hsound.blocked (f.addressRequester, f.addressRequested)
  · exact hpair f hf rfl hactive
  · obtain ⟨q, hq, howed⟩ := List.mem_flatMap.mp hpair
    rw [hdone q hq] at howed
    cases howed

/-- A call all of whose steps are taken at once; its transaction draws `fresh` at `now`. -/
def uninterrupted (index fresh : ℕ) (now : ℤ) (call : Call) : List Event :=
  [.start call, .statement index fresh now, .statement index fresh now, .statement index fresh now]

theorem friendship_needs_consent_run :
    ∃ y, Machine.run System.step System.empty
        (uninterrupted 0 7 1 (.upsertFriendship ['a'] ['b'] .request) ++
          uninterrupted 1 8 2 (.upsertFriendship ['b'] ['a'] .accept)) = some y ∧
      y.store.friendships = [⟨7, ['a'], ['b'], true⟩] ∧ y.store.Consensual := by
  obtain ⟨y, hrun, hrest⟩ := Option.map_eq_some_iff.mp (show
    (Machine.run System.step System.empty
      (uninterrupted 0 7 1 (.upsertFriendship ['a'] ['b'] .request) ++
        uninterrupted 1 8 2 (.upsertFriendship ['b'] ['a'] .accept))).map
          (fun y => (y.calls, y.store.friendships)) =
        some ([.finished, .finished], [⟨7, ['a'], ['b'], true⟩]) by decide)
  obtain ⟨hcalls, hfriends⟩ := Prod.mk.inj hrest
  exact ⟨y, hrun, hfriends,
    (friendship_needs_consent _ y (by decide) hrun (by simp [hcalls])).1⟩

/-- Between the reads and the transaction of an accept, the request is cancelled and the user
blocked. -/
def overtaken : List Event :=
  uninterrupted 0 7 1 (.upsertFriendship ['a'] ['b'] .request) ++
    [.start (.upsertFriendship ['b'] ['a'] .accept), .statement 1 8 4, .statement 1 8 4] ++
    uninterrupted 2 9 2 (.upsertFriendship ['a'] ['b'] .cancel) ++
    uninterrupted 3 10 3 (.blockUser ['a'] ['b']) ++ [.statement 1 8 4]

def overtakenStore : Store :=
  ⟨[⟨7, ['a'], ['b'], true⟩],
    [⟨7, .request, ['a'], 1⟩, ⟨7, .cancel, ['a'], 2⟩, ⟨7, .block, ['a'], 3⟩, ⟨7, .accept, ['b'], 4⟩],
    [(['a'], ['b'])]⟩

theorem overtaken_accept_stands :
    Machine.run System.step System.empty overtaken =
        some ⟨overtakenStore, [.finished, .finished, .finished, .finished]⟩ ∧
      ¬ overtakenStore.Consensual ∧ ∃ f ∈ overtakenStore.friendships, f.isActive = true ∧
        overtakenStore.isFriendshipBlocked f.addressRequester f.addressRequested = true := by
  refine ⟨by decide, fun hconsensual => ?_, ⟨7, ['a'], ['b'], true⟩, by decide, rfl, by decide⟩
  obtain ⟨r, hr, hrequest, -, -, -, hnone⟩ :=
    hconsensual.answered ⟨7, ['a'], ['b'], true⟩ (by decide) ⟨7, .accept, ['b'], 4⟩ (by decide) rfl
  have hcancel := hnone ⟨7, .cancel, ['a'], 2⟩ (by decide)
  have hhistory : overtakenStore.historyOf 7 = overtakenStore.actions := by decide
  rw [hhistory] at hr
  simp only [overtakenStore, List.mem_cons, List.not_mem_nil, or_false] at hr
  rcases hr with rfl | rfl | rfl | rfl
  · exact hcancel (by decide)
  · cases hrequest
  · cases hrequest
  · cases hrequest

end Catalyrst.Social.Friends
